import Mathlib.Algebra.Group.Int.Defs
import Mathlib.Algebra.GroupWithZero.Nat
import Mathlib.Logic.Function.Basic
import Mathlib.Tactic.Common

/-!
# Length-prefixed fields

The byte strings that digests are taken of: fields one after another, each
behind its length in eight big-endian bytes. No delimiter, so no escaping,
and no two field lists with the same bytes (`field_append_inj`).
-/

namespace ReliableMessaging

open List

abbrev Bytes : Type := List UInt8

/-- A digest function. No digest begins another one, as all of SHA-256 have one length. -/
structure Sha256 where
  sum : Bytes → Bytes
  sum_ne_nil : ∀ x, sum x ≠ []
  prefixFree : ∀ {x y}, sum x <+: sum y → sum x = sum y

/-- The assumption that no two inputs meet in one digest, for the results that rest on it. -/
class Sha256.CollisionFree (H : Sha256) : Prop where
  injective : Function.Injective H.sum

theorem Sha256.sum_injective (H : Sha256) [H.CollisionFree] : Function.Injective H.sum :=
  CollisionFree.injective

/-- A length in bytes that tell where they end: as many 255s as it has. -/
def lengthCode (n : Nat) : Bytes := List.replicate (n / 255) 255 ++ [UInt8.ofNat (n % 255)]

/-- The bytes behind the code of their length: a digest without collisions. -/
def counted (x : Bytes) : Bytes := lengthCode x.length ++ x

theorem replicate_prefix_inj {a b : Nat} {c d : UInt8} {u v : Bytes} (hc : c ≠ 255) (hd : d ≠ 255)
    (h : List.replicate a 255 ++ c :: u <+: List.replicate b 255 ++ d :: v) :
    a = b ∧ c = d ∧ u <+: v := by
  induction a generalizing b with
  | zero =>
    cases b with
    | zero =>
      obtain ⟨hcd, huv⟩ := cons_prefix_cons.mp h
      exact ⟨rfl, hcd, huv⟩
    | succ b => exact absurd (cons_prefix_cons.mp h).1 hc
  | succ a ih =>
    cases b with
    | zero => exact absurd (cons_prefix_cons.mp h).1.symm hd
    | succ b =>
      obtain ⟨hab, hrest⟩ := ih (cons_prefix_cons.mp h).2
      exact ⟨congrArg (· + 1) hab, hrest⟩

variable {x y a b : Bytes} {m n : Nat}

theorem counted_prefixFree (h : counted x <+: counted y) : x = y := by
  have hne : ∀ n : Nat, UInt8.ofNat (n % 255) ≠ 255 := by
    intro n heq
    have hval := congrArg UInt8.toNat heq
    rw [UInt8.toNat_ofNat'] at hval
    have hlt := Nat.mod_lt n (show 0 < 255 by decide)
    rw [Nat.mod_eq_of_lt (by omega)] at hval
    exact absurd hval (by have h255 : (255 : UInt8).toNat = 255 := rfl; omega)
  simp only [counted, lengthCode, append_assoc, singleton_append] at h
  obtain ⟨hdiv, hmod, hxy⟩ := replicate_prefix_inj (hne _) (hne _) h
  have hval := congrArg UInt8.toNat hmod
  rw [UInt8.toNat_ofNat', UInt8.toNat_ofNat'] at hval
  exact hxy.eq_of_length (by omega)

instance : Inhabited Sha256 := ⟨counted, by simp [counted, lengthCode], fun h =>
  congrArg counted (counted_prefixFree h)⟩

/-- Collision freedom can be had. -/
instance : (default : Sha256).CollisionFree := ⟨fun x y (h : counted x = counted y) =>
  counted_prefixFree (h ▸ prefix_refl _)⟩

def utf8 (s : String) : Bytes := s.toUTF8.data.toList

theorem utf8_injective : Function.Injective utf8 := by
  intro s t h
  apply String.toByteArray_inj.mp
  apply ByteArray.ext
  exact Array.toList_inj.mp h

theorem length_utf8 (s : String) : (utf8 s).length = s.utf8ByteSize := rfl

def be64 (n : Nat) : Bytes :=
  [n / 2 ^ 56, n / 2 ^ 48, n / 2 ^ 40, n / 2 ^ 32, n / 2 ^ 24, n / 2 ^ 16, n / 2 ^ 8, n].map
    UInt8.ofNat

@[simp] theorem length_be64 (n : Nat) : (be64 n).length = 8 := rfl

theorem ofNat_inj_mod (h : UInt8.ofNat m = UInt8.ofNat n) : m % 256 = n % 256 := by
  have h' := congrArg UInt8.toNat h
  simpa using h'

theorem be64_inj (hm : m < 2 ^ 64) (hn : n < 2 ^ 64) (h : be64 m = be64 n) : m = n := by
  simp only [be64, map_cons, map_nil, List.cons.injEq, and_true] at h
  obtain ⟨h7, h6, h5, h4, h3, h2, h1, h0⟩ := h
  have e7 := ofNat_inj_mod h7
  have e6 := ofNat_inj_mod h6
  have e5 := ofNat_inj_mod h5
  have e4 := ofNat_inj_mod h4
  have e3 := ofNat_inj_mod h3
  have e2 := ofNat_inj_mod h2
  have e1 := ofNat_inj_mod h1
  have e0 := ofNat_inj_mod h0
  clear h7 h6 h5 h4 h3 h2 h1 h0
  omega

def field (value : Bytes) : Bytes := be64 value.length ++ value

theorem length_field (value : Bytes) : (field value).length = 8 + value.length := by
  simp [field, length_be64]

theorem field_append_inj (ha : a.length < 2 ^ 64) (hb : b.length < 2 ^ 64)
    (h : field a ++ x = field b ++ y) : a = b ∧ x = y := by
  simp only [field, append_assoc] at h
  obtain ⟨hlen, hrest⟩ := append_inj h (by simp [length_be64])
  have hl : a.length = b.length := be64_inj ha hb hlen
  exact append_inj hrest hl

/-- A digest field is recovered too, with no bound on its length. -/
theorem field_sum_append_inj {H : Sha256} (h : field (H.sum a) ++ x = field (H.sum b) ++ y) :
    H.sum a = H.sum b ∧ x = y := by
  simp only [field, append_assoc] at h
  obtain ⟨-, hrest⟩ := append_inj h (by simp [length_be64])
  have hab : H.sum a = H.sum b := by
    rcases prefix_or_prefix_of_prefix (prefix_append (H.sum a) x)
      (hrest ▸ prefix_append (H.sum b) y) with h' | h'
    · exact H.prefixFree h'
    · exact (H.prefixFree h').symm
  rw [hab] at hrest
  exact ⟨hab, append_cancel_left hrest⟩

/-- The last field needs no bound: what follows the length is the field. -/
theorem field_inj (h : field a = field b) : a = b := by
  unfold field at h
  exact (append_inj h (by simp [length_be64])).2

/-- Any number of fields is recovered, without knowing how many there are. -/
theorem flatMap_field_inj {as bs : List Bytes} (ha : ∀ a ∈ as, a.length < 2 ^ 64)
    (hb : ∀ b ∈ bs, b.length < 2 ^ 64) (h : as.flatMap field = bs.flatMap field) : as = bs := by
  have hpositive : ∀ (c : Bytes) (cs : List Bytes), (c :: cs).flatMap field ≠ [] := by
    intro c cs hnil
    have hlength := congrArg List.length hnil
    simp only [flatMap_cons, length_append, length_field, length_nil] at hlength
    omega
  induction as generalizing bs with
  | nil =>
    cases bs with
    | nil => rfl
    | cons b bs => exact absurd h.symm (hpositive b bs)
  | cons a as ih =>
    cases bs with
    | nil => exact absurd h (hpositive a as)
    | cons b bs =>
      rw [flatMap_cons, flatMap_cons] at h
      obtain ⟨hab, hrest⟩ := field_append_inj (ha a mem_cons_self) (hb b mem_cons_self) h
      rw [hab, ih (fun a' ha' => ha a' (mem_cons_of_mem _ ha'))
        (fun b' hb' => hb b' (mem_cons_of_mem _ hb')) hrest]

theorem length_utf8_lt {s : String} (h : s.utf8ByteSize ≤ n) (hn : n < 2 ^ 64) :
    (utf8 s).length < 2 ^ 64 := by
  rw [length_utf8]
  omega

end ReliableMessaging
