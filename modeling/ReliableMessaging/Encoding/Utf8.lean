import Mathlib.Data.String.Basic
import ReliableMessaging.Encoding.Fields

/-!
# UTF-8 keeps the order of code points

Comparing two texts byte by byte and comparing them code point by code point
comes to the same (`utf8_lt_iff`): of two characters the greater one begins
with the greater byte at the first place where their encodings differ, and
neither encoding begins the other. So a program that sorts by bytes and one
that sorts by code points put texts into the same order.
-/

namespace ReliableMessaging

open List

theorem utf8_eq_flatMap (s : String) : utf8 s = s.toList.flatMap String.utf8EncodeChar := by
  have henc : s.toUTF8 = s.toList.utf8Encode := String.utf8Encode_toList.symm
  rw [utf8, henc, List.utf8Encode]
  simp

theorem utf8_append (s t : String) : utf8 (s ++ t) = utf8 s ++ utf8 t := by
  rw [utf8_eq_flatMap, utf8_eq_flatMap, utf8_eq_flatMap, String.toList_append, flatMap_append]

theorem utf8_ofList (chars : List Char) :
    utf8 (String.ofList chars) = chars.flatMap String.utf8EncodeChar := by
  rw [utf8_eq_flatMap, String.toList_ofList]

theorem utf8_eq_nil {s : String} : utf8 s = [] ↔ s = "" :=
  ⟨fun h => utf8_injective h, fun h => h ▸ rfl⟩

theorem validateUTF8_utf8 (s : String) : ByteArray.validateUTF8 ⟨(utf8 s).toArray⟩ = true := by
  have hbytes : (⟨(utf8 s).toArray⟩ : ByteArray) = s.toByteArray := by
    simp [utf8, String.toUTF8_eq_toByteArray]
  rw [hbytes]
  exact ByteArray.validateUTF8_eq_true_iff.mpr s.isValidUTF8

theorem encodeChar_ne_nil (c : Char) : String.utf8EncodeChar c ≠ [] := by
  intro hnil
  have hlength := String.length_utf8EncodeChar c
  rw [hnil] at hlength
  exact absurd hlength (Nat.ne_of_lt (Char.utf8Size_pos c))

/-! ## ASCII -/

theorem encodeChar_ascii {c : Char} (h : c.toNat ≤ 127) :
    String.utf8EncodeChar c = [UInt8.ofNat c.toNat] :=
  if_pos h

theorem encodeChar_wide {c : Char} (h : 127 < c.toNat) :
    ∀ b ∈ String.utf8EncodeChar c, 127 < b.toNat := by
  have hc : 127 < c.val.toNat := h
  intro b hb
  simp only [String.utf8EncodeChar, if_neg (Nat.not_le.mpr hc)] at hb
  split_ifs at hb <;>
    simp only [mem_cons, not_mem_nil, or_false] at hb <;>
    rcases hb with rfl | rfl | rfl | rfl <;>
    simp only [UInt8.toNat_ofNat'] <;> omega

theorem mem_encodeChar_ascii {b : UInt8} (hb : b.toNat ≤ 127) {c : Char} :
    b ∈ String.utf8EncodeChar c ↔ c.toNat = b.toNat := by
  by_cases hc : c.toNat ≤ 127
  · rw [encodeChar_ascii hc, mem_singleton, ← UInt8.toNat_inj, UInt8.toNat_ofNat',
      Nat.mod_eq_of_lt (by omega)]
    exact eq_comm
  · refine iff_of_false (fun hmem => ?_) (by omega)
    have hwide := encodeChar_wide (Nat.lt_of_not_le hc) b hmem
    omega

theorem mem_utf8_ascii {b : UInt8} (hb : b.toNat ≤ 127) {s : String} :
    b ∈ utf8 s ↔ ∃ c ∈ s.toList, c.toNat = b.toNat := by
  rw [utf8_eq_flatMap, mem_flatMap]
  simp [mem_encodeChar_ascii hb]

theorem toNat_ofNat_ascii {n : Nat} (h : n ≤ 127) : (Char.ofNat n).toNat = n := by
  have hvalid : n.isValidChar := .inl (by omega)
  rw [Char.ofNat, dif_pos hvalid]
  rfl

theorem utf8_ascii {value : Bytes} (h : ∀ b ∈ value, b.toNat ≤ 127) :
    utf8 (String.ofList (value.map fun b => Char.ofNat b.toNat)) = value := by
  rw [utf8_ofList, flatMap_map]
  induction value with
  | nil => rfl
  | cons b value ih =>
    have hb := h b mem_cons_self
    have hchar := toNat_ofNat_ascii hb
    rw [flatMap_cons, encodeChar_ascii (by omega), hchar, UInt8.ofNat_toNat,
      ih fun c hc => h c (mem_cons_of_mem _ hc)]
    rfl

/-! ## The order of texts -/

theorem digits_lt {a b c d a' b' c' d' : Nat} (hb : b < 64) (hc : c < 64) (hd : d < 64)
    (hb' : b' < 64) (hc' : c' < 64) (hd' : d' < 64)
    (h : ((64 * a + b) * 64 + c) * 64 + d < ((64 * a' + b') * 64 + c') * 64 + d') :
    a < a' ∨ a = a' ∧ (b < b' ∨ b = b' ∧ (c < c' ∨ c = c' ∧ d < d')) := by
  omega

theorem sixBits (v : Nat) :
    ((64 * (v / 262144) + v / 4096 % 64) * 64 + v / 64 % 64) * 64 + v % 64 = v := by
  omega

theorem fourBytes_lt {v w : Nat} (h : v < w) (hw : w < 0x110000) (x y : Bytes) :
    [UInt8.ofNat (v / 262144 % 8 + 240), UInt8.ofNat (v / 4096 % 64 + 128),
      UInt8.ofNat (v / 64 % 64 + 128), UInt8.ofNat (v % 64 + 128)] ++ x <
    [UInt8.ofNat (w / 262144 % 8 + 240), UInt8.ofNat (w / 4096 % 64 + 128),
      UInt8.ofNat (w / 64 % 64 + 128), UInt8.ofNat (w % 64 + 128)] ++ y := by
  have hv : v < 0x110000 := by omega
  rw [← sixBits v, ← sixBits w] at h
  have hdigits := digits_lt (by omega) (by omega) (by omega) (by omega) (by omega) (by omega) h
  simp only [cons_append, nil_append, cons_lt_cons_iff, UInt8.lt_iff_toNat_lt,
    ← UInt8.toNat_inj, UInt8.toNat_ofNat']
  simp (disch := omega) only [Nat.mod_eq_of_lt]
  clear h
  generalize v / 4096 % 64 = b at *
  generalize v / 64 % 64 = c at *
  generalize w / 4096 % 64 = b' at *
  generalize w / 64 % 64 = c' at *
  omega

theorem encodeChar_lt {c d : Char} (h : c < d) (x y : Bytes) :
    String.utf8EncodeChar c ++ x < String.utf8EncodeChar d ++ y := by
  have hlt : c.val.toNat < d.val.toNat := h
  have hd : d.val.toNat < 0x110000 := by
    rcases d.valid with hd | hd <;> omega
  simp only [String.utf8EncodeChar]
  by_cases hc : 65535 < c.val.toNat
  · simp (disch := omega) only [if_neg]
    exact fourBytes_lt hlt hd x y
  · split_ifs <;>
      simp only [cons_append, nil_append, cons_lt_cons_iff,
        UInt8.lt_iff_toNat_lt, ← UInt8.toNat_inj, UInt8.toNat_ofNat'] <;>
      omega

theorem append_lt_append (x : Bytes) {y z : Bytes} : x ++ y < x ++ z ↔ y < z := by
  induction x with
  | nil => rfl
  | cons b x ih => simp [ih]

/-- Byte order is the order of code points. -/
theorem utf8_lt_iff {a b : String} : utf8 a < utf8 b ↔ a < b := by
  rw [String.lt_iff_toList_lt, utf8_eq_flatMap, utf8_eq_flatMap]
  generalize a.toList = s
  generalize b.toList = t
  induction s generalizing t with
  | nil =>
    cases t with
    | nil => simp
    | cons d t =>
      have hd : String.utf8EncodeChar d ≠ [] := String.utf8EncodeChar_ne_nil
      obtain ⟨e, es, hes⟩ := exists_cons_of_ne_nil hd
      simp [hes]
  | cons c s ih =>
    cases t with
    | nil => simp
    | cons d t =>
      rw [flatMap_cons, flatMap_cons, cons_lt_cons_iff]
      rcases lt_trichotomy c d with hlt | rfl | hgt
      · exact iff_of_true (encodeChar_lt hlt _ _) (.inl hlt)
      · simp [append_lt_append, ih]
      · refine iff_of_false (List.lt_asymm (encodeChar_lt hgt _ _)) ?_
        rintro (hlt | ⟨rfl, -⟩)
        · exact lt_asymm hgt hlt
        · exact lt_irrefl c hgt

end ReliableMessaging
