import Mathlib.Data.List.Perm.Basic
import Mathlib.Data.List.Sort
import ReliableMessaging.Encoding.Utf8
import ReliableMessaging.Wire.Legacy

/-!
# Go and Python write the same bytes

The same envelope, with its metadata met in any order, gives the same bytes
from both writers. Three things have to agree: the order of the metadata, the
escapes, and the fields that are left out when they are empty.
-/

namespace ReliableMessaging.Wire

open List Json

open Json (Value Escape)

/-! ## The order of the metadata -/

section Order

variable {m m' : Metadata}

/-- One entry a key. -/
def Metadata.Distinct (m : Metadata) : Prop := (m.map Prod.fst).Nodup

theorem lookup_eq_some (hm : m.Distinct) {key value : String} :
    m.lookup key = some value ↔ (key, value) ∈ m := by
  induction m with
  | nil => simp
  | cons e m ih =>
    obtain ⟨k, v⟩ := e
    obtain ⟨hnew, hrest⟩ := nodup_cons.mp hm
    by_cases hkey : key = k
    · subst hkey
      have hother : (key, value) ∉ m := fun h => hnew (mem_map.mpr ⟨_, h, rfl⟩)
      simp [hother, eq_comm]
    · have hhead : (key, value) ≠ (k, v) := fun h => hkey (congrArg Prod.fst h)
      rw [lookup_cons, beq_false_of_ne hkey, mem_cons, or_iff_right hhead]
      exact ih hrest

theorem eq_of_key (hm : m.Distinct) {a b : String × String} (ha : a ∈ m) (hb : b ∈ m)
    (h : a.1 = b.1) : a = b := by
  have hvalue : some a.2 = some b.2 := by
    rw [← (lookup_eq_some hm).mpr ha, ← (lookup_eq_some hm).mpr hb, h]
  exact Prod.ext h (Option.some.inj hvalue)

theorem sortedKeys_eq (m : Metadata) : Go.sortedKeys m = Python.sortedKeys m := by
  unfold Go.sortedKeys Python.sortedKeys
  congr 1
  funext a b
  rw [decide_eq_decide.mpr utf8_lt_iff, ← decide_not]
  exact decide_eq_decide.mpr not_lt

theorem sortedKeys_perm (h : m.Perm m') : Python.sortedKeys m = Python.sortedKeys m' := by
  have hkeys : (Python.sortedKeys m).Perm (Python.sortedKeys m') :=
    ((mergeSort_perm _ _).trans (h.map _)).trans (mergeSort_perm _ _).symm
  exact List.Perm.eq_of_sortedLE sortedLE_mergeSort sortedLE_mergeSort hkeys

theorem lookup_perm (hm : m.Distinct) (h : m.Perm m') (key : String) :
    m.lookup key = m'.lookup key := by
  have hm' : m'.Distinct := (h.map _).nodup hm
  ext value
  rw [lookup_eq_some hm, lookup_eq_some hm', h.mem_iff]

/-- The entries in the order of their keys, however they are sorted. -/
theorem sortedEntries_eq (hm : m.Distinct) (h : m.Perm m') :
    Go.sortedEntries m = Python.sortedItems m' := by
  have hm' : m'.Distinct := (h.map _).nodup hm
  have hitems : (Python.sortedItems m').Perm m' := mergeSort_perm _ _
  have hentries : (Go.sortedEntries m).Perm m := by
    have hkeys : (Go.sortedKeys m).Perm (m.map Prod.fst) := mergeSort_perm _ _
    have hself : (m.map Prod.fst).map (fun key => (key, Go.get m key)) = m := by
      rw [map_map]
      refine (map_congr_left fun e he => ?_).trans (map_id _)
      simp [Go.get, (lookup_eq_some hm).mpr he]
    exact (hkeys.map _).trans (.of_eq hself)
  -- Both lists are sorted by their keys, and keys tell the entries apart.
  have hsorted : (Go.sortedEntries m).Pairwise fun a b => a.1 ≤ b.1 := by
    rw [Go.sortedEntries, pairwise_map, sortedKeys_eq]
    exact sortedLE_mergeSort.pairwise
  have hsorted' : (Python.sortedItems m').Pairwise fun a b => a.1 ≤ b.1 := by
    have hpairs : (Python.sortedItems m').Pairwise fun a b =>
        decide (a.1 < b.1 ∨ a.1 = b.1 ∧ a.2 ≤ b.2) = true :=
      pairwise_mergeSort (by grind) (by grind) m'
    refine hpairs.imp fun hab => ?_
    rcases of_decide_eq_true hab with hlt | ⟨heq, -⟩
    · exact hlt.le
    · exact heq.le
  refine List.Perm.eq_of_pairwise (fun a b ha hb hab hba => ?_) hsorted hsorted'
    (hentries.trans (h.trans hitems.symm))
  exact eq_of_key hm (hentries.mem_iff.mp ha) (h.mem_iff.mpr (hitems.mem_iff.mp hb))
    (le_antisymm hab hba)

end Order

/-! ## The escapes -/

/-- The characters that Go escapes and `json.dumps` leaves. -/
def html : List Char := ['&', '<', '>', Char.ofNat 0x2028, Char.ofNat 0x2029]

/-- What `go_json` makes of a character of the finished text. -/
def htmlEscape (c : Char) : Json.Text := if c ∈ html then unicodeEscape c else [c]

theorem htmlEscape_kept {c : Char} (h : c ∉ html) : htmlEscape c = [c] := if_neg h

theorem goEscape_eq (c : Char) :
    goEscape c = if c ∈ html then unicodeEscape c else controlEscape c := by
  have hline : c.toNat = (Char.ofNat 0x2028).toNat ↔ c = Char.ofNat 0x2028 := Char.toNat_inj
  have hparagraph : c.toNat = (Char.ofNat 0x2029).toNat ↔ c = Char.ofNat 0x2029 := Char.toNat_inj
  refine if_congr ?_ rfl rfl
  simp only [html, mem_cons, not_mem_nil, or_false, ← hline, ← hparagraph]
  constructor
  · rintro (h | h | h | h | h) <;> simp [h]
  · rintro (h | h | h | h | h) <;> simp [h]

theorem replacements (text : Json.Text) :
    Python.replace (Char.ofNat 0x2029) ['\\', 'u', '2', '0', '2', '9']
      (Python.replace (Char.ofNat 0x2028) ['\\', 'u', '2', '0', '2', '8']
        (Python.replace '>' ['\\', 'u', '0', '0', '3', 'e']
          (Python.replace '<' ['\\', 'u', '0', '0', '3', 'c']
            (Python.replace '&' ['\\', 'u', '0', '0', '2', '6'] text)))) =
      text.flatMap htmlEscape := by
  simp only [Python.replace, flatMap_assoc]
  congr 1
  funext c
  by_cases hc : c ∈ html
  · simp only [html, mem_cons, not_mem_nil, or_false] at hc
    rcases hc with rfl | rfl | rfl | rfl | rfl <;> decide
  · rw [htmlEscape_kept hc]
    simp only [html, mem_cons, not_mem_nil, or_false, not_or] at hc
    simp [hc]

theorem hexDigit_not_html : ∀ n < 16, hexDigit n ∉ html := by decide

/-- An escape of `json.dumps` brings in nothing that Go would escape. -/
theorem controlEscape_not_html {c d : Char} (hc : c ∉ html) (hd : d ∈ controlEscape c) :
    d ∉ html := by
  have hunicode : d ∈ unicodeEscape c → d ∉ html := by
    intro h
    simp only [unicodeEscape, mem_cons, not_mem_nil, or_false] at h
    rcases h with rfl | rfl | rfl | rfl | rfl | rfl
    · decide
    · decide
    all_goals exact hexDigit_not_html _ (Nat.mod_lt _ (by decide))
  unfold controlEscape at hd
  have hshort : ∀ e ∉ html, d ∈ ['\\', e] → d ∉ html := by
    intro e he h
    rcases mem_cons.mp h with rfl | h
    · decide
    · exact mem_singleton.mp h ▸ he
  split_ifs at hd
  · exact hshort c hc hd
  · exact hshort 'b' (by decide) hd
  · exact hshort 'f' (by decide) hd
  · exact hshort 'n' (by decide) hd
  · exact hshort 'r' (by decide) hd
  · exact hshort 't' (by decide) hd
  · exact hunicode hd
  · exact mem_singleton.mp hd ▸ hc

theorem then_htmlEscape : Escape.then pythonEscape htmlEscape = goEscape := by
  funext c
  rw [goEscape_eq]
  split
  next hc =>
    simp only [html, mem_cons, not_mem_nil, or_false] at hc
    rcases hc with rfl | rfl | rfl | rfl | rfl <;> decide
  next hc =>
    exact flatMap_kept fun d hd => htmlEscape_kept (controlEscape_not_html hc hd)

theorem keepsSyntax_htmlEscape : Json.KeepsSyntax htmlEscape := by
  intro c hc
  refine htmlEscape_kept fun hhtml => ?_
  simp only [html, mem_cons, not_mem_nil, or_false] at hhtml
  rcases hhtml with rfl | rfl | rfl | rfl | rfl <;> revert hc <;> decide

theorem goJson_eq (v : Value) : Python.goJson v = Go.marshal v := by
  rw [Python.goJson, replacements, render_flatMap keepsSyntax_htmlEscape, then_htmlEscape,
    Go.marshal]

/-! ## The envelopes -/

theorem checksum_eq (H : Sha256) {m m' : Metadata} (hm : m.Distinct) (h : m.Perm m')
    (uuid : String) (payload : Bytes) :
    Go.checksum H uuid m payload = Python.checksum H ⟨uuid, m', payload⟩ := by
  have hget : Go.get m = fun key => (m'.lookup key).getD "" := by
    funext key
    rw [Go.get, lookup_perm hm h]
  have hparts : ∀ keys : List String,
      field (utf8 uuid) ++ keys.flatMap (fun key => field (utf8 key) ++
        field (utf8 ((m'.lookup key).getD ""))) ++ field payload =
      ((uuid :: keys.flatMap fun key => [key, (m'.lookup key).getD ""]).map utf8 ++
        [payload]).flatMap field := by
    intro keys
    simp [flatMap_append, flatMap_map, flatMap_assoc]
  simp [Go.checksum, Python.checksum, sortedKeys_eq, sortedKeys_perm h, hget, hparts]

theorem checksum_ne_empty (H : Sha256) (uuid : String) (m : Metadata) (payload : Bytes) :
    Go.checksum H uuid m payload ≠ "" := by
  intro hempty
  have hchars := congrArg String.toList hempty
  simp only [Go.checksum, String.toList_ofList] at hchars
  obtain ⟨b, rest, hsum⟩ := exists_cons_of_ne_nil (H.sum_ne_nil
    (field (utf8 uuid) ++ ((Go.sortedKeys m).flatMap fun key =>
      field (utf8 key) ++ field (utf8 (Go.get m key))) ++ field payload))
  rw [hsum] at hchars
  cases hchars

/-- Both producers write the same bytes, however the metadata is iterated: for every envelope, and
for every failure record with its required fields. -/
theorem producers_write_the_same (H : Sha256) {m m' : Metadata} (hm : m.Distinct) (h : m.Perm m') :
    (∀ uuid payload,
      Go.encode H ⟨uuid, m, payload⟩ 2 = some (Python.encode H ⟨uuid, m', payload⟩)) ∧
    ∀ topic channel uuid transportId payload attempts timestamp cause,
      Go.encodeFailedHandoff
          ⟨topic, channel, uuid, transportId, m, payload, attempts, timestamp, cause⟩ =
        Python.encodeFailure ⟨uuid, m', payload⟩ topic channel transportId attempts timestamp
          cause ∧
      (topic ≠ "" → channel ≠ "" → uuid ≠ "" → 1 ≤ attempts → cause ≠ "" →
        (Python.encodeFailure ⟨uuid, m', payload⟩ topic channel transportId attempts timestamp
          cause).isSome = true) := by
  have hempty : m.isEmpty = m'.isEmpty := by
    rw [Bool.eq_iff_iff, List.isEmpty_iff, List.isEmpty_iff]
    exact ⟨fun hnil => (hnil ▸ h).nil_eq.symm, fun hnil => (hnil ▸ h).eq_nil⟩
  constructor
  · intro uuid payload
    have hsum := checksum_ne_empty H uuid m payload
    rw [checksum_eq H hm h] at hsum
    simp only [Go.encode, Python.encode, goJson_eq, sortedEntries_eq hm h, hempty,
      checksum_eq H hm h]
    simp [omitEmpty, hsum]
  · intro topic channel uuid transportId payload attempts timestamp cause
    constructor
    · simp [Go.encodeFailedHandoff, Python.encodeFailure, goJson_eq, sortedEntries_eq hm h, hempty]
    · intro ht hc hu ha hcause
      simp [Python.encodeFailure, ht, hc, hu, hcause, ha]

theorem producers_write_the_same_swapped :
    Go.encode default ⟨"7", [("b", "<2>"), ("a", "1")], [1]⟩ 2 =
        some (Python.encode default ⟨"7", [("a", "1"), ("b", "<2>")], [1]⟩) ∧
      Go.encodeFailedHandoff
          ⟨"orders", "billing", "7", "", [("b", "<2>"), ("a", "1")], [], 3, -1, "full"⟩ =
        Python.encodeFailure ⟨"7", [("a", "1"), ("b", "<2>")], []⟩ "orders" "billing" "" 3 (-1)
          "full" := by
  have hdistinct : Metadata.Distinct [("b", "<2>"), ("a", "1")] := by simp [Metadata.Distinct]
  have hboth := producers_write_the_same default hdistinct (.swap ("a", "1") ("b", "<2>") [])
  exact ⟨hboth.1 "7" [1], (hboth.2 "orders" "billing" "7" "" [] 3 (-1) "full").1⟩

end ReliableMessaging.Wire
