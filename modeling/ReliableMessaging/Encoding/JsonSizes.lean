import Mathlib.Algebra.Order.BigOperators.Group.List
import ReliableMessaging.Encoding.GoStrings

/-!
# How long JSON texts are

Bytes of a text part by part. A string takes at most six bytes for one of its
own (`size_quote_le`), and no more than its own if none of its characters is
escaped (`size_literal_of_plain`, `size_goString_of_plain`).
-/

namespace ReliableMessaging.Json

open List

@[simp] theorem size_flatten (texts : List Text) : size texts.flatten = (texts.map size).sum := by
  induction texts with
  | nil => rfl
  | cons text texts ih => rw [flatten_cons, size_append, ih, map_cons, sum_cons]

theorem size_flatMap {α : Type} (f : α → Text) (items : List α) :
    size (items.flatMap f) = (items.map fun a => size (f a)).sum := by
  rw [List.flatMap, size_flatten, map_map]
  rfl

theorem size_ascii {text : Text} (h : ∀ c ∈ text, c.toNat < 128) : size text = text.length := by
  induction text with
  | nil => rfl
  | cons c text ih =>
    have hc : c.utf8Size = 1 := Char.utf8Size_eq_one_iff.mpr (by
      have := h c mem_cons_self
      exact UInt32.le_iff_toNat_le.mpr (Nat.le_of_lt_succ this))
    rw [size_cons, hc, ih fun d hd => h d (mem_cons_of_mem _ hd), length_cons, Nat.add_comm]

/-! ## Strings -/

theorem hexDigit_ascii : ∀ n < 16, (hexDigit n).toNat < 128 := by decide

theorem size_literal (e : Escape) (chars : List Char) :
    size (literal e chars) = 2 + (chars.map fun c => size (e c)).sum := by
  rw [literal, cons_append, size_cons, size_append, size_flatMap]
  simp only [size_cons, size_nil]
  have hquote : '"'.utf8Size = 1 := rfl
  omega

theorem size_literal_of_plain {e : Escape} {chars : List Char} (h : ∀ c ∈ chars, e c = [c]) :
    size (literal e chars) = 2 + size chars := by
  have hmap : (chars.map fun c => size (e c)) = chars.map Char.utf8Size :=
    List.map_congr_left fun c hc => by rw [h c hc, size_cons, size_nil, Nat.add_zero]
  rw [size_literal, hmap, size]

theorem goEscape_hexDigit : ∀ n < 16, goEscape (hexDigit n) = [hexDigit n] := by decide

theorem mem_hexChars {c : Char} {value : Bytes} (h : c ∈ hexChars value) :
    ∃ n < 16, c = hexDigit n := by
  simp only [hexChars, List.mem_flatMap, List.mem_cons, List.not_mem_nil, or_false] at h
  obtain ⟨b, -, rfl | rfl⟩ := h
  · exact ⟨b.toNat / 16, by have := b.toNat_lt; omega, rfl⟩
  · exact ⟨b.toNat % 16, Nat.mod_lt _ (by decide), rfl⟩

theorem length_hexChars (value : Bytes) : (hexChars value).length = 2 * value.length := by
  induction value with
  | nil => rfl
  | cons b value ih =>
    have hcons : hexChars (b :: value) = hexDigit (b.toNat / 16) :: hexDigit (b.toNat % 16) ::
        hexChars value := rfl
    rw [hcons, List.length_cons, List.length_cons, ih, List.length_cons]
    omega

theorem size_hex (value : Bytes) : size (hex goEscape value) = 2 + 2 * value.length := by
  have hplain : ∀ c ∈ hexChars value, goEscape c = [c] := by
    intro c hc
    obtain ⟨n, hn, rfl⟩ := mem_hexChars hc
    exact goEscape_hexDigit n hn
  have hascii : ∀ c ∈ hexChars value, c.toNat < 128 := by
    intro c hc
    obtain ⟨n, hn, rfl⟩ := mem_hexChars hc
    exact hexDigit_ascii n hn
  rw [hex, size_literal_of_plain hplain, size_ascii hascii, length_hexChars]

theorem length_base64Chars (value : Bytes) :
    (base64Chars value).length = 4 * ((value.length + 2) / 3) := by
  induction value using base64Chars.induct with
  | case1 => rfl
  | case2 a => simp [base64Chars]
  | case3 a b => simp [base64Chars]
  | case4 a b c rest ih =>
    rw [base64Chars]
    simp only [List.length_cons, ih]
    omega

theorem base64Digit_plain :
    ∀ n < 64, goEscape (base64Digit n) = [base64Digit n] ∧ (base64Digit n).toNat < 128 := by
  decide

theorem base64Chars_plain (value : Bytes) :
    ∀ c ∈ base64Chars value, goEscape c = [c] ∧ c.toNat < 128 := by
  have hpad : goEscape '=' = ['='] ∧ '='.toNat < 128 := by decide
  have hfirst : ∀ a : UInt8, a.toNat / 4 < 64 := fun a => by
    have := a.toNat_lt
    omega
  induction value using base64Chars.induct with
  | case1 => exact List.forall_mem_nil _
  | case2 a =>
    simp only [base64Chars, List.forall_mem_cons]
    exact ⟨base64Digit_plain _ (hfirst a), base64Digit_plain _ (by omega), hpad, hpad,
      List.forall_mem_nil _⟩
  | case3 a b =>
    have hb := b.toNat_lt
    simp only [base64Chars, List.forall_mem_cons]
    exact ⟨base64Digit_plain _ (hfirst a), base64Digit_plain _ (by omega),
      base64Digit_plain _ (by omega), hpad, List.forall_mem_nil _⟩
  | case4 a b c rest ih =>
    have hb := b.toNat_lt
    have hc := c.toNat_lt
    simp only [base64Chars, List.forall_mem_cons]
    exact ⟨base64Digit_plain _ (hfirst a), base64Digit_plain _ (by omega),
      base64Digit_plain _ (by omega), base64Digit_plain _ (by omega), ih⟩

/-- Bytes that `json.Marshal` writes as they are. -/
def Plain (value : Bytes) : Prop :=
  ∀ b ∈ value, b.toNat ≤ 127 ∧ goEscape (Char.ofNat b.toNat) = [Char.ofNat b.toNat]

instance (value : Bytes) : Decidable (Plain value) :=
  List.decidableBAll _ value

theorem size_goString_of_plain {value : Bytes} (h : Plain value) :
    size (goString value) = 2 + value.length := by
  have hchars : ∀ c ∈ value.map fun b => Char.ofNat b.toNat, goEscape c = [c] ∧ c.toNat < 128 := by
    intro c hc
    obtain ⟨b, hb, rfl⟩ := List.mem_map.mp hc
    refine ⟨(h b hb).2, ?_⟩
    rw [toNat_ofNat_ascii (h b hb).1]
    exact Nat.lt_succ_of_le (h b hb).1
  have htext := utf8_ascii fun b hb => (h b hb).1
  calc size (goString value)
      = size (literal goEscape (value.map fun b => Char.ofNat b.toNat)) := by
        rw [← htext, goString_utf8, quote, String.toList_ofList, htext]
    _ = 2 + size (value.map fun b => Char.ofNat b.toNat) :=
        size_literal_of_plain fun c hc => (hchars c hc).1
    _ = 2 + value.length := by rw [size_ascii fun c hc => (hchars c hc).2, List.length_map]

/-- A string that was read is written no longer: a byte that is no UTF-8 is written as an escape,
and the character that is read for it as it is. -/
theorem size_goString_coerce_le (value : Bytes) :
    size (goString (utf8 (coerce value))) ≤ size (goString value) := by
  have hrune : ∀ r : Option Char, size (goEscape (r.getD replacement)) ≤ size (runeEscape r) := by
    rintro (_ | c)
    · decide
    · exact Nat.le_refl _
  have hrunes : ∀ rs : List (Option Char),
      ((rs.map (·.getD replacement)).map fun c => size (goEscape c)).sum ≤
        (rs.map fun r => size (runeEscape r)).sum := by
    intro rs
    rw [List.map_map]
    exact List.sum_le_sum fun r _ => hrune r
  rw [goString_utf8, quote, coerce, String.toList_ofList, size_literal, goString, List.cons_append,
    size_cons, size_append, size_flatMap]
  have hquote : '"'.utf8Size = 1 := rfl
  have := hrunes (runes value)
  simp only [size_cons, size_nil]
  omega

/-! ## Numbers -/

theorem size_decimal (n : Nat) : size (decimal n) = (decimal n).length := by
  refine size_ascii fun c hc => ?_
  have hdigit : c.isDigit = true := Nat.isDigit_of_mem_toDigits (by decide) (by decide) hc
  simp only [Char.isDigit, Bool.and_eq_true, decide_eq_true_eq] at hdigit
  have hle := UInt32.le_iff_toNat_le.mp hdigit.2
  exact Nat.lt_of_le_of_lt hle (by decide)

theorem size_decimal_le {n k : Nat} (hk : 0 < k) (h : n < 10 ^ k) : size (decimal n) ≤ k := by
  rw [size_decimal]
  exact (Nat.length_toDigits_le_iff (by decide) hk).mpr h

/-! ## Objects -/

theorem size_commaSeparated_cons (text : Text) (items : List Text) :
    size (commaSeparated (text :: items)) = size text + (items.map fun t => 1 + size t).sum := by
  have hcomma : ','.utf8Size = 1 := rfl
  induction items generalizing text with
  | nil => simp [commaSeparated]
  | cons next items ih =>
    rw [commaSeparated_cons, size_append, size_cons, ih, map_cons, sum_cons, hcomma]
    omega

/-- A member takes its name, a colon and its value. -/
def memberSize (f : Text × Text) : Nat := size f.1 + 1 + size f.2

theorem size_objectText_cons (f : Text × Text) (fields : List (Text × Text)) :
    size (objectText (f :: fields)) =
      2 + memberSize f + (fields.map fun g => 1 + memberSize g).sum := by
  have hmember : ∀ g : Text × Text, size (memberText g) = memberSize g := by
    intro g
    have hcolon : ':'.utf8Size = 1 := rfl
    rw [memberText, size_append, size_cons, memberSize, hcolon, Nat.add_assoc]
  have hopen : (Char.ofNat 123).utf8Size = 1 := rfl
  have hclose : (Char.ofNat 125).utf8Size = 1 := rfl
  rw [objectText, map_cons, cons_append, size_cons, size_append, size_commaSeparated_cons, map_map]
  simp only [Function.comp_def, hmember, size_cons, size_nil]
  omega

/-- What a member adds to an object that has others. -/
def fieldSize (name : String) (text : Text) : Nat := 1 + memberSize (quote goEscape name, text)

theorem size_object {fields : List (String × Text)} (h : fields ≠ []) :
    size (object goEscape fields) = 1 + (fields.map fun f => fieldSize f.1 f.2).sum := by
  obtain ⟨f, fields, rfl⟩ := exists_cons_of_ne_nil h
  rw [object_eq, map_cons, size_objectText_cons, map_map, map_cons, sum_cons]
  simp only [Function.comp_def, fieldSize]
  omega

end ReliableMessaging.Json
