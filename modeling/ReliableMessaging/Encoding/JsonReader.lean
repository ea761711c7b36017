import Mathlib.Data.List.TakeWhile
import ReliableMessaging.Encoding.Digits
import ReliableMessaging.Encoding.JsonValue

/-!
# Reading compact JSON

The part of JSON that every library reads alike: no blanks, integers in their
usual form, strings without surrogate escapes. A library may read more than
this, and what it makes of the rest is its own affair.
-/

namespace ReliableMessaging.Json

open List Json

/-! ## Strings -/

def shortEscape (c : Char) : Option Char :=
  if c = '"' ∨ c = '\\' ∨ c = '/' then some c
  else if c = 'b' then some (Char.ofNat 8)
  else if c = 'f' then some (Char.ofNat 12)
  else if c = 'n' then some '\n'
  else if c = 'r' then some '\r'
  else if c = 't' then some '\t'
  else none

/-- The character of four hexadecimal digits, unless they are half of a surrogate pair. -/
def unicodeChar (a b c d : Char) : Option Char := do
  let a ← fromHexChar a
  let b ← fromHexChar b
  let c ← fromHexChar c
  let d ← fromHexChar d
  let n := 4096 * a + 256 * b + 16 * c + d
  if n.isValidChar then some (Char.ofNat n) else none

def readEscape : Text → Option (Char × Text)
  | [] => none
  | c :: rest =>
    if c = 'u' then
      match rest with
      | a :: b :: c :: d :: rest => (unicodeChar a b c d).map (·, rest)
      | _ => none
    else (shortEscape c).map (·, rest)

def readChar : Text → Option (Char × Text)
  | [] => none
  | c :: rest =>
    if c = '\\' then readEscape rest
    else if c = '"' ∨ c.toNat < 32 then none
    else some (c, rest)

def readChars : Nat → Text → Option (List Char × Text)
  | 0, _ => none
  | n + 1, text =>
    if text.head? = some '"' then some ([], text.tail)
    else do
      let (c, rest) ← readChar text
      let (chars, rest) ← readChars n rest
      some (c :: chars, rest)

/-! ## Numbers -/

def readDecimal (text : Text) : Option (Nat × Text) :=
  let digits := text.takeWhile Char.isDigit
  let n := Nat.ofDigitChars 10 digits 0
  if decimal n = digits then some (n, text.dropWhile Char.isDigit) else none

def readInteger : Text → Option (Int × Text)
  | [] => none
  | c :: rest =>
    if c = '-' then (readDecimal rest).map fun r => (-(r.1 : Int), r.2)
    else (readDecimal (c :: rest)).map fun r => ((r.1 : Int), r.2)

/-! ## Values -/

def readWord (word : Text) (v : Value) (text : Text) : Option (Value × Text) :=
  if text.take word.length = word then some (v, text.drop word.length) else none

mutual
def readValue : Nat → Text → Option (Value × Text)
  | 0, _ => none
  | _ + 1, [] => none
  | n + 1, c :: rest =>
    if c = '"' then (readChars n rest).map fun r => (.string (String.ofList r.1), r.2)
    else if c = '[' then
      if rest.head? = some ']' then some (.array [], rest.tail)
      else (readItems n rest).map fun r => (.array r.1, r.2)
    else if c = Char.ofNat 123 then
      if rest.head? = some (Char.ofNat 125) then some (.object [], rest.tail)
      else (readFields n rest).map fun r => (.object r.1, r.2)
    else if c = 'n' then readWord ['n', 'u', 'l', 'l'] .null (c :: rest)
    else if c = 't' then readWord ['t', 'r', 'u', 'e'] (.bool true) (c :: rest)
    else if c = 'f' then readWord ['f', 'a', 'l', 's', 'e'] (.bool false) (c :: rest)
    else (readInteger (c :: rest)).map fun r => (.integer r.1, r.2)

def readItems : Nat → Text → Option (List Value × Text)
  | 0, _ => none
  | n + 1, text => do
    let (v, rest) ← readValue n text
    if rest.head? = some ',' then
      let (items, rest) ← readItems n rest.tail
      some (v :: items, rest)
    else if rest.head? = some ']' then some ([v], rest.tail)
    else none

def readFields : Nat → Text → Option (List (String × Value) × Text)
  | 0, _ => none
  | n + 1, text => do
    if text.head? ≠ some '"' then none
    else
      let (name, rest) ← readChars n text.tail
      if rest.head? ≠ some ':' then none
      else
        let (v, rest) ← readValue n rest.tail
        if rest.head? = some ',' then
          let (fields, rest) ← readFields n rest.tail
          some ((String.ofList name, v) :: fields, rest)
        else if rest.head? = some (Char.ofNat 125) then
          some ([(String.ofList name, v)], rest.tail)
        else none
end

def read (text : Text) : Option Value := do
  let (v, rest) ← readValue (text.length + 1) text
  if rest = [] then some v else none

/-! ## Standard escapes -/

/-- Every escape is read as its character. -/
def Standard (e : Escape) : Prop := ∀ c rest, readChar (e c ++ rest) = some (c, rest)

variable {c : Char} {α : Type} {write : α → Text} {value : α → Char} {n : Nat} {rest : Text}
variable {v : Value}

theorem unicodeChar_hexDigits (h : c.toNat < 65536) :
    unicodeChar (hexDigit (c.toNat / 4096 % 16)) (hexDigit (c.toNat / 256 % 16))
      (hexDigit (c.toNat / 16 % 16)) (hexDigit (c.toNat % 16)) = some c := by
  have hdigit : ∀ n, fromHexChar (hexDigit (n % 16)) = some (n % 16) := fun n =>
    fromHexChar_hexDigit _ (Nat.mod_lt _ (by decide))
  have hnumber : 4096 * (c.toNat / 4096 % 16) + 256 * (c.toNat / 256 % 16) +
      16 * (c.toNat / 16 % 16) + c.toNat % 16 = c.toNat := by
    omega
  have hvalid : c.toNat.isValidChar := c.valid
  simp [unicodeChar, hdigit, hnumber, hvalid]

theorem readChar_unicodeEscape (h : c.toNat < 65536) (rest : Text) :
    readChar (unicodeEscape c ++ rest) = some (c, rest) := by
  simp [unicodeEscape, readChar, readEscape, unicodeChar_hexDigits h]

theorem standard_python : Standard pythonEscape := by
  intro c rest
  have hcode : ∀ n, c.toNat = n → Char.ofNat n = c := by
    rintro n rfl
    exact Char.ofNat_toNat c
  unfold pythonEscape controlEscape
  split_ifs with hquote hb hf hn hr ht hcontrol
  · rcases hquote with rfl | rfl <;> rfl
  · simpa [readChar, readEscape, shortEscape] using hcode 8 hb
  · simpa [readChar, readEscape, shortEscape] using hcode 12 hf
  · subst hn
    rfl
  · subst hr
    rfl
  · subst ht
    rfl
  · exact readChar_unicodeEscape (by omega) rest
  · simp [readChar, not_or.mp hquote, hcontrol]

theorem standard_go : Standard goEscape := by
  intro c rest
  unfold goEscape
  split
  next hc =>
    refine readChar_unicodeEscape ?_ rest
    rcases hc with rfl | rfl | rfl | h | h
    · decide
    · decide
    · decide
    · omega
    · omega
  · exact standard_python c rest

/-! ## What is written is read -/

/-- Whatever follows a value does not go on with a digit. -/
def Ends (rest : Text) : Prop := ∀ c, rest.head? = some c → c.isDigit = false

mutual
def Value.Written : Value → Prop
  | .other => False
  | .array items => Value.AllWritten items
  | .object fields => Value.FieldsWritten fields
  | _ => True

def Value.AllWritten : List Value → Prop
  | [] => True
  | v :: items => v.Written ∧ Value.AllWritten items

def Value.FieldsWritten : List (String × Value) → Prop
  | [] => True
  | (_, v) :: fields => v.Written ∧ Value.FieldsWritten fields
end

variable {e : Escape}

theorem exists_cons_of_readChar {text : Text}
    (h : ∀ rest, readChar (text ++ rest) = some (c, rest)) :
    ∃ d more, text = d :: more ∧ d ≠ '"' := by
  have hread := h []
  rw [append_nil] at hread
  cases text with
  | nil => cases hread
  | cons d more =>
    refine ⟨d, more, rfl, ?_⟩
    rintro rfl
    simp [readChar] at hread

theorem readChars_letters (hwrite : ∀ a rest, readChar (write a ++ rest) = some (value a, rest))
    {letters : List α} (hn : letters.length < n) :
    readChars n (letters.flatMap write ++ '"' :: rest) = some (letters.map value, rest) := by
  induction letters generalizing n with
  | nil =>
    obtain ⟨m, rfl⟩ := Nat.exists_eq_succ_of_ne_zero (by omega : n ≠ 0)
    simp [readChars]
  | cons a letters ih =>
    obtain ⟨m, rfl⟩ := Nat.exists_eq_succ_of_ne_zero (by omega : n ≠ 0)
    obtain ⟨d, text, ha, hd⟩ := exists_cons_of_readChar (hwrite a)
    have hhead : ((a :: letters).flatMap write ++ '"' :: rest).head? ≠ some '"' := by
      simp [ha, hd]
    rw [readChars, if_neg hhead, List.flatMap_cons, List.append_assoc, hwrite]
    simp [ih (by simpa using hn)]

theorem readChars_flatMap (he : Standard e) {chars : List Char} (hn : chars.length < n) :
    readChars n (chars.flatMap e ++ '"' :: rest) = some (chars, rest) := by
  have hread : readChars n (chars.flatMap e ++ '"' :: rest) = some (chars.map id, rest) :=
    readChars_letters he hn
  rwa [List.map_id] at hread

theorem readDecimal_decimal (n : Nat) (hrest : Ends rest) :
    readDecimal (decimal n ++ rest) = some (n, rest) := by
  have hdigits : ∀ c ∈ decimal n, c.isDigit = true := fun c hc =>
    Nat.isDigit_of_mem_toDigits (by decide) (by decide) hc
  have hnone : rest.takeWhile Char.isDigit = [] ∧ rest.dropWhile Char.isDigit = rest := by
    cases rest with
    | nil => exact ⟨rfl, rfl⟩
    | cons c rest =>
      have hc := hrest c rfl
      simp [hc]
  have htake : (decimal n ++ rest).takeWhile Char.isDigit = decimal n := by
    rw [List.takeWhile_append_of_pos hdigits, hnone.1, List.append_nil]
  have hdrop : (decimal n ++ rest).dropWhile Char.isDigit = rest := by
    rw [List.dropWhile_append_of_pos hdigits, hnone.2]
  have hvalue : Nat.ofDigitChars 10 (decimal n) 0 = n :=
    Nat.ofDigitChars_toDigits (by decide) (by decide)
  simp [readDecimal, htake, hdrop, hvalue]

theorem integerText_cons (n : Int) :
    ∃ d text, integerText n = d :: text ∧ (d = '-' ∨ d.isDigit = true) := by
  cases n with
  | ofNat n =>
    obtain ⟨d, digits, hd⟩ := List.exists_cons_of_ne_nil (Nat.toDigits_ne_nil (b := 10) (n := n))
    exact ⟨d, digits, hd, .inr
      (Nat.isDigit_of_mem_toDigits (b := 10) (n := n) (by decide) (by decide) (by simp [hd]))⟩
  | negSucc n => exact ⟨'-', _, rfl, .inl rfl⟩

theorem readInteger_integerText (n : Int) (hrest : Ends rest) :
    readInteger (integerText n ++ rest) = some (n, rest) := by
  cases n with
  | ofNat n =>
    obtain ⟨d, digits, hd⟩ := List.exists_cons_of_ne_nil (Nat.toDigits_ne_nil (b := 10) (n := n))
    have hne : d ≠ '-' := by
      rintro rfl
      have hdigit : '-'.isDigit = true :=
        Nat.isDigit_of_mem_toDigits (b := 10) (n := n) (by decide) (by decide) (by simp [hd])
      exact absurd hdigit (by decide)
    have hread := readDecimal_decimal n hrest
    simp only [integerText]
    rw [decimal, hd] at hread ⊢
    rw [List.cons_append] at hread ⊢
    simp [readInteger, hne, hread]
  | negSucc n =>
    simp only [integerText, List.cons_append, readInteger, readDecimal_decimal (n + 1) hrest]
    rfl

theorem commaSeparated_cons (t u : Text) (items : List Text) :
    commaSeparated (t :: u :: items) = t ++ ',' :: commaSeparated (u :: items) := by
  simp [commaSeparated]

theorem render_cons (hv : v.Written) : ∃ d text, render e v = d :: text ∧ d ≠ ']' := by
  cases v with
  | null => exact ⟨'n', _, rfl, by decide⟩
  | bool b => cases b <;> exact ⟨_, _, rfl, by decide⟩
  | integer n =>
    obtain ⟨d, text, hd, hchar⟩ := integerText_cons n
    refine ⟨d, text, hd, ?_⟩
    rintro rfl
    exact absurd hchar (by decide)
  | string text => exact ⟨'"', _, rfl, by decide⟩
  | array items => exact ⟨'[', _, rfl, by decide⟩
  | object fields => exact ⟨Char.ofNat 123, _, rfl, by decide⟩
  | other => exact hv.elim

theorem length_letters_le (hwrite : ∀ a rest, readChar (write a ++ rest) = some (value a, rest))
    (letters : List α) : letters.length ≤ (letters.flatMap write).length := by
  induction letters with
  | nil => exact Nat.le_refl _
  | cons a letters ih =>
    obtain ⟨d, text, ha, -⟩ := exists_cons_of_readChar (hwrite a)
    simp only [flatMap_cons, length_append, length_cons, ha]
    omega

theorem length_flatMap_le (he : Standard e) (chars : List Char) :
    chars.length ≤ (chars.flatMap e).length :=
  length_letters_le he chars

theorem readValue_integer {k : Int} (hrest : Ends rest) :
    readValue (n + 1) (integerText k ++ rest) = some (.integer k, rest) := by
  obtain ⟨d, text, hd, hchar⟩ := integerText_cons k
  have hread := readInteger_integerText k hrest
  rw [hd, cons_append] at hread ⊢
  have hother : ∀ c : Char, c ≠ '-' → c.isDigit = false → d ≠ c := by
    rintro c hminus hdigit rfl
    simp_all
  simp [readValue, hread, hother _ (by decide : '"' ≠ '-') (by decide),
    hother _ (by decide : '[' ≠ '-') (by decide),
    hother _ (by decide : Char.ofNat 123 ≠ '-') (by decide),
    hother _ (by decide : 'n' ≠ '-') (by decide), hother _ (by decide : 't' ≠ '-') (by decide),
    hother _ (by decide : 'f' ≠ '-') (by decide)]

theorem ends_cons (rest : Text) (hc : c.isDigit = false) : Ends (c :: rest) := by
  rintro d ⟨⟩
  exact hc

def fieldsText (e : Escape) (fields : List (String × Value)) : Text :=
  commaSeparated ((renderFields e fields).map fun f => quote e f.1 ++ ':' :: f.2)

theorem readFields_field (he : Standard e) {name : String} (hn : (quote e name).length ≤ n)
    (hv : readValue n (render e v ++ rest) = some (v, rest)) :
    readFields (n + 1) (quote e name ++ ':' :: (render e v ++ rest)) =
      if rest.head? = some ',' then
        (readFields n rest.tail).map fun r => ((name, v) :: r.1, r.2)
      else if rest.head? = some (Char.ofNat 125) then some ([(name, v)], rest.tail)
      else none := by
  have hlength := length_flatMap_le he name.toList
  simp only [quote, literal, List.cons_append, List.length_cons, List.length_append,
    List.length_nil] at hn
  have hname : readChars n (name.toList.flatMap e ++ '"' :: ':' :: (render e v ++ rest)) =
      some (name.toList, ':' :: (render e v ++ rest)) := readChars_flatMap he (by omega)
  simp only [quote, literal, cons_append, append_assoc, nil_append, readFields,
    List.head?_cons, tail_cons, ne_eq, not_true_eq_false, if_false, Option.bind_eq_bind,
    hname, Option.bind_some, hv, String.ofList_toList]
  cases readFields n rest.tail <;> rfl

mutual
theorem readValue_render (he : Standard e) : ∀ (v : Value) (n : Nat) (rest : Text), v.Written →
    (render e v).length < n → Ends rest → readValue n (render e v ++ rest) = some (v, rest)
  | v, 0, _, _, hn, _ => by simp at hn
  | .null, n + 1, rest, _, _, _ => by simp [render, readValue, readWord]
  | .bool true, n + 1, rest, _, _, _ => by simp [render, readValue, readWord]
  | .bool false, n + 1, rest, _, _, _ => by simp [render, readValue, readWord]
  | .integer k, n + 1, rest, _, _, hrest => readValue_integer hrest
  | .string text, n + 1, rest, _, hn, _ => by
    have hlength := length_flatMap_le he text.toList
    simp only [render, quote, literal, cons_append, length_cons, length_append, length_nil] at hn
    simp only [render, quote, literal, cons_append, append_assoc, nil_append, readValue, if_true]
    rw [readChars_flatMap he (by omega)]
    simp [String.ofList_toList]
  | .array [], n + 1, rest, _, _, _ => by
    simp [render, renderItems, array, commaSeparated, readValue]
  | .array (v :: items), n + 1, rest, hv, hn, _ => by
    simp only [render, array, cons_append, length_cons, length_append, length_nil] at hn
    have hitems := readItems_render he (v :: items) n rest (cons_ne_nil _ _) hv (by omega)
    have hhead : (commaSeparated (renderItems e (v :: items)) ++ ']' :: rest).head? ≠
        some ']' := by
      obtain ⟨d, text, hd, hne⟩ := render_cons (e := e) hv.1
      cases items <;> simp [renderItems, commaSeparated, hd, hne]
    simp only [render, array, cons_append, append_assoc, nil_append, readValue]
    rw [if_neg (by decide), if_pos trivial, if_neg hhead, hitems]
    rfl
  | .object [], n + 1, rest, _, _, _ => by
    simp [render, renderFields, object, commaSeparated, readValue]
  | .object ((name, v) :: fields), n + 1, rest, hv, hn, _ => by
    simp only [render, object, cons_append, length_cons, length_append, length_nil] at hn
    have hfields := readFields_render he ((name, v) :: fields) n rest (cons_ne_nil _ _) hv
      (by unfold fieldsText; omega)
    have hhead : (fieldsText e ((name, v) :: fields) ++ Char.ofNat 125 :: rest).head? ≠
        some (Char.ofNat 125) := by
      cases fields <;> simp [fieldsText, renderFields, commaSeparated, quote, literal]
    simp only [fieldsText] at hfields hhead
    simp only [render, object, cons_append, append_assoc, nil_append, readValue]
    rw [if_neg (by decide), if_neg (by decide), if_pos trivial, if_neg hhead, hfields]
    rfl
  | .other, _, _, hv, _, _ => hv.elim

theorem readItems_render (he : Standard e) : ∀ (items : List Value) (n : Nat) (rest : Text),
    items ≠ [] → Value.AllWritten items →
    (commaSeparated (renderItems e items)).length + 2 ≤ n →
    readItems n (commaSeparated (renderItems e items) ++ ']' :: rest) = some (items, rest)
  | [], _, _, hne, _, _ => absurd rfl hne
  | _ :: _, 0, _, _, _, hn => by omega
  | [v], n + 1, rest, _, hv, hn => by
    simp only [renderItems, commaSeparated, intersperse_singleton, flatten_cons,
      flatten_nil, append_nil] at hn ⊢
    have hread := readValue_render he v n (']' :: rest) hv.1 (by omega)
      (ends_cons rest (by decide))
    simp [readItems, hread]
  | v :: w :: items, n + 1, rest, _, hv, hn => by
    rw [renderItems, renderItems, commaSeparated_cons] at hn ⊢
    rw [← renderItems] at hn ⊢
    simp only [length_append, length_cons] at hn
    obtain ⟨d, text, hd, -⟩ := render_cons (e := e) hv.1
    have hpositive : 0 < (render e v).length := by simp [hd]
    have hread := readValue_render he v n
      (',' :: (commaSeparated (renderItems e (w :: items)) ++ ']' :: rest)) hv.1 (by omega)
      (ends_cons _ (by decide))
    have hitems := readItems_render he (w :: items) n rest (cons_ne_nil _ _) hv.2 (by omega)
    simp [readItems, hread, hitems]

theorem readFields_render (he : Standard e) :
    ∀ (fields : List (String × Value)) (n : Nat) (rest : Text),
    fields ≠ [] → Value.FieldsWritten fields → (fieldsText e fields).length + 2 ≤ n →
    readFields n (fieldsText e fields ++ Char.ofNat 125 :: rest) = some (fields, rest)
  | [], _, _, hne, _, _ => absurd rfl hne
  | _ :: _, 0, _, _, _, hn => by omega
  | [(name, v)], n + 1, rest, _, hv, hn => by
    simp only [fieldsText, renderFields, commaSeparated, map_cons, map_nil,
      intersperse_singleton, flatten_cons, flatten_nil, append_nil,
      length_append, length_cons, append_assoc, cons_append] at hn ⊢
    have hread := readValue_render he v n (Char.ofNat 125 :: rest) hv.1 (by omega)
      (ends_cons rest (by decide))
    rw [readFields_field he (by omega) hread]
    simp
  | (name, v) :: (other, w) :: fields, n + 1, rest, _, hv, hn => by
    have htail : fieldsText e ((name, v) :: (other, w) :: fields) =
        quote e name ++ ':' :: (render e v ++ ',' :: fieldsText e ((other, w) :: fields)) := by
      simp [fieldsText, renderFields, commaSeparated_cons]
    rw [htail] at hn ⊢
    simp only [length_append, length_cons] at hn
    have hread := readValue_render he v n
      (',' :: (fieldsText e ((other, w) :: fields) ++ Char.ofNat 125 :: rest)) hv.1
      (by omega) (ends_cons _ (by decide))
    have hfields := readFields_render he ((other, w) :: fields) n rest (cons_ne_nil _ _) hv.2
      (by omega)
    simp only [append_assoc, cons_append]
    rw [readFields_field he (by omega) hread]
    simp [hfields]
end

/-- What a writer with standard escapes writes is read back. -/
theorem read_render (he : Standard e) (hv : v.Written) : read (render e v) = some v := by
  have hread := readValue_render he v _ [] hv (Nat.lt_succ_self _) (by rintro c ⟨⟩)
  rw [append_nil] at hread
  simp [read, hread]

end ReliableMessaging.Json
