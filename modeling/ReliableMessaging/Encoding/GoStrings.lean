import Mathlib.Data.List.Forall2
import ReliableMessaging.Encoding.JsonLibraries

/-!
# Go strings in JSON

A Go string is any bytes. `encoding/json` writes its runes one by one, and for
a byte that begins no character of UTF-8 the escape of U+FFFD, so that what is
read back is the string with such bytes replaced (`coerce`): itself, if it is
valid UTF-8, and another string if it is not.
-/

namespace ReliableMessaging.Json

open List

/-! ## Runes -/

def replacement : Char := Char.ofNat 0xFFFD

/-- `utf8.DecodeRuneInString` again and again; a byte that begins no character is none. -/
def runesFrom : Nat → Bytes → List (Option Char)
  | 0, _ => []
  | _ + 1, [] => []
  | n + 1, b :: rest =>
    match ByteArray.utf8DecodeChar? ⟨(b :: rest).toArray⟩ 0 with
    | some c => some c :: runesFrom n ((b :: rest).drop c.utf8Size)
    | none => none :: runesFrom n rest

def runes (value : Bytes) : List (Option Char) := runesFrom value.length value

/-- The string that reading gives for this one. -/
def coerce (value : Bytes) : String := String.ofList ((runes value).map (·.getD replacement))

theorem decodeChar_append (c : Char) (rest : Bytes) :
    ByteArray.utf8DecodeChar? ⟨(String.utf8EncodeChar c ++ rest).toArray⟩ 0 = some c := by
  have hbytes : (⟨(String.utf8EncodeChar c ++ rest).toArray⟩ : ByteArray) =
      (String.utf8EncodeChar c).toByteArray ++ rest.toByteArray := by
    apply ByteArray.ext
    simp
  rw [hbytes]
  exact ByteArray.utf8DecodeChar?_utf8EncodeChar_append

theorem runesFrom_append (c : Char) (rest : Bytes) (n : Nat) :
    runesFrom (n + 1) (String.utf8EncodeChar c ++ rest) = some c :: runesFrom n rest := by
  have hlength : (String.utf8EncodeChar c).length = c.utf8Size := String.length_utf8EncodeChar c
  obtain ⟨b, more, hb⟩ := exists_cons_of_ne_nil (encodeChar_ne_nil c)
  have hdecode := decodeChar_append c rest
  have hdrop : (String.utf8EncodeChar c ++ rest).drop c.utf8Size = rest := by
    rw [← hlength, drop_left]
  rw [hb, cons_append] at hdecode hdrop ⊢
  simp [runesFrom, hdecode, hdrop]

theorem runesFrom_encoded (chars : List Char) (n : Nat)
    (hn : (chars.flatMap String.utf8EncodeChar).length ≤ n) :
    runesFrom n (chars.flatMap String.utf8EncodeChar) = chars.map some := by
  induction chars generalizing n with
  | nil => cases n <;> rfl
  | cons c chars ih =>
    have hpos := Char.utf8Size_pos c
    rw [flatMap_cons] at hn ⊢
    rw [length_append, String.length_utf8EncodeChar] at hn
    obtain ⟨m, rfl⟩ := Nat.exists_eq_succ_of_ne_zero (by omega : n ≠ 0)
    rw [Nat.succ_eq_add_one, runesFrom_append, ih m (by omega), map_cons]

theorem runes_utf8 (s : String) : runes (utf8 s) = s.toList.map some := by
  rw [runes, utf8_eq_flatMap]
  exact runesFrom_encoded _ _ (Nat.le_refl _)

@[simp] theorem coerce_utf8 (s : String) : coerce (utf8 s) = s := by
  simp [coerce, runes_utf8, Function.comp_def]

/-- `utf8.ValidString`. -/
def validString (value : Bytes) : Bool := ByteArray.validateUTF8 ⟨value.toArray⟩

variable {value : Bytes} {text rest : Text} {v : Value} {e : Escape} {n : Nat}
variable {fields : List (Text × Text)} {values : List (String × Value)}

theorem validString_iff : validString value = true ↔ ∃ s, utf8 s = value := by
  constructor
  · intro h
    obtain ⟨chars, hchars⟩ := ByteArray.validateUTF8_eq_true_iff.mp h
    refine ⟨String.ofList chars, ?_⟩
    have hlist := congrArg (fun b : ByteArray => b.data.toList) hchars
    rw [utf8_ofList]
    simpa [List.utf8Encode] using hlist.symm
  · rintro ⟨s, rfl⟩
    exact validateUTF8_utf8 s

/-- Only a string of valid UTF-8 survives. -/
theorem utf8_coerce_iff : utf8 (coerce value) = value ↔ validString value = true := by
  rw [validString_iff]
  constructor
  · exact fun h => ⟨_, h⟩
  · rintro ⟨s, rfl⟩
    rw [coerce_utf8]

theorem validString_ascii (h : ∀ b ∈ value, b.toNat ≤ 127) : validString value = true :=
  validString_iff.mpr ⟨_, utf8_ascii h⟩

theorem coerce_eq_empty : coerce value = "" ↔ value = [] := by
  constructor
  · intro h
    have hrunes := congrArg String.toList h
    rw [coerce, String.toList_ofList, String.toList_empty, map_eq_nil_iff] at hrunes
    cases value with
    | nil => rfl
    | cons b rest =>
      simp only [runes, length_cons, runesFrom] at hrunes
      split at hrunes <;> cases hrunes
  · rintro rfl
    exact coerce_utf8 ""

/-! ## What is written -/

def runeEscape : Option Char → Text
  | some c => goEscape c
  | none => unicodeEscape replacement

/-- A string as `json.Marshal` writes it. -/
def goString (value : Bytes) : Text := '"' :: (runes value).flatMap runeEscape ++ ['"']

theorem goString_utf8 (s : String) : goString (utf8 s) = quote goEscape s := by
  simp [goString, runes_utf8, quote, literal, flatMap_map, runeEscape]

/-- A member of an object, name and value written already. -/
def memberText (f : Text × Text) : Text := f.1 ++ ':' :: f.2

def objectText (fields : List (Text × Text)) : Text :=
  Char.ofNat 123 :: commaSeparated (fields.map memberText) ++ [Char.ofNat 125]

theorem object_eq (e : Escape) (fields : List (String × Text)) :
    object e fields = objectText (fields.map fun f => (quote e f.1, f.2)) := by
  simp [object, objectText, memberText, Function.comp_def]

/-! ## What is read -/

/-- The text is read as this value, whatever follows it. -/
def Reads (text : Text) (v : Value) : Prop :=
  ∀ n rest, text.length < n → Ends rest → readValue n (text ++ rest) = some (v, rest)

/-- The text is a string literal, read as this. -/
def ReadsString (text : Text) (s : String) : Prop :=
  ∃ inner, text = '"' :: inner ∧
    ∀ n rest, inner.length ≤ n → readChars n (inner ++ rest) = some (s.toList, rest)

theorem Reads.read (h : Reads text v) : read text = some v := by
  have hread := h _ [] (Nat.lt_succ_self _) (by rintro c ⟨⟩)
  rw [List.append_nil] at hread
  simp [Json.read, hread]

theorem reads_render (he : Standard e) (hv : v.Written) : Reads (render e v) v :=
  fun n rest hn hrest => readValue_render he v n rest hv hn hrest

theorem ReadsString.reads {s : String} (h : ReadsString text s) : Reads text (.string s) := by
  obtain ⟨inner, rfl, hread⟩ := h
  intro n rest hn _
  obtain ⟨m, rfl⟩ := Nat.exists_eq_succ_of_ne_zero (by omega : n ≠ 0)
  rw [List.length_cons] at hn
  simp [readValue, hread m rest (by omega)]

theorem readChar_runeEscape (r : Option Char) (rest : Text) :
    readChar (runeEscape r ++ rest) = some (r.getD replacement, rest) := by
  cases r with
  | some c => exact standard_go c rest
  | none => exact readChar_unicodeEscape (by decide) rest

theorem readsString_goString (value : Bytes) : ReadsString (goString value) (coerce value) := by
  refine ⟨(runes value).flatMap runeEscape ++ ['"'], rfl, fun n rest hn => ?_⟩
  have hlength := length_letters_le readChar_runeEscape (runes value)
  simp only [length_append, length_singleton] at hn
  rw [append_assoc, singleton_append, coerce, String.toList_ofList]
  exact readChars_letters readChar_runeEscape (by omega)

theorem readsString_quote (he : Standard e) (s : String) : ReadsString (quote e s) s := by
  refine ⟨s.toList.flatMap e ++ ['"'], rfl, fun n rest hn => ?_⟩
  have hlength := length_flatMap_le he s.toList
  simp only [length_append, length_singleton] at hn
  rw [append_assoc, singleton_append]
  exact readChars_flatMap he (by omega)

/-- The texts of an object's members, and what each is read as. -/
abbrev MembersRead : List (Text × Text) → List (String × Value) → Prop :=
  List.Forall₂ fun f g => ReadsString f.1 g.1 ∧ Reads f.2 g.2

theorem readFields_member {nameText : Text} {name : String} (hname : ReadsString nameText name)
    (hn : nameText.length ≤ n) (hv : readValue n (text ++ rest) = some (v, rest)) :
    readFields (n + 1) (nameText ++ ':' :: (text ++ rest)) =
      if rest.head? = some ',' then
        (readFields n rest.tail).map fun r => ((name, v) :: r.1, r.2)
      else if rest.head? = some (Char.ofNat 125) then some ([(name, v)], rest.tail)
      else none := by
  obtain ⟨inner, rfl, hread⟩ := hname
  rw [length_cons] at hn
  simp only [cons_append, readFields, List.head?_cons, tail_cons, ne_eq,
    not_true_eq_false, if_false, Option.bind_eq_bind, hread n _ (by omega), Option.bind_some, hv,
    String.ofList_toList]
  cases readFields n rest.tail <;> rfl

theorem readFields_members (h : MembersRead fields values) (hne : fields ≠ [])
    (hn : (commaSeparated (fields.map memberText)).length + 2 ≤ n) :
    readFields n (commaSeparated (fields.map memberText) ++ Char.ofNat 125 :: rest) =
      some (values, rest) := by
  induction h generalizing n with
  | nil => exact absurd rfl hne
  | @cons f g fields values hfirst hrest ih =>
    obtain ⟨m, rfl⟩ := Nat.exists_eq_succ_of_ne_zero (by omega : n ≠ 0)
    cases fields with
    | nil =>
      cases hrest
      simp only [commaSeparated, map_cons, map_nil, intersperse_singleton,
        flatten_cons, flatten_nil, append_nil, memberText, length_append,
        length_cons, append_assoc, cons_append] at hn ⊢
      have hread := hfirst.2 m (Char.ofNat 125 :: rest) (by omega) (ends_cons rest (by decide))
      rw [Nat.succ_eq_add_one, readFields_member hfirst.1 (by omega) hread]
      simp
    | cons f' fields =>
      have htail : commaSeparated ((f :: f' :: fields).map memberText) =
          f.1 ++ ':' :: (f.2 ++ ',' :: commaSeparated ((f' :: fields).map memberText)) := by
        simp [commaSeparated_cons, memberText]
      rw [htail] at hn ⊢
      simp only [length_append, length_cons] at hn
      have hread := hfirst.2 m (',' :: (commaSeparated ((f' :: fields).map memberText) ++
        Char.ofNat 125 :: rest)) (by omega) (ends_cons _ (by decide))
      have hfields := ih (cons_ne_nil _ _) (n := m) (by omega)
      simp only [append_assoc, cons_append]
      rw [Nat.succ_eq_add_one, readFields_member hfirst.1 (by omega) hread, List.head?_cons,
        if_pos rfl, tail_cons, hfields]
      rfl

theorem reads_objectText (h : MembersRead fields values) :
    Reads (objectText fields) (.object values) := by
  intro n rest hn _
  obtain ⟨m, rfl⟩ := Nat.exists_eq_succ_of_ne_zero (by omega : n ≠ 0)
  cases fields with
  | nil =>
    cases h
    simp [objectText, commaSeparated, readValue]
  | cons f fields =>
    simp only [objectText, cons_append, length_cons, length_append, length_nil] at hn
    have hfields : readFields m _ = some (values, rest) :=
      readFields_members h (cons_ne_nil _ _) (by omega)
    have hhead : (commaSeparated ((f :: fields).map memberText) ++
        Char.ofNat 125 :: rest).head? ≠ some (Char.ofNat 125) := by
      cases h with
      | cons hfirst _ =>
        obtain ⟨inner, hinner, -⟩ := hfirst.1
        cases fields <;> simp [commaSeparated, memberText, hinner]
    simp only [objectText, cons_append, append_assoc, nil_append, Nat.succ_eq_add_one, readValue]
    rw [if_neg (by decide), if_neg (by decide), if_pos trivial, if_neg hhead, hfields]
    rfl

/-- The fields of a struct, and what each is read as. -/
abbrev FieldsRead : List (String × Text) → List (String × Value) → Prop :=
  List.Forall₂ fun f g => f.1 = g.1 ∧ Reads f.2 g.2

theorem reads_object (he : Standard e) {fields : List (String × Text)}
    (h : FieldsRead fields values) : Reads (object e fields) (.object values) := by
  rw [object_eq]
  refine reads_objectText (forall₂_map_left_iff.mpr (h.imp fun f g hfg => ⟨?_, hfg.2⟩))
  rw [hfg.1]
  exact readsString_quote he g.1

end ReliableMessaging.Json
