import ReliableMessaging.Encoding.JsonReader
import ReliableMessaging.Encoding.Utf8
import ReliableMessaging.Maps

/-!
# The JSON libraries

What is assumed of `encoding/json` and of Python's `json` and `base64`: on
compact texts they do what every JSON library does. A Go decoder fills a
struct from an object with exactly its fields, each once and of its type
(`Decoder`); `json.loads` gives the value of a text whose objects name no field
twice, whose numbers fit in a word and which is nested a few levels deep
(`Library`). On other texts, whatever they do: Go takes names in any case.
That Python keeps the last of two fields of one name is assumed where it
matters (`Library.KeepsLast`).
-/

namespace ReliableMessaging.Json

open List Option

/-- How a decoder fails: at the value, or because something follows it. -/
inductive Failure
  | malformed
  | trailing

/-- A `json.Decoder` that refuses unknown fields, read to the end of its input, into structs that
`fill` makes of plain objects. -/
structure Decoder {α : Type} (fill : Value → Option α) where
  decode : Bytes → Except Failure α
  standard : ∀ {text : Text} {v : Value} {a : α}, read text = some v → fill v = some a →
    decode (bytes text) = .ok a

/-- `json.Unmarshal` into a struct that `fill` makes of plain objects: the struct, filled as far as
it went, and the text of the error. Whatever it reads, its strings are valid UTF-8. -/
structure Unmarshal {α : Type} (fill : Value → Option α) where
  run : Bytes → α × Option Bytes
  standard : ∀ {text : Text} {v : Value} {a : α}, read text = some v → fill v = some a →
    run (bytes text) = (a, none)
  /-- No JSON text begins with a zero byte. -/
  refuses : ∀ rest : Bytes, (run (0 :: rest)).2.isSome = true

/-- A value nested less than `n` deep, without repeated names or numbers wider than a word. -/
def Value.Modest : Nat → Value → Prop
  | 0, _ => False
  | n + 1, .array items => ∀ v ∈ items, v.Modest n
  | n + 1, .object fields => (fields.map Prod.fst).Nodup ∧ ∀ f ∈ fields, f.2.Modest n
  | _ + 1, .integer k => k.natAbs < 2 ^ 64
  | _ + 1, .other => False
  | _ + 1, _ => True

/-- Python's `json.loads`, and `base64.b64decode` with `validate=True`. -/
structure Library where
  loads : Bytes → Option Value
  loads_standard : ∀ {text : Text} {v : Value}, read text = some v → v.Modest 64 →
    loads (bytes text) = some v
  b64decode : String → Option Bytes
  b64decode_standard : ∀ {text : String} {b : Bytes}, base64Bytes text.toList = some b →
    b64decode text = some b

/-- The least number of more than 4300 digits, which is as many as Python reads and writes. -/
def digitLimit : Nat := 10 ^ 4300

theorem word_lt_digitLimit : 2 ^ 64 < digitLimit := by
  have hpow : ∀ n, 20 ≤ n → 2 ^ 64 < 10 ^ n := fun n hn =>
    Nat.lt_of_lt_of_le (by decide : 2 ^ 64 < 10 ^ 20) (Nat.pow_le_pow_right (by decide) hn)
  exact hpow 4300 (by decide)

/-- A value nested less than `n` deep, of numbers that Python reads. Names may be repeated. -/
def Value.Loadable : Nat → Value → Prop
  | 0, _ => False
  | n + 1, .array items => ∀ v ∈ items, v.Loadable n
  | n + 1, .object fields => ∀ f ∈ fields, f.2.Loadable n
  | _ + 1, .integer k => k.natAbs < digitLimit
  | _ + 1, .other => False
  | _ + 1, _ => True

def Value.Leaf : Value → Prop
  | .array _ | .object _ => False
  | _ => True

/-- Of several fields of one name `json.loads` keeps the last. -/
def Library.KeepsLast (L : Library) : Prop :=
  ∀ {text : Text} {fields : List (String × Value)}, read text = some (.object fields) →
    (Value.object fields).Loadable 64 → ∃ document, L.loads (bytes text) = some (.object document) ∧
      ∀ {name v}, fields.reverse.lookup name = some v → v.Leaf → document.lookup name = some v

/-! ## Such libraries exist -/

theorem bytes_injective {s t : Text} (h : bytes s = bytes t) : s = t :=
  String.ofList_injective (utf8_injective h)

open Classical in
noncomputable def textOf (data : Bytes) : Option Text :=
  if h : ∃ text, bytes text = data then some h.choose else none

theorem textOf_bytes (text : Text) : textOf (bytes text) = some text := by
  have hex : ∃ t, bytes t = bytes text := ⟨text, rfl⟩
  rw [textOf, dif_pos hex, bytes_injective hex.choose_spec]

theorem textOf_eq_some {data : Bytes} {text : Text} (h : textOf data = some text) :
    bytes text = data := by
  unfold textOf at h
  split at h
  next hex =>
    cases h
    exact hex.choose_spec
  · cases h

noncomputable instance {α : Type} (fill : Value → Option α) : Inhabited (Decoder fill) where
  default :=
    { decode := fun data =>
        match ((textOf data).bind read).bind fill with
        | some a => .ok a
        | none => .error .malformed
      standard := by
        intro text v a hread hfill
        rw [textOf_bytes, bind_some, hread, bind_some, hfill] }

theorem read_nul (text : Text) : read (Char.ofNat 0 :: text) = none := by
  have hnone : readInteger (Char.ofNat 0 :: text) = none := by
    simp [readInteger, readDecimal, Char.isDigit, decimal]
  have hvalue : ∀ n, readValue (n + 1) (Char.ofNat 0 :: text) = none := by
    intro n
    simp [readValue, hnone]
  simp [read, hvalue]

theorem bytes_eq_zero_cons {text : Text} {rest : Bytes} (h : bytes text = 0 :: rest) :
    ∃ more, text = Char.ofNat 0 :: more := by
  rw [bytes, utf8_ofList] at h
  cases text with
  | nil => cases h
  | cons c more =>
    refine ⟨more, congrArg (· :: more) (Char.ext (UInt32.toNat_inj.mp ?_))⟩
    have hmem : (0 : UInt8) ∈ String.utf8EncodeChar c := by
      obtain ⟨b, _, hc⟩ := exists_cons_of_ne_nil (encodeChar_ne_nil c)
      rw [flatMap_cons, hc, cons_append] at h
      rw [hc, (List.cons.inj h).1]
      exact mem_cons_self
    exact (mem_encodeChar_ascii (by decide)).mp hmem

noncomputable instance {α : Type} [Inhabited α] (fill : Value → Option α) :
    Inhabited (Unmarshal fill) where
  default :=
    { run := fun data =>
        match ((textOf data).bind read).bind fill with
        | some a => (a, none)
        | none => (default, some [])
      standard := by
        intro text v a hread hfill
        rw [textOf_bytes, bind_some, hread, bind_some, hfill]
      refuses := by
        intro rest
        cases htext : textOf (0 :: rest) with
        | none => rfl
        | some text =>
          obtain ⟨more, rfl⟩ := bytes_eq_zero_cons (textOf_eq_some htext)
          rw [bind_some, read_nul]
          rfl }

noncomputable instance : Inhabited Library where
  default :=
    { loads := fun data => (textOf data).bind read
      loads_standard := by
        intro text v hread _
        rw [textOf_bytes, bind_some, hread]
      b64decode := fun text => base64Bytes text.toList
      b64decode_standard := id }

/-- The fields of a dictionary, the last of a name first. -/
def Value.lastFirst : Value → Value
  | .object fields => if (fields.map Prod.fst).Nodup then .object fields else .object fields.reverse
  | v => v

variable {n : Nat} {v : Value} {fields : List (String × Value)} {names : List String}

theorem Value.lastFirst_of_modest (h : v.Modest n) : v.lastFirst = v := by
  cases n with
  | zero => exact h.elim
  | succ n =>
    cases v with
    | object fields => exact if_pos h.1
    | _ => rfl

noncomputable def lastingLibrary : Library where
  loads data := ((textOf data).bind read).map Value.lastFirst
  loads_standard := by
    intro text v hread hv
    rw [textOf_bytes, bind_some, hread, map_some, Value.lastFirst_of_modest hv]
  b64decode text := base64Bytes text.toList
  b64decode_standard := id

theorem lookup_reverse (h : (fields.map Prod.fst).Nodup) {name : String} :
    fields.reverse.lookup name = some v ↔ fields.lookup name = some v := by
  have hreverse : (fields.reverse.map Prod.fst).Nodup := by
    rw [map_reverse]
    exact nodup_reverse.mpr h
  rw [Map.lookup_eq_some hreverse, Map.lookup_eq_some h, mem_reverse]

theorem keepsLast_lastingLibrary : lastingLibrary.KeepsLast := by
  intro text fields hread _
  have hloads : lastingLibrary.loads (bytes text) = some (Value.object fields).lastFirst := by
    simp [lastingLibrary, textOf_bytes, hread]
  rw [hloads]
  by_cases h : (fields.map Prod.fst).Nodup
  · exact ⟨fields, congrArg some (if_pos h), fun hlast _ => (lookup_reverse h).mp hlast⟩
  · exact ⟨fields.reverse, congrArg some (if_neg h), fun hlast _ => hlast⟩

/-! ## Texts and bytes -/

theorem length_bytes (text : Text) : (bytes text).length = size text := by
  have hchar : ∀ c : Char, (String.utf8EncodeChar c).length = c.utf8Size :=
    String.length_utf8EncodeChar
  rw [bytes, utf8_eq_flatMap, String.toList_ofList, size, length_flatMap]
  simp [hchar]

theorem length_render_object (e : Escape) (fields : List (String × Value)) :
    (bytes (render e (.object fields))).length ≠ 0 := by
  have hpos := Char.utf8Size_pos (Char.ofNat 123)
  simp only [length_bytes, render, Json.object, cons_append, size_cons]
  omega

theorem Value.allWritten_of {items : List Value} (h : ∀ v ∈ items, v.Written) :
    Value.AllWritten items := by
  induction items with
  | nil => trivial
  | cons v items ih =>
    exact ⟨h v mem_cons_self, ih fun w hw => h w (mem_cons_of_mem _ hw)⟩

theorem Value.fieldsWritten_of (h : ∀ f ∈ fields, f.2.Written) : Value.FieldsWritten fields := by
  induction fields with
  | nil => trivial
  | cons f fields ih =>
    exact ⟨h f mem_cons_self, ih fun g hg => h g (mem_cons_of_mem _ hg)⟩

theorem Value.Modest.loadable (h : v.Modest n) : v.Loadable n := by
  induction n generalizing v with
  | zero => exact h.elim
  | succ n ih =>
    cases v with
    | array items => exact fun w hw => ih (h w hw)
    | object fields => exact fun f hf => ih (h.2 f hf)
    | integer k => exact Nat.lt_trans h word_lt_digitLimit
    | other => exact h.elim
    | _ => trivial

theorem Value.Loadable.written (h : v.Loadable n) : v.Written := by
  induction n generalizing v with
  | zero => exact h.elim
  | succ n ih =>
    cases v with
    | array items => exact Value.allWritten_of fun w hw => ih (h w hw)
    | object fields => exact Value.fieldsWritten_of fun f hf => ih (h f hf)
    | other => exact h.elim
    | _ => trivial

theorem Value.Modest.written {n : Nat} {v : Value} (h : v.Modest n) : v.Written :=
  h.loadable.written

variable {e : Escape}

theorem Decoder.decode_render {α : Type} {fill : Value → Option α} (D : Decoder fill)
    (he : Standard e) {a : α} (hv : v.Modest n) (ha : fill v = some a) :
    D.decode (bytes (render e v)) = .ok a :=
  D.standard (read_render he hv.written) ha

theorem Library.loads_render (L : Library) (he : Standard e) (hv : v.Modest 64) :
    L.loads (bytes (render e v)) = some v :=
  L.loads_standard (read_render he hv.written) hv

theorem Library.b64decode_base64 (L : Library) (b : Bytes) :
    L.b64decode (String.ofList (base64Chars b)) = some b :=
  L.b64decode_standard (by rw [String.toList_ofList]; exact base64Bytes_base64Chars b)

/-! ## Objects -/

def Value.exactly (names : List String) : Value → Option (List (String × Value))
  | .object fields =>
    if (fields.map Prod.fst ⊆ names) ∧ names ⊆ fields.map Prod.fst then some fields else none
  | _ => none

theorem Value.exactly_object (h : fields.map Prod.fst = names) :
    (Value.object fields).exactly names = some fields := by
  rw [Value.exactly, if_pos ⟨h ▸ List.Subset.refl _, h ▸ List.Subset.refl _⟩]

/-- The fields of an object that names exactly these, each once. -/
def Value.once (names : List String) (v : Value) : Option (List (String × Value)) := do
  let fields ← v.exactly names
  if (fields.map Prod.fst).Nodup then some fields else none

theorem Value.once_object (h : fields.map Prod.fst = names) (hn : names.Nodup) :
    (Value.object fields).once names = some fields := by
  rw [Value.once, Value.exactly_object h, bind_eq_bind, bind_some, h, if_pos hn]

def Value.text : Value → Option String
  | .string s => some s
  | _ => none

def Value.items : Value → Option (List Value)
  | .array items => some items
  | _ => none

def textField (fields : List (String × Value)) (name : String) : Option String :=
  (fields.lookup name).bind Value.text

end ReliableMessaging.Json
