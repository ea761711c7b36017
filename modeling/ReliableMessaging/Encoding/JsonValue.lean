import ReliableMessaging.Encoding.Json

/-!
# JSON values and their compact texts

A value as a library holds it, and the text a writer makes of it: no blanks,
fields in their order. The writer's escape is a parameter; what a program does
to the finished text, character by character, it does to the escapes, as long
as it leaves the syntax alone (`render_flatMap`).
-/

namespace ReliableMessaging.Json

open List

/-- A JSON value. `other` is what no writer here writes and no reader here wants: a number that is
no integer, or a string with an unpaired surrogate. -/
inductive Value
  | null
  | bool (b : Bool)
  | integer (n : Int)
  | string (s : String)
  | array (items : List Value)
  | object (fields : List (String × Value))
  | other

def integerText : Int → Text
  | .ofNat n => decimal n
  | .negSucc n => '-' :: decimal (n + 1)

mutual
def render (e : Escape) : Value → Text
  | .null => ['n', 'u', 'l', 'l']
  | .bool true => ['t', 'r', 'u', 'e']
  | .bool false => ['f', 'a', 'l', 's', 'e']
  | .integer n => integerText n
  | .string s => quote e s
  | .array items => array (renderItems e items)
  | .object fields => object e (renderFields e fields)
  | .other => []

def renderItems (e : Escape) : List Value → List Text
  | [] => []
  | v :: items => render e v :: renderItems e items

def renderFields (e : Escape) : List (String × Value) → List (String × Text)
  | [] => []
  | (name, v) :: fields => (name, render e v) :: renderFields e fields
end

def bytes (text : Text) : Bytes := utf8 (String.ofList text)

/-! ## Rewriting a finished text -/

/-- The characters of JSON's own syntax, and of numbers and words. -/
def isSyntax (c : Char) : Bool :=
  c.isAlphanum || c = '-' || c = '"' || c = ',' || c = ':' || c = '[' || c = ']' ||
    c = Char.ofNat 123 || c = Char.ofNat 125

variable {e : Escape} {s : Char → Text}

/-- The escapes, rewritten. -/
def Escape.then (e : Escape) (s : Char → Text) : Escape := fun c => (e c).flatMap s

/-- Leaves JSON's own syntax alone. -/
def KeepsSyntax (s : Char → Text) : Prop := ∀ c, isSyntax c = true → s c = [c]

theorem flatMap_kept {text : Text} (h : ∀ c ∈ text, s c = [c]) : text.flatMap s = text := by
  induction text with
  | nil => rfl
  | cons c text ih =>
    rw [List.flatMap_cons, h c List.mem_cons_self, ih fun d hd => h d (List.mem_cons_of_mem _ hd)]
    rfl

theorem flatMap_decimal (hs : KeepsSyntax s) (n : Nat) : (decimal n).flatMap s = decimal n := by
  refine flatMap_kept fun c hc => hs c ?_
  have hd : c.isDigit = true := Nat.isDigit_of_mem_toDigits (by decide) (by decide) hc
  simp [isSyntax, Char.isAlphanum, hd]

theorem flatMap_integerText (hs : KeepsSyntax s) (n : Int) :
    (integerText n).flatMap s = integerText n := by
  cases n with
  | ofNat n => exact flatMap_decimal hs n
  | negSucc n =>
    rw [integerText, List.flatMap_cons, hs '-' (by decide), flatMap_decimal hs]
    rfl

theorem flatMap_quote (hs : KeepsSyntax s) (text : String) :
    (quote e text).flatMap s = quote (e.then s) text := by
  simp only [quote, literal, List.cons_append, List.flatMap_cons, List.flatMap_append,
    hs '"' (by decide), flatMap_assoc, flatMap_nil]
  rfl

theorem flatMap_commaSeparated (hs : KeepsSyntax s) (items : List Text) :
    (commaSeparated items).flatMap s = commaSeparated (items.map (·.flatMap s)) := by
  induction items with
  | nil => rfl
  | cons t items ih =>
    cases items with
    | nil => simp [commaSeparated]
    | cons u items =>
      simp only [commaSeparated, intersperse_cons_cons, flatten_cons,
        flatMap_append, map_cons] at ih ⊢
      rw [ih]
      simp [hs ',' (by decide)]

mutual
/-- A rewriting that leaves the syntax alone rewrites the escapes. -/
theorem render_flatMap (hs : KeepsSyntax s) :
    ∀ v : Value, (render e v).flatMap s = render (e.then s) v
  | .null => by
    simp [render, hs 'n' (by decide), hs 'u' (by decide), hs 'l' (by decide)]
  | .bool true => by
    simp [render, hs 't' (by decide), hs 'r' (by decide), hs 'u' (by decide), hs 'e' (by decide)]
  | .bool false => by
    simp [render, hs 'f' (by decide), hs 'a' (by decide), hs 'l' (by decide), hs 's' (by decide),
      hs 'e' (by decide)]
  | .integer n => flatMap_integerText hs n
  | .string text => flatMap_quote hs text
  | .array items => by
    simp only [render, array, flatMap_cons, flatMap_append, flatMap_nil,
      hs '[' (by decide), hs ']' (by decide), flatMap_commaSeparated hs,
        renderItems_flatMap hs items]
    rfl
  | .object fields => by
    have hfields := renderFields_flatMap hs fields
    simp only [render, object, flatMap_cons, flatMap_append, flatMap_nil,
      hs (Char.ofNat 123) (by decide), hs (Char.ofNat 125) (by decide), flatMap_commaSeparated hs,
      map_map]
    rw [← hfields, map_map]
    have hfield : ∀ f : String × Text, (quote e f.1 ++ ':' :: f.2).flatMap s =
        quote (e.then s) f.1 ++ ':' :: f.2.flatMap s := by
      intro f
      rw [flatMap_append, flatMap_quote hs, flatMap_cons, hs ':' (by decide)]
      rfl
    simp only [Function.comp_def, hfield]
    rfl
  | .other => rfl

theorem renderItems_flatMap (hs : KeepsSyntax s) : ∀ items : List Value,
    (renderItems e items).map (·.flatMap s) = renderItems (e.then s) items
  | [] => rfl
  | v :: items => by
    rw [renderItems, map_cons, render_flatMap hs v, renderItems_flatMap hs items]
    rfl

theorem renderFields_flatMap (hs : KeepsSyntax s) : ∀ fields : List (String × Value),
    (renderFields e fields).map (fun f => (f.1, f.2.flatMap s)) = renderFields (e.then s) fields
  | [] => rfl
  | (name, v) :: fields => by
    rw [renderFields, map_cons, render_flatMap hs v, renderFields_flatMap hs fields]
    rfl
end

end ReliableMessaging.Json
