import ReliableMessaging.Encoding.Fields

/-!
# Writing JSON

Compact JSON text as the two standard libraries write it. They differ in one
thing only: which characters of a string they escape (`Escape`). Go's
`encoding/json` escapes more than Python's `json.dumps(ensure_ascii=False)`,
so its texts are never the shorter ones (`size_quote_le`).

Texts are lists of characters; `size` counts their UTF-8 bytes.
-/

namespace ReliableMessaging.Json

abbrev Text : Type := List Char

def size (text : Text) : Nat := (text.map Char.utf8Size).sum

@[simp] theorem size_nil : size [] = 0 := rfl

@[simp] theorem size_cons (c : Char) (text : Text) : size (c :: text) = c.utf8Size + size text := by
  simp [size]

@[simp] theorem size_append (a b : Text) : size (a ++ b) = size a + size b := by
  simp [size]

/-- How a string literal writes one character. -/
abbrev Escape : Type := Char → Text

/-- The lower-case hexadecimal digit of a number below 16. -/
def hexDigit (n : Nat) : Char := Nat.digitChar n

/-- `\uXXXX`. -/
def unicodeEscape (c : Char) : Text :=
  ['\\', 'u', hexDigit (c.toNat / 4096 % 16), hexDigit (c.toNat / 256 % 16),
    hexDigit (c.toNat / 16 % 16), hexDigit (c.toNat % 16)]

/-- The escapes both libraries use: quote, backslash and control characters. -/
def controlEscape (c : Char) : Text :=
  if c = '"' ∨ c = '\\' then ['\\', c]
  else if c.toNat = 8 then ['\\', 'b']
  else if c.toNat = 12 then ['\\', 'f']
  else if c = '\n' then ['\\', 'n']
  else if c = '\r' then ['\\', 'r']
  else if c = '\t' then ['\\', 't']
  else if c.toNat < 32 then unicodeEscape c
  else [c]

/-- `json.dumps(ensure_ascii=False)`. -/
def pythonEscape : Escape := controlEscape

/-- `json.Marshal`: also `<`, `>`, `&` and the two line separators. -/
def goEscape : Escape := fun c =>
  if c = '<' ∨ c = '>' ∨ c = '&' ∨ c.toNat = 0x2028 ∨ c.toNat = 0x2029 then unicodeEscape c
  else controlEscape c

def literal (escape : Escape) (chars : List Char) : Text :=
  '"' :: chars.flatMap escape ++ ['"']

def quote (escape : Escape) (s : String) : Text := literal escape s.toList

def commaSeparated (items : List Text) : Text := (items.intersperse [',']).flatten

def array (items : List Text) : Text := '[' :: commaSeparated items ++ [']']

/-- An object of names and rendered values, in their order. -/
def object (escape : Escape) (fields : List (String × Text)) : Text :=
  Char.ofNat 123 :: commaSeparated (fields.map fun f => quote escape f.1 ++ ':' :: f.2) ++
    [Char.ofNat 125]

def decimal (n : Nat) : Text := Nat.toDigits 10 n

/-- The characters of `hex.EncodeToString` and `bytes.hex`. -/
def hexChars (value : Bytes) : List Char :=
  value.flatMap fun b => [hexDigit (b.toNat / 16), hexDigit (b.toNat % 16)]

def hex (escape : Escape) (value : Bytes) : Text := literal escape (hexChars value)

def base64Digit (n : Nat) : Char :=
  if n < 26 then Char.ofNat (65 + n) else if n < 52 then Char.ofNat (97 + (n - 26))
  else if n < 62 then Char.ofNat (48 + (n - 52)) else if n = 62 then '+' else '/'

def base64Chars : Bytes → List Char
  | [] => []
  | [a] => [base64Digit (a.toNat / 4), base64Digit (a.toNat % 4 * 16), '=', '=']
  | [a, b] =>
    [base64Digit (a.toNat / 4), base64Digit (a.toNat % 4 * 16 + b.toNat / 16),
      base64Digit (b.toNat % 16 * 4), '=']
  | a :: b :: c :: rest =>
    base64Digit (a.toNat / 4) :: base64Digit (a.toNat % 4 * 16 + b.toNat / 16) ::
      base64Digit (b.toNat % 16 * 4 + c.toNat / 64) :: base64Digit (c.toNat % 64) ::
      base64Chars rest

def base64 (escape : Escape) (value : Bytes) : Text := literal escape (base64Chars value)

end ReliableMessaging.Json
