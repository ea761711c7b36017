import ReliableMessaging.Encoding.Json

/-!
# Numbers and bytes as digits

The texts that record identifiers, tokens and stored bytes are: decimal
numbers as `strconv` reads and writes them, bytes as `encoding/hex` and
`bytes.fromhex` do, and padded base64. What is written is read back
(`parseUint_formatUint`, `decodeHex_encodeHex`, `fromhex_encodeHex`,
`base64Bytes_base64Chars`).
-/

namespace ReliableMessaging

open Option Json

def formatUint (n : Nat) : String := Nat.repr n

def parseUint (text : String) : Option Nat :=
  let n := Nat.ofDigitChars 10 text.toList 0
  if text ≠ "" && text.toList.all Char.isDigit && n < 2 ^ 64 then some n else none

theorem parseUint_formatUint {n : Nat} (h : n < 2 ^ 64) : parseUint (formatUint n) = some n := by
  have hchars : (formatUint n).toList = Nat.toDigits 10 n := String.toList_ofList
  have hdigits : (Nat.toDigits 10 n).all Char.isDigit = true :=
    List.all_eq_true.mpr fun c hc => Nat.isDigit_of_mem_toDigits (by decide) (by decide) hc
  have hne : formatUint n ≠ "" := by
    intro heq
    rw [heq] at hchars
    exact Nat.toDigits_ne_nil hchars.symm
  have hvalue : Nat.ofDigitChars 10 (Nat.toDigits 10 n) 0 = n :=
    Nat.ofDigitChars_toDigits (by decide) (by decide)
  simp only [parseUint, hchars, hvalue, hdigits, hne, h, ne_eq, not_false_eq_true, decide_true,
    Bool.and_self, if_true]

def fromHexChar (c : Char) : Option Nat :=
  if '0' ≤ c ∧ c ≤ '9' then some (c.toNat - '0'.toNat)
  else if 'a' ≤ c ∧ c ≤ 'f' then some (c.toNat - 'a'.toNat + 10)
  else if 'A' ≤ c ∧ c ≤ 'F' then some (c.toNat - 'A'.toNat + 10)
  else none

/-- `hex.EncodeToString`. -/
def encodeHex (bytes : Bytes) : String := String.ofList (hexChars bytes)

def hexBytes : List Char → Option Bytes
  | [] => some []
  | [_] => none
  | a :: b :: rest => do
    let hi ← fromHexChar a
    let lo ← fromHexChar b
    let bytes ← hexBytes rest
    pure (UInt8.ofNat (16 * hi + lo) :: bytes)

/-- `hex.DecodeString`. -/
def decodeHex (text : String) : Option Bytes := hexBytes text.toList

theorem fromHexChar_hexDigit : ∀ n < 16, fromHexChar (hexDigit n) = some n := by
  decide

theorem hexBytes_hexChars (bytes : Bytes) : hexBytes (hexChars bytes) = some bytes := by
  induction bytes with
  | nil => rfl
  | cons b bytes ih =>
    have hlt : b.toNat < 256 := b.toNat_lt
    have hhi := fromHexChar_hexDigit (b.toNat / 16) (by omega)
    have hlo := fromHexChar_hexDigit (b.toNat % 16) (by omega)
    have hbyte : UInt8.ofNat (16 * (b.toNat / 16) + b.toNat % 16) = b := by
      rw [Nat.div_add_mod]
      exact UInt8.ofNat_toNat
    have hcons : hexChars (b :: bytes) = hexDigit (b.toNat / 16) ::
        hexDigit (b.toNat % 16) :: hexChars bytes := rfl
    simp only [hcons, hexBytes, hhi, hlo, bind_eq_bind, bind_some, ih, hbyte, pure_def]

theorem decodeHex_encodeHex (bytes : Bytes) : decodeHex (encodeHex bytes) = some bytes := by
  rw [decodeHex, encodeHex, String.toList_ofList]
  exact hexBytes_hexChars bytes

/-- The blanks `bytes.fromhex` skips. -/
def isBlank (c : Char) : Bool := c = ' ' || (9 ≤ c.toNat && c.toNat ≤ 13)

def spacedHexBytes : List Char → Option Bytes
  | [] => some []
  | [a] => if isBlank a then some [] else none
  | a :: b :: rest =>
    if isBlank a then spacedHexBytes (b :: rest)
    else do
      let hi ← fromHexChar a
      let lo ← fromHexChar b
      let bytes ← spacedHexBytes rest
      pure (UInt8.ofNat (16 * hi + lo) :: bytes)

/-- `bytes.fromhex`. -/
def fromhex (text : String) : Option Bytes := spacedHexBytes text.toList

theorem fromHexChar_blank {c : Char} (h : isBlank c = true) : fromHexChar c = none := by
  have hcode : c.toNat < 33 := by
    simp only [isBlank, Bool.or_eq_true, decide_eq_true_eq, Bool.and_eq_true] at h
    rcases h with rfl | h
    · decide
    · omega
  have hlow : ∀ d : Char, 33 ≤ d.toNat → ¬ d ≤ c := by
    intro d hd hle
    have hval : d.toNat ≤ c.toNat := hle
    omega
  simp [fromHexChar, hlow '0' (by decide), hlow 'a' (by decide), hlow 'A' (by decide)]

theorem spacedHexBytes_of_hexBytes {chars : List Char} {bytes : Bytes}
    (h : hexBytes chars = some bytes) : spacedHexBytes chars = some bytes := by
  induction chars using hexBytes.induct generalizing bytes with
  | case1 => exact h
  | case2 a => cases h
  | case3 a b rest ih =>
    simp only [hexBytes, bind_eq_bind, bind_eq_some_iff] at h
    obtain ⟨hi, hhi, lo, hlo, tail, htail, hbytes⟩ := h
    have hblank : ¬ isBlank a = true := by
      intro hblank
      rw [fromHexChar_blank hblank] at hhi
      cases hhi
    simp only [spacedHexBytes, hblank, Bool.false_eq_true, if_false, hhi, hlo, ih htail,
      bind_eq_bind, bind_some]
    exact hbytes

theorem fromhex_encodeHex (bytes : Bytes) : fromhex (encodeHex bytes) = some bytes :=
  spacedHexBytes_of_hexBytes (decodeHex_encodeHex bytes)

/-! ## Base64 -/

def base64Value (c : Char) : Option Nat :=
  if 'A' ≤ c ∧ c ≤ 'Z' then some (c.toNat - 'A'.toNat)
  else if 'a' ≤ c ∧ c ≤ 'z' then some (c.toNat - 'a'.toNat + 26)
  else if '0' ≤ c ∧ c ≤ '9' then some (c.toNat - '0'.toNat + 52)
  else if c = '+' then some 62
  else if c = '/' then some 63
  else none

/-- The bytes of padded base64 whose unused bits are zero. Decoders may take more. -/
def base64Bytes : List Char → Option Bytes
  | [] => some []
  | a :: b :: c :: d :: rest => do
    let a ← base64Value a
    let b ← base64Value b
    if c = '=' ∧ d = '=' ∧ rest = [] then
      if b % 16 = 0 then some [UInt8.ofNat (4 * a + b / 16)] else none
    else
      let c ← base64Value c
      if d = '=' ∧ rest = [] then
        if c % 4 = 0 then
          some [UInt8.ofNat (4 * a + b / 16), UInt8.ofNat (16 * (b % 16) + c / 4)]
        else none
      else
        let d ← base64Value d
        let bytes ← base64Bytes rest
        some (UInt8.ofNat (4 * a + b / 16) :: UInt8.ofNat (16 * (b % 16) + c / 4) ::
          UInt8.ofNat (64 * (c % 4) + d) :: bytes)
  | _ => none

theorem base64Value_base64Digit : ∀ n < 64, base64Value (base64Digit n) = some n := by
  decide

theorem base64Digit_ne_pad : ∀ n < 64, base64Digit n ≠ '=' := by
  decide

theorem ofNat_eq_of_toNat {b : UInt8} {n : Nat} (h : n = b.toNat) : UInt8.ofNat n = b := by
  rw [h, UInt8.ofNat_toNat]

theorem base64Bytes_base64Chars (bytes : Bytes) :
    base64Bytes (base64Chars bytes) = some bytes := by
  induction bytes using base64Chars.induct with
  | case1 => rfl
  | case2 a =>
    have ha : a.toNat < 256 := a.toNat_lt
    have h1 := base64Value_base64Digit (a.toNat / 4) (by omega)
    have h2 := base64Value_base64Digit (a.toNat % 4 * 16) (by omega)
    have hbyte : UInt8.ofNat (4 * (a.toNat / 4) + a.toNat % 4 * 16 / 16) = a :=
      ofNat_eq_of_toNat (by omega)
    have hzero : a.toNat % 4 * 16 % 16 = 0 := by omega
    simp only [base64Chars, base64Bytes, h1, h2, hbyte, hzero, bind_eq_bind,
      bind_some, true_and, if_true]
  | case3 a b =>
    have ha : a.toNat < 256 := a.toNat_lt
    have hb : b.toNat < 256 := b.toNat_lt
    have h1 := base64Value_base64Digit (a.toNat / 4) (by omega)
    have h2 := base64Value_base64Digit (a.toNat % 4 * 16 + b.toNat / 16) (by omega)
    have h3 := base64Value_base64Digit (b.toNat % 16 * 4) (by omega)
    have hpad := base64Digit_ne_pad (b.toNat % 16 * 4) (by omega)
    have hfirst : UInt8.ofNat (4 * (a.toNat / 4) + (a.toNat % 4 * 16 + b.toNat / 16) / 16) = a :=
      ofNat_eq_of_toNat (by omega)
    have hsecond : UInt8.ofNat (16 * ((a.toNat % 4 * 16 + b.toNat / 16) % 16) +
        b.toNat % 16 * 4 / 4) = b :=
      ofNat_eq_of_toNat (by omega)
    have hzero : b.toNat % 16 * 4 % 4 = 0 := by omega
    simp only [base64Chars, base64Bytes, h1, h2, h3, hpad, hfirst, hsecond, hzero,
      bind_eq_bind, bind_some, false_and, if_false, true_and, if_true]
  | case4 a b c rest ih =>
    have ha : a.toNat < 256 := a.toNat_lt
    have hb : b.toNat < 256 := b.toNat_lt
    have hc : c.toNat < 256 := c.toNat_lt
    have h1 := base64Value_base64Digit (a.toNat / 4) (by omega)
    have h2 := base64Value_base64Digit (a.toNat % 4 * 16 + b.toNat / 16) (by omega)
    have h3 := base64Value_base64Digit (b.toNat % 16 * 4 + c.toNat / 64) (by omega)
    have h4 := base64Value_base64Digit (c.toNat % 64) (by omega)
    have hpad := base64Digit_ne_pad (c.toNat % 64) (by omega)
    have hfirst : UInt8.ofNat (4 * (a.toNat / 4) + (a.toNat % 4 * 16 + b.toNat / 16) / 16) = a :=
      ofNat_eq_of_toNat (by omega)
    have hsecond : UInt8.ofNat (16 * ((a.toNat % 4 * 16 + b.toNat / 16) % 16) +
        (b.toNat % 16 * 4 + c.toNat / 64) / 4) = b :=
      ofNat_eq_of_toNat (by omega)
    have hthird : UInt8.ofNat (64 * ((b.toNat % 16 * 4 + c.toNat / 64) % 4) + c.toNat % 64) = c :=
      ofNat_eq_of_toNat (by omega)
    simp only [base64Chars, base64Bytes, h1, h2, h3, h4, hpad, ih, hfirst, hsecond, hthird,
      bind_eq_bind, bind_some, false_and, and_false, if_false]

end ReliableMessaging
