import ReliableMessaging.Encoding.Fields

/-!
# Messages

`message.New` and what a message keeps. A `Message` is what the code can
hold: the zero value, or something `New` accepted; the field `made` carries
that, so no proof re-checks a message.

Texts are `String`, so they are valid UTF-8 by their type; the code's
`utf8.ValidString` tests are then always true and have no counterpart.
-/

namespace ReliableMessaging

namespace Clock

/-- The next two characters as a number; with `fixed = false` one digit is
enough (`getnum`). -/
def getnum (fixed : Bool) : List Char → Option (Nat × List Char)
  | a :: rest =>
    if a.isDigit then
      match rest with
      | b :: rest' =>
        if b.isDigit then some ((a.toNat - 48) * 10 + (b.toNat - 48), rest')
        else if fixed then none else some (a.toNat - 48, b :: rest')
      | [] => if fixed then none else some (a.toNat - 48, [])
    else none
  | [] => none

def expect (c : Char) : List Char → Option (List Char)
  | a :: rest => if a = c then some rest else none
  | [] => none

def ranged (lo hi : Nat) : Nat × List Char → Option (Nat × List Char)
  | (n, rest) => if lo ≤ n ∧ n ≤ hi then some (n, rest) else none

def isLeap (year : Nat) : Bool := year % 4 = 0 ∧ (year % 100 ≠ 0 ∨ year % 400 = 0)

def daysIn (month year : Nat) : Nat :=
  if month = 2 then (if isLeap year then 29 else 28)
  else if month = 4 ∨ month = 6 ∨ month = 9 ∨ month = 11 then 30 else 31

/-- An optional fraction: a comma or a period with at least one digit. -/
def skipFraction : List Char → List Char
  | c :: d :: rest =>
    if (c = '.' ∨ c = ',') ∧ d.isDigit then rest.dropWhile Char.isDigit else c :: d :: rest
  | value => value

/-- The zone: `Z`, or a signed `hh:mm` with at most 24 hours and 60 minutes. -/
def zone : List Char → Option (List Char)
  | 'Z' :: rest => some rest
  | sign :: rest => do
    let (_, rest) ← (getnum true rest).bind (ranged 0 24)
    let rest ← expect ':' rest
    let (_, rest) ← (getnum true rest).bind (ranged 0 60)
    if sign = '+' ∨ sign = '-' then some rest else none
  | [] => none

/-- Whether `time.Parse(time.RFC3339Nano, value)` succeeds. -/
def parsesRFC3339Nano (value : String) : Bool :=
  (do
    let (century, rest) ← getnum true value.toList
    let (years, rest) ← getnum true rest
    let rest ← expect '-' rest
    let (month, rest) ← (getnum true rest).bind (ranged 1 12)
    let rest ← expect '-' rest
    let (day, rest) ← getnum true rest
    let rest ← expect 'T' rest
    let (_, rest) ← (getnum false rest).bind (ranged 0 23)
    let rest ← expect ':' rest
    let (_, rest) ← (getnum true rest).bind (ranged 0 59)
    let rest ← expect ':' rest
    let (_, rest) ← (getnum true rest).bind (ranged 0 59)
    let rest ← zone (skipFraction rest)
    if rest = [] ∧ 1 ≤ day ∧ day ≤ daysIn month (century * 100 + years) then some () else none
    : Option Unit).isSome

end Clock

namespace Message

/-- Application identity and content (`message.Input`). -/
structure Input where
  producer : String := ""
  id : String := ""
  destination : String := ""
  eventType : String := ""
  schemaVersion : String := ""
  scope : String := ""
  contentType : String := ""
  occurredAt : String := ""
  payload : Bytes := []
deriving DecidableEq

/-- A required text of at most `limit` bytes. -/
def bounded (value : String) (limit : Nat) : Bool :=
  value ≠ "" && value.utf8ByteSize ≤ limit

def accepted (m : Input) : Bool :=
  bounded m.producer 128 && bounded m.id 128 && bounded m.destination 255 &&
    bounded m.eventType 255 && bounded m.schemaVersion 128 && bounded m.scope 255 &&
    bounded m.contentType 255 && bounded m.occurredAt 64 &&
    Clock.parsesRFC3339Nano m.occurredAt && !m.payload.isEmpty

/-- What `New` hashes: a domain tag and every field behind its length. -/
def preimage (m : Input) : Bytes :=
  utf8 "rm-fingerprint-draft-v1\x00" ++ field (utf8 m.producer) ++ field (utf8 m.id) ++
    field (utf8 m.destination) ++ field (utf8 m.eventType) ++ field (utf8 m.schemaVersion) ++
    field (utf8 m.scope) ++ field (utf8 m.contentType) ++ field (utf8 m.occurredAt) ++
    field m.payload

end Message

/-- A message the code can hold: the zero value or one `New` made. -/
structure Message where
  input : Message.Input
  made : input = {} ∨ Message.accepted input = true
deriving DecidableEq

namespace Message

def zero : Message := ⟨{}, .inl rfl⟩

def new (m : Input) : Option Message :=
  if h : accepted m = true then some ⟨m, .inr h⟩ else none

def valid (m : Message) : Bool := m.input.producer ≠ ""

/-- `Message.Fingerprint`, frozen by `New`. -/
def fingerprint (H : Sha256) (m : Message) : Bytes := H.sum (preimage m.input)

theorem bounded_size {value : String} {limit : Nat} (h : bounded value limit = true) :
    value.utf8ByteSize ≤ limit := by
  simp only [bounded, Bool.and_eq_true, decide_eq_true_eq] at h
  exact h.2

theorem accepted_of_valid {m : Message} (h : m.valid = true) : accepted m.input = true := by
  rcases m.made with hz | hm
  · simp only [valid, hz, ne_eq, not_true_eq_false, decide_false, Bool.false_eq_true] at h
  · exact hm

theorem valid_of_new {i : Input} {m : Message} (h : new i = some m) :
    m.valid = true ∧ m.input = i := by
  unfold new at h
  split at h
  next ha =>
    cases h
    refine ⟨?_, rfl⟩
    simp only [accepted, bounded, Bool.and_eq_true, decide_eq_true_eq] at ha
    simp only [valid, decide_eq_true_eq]
    exact ha.1.1.1.1.1.1.1.1.1.1
  · cases h

theorem new_input {m : Message} (h : m.valid = true) : new m.input = some m := by
  unfold new
  rw [dif_pos (accepted_of_valid h)]

theorem preimage_inj {a b : Input} (ha : accepted a = true) (hb : accepted b = true)
    (h : preimage a = preimage b) : a = b := by
  simp only [accepted, Bool.and_eq_true] at ha hb
  obtain ⟨⟨⟨⟨⟨⟨⟨⟨⟨a1, a2⟩, a3⟩, a4⟩, a5⟩, a6⟩, a7⟩, a8⟩, _⟩, _⟩ := ha
  obtain ⟨⟨⟨⟨⟨⟨⟨⟨⟨b1, b2⟩, b3⟩, b4⟩, b5⟩, b6⟩, b7⟩, b8⟩, _⟩, _⟩ := hb
  have lt : ∀ {s : String} {n : Nat}, bounded s n = true → n < 2 ^ 64 →
      (utf8 s).length < 2 ^ 64 := fun hs hn => length_utf8_lt (bounded_size hs) hn
  simp only [preimage, List.append_assoc, List.append_cancel_left_eq] at h
  obtain ⟨e1, h⟩ := field_append_inj (lt a1 (by decide)) (lt b1 (by decide)) h
  obtain ⟨e2, h⟩ := field_append_inj (lt a2 (by decide)) (lt b2 (by decide)) h
  obtain ⟨e3, h⟩ := field_append_inj (lt a3 (by decide)) (lt b3 (by decide)) h
  obtain ⟨e4, h⟩ := field_append_inj (lt a4 (by decide)) (lt b4 (by decide)) h
  obtain ⟨e5, h⟩ := field_append_inj (lt a5 (by decide)) (lt b5 (by decide)) h
  obtain ⟨e6, h⟩ := field_append_inj (lt a6 (by decide)) (lt b6 (by decide)) h
  obtain ⟨e7, h⟩ := field_append_inj (lt a7 (by decide)) (lt b7 (by decide)) h
  obtain ⟨e8, h⟩ := field_append_inj (lt a8 (by decide)) (lt b8 (by decide)) h
  have e9 := field_inj h
  cases a
  cases b
  simp only [Input.mk.injEq]
  exact ⟨utf8_injective e1, utf8_injective e2, utf8_injective e3, utf8_injective e4,
    utf8_injective e5, utf8_injective e6, utf8_injective e7, utf8_injective e8, e9⟩

theorem fingerprint_inj {H : Sha256} [H.CollisionFree] {m n : Message} (hm : m.valid = true)
    (hn : n.valid = true) (h : m.fingerprint H = n.fingerprint H) : m = n := by
  have hi := preimage_inj (accepted_of_valid hm) (accepted_of_valid hn) (H.sum_injective h)
  cases m
  cases n
  simp only [Message.mk.injEq]
  exact hi

end Message

end ReliableMessaging
