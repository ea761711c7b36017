import Mathlib.Data.List.Sort
import ReliableMessaging.Outbox.Record

/-!
# The outbox over Mongo

`storage/mongo/store.go` and `appender.go`. A document's `_id` is the identity
document itself, and a record identifier is its raw bytes in hexadecimal; what
the driver says of such bytes is a parameter (`Bson`).
-/

namespace ReliableMessaging.Outbox.Mongo

open TxLang

/-- The driver's raw documents: which bytes are one (`bson.Raw.Validate`), how
an identity is written, and the server's order of documents. -/
structure Bson where
  validate : Bytes → Bool
  identity : Identity → Bytes
  identity_valid : ∀ i, identity i ≠ [] ∧ validate (identity i) = true
  le : Bytes → Bytes → Bool

/-- An `_id`: bytes that are a document. -/
structure Id (B : Bson) where
  raw : Bytes
  nonempty : raw ≠ []
  valid : B.validate raw = true
deriving DecidableEq

variable {B : Bson}

def Id.text (id : Id B) : String := encodeHex id.raw

/-- A record identifier that names a document. -/
def parseID (B : Bson) (text : String) : Option (Id B) :=
  match decodeHex text with
  | none => none
  | some raw => if h : raw ≠ [] ∧ B.validate raw = true then some ⟨raw, h.1, h.2⟩ else none

theorem parseID_text (id : Id B) : parseID B id.text = some id := by
  have h : id.raw ≠ [] ∧ B.validate id.raw = true := ⟨id.nonempty, id.valid⟩
  simp [parseID, Id.text, decodeHex_encodeHex, dif_pos h]

def idOf (B : Bson) (i : Identity) : Id B :=
  ⟨B.identity i, (B.identity_valid i).1, (B.identity_valid i).2⟩

variable {Ans : Event → Type}

abbrev OutboxCode (B : Bson) (Ans : Event → Type) (α : Type) : Type := Code Err (Val (Id B)) Ans α

/-! ## The appender -/

/-- `UpdateOne` with `$setOnInsert` and `upsert`: a document that is there stays. -/
def setOnInsert (id : Id B) (r : Record) (σ : Table (Id B)) : Table (Id B) :=
  match σ.lookup (.record id) with
  | none => AList.singleton (.record id) r
  | some _ => ∅

/-- `Append`, in the host's transaction. -/
def append (H : Sha256) (m : Message) (due : Option Nat) : OutboxCode B Ans Unit := do
  refuse (!m.valid) (.invalid "valid message and due time required")
  let due ← found due (.invalid "valid message and due time required")
  let now : Nat ← send Err.driver .now
  let id := idOf B (identityOf m.input)
  let _ : Table (Id B) ← send Err.driver (.update (setOnInsert id
    { input := m.input, fingerprint := m.fingerprint H, nextAttemptAt := due
      createdAt := now, updatedAt := now }))
  let σ : Table (Id B) ← send Err.driver .select
  let existing : Record ← found (σ.lookup (.record id)) .noRows
  refuse (existing.fingerprint ≠ m.fingerprint H) .conflict

/-- Run a host's script of appends; the answer is what was appended. -/
def hostSteps (H : Sha256) : List (Message × Option Nat) → List Message →
    OutboxCode B Ans (List Message)
  | [], done => pure done
  | (m, due) :: rest, done => do
    append H m due
    hostSteps H rest (done ++ [m])

/-- A host's transaction: the script, then commit or roll back. -/
def hostTransaction (H : Sha256) (steps : List (Message × Option Nat)) (commits : Bool) :
    OutboxCode B Ans (List Message) :=
  withTx .driver do
    let done ← hostSteps H steps []
    if commits then do
      let _ : Unit ← send Err.driver .commit
      pure done
    else pure []

/-! ## The store -/

/-- The filter of `ClaimDue`; a `lease_until` that is missing compares below `$$NOW`. -/
def dueFilter (now : Nat) (r : Record) : Bool :=
  (r.state = .pending || r.state = .retryWait || r.state = .publishing) &&
    r.nextAttemptAt ≤ now &&
    ((r.state = .pending || r.state = .retryWait) ||
      r.state = .publishing && r.leaseUntil.all (· ≤ now))

/-- The sort by `next_attempt_at` and `_id`. -/
def scanOrder (a b : Id B × Record) : Prop :=
  a.2.nextAttemptAt < b.2.nextAttemptAt ∨
    a.2.nextAttemptAt = b.2.nextAttemptAt ∧ B.le a.1.raw b.1.raw = true

instance (a b : Id B × Record) : Decidable (scanOrder a b) :=
  inferInstanceAs (Decidable (_ ∨ _))

/-- The document that `FindOneAndUpdate` takes. -/
def firstDue (now : Nat) (σ : Table (Id B)) : Option (Id B × Record) :=
  (((records σ).filter fun x => dueFilter now x.2).insertionSort scanOrder).head?

/-- `FindOneAndUpdate`: lease the first due document. -/
def takeDue (token : String) (millis now : Nat) (σ : Table (Id B)) : Table (Id B) :=
  match firstDue now σ with
  | none => ∅
  | some (id, r) => AList.singleton (.record id) (r.claim token (now + millis) now)

/-- The document in the reply of `FindOneAndUpdate`. -/
def taken (reply : Table (Id B)) : Option (Id B × Record) := (records reply).head?

/-- `update`: one conditional `UpdateOne`. -/
def update (c : Claim) (set : Nat → Record → Record) : OutboxCode B Ans Unit :=
  settleBy (parseID B) c set

def confirm (c : Claim) : OutboxCode B Ans Unit := update c setPublished

/-- `Retry`; the delay is rounded up to milliseconds. -/
def retry (c : Claim) (delay : Int) (code : String) : OutboxCode B Ans Unit := do
  refuse (delay ≤ 0 || !boundedCode code)
    (.invalid "retry requires positive delay and bounded code")
  update c (setRetryWait ((delay.toNat + 999999) / 1000000) code)

def quarantine (c : Claim) (code : String) : OutboxCode B Ans Unit := do
  refuse (!boundedCode code) (.invalid "bounded quarantine code required")
  update c (setQuarantined code)

/-- The claim that a taken document makes; its message is set when it is found
intact. -/
def claimOf (token : String) (id : Id B) (r : Record) (m : Message) : Claim :=
  ⟨id.text, token, r.version, r.attemptCount, r.failureCount, r.leaseUntil.getD 0, m⟩

/-- How one round of the loop of `ClaimDue` ends. -/
inductive Round
  | stop (err : Option Err)
  | took (c : Claim)
  | skipped

/-- A document that was taken: a claim, or quarantined at once if corrupt. -/
def keepOrQuarantine (H : Sha256) (token : String) (id : Id B) (r : Record) :
    Prog (Val (Id B)) Ans Round :=
  match r.message H with
  | some m => pure (.took (claimOf token id r m))
  | none => do
    let done ← (quarantine (claimOf token id r .zero) "invalid_immutable_content" :
      OutboxCode B Ans Unit).run
    match done with
    | .error e => pure (.stop (some e))
    | .ok _ => pure .skipped

/-- One round of the loop of `ClaimDue`. -/
def claimRound (H : Sha256) (millis : Nat) : Prog (Val (Id B)) Ans Round := do
  let entropy ← (send Err.driver .random : OutboxCode B Ans Nat).run
  match entropy with
  | .error e => pure (.stop (some e))
  | .ok entropy => do
    let reply ← (send Err.driver (.auto (takeDue (tokenText entropy) millis)) :
      OutboxCode B Ans (Nat × Table (Id B))).run
    match reply with
    | .error e => pure (.stop (some e))
    | .ok reply =>
      match taken reply.2 with
      | none => pure (.stop none)
      | some (id, r) => keepOrQuarantine H (tokenText entropy) id r

/-- The loop of `ClaimDue`: claims so far, and the error that ended it. -/
def claimLoop (H : Sha256) (millis : Nat) :
    Nat → List Claim → Prog (Val (Id B)) Ans (List Claim × Option Err)
  | 0, claims => pure (claims, none)
  | n + 1, claims => do
    let round ← claimRound H millis
    match round with
    | .stop err => pure (claims, err)
    | .took c => claimLoop H millis n (claims ++ [c])
    | .skipped => claimLoop H millis n claims

def claimDue (H : Sha256) (limit lease : Int) :
    Prog (Val (Id B)) Ans (List Claim × Option Err) :=
  if limit < 1 || limit > 1000 || lease < 1000000 || lease > day then
    pure ([], some (.invalid "limit 1..1000 and lease 1ms..24h required"))
  else claimLoop H (lease.toNat / 1000000) limit.toNat []

end ReliableMessaging.Outbox.Mongo
