import Mathlib.Data.List.Sort
import ReliableMessaging.Outbox.Record

/-!
# The outbox over MySQL

`storage/mysql/store.go` and `requeue.go`. `Append` and `RequeueConfirmed`
run inside a transaction that the host opened; `ClaimDue` opens its own; the
settlements are single statements, each a transaction of its own.
-/

namespace ReliableMessaging.Outbox.MySql

open TxLang

/-- A value of `id BIGINT UNSIGNED AUTO_INCREMENT`. -/
structure Id where
  val : Nat
  pos : 0 < val
  lt : val < 2 ^ 64
deriving DecidableEq

def Id.next (n : Nat) : Id :=
  ⟨n % (2 ^ 64 - 1) + 1, Nat.succ_pos _, by
    have := Nat.mod_lt n (show 2 ^ 64 - 1 > 0 by decide)
    omega⟩

/-- The column as `Scan` writes it into a string. -/
def Id.text (id : Id) : String := formatUint id.val

def parseID (text : String) : Option Id :=
  match parseUint text with
  | none => none
  | some n =>
    if h : 0 < n ∧ n < 2 ^ 64 then
      if formatUint n = text then some ⟨n, h.1, h.2⟩ else none
    else none

theorem parseID_text (id : Id) : parseID id.text = some id := by
  have h : 0 < id.val ∧ id.val < 2 ^ 64 := ⟨id.pos, id.lt⟩
  simp only [parseID, Id.text, parseUint_formatUint id.lt, dif_pos h, if_true]

variable {Ans : Event → Type}

abbrev OutboxCode (Ans : Event → Type) (α : Type) : Type := Code Err (Val Id) Ans α

def utcTimestamp : OutboxCode Ans Nat := send Err.driver .now

/-! ## The appender -/

/-- The row that `Append` inserts, with its index entry. -/
def insertedRows (id : Id) (r : Record) : Table Id :=
  AList.insert (.record id) r (AList.singleton (.identity r.identity) id)

/-- `Append`: a duplicate identity is idempotent only for identical content. -/
def append (H : Sha256) (m : Message) (due : Option Nat) : OutboxCode Ans Unit := do
  refuse (!m.valid) (.invalid "valid message and due time required")
  let due ← found due (.invalid "valid message and due time required")
  let clock ← utcTimestamp
  let number : Nat ← send Err.driver .random
  let fresh : Bool ← send Err.driver (.insert (insertedRows (Id.next number)
    { input := m.input, fingerprint := m.fingerprint H, nextAttemptAt := due
      createdAt := clock, updatedAt := clock }))
  if fresh then pure () else do
    let entry : Option Id ← send Err.driver (Stmt.lock .update (Row.identity (identityOf m.input)))
    let id ← found entry .noRows
    let row : Option Record ← send Err.driver (Stmt.lock .update (Row.record id))
    let existing ← found row .noRows
    refuse (existing.fingerprint ≠ m.fingerprint H) .conflict

structure ConfirmedRequeue where
  recordID : String
  expectedVersion : Nat
  expectedFingerprint : Bytes
  requestID : String

/-- `unicode.IsSpace`. -/
def isSpace (c : Char) : Bool :=
  (9 ≤ c.toNat && c.toNat ≤ 13) || c.toNat = 0x20 || c.toNat = 0x85 || c.toNat = 0xA0 ||
    c.toNat = 0x1680 || (0x2000 ≤ c.toNat && c.toNat ≤ 0x200A) || c.toNat = 0x2028 ||
    c.toNat = 0x2029 || c.toNat = 0x202F || c.toNat = 0x205F || c.toNat = 0x3000

/-- `strings.TrimSpace(text) == text`. -/
def trimmed (text : String) : Bool :=
  !text.toList.head?.any isSpace && !text.toList.getLast?.any isSpace

/-- `RequeueConfirmed`: a published record becomes due again, as it was. -/
def requeueConfirmed (input : ConfirmedRequeue) : OutboxCode Ans Nat := do
  let text := "valid original row, fingerprint, version and audit request required"
  let id ← found (parseID input.recordID) (.invalid text)
  refuse (input.expectedVersion = 0 || input.expectedVersion = 2 ^ 64 - 1 ||
    input.expectedFingerprint = List.replicate 32 0 || input.requestID = "" ||
    input.requestID.utf8ByteSize > 64 || !trimmed input.requestID) (.invalid text)
  let clock ← utcTimestamp
  let written : Table Id ← send Err.driver (.update (setRecord id
    (fun r => r.state = .published && r.transportConfirmedAt.isSome &&
      r.version = input.expectedVersion && r.fingerprint = input.expectedFingerprint)
    fun r => { r with
      state := .retryWait, nextAttemptAt := clock, claimToken := none, leaseUntil := none
      manualReplayRequestID := some input.requestID
      manualReplayVersion := some (input.expectedVersion + 1)
      version := r.version + 1, updatedAt := clock }))
  refuse (written.keys.length ≠ 1) .staleRequeue
  pure (input.expectedVersion + 1)

inductive HostStep
  | append (m : Message) (due : Option Nat)
  | requeue (input : ConfirmedRequeue)

/-- Run the script; the answer is what was appended. An error ends it, and the
host rolls back; a host that goes on after a refusal commits what a script
without that step commits. -/
def hostSteps (H : Sha256) : List HostStep → List Message → OutboxCode Ans (List Message)
  | [], done => pure done
  | .append m due :: rest, done => do
    append H m due
    hostSteps H rest (done ++ [m])
  | .requeue input :: rest, done => do
    let _ ← requeueConfirmed input
    hostSteps H rest done

/-- A host's transaction: the script, then commit or roll back. -/
def hostTransaction (H : Sha256) (steps : List HostStep) (commits : Bool) :
    OutboxCode Ans (List Message) :=
  withTx .driver do
    let done ← hostSteps H steps []
    if commits then do
      let _ : Unit ← send Err.driver .commit
      pure done
    else pure []

/-! ## The store -/

/-- The order of `ORDER BY next_attempt_at,id`. -/
def scanOrder (a b : Id × Record) : Prop :=
  a.2.nextAttemptAt < b.2.nextAttemptAt ∨
    a.2.nextAttemptAt = b.2.nextAttemptAt ∧ a.1.val ≤ b.1.val

instance (a b : Id × Record) : Decidable (scanOrder a b) :=
  inferInstanceAs (Decidable (_ ∨ _))

/-- The rows that the scan of `ClaimDue` locks. -/
def dueRows (now limit : Nat) (σ : Table Id) : List (Sigma (Val Id)) :=
  ((((records σ).filter fun x => x.2.due now).insertionSort scanOrder).take limit).map
    fun x => ⟨.record x.1, x.2⟩

/-- `UPDATE rm_outbox SET … WHERE id=? AND version=?`. -/
def setCandidate (id : Id) (version : Nat) (set : Nat → Record → Record) :
    OutboxCode Ans Unit := do
  let clock ← utcTimestamp
  let _ : Table Id ← send Err.driver (.update (setRecord id (·.version = version) (set clock)))
  pure ()

/-- One round of the loop of `ClaimDue`: a corrupt row is quarantined, any
other one leased. -/
def claimRow (H : Sha256) (leaseUntil : Nat) (id : Id) (r : Record) :
    OutboxCode Ans (Option Claim) :=
  match r.message H with
  | none => do
    setCandidate id r.version (Record.settle (setQuarantined "invalid_immutable_content"))
    pure none
  | some m => do
    let entropy : Nat ← send Err.driver .random
    setCandidate id r.version (Record.claim (tokenText entropy) leaseUntil)
    pure (some ⟨id.text, tokenText entropy, r.version + 1, r.attemptCount + 1, r.failureCount,
      leaseUntil, m⟩)

def claimRows (H : Sha256) (leaseUntil : Nat) :
    List (Id × Record) → OutboxCode Ans (List Claim)
  | [] => pure []
  | (id, r) :: rest => do
    let claim ← claimRow H leaseUntil id r
    let claims ← claimRows H leaseUntil rest
    pure (claim.toList ++ claims)

def claimDue (H : Sha256) (limit lease : Int) : OutboxCode Ans (List Claim) := do
  refuse (limit < 1 || limit > 1000 || lease < 1000 || lease > day)
    (.invalid "limit must be 1..1000 and lease 1us..24h")
  withTx .driver do
    let now ← utcTimestamp
    let candidates : List (Sigma (Val Id)) ←
      send Err.driver (.skipLocked (dueRows now limit.toNat))
    let claims ← claimRows H (now + lease.toNat / 1000) (recordsOf candidates)
    let _ : Unit ← send Err.driver .commit
    pure claims

/-- `update`: one conditional statement, which settles the claim or nothing. -/
def update (c : Claim) (set : Nat → Record → Record) : OutboxCode Ans Unit :=
  settleBy parseID c set

def confirm (c : Claim) : OutboxCode Ans Unit := update c setPublished

/-- `Retry`; the delay is rounded up to microseconds. -/
def retry (c : Claim) (delay : Int) (code : String) : OutboxCode Ans Unit := do
  refuse (delay ≤ 0 || !boundedCode code)
    (.invalid "retry requires positive delay and bounded error code")
  update c (setRetryWait ((delay.toNat + 999) / 1000) code)

def quarantine (c : Claim) (code : String) : OutboxCode Ans Unit := do
  refuse (!boundedCode code) (.invalid "bounded quarantine reason required")
  update c (setQuarantined code)

end ReliableMessaging.Outbox.MySql
