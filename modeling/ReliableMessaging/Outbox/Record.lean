import ReliableMessaging.Encoding.Digits
import ReliableMessaging.Message
import ReliableMessaging.TxLang.Rows

/-!
# Outbox records and claims

The rows of `rm_outbox` and the documents of the Mongo collection are the
same record under different keys (`K`): a number from `AUTO_INCREMENT` there,
the identity document here. `identity_key` is the unique index of the MySQL
table; Mongo's `_id` needs none.
-/

namespace ReliableMessaging.Outbox

open TxLang

/-- The column `state`. -/
inductive State
  | pending
  | publishing
  | retryWait
  | published
  | quarantined
deriving DecidableEq

structure Record where
  input : Message.Input
  fingerprint : Bytes
  state : State := .pending
  nextAttemptAt : Nat
  claimToken : Option String := none
  leaseUntil : Option Nat := none
  version : Nat := 0
  attemptCount : Nat := 0
  failureCount : Nat := 0
  lastErrorCode : String := ""
  transportConfirmedAt : Option Nat := none
  manualReplayRequestID : Option String := none
  manualReplayVersion : Option Nat := none
  createdAt : Nat
  updatedAt : Nat
deriving DecidableEq

/-- What `identity_key` makes unique. -/
structure Identity where
  producer : String
  messageID : String
  destination : String
deriving DecidableEq

def identityOf (m : Message.Input) : Identity := ⟨m.producer, m.id, m.destination⟩

def Record.identity (r : Record) : Identity := identityOf r.input

structure Claim where
  recordID : String
  token : String
  version : Nat
  attempts : Nat
  failureCount : Nat
  leaseUntil : Nat
  message : Message
deriving DecidableEq

inductive Err
  | driver
  | invalid (text : String)
  | conflict
  | staleClaim
  | staleRequeue
  | noRows
deriving DecidableEq

/-- A record under its key, or an entry of the unique index. -/
inductive Row (K : Type)
  | record (key : K)
  | identity (i : Identity)
deriving DecidableEq

/-- What is stored under a key; an index entry names the record. -/
abbrev Val (K : Type) : Row K → Type
  | .record _ => Record
  | .identity _ => K

abbrev Table (K : Type) : Type := Db (Val K)

/-! ## What statements do to a record -/

/-- The query of `ClaimDue`: what a relay may take at this time. -/
def Record.due (now : Nat) (r : Record) : Bool :=
  (r.state = .pending || r.state = .retryWait) && r.nextAttemptAt ≤ now ||
    r.state = .publishing && r.leaseUntil.any (· ≤ now)

/-- Leased to a relay; the lease's end is also when the record is next due. -/
def Record.claim (token : String) (leaseUntil clock : Nat) (r : Record) : Record :=
  { r with
    state := .publishing, claimToken := some token, leaseUntil := some leaseUntil
    nextAttemptAt := leaseUntil, version := r.version + 1, attemptCount := r.attemptCount + 1
    updatedAt := clock }

/-- The condition of every settlement: the claim is the record's, and in time. -/
def Record.claimedBy (c : Claim) (clock : Nat) (r : Record) : Bool :=
  r.claimToken = some c.token && r.version = c.version && r.state = .publishing &&
    r.leaseUntil.any (clock < ·)

/-- What every settlement writes beside its own columns. -/
def Record.settle (set : Nat → Record → Record) (clock : Nat) (r : Record) : Record :=
  { set clock r with
    claimToken := none, leaseUntil := none, version := r.version + 1, updatedAt := clock }

def setPublished (clock : Nat) (r : Record) : Record :=
  { r with state := .published, transportConfirmedAt := some clock, lastErrorCode := "" }

def setRetryWait (delay : Nat) (code : String) (clock : Nat) (r : Record) : Record :=
  { r with
    state := .retryWait, nextAttemptAt := clock + delay, lastErrorCode := code
    failureCount := r.failureCount + 1 }

def setQuarantined (code : String) (_ : Nat) (r : Record) : Record :=
  { r with state := .quarantined, lastErrorCode := code, failureCount := r.failureCount + 1 }

/-- The message a record holds, unless it is corrupt. -/
def Record.message (H : Sha256) (r : Record) : Option Message :=
  match Message.new r.input with
  | some m => if r.fingerprint = m.fingerprint H then some m else none
  | none => none

section Statements

variable {K : Type} [DecidableEq K]

/-- `UPDATE rm_outbox SET … WHERE id=? AND …`, of one record. -/
def setRecord (key : K) (cond : Record → Bool) (set : Record → Record) : Table K → Table K :=
  amend fun
    | .record k, r => if k = key ∧ cond r then some (set r) else none
    | .identity _, _ => none

def recordsOf (rows : List (Sigma (Val K))) : List (K × Record) :=
  rows.filterMap fun
    | ⟨.record k, r⟩ => some (k, r)
    | ⟨.identity _, _⟩ => none

def records (σ : Table K) : List (K × Record) := recordsOf σ.entries

variable {key k : K} {cond : Record → Bool} {set : Record → Record} {σ : Table K}

@[simp] theorem lookup_setRecord_record :
    (setRecord key cond set σ).lookup (.record k) =
      (σ.lookup (.record k)).bind fun r => if k = key ∧ cond r then some (set r) else none := by
  simp [setRecord, lookup_amend]

@[simp] theorem lookup_setRecord_identity {i : Identity} :
    (setRecord key cond set σ).lookup (.identity i) = none := by
  simp [setRecord, lookup_amend]

theorem mem_records {r : Record} (h : (k, r) ∈ records σ) : σ.lookup (.record k) = some r := by
  obtain ⟨⟨row, v⟩, hmem, hrow⟩ := List.mem_filterMap.mp h
  cases row with
  | record k' =>
    cases hrow
    exact AList.mem_lookup_iff.mpr hmem
  | identity i => cases hrow

omit [DecidableEq K] in
theorem recordsOf_sublist (l : List (Sigma (Val K))) :
    List.Sublist ((recordsOf l).map fun x => Row.record x.1) l.keys := by
  induction l with
  | nil => exact List.Sublist.slnil
  | cons x l ih =>
    obtain ⟨row, v⟩ := x
    cases row with
    | record k => exact ih.cons_cons _
    | identity i => exact ih.cons _

omit [DecidableEq K] in
theorem records_nodup (σ : Table K) : ((records σ).map fun x => Row.record x.1).Nodup :=
  List.Nodup.sublist (recordsOf_sublist σ.entries) σ.nodupKeys

theorem setRecord_cases (key : K) (cond : Record → Bool) (set : Record → Record) (σ : Table K) :
    (∃ r : Record, σ.lookup (.record key) = some r ∧ cond r = true ∧
      (setRecord key cond set σ).lookup (.record key) = some (set r) ∧
      (setRecord key cond set σ).keys ≠ [] ∧
      ∀ row, row ≠ .record key → (setRecord key cond set σ).lookup row = none) ∨
    ∀ row, (setRecord key cond set σ).lookup row = none := by
  have hother : ∀ row, row ≠ .record key → (setRecord key cond set σ).lookup row = none := by
    intro row hrow
    cases row with
    | identity i => exact lookup_setRecord_identity
    | record k =>
      have hk : k ≠ key := fun heq => hrow (heq ▸ rfl)
      simp [lookup_setRecord_record, hk]
  have hself : (setRecord key cond set σ).lookup (.record key) =
      (σ.lookup (.record key)).bind fun r => if cond r then some (set r) else none := by
    simp [lookup_setRecord_record]
  by_cases hhit : ∃ r : Record, σ.lookup (.record key) = some r ∧ cond r = true
  · obtain ⟨r, hr, hcond⟩ := hhit
    have hset : (setRecord key cond set σ).lookup (.record key) = some (set r) := by
      rw [hself, hr, Option.bind_some, if_pos hcond]
    refine .inl ⟨r, hr, hcond, hset, fun hnil => ?_, hother⟩
    rw [keys_eq_nil_iff.mp hnil] at hset
    cases hset
  · refine .inr fun row => ?_
    by_cases hrow : row = .record key
    · subst hrow
      rw [hself, Option.bind_eq_none_iff]
      intro r hr
      rw [if_neg]
      exact fun hcond => hhit ⟨r, hr, hcond⟩
    · exact hother row hrow

variable {Ev : Type} {Ans : Ev → Type}

/-- `update` of both stores: one conditional statement, which settles the claim
or changes nothing. The stores differ in how a record identifier is read. -/
def settleBy (parse : String → Option K) (c : Claim) (set : Nat → Record → Record) :
    Code Err (Val K) Ans Unit := do
  let id ← found (parse c.recordID) .staleClaim
  refuse (c.token = "" || c.version = 0) .staleClaim
  let reply : Nat × Table K ← send Err.driver (.auto fun clock =>
    setRecord id (Record.claimedBy c clock) (Record.settle set clock))
  refuse (reply.2.keys.length ≠ 1) .staleClaim

end Statements

/-- `rand.Read` into 32 bytes, as `hex.EncodeToString` writes them. -/
def tokenText (entropy : Nat) : String :=
  encodeHex ((List.range 32).map fun i => UInt8.ofNat (entropy / 256 ^ i))

/-- A bounded reason, as `Retry` and `Quarantine` require. -/
def boundedCode (code : String) : Bool := code ≠ "" && code.utf8ByteSize ≤ 128

def day : Int := 24 * 60 * 60 * 1000000000

/-! ## What the log keeps -/

/-- `transport.Outcome`, as a relay reads what a publisher returned. -/
inductive Outcome
  | unknown
  | confirmed
  | rejected
deriving DecidableEq

/-- Anything else than `Confirmed` and `Rejected` counts as `Unknown`. -/
def Outcome.ofRaw (raw : UInt8) : Outcome :=
  if raw = 1 then .confirmed else if raw = 2 then .rejected else .unknown

/-- What happens outside the store, and what a call has returned:
`publish c` hands the claim's message to the publisher; `claimed c` says that
`ClaimDue` returned the claim, `settled c` that a settlement with it returned
without an error, and `appended m` that a host's commit of an `Append` was
acknowledged. -/
inductive Event
  | claimed (c : Claim)
  | publish (c : Claim)
  | settled (c : Claim)
  | appended (m : Message)

/-- What the world answers: a publisher any byte, the marks nothing. -/
abbrev Answer : Event → Type
  | .claimed _ => Unit
  | .publish _ => UInt8
  | .settled _ => Unit
  | .appended _ => Unit

def markAll {K : Type} : List Event → Prog (Val K) Answer Unit
  | [] => .ret ()
  | ev :: rest => (ask ev).bind fun _ => markAll rest

end ReliableMessaging.Outbox
