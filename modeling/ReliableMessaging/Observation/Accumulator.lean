import ReliableMessaging.Loops
import ReliableMessaging.Transaction.Evidence

/-!
# Observing the protocol

`ObserveProtocol` classifies the executions and witnesses of one owner. The Go
adapters share an accumulator: the MySQL store feeds it the rows of one join,
the Mongo store the documents of one cursor. The Python store has its own
accumulator over the rows of the same join.
-/

namespace ReliableMessaging.Observation

open Transaction Loops

/-- `ErrBinding`, `ErrSchema` and `ErrMetadata`; in Python the matching exceptions. -/
inductive ObserveErr where
  | binding
  | schema
  | metadata
deriving DecidableEq, Repr

/-- The numbers of a `ProtocolObservation`. -/
@[ext]
structure Tally where
  reservedExecutions : Nat := 0
  preparingExecutions : Nat := 0
  preparedExpiryAge : Nat := 0
  confirmationGapBranches : Nat := 0
  oldestConfirmationObservationAge : Nat := 0
  unagedConfirmationGapBranches : Nat := 0
  untrackedAbortedBranches : Nat := 0
  unobservedCommittedBranches : Nat := 0
  metadataConflicts : Nat := 0
deriving DecidableEq, Repr

structure ProtocolObservation extends Tally where
  asOf : Nat := 0
deriving DecidableEq, Repr

/-! ## Stored texts -/

def decode {α : Type} (values : List α) (text : α → String) (stored : String) : Option α :=
  values.find? fun value => text value = stored

def stateText : State → String
  | .prepared => "prepared"
  | .committed => "committed"
  | .aborted => "aborted"

def halfText : HalfOutcome → String
  | .notAttempted => "not_attempted"
  | .prepared => "prepared"
  | .rejected => "rejected"
  | .unknown => "unknown"

def finalText : FinalOutcome → String
  | .notAttempted => "not_attempted"
  | .commitConfirmed => "commit_confirmed"
  | .rollbackConfirmed => "rollback_confirmed"
  | .unknown => "unknown"

def stateOf : String → Option State := decode [.prepared, .committed, .aborted] stateText

def halfOf : String → Option HalfOutcome :=
  decode [.notAttempted, .prepared, .rejected, .unknown] halfText

def finalOf : String → Option FinalOutcome :=
  decode [.notAttempted, .commitConfirmed, .rollbackConfirmed, .unknown] finalText

@[simp] theorem stateOf_stateText (s : State) : stateOf (stateText s) = some s := by
  cases s <;> decide

@[simp] theorem halfOf_halfText (h : HalfOutcome) : halfOf (halfText h) = some h := by
  cases h <;> decide

@[simp] theorem finalOf_finalText (f : FinalOutcome) : finalOf (finalText f) = some f := by
  cases f <;> decide

@[simp] theorem halfText_ne_empty (h : HalfOutcome) : halfText h ≠ "" := by
  cases h <;> decide

@[simp] theorem finalText_ne_empty (f : FinalOutcome) : finalText f ≠ "" := by
  cases f <;> decide

/-- A decoded text, or the error for one nobody writes. -/
def known {α : Type} : Option α → Except ObserveErr α
  | some value => .ok value
  | none => .error .metadata

def positive (final : FinalOutcome) : Bool := final = .commitConfirmed || final = .rollbackConfirmed

/-! ## The Go accumulator -/

/-- The longest `time.Duration`; `Time.Sub` stops there. -/
def maxDuration : Nat := 2 ^ 63 - 1

def age (now time : Nat) : Nat :=
  if time = 0 ∨ time > now then 0 else min (now - time) maxDuration

structure Branch where
  state : String
  half : String
  final : String
  halfAt : Nat
  finalAt : Nat

def execution (a : ProtocolObservation) (state : String) (started : Bool) (lease : Nat) :
    Except ObserveErr ProtocolObservation := do
  refuseIf (a.asOf = 0) .metadata
  let state ← known (stateOf state)
  refuseIf (lease = 0) .metadata
  if state = .prepared then
    if !started then
      return { a with reservedExecutions := a.reservedExecutions + 1 }
    else
      return { a with
        preparingExecutions := a.preparingExecutions + 1
        preparedExpiryAge := max a.preparedExpiryAge (age a.asOf lease) }
  else
    return a

/-- What `Accumulator.Branch` does once every text is known. -/
def classify (a : ProtocolObservation) (state : State) (started : Bool) (branchState : State)
    (half : HalfOutcome) (final : FinalOutcome) (halfAt finalAt : Nat) : ProtocolObservation :=
  let a :=
    if branchState ≠ state || (final = .commitConfirmed && state ≠ .committed) ||
        (final = .rollbackConfirmed && state ≠ .aborted) then
      { a with metadataConflicts := a.metadataConflicts + 1 }
    else a
  let a :=
    if state = .committed && half ≠ .prepared then
      { a with unobservedCommittedBranches := a.unobservedCommittedBranches + 1 }
    else a
  let a :=
    if state = .aborted && started && half = .notAttempted && !positive final then
      { a with untrackedAbortedBranches := a.untrackedAbortedBranches + 1 }
    else a
  if state = .prepared || (half ≠ .prepared && half ≠ .unknown) || positive final then a
  else
    let a := { a with confirmationGapBranches := a.confirmationGapBranches + 1 }
    let time := if halfAt = 0 then finalAt else halfAt
    if time = 0 then { a with unagedConfirmationGapBranches := a.unagedConfirmationGapBranches + 1 }
    else
      { a with
        oldestConfirmationObservationAge :=
          max a.oldestConfirmationObservationAge (age a.asOf time) }

/-- `Accumulator.Branch`; older Mongo documents omit default audit fields. -/
def branch (a : ProtocolObservation) (state : String) (started : Bool) (b : Branch) :
    Except ObserveErr ProtocolObservation := do
  let state ← known (stateOf state)
  let branchState ← known (stateOf b.state)
  let half ← known (halfOf (if b.half = "" then halfText .notAttempted else b.half))
  let final ← known (finalOf (if b.final = "" then finalText .notAttempted else b.final))
  return classify a state started branchState half final b.halfAt b.finalAt

def schemaVersion : Nat := 1

/-! ## The MySQL store -/

/-- A row of `observation.sql`, as it is scanned. -/
structure JoinRow where
  storeID : String
  writerEpoch : String
  version : Nat
  clock : Nat
  executionKey : Option Bytes := none
  state : Option String := none
  started : Option Bool := none
  lease : Option Nat := none
  branchKey : Option Bytes := none
  branchState : Option String := none
  half : Option String := none
  final : Option String := none
  halfAt : Option Nat := none
  finalAt : Option Nat := none
  first : Bool := true

def observeWitness (a : ProtocolObservation) (state : String) (started : Bool) (row : JoinRow) :
    Except ObserveErr ProtocolObservation :=
  match row.branchKey with
  | none => .ok { a with metadataConflicts := a.metadataConflicts + 1 }
  | some _ => do
    let branchState ← known row.branchState
    let half ← known row.half
    let final ← known row.final
    refuseIf (half = "" ∨ final = "") .metadata
    branch a state started ⟨branchState, half, final, row.halfAt.getD 0, row.finalAt.getD 0⟩

def observeRow (store : Binding) (a : ProtocolObservation) (row : JoinRow) :
    Except ObserveErr ProtocolObservation := do
  refuseIf (row.storeID ≠ store.storeID ∨ row.writerEpoch ≠ store.writerEpoch) .binding
  refuseIf (row.version ≠ schemaVersion) .schema
  let a := { a with asOf := row.clock }
  match row.executionKey with
  | none => return a
  | some _ =>
    let state ← known row.state
    let started ← known row.started
    let lease ← known row.lease
    let a ← (if row.first then execution a state started lease else .ok a)
    observeWitness a state started row

/-- `ObserveProtocol` over the rows of the join. -/
def observeJoin (store : Binding) (rows : List JoinRow) : Except ObserveErr ProtocolObservation := do
  let a ← rows.foldlM (observeRow store) {}
  refuseIf (a.asOf = 0) .binding
  return a

/-! ## The Mongo store -/

structure BindingView where
  store : String
  epoch : String
  version : Nat
  now : Nat

structure ExecutionView where
  state : String
  started : Bool
  lease : Nat
  branches : List Branch

def observeDocument (a : ProtocolObservation) (row : ExecutionView) :
    Except ObserveErr ProtocolObservation := do
  let a ← execution a row.state row.started row.lease
  let a := if row.branches = [] then { a with metadataConflicts := a.metadataConflicts + 1 } else a
  row.branches.foldlM (fun a b => branch a row.state row.started b) a

/-- `ObserveProtocol` over the documents of one snapshot. -/
def observeDocuments (store : Binding) (binding : Option BindingView) (rows : List ExecutionView) :
    Except ObserveErr ProtocolObservation := do
  let binding ← binding.elim (.error .binding) .ok
  refuseIf (binding.store ≠ store.storeID ∨ binding.epoch ≠ store.writerEpoch) .binding
  refuseIf (binding.version ≠ schemaVersion) .schema
  refuseIf (binding.now = 0) .metadata
  rows.foldlM observeDocument { asOf := binding.now }

/-! ## The Python store -/

namespace Python

/-- `_age`; a `timedelta` has no ceiling these times reach. -/
def age (now time : Nat) : Nat := now - time

def execution (s : ProtocolObservation) (state : State) (started : Bool) (lease : Nat) :
    ProtocolObservation :=
  if state = .prepared then
    if !started then { s with reservedExecutions := s.reservedExecutions + 1 }
    else
      { s with
        preparingExecutions := s.preparingExecutions + 1
        preparedExpiryAge := max s.preparedExpiryAge (age s.asOf lease) }
  else s

def branch (s : ProtocolObservation) (state : State) (started : Bool) (branchState : State)
    (half : HalfOutcome) (final : FinalOutcome) (halfAt finalAt : Option Nat) :
    ProtocolObservation :=
  let s :=
    if branchState ≠ state || (final = .commitConfirmed && state ≠ .committed) ||
        (final = .rollbackConfirmed && state ≠ .aborted) then
      { s with metadataConflicts := s.metadataConflicts + 1 }
    else s
  let s :=
    if state = .committed && half ≠ .prepared then
      { s with unobservedCommittedBranches := s.unobservedCommittedBranches + 1 }
    else s
  let s :=
    if state = .aborted && started && half = .notAttempted && !positive final then
      { s with untrackedAbortedBranches := s.untrackedAbortedBranches + 1 }
    else s
  if state = .prepared || !(half = .prepared || half = .unknown) || positive final then s
  else
    let s := { s with confirmationGapBranches := s.confirmationGapBranches + 1 }
    match halfAt.or finalAt with
    | none => { s with unagedConfirmationGapBranches := s.unagedConfirmationGapBranches + 1 }
    | some time =>
      { s with
        oldestConfirmationObservationAge :=
          max s.oldestConfirmationObservationAge (age s.asOf time) }

def observeWitness (s : ProtocolObservation) (state : State) (started : Bool) (row : JoinRow) :
    Except ObserveErr ProtocolObservation :=
  match row.branchKey with
  | none => .ok { s with metadataConflicts := s.metadataConflicts + 1 }
  | some _ => do
    let branchState ← known row.branchState
    let half ← known row.half
    let final ← known row.final
    let branchState ← known (stateOf branchState)
    let half ← known (halfOf half)
    let final ← known (finalOf final)
    return branch s state started branchState half final row.halfAt row.finalAt

/-- A row; the first one makes the accumulator. -/
def observeRow (store : Binding) (accumulator : Option ProtocolObservation) (row : JoinRow) :
    Except ObserveErr (Option ProtocolObservation) := do
  refuseIf (row.storeID ≠ store.storeID ∨ row.writerEpoch ≠ store.writerEpoch) .binding
  refuseIf (row.version ≠ schemaVersion) .schema
  let s := accumulator.getD { asOf := row.clock }
  match row.executionKey with
  | none => return some s
  | some _ =>
    let state ← known row.state
    let started ← known row.started
    let lease ← known row.lease
    let state ← known (stateOf state)
    let s := if row.first then execution s state started lease else s
    some <$> observeWitness s state started row

/-- `observe_protocol` over the rows of the join. -/
def observeJoin (store : Binding) (rows : List JoinRow) : Except ObserveErr ProtocolObservation := do
  let accumulator ← rows.foldlM (observeRow store) none
  accumulator.elim (.error .binding) .ok

end Python

end ReliableMessaging.Observation
