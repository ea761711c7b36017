import ReliableMessaging.Transaction.Codec
import ReliableMessaging.Transaction.Evidence
import ReliableMessaging.TxLang.Rows

/-!
# The tables of the transaction store

`schema.sql`: one row type for the four tables, keyed by their primary keys.
The Go and the Python store write the same tables. A `plan` or `reference`
column keeps the value that was encoded into it; texts that are `NULL` until
their first write are options.
-/

namespace ReliableMessaging.MySql

open Transaction TxLang

inductive Row where
  | binding (owner : String)
  | request (requestKey : Bytes)
  | execution (executionKey : Bytes)
  | witness (executionKey branchKey : Bytes)
deriving DecidableEq

structure BindingRow where
  storeID : String
  writerEpoch : String
  schemaVersion : Nat
deriving DecidableEq

structure RequestRow where
  owner : String
  scope : String
  idempotencyKey : String
  inputHash : Vector UInt8 32
  activeExecution : Bytes
deriving DecidableEq

structure ExecutionRow where
  requestKey : Bytes
  owner : String
  operationID : String
  writerEpoch : String
  fence : Nat
  token : Token
  plan : FrozenPlan
  state : State
  leaseUntil : Nat
  guardVersion : Nat := 0
  prepareStarted : Bool := false
deriving DecidableEq

structure WitnessRow where
  reference : Reference
  state : State
  brokerMessageID : Option String := none
  brokerTransactionID : Option String := none
  halfOutcome : HalfOutcome := .notAttempted
  finalOutcome : FinalOutcome := .notAttempted
  halfErrorCode : String := ""
  finalErrorCode : String := ""
  halfRecordedAt : Option Nat := none
  finalRecordedAt : Option Nat := none
deriving DecidableEq

abbrev Val : Row → Type
  | .binding _ => BindingRow
  | .request _ => RequestRow
  | .execution _ => ExecutionRow
  | .witness _ _ => WitnessRow

abbrev Tables : Type := Db Val

def schemaVersion : Nat := 1

section Statements

variable {Ev : Type} {Ans : Ev → Type}

def select : Code Err Val Ans Tables := send .driver .select

/-- `UTC_TIMESTAMP(6)`, in nanoseconds. -/
def utcTimestamp : Code Err Val Ans Nat := do
  let micros : Nat ← send Err.driver .now
  pure (micros * 1000)

/-- The same, where the query asks for it. -/
def utcTimestampIf (asked : Bool) : Code Err Val Ans Nat :=
  if asked then utcTimestamp else pure 0

/-- `SELECT … WHERE <primary key> FOR SHARE|UPDATE`. -/
def lockBinding (mode : Mode) (owner : String) : Code Err Val Ans (Option BindingRow) :=
  send Err.driver (Stmt.lock mode (Row.binding owner))

def lockRequest (key : Bytes) : Code Err Val Ans (Option RequestRow) :=
  send Err.driver (Stmt.lock .update (Row.request key))

def selectRequest (key : Bytes) (locked : Bool) : Code Err Val Ans (Option RequestRow) :=
  if locked then lockRequest key else do
    let db ← select
    pure (db.lookup (.request key))

def lockExecution (key : Bytes) : Code Err Val Ans (Option ExecutionRow) :=
  send Err.driver (Stmt.lock .update (Row.execution key))

def lockWitness (key branch : Bytes) : Code Err Val Ans (Option WitnessRow) :=
  send Err.driver (Stmt.lock .update (Row.witness key branch))

/-- An `UPDATE`; the answer is the number of rows it changed. -/
def update (rows : Tables → Tables) : Code Err Val Ans Nat := do
  let written : Tables ← send Err.driver (.update rows)
  pure written.keys.length

/-- `INSERT` of one row; `false` is a duplicate key (error 1062). -/
def insert (r : Row) (v : Val r) : Code Err Val Ans Bool :=
  send Err.driver (.insert (AList.singleton r v))

def commit : Code Err Val Ans Unit := send .driver .commit

end Statements

/-- `UPDATE rm_tx_execution SET … WHERE execution_key=? AND …`. -/
def setExecution (key : Bytes) (cond : ExecutionRow → Bool) (set : ExecutionRow → ExecutionRow) :
    Tables → Tables :=
  amend fun
    | .execution k, e => if k = key ∧ cond e then some (set e) else none
    | _, _ => none

/-- `UPDATE rm_tx_witness SET … WHERE execution_key=? AND …`. -/
def setWitnesses (key : Bytes) (cond : Bytes → WitnessRow → Bool)
    (set : WitnessRow → WitnessRow) : Tables → Tables :=
  amend fun
    | .witness k b, w => if k = key ∧ cond b w then some (set w) else none
    | _, _ => none

/-- `UPDATE rm_tx_request SET … WHERE request_key=?`. -/
def setRequest (key : Bytes) (set : RequestRow → RequestRow) : Tables → Tables :=
  amend fun
    | .request k, r => if k = key then some (set r) else none
    | _, _ => none

def setBinding (owner : String) (set : BindingRow → BindingRow) : Tables → Tables :=
  amend fun
    | .binding o, b => if o = owner then some (set b) else none
    | _, _ => none

section Lookups

variable {key k b : Bytes} {σ : Tables}

variable {cond : ExecutionRow → Bool} {set : ExecutionRow → ExecutionRow} {r : Row}

@[simp] theorem lookup_setExecution_execution :
    (setExecution key cond set σ).lookup (.execution k) =
      (σ.lookup (.execution k)).bind fun e => if k = key ∧ cond e then some (set e) else none := by
  simp [setExecution, lookup_amend]

theorem lookup_setExecution_other (h : ∀ k, r ≠ .execution k) :
    (setExecution key cond set σ).lookup r = none := by
  cases r with
  | execution k => exact absurd rfl (h k)
  | _ => simp [setExecution, lookup_amend]

theorem setExecution_hit (h : (setExecution key cond set σ).keys.length ≠ 0) :
    ∃ e : ExecutionRow, σ.lookup (.execution key) = some e ∧ cond e = true := by
  obtain ⟨r, hr⟩ := List.exists_mem_of_length_pos (Nat.pos_of_ne_zero h)
  obtain ⟨v, hv⟩ := mem_keys_iff_lookup.mp hr
  cases r with
  | execution k =>
    rw [lookup_setExecution_execution, Option.bind_eq_some_iff] at hv
    obtain ⟨e, he, hc⟩ := hv
    split at hc
    next hif =>
      obtain ⟨rfl, hcond⟩ := hif
      exact ⟨e, he, hcond⟩
    · cases hc
  | _ =>
    rw [lookup_setExecution_other fun _ => Row.noConfusion] at hv
    cases hv

theorem lookup_setExecution_ne (h : r ≠ .execution key) :
    (setExecution key cond set σ).lookup r = none := by
  cases r with
  | execution k =>
    have hk : k ≠ key := fun heq => h (heq ▸ rfl)
    simp [lookup_setExecution_execution, hk]
  | _ => exact lookup_setExecution_other fun _ => Row.noConfusion

theorem setExecution_one (h : (setExecution key cond set σ).keys.length ≠ 0) :
    (setExecution key cond set σ).keys.length = 1 := by
  have hsub : (setExecution key cond set σ).keys ⊆ [.execution key] := by
    intro r hr
    obtain ⟨v, hv⟩ := mem_keys_iff_lookup.mp hr
    by_contra hne
    rw [lookup_setExecution_ne fun heq => hne (heq ▸ List.mem_singleton_self _)] at hv
    cases hv
  have hle := (List.subperm_of_subset (setExecution key cond set σ).keys_nodup hsub).length_le
  rw [List.length_singleton] at hle
  omega

@[simp] theorem lookup_setWitnesses_witness {cond : Bytes → WitnessRow → Bool}
    {set : WitnessRow → WitnessRow} :
    (setWitnesses key cond set σ).lookup (.witness k b) =
      (σ.lookup (.witness k b)).bind fun w =>
        if k = key ∧ cond b w then some (set w) else none := by
  simp [setWitnesses, lookup_amend]

theorem lookup_setWitnesses_other {cond : Bytes → WitnessRow → Bool} {set : WitnessRow → WitnessRow}
    (h : ∀ k b, r ≠ .witness k b) : (setWitnesses key cond set σ).lookup r = none := by
  cases r with
  | witness k b => exact absurd rfl (h k b)
  | _ => simp [setWitnesses, lookup_amend]

theorem lookup_setWitnesses_ne {cond : Bytes → WitnessRow → Bool} {set : WitnessRow → WitnessRow}
    (h : ∀ b, r ≠ .witness key b) : (setWitnesses key cond set σ).lookup r = none := by
  cases r with
  | witness k b =>
    have hk : k ≠ key := fun heq => h b (heq ▸ rfl)
    simp [lookup_setWitnesses_witness, hk]
  | _ => exact lookup_setWitnesses_other fun _ _ => Row.noConfusion

@[simp] theorem lookup_setRequest_request {set : RequestRow → RequestRow} :
    (setRequest key set σ).lookup (.request k) =
      (σ.lookup (.request k)).bind fun r => if k = key then some (set r) else none := by
  simp [setRequest, lookup_amend]

theorem lookup_setRequest_other {set : RequestRow → RequestRow} (h : ∀ k, r ≠ .request k) :
    (setRequest key set σ).lookup r = none := by
  cases r with
  | request k => exact absurd rfl (h k)
  | _ => simp [setRequest, lookup_amend]

theorem lookup_setRequest_ne {set : RequestRow → RequestRow} (h : r ≠ .request key) :
    (setRequest key set σ).lookup r = none := by
  cases r with
  | request k =>
    have hk : k ≠ key := fun heq => h (heq ▸ rfl)
    simp [lookup_setRequest_request, hk]
  | _ => exact lookup_setRequest_other fun _ => Row.noConfusion

theorem lookup_setBinding_other {owner : String} {set : BindingRow → BindingRow}
    (h : ∀ o, r ≠ .binding o) : (setBinding owner set σ).lookup r = none := by
  cases r with
  | binding o => exact absurd rfl (h o)
  | _ => simp [setBinding, lookup_amend]

end Lookups

end ReliableMessaging.MySql
