import ReliableMessaging.MySql.System
import ReliableMessaging.Sender.Verified

/-!
# The whole system over one MySQL store

Every call that may run against the transaction tables, with any arguments:
the store's operations for stores of any binding, the sender's `execute`, the
checker's callback, hosts' root transactions, and the change of a binding's
writer epoch. A run is any interleaving of any number of them, with faults,
crashes and commits whose acknowledgement is lost (`Reachable`).
-/

namespace ReliableMessaging.Sender

open Transaction TxLang MySql

/-- A host tells its log when a `Bind` has returned. -/
def announce (e : Execution) : Code Err Val Answer Unit :=
  send Err.driver (Stmt.call (Event.bound e))

inductive Call where
  | reserve (s : Store) (r : Request) (p : FrozenPlan) (o : ReserveOptions)
  | lookup (s : Store) (r : Request)
  | beginPrepare (s : Store) (e : Execution)
  | abortOnce (s : Store) (e : Execution)
  | reconcileOnce (s : Store) (order : List ExecutionRow → List ExecutionRow) (limit : Nat)
  | retry (s : Store) (previous : Execution) (o : ReserveOptions)
  | replan (s : Store) (previous : Execution) (candidate : FrozenPlan) (o : ReserveOptions)
  | evidence (s : Store) (ref : Reference)
  | recordHalf (s : Store) (e : Execution) (ref : Reference) (h : HalfReceipt)
  | recordFinal (s : Store) (e : Execution) (ref : Reference) (f : FinalOutcome) (code : String)
  | recordRecoveryFinal (s : Store) (ref : Reference) (outcome : FinalOutcome)
  | rootTransaction (steps : List HostStep) (commits : Bool)
  | execute (s : Store) (e : Execution)
  | checkMessage (s : Store) (config : Config) (physical : String) (decoded : Option Reference)
      (body : Bytes)
  | rotate (owner : String) (set : BindingRow → BindingRow)

def code (H : Sha256) : Call → Prog Val Answer Unit
  | .reserve s r p o => ignore (MySql.reserve H s r p o).run
  | .lookup s r => ignore (MySql.lookup H s r).run
  | .beginPrepare s e => ignore (MySql.beginPrepare H s e).run
  | .abortOnce s e => ignore (MySql.abortOnce H s e).run
  | .reconcileOnce s order limit => ignore (MySql.reconcileOnce H s order limit).run
  | .retry s previous o => ignore (MySql.retry H s previous o).run
  | .replan s previous candidate o => ignore (MySql.replan H s previous candidate o).run
  | .evidence s ref => ignore (MySql.evidence H s ref).run
  | .recordHalf s e ref h => ignore (MySql.recordHalf H s e ref h).run
  | .recordFinal s e ref f code => ignore (MySql.recordFinal H s e ref f code).run
  | .recordRecoveryFinal s ref outcome => ignore (MySql.recordRecoveryFinal H s ref outcome).run
  | .rootTransaction steps commits => ignore (MySql.rootTransaction H announce steps commits).run
  | .execute s e => ignore (Sender.execute H s e)
  | .checkMessage s config physical decoded body =>
    ignore (Sender.checkMessage H s config physical decoded body)
  | .rotate owner set => ignore (MySql.rotate owner set).run

/-- The states of the system: the rows, the calls in progress, the commits in
doubt, and the log. -/
abbrev System : Type := Sys Val Answer Call

/-- The system after any run from tables with binding rows only. -/
def Reachable (H : Sha256) (s : System) : Prop :=
  Reach .readCommitted (code H) anyStep Installed s

/-! ## Every call keeps the contract -/

section

variable {H : Sha256} {A : Tables → Tables → Prop}

/-- What a host announces is so while its transaction is open. -/
theorem announces : Announces H (fun _ _ => True) (allow H) A announce := by
  intro e σ t row g log hi htouched hplan
  refine wpc_send fun σ2 henv2 hi2 => ⟨?_, fun busy r σ' tx new hl => ?_⟩
  · have htouched2 := htouched.env hi hi2 henv2
    exact ⟨t, row, rfl, htouched2.held, htouched2.stored, htouched2.prepared, hplan⟩
  · cases hl
    exact ⟨rfl, hi2, henv2⟩

end

theorem verified (H : Sha256) [H.CollisionFree] (assume : Call → Tables → Tables → Prop)
    (pre : Call → Tables → Prop) :
    Verified (protocol H) .readCommitted (code H) assume pre := by
  intro call σ hi _
  cases call with
  | reserve => exact wp_ignore (wp_reserve rfl fun _ _ _ _ _ => trivial)
  | lookup => exact wp_ignore (wp_lookup rfl)
  | beginPrepare => exact wp_ignore (wp_beginPrepare rfl fun _ _ _ => trivial)
  | abortOnce => exact wp_ignore (wp_abort rfl fun _ _ _ _ => trivial)
  | reconcileOnce => exact wp_ignore (wp_reconcileOnce rfl fun _ _ _ _ => trivial)
  | retry => exact wp_ignore (wp_advance rfl fun _ _ _ _ _ _ => trivial)
  | replan => exact wp_ignore (wp_advance rfl fun _ _ _ _ _ _ => trivial)
  | evidence => exact wp_ignore (wp_evidence rfl)
  | recordHalf => exact wp_ignore (wp_recordHalf rfl fun _ _ _ => trivial)
  | recordFinal => exact wp_ignore (wp_recordFinal rfl fun _ _ _ _ => trivial)
  | recordRecoveryFinal => exact wp_ignore (wp_recordRecoveryFinal rfl fun _ _ _ => trivial)
  | rootTransaction => exact wp_ignore (wp_rootTransaction announces rfl fun _ _ _ => trivial)
  | execute => exact wp_ignore (wp_execute rfl hi rfl)
  | checkMessage => exact wp_ignore (wp_checkMessage rfl hi)
  | rotate => exact wp_ignore (wp_rotate rfl fun _ _ _ => trivial)

theorem sound (H : Sha256) [H.CollisionFree] :
    Sound (protocol H) .readCommitted (code H) (fun _ _ _ => True) (fun _ _ => True) anyStep
      Installed :=
  (verified H _ _).sound fun _ => Installed.inv

/-! ## Runs of one call at a time -/

/-- The rows and the log that a sequence of calls leaves. -/
def served (H : Sha256) (calls : List (World Answer × Call)) (σ : Tables) :
    Tables × List (Nat × Entry Val Answer) :=
  serve .readCommitted (code H) 0 calls σ

theorem reachable_served (H : Sha256) {σ : Tables} (h : Installed σ)
    (calls : List (World Answer × Call)) :
    ∃ s, Reachable H s ∧ (∀ m, calls.length ≤ m → s.procs m = none) ∧
      s.db = (served H calls σ).1 ∧ s.log = (served H calls σ).2 := by
  obtain ⟨s, hr, _, hfree, hdb, hlog⟩ := reach_serve .readCommitted (code H) (fun _ _ => True) h
    calls (mayServe_true _ _ _ _ _ _)
  exact ⟨s, hr.mono fun _ _ _ => trivial, hfree, hdb, hlog⟩

namespace Sample

/-! One small instance of everything, for runs that are computed. -/

open Transaction.Sample MySql.Sample

def world (reported : LocalOutcome) : World Answer where
  clock := 1
  random := 1
  answer
    | .bound _ => some ()
    | .cancelled => some false
    | .prepare _ _ => some ⟨⟨.prepared, "i", "j", ""⟩, true, false⟩
    | .recorded _ _ => some ()
    | .runLocal _ => some ⟨reported, false⟩
    | .finalize _ _ => some true
    | .resolution _ _ => some ()

def reserve (operation key : String) : World Answer × Call :=
  (world .committed, .reserve store (requestFor (plan operation key)) (plan operation key) options)

def commitRoot (e : Execution) : World Answer × Call :=
  (world .committed, .rootTransaction [.bind store e, .commitWitness 0] true)

def check (ref : Reference) : World Answer × Call :=
  (world .committed, .checkMessage store ⟨"o", fun _ => some ⟨"t", "r"⟩⟩ "t" (some ref) [1])

end Sample

end ReliableMessaging.Sender
