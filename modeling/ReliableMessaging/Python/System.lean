import ReliableMessaging.MySql.System
import ReliableMessaging.Python.Verified

/-!
# Both stores over the same tables

Every operation of the Python store, with any arguments that Python code can
hold: the constructors of `Execution` and `HalfReceipt` check their fields, so
those are subtypes here. `wp_program` is what each promises of its commits,
beside whatever else is asked of the company.
-/

namespace ReliableMessaging.Python

open Transaction TxLang MySql

variable {Ev : Type} {Ans : Ev → Type}

abbrev Capability : Type := { e : Execution // constructed e = true }

abbrev Script : Type :=
  { steps : List HostStep // ∀ s e, .bind s e ∈ steps → constructed e = true }

inductive Op where
  | reserve (s : MySQLTransactionStore) (r : Request) (p : Transaction.FrozenPlan)
      (o : ReserveOptions)
  | lookup (s : MySQLTransactionStore) (r : Request)
  | beginPrepare (s : MySQLTransactionStore) (e : Capability)
  | abortOnce (s : MySQLTransactionStore) (e : Capability)
  | reconcileOnce (s : MySQLTransactionStore)
      (order : List (Bytes × ExecutionRow) → List (Bytes × ExecutionRow)) (limit : Nat)
  | retry (s : MySQLTransactionStore) (previous : Capability) (o : ReserveOptions)
  | replan (s : MySQLTransactionStore) (previous : Capability) (candidate : Transaction.FrozenPlan)
      (o : ReserveOptions)
  | evidence (s : MySQLTransactionStore) (ref : Reference)
  | recordHalf (s : MySQLTransactionStore) (e : Capability) (ref : Reference)
      (h : { h : HalfReceipt // h.valid = true })
  | recordFinal (s : MySQLTransactionStore) (e : Capability) (ref : Reference) (f : FinalOutcome)
      (code : String)
  | recordRecoveryFinal (s : MySQLTransactionStore) (ref : Reference) (outcome : FinalOutcome)
  | rootTransaction (level : Level) (reads : Bool) (steps : Script) (commits : Bool)

/-- The program of an operation; `announce` is for the hosts. -/
def program (H : Sha256) (announce : Execution → Code Err Val Ans Unit) : Op → Prog Val Ans Unit
  | .reserve s r p o => ignore (reserve H s r p o).run
  | .lookup s r => ignore (lookup H s r).run
  | .beginPrepare s e => ignore (beginPrepare H s e.val).run
  | .abortOnce s e => ignore (abortOnce H s e.val).run
  | .reconcileOnce s order limit => ignore (reconcileOnce H s order limit).run
  | .retry s previous o => ignore (retry H s previous.val o).run
  | .replan s previous candidate o => ignore (replan H s previous.val candidate o).run
  | .evidence s ref => ignore (evidence H s ref).run
  | .recordHalf s e ref h => ignore (recordHalf H s e.val ref h.val).run
  | .recordFinal s e ref f code => ignore (recordFinal H s e.val ref f code).run
  | .recordRecoveryFinal s ref outcome => ignore (recordRecoveryFinal H s ref outcome).run
  | .rootTransaction level reads steps commits =>
    ignore (rootTransaction H announce level reads steps.val commits).run

/-- What the commits of an operation do, where they change anything. -/
def effect (H : Sha256) : Op → Tables → Tables → Prop
  | .reserve _ _ _ _ => fun σ ν => ∃ e, Issued H e σ ν
  | .lookup _ _ => fun _ _ => False
  | .beginPrepare _ e => BeginsPrepare H e.val
  | .abortOnce s e => fun σ ν => owned e.val = true ∧ Aborts H s.binding e.val σ ν
  | .reconcileOnce s _ _ => fun σ ν => ∃ e, Aborts H s.binding e σ ν
  | .retry _ _ _ => fun σ ν => ∃ e, Issued H e σ ν
  | .replan _ _ _ _ => fun σ ν => ∃ e, Issued H e σ ν
  | .evidence _ _ => fun _ _ => False
  | .recordHalf _ e ref h => RecordsHalf H e.val ref h.val
  | .recordFinal _ e ref f code => RecordsFinal H e.val ref f code
  | .recordRecoveryFinal _ ref outcome => RecordsRecovery H ref outcome
  | .rootTransaction _ _ steps _ => Hosts H steps.val

/-- Every operation keeps the contract, and its commits do what it promises. -/
theorem wp_program {H : Sha256} [H.CollisionFree] {Allow : Ctx Val Ans → Ev → Prop}
    {A G : Tables → Tables → Prop} {announce : Execution → Code Err Val Ans Unit} {c : Ctx Val Ans}
    (op : Op) (hnone : c.tx = none) (hann : Announces H G Allow A announce)
    (hG : ∀ σ ν, ν = σ ∨ effect H op σ ν → G σ ν) :
    wp (pact H G Allow) .readCommitted A (program H announce op) (fun _ _ => True) c := by
  have hquiet : ∀ σ, G σ σ := fun σ => hG σ σ (.inl rfl)
  cases op with
  | reserve => exact wp_ignore (wp_reserve hnone hG)
  | lookup => exact wp_ignore (wp_lookup hnone hquiet)
  | beginPrepare s e =>
    exact wp_ignore (wp_beginPrepare hnone e.property fun σ ν h => hG σ ν (.inr h))
  | abortOnce => exact wp_ignore (wp_abort hnone hG)
  | reconcileOnce => exact wp_ignore (wp_reconcileOnce hnone hG)
  | retry s previous o =>
    exact wp_ignore (wp_advance hnone previous.property fun e σ ν h => hG σ ν (.inr ⟨e, h⟩))
  | replan s previous candidate o =>
    exact wp_ignore (wp_advance hnone previous.property fun e σ ν h => hG σ ν (.inr ⟨e, h⟩))
  | evidence => exact wp_ignore (wp_evidence hnone hquiet)
  | recordHalf s e ref h =>
    exact wp_ignore (wp_recordHalf hnone h.property fun σ ν h => hG σ ν (.inr h))
  | recordFinal => exact wp_ignore (wp_recordFinal hnone fun σ ν h => hG σ ν (.inr h))
  | recordRecoveryFinal =>
    exact wp_ignore (wp_recordRecoveryFinal hnone fun σ ν h => hG σ ν (.inr h))
  | rootTransaction level reads steps commits =>
    exact wp_ignore (wp_rootTransaction hann steps.property hnone fun σ ν h => hG σ ν (.inr h))

/-! ## Clients of both languages -/

abbrev Either : Type := MySql.Op ⊕ Op

def eitherProgram (H : Sha256) : Either → Prog Val Noted Unit
  | .inl op => MySql.program H op
  | .inr op => program H (fun _ => pure ()) op

abbrev SharedSystem : Type := Sys Val Noted Either

/-- What any run of both from tables with binding rows only reaches. -/
def Shared (H : Sha256) (s : SharedSystem) : Prop :=
  Reach .readCommitted (eitherProgram H) anyStep Installed s

/-- What the commits of a call do, where they change anything. -/
def eitherEffect (H : Sha256) : Either → Tables → Tables → Prop
  | .inl op => MySql.effect H op
  | .inr op => effect H op

theorem guarantees (H : Sha256) [H.CollisionFree] : Guarantees (clients H) .readCommitted
    (eitherProgram H) (fun _ _ _ => True) (fun _ _ => True) fun op σ ν => ν = σ ∨ eitherEffect H op
    σ ν := by
  intro op σ _ _
  cases op with
  | inl op =>
    exact wp_owing_mono (Γ := clients H) (fun _ _ _ h => .inr h) (fun _ _ h => h)
      (MySql.wp_program op rfl rfl fun _ _ h => h)
  | inr op => exact wp_program op rfl announces_nothing fun _ _ h => h

theorem sound (H : Sha256) [H.CollisionFree] : Sound (clients H) .readCommitted (eitherProgram H)
    (fun _ _ _ => True) (fun _ _ => True) anyStep Installed := by
  refine Verified.sound (fun op σ hi hp => ?_) fun _ => Installed.inv
  exact wp_owing_mono (Γ := clients H) (fun _ _ _ _ => trivial) (fun _ _ h => h)
    (guarantees H op σ hi hp)

variable {H : Sha256} {s : SharedSystem}

theorem Shared.inv [H.CollisionFree] (h : Shared H s) : Inv H s.db := Reach.inv (sound H) h

/-- The rows a call may leave are those it found, or what its kind of commit
makes of them. -/
theorem Shared.mayLeave [H.CollisionFree] (h : Shared H s) {op : Either} {σ' : Tables}
    (hleave : s.MayLeave .readCommitted op σ') : σ' = s.db ∨ eitherEffect H op s.db σ' := by
  have hkeeps := Reach.keeps (sound H) (guarantees H) h
  rcases hkeeps.mayLeave (Reach.good (sound H) h) hleave with hsame | ⟨_, heffect⟩
  · exact .inl hsame
  · exact heffect

end ReliableMessaging.Python
