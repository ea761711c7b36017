import ReliableMessaging.Mongo.Verified
import ReliableMessaging.TxLang.Sequential

/-!
# The Mongo store by itself

Every operation of the adapter, for stores of any binding and with any
arguments, beside hosts that bind, commit and change their binding documents,
in any interleaving.
-/

namespace ReliableMessaging.Mongo

open Transaction TxLang

inductive Op where
  | reserve (s : Store) (validateSchema : Except Err Unit) (retries : Nat) (r : Request)
      (p : FrozenPlan) (o : ReserveOptions)
  | lookup (s : Store) (retries : Nat) (r : Request)
  | beginPrepare (s : Store) (e : Execution)
  | abortOnce (s : Store) (e : Execution)
  | reconcileOnce (s : Store) (order : List (Bytes × ExecutionDoc) → List (Bytes × ExecutionDoc))
      (limit : Nat)
  | retry (s : Store) (retries : Nat) (previous : Execution) (o : ReserveOptions)
  | replan (s : Store) (retries : Nat) (previous : Execution) (candidate : FrozenPlan)
      (o : ReserveOptions)
  | evidence (s : Store) (ref : Reference)
  | recordHalf (s : Store) (e : Execution) (ref : Reference) (h : HalfReceipt)
  | recordFinal (s : Store) (e : Execution) (ref : Reference) (f : FinalOutcome) (code : String)
  | recordRecoveryFinal (s : Store) (retries : Nat) (ref : Reference) (outcome : FinalOutcome)
  | rootTransaction (steps : List HostStep) (commits : Bool)
  | rotate (owner : String) (set : BindingDoc → BindingDoc)

abbrev NoAnswer : Empty → Type := fun _ => Unit

def program (H : Sha256) : Op → Prog Val NoAnswer Unit
  | .reserve s schema retries r p o => ignore (reserve H s schema retries r p o).run
  | .lookup s retries r => ignore (lookup H s retries r).run
  | .beginPrepare s e => ignore (beginPrepare H s e).run
  | .abortOnce s e => ignore (abortOnce H s e).run
  | .reconcileOnce s order limit => ignore (reconcileOnce H s order limit).run
  | .retry s retries previous o => ignore (retry H s retries previous o).run
  | .replan s retries previous candidate o =>
    ignore (replan H s retries previous candidate o).run
  | .evidence s ref => ignore (evidence H s ref).run
  | .recordHalf s e ref h => ignore (recordHalf H s e ref h).run
  | .recordFinal s e ref f code => ignore (recordFinal H s e ref f code).run
  | .recordRecoveryFinal s retries ref outcome =>
    ignore (recordRecoveryFinal H s retries ref outcome).run
  | .rootTransaction steps commits => ignore (rootTransaction H steps commits).run
  | .rotate owner set => ignore (rotate owner set).run

abbrev StoreSystem : Type := Sys Val NoAnswer Op

/-- What any run from collections with binding documents only reaches. -/
def Served (H : Sha256) (s : StoreSystem) : Prop :=
  Reach .snapshot (program H) anyStep Installed s

/-- The owners whose epoch an operation checks before it starts a preparation
or commits. -/
def Op.checksEpochOf (owner : String) : Op → Prop
  | .beginPrepare s _ => s.owner = owner
  | .rootTransaction steps _ => ∃ s e, HostStep.bind s e ∈ steps ∧ s.owner = owner
  | _ => False

/-- A binding is changed only when no operation that checks its epoch is in
progress or in doubt. -/
def Quiesced (s s' : StoreSystem) : Prop :=
  ∀ owner, s'.db.lookup (.binding owner) ≠ s.db.lookup (.binding owner) →
    (∀ p pr, s.procs p = some pr → pr.Running → s'.procs p = some pr →
      ¬ pr.call.checksEpochOf owner) ∧
    ∀ o ∈ s.orphans, o ∈ s'.orphans → ¬ o.call.checksEpochOf owner

/-- What an operation may then assume of the others. -/
def assumes (quiet : Prop) (op : Op) (σ ν : Collections) : Prop :=
  quiet → ∀ owner, op.checksEpochOf owner → ν.lookup (.binding owner) = σ.lookup (.binding owner)

def effect (H : Sha256) (quiet : Prop) : Op → Collections → Collections → Prop
  | .reserve _ _ _ _ _ _ => fun σ ν => ∃ id d, Issues H σ ν id d
  | .lookup _ _ _ => fun _ _ => False
  | .beginPrepare _ e => BeginsPrepare H quiet e
  | .abortOnce _ e => Aborts H e
  | .reconcileOnce _ _ _ => fun σ ν => ∃ e, Aborts H e σ ν
  | .retry _ _ _ _ => fun σ ν => ∃ id d, Issues H σ ν id d
  | .replan _ _ _ _ _ => fun σ ν => ∃ id d, Issues H σ ν id d
  | .evidence _ _ => fun _ _ => False
  | .recordHalf _ e ref h => RecordsHalf H e ref h
  | .recordFinal s e ref f code => RecordsFinal H s e ref f code
  | .recordRecoveryFinal _ _ ref outcome => RecordsRecovery H ref outcome
  | .rootTransaction steps _ => Hosts H quiet steps
  | .rotate _ _ => Rotates

abbrev clients (H : Sha256) : Spec Val NoAnswer :=
  pact H (fun _ _ => True) fun _ _ => True

variable {H : Sha256} {quiet : Prop} {s s' : StoreSystem}

/-- Every operation keeps the contract, and its commits do what it promises. -/
theorem wp_program (op : Op) {σ : Collections} (hi : Inv H σ) :
    wp (pact H (effect H quiet op) fun _ _ => True) .snapshot (assumes quiet op)
      (program H op) (fun _ _ => True) ⟨σ, none, []⟩ := by
  cases op with
  | reserve => exact wp_ignore (wp_reserve rfl fun _ _ id d h => ⟨id, d, h⟩)
  | lookup => exact wp_ignore (wp_lookup rfl)
  | beginPrepare s e =>
    exact wp_ignore (wp_beginPrepare rfl (fun _ _ hab hquiet => hab hquiet _ rfl) fun _ _ h => h)
  | abortOnce => exact wp_ignore (wp_abort rfl fun _ _ h => h)
  | reconcileOnce => exact wp_ignore (wp_reconcileOnce rfl fun e _ _ h => ⟨e, h⟩)
  | retry => exact wp_ignore (wp_advance rfl fun _ _ id d h => ⟨id, d, h⟩)
  | replan => exact wp_ignore (wp_advance rfl fun _ _ id d h => ⟨id, d, h⟩)
  | evidence => exact wp_ignore (wp_evidence rfl hi)
  | recordHalf => exact wp_ignore (wp_recordHalf rfl fun _ _ h => h)
  | recordFinal => exact wp_ignore (wp_recordFinal rfl fun _ _ h => h)
  | recordRecoveryFinal => exact wp_ignore (wp_recordRecoveryFinal rfl fun _ _ h => h)
  | rootTransaction steps commits =>
    refine wp_ignore (wp_rootTransaction rfl (fun _ _ hab hquiet s e hmem => ?_) fun _ _ h => h)
    exact hab hquiet _ ⟨s, e, hmem, rfl⟩
  | rotate => exact wp_ignore (wp_rotate rfl fun _ _ h => h)

/-- The promise of an operation's kind, where a commit may also publish nothing. -/
def promises (H : Sha256) (quiet : Prop) (op : Op) (σ ν : Collections) : Prop :=
  ν = σ ∨ effect H quiet op σ ν

theorem guarantees (H : Sha256) (quiet : Prop) :
    Guarantees (clients H) .snapshot (program H) (assumes quiet) (fun _ _ => True)
      (promises H quiet) :=
  fun op _ hi _ => wp_program op hi

theorem verified (H : Sha256) (quiet : Prop) :
    Verified (clients H) .snapshot (program H) (assumes quiet) fun _ _ => True :=
  fun op σ hi hp => wp_owing_mono (Γ := clients H) (fun _ _ _ _ => .inr trivial) (fun _ _ h => h)
    (guarantees H quiet op σ hi hp)

theorem sound (H : Sha256) : Sound (clients H) .snapshot (program H) (assumes False)
    (fun _ _ => True) anyStep Installed where
  verified := verified H False
  init := fun _ => Installed.inv
  respects := fun _ _ _ _ => ⟨fun _ _ _ _ _ => nofun, fun _ _ _ => nofun⟩
  ready := fun _ _ _ _ _ _ => trivial

theorem sound_quiesced (H : Sha256) : Sound (clients H) .snapshot (program H) (assumes True)
    (fun _ _ => True) Quiesced Installed where
  verified := verified H True
  init := fun _ => Installed.inv
  respects := fun s s' hq _ => by
    refine ⟨fun p pr hp hrun hp' _ owner hchecks => ?_, fun o ho ho' _ owner hchecks => ?_⟩
    · exact by_contra fun hne => (hq owner hne).1 p pr hp hrun hp' hchecks
    · exact by_contra fun hne => (hq owner hne).2 o ho ho' hchecks
  ready := fun _ _ _ _ _ _ => trivial

/-- The documents an operation may leave are those it found, or what its kind of
commit makes of them. -/
theorem Served.mayLeave (h : Served H s) {op : Op} {σ' : Collections}
    (hleave : s.MayLeave .snapshot op σ') : σ' = s.db ∨ effect H False op s.db σ' := by
  have hkeeps := Reach.keeps (sound H) (guarantees H False) h
  rcases hkeeps.mayLeave (Reach.good (sound H) h) hleave with hsame | ⟨_, hsame | he⟩
  · exact .inl hsame
  · exact .inl hsame
  · exact .inr he

theorem Served.runs (h : Served H s) (hruns : Runs .snapshot (program H) s s') : Served H s' :=
  Reach.runs h hruns

theorem Served.inv (h : Served H s) : Inv H s.db := Reach.inv (sound H) h

end ReliableMessaging.Mongo
