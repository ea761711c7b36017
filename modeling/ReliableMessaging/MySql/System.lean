import ReliableMessaging.MySql.Verified.Host
import ReliableMessaging.MySql.Verified.Receipt
import ReliableMessaging.TxLang.Sequential

/-!
# The store by itself

Every operation of the store, for stores of any binding and with any
arguments, beside hosts that bind, commit and change their binding row. A run
is any interleaving of any number of them, with faults, crashes and commits
whose acknowledgement is lost. The four operations that hand out reservations
end with a mark in the log: the answer their caller receives.
-/

namespace ReliableMessaging.MySql

open Transaction TxLang

inductive Op where
  | reserve (s : Store) (r : Request) (p : FrozenPlan) (o : ReserveOptions)
  | lookup (s : Store) (r : Request)
  | beginPrepare (s : Store) (e : Execution)
  | abortOnce (s : Store) (e : Execution)
  | reconcileOnce (s : Store) (order : List ExecutionRow → List ExecutionRow) (limit : Nat)
  | retry (s : Store) (previous : Execution) (o : ReserveOptions)
  | replan (s : Store) (previous : Execution) (candidate : FrozenPlan) (o : ReserveOptions)
  | evidence (s : Store) (ref : Reference)
  | recordHalf (s : Store) (e : Execution) (ref : Reference) (h : HalfReceipt)
  | recordFinal (s : Store) (e : Execution) (ref : Reference) (f : FinalOutcome) (code : String)
  | recordRecoveryFinal (s : Store) (ref : Reference) (outcome : FinalOutcome)
  | rootTransaction (steps : List HostStep) (commits : Bool)
  | rotate (owner : String) (set : BindingRow → BindingRow)

/-- The log remembers what a call for a reservation answered. -/
inductive Returned where
  | returned (op : Op) (res : Except Err Reservation)

abbrev Noted : Returned → Type := fun _ => Unit

/-- An operation that answers with a reservation or an error. -/
def answering (op : Op) (x : Code Err Val Noted Reservation) : Prog Val Noted Unit :=
  x.run.bind fun res => ignore (ask (.returned op res))

def program (H : Sha256) : Op → Prog Val Noted Unit
  | .reserve s r p o => answering (.reserve s r p o) (reserve H s r p o)
  | .lookup s r => answering (.lookup s r) (lookup H s r)
  | .beginPrepare s e => ignore (beginPrepare H s e).run
  | .abortOnce s e => ignore (abortOnce H s e).run
  | .reconcileOnce s order limit => ignore (reconcileOnce H s order limit).run
  | .retry s previous o => answering (.retry s previous o) (retry H s previous o)
  | .replan s previous candidate o =>
    answering (.replan s previous candidate o) (replan H s previous candidate o)
  | .evidence s ref => ignore (evidence H s ref).run
  | .recordHalf s e ref h => ignore (recordHalf H s e ref h).run
  | .recordFinal s e ref f code => ignore (recordFinal H s e ref f code).run
  | .recordRecoveryFinal s ref outcome => ignore (recordRecoveryFinal H s ref outcome).run
  | .rootTransaction steps commits =>
    ignore (rootTransaction H (fun _ => pure ()) steps commits).run
  | .rotate owner set => ignore (rotate owner set).run

abbrev StoreSystem : Type := Sys Val Noted Op

/-- What any run from tables with binding rows only reaches. -/
def Served (H : Sha256) (s : StoreSystem) : Prop :=
  Reach .readCommitted (program H) anyStep Installed s

/-! ## The contract -/

/-- What a reservation says of itself: it is acquired and this call's own
commit issued it, or it is not acquired and shows no token. -/
def Honest (H : Sha256) (own : List (Entry Val Noted)) (got : Reservation) : Prop :=
  Acquired H [] own got ∨ got.acquired = false ∧ got.execution.token = 0

/-- What a call may answer: in success, an honest reservation. -/
def honestly (H : Sha256) (c : Ctx Val Noted) : Returned → Prop
  | .returned _ res => ∀ got, res = .ok got → Honest H c.log got

abbrev clients (H : Sha256) : Spec Val Noted := contract H (honestly H)

def effect (H : Sha256) : Op → Tables → Tables → Prop
  | .reserve _ _ p _ => fun σ ν => ∃ e, Issued H e σ ν ∧ e.plan = p
  | .lookup _ _ => fun _ _ => False
  | .beginPrepare _ e => BeginsPrepare H e
  | .abortOnce s e => fun σ ν => e.valid = true ∧ Aborts H s e σ ν
  | .reconcileOnce s _ _ => fun σ ν => ∃ e, Aborts H s e σ ν
  | .retry _ _ _ => fun σ ν => ∃ e, Issued H e σ ν ∧ Retried H e σ
  | .replan _ _ candidate _ => fun σ ν => ∃ e, Issued H e σ ν ∧ e.plan = candidate
  | .evidence _ _ => fun _ _ => False
  | .recordHalf _ e ref h => RecordsHalf H e ref h
  | .recordFinal s e ref f code => fun σ ν =>
    MayRecord H s e ref f code σ ∧ RecordsFinal H e ref f code σ ν
  | .recordRecoveryFinal _ ref outcome => RecordsRecovery H ref outcome
  | .rootTransaction steps _ => Hosts H steps
  | .rotate _ _ => Rotates

section

variable {H : Sha256} {Allow : Ctx Val Noted → Returned → Prop} {A G : Tables → Tables → Prop}
variable {c : Ctx Val Noted} {op : Op}

theorem wp_answering {x : Code Err Val Noted Reservation}
    {Q : Except Err Reservation → Ctx Val Noted → Prop}
    (h : wp (pact H G Allow) .readCommitted A x.run Q c)
    (hQ : ∀ res c' σ, Q res c' → Env (pact H G Allow) A c'.tx c'.db σ → Inv H σ →
      Allow ⟨σ, c'.tx, c'.log⟩ (.returned op res)) :
    wp (pact H G Allow) .readCommitted A (answering op x) (fun _ _ => True) c := by
  refine wp_bind (wp_mono (fun res c' hres => ?_) h)
  exact wp_ask _ fun σ henv hi => ⟨hQ res c' σ hres henv hi, fun _ => trivial⟩

theorem announces_nothing : Announces H G Allow A fun _ => pure () := by
  intro e σ t row g log hi _ _
  exact wpc_pure ⟨rfl, hi, Env.refl _ _⟩

/-- Every operation keeps the contract, and its commits do what it promises,
whatever is allowed of its answers that holds of honest ones. -/
theorem wp_program [H.CollisionFree] (op : Op) (hnone : c.tx = none) (hlog : c.log = [])
    (hallow : ∀ c' : Ctx Val Noted, ∀ res, (∀ got, res = .ok got → Honest H c'.log got) →
      Allow c' (.returned op res)) :
    wp (pact H (effect H op) Allow) .readCommitted A (program H op) (fun _ _ => True) c := by
  cases op with
  | reserve s r p o =>
    refine wp_answering (wp_reserve hnone fun e _ _ h hp => ⟨e, h, hp⟩) ?_
    rintro res c' σ ⟨_, hres, _⟩ _ _
    refine hallow _ _ fun got heq => ?_
    exact (hres got heq).2.imp_left fun hacquired => hlog ▸ hacquired
  | lookup s r =>
    refine wp_answering (wp_lookup hnone) ?_
    rintro res c' σ ⟨_, hres⟩ _ _
    exact hallow _ _ fun got heq => .inr ⟨(hres got heq).acquired, (hres got heq).token⟩
  | beginPrepare s e => exact wp_ignore (wp_beginPrepare hnone fun _ _ h => h)
  | abortOnce s e => exact wp_ignore (wp_abort hnone fun _ _ hv h => ⟨hv, h⟩)
  | reconcileOnce s order limit => exact wp_ignore (wp_reconcileOnce hnone fun e _ _ h => ⟨e, h⟩)
  | retry s previous o =>
    refine wp_answering (wp_advance hnone fun e _ _ h _ hr => ⟨e, h, hr rfl⟩) ?_
    rintro res c' σ ⟨_, hres⟩ _ _
    exact hallow _ _ fun got heq => .inl (hlog ▸ hres got heq)
  | replan s previous candidate o =>
    refine wp_answering (wp_advance hnone fun e _ _ h hp _ => ⟨e, h, hp⟩) ?_
    rintro res c' σ ⟨_, hres⟩ _ _
    exact hallow _ _ fun got heq => .inl (hlog ▸ hres got heq)
  | evidence s ref => exact wp_ignore (wp_evidence hnone)
  | recordHalf s e ref h => exact wp_ignore (wp_recordHalf hnone fun _ _ h => h)
  | recordFinal s e ref f code => exact wp_ignore (wp_recordFinal hnone fun _ _ hm h => ⟨hm, h⟩)
  | recordRecoveryFinal s ref outcome =>
    exact wp_ignore (wp_recordRecoveryFinal hnone fun _ _ h => h)
  | rootTransaction steps commits =>
    exact wp_ignore (wp_rootTransaction announces_nothing hnone fun _ _ h => h)
  | rotate owner set => exact wp_ignore (wp_rotate hnone fun _ _ h => h)

end

variable {H : Sha256} {s s' : StoreSystem}

theorem guarantees (H : Sha256) [H.CollisionFree] : Guarantees (clients H) .readCommitted
    (program H) (fun _ _ _ => True) (fun _ _ => True) (effect H) :=
  fun op _ _ _ => wp_program op rfl rfl fun _ _ h => h

theorem sound (H : Sha256) [H.CollisionFree] :
    Sound (clients H) .readCommitted (program H) (fun _ _ _ => True) (fun _ _ => True) anyStep
      Installed := by
  refine Verified.sound (fun op σ hi hp => ?_) fun _ => Installed.inv
  exact wp_owing_mono (Γ := clients H) (fun _ _ _ _ => trivial) (fun _ _ h => h)
    (guarantees H op σ hi hp)

theorem Served.runs (h : Served H s) (hruns : Runs .readCommitted (program H) s s') :
    Served H s' :=
  Reach.runs h hruns

theorem Served.inv [H.CollisionFree] (h : Served H s) : Inv H s.db := Reach.inv (sound H) h

theorem Served.keeps [H.CollisionFree] (h : Served H s) :
    Keeps (clients H) .readCommitted (fun _ _ _ => True) (effect H) s :=
  Reach.keeps (sound H) (guarantees H) h

/-- The rows an operation may leave are those it found, or what its kind of
commit makes of them. -/
theorem Served.mayLeave [H.CollisionFree] (h : Served H s) {op : Op} {σ' : Tables}
    (hleave : s.MayLeave .readCommitted op σ') :
    σ' = s.db ∨ Trans H s.db σ' ∧ effect H op s.db σ' :=
  h.keeps.mayLeave (Reach.good (sound H) h) hleave

theorem Served.step [H.CollisionFree] (h : Served H s) (hs : Step .readCommitted (program H) s s') :
    s'.db = s.db ∨ Trans H s.db s'.db ∧ ∃ op, effect H op s.db s'.db := by
  rcases Step.mayLeave hs with heq | ⟨op, hleave⟩
  · exact .inl heq
  · exact (h.mayLeave hleave).imp_right fun ⟨ht, he⟩ => ⟨ht, op, he⟩

/-! ## Runs of one operation at a time -/

/-- The rows and the log that a sequence of operations leaves. -/
def ran (H : Sha256) (ops : List (World Noted × Op)) (σ : Tables) :
    Tables × List (Nat × Entry Val Noted) :=
  serve .readCommitted (program H) 0 ops σ

theorem served_ran (H : Sha256) {σ : Tables} (h : Installed σ) (ops : List (World Noted × Op)) :
    ∃ s, Served H s ∧ s.db = (ran H ops σ).1 ∧ s.log = (ran H ops σ).2 := by
  obtain ⟨s, hr, _, _, hdb, hlog⟩ := reach_serve .readCommitted (program H) (fun _ _ => True) h
    ops (mayServe_true _ _ _ _ _ _)
  exact ⟨s, hr.mono fun _ _ _ => trivial, hdb, hlog⟩

namespace Sample

open Transaction.Sample

def installed : Tables := AList.singleton (.binding "o") (⟨"d", "E", 1⟩ : BindingRow)

theorem installed_spec : Installed installed := by
  intro r hr
  exact lookup_singleton_ne _ (hr "o")

def clockAt (clock : Nat) : World Noted := ⟨clock, 1, fun _ => some ()⟩

def reserved (operation key : String) : World Noted × Op :=
  (clockAt 1, .reserve store (requestFor (plan operation key)) (plan operation key) options)

end Sample

end ReliableMessaging.MySql
