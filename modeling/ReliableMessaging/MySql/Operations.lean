import ReliableMessaging.MySql.System

/-!
# Operations and plans

A new plan generation is meant to have an operation of its own. What the store
enforces is less: `Replan` compares the candidate only with the operation it
replaces, and an execution key mixes the operation with epoch and fence, so an
operation that another request or an older generation uses is taken again
(`operation_reused`). As long as no one proposes such a candidate, an operation
identifies one plan of one request (`one_plan_per_operation`).
-/

namespace ReliableMessaging.MySql

open Transaction TxLang List

variable {H : Sha256} {s : StoreSystem} {σ ν : Tables} {op : Op} {e : Execution}

/-- Executions of one owner and one operation carry one plan, of one request. -/
def OnePlanPerOperation (H : Sha256) (σ : Tables) : Prop :=
  ∀ k k' (e e' : ExecutionRow), σ.lookup (.execution k) = some e →
    σ.lookup (.execution k') = some e' → e.owner = e'.owner → e.operationID = e'.operationID →
    e.plan.digest H = e'.plan.digest H ∧ e.requestKey = e'.requestKey

/-- No execution of this owner has this operation. -/
def Unused (σ : Tables) (owner operation : String) : Prop :=
  ∀ k (e : ExecutionRow), σ.lookup (.execution k) = some e → e.owner = owner →
    e.operationID ≠ operation

/-- The plan that a call proposes for a new execution; a `Retry` proposes none. -/
def Op.candidate : Op → Option FrozenPlan
  | .reserve _ _ p _ => some p
  | .replan _ _ candidate _ => some candidate
  | _ => none

/-- No execution of the candidate's owner has the candidate's operation. -/
def Op.Proposes (op : Op) (σ : Tables) : Prop :=
  ∀ p, op.candidate = some p → Unused σ p.input.owner p.input.operationID

/-- Whatever execution a commit adds runs the plan of its request's active
execution again, or has an operation that was never used. -/
def FreshOperations (H : Sha256) (σ ν : Tables) : Prop :=
  ∀ k (x : ExecutionRow), σ.lookup (.execution k) = none → ν.lookup (.execution k) = some x →
    (∃ e, Retried H e σ ∧ x.plan = e.plan) ∨ Unused σ x.owner x.operationID

/-! ## The property is kept -/

theorem Evolves.onePlan (h : Evolves σ ν) (ho : OnePlanPerOperation H σ) :
    OnePlanPerOperation H ν := by
  intro k k' e1' e2' h1 h2 howner hoperation
  obtain ⟨e1, he1, hs1⟩ := (h.key k).back h1
  obtain ⟨e2, he2, hs2⟩ := (h.key k').back h2
  obtain ⟨hrk1, ho1, hop1, _, _, _, hp1, _⟩ := hs1.fixed
  obtain ⟨hrk2, ho2, hop2, _, _, _, hp2, _⟩ := hs2.fixed
  rw [ho1, ho2] at howner
  rw [hop1, hop2] at hoperation
  rw [hp1, hp2, hrk1, hrk2]
  exact ho k k' e1 e2 he1 he2 howner hoperation

/-- A new execution keeps the property, if it agrees with all that were there. -/
theorem Issued.onePlan (h : Issued H e σ ν) (ho : OnePlanPerOperation H σ)
    (hnew : ∀ k (row : ExecutionRow), σ.lookup (.execution k) = some row →
      row.owner = e.plan.input.owner → row.operationID = e.plan.input.operationID →
      row.plan.digest H = e.plan.digest H ∧ row.requestKey = (requestFor e.plan).keyDigest H) :
    OnePlanPerOperation H ν := by
  intro k k' e1 e2 h1 h2 howner hoperation
  rcases h.cases h1 with ⟨_, rfl⟩ | ⟨_, hold1⟩ <;> rcases h.cases h2 with ⟨_, rfl⟩ | ⟨_, hold2⟩
  · exact ⟨rfl, rfl⟩
  · obtain ⟨hdigest, hrequest⟩ := hnew k' e2 hold2 howner.symm hoperation.symm
    exact ⟨hdigest.symm, hrequest.symm⟩
  · exact hnew k e1 hold1 howner hoperation
  · exact ho k k' e1 e2 hold1 hold2 howner hoperation

/-- A plan that is retried is stored, and agrees with the others already. -/
theorem Issued.onePlan_retried (hi : Inv H σ) (h : Issued H e σ ν) (hr : Retried H e σ)
    (ho : OnePlanPerOperation H σ) : OnePlanPerOperation H ν := by
  obtain ⟨q, old, _, hold, hplan⟩ := hr
  have hok := hi.execution _ old hold
  refine h.onePlan ho fun k row hrow howner hoperation => ?_
  rw [← hplan, ← hok.request]
  refine ho k _ row old hrow hold ?_ ?_
  · rw [howner, hok.owner, hplan]
  · rw [hoperation, hok.operation, hplan]

theorem Issued.freshOperations (h : Issued H e σ ν)
    (hnew : Retried H e σ ∨ Unused σ e.plan.input.owner e.plan.input.operationID) :
    FreshOperations H σ ν := by
  intro k x hnone hx
  rcases h.cases hx with ⟨_, rfl⟩ | ⟨_, hold⟩
  · exact hnew.imp_left fun hr => ⟨e, hr, rfl⟩
  · cases hnone.symm.trans hold

/-- An operation that is new keeps the property. -/
theorem Issued.kept_unused (h : Issued H e σ ν) (ho : OnePlanPerOperation H σ)
    (hu : Unused σ e.plan.input.owner e.plan.input.operationID) :
    OnePlanPerOperation H ν ∧ FreshOperations H σ ν :=
  ⟨h.onePlan ho fun k row hrow howner hoperation => absurd hoperation (hu k row hrow howner),
    h.freshOperations (.inr hu)⟩

/-- A commit that adds no execution. -/
def AddsNone (σ ν : Tables) : Prop :=
  ∀ k, σ.lookup (.execution k) = none → ν.lookup (.execution k) = none

theorem SetsExecution.addsNone {k : Bytes} {x x' : ExecutionRow} (h : SetsExecution k x x' σ ν) :
    AddsNone σ ν := by
  intro k' hnone
  have hne : (.execution k' : Row) ≠ .execution k := by
    rintro ⟨⟩
    cases hnone.symm.trans h.before
  exact (h.rest _ hne).trans hnone

theorem SetsWitness.addsNone {k b : Bytes} {w w' : WitnessRow} (h : SetsWitness k b w w' σ ν) :
    AddsNone σ ν :=
  fun _ hnone => (h.rest _ Row.noConfusion).trans hnone

theorem Aborts.addsNone {st : Store} (h : Aborts H st e σ ν) : AddsNone σ ν := by
  obtain ⟨x, hends, _⟩ := h
  intro k' hnone
  have hne : (.execution k' : Row) ≠ .execution (e.key H) := by
    rintro ⟨⟩
    cases hnone.symm.trans hends.before
  exact (hends.rest _ hne fun _ => Row.noConfusion).trans hnone

theorem Hosts.addsNone {steps : List HostStep} (h : Hosts H steps σ ν) : AddsNone σ ν := by
  intro k hnone
  rcases h.key k with ⟨hsame, _⟩ | ⟨_, _, x, _, _, _, hx⟩
  · exact hsame.trans hnone
  · cases hnone.symm.trans hx.before

theorem Trans.kept_addsNone (h : Trans H σ ν) (hnone : AddsNone σ ν)
    (ho : OnePlanPerOperation H σ) : OnePlanPerOperation H ν ∧ FreshOperations H σ ν := by
  have hissued : ∀ e, ¬ Issued H e σ ν := fun e hi => by cases (hnone _ hi.fresh).symm.trans hi.row
  refine ⟨?_, fun k x hx hx' => by cases (hnone k hx).symm.trans hx'⟩
  cases h with
  | evolve h => exact Evolves.onePlan h ho
  | reserve e h => exact (hissued e h).elim
  | advance e old q h => exact (hissued e h).elim
  | rotate h =>
    have hx : ∀ k, ν.lookup (.execution k) = σ.lookup (.execution k) :=
      fun k => h _ fun _ => Row.noConfusion
    simpa [OnePlanPerOperation, hx] using ho

/-- What one commit keeps, if its call proposes an operation that is new. -/
theorem effect_kept (hi : Inv H σ) (ht : Trans H σ ν) (he : effect H op σ ν)
    (hp : op.Proposes σ) (ho : OnePlanPerOperation H σ) :
    OnePlanPerOperation H ν ∧ FreshOperations H σ ν := by
  cases op with
  | reserve s r p o =>
    obtain ⟨e, h, rfl⟩ := he
    exact h.kept_unused ho (hp _ rfl)
  | replan s previous candidate o =>
    obtain ⟨e, h, rfl⟩ := he
    exact h.kept_unused ho (hp _ rfl)
  | retry s previous o =>
    obtain ⟨e, h, hr⟩ := he
    exact ⟨h.onePlan_retried hi hr ho, h.freshOperations (.inl hr)⟩
  | lookup => exact he.elim
  | evidence => exact he.elim
  | beginPrepare s e =>
    obtain ⟨x, hsets, _⟩ := he
    exact ht.kept_addsNone hsets.addsNone ho
  | abortOnce s e => exact ht.kept_addsNone he.2.addsNone ho
  | reconcileOnce s order limit =>
    obtain ⟨e, h⟩ := he
    exact ht.kept_addsNone h.addsNone ho
  | recordHalf s e ref r =>
    obtain ⟨x, w, now, hsets, _⟩ := he
    exact ht.kept_addsNone hsets.addsNone ho
  | recordFinal s e ref f code =>
    obtain ⟨_, x, w, now, hsets, _⟩ := he
    exact ht.kept_addsNone hsets.addsNone ho
  | recordRecoveryFinal s ref f =>
    rcases he with rfl | ⟨x, w, now, hsets, _⟩
    · exact ht.kept_addsNone (fun _ h => h) ho
    · exact ht.kept_addsNone hsets.addsNone ho
  | rootTransaction steps commits => exact ht.kept_addsNone (Hosts.addsNone he) ho
  | rotate owner set =>
    exact ht.kept_addsNone (fun k h => (he _ fun _ => Row.noConfusion).trans h) ho

/-- What a run keeps as long as its calls propose new operations. -/
def Kept (H : Sha256) (σ : Tables) (commits : List (Op × Tables × Tables)) : Prop :=
  Inv H σ ∧ ((∀ c ∈ commits, c.1.Proposes c.2.1) →
    OnePlanPerOperation H σ ∧ ∀ c ∈ commits, FreshOperations H c.2.1 c.2.2)

theorem Kept.commit {commits : List (Op × Tables × Tables)} (h : Kept H σ commits)
    (hi : Inv H ν) (hnext : op.Proposes σ → OnePlanPerOperation H σ →
      OnePlanPerOperation H ν ∧ FreshOperations H σ ν) : Kept H ν (commits ++ [(op, σ, ν)]) := by
  refine ⟨hi, fun hall => ?_⟩
  obtain ⟨hone, hfresh⟩ := h.2 fun c hc => hall c (mem_append_left _ hc)
  obtain ⟨hone', hlast⟩ := hnext (hall _ (mem_append_right _ mem_cons_self)) hone
  refine ⟨hone', fun c hc => ?_⟩
  rcases mem_append.mp hc with hc | hc
  · exact hfresh c hc
  · cases mem_singleton.mp hc
    exact hlast

/-- **An operation identifies one plan, if candidates respect it.** In every
run in which the call of each commit found no execution of its candidate's
owner with its candidate's operation, any two executions of one owner and one
operation carry plans with one digest and belong to one request, and every
execution that a commit added is a retry or brought an operation never used
before. -/
theorem one_plan_per_operation [H.CollisionFree] {commits : List (Op × Tables × Tables)}
    (h : Trace .readCommitted (program H) anyStep Installed s commits)
    (hproposes : ∀ c ∈ commits, c.1.Proposes c.2.1) :
    OnePlanPerOperation H s.db ∧ ∀ c ∈ commits, FreshOperations H c.2.1 c.2.2 := by
  have hstart : ∀ σ, Installed σ → Kept H σ [] := by
    intro σ hσ
    refine ⟨hσ.inv, fun _ => ⟨fun k _ e _ he => ?_, fun c hc => absurd hc not_mem_nil⟩⟩
    have hnone := hσ (.execution k) fun _ => Row.noConfusion
    exact absurd (hnone.symm.trans he) nofun
  have hsame : ∀ σ commits op, Kept H σ commits → Kept H σ (commits ++ [(op, σ, σ)]) :=
    fun σ commits op hk => hk.commit hk.1 fun _ hone =>
      ⟨hone, fun k x hnone hx => by cases hnone.symm.trans hx⟩
  have hcommit : ∀ σ commits op ν, Kept H σ commits → Trans H σ ν → effect H op σ ν →
      Kept H ν (commits ++ [(op, σ, ν)]) :=
    fun σ commits op ν hk ht he => hk.commit (ht.inv hk.1) (effect_kept hk.1 ht he)
  exact (Trace.invariant (sound H) (guarantees H) hstart hsame hcommit h).2 hproposes

namespace Sample

open Transaction.Sample

/-- Checking `Op.Proposes` on rows that are computed. -/
def proposes (op : Op) (σ : Tables) : Bool :=
  op.candidate.all fun p => σ.entries.all fun
    | ⟨.execution _, e⟩ => e.owner ≠ p.input.owner || e.operationID ≠ p.input.operationID
    | _ => true

theorem proposes_spec {op : Op} {σ : Tables} (h : proposes op σ = true) : op.Proposes σ := by
  intro p hp k e he howner
  rw [proposes, hp] at h
  have hk := all_eq_true.mp h _ (AList.mem_lookup_iff.mp he)
  simpa [howner] using hk

def aborted (operation key : String) : World Noted × Op :=
  (clockAt 2, .abortOnce store (execution operation key 1))

/-- An aborted execution and its retry. -/
@[irreducible]
def retries : List (World Noted × Op) :=
  [reserved "1" "k", aborted "1" "k", (clockAt 3, .retry store (execution "1" "k" 1) options)]

/-- The request `j` is replanned with the operation that the request `k` runs. -/
@[irreducible]
def replans : List (World Noted × Op) :=
  [reserved "1" "k", reserved "2" "j", aborted "2" "j",
    (clockAt 3, .replan store (execution "2" "j" 1) (plan "1" "j") options)]

def row (σ : Tables) (key : String) (fence : Nat) : Option ExecutionRow :=
  σ.lookup (.execution ((execution "1" key fence).key default))

set_option maxRecDepth 100000 in
theorem retries_spec :
    (commitsOf .readCommitted (program default) retries installed).all
        (fun c => proposes c.1 c.2.1) = true ∧
      ∃ x ∈ row (ran default retries installed).1 "k" 1,
        ∃ x' ∈ row (ran default retries installed).1 "k" 2, x.operationID = x'.operationID := by
  unfold retries
  decide +kernel

set_option maxRecDepth 100000 in
theorem replans_spec : ∃ x ∈ row (ran default replans installed).1 "k" 1,
    ∃ x' ∈ row (ran default replans installed).1 "j" 2, x.owner = x'.owner ∧
      x.operationID = x'.operationID ∧ x.requestKey ≠ x'.requestKey := by
  unfold replans
  decide +kernel

end Sample

open Sample in
/-- An aborted execution and its retry: two executions of one operation. -/
theorem one_plan_per_operation_retried :
    ∃ (s : StoreSystem) (commits : List (Op × Tables × Tables)),
      Trace .readCommitted (program default) anyStep Installed s commits ∧
      (∀ c ∈ commits, c.1.Proposes c.2.1) ∧
      (∃ x x' : ExecutionRow, row s.db "k" 1 = some x ∧ row s.db "k" 2 = some x' ∧
        x.operationID = x'.operationID) ∧
      OnePlanPerOperation default s.db ∧ ∀ c ∈ commits, FreshOperations default c.2.1 c.2.2 := by
  obtain ⟨hall, x, hx, x', hx', hsame⟩ := retries_spec
  have hproposes : ∀ c ∈ commitsOf .readCommitted (program default) retries installed,
      c.1.Proposes c.2.1 := fun c hc => proposes_spec (all_eq_true.mp hall c hc)
  obtain ⟨s, commits, htrace, hproposes, hdb⟩ :=
    trace_serve .readCommitted (program default) (fun op σ _ => op.Proposes σ) installed_spec retries
      hproposes
  rw [ran, ← hdb] at hx hx'
  exact ⟨s, commits, htrace, hproposes, ⟨x, x', hx, hx', hsame⟩,
    one_plan_per_operation htrace hproposes⟩

open Sample in
/-- **But a replan may take an operation that is in use.** The request `k`
runs operation `1`; the aborted operation `2` of the request `j` is replanned
as `1`, and two plans of two requests share it. -/
theorem operation_reused : ∃ s, Served default s ∧ ¬ OnePlanPerOperation default s.db := by
  obtain ⟨s, hs, hdb, _⟩ := served_ran default installed_spec replans
  obtain ⟨x, hx, x', hx', howner, hoperation, hrequest⟩ := replans_spec
  rw [← hdb] at hx hx'
  exact ⟨s, hs, fun hone => hrequest (hone _ _ x x' hx hx' howner hoperation).2⟩

end ReliableMessaging.MySql
