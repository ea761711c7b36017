import ReliableMessaging.MySql.Schema
import ReliableMessaging.TxLang.Logic

/-!
# What a commit may do, and what then always holds

Four kinds of commits touch the transaction tables:

- rows change in place (`Evolves`): states move once, from prepared to a
  terminal one, together with all witnesses; a preparation starts once;
- a request is reserved, with its first execution (`Trans.reserve`);
- an aborted execution gets a successor at the next fence (`Trans.advance`);
- the host changes binding rows (`Trans.rotate`).
-/

namespace ReliableMessaging.MySql

open Transaction TxLang

variable (H : Sha256)

/-! ## Transitions -/

/-- The owner's binding row names this epoch. -/
def Live (σ : Tables) (owner epoch : String) : Prop :=
  ∃ b : BindingRow, σ.lookup (.binding owner) = some b ∧ b.writerEpoch = epoch

/-- How one execution row may change in place, in the presence of `live`. -/
structure ExecutionStep (live : Prop) (e e' : ExecutionRow) : Prop where
  columns : e' = { e with
    state := e'.state, guardVersion := e'.guardVersion, prepareStarted := e'.prepareStarted }
  state : e'.state = e.state ∨
    e.state = .prepared ∧ (e'.state = .aborted ∨ e'.state = .committed ∧ live)
  started : e'.prepareStarted = e.prepareStarted ∨
    e.prepareStarted = false ∧ e.state = .prepared ∧ live

/-- How the rows of one execution may change in place. -/
structure KeyStep (σ ν : Tables) (k : Bytes) : Prop where
  noExecution : σ.lookup (.execution k) = none → ν.lookup (.execution k) = none
  execution : ∀ e : ExecutionRow, σ.lookup (.execution k) = some e →
    ∃ e' : ExecutionRow, ν.lookup (.execution k) = some e' ∧
      ExecutionStep (Live σ e.owner e.writerEpoch) e e'
  noWitness : ∀ b, σ.lookup (.witness k b) = none → ν.lookup (.witness k b) = none
  witness : ∀ b (w : WitnessRow), σ.lookup (.witness k b) = some w →
    ∃ w' : WitnessRow, ν.lookup (.witness k b) = some w' ∧ w'.reference = w.reference
  agree : ∀ e e' : ExecutionRow, σ.lookup (.execution k) = some e →
    ν.lookup (.execution k) = some e' →
    (∀ b (w : WitnessRow), σ.lookup (.witness k b) = some w → w.state = e.state) →
    ∀ b (w : WitnessRow), ν.lookup (.witness k b) = some w → w.state = e'.state

/-- Rows change in place and no row is added. -/
structure Evolves (σ ν : Tables) : Prop where
  binding : ∀ o, ν.lookup (.binding o) = σ.lookup (.binding o)
  request : ∀ k, ν.lookup (.request k) = σ.lookup (.request k)
  key : ∀ k, KeyStep σ ν k

def freshWitness (ref : Reference) : WitnessRow :=
  ⟨ref, .prepared, none, none, .notAttempted, .notAttempted, "", "", none, none⟩

def freshExecution (requestKey : Bytes) (e : Execution) : ExecutionRow :=
  ⟨requestKey, e.plan.input.owner, e.plan.input.operationID, e.writerEpoch, e.fence, e.token,
    e.plan, .prepared, e.leaseUntil, 0, false⟩

/-- A new execution with its witnesses, filed under its request. -/
structure Issued (e : Execution) (σ ν : Tables) : Prop where
  plan : e.plan.valid = true
  fence : 0 < e.fence ∧ e.fence ≤ maxFence
  epoch : required [e.writerEpoch] = true
  live : Live σ e.plan.input.owner e.writerEpoch
  fresh : σ.lookup (.execution (e.key H)) = none
  row : ν.lookup (.execution (e.key H)) =
    some (freshExecution ((requestFor e.plan).keyDigest H) e)
  witness : ∀ br ∈ e.plan.input.branches, ν.lookup (.witness (e.key H) (branchKey H br.id)) =
    some (freshWitness (e.plan.referenceOf H e.fence e.writerEpoch br))
  witnessOnly : ∀ b, (∀ br ∈ e.plan.input.branches, branchKey H br.id ≠ b) →
    ν.lookup (.witness (e.key H) b) = σ.lookup (.witness (e.key H) b)
  otherExecution : ∀ k, k ≠ e.key H → ν.lookup (.execution k) = σ.lookup (.execution k)
  otherWitness : ∀ k b, k ≠ e.key H → ν.lookup (.witness k b) = σ.lookup (.witness k b)
  otherRequest : ∀ k, k ≠ (requestFor e.plan).keyDigest H →
    ν.lookup (.request k) = σ.lookup (.request k)
  binding : ∀ o, ν.lookup (.binding o) = σ.lookup (.binding o)

def RequestRow.request (q : RequestRow) : Request :=
  ⟨q.owner, q.scope, q.idempotencyKey, q.inputHash⟩

/-- The row of a request whose active execution is this one. -/
def requestRow (r : Request) (active : Bytes) : RequestRow :=
  ⟨r.owner, r.scope, r.key, r.inputHash, active⟩

inductive Trans (σ ν : Tables) : Prop
  | evolve (h : Evolves σ ν)
  | reserve (e : Execution) (h : Issued H e σ ν) (first : e.fence = 1)
      (absent : σ.lookup (.request ((requestFor e.plan).keyDigest H)) = none)
      (filed : ν.lookup (.request ((requestFor e.plan).keyDigest H)) =
        some (requestRow (requestFor e.plan) (e.key H)))
  | advance (e : Execution) (old : ExecutionRow) (q : RequestRow) (h : Issued H e σ ν)
      (request : σ.lookup (.request ((requestFor e.plan).keyDigest H)) = some q)
      (same : q.request = requestFor e.plan)
      (active : σ.lookup (.execution q.activeExecution) = some old)
      (aborted : old.state = .aborted) (next : e.fence = old.fence + 1)
      (plan : e.plan = old.plan ∨ e.plan.input.operationID ≠ old.operationID)
      (filed : ν.lookup (.request ((requestFor e.plan).keyDigest H)) =
        some { q with activeExecution := e.key H })
  | rotate (h : ∀ r, (∀ o, r ≠ .binding o) → ν.lookup r = σ.lookup r)

/-! ## The invariant -/

structure ExecutionOk (σ : Tables) (k : Bytes) (e : ExecutionRow) : Prop where
  key : k = executionKey H e.owner e.operationID e.writerEpoch e.fence
  plan : e.plan.valid = true
  owner : e.owner = e.plan.input.owner
  operation : e.operationID = e.plan.input.operationID
  fence : 0 < e.fence ∧ e.fence ≤ maxFence
  epoch : required [e.writerEpoch] = true
  request : e.requestKey = (requestFor e.plan).keyDigest H
  witness : ∀ br ∈ e.plan.input.branches, ∃ w : WitnessRow,
    σ.lookup (.witness k (branchKey H br.id)) = some w ∧
      w.reference = e.plan.referenceOf H e.fence e.writerEpoch br ∧ w.state = e.state

/-- A request row and the executions filed under it: one for each fence up to
the active one's, and all but the active one aborted. -/
structure RequestOk (σ : Tables) (rk : Bytes) (q : RequestRow) (a : ExecutionRow) : Prop where
  active : σ.lookup (.execution q.activeExecution) = some a
  own : a.requestKey = rk
  upto : ∀ k (e : ExecutionRow), σ.lookup (.execution k) = some e → e.requestKey = rk →
    e.fence ≤ a.fence ∧ (e.fence = a.fence → k = q.activeExecution)
  older : ∀ k (e : ExecutionRow), σ.lookup (.execution k) = some e → e.requestKey = rk →
    e.fence < a.fence → e.state = .aborted
  every : ∀ f, 0 < f → f ≤ a.fence → ∃ k, ∃ e : ExecutionRow,
    σ.lookup (.execution k) = some e ∧ e.requestKey = rk ∧ e.fence = f

/-- The invariant of the committed rows. -/
structure Inv (σ : Tables) : Prop where
  execution : ∀ k (e : ExecutionRow), σ.lookup (.execution k) = some e → ExecutionOk H σ k e
  witness : ∀ k b (w : WitnessRow), σ.lookup (.witness k b) = some w →
    ∃ e : ExecutionRow, σ.lookup (.execution k) = some e ∧
      ∃ br ∈ e.plan.input.branches, branchKey H br.id = b
  filed : ∀ k (e : ExecutionRow), σ.lookup (.execution k) = some e →
    ∃ q : RequestRow, σ.lookup (.request e.requestKey) = some q ∧ q.request = requestFor e.plan
  request : ∀ rk (q : RequestRow), σ.lookup (.request rk) = some q →
    ∃ a : ExecutionRow, RequestOk σ rk q a
  perFence : ∀ k k' (e e' : ExecutionRow), σ.lookup (.execution k) = some e →
    σ.lookup (.execution k') = some e' → e.requestKey = e'.requestKey → e.fence = e'.fence →
    k = k'

/-- Tables with binding rows only: where every run starts. -/
def Installed (σ : Tables) : Prop := ∀ r, (∀ o, r ≠ .binding o) → σ.lookup r = none

variable {H} {σ ν : Tables}

theorem Installed.inv (h : Installed σ) : Inv H σ where
  execution := fun k e he => by
    rw [h _ (fun o => Row.noConfusion)] at he
    cases he
  witness := fun k b w hw => by
    rw [h _ (fun o => Row.noConfusion)] at hw
    cases hw
  filed := fun k e he => by
    rw [h _ (fun o => Row.noConfusion)] at he
    cases he
  request := fun rk q hq => by
    rw [h _ (fun o => Row.noConfusion)] at hq
    cases hq
  perFence := fun k k' e e' he => by
    rw [h _ (fun o => Row.noConfusion)] at he
    cases he

theorem Inv.witness_state (hi : Inv H σ) {k b : Bytes} {e : ExecutionRow} {w : WitnessRow}
    (he : σ.lookup (.execution k) = some e) (hw : σ.lookup (.witness k b) = some w) :
    w.state = e.state := by
  obtain ⟨e', he', br, hbr, rfl⟩ := hi.witness k b w hw
  cases he.symm.trans he'
  obtain ⟨w', hw', _, hs⟩ := (hi.execution k e he).witness br hbr
  cases hw.symm.trans hw'
  exact hs

/-! ## Rows over time -/

section Over

variable {live : Prop} {e e' : ExecutionRow} {k : Bytes}

theorem ExecutionStep.refl : ExecutionStep live e e := ⟨rfl, .inl rfl, .inl rfl⟩

theorem ExecutionStep.fixed (h : ExecutionStep live e e') :
    e'.requestKey = e.requestKey ∧ e'.owner = e.owner ∧ e'.operationID = e.operationID ∧
      e'.writerEpoch = e.writerEpoch ∧ e'.fence = e.fence ∧ e'.token = e.token ∧
      e'.plan = e.plan ∧ e'.leaseUntil = e.leaseUntil := by
  have hc := h.columns
  refine ⟨?_, ?_, ?_, ?_, ?_, ?_, ?_, ?_⟩ <;> rw [hc]

theorem ExecutionStep.aborted (h : ExecutionStep live e e') (ha : e.state = .aborted) :
    e'.state = .aborted := by
  rcases h.state with hs | ⟨hs, _⟩
  · rw [hs, ha]
  · rw [ha] at hs
    cases hs

theorem KeyStep.back (h : KeyStep σ ν k) (he : ν.lookup (.execution k) = some e') :
    ∃ e : ExecutionRow, σ.lookup (.execution k) = some e ∧
      ExecutionStep (Live σ e.owner e.writerEpoch) e e' := by
  cases hσ : σ.lookup (.execution k) with
  | none =>
    rw [h.noExecution hσ] at he
    cases he
  | some e =>
    obtain ⟨e'', he'', hs⟩ := h.execution e hσ
    cases he.symm.trans he''
    exact ⟨e, rfl, hs⟩

theorem KeyStep.of_eq (he : ν.lookup (.execution k) = σ.lookup (.execution k))
    (hw : ∀ b, ν.lookup (.witness k b) = σ.lookup (.witness k b)) : KeyStep σ ν k where
  noExecution := fun h => he.trans h
  execution := fun e h => ⟨e, he.trans h, .refl⟩
  noWitness := fun b h => (hw b).trans h
  witness := fun b w h => ⟨w, (hw b).trans h, rfl⟩
  agree := by
    intro e e' hσ hν hall b w hwit
    rw [he, hσ] at hν
    cases hν
    exact hall b w (hw b ▸ hwit)

theorem KeyStep.of_execution (he : σ.lookup (.execution k) = some e)
    (he' : ν.lookup (.execution k) = some e')
    (hs : ExecutionStep (Live σ e.owner e.writerEpoch) e e') (hst : e'.state = e.state)
    (hw : ∀ b, ν.lookup (.witness k b) = σ.lookup (.witness k b)) : KeyStep σ ν k where
  noExecution := fun h => by
    rw [he] at h
    cases h
  execution := fun d hd => by
    cases he.symm.trans hd
    exact ⟨e', he', hs⟩
  noWitness := fun b h => (hw b).trans h
  witness := fun b w h => ⟨w, (hw b).trans h, rfl⟩
  agree := by
    intro d d' hd hd' hall b w hwit
    cases he.symm.trans hd
    cases he'.symm.trans hd'
    rw [hst]
    exact hall b w (hw b ▸ hwit)

theorem KeyStep.of_witness (he : ν.lookup (.execution k) = σ.lookup (.execution k))
    (hnone : ∀ b, σ.lookup (.witness k b) = none → ν.lookup (.witness k b) = none)
    (hw : ∀ b (w : WitnessRow), σ.lookup (.witness k b) = some w →
      ∃ w' : WitnessRow, ν.lookup (.witness k b) = some w' ∧ w'.reference = w.reference ∧
        w'.state = w.state) : KeyStep σ ν k where
  noExecution := fun h => he.trans h
  execution := fun e h => ⟨e, he.trans h, .refl⟩
  noWitness := hnone
  witness := fun b w h => by
    obtain ⟨w', hw', href, _⟩ := hw b w h
    exact ⟨w', hw', href⟩
  agree := by
    intro d d' hd hd' hall b w' hwit
    rw [he, hd] at hd'
    cases hd'
    cases hσ : σ.lookup (.witness k b) with
    | none =>
      rw [hnone b hσ] at hwit
      cases hwit
    | some w =>
      obtain ⟨w'', hw'', _, hst⟩ := hw b w hσ
      cases hwit.symm.trans hw''
      rw [hst]
      exact hall b w hσ

theorem KeyStep.of_end (he : σ.lookup (.execution k) = some e)
    (he' : ν.lookup (.execution k) = some e')
    (hs : ExecutionStep (Live σ e.owner e.writerEpoch) e e')
    (hnone : ∀ b, σ.lookup (.witness k b) = none → ν.lookup (.witness k b) = none)
    (hw : ∀ b (w : WitnessRow), σ.lookup (.witness k b) = some w →
      ∃ w' : WitnessRow, ν.lookup (.witness k b) = some w' ∧ w'.reference = w.reference ∧
        w'.state = e'.state) : KeyStep σ ν k where
  noExecution := fun h => by
    rw [he] at h
    cases h
  execution := fun d hd => by
    cases he.symm.trans hd
    exact ⟨e', he', hs⟩
  noWitness := hnone
  witness := fun b w h => by
    obtain ⟨w', hw', href, _⟩ := hw b w h
    exact ⟨w', hw', href⟩
  agree := by
    intro d d' _ hd' _ b w' hwit
    cases he'.symm.trans hd'
    cases hσ : σ.lookup (.witness k b) with
    | none =>
      rw [hnone b hσ] at hwit
      cases hwit
    | some w =>
      obtain ⟨w'', hw'', _, hst⟩ := hw b w hσ
      cases hwit.symm.trans hw''
      exact hst

theorem Evolves.of_key (hrest : ∀ r, r ≠ .execution k → (∀ b, r ≠ .witness k b) →
    ν.lookup r = σ.lookup r) (hk : KeyStep σ ν k) : Evolves σ ν where
  binding := fun o => hrest _ Row.noConfusion fun _ => Row.noConfusion
  request := fun q => hrest _ Row.noConfusion fun _ => Row.noConfusion
  key := by
    intro k'
    by_cases h : k' = k
    · subst h
      exact hk
    · refine KeyStep.of_eq (hrest _ ?_ fun _ => Row.noConfusion) fun b => hrest _ Row.noConfusion ?_
      · intro heq
        exact h (Row.execution.inj heq)
      · intro b' heq
        exact h (Row.witness.inj heq).1

end Over

/-! ## The invariant is kept -/

theorem Evolves.executionOk (hi : Inv H σ) (h : Evolves σ ν) {k : Bytes} {e' : ExecutionRow}
    (he' : ν.lookup (.execution k) = some e') : ExecutionOk H ν k e' := by
  obtain ⟨e, he, hs⟩ := (h.key k).back he'
  obtain ⟨hrk, ho, hop, hep, hf, _, hp, _⟩ := hs.fixed
  have hok := hi.execution k e he
  refine ⟨?_, ?_, ?_, ?_, ?_, ?_, ?_, ?_⟩
  · rw [ho, hop, hep, hf]
    exact hok.key
  · rw [hp]
    exact hok.plan
  · rw [ho, hp]
    exact hok.owner
  · rw [hop, hp]
    exact hok.operation
  · rw [hf]
    exact hok.fence
  · rw [hep]
    exact hok.epoch
  · rw [hrk, hp]
    exact hok.request
  · intro br hbr
    rw [hp] at hbr
    obtain ⟨w, hw, href, _⟩ := hok.witness br hbr
    obtain ⟨w', hw', href'⟩ := (h.key k).witness _ w hw
    refine ⟨w', hw', ?_, ?_⟩
    · rw [href', href, hp, hf, hep]
    · exact (h.key k).agree e e' he he' (fun b w hw => hi.witness_state he hw) _ w' hw'

theorem Evolves.requestOk (h : Evolves σ ν) {rk : Bytes} {q : RequestRow} {a : ExecutionRow}
    (hok : RequestOk σ rk q a) : ∃ a' : ExecutionRow, RequestOk ν rk q a' := by
  obtain ⟨a', ha', hs⟩ := (h.key q.activeExecution).execution a hok.active
  obtain ⟨hrk, _, _, _, hf, _, _, _⟩ := hs.fixed
  refine ⟨a', ha', hrk.trans hok.own, ?_, ?_, ?_⟩
  · intro k e' he' hown
    obtain ⟨e, he, hs'⟩ := (h.key k).back he'
    obtain ⟨hrk', _, _, _, hf', _, _, _⟩ := hs'.fixed
    rw [hf, hf']
    exact hok.upto k e he (hrk' ▸ hown)
  · intro k e' he' hown hlt
    obtain ⟨e, he, hs'⟩ := (h.key k).back he'
    obtain ⟨hrk', _, _, _, hf', _, _, _⟩ := hs'.fixed
    rw [hf, hf'] at hlt
    exact hs'.aborted (hok.older k e he (hrk' ▸ hown) hlt)
  · intro f hpos hle
    rw [hf] at hle
    obtain ⟨k, e, he, hown, hfe⟩ := hok.every f hpos hle
    obtain ⟨e', he', hs'⟩ := (h.key k).execution e he
    obtain ⟨hrk', _, _, _, hf', _, _, _⟩ := hs'.fixed
    exact ⟨k, e', he', hrk'.trans hown, hf'.trans hfe⟩

theorem Evolves.inv (hi : Inv H σ) (h : Evolves σ ν) : Inv H ν where
  execution := fun k e' he' => h.executionOk hi he'
  witness := by
    intro k b w' hw'
    cases hσ : σ.lookup (.witness k b) with
    | none =>
      rw [(h.key k).noWitness b hσ] at hw'
      cases hw'
    | some w =>
      obtain ⟨e, he, hbr⟩ := hi.witness k b w hσ
      obtain ⟨e', he', hs⟩ := (h.key k).execution e he
      refine ⟨e', he', ?_⟩
      rw [hs.fixed.2.2.2.2.2.2.1]
      exact hbr
  filed := by
    intro k e' he'
    obtain ⟨e, he, hs⟩ := (h.key k).back he'
    obtain ⟨hrk, _, _, _, _, _, hp, _⟩ := hs.fixed
    rw [hrk, hp, h.request]
    exact hi.filed k e he
  request := by
    intro rk q hq
    rw [h.request] at hq
    obtain ⟨a, hok⟩ := hi.request rk q hq
    exact h.requestOk hok
  perFence := by
    intro k k' e1' e2' h₁ h₂ hrk hf
    obtain ⟨e1, he1, hs1⟩ := (h.key k).back h₁
    obtain ⟨e2, he2, hs2⟩ := (h.key k').back h₂
    obtain ⟨hrk1, _, _, _, hf1, _, _, _⟩ := hs1.fixed
    obtain ⟨hrk2, _, _, _, hf2, _, _, _⟩ := hs2.fixed
    rw [hrk1, hrk2] at hrk
    rw [hf1, hf2] at hf
    exact hi.perFence k k' e1 e2 he1 he2 hrk hf

section Issue

variable {e : Execution}

theorem Issued.cases (h : Issued H e σ ν) {k : Bytes} {row : ExecutionRow}
    (hrow : ν.lookup (.execution k) = some row) :
    (k = e.key H ∧ row = freshExecution ((requestFor e.plan).keyDigest H) e) ∨
      (k ≠ e.key H ∧ σ.lookup (.execution k) = some row) := by
  by_cases hk : k = e.key H
  · subst hk
    rw [h.row] at hrow
    cases hrow
    exact .inl ⟨rfl, rfl⟩
  · rw [h.otherExecution k hk] at hrow
    exact .inr ⟨hk, hrow⟩

theorem Issued.old (h : Issued H e σ ν) {k : Bytes} {row : ExecutionRow}
    (hrow : σ.lookup (.execution k) = some row) : ν.lookup (.execution k) = some row := by
  have hk : k ≠ e.key H := by
    rintro rfl
    rw [h.fresh] at hrow
    cases hrow
  rw [h.otherExecution k hk]
  exact hrow

theorem Issued.executionOk (hi : Inv H σ) (h : Issued H e σ ν) {k : Bytes} {row : ExecutionRow}
    (hrow : ν.lookup (.execution k) = some row) : ExecutionOk H ν k row := by
  rcases h.cases hrow with ⟨rfl, rfl⟩ | ⟨hk, hold⟩
  · exact ⟨rfl, h.plan, rfl, rfl, h.fence, h.epoch, rfl, fun br hbr =>
      ⟨_, h.witness br hbr, rfl, rfl⟩⟩
  · have hok := hi.execution k row hold
    refine { hok with witness := fun br hbr => ?_ }
    obtain ⟨w, hw, hspec⟩ := hok.witness br hbr
    exact ⟨w, (h.otherWitness k _ hk).trans hw, hspec⟩

theorem Issued.witnessOk (hi : Inv H σ) (h : Issued H e σ ν) {k b : Bytes} {w : WitnessRow}
    (hw : ν.lookup (.witness k b) = some w) :
    ∃ row : ExecutionRow, ν.lookup (.execution k) = some row ∧
      ∃ br ∈ row.plan.input.branches, branchKey H br.id = b := by
  by_cases hk : k = e.key H
  · subst hk
    by_cases hbr : ∃ br ∈ e.plan.input.branches, branchKey H br.id = b
    · exact ⟨_, h.row, hbr⟩
    · -- no witness was filed under this key before its execution was
      have hnone : ∀ br ∈ e.plan.input.branches, branchKey H br.id ≠ b :=
        fun br hm heq => hbr ⟨br, hm, heq⟩
      rw [h.witnessOnly b hnone] at hw
      obtain ⟨row, hrow, _⟩ := hi.witness _ b w hw
      rw [h.fresh] at hrow
      cases hrow
  · rw [h.otherWitness k b hk] at hw
    obtain ⟨row, hrow, hbr⟩ := hi.witness k b w hw
    exact ⟨row, h.old hrow, hbr⟩

theorem Issued.requestOk_other (h : Issued H e σ ν) {rk : Bytes}
    (hrk : rk ≠ (requestFor e.plan).keyDigest H) {q : RequestRow} {a : ExecutionRow}
    (hok : RequestOk σ rk q a) : RequestOk ν rk q a := by
  have hback : ∀ k (row : ExecutionRow), ν.lookup (.execution k) = some row →
      row.requestKey = rk → σ.lookup (.execution k) = some row := by
    intro k row hrow hown
    rcases h.cases hrow with ⟨_, rfl⟩ | ⟨_, hold⟩
    · exact absurd hown.symm hrk
    · exact hold
  refine ⟨h.old hok.active, hok.own, fun k row hrow hown => ?_, fun k row hrow hown => ?_,
    fun f hpos hle => ?_⟩
  · exact hok.upto k row (hback k row hrow hown) hown
  · exact hok.older k row (hback k row hrow hown) hown
  · obtain ⟨k, row, hrow, hown, hf⟩ := hok.every f hpos hle
    exact ⟨k, row, h.old hrow, hown, hf⟩

/-- A new execution keeps the invariant, if its request row stands for its
request, and if it is the newest of its request with all earlier ones aborted. -/
theorem Issued.inv (hi : Inv H σ) (h : Issued H e σ ν) (q' : RequestRow)
    (hq' : ν.lookup (.request ((requestFor e.plan).keyDigest H)) =
      some { q' with activeExecution := e.key H })
    (hsame : q'.request = requestFor e.plan)
    (hold : ∀ q : RequestRow, σ.lookup (.request ((requestFor e.plan).keyDigest H)) = some q →
      q.request = requestFor e.plan)
    (hnewest : ∀ k (row : ExecutionRow), σ.lookup (.execution k) = some row →
      row.requestKey = (requestFor e.plan).keyDigest H →
      row.fence < e.fence ∧ row.state = .aborted)
    (hevery : ∀ f, 0 < f → f < e.fence → ∃ k, ∃ row : ExecutionRow,
      σ.lookup (.execution k) = some row ∧
      row.requestKey = (requestFor e.plan).keyDigest H ∧ row.fence = f) : Inv H ν where
  execution := fun k row hrow => h.executionOk hi hrow
  witness := fun k b w hw => h.witnessOk hi hw
  filed := by
    intro k row hrow
    rcases h.cases hrow with ⟨_, rfl⟩ | ⟨_, hrow⟩
    · exact ⟨_, hq', hsame⟩
    · obtain ⟨q, hq, hr⟩ := hi.filed k row hrow
      by_cases hrk : row.requestKey = (requestFor e.plan).keyDigest H
      · rw [hrk] at hq ⊢
        exact ⟨_, hq', hsame.trans ((hold q hq).symm.trans hr)⟩
      · exact ⟨q, (h.otherRequest _ hrk).trans hq, hr⟩
  request := by
    intro rk q hq
    by_cases hrk : rk = (requestFor e.plan).keyDigest H
    · subst hrk
      rw [hq'] at hq
      cases hq
      refine ⟨_, h.row, rfl, fun k row hrow hown => ?_, fun k row hrow hown hlt => ?_,
        fun f hpos hle => ?_⟩
      · rcases h.cases hrow with ⟨rfl, rfl⟩ | ⟨_, hrow⟩
        · exact ⟨le_refl _, fun _ => rfl⟩
        · have hlt := (hnewest k row hrow hown).1
          exact ⟨Nat.le_of_lt hlt, fun heq => absurd heq (Nat.ne_of_lt hlt)⟩
      · rcases h.cases hrow with ⟨_, rfl⟩ | ⟨_, hrow⟩
        · exact absurd hlt (lt_irrefl _)
        · exact (hnewest k row hrow hown).2
      · rcases Nat.lt_or_eq_of_le hle with hlt | heq
        · obtain ⟨k, row, hrow, hown, hf⟩ := hevery f hpos hlt
          exact ⟨k, row, h.old hrow, hown, hf⟩
        · exact ⟨_, _, h.row, rfl, heq.symm⟩
    · rw [h.otherRequest rk hrk] at hq
      obtain ⟨a, hok⟩ := hi.request rk q hq
      exact ⟨a, h.requestOk_other hrk hok⟩
  perFence := by
    intro k k' row row' hrow hrow' hrk hf
    rcases h.cases hrow with ⟨rfl, rfl⟩ | ⟨_, hold1⟩ <;>
      rcases h.cases hrow' with ⟨rfl, rfl⟩ | ⟨_, hold2⟩
    · rfl
    · have hlt := (hnewest k' row' hold2 hrk.symm).1
      exact absurd hf.symm (Nat.ne_of_lt hlt)
    · have hlt := (hnewest k row hold1 hrk).1
      exact absurd hf (Nat.ne_of_lt hlt)
    · exact hi.perFence k k' row row' hold1 hold2 hrk hf

end Issue

theorem Trans.inv (hi : Inv H σ) (h : Trans H σ ν) : Inv H ν := by
  cases h with
  | evolve h => exact h.inv hi
  | reserve e h first absent filed =>
    have hnone : ∀ k (row : ExecutionRow), σ.lookup (.execution k) = some row →
        row.requestKey ≠ (requestFor e.plan).keyDigest H := by
      intro k row hrow hrk
      obtain ⟨q, hq, _⟩ := hi.filed k row hrow
      rw [hrk, absent] at hq
      cases hq
    refine h.inv hi (requestRow (requestFor e.plan) (e.key H)) filed rfl ?_ ?_ ?_
    · intro q hq
      rw [absent] at hq
      cases hq
    · exact fun k row hrow hrk => absurd hrk (hnone k row hrow)
    · intro f hpos hlt
      omega
  | advance e old q h request same active aborted next plan filed =>
    obtain ⟨a, hok⟩ := hi.request _ q request
    cases hok.active.symm.trans active
    refine h.inv hi q filed same ?_ ?_ ?_
    · intro q' hq'
      cases request.symm.trans hq'
      exact same
    · intro k row hrow hrk
      obtain ⟨hle, heq⟩ := hok.upto k row hrow hrk
      refine ⟨by omega, ?_⟩
      rcases Nat.lt_or_eq_of_le hle with hlt | hf
      · exact hok.older k row hrow hrk hlt
      · cases heq hf
        cases active.symm.trans hrow
        exact aborted
    · intro f hpos hlt
      exact hok.every f hpos (by omega)
  | rotate h =>
    have hx : ∀ k, ν.lookup (.execution k) = σ.lookup (.execution k) :=
      fun k => h _ fun _ => Row.noConfusion
    have hw : ∀ k b, ν.lookup (.witness k b) = σ.lookup (.witness k b) :=
      fun k b => h _ fun _ => Row.noConfusion
    have hq : ∀ k, ν.lookup (.request k) = σ.lookup (.request k) :=
      fun k => h _ fun _ => Row.noConfusion
    obtain ⟨i1, i2, i3, i4, i5⟩ := hi
    refine ⟨fun k e he => ?_, ?_, ?_, fun rk q hrq => ?_, ?_⟩
    · have hok := i1 k e (hx k ▸ he)
      exact { hok with witness := fun br hbr => by simpa [hw] using hok.witness br hbr }
    · simpa [hx, hw] using i2
    · simpa [hx, hq] using i3
    · obtain ⟨a, h1, h2, h3, h4, h5⟩ := i4 rk q (hq rk ▸ hrq)
      exact ⟨a, by simpa [hx] using h1, h2, by simpa [hx] using h3,
        by simpa [hx] using h4, by simpa [hx] using h5⟩
    · simpa [hx] using i5

end ReliableMessaging.MySql
