import ReliableMessaging.Mongo.Guard
import ReliableMessaging.Mongo.Receipt
import ReliableMessaging.TxLang.Snapshot

/-!
# What a commit may do to the documents

`Trans` is what any commit may do and all that the operations rely on of each
other: an execution's document stays, with the plan, the keys and the token it
was inserted with. What each operation's own commit does, and what it has
checked of the document it found, follows operation by operation.
-/

namespace ReliableMessaging.Mongo

open Transaction TxLang

variable (H : Sha256)

/-- The owner's binding document names this epoch. -/
def Live (σ : Collections) (owner epoch : String) : Prop :=
  ∃ b : BindingDoc, σ.lookup (.binding owner) = some b ∧ b.writerEpoch = epoch

/-! ## Documents -/

/-- A document that says of itself what it is. -/
structure ExecutionDoc.Intact (id : Bytes) (d : ExecutionDoc) : Prop where
  plan : d.plan.valid = true
  digest : d.planDigest = d.plan.digest H
  key : d.execution.key H = id
  owner : d.owner = d.plan.input.owner
  fence : d.fence ≤ maxFence

structure DocStep (d d' : ExecutionDoc) : Prop where
  fields : d' = { d with
    state := d'.state, guardVersion := d'.guardVersion, witnesses := d'.witnesses,
    prepareStarted := d'.prepareStarted }
  references : d'.witnesses.map (·.reference) = d.witnesses.map (·.reference)

structure Trans (σ ν : Collections) : Prop where
  kept : ∀ id, ∀ d : ExecutionDoc, σ.lookup (.execution id) = some d →
    ∃ d' : ExecutionDoc, ν.lookup (.execution id) = some d' ∧ DocStep d d'
  added : ∀ id, ∀ d' : ExecutionDoc, σ.lookup (.execution id) = none →
    ν.lookup (.execution id) = some d' → d'.Intact H id

def Inv (σ : Collections) : Prop :=
  ∀ id, ∀ d : ExecutionDoc, σ.lookup (.execution id) = some d → d.Intact H id

/-- Nothing but binding documents. -/
def Installed (σ : Collections) : Prop := ∀ r, (∀ o, r ≠ .binding o) → σ.lookup r = none

section

variable {H}

theorem Installed.inv {σ : Collections} (h : Installed σ) : Inv H σ := by
  intro id d hd
  exact absurd ((h _ fun _ => Row.noConfusion).symm.trans hd) nofun

theorem DocStep.refl (d : ExecutionDoc) : DocStep d d := ⟨rfl, rfl⟩

theorem DocStep.intact {id : Bytes} {d d' : ExecutionDoc} (h : DocStep d d')
    (hi : d.Intact H id) : d'.Intact H id := by
  rw [h.fields]
  exact ⟨hi.plan, hi.digest, hi.key, hi.owner, hi.fence⟩

/-- An `_id` says whose execution it is, and of which epoch. -/
theorem ExecutionDoc.Intact.identity [H.CollisionFree] {e : Execution} {d : ExecutionDoc}
    (h : d.Intact H (e.key H)) (he : e.valid = true) :
    d.owner = e.plan.input.owner ∧ d.writerEpoch = e.writerEpoch := by
  simp only [Execution.valid, Bool.and_eq_true, decide_eq_true_eq] at he
  obtain ⟨ho, _, hop, _⟩ := e.plan.sizes he.1.1.1.1.1
  obtain ⟨ho', _, hop', _⟩ := d.plan.sizes h.plan
  obtain ⟨howner, _, hepoch, _⟩ := executionKey_inj ho' ho hop' hop h.fence he.1.1.1.2 h.key
  exact ⟨h.owner.trans howner, hepoch⟩

theorem Trans.inv {σ ν : Collections} (h : Trans H σ ν) (hi : Inv H σ) : Inv H ν := by
  intro id d' hd'
  cases hd : (σ.lookup (.execution id) : Option ExecutionDoc) with
  | none => exact h.added id d' hd hd'
  | some d =>
    obtain ⟨d1, hd1, hstep⟩ := h.kept id d hd
    cases hd'.symm.trans hd1
    exact hstep.intact (hi id d hd)

theorem Trans.refl (σ : Collections) : Trans H σ σ where
  kept := fun _ d hd => ⟨d, hd, .refl d⟩
  added := fun _ _ hd hd' => absurd (hd.symm.trans hd') nofun

end

/-! ## Operations -/

structure SetsDoc (id : Bytes) (d d' : ExecutionDoc) (σ ν : Collections) : Prop where
  before : σ.lookup (.execution id) = some d
  after : ν.lookup (.execution id) = some d'
  rest : ∀ r, r ≠ .execution id → ν.lookup r = σ.lookup r

/-- This execution is the capability for the document. -/
structure Permits (e : Execution) (d : ExecutionDoc) : Prop where
  valid : e.valid = true
  token : d.token = e.token
  digest : d.planDigest = e.plan.digest H

structure FreshDoc (id : Bytes) (d : ExecutionDoc) : Prop where
  intact : d.Intact H id
  prepared : d.state = .prepared
  notStarted : d.prepareStarted = false

/-- `Reserve`, `Retry` and `Replan`: one execution is added, no other changes. -/
structure Issues (σ ν : Collections) (id : Bytes) (d : ExecutionDoc) : Prop
    extends FreshDoc H id d where
  fresh : σ.lookup (.execution id) = none
  doc : ν.lookup (.execution id) = some d
  others : ∀ k, k ≠ id → ν.lookup (.execution k) = σ.lookup (.execution k)

def BeginsPrepare (quiet : Prop) (e : Execution) (σ ν : Collections) : Prop :=
  ∃ d : ExecutionDoc, SetsDoc (e.key H) d { d with prepareStarted := true } σ ν ∧
    Permits H e d ∧ d.state = .prepared ∧ d.prepareStarted = false ∧
    (quiet → Live σ e.plan.input.owner e.writerEpoch)

def Aborts (e : Execution) (σ ν : Collections) : Prop :=
  ∃ d : ExecutionDoc,
    SetsDoc (e.key H) d { d.ended .aborted with guardVersion := d.guardVersion + 1 } σ ν ∧
    Permits H e d ∧ d.state = .prepared

structure Audits (id : Bytes) (ref : Reference) (set : BranchDoc → BranchDoc) (σ ν : Collections)
    (d : ExecutionDoc) (i : Nat) (w : BranchDoc) : Prop where
  sets : SetsDoc id d (d.setWitness i set) σ ν
  witness : d.witnesses[i]? = some w
  reference : w.reference = ref
  state : w.state = d.state

def RecordsHalf (e : Execution) (ref : Reference) (h : HalfReceipt) (σ ν : Collections) : Prop :=
  ∃ d i w now, Audits (e.key H) ref (·.withHalf h now) σ ν d i w ∧ Permits H e d ∧
    d.state = .prepared

/-- What `RecordFinal` asks of its arguments, of the document and of the witness with this index. -/
structure Passes (s : Store) (e : Execution) (ref : Reference) (f : FinalOutcome) (code : String)
    (d : ExecutionDoc) (i : Nat) (w : BranchDoc) : Prop where
  form : validFinal f code = true
  filter : ∃ keep, receiptFilter H s e ref = .ok (i, keep) ∧ keep d = true
  final : (finalStates f).contains d.state = true
  witness : d.witnesses[i]? = some w
  state : w.state = d.state
  unsettled : absentOr w.finalOutcome [.notAttempted, .unknown, f] = true

def RecordsFinal (s : Store) (e : Execution) (ref : Reference) (f : FinalOutcome) (code : String)
    (σ ν : Collections) : Prop :=
  ∃ d i w now, Audits (e.key H) ref (·.withFinal f code now) σ ν d i w ∧ Permits H e d ∧
    Passes H s e ref f code d i w

def RecordsRecovery (ref : Reference) (f : FinalOutcome) (σ ν : Collections) : Prop :=
  ∃ d i w now, Audits (ref.executionKey H) ref (·.withFinal f "" now) σ ν d i w ∧
    absentOr w.finalOutcome [.notAttempted, .unknown] = true

/-- A document after a root transaction: bound, and perhaps committed. -/
def HostsDoc (d d' : ExecutionDoc) : Prop :=
  ∃ g, d' = { d with guardVersion := g } ∨ d' = { d.ended .committed with guardVersion := g }

/-- What a root transaction does to one execution that it bound. -/
structure HostsExecution (quiet : Prop) (id : Bytes) (e : Execution) (σ : Collections)
    (d d' : ExecutionDoc) : Prop where
  key : e.key H = id
  permits : Permits H e d
  before : σ.lookup (.execution id) = some d
  prepared : d.state = .prepared
  doc : HostsDoc d d'
  live : quiet → Live σ e.plan.input.owner e.writerEpoch

/-- The commit of a root transaction with this script: every execution that it
changes is one that the script bound, and whatever the script bound is the
capability for its document. -/
structure Hosts (quiet : Prop) (steps : List HostStep) (σ ν : Collections) : Prop where
  rest : ∀ r, (∀ id, r ≠ .execution id) → ν.lookup r = σ.lookup r
  execution : ∀ id, ν.lookup (.execution id) = σ.lookup (.execution id) ∨
    ∃ s e d d', HostStep.bind s e ∈ steps ∧ ν.lookup (.execution id) = some d' ∧
      HostsExecution H quiet id e σ d d'
  bound : ∀ s e, HostStep.bind s e ∈ steps →
    ∃ d : ExecutionDoc, σ.lookup (.execution (e.key H)) = some d ∧ Permits H e d

/-- The commit of a host that changes binding documents. -/
def Rotates (σ ν : Collections) : Prop := ∀ r, (∀ o, r ≠ .binding o) → ν.lookup r = σ.lookup r

section

variable {H} {σ ν : Collections}

theorem SetsDoc.trans {id : Bytes} {d d' : ExecutionDoc} (h : SetsDoc id d d' σ ν)
    (hstep : DocStep d d') : Trans H σ ν := by
  refine ⟨fun k x hx => ?_, fun k x' hx hx' => ?_⟩
  · by_cases hk : k = id
    · subst hk
      cases hx.symm.trans h.before
      exact ⟨d', h.after, hstep⟩
    · exact ⟨x, (h.rest _ fun heq => hk (Row.execution.inj heq)).trans hx, .refl x⟩
  · by_cases hk : k = id
    · subst hk
      exact absurd (hx.symm.trans h.before) nofun
    · have hsame := h.rest (.execution k) fun heq => hk (Row.execution.inj heq)
      exact absurd (hx.symm.trans (hsame.symm.trans hx')) nofun

theorem Issues.trans {id : Bytes} {d : ExecutionDoc} (h : Issues H σ ν id d) : Trans H σ ν := by
  refine ⟨fun k x hx => ?_, fun k x' hx hx' => ?_⟩
  · by_cases hk : k = id
    · subst hk
      exact absurd (h.fresh.symm.trans hx) nofun
    · exact ⟨x, (h.others k hk).trans hx, .refl x⟩
  · by_cases hk : k = id
    · subst hk
      cases h.doc.symm.trans hx'
      exact h.intact
    · exact absurd (hx.symm.trans ((h.others k hk).symm.trans hx')) nofun

theorem references_map_state (d : ExecutionDoc) (st : State) :
    (d.ended st).witnesses.map (·.reference) = d.witnesses.map (·.reference) := by
  simp only [ExecutionDoc.ended, List.map_map]
  rfl

theorem docStep_ended (d : ExecutionDoc) (st : State) (g : Nat) :
    DocStep d { d.ended st with guardVersion := g } :=
  ⟨rfl, references_map_state d st⟩

theorem docStep_setWitness (d : ExecutionDoc) (i : Nat) {set : BranchDoc → BranchDoc}
    (h : ∀ w, (set w).reference = w.reference) : DocStep d (d.setWitness i set) := by
  refine ⟨rfl, List.ext_getElem? fun j => ?_⟩
  simp only [ExecutionDoc.setWitness, List.getElem?_map, List.getElem?_modify]
  cases d.witnesses[j]? with
  | none => rfl
  | some w =>
    by_cases hij : i = j
    · simp [hij, h]
    · simp [hij]

theorem HostsDoc.step {d d' : ExecutionDoc} (h : HostsDoc d d') : DocStep d d' := by
  obtain ⟨g, rfl | rfl⟩ := h
  · exact ⟨rfl, rfl⟩
  · exact docStep_ended d .committed g

theorem Hosts.trans {quiet : Prop} {steps : List HostStep} (h : Hosts H quiet steps σ ν) :
    Trans H σ ν := by
  refine ⟨fun k x hx => ?_, fun k x' hx hx' => ?_⟩
  · rcases h.execution k with hsame | ⟨s, e, d, d', _, hd', he⟩
    · exact ⟨x, hsame.trans hx, .refl x⟩
    · cases he.before.symm.trans hx
      exact ⟨d', hd', he.doc.step⟩
  · rcases h.execution k with hsame | ⟨s, e, d, d', _, hd', he⟩
    · exact absurd (hx.symm.trans (hsame.symm.trans hx')) nofun
    · exact absurd (he.before.symm.trans hx) nofun

theorem Rotates.trans (h : Rotates σ ν) : Trans H σ ν where
  kept := fun _ d hd => ⟨d, (h _ fun _ => Row.noConfusion).trans hd, .refl d⟩
  added := fun _ _ hd hd' =>
    absurd (hd.symm.trans ((h _ fun _ => Row.noConfusion).symm.trans hd')) nofun

end

end ReliableMessaging.Mongo
