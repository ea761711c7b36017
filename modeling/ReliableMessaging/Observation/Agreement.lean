import Mathlib.Data.List.Lex
import Mathlib.Data.List.MinMax
import Mathlib.Data.List.Perm.Lattice
import Mathlib.Tactic.Abel
import ReliableMessaging.Observation.Accumulator

/-!
# The three observers agree

What an owner's executions are is one thing, and how a store lists them is
another: rows of a join in some order, documents in some order. `observation`
says what is to be counted, over the executions themselves. The Go adapters
and the Python one compute it from whatever listing they are given.
-/

namespace ReliableMessaging.Observation

open Transaction Loops List

/-! ## Adding up -/

instance : Zero Tally := ⟨{}⟩

/-- Counters add, ages take the greater. -/
def Tally.add (a b : Tally) : Tally where
  reservedExecutions := a.reservedExecutions + b.reservedExecutions
  preparingExecutions := a.preparingExecutions + b.preparingExecutions
  preparedExpiryAge := max a.preparedExpiryAge b.preparedExpiryAge
  confirmationGapBranches := a.confirmationGapBranches + b.confirmationGapBranches
  oldestConfirmationObservationAge :=
    max a.oldestConfirmationObservationAge b.oldestConfirmationObservationAge
  unagedConfirmationGapBranches := a.unagedConfirmationGapBranches + b.unagedConfirmationGapBranches
  untrackedAbortedBranches := a.untrackedAbortedBranches + b.untrackedAbortedBranches
  unobservedCommittedBranches := a.unobservedCommittedBranches + b.unobservedCommittedBranches
  metadataConflicts := a.metadataConflicts + b.metadataConflicts

instance : Add Tally := ⟨Tally.add⟩

theorem Tally.add_eq (a b : Tally) : a + b = a.add b := rfl

theorem Tally.zero_def : (0 : Tally) = {} := rfl

instance : AddCommMonoid Tally where
  add_assoc a b c := by
    ext <;> simp only [Tally.add_eq, Tally.add, Nat.add_assoc, max_assoc]
  zero_add a := by
    ext <;> simp [Tally.add_eq, Tally.add, Tally.zero_def]
  add_zero a := by
    ext <;> simp [Tally.add_eq, Tally.add, Tally.zero_def]
  add_comm a b := by
    ext <;> simp only [Tally.add_eq, Tally.add, Nat.add_comm, max_comm]
  nsmul := nsmulRec

def ProtocolObservation.plus (o : ProtocolObservation) (t : Tally) : ProtocolObservation :=
  { toTally := o.toTally + t, asOf := o.asOf }

@[simp] theorem ProtocolObservation.plus_asOf (o : ProtocolObservation) (t : Tally) :
    (o.plus t).asOf = o.asOf := rfl

theorem ProtocolObservation.plus_zero (o : ProtocolObservation) : o.plus 0 = o := by
  simp [ProtocolObservation.plus]

theorem ProtocolObservation.plus_plus (o : ProtocolObservation) (t u : Tally) :
    (o.plus t).plus u = o.plus (t + u) := by
  simp [ProtocolObservation.plus, add_assoc]

theorem ProtocolObservation.plus_conflict (o : ProtocolObservation) :
    { o with metadataConflicts := o.metadataConflicts + 1 } =
      o.plus { metadataConflicts := 1 } := by
  simp [ProtocolObservation.plus, Tally.add_eq, Tally.add]

/-! ## What is counted -/

structure LogicalBranch where
  key : Bytes
  state : State
  half : HalfOutcome
  final : FinalOutcome
  halfAt : Option Nat
  finalAt : Option Nat
  halfAt_pos : ∀ time ∈ halfAt, 0 < time
  finalAt_pos : ∀ time ∈ finalAt, 0 < time

structure LogicalExecution where
  key : Bytes
  state : State
  started : Bool
  lease : Nat
  lease_pos : 0 < lease
  branches : List LogicalBranch
  branches_nodup : (branches.map LogicalBranch.key).Nodup

namespace LogicalBranch

variable (state : State) (started : Bool) (b : LogicalBranch)

/-- The witness contradicts the state of its execution. -/
def conflicts : Bool :=
  b.state ≠ state || (b.final = .commitConfirmed && state ≠ .committed) ||
    (b.final = .rollbackConfirmed && state ≠ .aborted)

def unobserved : Bool := state = .committed && b.half ≠ .prepared

def untracked : Bool :=
  state = .aborted && started && b.half = .notAttempted && !positive b.final

/-- The broker may still wait to hear of the branch. -/
def gap : Bool :=
  state ≠ .prepared && (b.half = .prepared || b.half = .unknown) && !positive b.final

/-- When the branch was first heard of. -/
def heardAt : Option Nat := b.halfAt.or b.finalAt

theorem heardAt_pos : ∀ time ∈ b.heardAt, 0 < time := by
  intro time htime
  cases hhalf : b.halfAt with
  | none => exact b.finalAt_pos time (by simpa [heardAt, hhalf] using htime)
  | some half => exact b.halfAt_pos time (by simpa [heardAt, hhalf] using htime)

def tally (age : Nat → Nat) : Tally where
  confirmationGapBranches := if b.gap state then 1 else 0
  oldestConfirmationObservationAge := if b.gap state then b.heardAt.elim 0 age else 0
  unagedConfirmationGapBranches := if b.gap state && b.heardAt.isNone then 1 else 0
  untrackedAbortedBranches := if b.untracked state started then 1 else 0
  unobservedCommittedBranches := if b.unobserved state then 1 else 0
  metadataConflicts := if b.conflicts state then 1 else 0

end LogicalBranch

namespace LogicalExecution

def tally (e : LogicalExecution) (age : Nat → Nat) : Tally where
  reservedExecutions := if e.state = .prepared && !e.started then 1 else 0
  preparingExecutions := if e.state = .prepared && e.started then 1 else 0
  preparedExpiryAge := if e.state = .prepared && e.started then age e.lease else 0

end LogicalExecution

/-! ## The accumulators add -/

theorem refuseIf_neg {ε : Type} {c : Prop} [Decidable c] {err : ε} (h : ¬ c) :
    refuseIf c err = .ok () := by
  simp [refuseIf, h]

theorem execution_ok {a : ProtocolObservation} (ha : 0 < a.asOf) (e : LogicalExecution) :
    execution a (stateText e.state) e.started e.lease = .ok (a.plus (e.tally (age a.asOf))) := by
  unfold execution
  rw [refuseIf_neg ha.ne', refuseIf_neg e.lease_pos.ne', stateOf_stateText]
  cases hstate : e.state <;> cases hstarted : e.started <;>
    simp [known, bind, Except.bind, pure, Except.pure, ProtocolObservation.plus, Tally.add_eq,
      Tally.add, LogicalExecution.tally, hstate, hstarted]

/-- The shape that both accumulators give to a branch. -/
def note (conflicts unobserved untracked gap : Bool) (heard : Option Nat) (age : Nat → Nat)
    (a : ProtocolObservation) : ProtocolObservation :=
  let a := if conflicts then { a with metadataConflicts := a.metadataConflicts + 1 } else a
  let a :=
    if unobserved then
      { a with unobservedCommittedBranches := a.unobservedCommittedBranches + 1 }
    else a
  let a :=
    if untracked then { a with untrackedAbortedBranches := a.untrackedAbortedBranches + 1 } else a
  if !gap then a
  else
    let a := { a with confirmationGapBranches := a.confirmationGapBranches + 1 }
    match heard with
    | none => { a with unagedConfirmationGapBranches := a.unagedConfirmationGapBranches + 1 }
    | some time =>
      { a with
        oldestConfirmationObservationAge := max a.oldestConfirmationObservationAge (age time) }

theorem note_eq (a : ProtocolObservation) (state : State) (started : Bool) (b : LogicalBranch)
    (age : Nat → Nat) :
    note (b.conflicts state) (b.unobserved state) (b.untracked state started) (b.gap state)
      b.heardAt age a = a.plus (b.tally state started age) := by
  unfold LogicalBranch.tally
  cases b.conflicts state <;> cases b.unobserved state <;> cases b.untracked state started <;>
    cases b.gap state <;> cases b.heardAt <;>
    simp [note, ProtocolObservation.plus, Tally.add_eq, Tally.add]

theorem not_gap (state : State) (b : LogicalBranch) :
    (!b.gap state) = (state = .prepared || (b.half ≠ .prepared && b.half ≠ .unknown) ||
      positive b.final) := by
  unfold LogicalBranch.gap
  cases positive b.final <;> by_cases hs : state = .prepared <;> by_cases hp : b.half = .prepared <;>
    by_cases hu : b.half = .unknown <;> simp [hs, hp, hu]

/-- The zero time stands for a column that is `NULL`. -/
theorem heardAt_getD (b : LogicalBranch) :
    (if b.halfAt.getD 0 = 0 then b.finalAt.getD 0 else b.halfAt.getD 0) = b.heardAt.getD 0 := by
  cases hhalf : b.halfAt with
  | none => simp [LogicalBranch.heardAt, hhalf]
  | some half =>
    have := b.halfAt_pos half hhalf
    simp [LogicalBranch.heardAt, hhalf, this.ne']

theorem classify_eq (a : ProtocolObservation) (state : State) (started : Bool) (b : LogicalBranch) :
    classify a state started b.state b.half b.final (b.halfAt.getD 0) (b.finalAt.getD 0) =
      a.plus (b.tally state started (age a.asOf)) := by
  rw [← note_eq]
  unfold classify note
  rw [not_gap, heardAt_getD]
  cases hheard : b.heardAt with
  | none => rfl
  | some time =>
    have htime := (b.heardAt_pos time hheard).ne'
    simp only [Option.getD_some, htime, if_false]
    unfold LogicalBranch.conflicts LogicalBranch.unobserved LogicalBranch.untracked
    split_ifs <;> rfl

theorem branch_ok (a : ProtocolObservation) (state : State) (started : Bool) (b : LogicalBranch)
    {half final : String} (hhalf : half = halfText b.half ∨ half = "" ∧ b.half = .notAttempted)
    (hfinal : final = finalText b.final ∨ final = "" ∧ b.final = .notAttempted) :
    branch a (stateText state) started
        ⟨stateText b.state, half, final, b.halfAt.getD 0, b.finalAt.getD 0⟩ =
      .ok (a.plus (b.tally state started (age a.asOf))) := by
  have hhalfOf : halfOf (if half = "" then halfText .notAttempted else half) = some b.half := by
    rcases hhalf with rfl | ⟨rfl, hnone⟩
    · simp
    · simp [hnone]
  have hfinalOf : finalOf (if final = "" then finalText .notAttempted else final) =
      some b.final := by
    rcases hfinal with rfl | ⟨rfl, hnone⟩
    · simp
    · simp [hnone]
  unfold branch
  rw [stateOf_stateText, stateOf_stateText, hhalfOf, hfinalOf, ← classify_eq]
  rfl

namespace Python

theorem execution_eq (s : ProtocolObservation) (e : LogicalExecution) :
    execution s e.state e.started e.lease = s.plus (e.tally (age s.asOf)) := by
  unfold execution
  cases hstate : e.state <;> cases hstarted : e.started <;>
    simp [ProtocolObservation.plus, Tally.add_eq, Tally.add, LogicalExecution.tally, hstate,
      hstarted]

theorem branch_eq (s : ProtocolObservation) (state : State) (started : Bool) (b : LogicalBranch) :
    branch s state started b.state b.half b.final b.halfAt b.finalAt =
      s.plus (b.tally state started (age s.asOf)) := by
  rw [← note_eq]
  unfold branch note
  rw [not_gap]
  have hhalf : (!(b.half = .prepared || b.half = .unknown)) =
      (b.half ≠ .prepared && b.half ≠ .unknown) := by simp
  rw [hhalf]
  unfold LogicalBranch.conflicts LogicalBranch.unobserved LogicalBranch.untracked
  cases hheard : b.heardAt with
  | none => rw [show b.halfAt.or b.finalAt = none from hheard]
  | some time =>
    rw [show b.halfAt.or b.finalAt = some time from hheard]
    split_ifs <;> rfl

end Python

/-! ## The join -/

/-- What a row of the join shows: the binding alone, an execution, or one of its witnesses. -/
abbrev Joined : Type := Option (LogicalExecution × Option LogicalBranch)

namespace LogicalExecution

/-- The witness has the least `branch_key` of its execution. -/
def isFirst (e : LogicalExecution) (b : LogicalBranch) : Bool :=
  e.branches.all fun c => b.key.map UInt8.toNat ≤ c.key.map UInt8.toNat

/-- `LEFT JOIN rm_tx_witness`. -/
def joined (e : LogicalExecution) : List (Option LogicalBranch) :=
  if e.branches = [] then [none] else e.branches.map some

end LogicalExecution

/-- `LEFT JOIN rm_tx_execution`. -/
def joined (es : List LogicalExecution) : List Joined :=
  if es = [] then [none] else es.flatMap fun e => e.joined.map fun b => some (e, b)

def joinRow (store : Binding) (now : Nat) (j : Joined) : JoinRow :=
  let row : JoinRow := ⟨store.storeID, store.writerEpoch, schemaVersion, now, none, none, none,
    none, none, none, none, none, none, none, true⟩
  match j with
  | none => row
  | some (e, b) =>
    let row :=
      { row with
        executionKey := some e.key
        state := some (stateText e.state)
        started := some e.started
        lease := some e.lease }
    match b with
    | none => row
    | some b =>
      { row with
        branchKey := some b.key
        branchState := some (stateText b.state)
        half := some (halfText b.half)
        final := some (finalText b.final)
        halfAt := b.halfAt
        finalAt := b.finalAt
        first := e.isFirst b }

/-- The answer of `observation.sql`, in the order of the tables. -/
def joinRows (store : Binding) (now : Nat) (es : List LogicalExecution) : List JoinRow :=
  (joined es).map (joinRow store now)

def Joined.tally (age : Nat → Nat) : Joined → Tally
  | none => 0
  | some (e, none) => e.tally age + { metadataConflicts := 1 }
  | some (e, some b) =>
    (if e.isFirst b then e.tally age else 0) + b.tally e.state e.started age

theorem observeRow_ok (store : Binding) {now : Nat} (hnow : 0 < now) {a : ProtocolObservation}
    (ha : a.asOf = now) (j : Joined) :
    observeRow store a (joinRow store now j) = .ok (a.plus (j.tally (age now))) := by
  subst ha
  match j with
  | none =>
    rw [Joined.tally, ProtocolObservation.plus_zero]
    simp [observeRow, joinRow, refuseIf, bind, Except.bind, pure, Except.pure]
  | some (e, none) =>
    have hexecution := execution_ok hnow e
    simp only [observeRow, joinRow, refuseIf, ne_eq, not_true_eq_false, or_self, if_false, known,
      if_true, bind, Except.bind, hexecution, observeWitness, Joined.tally,
      ← ProtocolObservation.plus_plus, ProtocolObservation.plus_conflict]
  | some (e, some b) =>
    have hexecution := execution_ok hnow e
    have hbranch := fun a => branch_ok a e.state e.started b (.inl rfl) (.inl rfl)
    cases hfirst : e.isFirst b <;>
      simp [observeRow, joinRow, refuseIf, known, bind, Except.bind, hfirst, hexecution, hbranch,
        observeWitness, Joined.tally, ← ProtocolObservation.plus_plus]

theorem Python.observeRow_ok (store : Binding) {now : Nat} {s : ProtocolObservation}
    (hs : s.asOf = now) (j : Joined) :
    Python.observeRow store (some s) (joinRow store now j) =
      .ok (some (s.plus (j.tally (Python.age now)))) := by
  subst hs
  match j with
  | none =>
    rw [Joined.tally, ProtocolObservation.plus_zero]
    simp [Python.observeRow, joinRow, refuseIf, bind, Except.bind, pure, Except.pure]
  | some (e, none) =>
    simp only [Python.observeRow, joinRow, refuseIf, ne_eq, not_true_eq_false, or_self, if_false,
      known, if_true, bind, Except.bind, Option.getD_some, stateOf_stateText,
      Python.execution_eq, Python.observeWitness, Joined.tally, ← ProtocolObservation.plus_plus,
      ProtocolObservation.plus_conflict]
    rfl
  | some (e, some b) =>
    cases hfirst : e.isFirst b <;>
      simp [Python.observeRow, joinRow, refuseIf, known, bind, Except.bind, pure, Except.pure,
        hfirst, Python.execution_eq, Python.branch_eq, Python.observeWitness, Joined.tally,
        ← ProtocolObservation.plus_plus]

theorem exists_joined_of_perm {store : Binding} {now : Nat} {es : List LogicalExecution}
    {rows : List JoinRow} (h : rows.Perm (joinRows store now es)) :
    ∃ js, js.Perm (joined es) ∧ List.Forall₂ (fun row j => row = joinRow store now j) rows js := by
  have hsame : List.Forall₂ (fun row j => row = joinRow store now j) (joinRows store now es)
      (joined es) := by
    rw [joinRows, forall₂_map_left_iff]
    exact forall₂_refl _
  obtain ⟨js, hjs, hperm⟩ := perm_comp_forall₂ h hsame
  exact ⟨js, hperm, hjs⟩

theorem joined_ne_nil (es : List LogicalExecution) : joined es ≠ [] := by
  unfold joined
  split
  · simp
  next hes =>
    obtain ⟨e, rest, rfl⟩ := exists_cons_of_ne_nil hes
    have hjoined : e.joined ≠ [] := by
      unfold LogicalExecution.joined
      split <;> simp_all
    simp [hjoined]

theorem sum_tally_perm {js ks : List Joined} (h : js.Perm ks) (age : Nat → Nat) :
    (js.map (Joined.tally age)).sum = (ks.map (Joined.tally age)).sum :=
  (h.map _).sum_eq

@[simp] theorem joinRow_clock (store : Binding) (now : Nat) (j : Joined) :
    (joinRow store now j).clock = now := by
  unfold joinRow
  split
  · rfl
  · split <;> rfl

theorem observeJoin_ok (store : Binding) {now : Nat} (hnow : 0 < now) {es : List LogicalExecution}
    {rows : List JoinRow} (hrows : rows.Perm (joinRows store now es)) :
    observeJoin store rows =
      .ok (ProtocolObservation.plus { asOf := now }
        ((joined es).map (Joined.tally (age now))).sum) := by
  obtain ⟨js, hperm, hforall⟩ := exists_joined_of_perm hrows
  have hfold := foldlM_sum (g := ProtocolObservation.plus) (t := Joined.tally (age now))
    (I := fun a => a.asOf = now) ProtocolObservation.plus_zero ProtocolObservation.plus_plus
    (fun _ _ h => h)
    (fun a row j ha hrow => by rw [hrow]; exact observeRow_ok store hnow ha j) hforall
    (s := { asOf := now }) rfl
  -- The accumulator starts without a clock; the first row brings it.
  have hstart : rows.foldlM (observeRow store) {} =
      rows.foldlM (observeRow store) { asOf := now } := by
    cases hforall with
    | nil => exact absurd (perm_nil.mp hperm.symm) (joined_ne_nil es)
    | @cons row j rows js hrow _ =>
      have hclock : row.clock = now := by rw [hrow, joinRow_clock]
      rw [foldlM_cons, foldlM_cons]
      subst hclock
      rfl
  unfold observeJoin
  rw [hstart, hfold, sum_tally_perm hperm]
  simp [bind, Except.bind, refuseIf, hnow.ne', pure, Except.pure]

theorem Python.observeJoin_ok (store : Binding) {now : Nat} {es : List LogicalExecution}
    {rows : List JoinRow} (hrows : rows.Perm (joinRows store now es)) :
    Python.observeJoin store rows =
      .ok (ProtocolObservation.plus { asOf := now }
        ((joined es).map (Joined.tally (Python.age now))).sum) := by
  obtain ⟨js, hperm, hforall⟩ := exists_joined_of_perm hrows
  have hfold := foldlM_sum (g := fun s m => Option.map (ProtocolObservation.plus · m) s)
    (t := Joined.tally (Python.age now)) (I := fun s => ∃ a, s = some a ∧ a.asOf = now)
    (fun s => by simp [ProtocolObservation.plus_zero])
    (fun s m n => by simp [ProtocolObservation.plus_plus, Function.comp_def])
    (by rintro _ m ⟨a, rfl, ha⟩; exact ⟨_, rfl, ha⟩)
    (by rintro _ row j ⟨a, rfl, ha⟩ rfl; exact Python.observeRow_ok store ha j) hforall
    (s := some { asOf := now }) ⟨_, rfl, rfl⟩
  have hstart : rows.foldlM (Python.observeRow store) none =
      rows.foldlM (Python.observeRow store) (some { asOf := now }) := by
    cases hforall with
    | nil => exact absurd (perm_nil.mp hperm.symm) (joined_ne_nil es)
    | @cons row j rows js hrow _ =>
      rw [foldlM_cons, foldlM_cons]
      have hclock : row.clock = now := by rw [hrow, joinRow_clock]
      subst hclock
      rfl
  unfold Python.observeJoin
  rw [hstart, hfold, sum_tally_perm hperm]
  rfl

/-! ## The documents -/

/-- A witness inside a document; older documents leave an outcome out while nothing happened. -/
structure Shows (d : Branch) (b : LogicalBranch) : Prop where
  state : d.state = stateText b.state
  half : d.half = halfText b.half ∨ d.half = "" ∧ b.half = .notAttempted
  final : d.final = finalText b.final ∨ d.final = "" ∧ b.final = .notAttempted
  halfAt : d.halfAt = b.halfAt.getD 0
  finalAt : d.finalAt = b.finalAt.getD 0

/-- The document of an execution, its witnesses in any order. -/
structure Documents (d : ExecutionView) (e : LogicalExecution) : Prop where
  state : d.state = stateText e.state
  started : d.started = e.started
  lease : d.lease = e.lease
  branches : ∃ bs, bs.Perm e.branches ∧ List.Forall₂ Shows d.branches bs

namespace LogicalExecution

/-- What the witnesses of an execution add, or their absence. -/
def witnesses (e : LogicalExecution) (age : Nat → Nat) : Tally :=
  (if e.branches = [] then { metadataConflicts := 1 } else 0) +
    (e.branches.map fun b => b.tally e.state e.started age).sum

end LogicalExecution

theorem observeDocument_ok {a : ProtocolObservation} (ha : 0 < a.asOf) {d : ExecutionView}
    {e : LogicalExecution} (hd : Documents d e) :
    observeDocument a d =
      .ok (a.plus (e.tally (age a.asOf) + e.witnesses (age a.asOf))) := by
  obtain ⟨bs, hperm, hshown⟩ := hd.branches
  have hnone : d.branches = [] ↔ e.branches = [] := by
    rw [← length_eq_zero_iff, ← length_eq_zero_iff, hshown.length_eq, hperm.length_eq]
  have hbranches : ∀ start : ProtocolObservation, start.asOf = a.asOf →
      d.branches.foldlM (fun a b => branch a (stateText e.state) e.started b) start =
        .ok (start.plus (bs.map fun b => b.tally e.state e.started (age a.asOf)).sum) := by
    intro start hstart
    refine foldlM_sum (I := fun s : ProtocolObservation => s.asOf = a.asOf)
      (t := fun b : LogicalBranch => b.tally e.state e.started (age a.asOf))
      ProtocolObservation.plus_zero
      ProtocolObservation.plus_plus (fun _ _ h => h) ?_ hshown hstart
    rintro s ⟨state, half, final, halfAt, finalAt⟩ b hs hb
    obtain rfl := hb.state
    obtain rfl := hb.halfAt
    obtain rfl := hb.finalAt
    rw [← hs]
    exact branch_ok s e.state e.started b hb.half hb.final
  unfold observeDocument
  rw [hd.state, hd.started, hd.lease, execution_ok ha]
  simp only [bind, Except.bind]
  rw [LogicalExecution.witnesses, ← (hperm.map _).sum_eq, ← ProtocolObservation.plus_plus,
    ← ProtocolObservation.plus_plus]
  by_cases hempty : e.branches = []
  · rw [if_pos (hnone.mpr hempty), if_pos hempty, ProtocolObservation.plus_conflict]
    exact hbranches _ rfl
  · rw [if_neg (hnone.not.mpr hempty), if_neg hempty, ProtocolObservation.plus_zero]
    exact hbranches _ rfl

theorem observeDocuments_ok (store : Binding) {now : Nat} (hnow : 0 < now)
    {es es' : List LogicalExecution} {docs : List ExecutionView}
    (hdocs : List.Forall₂ Documents docs es') (hperm : es'.Perm es) :
    observeDocuments store (some ⟨store.storeID, store.writerEpoch, schemaVersion, now⟩) docs =
      .ok (ProtocolObservation.plus { asOf := now }
        (es.map fun e => e.tally (age now) + e.witnesses (age now)).sum) := by
  have hfold := foldlM_sum (t := fun e => e.tally (age now) + e.witnesses (age now))
    (I := fun a : ProtocolObservation => a.asOf = now) ProtocolObservation.plus_zero
    ProtocolObservation.plus_plus (fun _ _ h => h)
    (by rintro a d e rfl hd; exact observeDocument_ok hnow hd) hdocs (s := { asOf := now }) rfl
  unfold observeDocuments
  simp [bind, Except.bind, refuseIf, hnow.ne', hfold, (hperm.map _).sum_eq]

/-! ## Every execution once -/

theorem sum_ite_least {α κ M : Type} [LinearOrder κ] [AddCommMonoid M] (key : α → κ) {l : List α}
    (hl : l ≠ []) (hnodup : (l.map key).Nodup) (t : M) :
    (l.map fun a => if ∀ c ∈ l, key a ≤ key c then t else 0).sum = t := by
  obtain ⟨m, hm⟩ : ∃ m, l.argmin key = some m :=
    Option.ne_none_iff_exists'.mp (mt argmin_eq_none.mp hl)
  have hmem : m ∈ l := argmin_mem hm
  have hleast : ∀ c ∈ l, key m ≤ key c := fun c hc => le_of_mem_argmin hc hm
  obtain ⟨before, after, rfl⟩ := append_of_mem hmem
  have hother : ∀ a ∈ before ++ after, ¬ ∀ c ∈ before ++ m :: after, key a ≤ key c := by
    intro a ha hall
    have hsame : key a = key m :=
      le_antisymm (hall m hmem) (hleast a (by simp at ha ⊢; tauto))
    simp only [map_append, map_cons, nodup_append, nodup_cons,
      List.mem_map, List.mem_cons] at hnodup
    rcases mem_append.mp ha with ha | ha
    · exact hnodup.2.2 _ ⟨a, ha, rfl⟩ _ (.inl rfl) hsame
    · exact hnodup.2.1.1 ⟨a, ha, hsame⟩
  have hzero : ∀ part : List α, (∀ a ∈ part, a ∈ before ++ after) →
      (part.map fun a => if ∀ c ∈ before ++ m :: after, key a ≤ key c then t else 0).sum = 0 := by
    intro part hpart
    apply sum_eq_zero
    intro x hx
    obtain ⟨a, ha, rfl⟩ := List.mem_map.mp hx
    exact if_neg (hother a (hpart a ha))
  rw [map_append, sum_append, map_cons, sum_cons, if_pos hleast,
    hzero before (fun a ha => mem_append_left _ ha),
    hzero after (fun a ha => mem_append_right _ ha), zero_add, add_zero]

theorem toNat_map_injective : Function.Injective (List.map UInt8.toNat) :=
  map_injective_iff.mpr fun _ _ h => UInt8.toNat_inj.mp h

theorem sum_first {e : LogicalExecution} (he : e.branches ≠ []) (t : Tally) :
    (e.branches.map fun b => if e.isFirst b then t else 0).sum = t := by
  have hnodup : (e.branches.map fun b => b.key.map UInt8.toNat).Nodup := by
    have := e.branches_nodup.map toNat_map_injective
    rwa [List.map_map] at this
  have hsum := sum_ite_least (fun b : LogicalBranch => b.key.map UInt8.toNat) he hnodup t
  simpa [LogicalExecution.isFirst] using hsum

theorem sum_joined_one (e : LogicalExecution) (age : Nat → Nat) :
    ((e.joined.map fun b => (some (e, b) : Joined)).map (Joined.tally age)).sum =
      e.tally age + e.witnesses age := by
  unfold LogicalExecution.joined LogicalExecution.witnesses
  by_cases hempty : e.branches = []
  · simp [hempty, Joined.tally]
  · simp only [hempty, if_false, List.map_map, Function.comp_def, Joined.tally, zero_add]
    rw [List.sum_map_add, sum_first hempty]

/-- The join adds up to the executions, each with its witnesses. -/
theorem sum_joined (es : List LogicalExecution) (age : Nat → Nat) :
    ((joined es).map (Joined.tally age)).sum =
      (es.map fun e => e.tally age + e.witnesses age).sum := by
  unfold joined
  by_cases hes : es = []
  · simp [hes, Joined.tally]
  · rw [if_neg hes]
    clear hes
    induction es with
    | nil => rfl
    | cons e es ih =>
      rw [flatMap_cons, map_append, sum_append, sum_joined_one, ih, map_cons, sum_cons]

/-! ## The observation -/

def witnessesOf (es : List LogicalExecution) : List (LogicalExecution × LogicalBranch) :=
  es.flatMap fun e => e.branches.map fun b => (e, b)

def greatest (ages : List Nat) : Nat := ages.foldr max 0

/-- What there is to observe at `now`. -/
def observation (now : Nat) (es : List LogicalExecution) : ProtocolObservation where
  asOf := now
  reservedExecutions := es.countP fun e => e.state = .prepared && !e.started
  preparingExecutions := es.countP fun e => e.state = .prepared && e.started
  preparedExpiryAge :=
    greatest ((es.filter fun e => e.state = .prepared && e.started).map fun e => now - e.lease)
  confirmationGapBranches := (witnessesOf es).countP fun x => x.2.gap x.1.state
  oldestConfirmationObservationAge :=
    greatest (((witnessesOf es).filter fun x => x.2.gap x.1.state).filterMap fun x =>
      x.2.heardAt.map fun time => now - time)
  unagedConfirmationGapBranches :=
    (witnessesOf es).countP fun x => x.2.gap x.1.state && x.2.heardAt.isNone
  untrackedAbortedBranches := (witnessesOf es).countP fun x => x.2.untracked x.1.state x.1.started
  unobservedCommittedBranches := (witnessesOf es).countP fun x => x.2.unobserved x.1.state
  metadataConflicts :=
    es.countP (fun e => e.branches.isEmpty) + (witnessesOf es).countP fun x =>
      x.2.conflicts x.1.state

/-- The same with its ages stopped at `cap`. -/
def ProtocolObservation.agesUpTo (o : ProtocolObservation) (cap : Nat → Nat) :
    ProtocolObservation :=
  { o with
    preparedExpiryAge := cap o.preparedExpiryAge
    oldestConfirmationObservationAge := cap o.oldestConfirmationObservationAge }

/-- An observation with the ages that Go can express. -/
def ProtocolObservation.capped (o : ProtocolObservation) : ProtocolObservation :=
  o.agesUpTo fun age => min age maxDuration

theorem sum_apart (age : Nat → Nat) (es : List LogicalExecution) :
    (es.map fun e => e.tally age + e.witnesses age).sum =
      (es.map fun e => e.tally age +
        { metadataConflicts := if e.branches.isEmpty then 1 else 0 }).sum +
      ((witnessesOf es).map fun x => x.2.tally x.1.state x.1.started age).sum := by
  induction es with
  | nil => rfl
  | cons e es ih =>
    have hwitnesses : e.witnesses age = { metadataConflicts := if e.branches.isEmpty then 1 else 0 } +
        ((e.branches.map fun b => (e, b)).map fun x => x.2.tally x.1.state x.1.started age).sum := by
      rw [LogicalExecution.witnesses, List.map_map]
      congr 1
      by_cases hempty : e.branches = [] <;> simp [hempty, Tally.zero_def]
    have hcons : witnessesOf (e :: es) = (e.branches.map fun b => (e, b)) ++ witnessesOf es :=
      flatMap_cons
    rw [map_cons, sum_cons, ih, map_cons, sum_cons, hcons, map_append, sum_append, hwitnesses]
    abel

section Totals

variable (cap : Nat → Nat) (zero : cap 0 = 0) (grows : ∀ a b, cap (max a b) = max (cap a) (cap b))

include zero grows

theorem sum_witnesses (now : Nat) (l : List (LogicalExecution × LogicalBranch)) :
    (l.map fun x => x.2.tally x.1.state x.1.started fun time => cap (now - time)).sum =
      { confirmationGapBranches := l.countP fun x => x.2.gap x.1.state
        oldestConfirmationObservationAge :=
          cap (greatest ((l.filter fun x => x.2.gap x.1.state).filterMap fun x =>
            x.2.heardAt.map fun time => now - time))
        unagedConfirmationGapBranches :=
          l.countP fun x => x.2.gap x.1.state && x.2.heardAt.isNone
        untrackedAbortedBranches := l.countP fun x => x.2.untracked x.1.state x.1.started
        unobservedCommittedBranches := l.countP fun x => x.2.unobserved x.1.state
        metadataConflicts := l.countP fun x => x.2.conflicts x.1.state } := by
  induction l with
  | nil => simp [greatest, zero, Tally.zero_def]
  | cons x l ih =>
    rw [map_cons, sum_cons, ih]
    ext <;> simp only [Tally.add_eq, Tally.add, LogicalBranch.tally, countP_cons, Nat.add_comm]
    · simp
    · cases hgap : x.2.gap x.1.state <;> cases hheard : x.2.heardAt <;>
        simp [hgap, hheard, greatest, grows]

theorem sum_executions (now : Nat) (es : List LogicalExecution) :
    (es.map fun e => e.tally (fun time => cap (now - time)) +
        { metadataConflicts := if e.branches.isEmpty then 1 else 0 }).sum =
      { reservedExecutions := es.countP fun e => e.state = .prepared && !e.started
        preparingExecutions := es.countP fun e => e.state = .prepared && e.started
        preparedExpiryAge :=
          cap (greatest ((es.filter fun e => e.state = .prepared && e.started).map fun e =>
            now - e.lease))
        metadataConflicts := es.countP fun e => e.branches.isEmpty } := by
  induction es with
  | nil => simp [greatest, zero, Tally.zero_def]
  | cons e es ih =>
    rw [map_cons, sum_cons, ih]
    ext <;> simp only [Tally.add_eq, Tally.add, LogicalExecution.tally, countP_cons,
      Nat.add_comm, Nat.add_zero, Nat.zero_add, Nat.max_zero]
    cases hpreparing : (e.state = .prepared && e.started : Bool) <;>
      simp [hpreparing, greatest, grows]

theorem sum_observation (now : Nat) (es : List LogicalExecution) :
    ProtocolObservation.plus { asOf := now }
        (es.map fun e => e.tally (fun time => cap (now - time)) +
          e.witnesses fun time => cap (now - time)).sum =
      (observation now es).agesUpTo cap := by
  rw [sum_apart, sum_executions cap zero grows, sum_witnesses cap zero grows]
  simp [ProtocolObservation.plus, Tally.add_eq, Tally.add, observation,
    ProtocolObservation.agesUpTo]

end Totals

theorem age_eq {now time : Nat} (htime : 0 < time) :
    age now time = min (now - time) maxDuration := by
  unfold age
  split
  · omega
  · rfl

/-- Stored times are not the zero time, so only Go's ceiling tells the two ages apart. -/
theorem tally_age (now : Nat) (e : LogicalExecution) :
    e.tally (age now) + e.witnesses (age now) =
      e.tally (fun time => min (now - time) maxDuration) +
        e.witnesses fun time => min (now - time) maxDuration := by
  have hbranch : ∀ b : LogicalBranch, b.tally e.state e.started (age now) =
      b.tally e.state e.started fun time => min (now - time) maxDuration := by
    intro b
    unfold LogicalBranch.tally
    cases hheard : b.heardAt with
    | none => rfl
    | some time => simp only [Option.elim_some, age_eq (b.heardAt_pos time hheard)]
  simp only [LogicalExecution.tally, LogicalExecution.witnesses, age_eq e.lease_pos, hbranch]

/-- Whatever order the rows or the documents come in, the two Go stores and the Python one report
the observation of the executions: each counted once however many witnesses it has, and one without
witnesses as one conflict. Only the ages differ, by Go's ceiling on a duration. -/
theorem observations_agree (store : Binding) {now : Nat} (hnow : 0 < now)
    (es : List LogicalExecution) :
    (∀ rows, rows.Perm (joinRows store now es) →
      observeJoin store rows = .ok (observation now es).capped ∧
        Python.observeJoin store rows = .ok (observation now es)) ∧
    ∀ docs es', es'.Perm es → List.Forall₂ Documents docs es' →
      observeDocuments store (some ⟨store.storeID, store.writerEpoch, schemaVersion, now⟩) docs =
        .ok (observation now es).capped := by
  have hgo := sum_observation (fun age => min age maxDuration) (Nat.zero_min _)
    (fun a b => min_max_distrib_right a b maxDuration) now es
  have hpython := sum_observation (fun age => age) rfl (fun _ _ => rfl) now es
  refine ⟨fun rows hrows => ⟨?_, ?_⟩, fun docs es' hperm hdocs => ?_⟩
  · rw [observeJoin_ok store hnow hrows, sum_joined]
    simp only [tally_age]
    exact congrArg _ hgo
  · rw [Python.observeJoin_ok store hrows, sum_joined]
    exact congrArg _ hpython
  · rw [observeDocuments_ok store hnow hdocs hperm]
    simp only [tally_age]
    exact congrArg _ hgo

namespace Sample

def store : Binding := ⟨"shop", "primary", "epoch-1"⟩

def waiting (key : UInt8) : LogicalBranch where
  key := [key]
  state := .prepared
  half := .prepared
  final := .notAttempted
  halfAt := some 3
  finalAt := none
  halfAt_pos := by simp
  finalAt_pos := by simp

def preparing : LogicalExecution where
  key := [1]
  state := .prepared
  started := true
  lease := 4
  lease_pos := by decide
  branches := [waiting 2, waiting 1]
  branches_nodup := by decide

end Sample

open Sample

theorem observations_agree_preparing :
    observeJoin store (joinRows store 9 [preparing]).reverse =
      .ok { asOf := 9, preparingExecutions := 1, preparedExpiryAge := 5 } :=
  ((observations_agree store (show 0 < 9 by decide) [preparing]).1 _
    (reverse_perm _)).1

end ReliableMessaging.Observation
