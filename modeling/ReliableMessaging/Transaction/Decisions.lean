import ReliableMessaging.Encoding.GoStrings
import ReliableMessaging.Python.Store

/-!
# What decides a local outcome

`DecideLocal` compares every reference with the first one only and stops at the
first evidence that does not fit. What it decides is said here without order:
every reference is valid, any two share their execution, and each has its own
witness, with both states the decided one (`Witnessed`). So the order of the
branches does not matter, and the set of decisions that Python's `decide_local`
builds comes to the same.
-/

namespace ReliableMessaging.Transaction

open List Sample

/-! ## On Go's strings -/

namespace Raw

structure Reference where
  owner : Bytes
  scope : Bytes
  operationID : Bytes
  branchID : Bytes
  messageID : Bytes
  logicalTopic : Bytes
  physicalTopic : Bytes
  routeRevision : Bytes
  writerEpoch : Bytes
  planDigest : Bytes
  wireHash : Bytes
  messageFingerprint : Bytes
  fence : Nat
deriving DecidableEq

def required (values : List Bytes) : Bool := values.all fun v => v ≠ [] && Json.validString v

def Reference.valid (r : Reference) : Bool :=
  0 < r.fence && r.fence ≤ maxFence &&
    required [r.owner, r.scope, r.operationID, r.branchID, r.messageID, r.logicalTopic,
      r.physicalTopic, r.routeRevision, r.writerEpoch]

structure Evidence where
  reference : Reference
  executionState : Bytes
  branchState : Bytes
deriving DecidableEq

def committed : Bytes := utf8 "committed"

def aborted : Bytes := utf8 "aborted"

/-- `Resolve`; a nil pointer is `none`. -/
def resolve (ref : Reference) (evidence : Option Evidence) : Decision :=
  match evidence with
  | none => .unknown
  | some ev =>
    if !ref.valid || ev.reference ≠ ref then .unknown
    else if ev.executionState = committed && ev.branchState = committed then .commit
    else if ev.executionState = aborted && ev.branchState = aborted then .rollback
    else .unknown

/-- The fields two references of one execution share. -/
def Reference.sameExecution (a b : Reference) : Bool :=
  a.owner = b.owner && a.scope = b.scope && a.operationID = b.operationID && a.fence = b.fence &&
    a.writerEpoch = b.writerEpoch && a.planDigest = b.planDigest

/-- The loop of `DecideLocal` over the references after the first. -/
def restDecide (first : Reference) (decision : Decision) :
    List Reference → List (Option Evidence) → Bool
  | ref :: refs, ev :: evidence =>
    ref.sameExecution first && resolve ref ev = decision && restDecide first decision refs evidence
  | _, _ => true

def decideLocal (refs : List Reference) (evidence : List (Option Evidence)) : LocalOutcome :=
  match refs, evidence with
  | ref :: refs, ev :: evidence =>
    if refs.length ≠ evidence.length then .unknown
    else if resolve ref ev = .unknown then .unknown
    else if !restDecide ref (resolve ref ev) refs evidence then .unknown
    else if resolve ref ev = .commit then .committed
    else .aborted
  | _, _ => .unknown

/-! ## Without order -/

variable {st : Bytes} {refs : List Reference} {evidence : List (Option Evidence)}

/-- Every branch of one execution has its own witness, in the state `st`. -/
structure Witnessed (st : Bytes) (refs : List Reference) (evidence : List (Option Evidence)) :
    Prop where
  nonempty : refs ≠ []
  length : refs.length = evidence.length
  valid : ∀ r ∈ refs, r.valid = true
  shared : ∀ a ∈ refs, ∀ b ∈ refs, a.owner = b.owner ∧ a.scope = b.scope ∧
    a.operationID = b.operationID ∧ a.fence = b.fence ∧ a.writerEpoch = b.writerEpoch ∧
    a.planDigest = b.planDigest
  exact : ∀ p ∈ refs.zip evidence, p.2 = some ⟨p.1, st, st⟩

def stateOf : Decision → Option Bytes
  | .unknown => none
  | .commit => some committed
  | .rollback => some aborted

def outcomeOf : Decision → LocalOutcome
  | .unknown => .unknown
  | .commit => .committed
  | .rollback => .aborted

variable {ref : Reference} {ev : Option Evidence} {d : Decision}
variable {l l' : List (Reference × Option Evidence)}

theorem resolve_iff (hst : stateOf d = some st) :
    resolve ref ev = d ↔ ref.valid = true ∧ ev = some ⟨ref, st, st⟩ := by
  have hknown : .unknown ≠ d := by
    rintro rfl
    cases hst
  have hne : committed ≠ aborted := by decide
  cases ev with
  | none => simp [resolve, hknown]
  | some ev =>
    obtain ⟨ref', es, bs⟩ := ev
    by_cases hfits : ref.valid = true ∧ ref' = ref
    · obtain ⟨hvalid, rfl⟩ := hfits
      simp only [resolve, hvalid, Bool.not_true, ne_eq, not_true_eq_false, decide_false,
        Bool.or_self, Bool.false_eq_true, if_false, true_and, Option.some.injEq,
        Evidence.mk.injEq, Bool.and_eq_true, decide_eq_true_eq]
      cases d with
      | unknown => exact absurd rfl hknown
      | commit =>
        cases hst
        split_ifs <;> simp_all
      | rollback =>
        cases hst
        split_ifs <;> simp_all
    · have hguard : (!ref.valid || decide (ref' ≠ ref)) = true := by
        simpa [imp_iff_not_or] using hfits
      rw [resolve, if_pos hguard]
      refine iff_of_false hknown fun ⟨hvalid, heq⟩ => hfits ⟨hvalid, ?_⟩
      exact congrArg Evidence.reference (Option.some.inj heq)

theorem sameExecution_iff {a b : Reference} :
    a.sameExecution b = true ↔ a.owner = b.owner ∧ a.scope = b.scope ∧
      a.operationID = b.operationID ∧ a.fence = b.fence ∧ a.writerEpoch = b.writerEpoch ∧
      a.planDigest = b.planDigest := by
  simp [Reference.sameExecution, and_assoc]

theorem exists_pair {α β : Type} {as : List α} {bs : List β} (h : as.length = bs.length) {a : α}
    (ha : a ∈ as) : ∃ p ∈ as.zip bs, p.1 = a := by
  have hmem : a ∈ (as.zip bs).map Prod.fst := by
    rwa [map_fst_zip h.le]
  exact mem_map.mp hmem

theorem restDecide_iff {first : Reference} :
    restDecide first d refs evidence = true ↔
      ∀ p ∈ refs.zip evidence, p.1.sameExecution first = true ∧ resolve p.1 p.2 = d := by
  induction refs generalizing evidence with
  | nil => simp [restDecide]
  | cons ref refs ih =>
    cases evidence with
    | nil => simp [restDecide]
    | cons ev evidence => simp [restDecide, ih]

theorem eq_unknown_of_stateOf (h : stateOf d = none) : d = .unknown := by
  cases d with
  | unknown => rfl
  | commit => cases h
  | rollback => cases h

theorem outcomeOf_injective : Function.Injective outcomeOf := by
  intro d d' h
  cases d <;> cases d' <;> first | rfl | cases h

theorem decideLocal_cons :
    decideLocal (ref :: refs) (ev :: evidence) =
      if refs.length = evidence.length ∧ restDecide ref (resolve ref ev) refs evidence = true then
        outcomeOf (resolve ref ev)
      else .unknown := by
  unfold decideLocal
  by_cases hlength : refs.length = evidence.length
  · by_cases hrest : restDecide ref (resolve ref ev) refs evidence = true
    · simp only [hlength, hrest, ne_eq, not_true_eq_false, if_false, and_self, if_true,
        Bool.not_true, Bool.false_eq_true]
      cases resolve ref ev <;> rfl
    · simp [hrest]
  · simp [hlength]

/-- The loop, with the first reference like the others. -/
theorem decideLocal_iff (hst : stateOf d = some st) :
    decideLocal refs evidence = outcomeOf d ↔ refs.length = evidence.length ∧
      ∃ first ∈ refs.head?, ∀ p ∈ refs.zip evidence,
        p.1.sameExecution first = true ∧ resolve p.1 p.2 = d := by
  have hunknown : LocalOutcome.unknown ≠ outcomeOf d := by
    intro h
    cases outcomeOf_injective (show outcomeOf .unknown = outcomeOf d from h)
    cases hst
  cases refs with
  | nil => simp [decideLocal, hunknown]
  | cons ref refs =>
    cases evidence with
    | nil => simp [decideLocal, hunknown]
    | cons ev evidence =>
      have hself : ref.sameExecution ref = true := sameExecution_iff.mpr (by simp)
      simp only [length_cons, Nat.add_right_cancel_iff, List.head?_cons, Option.mem_some_iff,
        exists_eq_left', zip_cons_cons, forall_mem_cons, hself, true_and]
      rw [← restDecide_iff, decideLocal_cons]
      split
      next hdecided =>
        rw [outcomeOf_injective.eq_iff]
        constructor
        · rintro rfl
          exact ⟨hdecided.1, rfl, hdecided.2⟩
        · exact fun h => h.2.1
      next hundecided =>
        refine iff_of_false hunknown ?_
        rintro ⟨hlength, rfl, hrest⟩
        exact hundecided ⟨hlength, hrest⟩

theorem decideLocal_eq_iff (hst : stateOf d = some st) :
    decideLocal refs evidence = outcomeOf d ↔ Witnessed st refs evidence := by
  rw [decideLocal_iff hst]
  constructor
  · rintro ⟨hlength, first, hfirst, hall⟩
    have hsame : ∀ r ∈ refs, r.sameExecution first = true := by
      intro r hr
      obtain ⟨p, hp, rfl⟩ := exists_pair hlength hr
      exact (hall p hp).1
    refine ⟨?_, hlength, fun r hr => ?_, fun a ha b hb => ?_, fun p hp => ?_⟩
    · rintro rfl
      cases hfirst
    · obtain ⟨p, hp, rfl⟩ := exists_pair hlength hr
      exact ((resolve_iff hst).mp (hall p hp).2).1
    · have hfirst := sameExecution_iff.mp (hsame a ha)
      have hfirst' := sameExecution_iff.mp (hsame b hb)
      exact ⟨hfirst.1.trans hfirst'.1.symm, hfirst.2.1.trans hfirst'.2.1.symm,
        hfirst.2.2.1.trans hfirst'.2.2.1.symm, hfirst.2.2.2.1.trans hfirst'.2.2.2.1.symm,
        hfirst.2.2.2.2.1.trans hfirst'.2.2.2.2.1.symm,
        hfirst.2.2.2.2.2.trans hfirst'.2.2.2.2.2.symm⟩
    · exact ((resolve_iff hst).mp (hall p hp).2).2
  · intro h
    obtain ⟨first, rest, rfl⟩ := exists_cons_of_ne_nil h.nonempty
    refine ⟨h.length, first, rfl, fun p hp => ?_⟩
    have hmem : p.1 ∈ first :: rest := (of_mem_zip hp).1
    exact ⟨sameExecution_iff.mpr (h.shared p.1 hmem first mem_cons_self),
      (resolve_iff hst).mpr ⟨h.valid p.1 hmem, h.exact p hp⟩⟩

theorem decideLocal_known (refs : List Reference) (evidence : List (Option Evidence)) :
    ∃ d, decideLocal refs evidence = outcomeOf d := by
  cases refs with
  | nil => exact ⟨.unknown, rfl⟩
  | cons ref refs =>
    cases evidence with
    | nil => exact ⟨.unknown, rfl⟩
    | cons ev evidence =>
      rw [decideLocal_cons]
      split
      · exact ⟨_, rfl⟩
      · exact ⟨.unknown, rfl⟩

theorem witnessed_perm (hperm : l.Perm l') (h : Witnessed st (l.map Prod.fst) (l.map Prod.snd)) :
    Witnessed st (l'.map Prod.fst) (l'.map Prod.snd) := by
  have hrefs := hperm.map Prod.fst
  refine ⟨fun hnil => h.nonempty ?_, by simp, fun r hr => h.valid r (hrefs.mem_iff.mpr hr),
    fun a ha b hb => h.shared a (hrefs.mem_iff.mpr ha) b (hrefs.mem_iff.mpr hb), fun p hp => ?_⟩
  · rw [hnil] at hrefs
    exact hrefs.eq_nil
  · refine h.exact p ?_
    rw [zip_map'] at hp ⊢
    simp only [Prod.mk.eta, map_id'] at hp ⊢
    exact hperm.mem_iff.mpr hp

theorem decideLocal_perm (hperm : l.Perm l') :
    decideLocal (l.map Prod.fst) (l.map Prod.snd) =
      decideLocal (l'.map Prod.fst) (l'.map Prod.snd) := by
  obtain ⟨d, hd⟩ := decideLocal_known (l.map Prod.fst) (l.map Prod.snd)
  obtain ⟨d', hd'⟩ := decideLocal_known (l'.map Prod.fst) (l'.map Prod.snd)
  cases hst : stateOf d with
  | some st =>
    rw [hd, (decideLocal_eq_iff hst).mpr (witnessed_perm hperm ((decideLocal_eq_iff hst).mp hd))]
  | none =>
    cases hst' : stateOf d' with
    | some st =>
      rw [hd', (decideLocal_eq_iff hst').mpr
        (witnessed_perm hperm.symm ((decideLocal_eq_iff hst').mp hd'))]
    | none =>
      rw [hd, hd', eq_unknown_of_stateOf hst, eq_unknown_of_stateOf hst']

end Raw

/-! ## Text as Go's strings -/

def Reference.raw (r : Reference) : Raw.Reference where
  owner := utf8 r.owner
  scope := utf8 r.scope
  operationID := utf8 r.operationID
  branchID := utf8 r.branchID
  messageID := utf8 r.messageID
  logicalTopic := utf8 r.logicalTopic
  physicalTopic := utf8 r.physicalTopic
  routeRevision := utf8 r.routeRevision
  writerEpoch := utf8 r.writerEpoch
  planDigest := r.planDigest
  wireHash := r.wireHash
  messageFingerprint := r.messageFingerprint
  fence := r.fence

def State.raw : State → Bytes
  | .prepared => utf8 "prepared"
  | .committed => Raw.committed
  | .aborted => Raw.aborted

def Evidence.raw (ev : Evidence) : Raw.Evidence :=
  ⟨ev.reference.raw, ev.executionState.raw, ev.branchState.raw⟩

theorem Reference.raw_injective : Function.Injective Reference.raw := by
  intro a b h
  cases a
  cases b
  simpa [Reference.raw, utf8_injective.eq_iff] using h

theorem State.raw_injective : Function.Injective State.raw := by
  intro a b h
  cases a <;> cases b <;> first | rfl | exact absurd h (by decide)

theorem Reference.valid_raw (r : Reference) : r.raw.valid = r.valid := by
  have hrequired : ∀ values : List String,
      Raw.required (values.map utf8) = required values := by
    intro values
    have hvalid : ∀ s, Json.validString (utf8 s) = true := fun s =>
      Json.validString_iff.mpr ⟨s, rfl⟩
    induction values with
    | nil => rfl
    | cons v values ih =>
      simp_all [Raw.required, required, utf8_eq_nil]
  exact congrArg (_ && ·) (hrequired [_, _, _, _, _, _, _, _, _])

theorem resolve_raw (r : Reference) (ev : Option Evidence) :
    Raw.resolve r.raw (ev.map Evidence.raw) = resolve r ev := by
  cases ev with
  | none => rfl
  | some ev =>
    simp [Raw.resolve, resolve, Evidence.raw, r.valid_raw, Reference.raw_injective.eq_iff,
      State.raw_injective.eq_iff, show Raw.committed = State.committed.raw from rfl, show
      Raw.aborted = State.aborted.raw from rfl]

theorem Reference.sameExecution_raw (a b : Reference) :
    a.raw.sameExecution b.raw = a.sameExecution b := by
  rw [Bool.eq_iff_iff, Raw.sameExecution_iff]
  simp [Reference.sameExecution, Reference.raw, utf8_injective.eq_iff, and_assoc]

/-- On text, `DecideLocal` is what the other modules have. -/
theorem decideLocal_raw (refs : List Reference) (evidence : List (Option Evidence)) :
    Raw.decideLocal (refs.map Reference.raw) (evidence.map (Option.map Evidence.raw)) =
      decideLocal refs evidence := by
  have hrest : ∀ first d (refs : List Reference) (evidence : List (Option Evidence)),
      Raw.restDecide first.raw d (refs.map Reference.raw) (evidence.map (Option.map Evidence.raw)) =
        restDecide first d refs evidence := by
    intro first d refs
    induction refs with
    | nil => exact fun _ => rfl
    | cons ref refs ih =>
      intro evidence
      cases evidence with
      | nil => rfl
      | cons ev evidence =>
        simp [Raw.restDecide, restDecide, ref.sameExecution_raw, resolve_raw, ih]
  cases refs with
  | nil => rfl
  | cons ref refs =>
    cases evidence with
    | nil => rfl
    | cons ev evidence =>
      simp [Raw.decideLocal, decideLocal, resolve_raw, hrest]

/-! ## Python's set of decisions -/

theorem python_resolve {r : Reference} (hvalid : r.valid = true) (ev : Option Evidence) :
    Python.resolve r ev = resolve r ev := by
  cases ev with
  | none => rfl
  | some ev => simp [Python.resolve, resolve, hvalid]

/-- `decide_local`, as a comparison with the first reference and its decision. -/
theorem python_decideLocal_cons {ref : Reference} {ev : Option Evidence} {refs : List Reference}
    {evidence : List (Option Evidence)} :
    Python.decideLocal (ref :: refs) (ev :: evidence) =
      if refs.length = evidence.length ∧ ∀ p ∈ refs.zip evidence,
          p.1.sameExecution ref = true ∧ Python.resolve p.1 p.2 = Python.resolve ref ev then
        Raw.outcomeOf (Python.resolve ref ev)
      else .unknown := by
  have hdecisions : List.zipWith Python.resolve refs evidence =
      (refs.zip evidence).map fun p => Python.resolve p.1 p.2 :=
    (map_zip_eq_zipWith (f := fun p => Python.resolve p.1 p.2)).symm
  have hall : ∀ d, (List.zipWith Python.resolve (ref :: refs) (ev :: evidence)).all (· = d) = true ↔
      Python.resolve ref ev = d ∧ ∀ p ∈ refs.zip evidence, Python.resolve p.1 p.2 = d := by
    intro d
    rw [zipWith_cons_cons, hdecisions]
    simp
  have hother : ∀ d, Python.resolve ref ev ≠ d →
      ¬ (List.zipWith Python.resolve (ref :: refs) (ev :: evidence)).all (· = d) = true :=
    fun d hd h => hd ((hall d).mp h).1
  simp only [Python.decideLocal, length_cons, Nat.add_right_cancel_iff, ne_eq]
  split
  next hlength =>
    rw [if_neg fun h => hlength h.1]
  next hlength =>
    have hlength := not_not.mp hlength
    split
    next hguard =>
      rw [if_neg]
      rintro ⟨-, hpairs⟩
      obtain ⟨r, hr, hsame⟩ := any_eq_true.mp hguard
      obtain ⟨p, hp, rfl⟩ := Raw.exists_pair hlength hr
      rw [(hpairs p hp).1] at hsame
      cases hsame
    next hguard =>
      have hsame : ∀ p ∈ refs.zip evidence, p.1.sameExecution ref = true := fun p hp => by
        simpa using fun h => hguard (any_eq_true.mpr ⟨p.1, (of_mem_zip hp).1, h⟩)
      by_cases hrest : ∀ p ∈ refs.zip evidence, Python.resolve p.1 p.2 = Python.resolve ref ev
      · have hright : refs.length = evidence.length ∧ ∀ p ∈ refs.zip evidence,
            p.1.sameExecution ref = true ∧ Python.resolve p.1 p.2 = Python.resolve ref ev :=
          ⟨hlength, fun p hp => ⟨hsame p hp, hrest p hp⟩⟩
        have hunanimous := (hall _).mpr ⟨rfl, hrest⟩
        refine Eq.trans ?_ (if_pos hright).symm
        cases hd : Python.resolve ref ev with
        | unknown =>
          rw [if_neg (hother _ (by simp [hd])), if_neg (hother _ (by simp [hd]))]
          rfl
        | commit =>
          rw [if_pos (hd ▸ hunanimous)]
          rfl
        | rollback =>
          rw [if_neg (hother _ (by simp [hd])), if_pos (hd ▸ hunanimous)]
          rfl
      · have hmixed : ∀ d, ¬ (List.zipWith Python.resolve (ref :: refs) (ev :: evidence)).all
            (· = d) = true := by
          rintro d hd
          obtain ⟨rfl, hd⟩ := (hall d).mp hd
          exact hrest hd
        rw [if_neg (hmixed _), if_neg (hmixed _), if_neg fun h => hrest fun p hp => (h.2 p hp).2]

theorem python_decideLocal {refs : List Reference} (hvalid : ∀ r ∈ refs, r.valid = true)
    (evidence : List (Option Evidence)) :
    Python.decideLocal refs evidence =
      Raw.decideLocal (refs.map Reference.raw) (evidence.map (Option.map Evidence.raw)) := by
  cases refs with
  | nil => rfl
  | cons ref refs =>
    cases evidence with
    | nil => simp [Python.decideLocal, Raw.decideLocal]
    | cons ev evidence =>
      have hresolve : ∀ r ∈ ref :: refs, ∀ ev', Python.resolve r ev' =
          Raw.resolve r.raw (ev'.map Evidence.raw) := fun r hr ev' => by
        rw [python_resolve (hvalid r hr), resolve_raw]
      have hpairs : ∀ p ∈ refs.zip evidence, p.1 ∈ ref :: refs :=
        fun p hp => mem_cons_of_mem _ (of_mem_zip hp).1
      rw [python_decideLocal_cons, map_cons, map_cons, Raw.decideLocal_cons,
        hresolve ref mem_cons_self ev]
      refine if_congr ?_ rfl rfl
      rw [Raw.restDecide_iff, length_map, length_map, zip_map, forall_mem_map]
      refine and_congr_right fun _ => forall₂_congr fun p hp => ?_
      rw [hresolve p.1 (hpairs p hp), ← Reference.sameExecution_raw]
      rfl

/-- `DecideLocal` decides commitment, or abortion, exactly when every branch of one execution has
its own witness in that state; the order of the branches does not matter; and on valid references
Python decides the same. -/
theorem local_decision_characterized :
    (∀ refs evidence,
      (Raw.decideLocal refs evidence = .committed ↔ Raw.Witnessed Raw.committed refs evidence) ∧
      (Raw.decideLocal refs evidence = .aborted ↔ Raw.Witnessed Raw.aborted refs evidence)) ∧
    (∀ l l' : List (Raw.Reference × Option Raw.Evidence), l.Perm l' →
      Raw.decideLocal (l.map Prod.fst) (l.map Prod.snd) =
        Raw.decideLocal (l'.map Prod.fst) (l'.map Prod.snd)) ∧
    ∀ (refs : List Reference) (evidence : List (Option Evidence)),
      (∀ r ∈ refs, r.valid = true) →
      Raw.decideLocal (refs.map Reference.raw) (evidence.map (Option.map Evidence.raw)) =
        Python.decideLocal refs evidence := by
  refine ⟨fun refs evidence => ⟨?_, ?_⟩, fun l l' hperm => Raw.decideLocal_perm hperm, ?_⟩
  · exact Raw.decideLocal_eq_iff (d := .commit) rfl
  · exact Raw.decideLocal_eq_iff (d := .rollback) rfl
  · exact fun refs evidence hvalid => (python_decideLocal hvalid evidence).symm

def Sample.branches : List Reference :=
  [reference "x" "k" 1, { reference "x" "k" 1 with branchID := "c" }]

def Sample.aborted : List (Option Evidence) := branches.map fun r => some ⟨r, .aborted, .aborted⟩

/-- Two branches with their witnesses, in Python and in Go. -/
theorem local_decision_characterized_sample :
    Raw.decideLocal (branches.map Reference.raw) (aborted.map (Option.map Evidence.raw)) =
        Python.decideLocal branches aborted ∧
      Python.decideLocal branches aborted = .aborted :=
  ⟨local_decision_characterized.2.2 branches aborted (by decide), by decide +kernel⟩

end ReliableMessaging.Transaction
