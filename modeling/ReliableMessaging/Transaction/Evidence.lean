import ReliableMessaging.Transaction.Plan

/-!
# Evidence and decisions

What a store says about one branch of one execution, and what may be concluded
from it: `Resolve` for one reference, `DecideLocal` for all references of an
execution, `ValidateAdvance` for a retry or a replan. A missing, prepared or
contradictory fact never decides anything; the characterisations below say
exactly what does.
-/

namespace ReliableMessaging.Transaction

inductive State where
  | prepared
  | committed
  | aborted
deriving DecidableEq, Repr

inductive Decision where
  | unknown
  | commit
  | rollback
deriving DecidableEq, Repr

/-- What the authoritative database says about one reference. -/
structure Evidence where
  reference : Reference
  executionState : State
  branchState : State
deriving DecidableEq

/-- `Resolve`; a nil pointer is `none`. -/
def resolve (ref : Reference) (evidence : Option Evidence) : Decision :=
  match evidence with
  | none => .unknown
  | some ev =>
    if !ref.valid || ev.reference ≠ ref then .unknown
    else if ev.executionState = .committed && ev.branchState = .committed then .commit
    else if ev.executionState = .aborted && ev.branchState = .aborted then .rollback
    else .unknown

inductive HalfOutcome where
  | notAttempted
  | prepared
  | rejected
  | unknown
deriving DecidableEq, Repr

inductive LocalOutcome where
  | notStarted
  | committed
  | aborted
  | unknown
deriving DecidableEq, Repr

inductive FinalOutcome where
  | notAttempted
  | commitConfirmed
  | rollbackConfirmed
  | unknown
deriving DecidableEq, Repr

structure Reservation where
  execution : Execution
  acquired : Bool
  state : State
deriving DecidableEq

structure HalfReceipt where
  outcome : HalfOutcome
  brokerMessageID : String
  brokerTransactionID : String
  errorCode : String
deriving DecidableEq

def HalfReceipt.valid (h : HalfReceipt) : Bool :=
  h.brokerMessageID.utf8ByteSize ≤ 512 && h.brokerTransactionID.utf8ByteSize ≤ 4096 &&
    h.errorCode.utf8ByteSize ≤ 128 &&
    match h.outcome with
    | .prepared => required [h.brokerMessageID, h.brokerTransactionID]
    | .unknown | .rejected => true
    | .notAttempted => false

def validFinal (f : FinalOutcome) (code : String) : Bool :=
  code.utf8ByteSize ≤ 128 && f ≠ .notAttempted

/-- `RecoveryFinalState`: only a positive acknowledgement has a state. -/
def recoveryFinalState : FinalOutcome → Except Err State
  | .commitConfirmed => .ok .committed
  | .rollbackConfirmed => .ok .aborted
  | _ => .error .invalidPlan

def matchExecution (H : Sha256) (e : Execution) (ref : Reference) : Bool :=
  e.valid && (e.references H).contains ref

/-- The fields two references of one execution share. -/
def Reference.sameExecution (a b : Reference) : Bool :=
  a.owner = b.owner && a.scope = b.scope && a.operationID = b.operationID && a.fence = b.fence &&
    a.writerEpoch = b.writerEpoch && a.planDigest = b.planDigest

/-- The loop of `DecideLocal` over the references after the first. -/
def restDecide (first : Reference) (decision : Decision) :
    List Reference → List (Option Evidence) → Bool
  | ref :: refs, ev :: evidence =>
    ref.sameExecution first && resolve ref ev = decision && restDecide first decision refs evidence
  | _, _ => true

def decideLocal (refs : List Reference) (evidence : List (Option Evidence)) : LocalOutcome :=
  match refs, evidence with
  | ref :: refs, ev :: evidence =>
    if refs.length ≠ evidence.length then .unknown
    else if resolve ref ev = .unknown then .unknown
    else if !restDecide ref (resolve ref ev) refs evidence then .unknown
    else if resolve ref ev = .commit then .committed
    else .aborted
  | _, _ => .unknown

def validateAdvance (H : Sha256) (previous : Execution) (candidate : FrozenPlan)
    (evidence : List (Option Evidence)) (replan : Bool) : Except Err Unit :=
  if previous.fence = 0 || previous.fence ≥ maxFence || !previous.plan.valid ||
      !candidate.valid then
    .error .invalidPlan
  else match (requestFor previous.plan).match candidate with
    | .error err => .error err
    | .ok () =>
      if decideLocal (previous.references H) evidence ≠ .aborted then .error .staleExecution
      else if replan then
        if candidate.input.operationID = previous.plan.input.operationID then .error .invalidPlan
        else .ok ()
      else if candidate.digest H ≠ previous.plan.digest H then .error .invalidPlan
      else .ok ()

/-! ## What decides -/

/-- The state both rows are in when a decision is reached. -/
def Decision.state : Decision → Option State
  | .unknown => none
  | .commit => some .committed
  | .rollback => some .aborted

variable {ref : Reference} {st : State} {refs : List Reference} {evidence : List (Option Evidence)}
variable {p candidate : FrozenPlan} {H : Sha256} {previous : Execution} {replan : Bool}

/-- A decision is reached only from evidence for exactly this reference with
both states terminal and equal. -/
theorem resolve_spec {evidence : Option Evidence} (h : (resolve ref evidence).state = some st) :
    evidence = some ⟨ref, st, st⟩ ∧ ref.valid = true ∧ st ≠ .prepared := by
  unfold resolve at h
  split at h
  · cases h
  next ev =>
    obtain ⟨evRef, es, bs⟩ := ev
    split at h
    · cases h
    next hguard =>
      simp only [Bool.or_eq_true, Bool.not_eq_true', decide_eq_true_eq, not_or,
        Bool.not_eq_false, ne_eq, not_not] at hguard
      obtain ⟨hvalid, rfl⟩ := hguard
      split at h
      next hc =>
        simp only [Bool.and_eq_true, decide_eq_true_eq] at hc
        obtain ⟨rfl, rfl⟩ := hc
        cases h
        exact ⟨rfl, hvalid, by decide⟩
      · split at h
        next ha =>
          simp only [Bool.and_eq_true, decide_eq_true_eq] at ha
          obtain ⟨rfl, rfl⟩ := ha
          cases h
          exact ⟨rfl, hvalid, by decide⟩
        · cases h

def LocalOutcome.state : LocalOutcome → Option State
  | .committed => some .committed
  | .aborted => some .aborted
  | _ => none

theorem restDecide_spec {first : Reference} {d : Decision} (hd : d.state = some st)
    (hlen : refs.length = evidence.length) (h : restDecide first d refs evidence = true) :
    evidence = refs.map fun r => some ⟨r, st, st⟩ := by
  induction refs generalizing evidence with
  | nil => exact List.length_eq_zero_iff.mp hlen.symm
  | cons r refs ih =>
    cases evidence with
    | nil => cases hlen
    | cons ev evidence =>
      simp only [restDecide, Bool.and_eq_true, decide_eq_true_eq] at h
      obtain ⟨⟨_, hr⟩, hrest⟩ := h
      obtain ⟨hev, _, _⟩ := resolve_spec (hr ▸ hd)
      rw [List.map_cons, hev, ih (Nat.succ.inj hlen) hrest]

theorem decideLocal_known (h : decideLocal refs evidence ≠ .unknown) :
    ∃ st, (decideLocal refs evidence).state = some st := by
  unfold decideLocal at h ⊢
  split at h
  · split_ifs at h ⊢
    · exact absurd rfl h
    · exact absurd rfl h
    · exact absurd rfl h
    · exact ⟨.committed, rfl⟩
    · exact ⟨.aborted, rfl⟩
  · exact absurd rfl h

theorem decideLocal_spec (h : (decideLocal refs evidence).state = some st) :
    refs ≠ [] ∧ st ≠ .prepared ∧ evidence = refs.map fun r => some ⟨r, st, st⟩ := by
  unfold decideLocal at h
  split at h
  next ref refs ev evidence =>
    split at h
    · cases h
    next hlen =>
      split at h
      · cases h
      next hknown =>
        split at h
        · cases h
        next hall =>
          have hd : (resolve ref ev).state = some st := by
            cases hr : resolve ref ev with
            | unknown => exact absurd hr hknown
            | commit => simpa [hr, LocalOutcome.state, Decision.state] using h
            | rollback => simpa [hr, LocalOutcome.state, Decision.state] using h
          obtain ⟨hev, _, hst⟩ := resolve_spec hd
          refine ⟨List.cons_ne_nil _ _, hst, ?_⟩
          have hrest := restDecide_spec hd (not_not.mp hlen) (by simpa using hall)
          rw [List.map_cons, hev, hrest]
  · cases h

theorem matchRequest_eq_ok {owner scope key : String} {hash : Vector UInt8 32}
    (h : p.matchRequest owner scope key hash = .ok ()) :
    p.valid = true ∧ p.input.owner = owner ∧ p.input.scope = scope ∧
      p.input.idempotencyKey = key ∧ p.input.inputHash = hash := by
  unfold FrozenPlan.matchRequest at h
  split at h
  · cases h
  next hid =>
    split at h
    · cases h
    next hhash =>
      simp only [Bool.or_eq_true, Bool.not_eq_true', decide_eq_true_eq, not_or,
        Bool.not_eq_false, ne_eq, not_not] at hid
      exact ⟨hid.1.1.1, hid.1.1.2, hid.1.2, hid.2, not_not.mp hhash⟩

theorem Request.match_eq_ok {r : Request} (h : r.match p = .ok ()) :
    p.valid = true ∧ requestFor p = r := by
  obtain ⟨hv, ho, hs, hk, hh⟩ := matchRequest_eq_ok h
  refine ⟨hv, ?_⟩
  cases r
  simp only [requestFor, Request.mk.injEq]
  exact ⟨ho, hs, hk, hh⟩

/-- An advance is for a durably aborted execution; a retry keeps its plan, and
a replan changes the operation. -/
theorem validateAdvance_eq_ok [H.CollisionFree]
    (h : validateAdvance H previous candidate evidence replan = .ok ()) :
    decideLocal (previous.references H) evidence = .aborted ∧
      (replan = false → candidate = previous.plan) ∧
      (replan = true → candidate.input.operationID ≠ previous.plan.input.operationID) := by
  unfold validateAdvance at h
  split at h
  · cases h
  next hguard =>
    simp only [Bool.or_eq_true, Bool.not_eq_true', decide_eq_true_eq, not_or,
      Bool.not_eq_false] at hguard
    split at h
    · cases h
    · split at h
      · cases h
      next haborted =>
        refine ⟨not_not.mp haborted, fun hr => ?_, fun hr => ?_⟩
        · subst hr
          split at h
          next hfalse =>
            cases hfalse
          · split at h
            · cases h
            next hdigest =>
              exact FrozenPlan.digest_inj hguard.2 hguard.1.2 (not_not.mp hdigest)
        · subst hr
          rw [if_pos rfl] at h
          split at h
          · cases h
          next hop =>
            exact hop

theorem validateAdvance_fence (h : validateAdvance H previous candidate evidence replan = .ok ()) :
    previous.fence + 1 ≤ maxFence := by
  unfold validateAdvance at h
  split at h
  · cases h
  next hguard =>
    simp only [Bool.or_eq_true, decide_eq_true_eq, not_or] at hguard
    exact Nat.lt_of_not_le hguard.1.1.2

theorem matchExecution_spec {e : Execution} (h : matchExecution H e ref = true) :
    e.valid = true ∧ ref ∈ e.references H := by
  simp only [matchExecution, Bool.and_eq_true, List.contains_iff_mem] at h
  exact h

namespace Sample

/-! One small instance of everything, for runs that are computed. -/

def message : Message :=
  (Message.new { producer := "p", id := "m", destination := "t", eventType := "e",
                 schemaVersion := "1", scope := "s", contentType := "c",
                 occurredAt := "2026-01-01T00:00:00Z", payload := [1] }).getD .zero

def plan (operation key : String) : FrozenPlan :=
  (newPlan { owner := "o", scope := "s", operationID := operation, idempotencyKey := key,
             branches := [⟨"b", "t", "r", message, [1]⟩] }).toOption.getD .zero

def store : Store := ⟨⟨"o", "d", "E"⟩, by decide⟩

def options : ReserveOptions := ⟨1000000⟩

def execution (operation key : String) (fence : Nat) : Execution :=
  ⟨plan operation key, fence, "E", 1, 1001000⟩

def reference (operation key : String) (fence : Nat) : Reference :=
  (plan operation key).referenceOf default fence "E" ⟨"b", "t", "r", message, [1]⟩

end Sample

end ReliableMessaging.Transaction
