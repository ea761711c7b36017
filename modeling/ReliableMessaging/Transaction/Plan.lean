import ReliableMessaging.Message

/-!
# Frozen plans, requests and executions

Package `transaction`: what is frozen before the first half message, the keys
under which stores file it, and the references the broker carries.
-/

namespace ReliableMessaging.Transaction

def zeroHash : Bytes := List.replicate 32 0

def maxFence : Nat := 2 ^ 63 - 1
def maxBranches : Nat := 16

/-- The errors of package `transaction` and of its stores. `driver` is every
error of a driver or a context that no store looks into, `noRows` is
`sql.ErrNoRows` and `ErrNoDocuments`, `duplicateKey` what `IsDuplicateKeyError`
recognises. -/
inductive Err where
  | invalidPlan
  | requestIdentity
  | inputConflict
  | staleExecution
  | transactionRequired
  | binding
  | schema
  | notFound
  | noRows
  | duplicateKey
  | driver
deriving DecidableEq, Repr

/-- One original message with its frozen wire bytes (`BranchInput`). -/
structure BranchInput where
  id : String
  physicalTopic : String
  routeRevision : String
  message : Message
  wire : Bytes
deriving DecidableEq

structure PlanInput where
  owner : String := ""
  scope : String := ""
  operationID : String := ""
  idempotencyKey : String := ""
  inputHash : Vector UInt8 32 := Vector.replicate 32 0
  branches : List BranchInput := []
deriving DecidableEq

/-- No text is empty (`required`); a `String` is always valid UTF-8. -/
def required (values : List String) : Bool := values.all (· ≠ "")

/-- The checks of `NewPlan` on one branch, given the ids of the earlier ones. -/
def branchAccepted (scope : String) (ids : List String) (branch : BranchInput) : Bool :=
  branch.id.utf8ByteSize ≤ 128 && branch.physicalTopic.utf8ByteSize ≤ 255 &&
    branch.routeRevision.utf8ByteSize ≤ 128 &&
    required [branch.id, branch.physicalTopic, branch.routeRevision] && !ids.contains branch.id &&
    branch.message.valid && !branch.wire.isEmpty && branch.message.input.scope = scope

def branchesAccepted (scope : String) : List String → List BranchInput → Bool
  | _, [] => true
  | ids, branch :: rest =>
    branchAccepted scope ids branch && branchesAccepted scope (branch.id :: ids) rest

def planAccepted (p : PlanInput) : Bool :=
  required [p.owner, p.scope, p.operationID, p.idempotencyKey] && !p.branches.isEmpty &&
    p.branches.length ≤ maxBranches && p.owner.utf8ByteSize ≤ 128 &&
    p.scope.utf8ByteSize ≤ 255 && p.operationID.utf8ByteSize ≤ 128 &&
    p.idempotencyKey.utf8ByteSize ≤ 1024 && branchesAccepted p.scope [] p.branches

/-- A plan the code can hold: the zero value or one `NewPlan` made. -/
structure FrozenPlan where
  input : PlanInput
  frozen : input = {} ∨ planAccepted input = true
deriving DecidableEq

namespace FrozenPlan

def zero : FrozenPlan := ⟨{}, .inl rfl⟩

def valid (p : FrozenPlan) : Bool := p.input.owner ≠ ""

end FrozenPlan

def newPlan (p : PlanInput) : Except Err FrozenPlan :=
  if h : planAccepted p = true then .ok ⟨p, .inr h⟩ else .error .invalidPlan

/-- What `NewPlan` hashes of one branch. -/
def branchPreimage (H : Sha256) (b : BranchInput) : Bytes :=
  field (utf8 b.id) ++ field (b.message.fingerprint H) ++ field (utf8 b.physicalTopic) ++
    field (utf8 b.routeRevision) ++ field (H.sum b.wire)

/-- What `NewPlan` hashes. -/
def planPreimage (H : Sha256) (p : PlanInput) : Bytes :=
  utf8 "rm-tx-plan-draft-v1\x00" ++ field (utf8 p.owner) ++ field (utf8 p.scope) ++
    field (utf8 p.operationID) ++ field (utf8 p.idempotencyKey) ++ field p.inputHash.toList ++
    field (be64 p.branches.length) ++ p.branches.flatMap (branchPreimage H)

/-- `FrozenPlan.Digest`; the zero plan has the zero digest. -/
def FrozenPlan.digest (H : Sha256) (p : FrozenPlan) : Bytes :=
  if p.valid then H.sum (planPreimage H p.input) else zeroHash

def FrozenPlan.matchRequest (p : FrozenPlan) (owner scope key : String)
    (inputHash : Vector UInt8 32) : Except Err Unit :=
  if !p.valid || p.input.owner ≠ owner || p.input.scope ≠ scope || p.input.idempotencyKey ≠ key then
    .error .requestIdentity
  else if p.input.inputHash ≠ inputHash then .error .inputConflict
  else .ok ()

/-- The root request: what a retry of the business call repeats. -/
structure Request where
  owner : String
  scope : String
  key : String
  inputHash : Vector UInt8 32
deriving DecidableEq

def requestFor (p : FrozenPlan) : Request :=
  ⟨p.input.owner, p.input.scope, p.input.idempotencyKey, p.input.inputHash⟩

namespace Request

def «match» (r : Request) (p : FrozenPlan) : Except Err Unit :=
  p.matchRequest r.owner r.scope r.key r.inputHash

def valid (r : Request) : Bool := required [r.owner, r.scope, r.key]

/-- What `KeyDigest` hashes. -/
def preimage (r : Request) : Bytes :=
  utf8 "rm-tx-request-v1\x00" ++ field (utf8 r.owner) ++ field (utf8 r.scope) ++ field (utf8 r.key)

/-- `Request.KeyDigest`; the input hash is not part of it. -/
def keyDigest (H : Sha256) (r : Request) : Bytes := H.sum r.preimage

end Request

def executionPreimage (owner operation epoch : String) (fence : Nat) : Bytes :=
  utf8 "rm-tx-execution-v1\x00" ++ field (utf8 owner) ++ field (utf8 operation) ++
    field (utf8 epoch) ++ field (be64 fence)

def executionKey (H : Sha256) (owner operation epoch : String) (fence : Nat) : Bytes :=
  H.sum (executionPreimage owner operation epoch fence)

def branchKey (H : Sha256) (id : String) : Bytes := H.sum (utf8 id)

/-- Protocol identity of one branch of one execution. -/
structure Reference where
  owner : String := ""
  scope : String := ""
  operationID : String := ""
  branchID : String := ""
  messageID : String := ""
  logicalTopic : String := ""
  physicalTopic : String := ""
  routeRevision : String := ""
  writerEpoch : String := ""
  planDigest : Bytes := zeroHash
  wireHash : Bytes := zeroHash
  messageFingerprint : Bytes := zeroHash
  fence : Nat := 0
deriving DecidableEq

/-- `Reference.Valid`. -/
def Reference.valid (r : Reference) : Bool :=
  0 < r.fence && r.fence ≤ maxFence &&
    required [r.owner, r.scope, r.operationID, r.branchID, r.messageID, r.logicalTopic,
      r.physicalTopic, r.routeRevision, r.writerEpoch]

/-- The key under which stores file the execution of a reference. -/
def Reference.executionKey (H : Sha256) (r : Reference) : Bytes :=
  Transaction.executionKey H r.owner r.operationID r.writerEpoch r.fence

/-- The reference of one branch at one fence and epoch. -/
def FrozenPlan.referenceOf (H : Sha256) (p : FrozenPlan) (fence : Nat) (epoch : String)
    (b : BranchInput) : Reference where
  owner := p.input.owner
  scope := p.input.scope
  operationID := p.input.operationID
  branchID := b.id
  messageID := b.message.input.id
  logicalTopic := b.message.input.destination
  physicalTopic := b.physicalTopic
  routeRevision := b.routeRevision
  writerEpoch := epoch
  planDigest := p.digest H
  wireHash := H.sum b.wire
  messageFingerprint := b.message.fingerprint H
  fence := fence

/-- `FrozenPlan.Reference`: the first branch with this id. -/
def FrozenPlan.reference (H : Sha256) (p : FrozenPlan) (branchID : String) (fence : Nat)
    (epoch : String) : Except Err Reference :=
  if !p.valid || fence = 0 || fence > maxFence || !required [epoch] then .error .invalidPlan
  else match p.input.branches.find? (·.id = branchID) with
    | some b => .ok (p.referenceOf H fence epoch b)
    | none => .error .invalidPlan

/-- The store identity a client was built with. -/
structure Binding where
  owner : String
  storeID : String
  writerEpoch : String
deriving DecidableEq

/-- What `New` of every store checks of its binding: required, 128 bytes each. -/
def Binding.accepted (b : Binding) : Bool :=
  required [b.owner, b.storeID, b.writerEpoch] && b.owner.utf8ByteSize ≤ 128 &&
    b.storeID.utf8ByteSize ≤ 128 && b.writerEpoch.utf8ByteSize ≤ 128

/-- A store that its constructor accepted; its pool is the engine. -/
structure Store extends Binding where
  accepted : toBinding.accepted = true

theorem Store.epoch_required (s : Store) : required [s.writerEpoch] = true := by
  have h := s.accepted
  simp only [Binding.accepted, required, List.all_cons, List.all_nil, Bool.and_true,
    Bool.and_eq_true] at h ⊢
  exact h.1.1.1.2.2

/-- A capability: 32 random bytes. -/
abbrev Token : Type := BitVec 256

/-- An execution as its winner holds it. Times are nanoseconds since the zero
`time.Time`. -/
structure Execution where
  plan : FrozenPlan
  fence : Nat
  writerEpoch : String
  token : Token
  leaseUntil : Nat
deriving DecidableEq

namespace Execution

def valid (e : Execution) : Bool :=
  e.plan.valid && 0 < e.fence && e.fence ≤ maxFence && required [e.writerEpoch] &&
    e.token ≠ 0 && e.leaseUntil ≠ 0

/-- `Execution.References`: one per branch, in the plan's order. An error of
`Reference` is dropped, as in the source. -/
def references (H : Sha256) (e : Execution) : List Reference :=
  if !e.plan.valid || e.fence = 0 || e.fence > maxFence || !required [e.writerEpoch] then []
  else e.plan.input.branches.map fun b =>
    match e.plan.reference H b.id e.fence e.writerEpoch with
    | .ok r => r
    | .error _ => {}

/-- `key`: the key under which stores file an execution. -/
def key (H : Sha256) (e : Execution) : Bytes :=
  executionKey H e.plan.input.owner e.plan.input.operationID e.writerEpoch e.fence

end Execution

/-- `ReserveOptions`, with the lease in nanoseconds. -/
structure ReserveOptions where
  lease : Nat
deriving DecidableEq

/-- Between a millisecond and a day. -/
def ReserveOptions.valid (o : ReserveOptions) : Bool :=
  1000000 ≤ o.lease && o.lease ≤ 24 * 3600 * 1000000000

/-! ## What acceptance gives -/

section Accepted

variable {p q : FrozenPlan} {b : BranchInput}

theorem FrozenPlan.accepted_of_valid (h : p.valid = true) : planAccepted p.input = true := by
  rcases p.frozen with hz | hp
  · simp only [FrozenPlan.valid, hz, ne_eq, not_true_eq_false, decide_false,
      Bool.false_eq_true] at h
  · exact hp

theorem FrozenPlan.sizes (h : p.valid = true) :
    p.input.owner.utf8ByteSize ≤ 128 ∧ p.input.scope.utf8ByteSize ≤ 255 ∧
      p.input.operationID.utf8ByteSize ≤ 128 ∧ p.input.idempotencyKey.utf8ByteSize ≤ 1024 ∧
      p.input.branches.length ≤ 16 ∧ p.input.branches ≠ [] := by
  have ha := p.accepted_of_valid h
  simp only [planAccepted, Bool.and_eq_true, decide_eq_true_eq, maxBranches, Bool.not_eq_true',
    List.isEmpty_eq_false_iff] at ha
  obtain ⟨⟨⟨⟨⟨⟨⟨_, hne⟩, hlen⟩, howner⟩, hscope⟩, hop⟩, hkey⟩, _⟩ := ha
  exact ⟨howner, hscope, hop, hkey, of_decide_eq_true hlen, hne⟩

theorem FrozenPlan.texts (h : p.valid = true) :
    required [p.input.owner, p.input.scope, p.input.operationID, p.input.idempotencyKey] =
      true := by
  have ha := p.accepted_of_valid h
  simp only [planAccepted, Bool.and_eq_true] at ha
  exact ha.1.1.1.1.1.1.1

/-- The loop of `NewPlan`: every branch passes on its own, the ids are new and
pairwise different. -/
theorem branchesAccepted_spec {scope : String} {bs : List BranchInput} {ids : List String}
    (h : branchesAccepted scope ids bs = true) :
    (∀ b ∈ bs, branchAccepted scope ids b = true) ∧ (bs.map (·.id)).Nodup := by
  induction bs generalizing ids with
  | nil => simp
  | cons b rest ih =>
    simp only [branchesAccepted, Bool.and_eq_true] at h
    obtain ⟨hb, hrest⟩ := h
    obtain ⟨hall, hnodup⟩ := ih hrest
    have hfresh : ∀ c ∈ rest, c.id ≠ b.id ∧ branchAccepted scope ids c = true := by
      intro c hc
      have hc' := hall c hc
      simp only [branchAccepted, Bool.and_eq_true, List.contains_cons, Bool.not_eq_true',
        Bool.or_eq_false_iff, beq_eq_false_iff_ne, decide_eq_true_eq] at hc' ⊢
      tauto
    refine ⟨?_, ?_⟩
    · intro c hc
      rcases List.mem_cons.mp hc with rfl | hc
      · exact hb
      · exact (hfresh c hc).2
    · rw [List.map_cons, List.nodup_cons]
      refine ⟨?_, hnodup⟩
      intro hmem
      obtain ⟨c, hc, hid⟩ := List.mem_map.mp hmem
      exact (hfresh c hc).1 hid

theorem FrozenPlan.branchAccepted_of_mem (h : p.valid = true) (hb : b ∈ p.input.branches) :
    branchAccepted p.input.scope [] b = true := by
  have ha := p.accepted_of_valid h
  simp only [planAccepted, Bool.and_eq_true] at ha
  exact (branchesAccepted_spec ha.2).1 b hb

theorem FrozenPlan.ids_nodup (h : p.valid = true) : (p.input.branches.map (·.id)).Nodup := by
  have ha := p.accepted_of_valid h
  simp only [planAccepted, Bool.and_eq_true] at ha
  exact (branchesAccepted_spec ha.2).2

theorem FrozenPlan.branch_spec (h : p.valid = true) (hb : b ∈ p.input.branches) :
    b.id.utf8ByteSize ≤ 128 ∧ b.physicalTopic.utf8ByteSize ≤ 255 ∧
      b.routeRevision.utf8ByteSize ≤ 128 ∧
      required [b.id, b.physicalTopic, b.routeRevision] = true ∧ b.message.valid = true ∧
      b.wire ≠ [] ∧ b.message.input.scope = p.input.scope := by
  have ha := p.branchAccepted_of_mem h hb
  simp only [branchAccepted, Bool.and_eq_true, decide_eq_true_eq, Bool.not_eq_true',
    List.isEmpty_eq_false_iff] at ha
  tauto

theorem FrozenPlan.find_branch (h : p.valid = true) (hb : b ∈ p.input.branches) :
    p.input.branches.find? (·.id = b.id) = some b := by
  have hnodup := p.ids_nodup h
  generalize p.input.branches = bs at hb hnodup
  induction bs with
  | nil => cases hb
  | cons c rest ih =>
    rw [List.map_cons, List.nodup_cons] at hnodup
    rcases List.mem_cons.mp hb with rfl | hb
    · simp
    · have hne : c.id ≠ b.id := by
        intro heq
        exact hnodup.1 (heq ▸ List.mem_map_of_mem hb)
      rw [List.find?_cons_of_neg (by simpa using hne)]
      exact ih hb hnodup.2

/-- What an execution needs to have references: a plan, a fence and an epoch. -/
structure Execution.Formed (e : Execution) : Prop where
  plan : e.plan.valid = true
  fence : 0 < e.fence ∧ e.fence ≤ maxFence
  epoch : required [e.writerEpoch] = true

variable {e : Execution} {ref : Reference}

theorem Execution.formed_of_valid (h : e.valid = true) : e.Formed := by
  simp only [Execution.valid, Bool.and_eq_true, decide_eq_true_eq] at h
  obtain ⟨⟨⟨⟨⟨hp, hf⟩, hm⟩, he⟩, _⟩, _⟩ := h
  exact ⟨hp, ⟨hf, hm⟩, he⟩

theorem Execution.formed_of_mem {H : Sha256} (h : ref ∈ e.references H) : e.Formed := by
  unfold Execution.references at h
  split at h
  · cases h
  next hguard =>
    simp only [Bool.or_eq_true, Bool.not_eq_true', decide_eq_true_eq, not_or,
      Bool.not_eq_false] at hguard
    obtain ⟨⟨⟨hp, hf⟩, hm⟩, he⟩ := hguard
    exact ⟨hp, ⟨Nat.pos_of_ne_zero hf, Nat.le_of_not_lt hm⟩, he⟩

theorem Execution.references_eq {H : Sha256} (h : e.Formed) :
    e.references H =
      e.plan.input.branches.map (e.plan.referenceOf H e.fence e.writerEpoch) := by
  obtain ⟨hp, ⟨hf, hm⟩, he⟩ := h
  have hguard : (!e.plan.valid || decide (e.fence = 0) || decide (e.fence > maxFence) ||
      !required [e.writerEpoch]) = false := by
    have h0 : e.fence ≠ 0 := by omega
    have h1 : ¬ e.fence > maxFence := by omega
    simp [hp, h0, h1, he]
  unfold Execution.references
  rw [hguard, if_neg (by decide)]
  apply List.map_congr_left
  intro b hb
  simp [FrozenPlan.reference, hguard, e.plan.find_branch hp hb]

theorem Execution.mem_references {H : Sha256} (h : ref ∈ e.references H) :
    ∃ b ∈ e.plan.input.branches,
      e.plan.referenceOf H e.fence e.writerEpoch b = ref := by
  have hm := h
  rw [references_eq (formed_of_mem h)] at hm
  exact List.mem_map.mp hm

end Accepted

/-! ## Keys and digests identify what they are taken of -/

section Injective

variable {H : Sha256}

theorem branchKey_inj [H.CollisionFree] {a b : String} (h : branchKey H a = branchKey H b) : a =
    b :=
  utf8_injective (H.sum_injective h)

/-- The epoch needs no bound: what follows it has a fixed length. -/
theorem executionKey_inj [H.CollisionFree] {o o' op op' ep ep' : String} {f f' : Nat}
    (ho : o.utf8ByteSize ≤ 128) (ho' : o'.utf8ByteSize ≤ 128) (hop : op.utf8ByteSize ≤ 128)
    (hop' : op'.utf8ByteSize ≤ 128) (hf : f ≤ maxFence) (hf' : f' ≤ maxFence)
    (h : executionKey H o op ep f = executionKey H o' op' ep' f') :
    o = o' ∧ op = op' ∧ ep = ep' ∧ f = f' := by
  have hb := H.sum_injective h
  simp only [executionPreimage, List.append_assoc, List.append_cancel_left_eq] at hb
  obtain ⟨e1, hb⟩ := field_append_inj (length_utf8_lt ho (by decide))
    (length_utf8_lt ho' (by decide)) hb
  obtain ⟨e2, hb⟩ := field_append_inj (length_utf8_lt hop (by decide))
    (length_utf8_lt hop' (by decide)) hb
  obtain ⟨h3, h4⟩ := List.append_inj' hb (by simp [length_field, length_be64])
  have hmax : maxFence < 2 ^ 64 := by decide
  exact ⟨utf8_injective e1, utf8_injective e2, utf8_injective (field_inj h3),
    be64_inj (by omega) (by omega) (field_inj h4)⟩

variable {s t : String}

theorem branchPreimage_append_inj [H.CollisionFree] {a b : BranchInput} {x y : Bytes}
    (ha : branchAccepted s [] a = true) (hb : branchAccepted t [] b = true)
    (h : branchPreimage H a ++ x = branchPreimage H b ++ y) : a = b ∧ x = y := by
  simp only [branchAccepted, Bool.and_eq_true, decide_eq_true_eq] at ha hb
  obtain ⟨⟨⟨⟨⟨⟨⟨a1, a2⟩, a3⟩, _⟩, _⟩, am⟩, _⟩, _⟩ := ha
  obtain ⟨⟨⟨⟨⟨⟨⟨b1, b2⟩, b3⟩, _⟩, _⟩, bm⟩, _⟩, _⟩ := hb
  simp only [branchPreimage, Message.fingerprint, List.append_assoc] at h
  obtain ⟨e1, h⟩ := field_append_inj (length_utf8_lt a1 (by decide))
    (length_utf8_lt b1 (by decide)) h
  obtain ⟨e2, h⟩ := field_sum_append_inj h
  obtain ⟨e3, h⟩ := field_append_inj (length_utf8_lt a2 (by decide))
    (length_utf8_lt b2 (by decide)) h
  obtain ⟨e4, h⟩ := field_append_inj (length_utf8_lt a3 (by decide))
    (length_utf8_lt b3 (by decide)) h
  obtain ⟨e5, h⟩ := field_sum_append_inj h
  have em : a.message = b.message := Message.fingerprint_inj am bm e2
  refine ⟨?_, h⟩
  cases a
  cases b
  simp only [BranchInput.mk.injEq]
  exact ⟨utf8_injective e1, utf8_injective e3, utf8_injective e4, em,
    H.sum_injective e5⟩

theorem branchesPreimage_inj [H.CollisionFree] {as bs : List BranchInput}
    (ha : ∀ b ∈ as, branchAccepted s [] b = true) (hb : ∀ b ∈ bs, branchAccepted t [] b = true)
    (hlen : as.length = bs.length)
    (h : as.flatMap (branchPreimage H) = bs.flatMap (branchPreimage H)) : as = bs := by
  induction as generalizing bs with
  | nil => exact (List.length_eq_zero_iff.mp hlen.symm).symm
  | cons a as ih =>
    cases bs with
    | nil => cases hlen
    | cons b bs =>
      rw [List.flatMap_cons, List.flatMap_cons] at h
      obtain ⟨hab, hrest⟩ := branchPreimage_append_inj (ha a List.mem_cons_self)
        (hb b List.mem_cons_self) h
      have has := ih (fun c hc => ha c (List.mem_cons_of_mem a hc))
        (fun c hc => hb c (List.mem_cons_of_mem b hc)) (Nat.succ.inj hlen) hrest
      rw [hab, has]

theorem FrozenPlan.digest_inj [H.CollisionFree] {p q : FrozenPlan} (hp : p.valid = true)
    (hq : q.valid = true) (h : p.digest H = q.digest H) : p = q := by
  unfold FrozenPlan.digest at h
  rw [if_pos hp, if_pos hq] at h
  have hb := H.sum_injective h
  obtain ⟨po, ps, pop, pk, pl, _⟩ := p.sizes hp
  obtain ⟨qo, qs, qop, qk, ql, _⟩ := q.sizes hq
  simp only [planPreimage, List.append_assoc, List.append_cancel_left_eq] at hb
  obtain ⟨e1, hb⟩ := field_append_inj (length_utf8_lt po (by decide))
    (length_utf8_lt qo (by decide)) hb
  obtain ⟨e2, hb⟩ := field_append_inj (length_utf8_lt ps (by decide))
    (length_utf8_lt qs (by decide)) hb
  obtain ⟨e3, hb⟩ := field_append_inj (length_utf8_lt pop (by decide))
    (length_utf8_lt qop (by decide)) hb
  obtain ⟨e4, hb⟩ := field_append_inj (length_utf8_lt pk (by decide))
    (length_utf8_lt qk (by decide)) hb
  obtain ⟨e5, hb⟩ := field_append_inj (by simp) (by simp) hb
  obtain ⟨e6, hb⟩ := field_append_inj (by simp only [length_be64]; decide)
    (by simp only [length_be64]; decide) hb
  have hcount := be64_inj (by omega) (by omega) e6
  have hbranches := branchesPreimage_inj (fun b hb => p.branchAccepted_of_mem hp hb)
    (fun b hb => q.branchAccepted_of_mem hq hb) hcount hb
  have hhash : p.input.inputHash = q.input.inputHash := Vector.toList_inj.mp e5
  obtain ⟨⟨o, s, op, k, ih, bs⟩, hfp⟩ := p
  obtain ⟨⟨o', s', op', k', ih', bs'⟩, hfq⟩ := q
  simp only [FrozenPlan.mk.injEq, PlanInput.mk.injEq]
  exact ⟨utf8_injective e1, utf8_injective e2, utf8_injective e3, utf8_injective e4, hhash,
    hbranches⟩

end Injective

end ReliableMessaging.Transaction
