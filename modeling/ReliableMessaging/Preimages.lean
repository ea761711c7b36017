import ReliableMessaging.Transaction.Plan
import ReliableMessaging.Transport.Routing
import ReliableMessaging.Wire.RoundTrip

/-!
# What the digests are taken of

Everything the Go module hashes under a domain tag, as one type: messages,
plans, request keys, execution keys and the two kinds of version 2 routes. The
inputs are Go strings, of which only the length is bounded, by the range of an
`int`.

Routes keep only the first sixteen bytes of their digest; what is said here of
digests is said of the whole one.
-/

namespace ReliableMessaging.Preimages

/-- A Go string or slice: its length is an `int`. -/
abbrev Slice : Type := { value : Bytes // value.length < 2 ^ 63 }

/-- A digest as it is written into another preimage. -/
abbrev Digest (H : Sha256) : Type := { value : Bytes // value ∈ Set.range H.sum }

section Parsing

variable {x y : Bytes}

theorem slice_append_inj {a b : Slice} (h : field a.1 ++ x = field b.1 ++ y) : a = b ∧ x = y := by
  obtain ⟨hab, hxy⟩ := field_append_inj (a.2.trans (by decide)) (b.2.trans (by decide)) h
  exact ⟨Subtype.ext hab, hxy⟩

theorem digest_append_inj {H : Sha256} {a b : Digest H} (h : field a.1 ++ x = field b.1 ++ y) :
    a = b ∧ x = y := by
  obtain ⟨a, s, rfl⟩ := a
  obtain ⟨b, t, rfl⟩ := b
  obtain ⟨hst, hxy⟩ := field_sum_append_inj h
  exact ⟨Subtype.ext hst, hxy⟩

theorem slices_inj {as bs : List Slice}
    (h : (as.flatMap fun a => field a.1) = bs.flatMap fun b => field b.1) : as = bs := by
  have hbound : ∀ (cs : List Slice), ∀ c ∈ cs.map Subtype.val, c.length < 2 ^ 64 := by
    intro cs c hc
    obtain ⟨c, -, rfl⟩ := List.mem_map.mp hc
    exact c.2.trans (by decide)
  refine Subtype.val_injective.list_map (flatMap_field_inj (hbound as) (hbound bs) ?_)
  rw [List.flatMap_map, List.flatMap_map]
  exact h

end Parsing

/-! ## Content -/

/-- What `NewPlan` hashes of a branch. -/
structure Branch (H : Sha256) where
  id : Slice
  fingerprint : Digest H
  physicalTopic : Slice
  routeRevision : Slice
  wireHash : Digest H

def Branch.preimage {H : Sha256} (b : Branch H) : Bytes :=
  field b.id.1 ++ field b.fingerprint.1 ++ field b.physicalTopic.1 ++ field b.routeRevision.1 ++
    field b.wireHash.1

/-- What is hashed: by `message.New`, `NewPlan`, `KeyDigest`, `ExecutionKey`, and by
`routeDigestV2` for a topic or for a group. -/
inductive Content (H : Sha256)
  | message (producer id destination eventType schemaVersion scope contentType occurredAt
      payload : Slice)
  | plan (owner scope operation key : Slice) (inputHash : Vector UInt8 32)
      (branches : List (Branch H))
  | request (owner scope key : Slice)
  | execution (owner operation epoch : Slice) (fence : UInt64)
  | topicRoute (fields : List Slice)
  | groupRoute (fields : List Slice)

inductive Kind
  | message
  | plan
  | request
  | execution
  | topicRoute
  | groupRoute
deriving DecidableEq

def Kind.domain : Kind → String
  | .message => "rm-fingerprint-draft-v1\x00"
  | .plan => "rm-tx-plan-draft-v1\x00"
  | .request => "rm-tx-request-v1\x00"
  | .execution => "rm-tx-execution-v1\x00"
  | .topicRoute => "rmq-topic-v2\x00"
  | .groupRoute => "rmq-group-v2\x00"

namespace Content

variable {H : Sha256}

def kind : Content H → Kind
  | .message .. => .message
  | .plan .. => .plan
  | .request .. => .request
  | .execution .. => .execution
  | .topicRoute _ => .topicRoute
  | .groupRoute _ => .groupRoute

def body : Content H → Bytes
  | .message producer id destination eventType schemaVersion scope contentType occurredAt payload =>
    [producer, id, destination, eventType, schemaVersion, scope, contentType, occurredAt,
      payload].flatMap fun s => field s.1
  | .plan owner scope operation key inputHash branches =>
    field owner.1 ++ field scope.1 ++ field operation.1 ++ field key.1 ++
      field inputHash.toList ++ field (be64 branches.length) ++ branches.flatMap Branch.preimage
  | .request owner scope key => [owner, scope, key].flatMap fun s => field s.1
  | .execution owner operation epoch fence =>
    field owner.1 ++ field operation.1 ++ field epoch.1 ++ field (be64 fence.toNat)
  | .topicRoute fields => fields.flatMap fun s => field s.1
  | .groupRoute fields => fields.flatMap fun s => field s.1

def preimage (c : Content H) : Bytes := utf8 c.kind.domain ++ c.body

end Content

/-! ## The preimage determines the content -/

theorem domain_prefix_inj (a b : Kind) (h : (utf8 a.domain).isPrefixOf (utf8 b.domain) = true) :
    a = b := by
  revert h
  cases a <;> cases b <;> decide

theorem domain_append_inj {a b : Kind} {x y : Bytes}
    (h : utf8 a.domain ++ x = utf8 b.domain ++ y) : a = b := by
  rcases List.prefix_or_prefix_of_prefix (List.prefix_append (utf8 a.domain) x)
    (h ▸ List.prefix_append (utf8 b.domain) y) with hab | hba
  · exact domain_prefix_inj a b ( List.isPrefixOf_iff_prefix.mpr hab)
  · exact (domain_prefix_inj b a ( List.isPrefixOf_iff_prefix.mpr hba)).symm

variable {H : Sha256}

theorem branch_append_inj {a b : Branch H} {x y : Bytes}
    (h : a.preimage ++ x = b.preimage ++ y) : a = b ∧ x = y := by
  simp only [Branch.preimage, List.append_assoc] at h
  obtain ⟨hid, h⟩ := slice_append_inj h
  obtain ⟨hfingerprint, h⟩ := digest_append_inj h
  obtain ⟨htopic, h⟩ := slice_append_inj h
  obtain ⟨hrevision, h⟩ := slice_append_inj h
  obtain ⟨hwire, h⟩ := digest_append_inj h
  refine ⟨?_, h⟩
  cases a
  cases b
  simp only [Branch.mk.injEq]
  exact ⟨hid, hfingerprint, htopic, hrevision, hwire⟩

theorem branches_inj {as bs : List (Branch H)}
    (h : as.flatMap Branch.preimage = bs.flatMap Branch.preimage) : as = bs := by
  have hpositive : ∀ (c : Branch H) (cs : List (Branch H)),
      (c :: cs).flatMap Branch.preimage ≠ [] := by
    intro c cs hnil
    have hlength := congrArg List.length hnil
    simp only [List.flatMap_cons, Branch.preimage, List.length_append, length_field,
      List.length_nil] at hlength
    omega
  induction as generalizing bs with
  | nil =>
    cases bs with
    | nil => rfl
    | cons b bs => exact absurd h.symm (hpositive b bs)
  | cons a as ih =>
    cases bs with
    | nil => exact absurd h (hpositive a as)
    | cons b bs =>
      rw [List.flatMap_cons, List.flatMap_cons] at h
      obtain ⟨hab, hrest⟩ := branch_append_inj h
      rw [hab, ih hrest]

theorem plan_body_inj {owner scope operation key owner' scope' operation' key' : Slice}
    {inputHash inputHash' : Vector UInt8 32} {branches branches' : List (Branch H)}
    (h : (Content.plan owner scope operation key inputHash branches).body =
      (Content.plan owner' scope' operation' key' inputHash' branches').body) :
    Content.plan owner scope operation key inputHash branches =
      .plan owner' scope' operation' key' inputHash' branches' := by
  simp only [Content.body, List.append_assoc] at h
  obtain ⟨howner, h⟩ := slice_append_inj h
  obtain ⟨hscope, h⟩ := slice_append_inj h
  obtain ⟨hoperation, h⟩ := slice_append_inj h
  obtain ⟨hkey, h⟩ := slice_append_inj h
  obtain ⟨hhash, h⟩ := field_append_inj (by simp) (by simp) h
  obtain ⟨-, h⟩ := field_append_inj (by simp) (by simp) h
  rw [howner, hscope, hoperation, hkey, Vector.toList_inj.mp hhash, branches_inj h]

theorem execution_body_inj {owner operation epoch owner' operation' epoch' : Slice}
    {fence fence' : UInt64} (h : (Content.execution (H := H) owner operation epoch fence).body =
      (Content.execution (H := H) owner' operation' epoch' fence').body) :
    Content.execution (H := H) owner operation epoch fence =
      .execution owner' operation' epoch' fence' := by
  simp only [Content.body, List.append_assoc] at h
  obtain ⟨howner, h⟩ := slice_append_inj h
  obtain ⟨hoperation, h⟩ := slice_append_inj h
  obtain ⟨hepoch, h⟩ := slice_append_inj h
  have hfence := be64_inj fence.toNat_lt fence'.toNat_lt (field_inj h)
  rw [howner, hoperation, hepoch, UInt64.toNat_inj.mp hfence]

theorem preimage_injective : Function.Injective (Content.preimage (H := H)) := by
  intro c d h
  have hkind : c.kind = d.kind := domain_append_inj h
  have hbody : c.body = d.body := by
    rw [Content.preimage, Content.preimage, hkind] at h
    exact List.append_cancel_left h
  cases c <;> cases d <;> try cases hkind
  case message.message =>
    have hparts := slices_inj hbody
    simp only [List.cons.injEq, and_true] at hparts
    simpa [Content.message.injEq] using hparts
  case plan.plan => exact plan_body_inj hbody
  case request.request =>
    have hparts := slices_inj hbody
    simp only [List.cons.injEq, and_true] at hparts
    simpa [Content.request.injEq] using hparts
  case execution.execution => exact execution_body_inj hbody
  case topicRoute.topicRoute => rw [slices_inj hbody]
  case groupRoute.groupRoute => rw [slices_inj hbody]

/-! ## What the code hashes -/

def Content.digest (c : Content H) : Bytes := H.sum c.preimage

abbrev Sized (s : String) : Prop := s.utf8ByteSize < 2 ^ 63

def slice (s : String) (h : Sized s) : Slice := ⟨utf8 s, h⟩

theorem sized_of_bounded {s : String} {n : Nat} (h : Message.bounded s n = true)
    (hn : n < 2 ^ 63) : Sized s :=
  (Message.bounded_size h).trans_lt hn

/-- The content that `message.New` hashes. -/
def ofMessage (m : Message.Input)
    (h : Sized m.producer ∧ Sized m.id ∧ Sized m.destination ∧ Sized m.eventType ∧
      Sized m.schemaVersion ∧ Sized m.scope ∧ Sized m.contentType ∧ Sized m.occurredAt)
    (hpayload : m.payload.length < 2 ^ 63) : Content H :=
  .message (slice m.producer h.1) (slice m.id h.2.1) (slice m.destination h.2.2.1)
    (slice m.eventType h.2.2.2.1) (slice m.schemaVersion h.2.2.2.2.1) (slice m.scope h.2.2.2.2.2.1)
    (slice m.contentType h.2.2.2.2.2.2.1) (slice m.occurredAt h.2.2.2.2.2.2.2)
    ⟨m.payload, hpayload⟩

open Transaction in
/-- The content that `NewPlan` hashes of a branch. -/
def ofBranch (b : BranchInput)
    (h : Sized b.id ∧ Sized b.physicalTopic ∧ Sized b.routeRevision) : Branch H where
  id := slice b.id h.1
  fingerprint := ⟨b.message.fingerprint H, _, rfl⟩
  physicalTopic := slice b.physicalTopic h.2.1
  routeRevision := slice b.routeRevision h.2.2
  wireHash := ⟨H.sum b.wire, _, rfl⟩

open Transaction in
def ofPlan (p : PlanInput)
    (h : Sized p.owner ∧ Sized p.scope ∧ Sized p.operationID ∧ Sized p.idempotencyKey)
    (hbranches : ∀ b ∈ p.branches, Sized b.id ∧ Sized b.physicalTopic ∧ Sized b.routeRevision) :
    Content H :=
  .plan (slice p.owner h.1) (slice p.scope h.2.1) (slice p.operationID h.2.2.1)
    (slice p.idempotencyKey h.2.2.2) p.inputHash (p.branches.pmap ofBranch hbranches)

open Transaction in
theorem flatMap_ofBranch (bs : List BranchInput)
    (h : ∀ b ∈ bs, Sized b.id ∧ Sized b.physicalTopic ∧ Sized b.routeRevision) :
    (bs.pmap (ofBranch (H := H)) h).flatMap Branch.preimage = bs.flatMap (branchPreimage H) := by
  induction bs with
  | nil => rfl
  | cons b bs ih =>
    rw [List.pmap_cons, List.flatMap_cons, List.flatMap_cons, ih]
    rfl

open Transaction Transport in
/-- Every digest of the code is that of its content. -/
structure Hashes (H : Sha256) : Prop where
  message (m : Message) (hm : m.valid = true) (hpayload : m.input.payload.length < 2 ^ 63) :
    ∃ h, m.fingerprint H = (ofMessage (H := H) m.input h hpayload).digest
  plan (p : FrozenPlan) (hp : p.valid = true) :
    ∃ h hbranches, p.digest H = (ofPlan (H := H) p.input h hbranches).digest
  request (r : Request) (ho : Sized r.owner) (hs : Sized r.scope) (hk : Sized r.key) :
    r.keyDigest H =
      (Content.request (H := H) (slice r.owner ho) (slice r.scope hs) (slice r.key hk)).digest
  execution {owner operation epoch : String} (ho : Sized owner) (hop : Sized operation)
    (he : Sized epoch) (fence : UInt64) : executionKey H owner operation epoch fence.toNat =
      (Content.execution (H := H) (slice owner ho) (slice operation hop) (slice epoch he)
        fence).digest
  topic (fields : List Slice) :
    routeDigestV2 H.sum (utf8 "rmq-topic-v2\x00") (fields.map Subtype.val) =
      utf8 (String.ofList (Json.hexChars ((Content.topicRoute (H := H) fields).digest.take 16)))
  group (fields : List Slice) :
    routeDigestV2 H.sum (utf8 "rmq-group-v2\x00") (fields.map Subtype.val) =
      utf8 (String.ofList (Json.hexChars ((Content.groupRoute (H := H) fields).digest.take 16)))

theorem routePreimage_eq (fields : List Slice) :
    ((fields.map Subtype.val).map field).flatten = fields.flatMap fun s => field s.1 := by
  rw [List.map_map, List.flatMap]
  rfl

open Transaction Transport in
theorem hashes (H : Sha256) : Hashes H where
  message m hm hpayload := by
    have haccepted := Message.accepted_of_valid hm
    simp only [Message.accepted, Bool.and_eq_true] at haccepted
    obtain ⟨⟨⟨⟨⟨⟨⟨⟨⟨h1, h2⟩, h3⟩, h4⟩, h5⟩, h6⟩, h7⟩, h8⟩, -⟩, -⟩ := haccepted
    refine ⟨⟨sized_of_bounded h1 (by decide), sized_of_bounded h2 (by decide),
      sized_of_bounded h3 (by decide), sized_of_bounded h4 (by decide),
      sized_of_bounded h5 (by decide), sized_of_bounded h6 (by decide),
      sized_of_bounded h7 (by decide), sized_of_bounded h8 (by decide)⟩, ?_⟩
    simp [Message.fingerprint, Content.digest, Content.preimage, Content.body, Content.kind,
      Kind.domain, Message.preimage, ofMessage, slice]
  plan p hp := by
    obtain ⟨howner, hscope, hoperation, hkey, -, -⟩ := p.sizes hp
    have hsized {n m : Nat} (h : n ≤ m) (hm : m < 2 ^ 63) : n < 2 ^ 63 := h.trans_lt hm
    refine ⟨⟨hsized howner (by decide), hsized hscope (by decide), hsized hoperation (by decide),
      hsized hkey (by decide)⟩, fun b hb => ?_, ?_⟩
    · obtain ⟨hid, htopic, hrevision, -⟩ := p.branch_spec hp hb
      exact ⟨hsized hid (by decide), hsized htopic (by decide), hsized hrevision (by decide)⟩
    · rw [FrozenPlan.digest, if_pos hp]
      simp [Content.digest, Content.preimage, Content.body, Content.kind, Kind.domain, planPreimage,
        ofPlan, slice, flatMap_ofBranch]
  request r ho hs hk := by
    simp [Request.keyDigest, Request.preimage, Content.digest, Content.preimage, Content.body,
      Content.kind, Kind.domain, slice]
  execution ho hop he fence := by
    simp [executionKey, executionPreimage, Content.digest, Content.preimage, Content.body,
      Content.kind, Kind.domain, slice]
  topic fields := by
    rw [routeDigestV2, routePreimage_eq]
    rfl
  group fields := by
    rw [routeDigestV2, routePreimage_eq]
    rfl

/-! ## The legacy checksum -/

structure Checksummed where
  uuid : Slice
  metadata : Legacy.StringMap
  sized : ∀ e ∈ metadata.entries, e.1.length < 2 ^ 63 ∧ e.2.length < 2 ^ 63
  payload : Slice

namespace Checksummed

def preimage (c : Checksummed) : Bytes :=
  Legacy.checksumPreimage c.uuid.1 c.metadata c.payload.1

def checksum (H : Sha256) (c : Checksummed) : String :=
  Legacy.checksum H c.uuid.1 c.metadata c.payload.1

def Same (c d : Checksummed) : Prop :=
  c.uuid = d.uuid ∧ c.metadata.Same d.metadata ∧ c.payload = d.payload

theorem parts_sized (c : Checksummed) :
    ∀ part ∈ Legacy.checksumParts c.uuid.1 c.metadata c.payload.1, part.length < 2 ^ 64 := by
  intro part hpart
  simp only [Legacy.checksumParts, List.cons_append, List.mem_cons, List.mem_append,
    List.mem_flatMap, List.not_mem_nil, or_false] at hpart
  have hint : (2 : Nat) ^ 63 < 2 ^ 64 := by decide
  rcases hpart with rfl | ⟨e, he, rfl | rfl⟩ | rfl
  · exact c.uuid.2.trans hint
  · exact (c.sized e (c.metadata.listing_perm.mem_iff.mp he)).1.trans hint
  · exact (c.sized e (c.metadata.listing_perm.mem_iff.mp he)).2.trans hint
  · exact c.payload.2.trans hint

theorem preimage_eq_iff {c d : Checksummed} : c.preimage = d.preimage ↔ c.Same d := by
  constructor
  · intro h
    rw [preimage, preimage, Legacy.checksumPreimage_eq, Legacy.checksumPreimage_eq] at h
    obtain ⟨huuid, hmetadata, hpayload⟩ :=
      Legacy.checksumParts_inj (flatMap_field_inj c.parts_sized d.parts_sized h)
    exact ⟨Subtype.ext huuid, hmetadata, Subtype.ext hpayload⟩
  · rintro ⟨huuid, hmetadata, hpayload⟩
    rw [preimage, preimage, Legacy.checksumPreimage, Legacy.checksumPreimage, huuid, hpayload,
      Map.listing_eq_iff.mpr hmetadata]

end Checksummed

/-- Preimages are injective and no two kinds share one, and what the code computes are digests of
its content; the legacy checksum's preimage is injective in the identity, the map and the payload.
So without collisions equal digests are of equal content of the same kind. -/
theorem digests_identify_content (H : Sha256) :
    Hashes H ∧ Function.Injective (Content.preimage (H := H)) ∧
      (∀ c d : Content H, c.kind ≠ d.kind → c.preimage ≠ d.preimage) ∧
      (∀ c d : Checksummed, c.preimage = d.preimage → c.Same d) ∧
      (H.CollisionFree → (∀ c d : Content H, c.digest = d.digest → c = d) ∧
        ∀ c d : Checksummed, c.checksum H = d.checksum H → c.Same d) := by
  refine ⟨hashes H, preimage_injective, fun c d hne heq => hne (domain_append_inj heq),
    fun c d h => Checksummed.preimage_eq_iff.mp h, fun hfree =>
      ⟨fun c d h => preimage_injective (H.sum_injective h), fun c d h => ?_⟩⟩
  exact Checksummed.preimage_eq_iff.mp (Legacy.checksumPreimage_of_checksum h)

end ReliableMessaging.Preimages
