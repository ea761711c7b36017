import ReliableMessaging.Encoding.Json
import ReliableMessaging.Transaction.Plan

/-!
# Stored plans and references

`EncodePlan` and `EncodeReference`. A store column keeps the value that was
encoded; what an encoder decides here is whether there is an encoding at all,
which depends on the size of the JSON text. The writer (`Json.Escape`) is a
parameter, because the Go and the Python store write into the same columns
with different escapes.
-/

namespace ReliableMessaging.Transaction

open Json

open Json (Escape Text)

def codecVersion : Nat := 1
def maxPlanBytes : Nat := 8 * 2 ^ 20
def maxReferenceBytes : Nat := 8192

def storedMessage (w : Escape) (m : Message.Input) : Text :=
  object w [("producer", quote w m.producer), ("message_id", quote w m.id),
    ("destination", quote w m.destination), ("event_type", quote w m.eventType),
    ("schema_version", quote w m.schemaVersion), ("scope", quote w m.scope),
    ("content_type", quote w m.contentType), ("occurred_at", quote w m.occurredAt),
    ("payload", base64 w m.payload)]

def storedBranch (w : Escape) (b : BranchInput) : Text :=
  object w [("branch_id", quote w b.id), ("physical_topic", quote w b.physicalTopic),
    ("route_revision", quote w b.routeRevision),
    ("message", storedMessage w b.message.input), ("wire", base64 w b.wire)]

def storedPlan (H : Sha256) (w : Escape) (p : FrozenPlan) : Text :=
  object w [("version", decimal codecVersion), ("owner", quote w p.input.owner),
    ("scope", quote w p.input.scope), ("operation_id", quote w p.input.operationID),
    ("idempotency_key", quote w p.input.idempotencyKey),
    ("input_hash", hex w p.input.inputHash.toList), ("plan_digest", hex w (p.digest H)),
    ("branches", array (p.input.branches.map (storedBranch w)))]

/-- `EncodePlan`: the plan, if it is valid and its text is within the limit. -/
def encodePlan (H : Sha256) (w : Escape) (p : FrozenPlan) : Except Err FrozenPlan :=
  if !p.valid then .error .invalidPlan
  else if size (storedPlan H w p) > maxPlanBytes then .error .invalidPlan
  else .ok p

def storedReference (w : Escape) (r : Reference) : Text :=
  object w [("owner", quote w r.owner), ("scope", quote w r.scope),
    ("operation_id", quote w r.operationID), ("branch_id", quote w r.branchID),
    ("message_id", quote w r.messageID), ("logical_topic", quote w r.logicalTopic),
    ("physical_topic", quote w r.physicalTopic), ("route_revision", quote w r.routeRevision),
    ("writer_epoch", quote w r.writerEpoch), ("plan_digest", hex w r.planDigest),
    ("wire_hash", hex w r.wireHash), ("message_fingerprint", hex w r.messageFingerprint),
    ("fence", decimal r.fence)]

/-- `EncodeReference`: the reference, if it is valid and within the limit. -/
def encodeReference (w : Escape) (r : Reference) : Except Err Reference :=
  if !r.valid then .error .invalidPlan
  else if size (storedReference w r) > maxReferenceBytes then .error .invalidPlan
  else .ok r

variable {H : Sha256} {w : Escape} {p : FrozenPlan} {r s : Reference} {err : Err}

theorem encodePlan_eq_ok {q : FrozenPlan} (h : encodePlan H w p = .ok q) :
    p = q ∧ p.valid = true := by
  unfold encodePlan at h
  split at h
  · cases h
  next hv =>
    split at h
    · cases h
    · cases h
      exact ⟨rfl, by simpa using hv⟩

theorem encodeReference_eq_ok (h : encodeReference w r = .ok s) : r = s ∧ r.valid = true := by
  unfold encodeReference at h
  split at h
  · cases h
  next hv =>
    split at h
    · cases h
    · cases h
      exact ⟨rfl, by simpa using hv⟩

theorem encodeReference_size (h : encodeReference w r = .ok s) :
    r = s ∧ size (storedReference w r) ≤ maxReferenceBytes := by
  refine ⟨(encodeReference_eq_ok h).1, Nat.le_of_not_gt fun hsize => ?_⟩
  rw [encodeReference, if_neg (by simp [(encodeReference_eq_ok h).2]), if_pos hsize] at h
  cases h

theorem encodePlan_error (h : encodePlan H w p = .error err) : err = .invalidPlan := by
  unfold encodePlan at h
  split at h
  · cases h
    rfl
  · split at h
    · cases h
      rfl
    · cases h

theorem encodeReference_error (h : encodeReference w r = .error err) : err = .invalidPlan := by
  unfold encodeReference at h
  split at h
  · cases h
    rfl
  · split at h
    · cases h
      rfl
    · cases h

end ReliableMessaging.Transaction
