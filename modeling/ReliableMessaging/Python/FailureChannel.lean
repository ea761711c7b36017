import ReliableMessaging.Python.NsqSubscriber
import ReliableMessaging.Wire.Agreement
import ReliableMessaging.Wire.RoundTrip

/-!
# Failure records on the Python subscriber's failure channel

What `NSQSubscriber._handle` makes of the records that Go's `EncodeFailedHandoff`
and Python's `encode_failure` write. Both write the same fields; the check of the
failure channel reads three of them, and hands `payload` to `b64decode` as it is.
A record without a payload has `null` there, which `b64decode` refuses with a
`TypeError`, although `wire.decode` takes it for no bytes. So a record goes to
the failed handler exactly if it has a payload (`failure_record_accepted_iff`).
-/

namespace ReliableMessaging.Python.Nsq

open Tasks List Json
open Json (Value)
open Wire (omitEmpty payloadValue failedEnvelopeType)

/-! ## The records -/

/-- The fields of a failure record as either side writes it. -/
structure Record where
  topic : String
  channel : String
  uuid : String
  transportId : String
  metadata : List (String × String)
  payload : Bytes
  attempts : Int
  timestamp : Int
  cause : String
  writable : attempts.natAbs < digitLimit ∧ timestamp.natAbs < digitLimit

def Record.fields (r : Record) : List (String × Value) :=
  [("type", .string failedEnvelopeType), ("provider", .string "nsq"), ("topic", .string r.topic),
    ("channel", .string r.channel), ("uuid", .string r.uuid)] ++
    omitEmpty (r.transportId = "") "transport_message_id" (.string r.transportId) ++
    omitEmpty r.metadata.isEmpty "metadata" (.object (r.metadata.map fun e => (e.1, .string e.2))) ++
    [("payload", payloadValue r.payload), ("attempts", .integer r.attempts)] ++
    omitEmpty (r.timestamp = 0) "timestamp" (.integer r.timestamp) ++
    [("cause", .string r.cause)]

theorem Record.sublist_names (r : Record) :
    (r.fields.map Prod.fst).Sublist Legacy.handoffNames := by
  simp only [Record.fields, map_append]
  exact (((((List.Sublist.refl _).append (Legacy.names_omitEmpty _ _ _)).append
    (Legacy.names_omitEmpty _ _ _)).append (List.Sublist.refl _)).append
      (Legacy.names_omitEmpty _ _ _)).append (List.Sublist.refl _)

theorem mem_omitEmpty {empty : Bool} {name : String} {v : Value} {f : String × Value}
    (h : f ∈ omitEmpty empty name v) : f = (name, v) := by
  cases empty with
  | true => cases h
  | false => exact mem_singleton.mp h

theorem loadable_payloadValue (payload : Bytes) (n : Nat) :
    (payloadValue payload).Loadable (n + 1) := by
  unfold payloadValue
  split <;> trivial

theorem Record.loadable (r : Record) : (Value.object r.fields).Loadable 64 := by
  intro f hf
  simp only [Record.fields, mem_append, mem_cons, not_mem_nil, or_false] at hf
  rcases hf with ((((((rfl | rfl | rfl | rfl | rfl) | hf) | hf) | (rfl | rfl)) | hf) | rfl)
  all_goals try trivial
  · rw [mem_omitEmpty hf]
    trivial
  · rw [mem_omitEmpty hf]
    intro e he
    obtain ⟨e', -, rfl⟩ := mem_map.mp he
    trivial
  · exact loadable_payloadValue r.payload 62
  · exact r.writable.1
  · rw [mem_omitEmpty hf]
    exact r.writable.2

/-! ## Who writes them -/

theorem natAbs_int64_lt (n : Int64) : n.toInt.natAbs < digitLimit := by
  have hle := n.le_toInt
  have hlt := n.toInt_lt
  have hbound := word_lt_digitLimit
  omega

def goRecord (value : Legacy.FailedHandoff) : Record where
  topic := coerce value.topic
  channel := coerce value.channel
  uuid := coerce value.uuid
  transportId := coerce value.transportMessageId
  metadata := value.metadata.listing.map fun e => (coerce e.1, coerce e.2)
  payload := value.payload
  attempts := value.attempts.toInt
  timestamp := value.timestamp.toInt
  cause := coerce value.cause
  writable := ⟨natAbs_int64_lt _, natAbs_int64_lt _⟩

theorem handoffFields_eq (value : Legacy.FailedHandoff) :
    Legacy.handoffFields value = (goRecord value).fields := by
  have htransport : decide (value.transportMessageId = []) =
      decide ((goRecord value).transportId = "") :=
    decide_eq_decide.mpr coerce_eq_empty.symm
  have hmetadata : value.metadata.entries.isEmpty = (goRecord value).metadata.isEmpty := by
    rw [Bool.eq_iff_iff, isEmpty_iff_length_eq_zero, isEmpty_iff_length_eq_zero,
      goRecord, length_map, value.metadata.listing_perm.length_eq]
  have htimestamp : decide (value.timestamp = 0) = decide ((goRecord value).timestamp = 0) :=
    decide_eq_decide.mpr Int64.toInt_inj.symm
  have hentries : Legacy.mapFields value.metadata =
      (goRecord value).metadata.map fun e => (e.1, .string e.2) := by
    simp [Legacy.mapFields, goRecord]
  rw [Legacy.handoffFields, htransport, hmetadata, htimestamp, hentries]
  rfl

/-- A body that Go or Python produced for a failure record with this payload. `json.dumps` refuses
numbers of too many digits. -/
inductive Produced (payload : Bytes) : Bytes → Prop
  | go {value : Legacy.FailedHandoff} {body : Bytes} (hpayload : value.payload = payload)
      (h : Legacy.encodeFailedHandoff value = .ok body) : Produced payload body
  | python {value : Wire.Envelope} {topic channel transportId : String} {attempts timestamp : Int}
      {cause : String} {body : Bytes} (hpayload : value.payload = payload)
      (hwritable : attempts.natAbs < digitLimit ∧ timestamp.natAbs < digitLimit)
      (h : Wire.Python.encodeFailure value topic channel transportId attempts timestamp cause =
        some body) : Produced payload body

theorem Produced.record {payload body : Bytes} (h : Produced payload body) :
    ∃ r : Record, r.payload = payload ∧
      ∃ text, body = bytes text ∧ read text = some (.object r.fields) := by
  cases h with
  | @go value _ hpayload h =>
    refine ⟨goRecord value, hpayload, _, (Legacy.encodeFailedHandoff_ok h).2, ?_⟩
    rw [Legacy.read_handoffText, handoffFields_eq]
  | @python value topic channel transportId attempts timestamp cause _ hpayload hwritable h =>
    unfold Wire.Python.encodeFailure at h
    split at h
    · cases h
    · rw [Wire.goJson_eq, Wire.Go.marshal] at h
      let r : Record := ⟨topic, channel, value.uuid, transportId,
        Wire.Python.sortedItems value.metadata, value.payload, attempts, timestamp, cause,
        hwritable⟩
      have hempty : value.metadata.isEmpty = r.metadata.isEmpty := by
        rw [Bool.eq_iff_iff, isEmpty_iff_length_eq_zero, isEmpty_iff_length_eq_zero]
        exact (length_mergeSort value.metadata).symm ▸ Iff.rfl
      refine ⟨r, hpayload, _, (Option.some.inj h).symm, ?_⟩
      rw [hempty]
      exact read_render standard_go r.loadable.written

/-! ## What the check says -/

section Checking

variable {H : Host} {r : Record} {text : Json.Text}

theorem loads_record (hL : H.library.KeepsLast) (hread : read text = some (.object r.fields)) :
    ∃ document, H.library.loads (bytes text) = some (.object document) ∧
      document.lookup "type" = some (.string failedEnvelopeType) ∧
      document.lookup "provider" = some (.string "nsq") ∧
      document.lookup "payload" = some (payloadValue r.payload) := by
  have hnodup : (r.fields.map Prod.fst).Nodup :=
    (by decide : Legacy.handoffNames.Nodup).sublist r.sublist_names
  have hleaf : (payloadValue r.payload).Leaf := by
    unfold payloadValue
    split <;> trivial
  have hfield : ∀ {name v}, (name, v) ∈ r.fields → r.fields.reverse.lookup name = some v :=
    fun hmem => (lookup_reverse hnodup).mpr ((Map.lookup_eq_some hnodup).mpr hmem)
  obtain ⟨document, hloads, hkept⟩ := hL hread r.loadable
  refine ⟨document, hloads, hkept (hfield ?_) trivial, hkept (hfield ?_) trivial,
    hkept (hfield ?_) hleaf⟩
  all_goals simp [Record.fields]

/-- The check refuses a record only for its missing payload. -/
theorem checkFailure_record (hL : H.library.KeepsLast)
    (hread : read text = some (.object r.fields)) :
    checkFailure H (bytes text) = if r.payload = [] then .error .type else .ok () := by
  obtain ⟨document, hloads, htype, hprovider, hpayload⟩ := loads_record hL hread
  have htype : textField document "type" = some failedEnvelopeType := by
    rw [textField, htype]
    rfl
  have hprovider : textField document "provider" = some "nsq" := by
    rw [textField, hprovider]
    rfl
  rw [checkFailure, hloads]
  simp only [htype, hprovider, ne_eq, not_true_eq_false, or_self, if_false, hpayload]
  by_cases hempty : r.payload = []
  · rw [if_pos hempty, hempty]
    rfl
  · rw [if_neg hempty, payloadValue, if_neg fun h => hempty (isEmpty_iff.mp h)]
    simp [H.library.b64decode_base64]

end Checking

/-! ## Who is called -/

/-- The log begins with this call, and the answers follow. -/
def Opens (c : Callback) (log : List Event) : Prop :=
  .called c ∈ log ∧ ∀ c', .called c' ∈ log → c' = c

theorem Opens.append {c : Callback} {log : List Event} (h : Opens c log) {e : Event}
    (he : ∀ c', e ≠ .called c') : Opens c (log ++ [e]) := by
  refine ⟨mem_append_left _ h.1, fun c' hmem => ?_⟩
  rcases mem_append.mp hmem with hmem | hmem
  · exact h.2 c' hmem
  · exact absurd (mem_singleton.mp hmem).symm (he c')

theorem ends_respond_opens {H : Host} {c : Callback} {log : List Event} (h : Opens c log)
    {answer : Event} (hanswer : ∀ c', answer ≠ .called c') :
    Ends (respond H answer) (fun _ log => Opens c log) log := by
  refine ends_bind (ends_logged ⟨fun _ _ => ends_bind (ends_attempt (fun _ _ => ?_) fun _ _ =>
    ⟨nofun, fun _ _ => h⟩), nofun⟩)
  exact ⟨fun _ _ => ends_note (h.append hanswer), nofun⟩

theorem opens_call (H : Host) (S : Subscriber) (raw : Raw) {c : Callback}
    {answer : Answer Fault Unit} (hcall : handleFailure H raw = (do call c answer; finish H)) :
    Opens c (logOf (handle H S raw true)) := by
  have hbody : Ends (handleFailure H raw) (fun _ log => Opens c log) [] := by
    rw [hcall]
    refine ends_bind (ends_await (fun _ _ => ⟨fun _ _ => ?_, nofun⟩)
      (fun _ _ => ⟨nofun, fun _ _ => ?_⟩) fun _ => ⟨nofun, fun _ _ => ?_⟩)
    · exact ends_respond_opens ⟨by simp, by simp⟩ nofun
    · exact ⟨by simp, by simp⟩
    · exact ⟨by simp, by simp⟩
  have hhandle : Ends (handle H S raw true) (fun _ log => Opens c log) [] := by
    refine ends_tryCatch (hbody.mono fun r log hlog => ⟨fun _ _ => hlog, fun e _ => ?_⟩)
    cases e with
    | cancelled => exact ends_pure hlog
    | fault f =>
      refine ends_bind (ends_logged ⟨fun responded _ => ends_ite (fun _ => ends_pure hlog) fun _ =>
        ?_, nofun⟩)
      exact ends_respond_opens hlog nofun
  exact hhandle

theorem opens_produced (H : Host) (hL : H.library.KeepsLast) (S : Subscriber) {raw : Raw}
    {payload : Bytes} (h : Produced payload raw.body) :
    Opens (if payload = [] then .invalidHandler "invalid_failure_wire" else .failedHandler)
      (logOf (handle H S raw true)) := by
  obtain ⟨r, rfl, text, hbody, hread⟩ := h.record
  have hcheck := checkFailure_record hL hread
  rw [← hbody] at hcheck
  by_cases hempty : r.payload = []
  · have hcall : handleFailure H raw = (do
        call (.invalidHandler "invalid_failure_wire")
          (H.invalidHandler raw.body "invalid_failure_wire")
        finish H) := by
      rw [handleFailure, hcheck, if_pos hempty]
    rw [if_pos hempty]
    exact opens_call H S raw hcall
  · have hcall : handleFailure H raw = (do
        call .failedHandler (H.failedHandler raw.body)
        finish H) := by
      rw [handleFailure, hcheck, if_neg hempty]
    rw [if_neg hempty]
    exact opens_call H S raw hcall

/-- On the failure channel a record that Go or Python produced goes to the failed handler, and not
to the invalid handler, exactly if it has a payload. -/
theorem failure_record_accepted_iff (H : Host) (hL : H.library.KeepsLast) (S : Subscriber)
    (raw : Raw) (payload : Bytes) (h : Produced payload raw.body) :
    (.called .failedHandler ∈ logOf (handle H S raw true) ∧
        ∀ reason, .called (.invalidHandler reason) ∉ logOf (handle H S raw true)) ↔
      payload ≠ [] := by
  have hopens := opens_produced H hL S h
  constructor
  · rintro ⟨hcalled, -⟩ hempty
    rw [if_pos hempty] at hopens
    exact absurd (hopens.2 _ hcalled) nofun
  · intro hpayload
    rw [if_neg hpayload] at hopens
    exact ⟨hopens.1, fun reason hmem => absurd (hopens.2 _ hmem) nofun⟩

namespace Sample

noncomputable def host : Host where
  message := ⟨fun log => if settlements log = 0 then .ok () else .error .other,
    fun log => settlements log ≠ 0, fun h => by simp [h]⟩
  handler _ := .returns ()
  failedHandler _ := .returns ()
  invalidHandler _ _ := .returns ()
  failureReady _ _ _ := .returns ()
  publish _ _ _ := .returns .confirmed
  decode _ := .error .value
  library := lastingLibrary
  unreadable _ := .value

def subscriber : Subscriber := ⟨"orders", "billing", "cb.failed", 8, fun _ => true⟩

def value (payload : Bytes) : Legacy.FailedHandoff where
  topic := utf8 "orders"
  channel := utf8 "billing"
  uuid := utf8 "7"
  transportMessageId := []
  metadata := .empty
  payload := payload
  attempts := 8
  timestamp := 0
  cause := utf8 "handler_failed"

def raw (payload : Bytes) : Raw :=
  ⟨[48], bytes (Legacy.handoffText (value payload)), 1, 1, "nsqd:4150"⟩

theorem encoded (payload : Bytes) :
    Legacy.encodeFailedHandoff (value payload) = .ok (raw payload).body := by
  have htexts : utf8 "orders" ≠ [] ∧ utf8 "billing" ≠ [] ∧ utf8 "7" ≠ [] ∧
      1 ≤ (8 : Int64).toInt ∧ utf8 "handler_failed" ≠ [] := by decide
  have hcomplete : (value payload).complete = true := Legacy.complete_iff.mpr htexts
  rw [Legacy.encodeFailedHandoff, if_pos hcomplete, raw]

end Sample

open Nsq.Sample

theorem failure_record_accepted_iff_byte :
    (.called .failedHandler ∈ logOf (handle host subscriber (raw [1]) true) ∧
        ∀ reason, .called (.invalidHandler reason) ∉
          logOf (handle host subscriber (raw [1]) true)) ↔
      [(1 : UInt8)] ≠ [] :=
  failure_record_accepted_iff host keepsLast_lastingLibrary subscriber
    (raw [1]) [1] (.go rfl (encoded [1]))

/-- A record without a payload, as Go writes it: the failed handler is not called, and the invalid
handler is. -/
theorem empty_payload_is_invalid :
    Legacy.encodeFailedHandoff (value []) = .ok (raw []).body ∧
      .called .failedHandler ∉ logOf (handle host subscriber (raw []) true) ∧
      .called (.invalidHandler "invalid_failure_wire") ∈
        logOf (handle host subscriber (raw []) true) := by
  have hopens := opens_produced host keepsLast_lastingLibrary subscriber
    (.go rfl (encoded []))
  exact ⟨encoded [], fun hcalled => absurd (hopens.2 _ hcalled) nofun, hopens.1⟩

end ReliableMessaging.Python.Nsq
