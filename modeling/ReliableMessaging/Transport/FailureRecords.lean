import ReliableMessaging.Wire.RoundTrip

/-!
# Failure records of the NSQ subscription

One call of `HandleBusiness` from its delivery to its answer, over Go strings:
what the body is decoded to, with which cause the delivery fails, and the
record that `fail` hands off when the attempts are used up. `Subscription` has
the interleavings of such calls; here the texts count.
-/

namespace ReliableMessaging.FailureRecords

open Json

open Legacy (Envelope FailedHandoff StringMap Unmarshaling)

/-! ## The subscription -/

structure Raw where
  id : Vector UInt8 16
  body : Bytes
  attempts : UInt16
  timestamp : Int64
  /-- `NSQDAddress`. -/
  address : Bytes

/-- What `NewSubscription` accepted, as far as failing reads it; `validName` stands for the driver's
`IsValidTopicName` and `IsValidChannelName`. -/
structure Subscription (validName : Bytes → Bool) where
  topic : Bytes
  channel : Bytes
  failureTopic : Bytes
  maxAttempts : UInt16
  named : validName topic = true ∧ validName channel = true
  bounded : maxAttempts ≠ 0

variable {validName : Bytes → Bool}

structure Received where
  id : Bytes
  transportId : Bytes
  topic : Bytes
  channel : Bytes
  metadata : StringMap
  payload : Bytes
  attempts : UInt16
  timestamp : Int64

/-- The text of an error; `nil` is none. -/
abbrev Error : Type := Option Bytes

/-- What the handler does with its delivery: it settles it itself, or leaves that to its caller. -/
inductive Handled
  | acked
  | nacked (cause : Error)
  | returned (err : Error)

/-- The handoff transport: `Ready`, and `Publish` of a body with its `transport.Outcome`. -/
structure Handoff where
  ready : Bytes → Bytes → Error
  publish : Bytes → Bytes → Bytes → UInt8

/-- `transport.Confirmed`. -/
def confirmed : UInt8 := 1

/-- The map `causes`. -/
abbrev Causes : Type := Bytes → Error

inductive Event
  | published (address topic body : Bytes) (outcome : UInt8)
  | requeued
  | finished
deriving DecidableEq

/-- What a call leaves: the causes, what nsqd and the handoff transport saw, and what it returned. -/
structure Left where
  causes : Causes
  log : List Event
  err : Error := none

def Subscription.key (S : Subscription validName) (id : Bytes) : Bytes :=
  S.topic ++ [0] ++ S.channel ++ [0] ++ id

/-- The physical id stands in for a missing identity. -/
def identified (id : Vector UInt8 16) (e : Envelope) : Envelope :=
  if e.uuid = [] then { e with uuid := id.toList } else e

section Handling

variable (U : Unmarshaling) (H : Sha256)

/-- The envelope that `HandleBusiness` goes on with. -/
def decoded (raw : Raw) : Envelope :=
  match Legacy.decode U H raw.body with
  | (envelope, true, _) => identified raw.id envelope
  | (_, false, _) => identified raw.id ⟨raw.id.toList, .empty, raw.body⟩

def decodeErr (raw : Raw) : Error := (Legacy.decode U H raw.body).2.2

/-- What the business handler is given on a topic and channel. -/
def receivedOn (topic channel : Bytes) (raw : Raw) : Received where
  id := (decoded U H raw).uuid
  transportId := raw.id.toList
  topic := topic
  channel := channel
  metadata := (decoded U H raw).metadata
  payload := (decoded U H raw).payload
  attempts := raw.attempts
  timestamp := raw.timestamp

def received (S : Subscription validName) (raw : Raw) : Received :=
  receivedOn U H S.topic S.channel raw

def failedHandoff (topic channel : Bytes) (maxAttempts : UInt16) (r : Received) (cause : Bytes) :
    FailedHandoff where
  topic := topic
  channel := channel
  uuid := r.id
  transportMessageId := r.transportId
  metadata := r.metadata
  payload := r.payload
  attempts := Int64.ofNat maxAttempts.toNat
  timestamp := r.timestamp
  cause := cause

def nackedCause : Bytes := utf8 "message nacked by handler"

def fail (S : Subscription validName) (T : Handoff) (raw : Raw) (r : Received) (cause : Error)
    (causes : Causes) : Left :=
  let cause := cause.getD nackedCause
  let key := S.key r.transportId
  let causes := Function.update causes key (some cause)
  if raw.attempts < S.maxAttempts then { causes, log := [.requeued] }
  else
    match Legacy.encodeFailedHandoff (failedHandoff S.topic S.channel S.maxAttempts r cause) with
    | .error err => { causes, log := [.requeued], err := some (utf8 err) }
    | .ok body =>
      if raw.address = [] then
        { causes, log := [.requeued]
          err := some (utf8 "source NSQD address required for failed handoff") }
      else
        match T.ready raw.address S.failureTopic with
        | some err => { causes, log := [.requeued], err := some err }
        | none =>
          let outcome := T.publish raw.address S.failureTopic body
          let published := Event.published raw.address S.failureTopic body outcome
          if outcome = confirmed then
            { causes := Function.update causes key none, log := [published, .finished] }
          else
            { causes, log := [published, .requeued]
              err := some (utf8 ("NSQ failed handoff not confirmed: outcome " ++
                toString outcome)) }

/-- The error with which `HandleBusiness` calls `fail`, unless the delivery is acknowledged. -/
def failure (S : Subscription validName) (handler : Received → Handled) (raw : Raw)
    (causes : Causes) : Option Error :=
  match decodeErr U H raw with
  | some err => some (some (utf8 "decode message envelope: " ++ err))
  | none =>
    if S.maxAttempts < raw.attempts then
      some (some ((causes (S.key raw.id.toList)).getD
        (utf8 "transport delivery exhausted after prior handler failure")))
    else
      match handler (received U H S raw) with
      | .acked | .returned none => none
      | .nacked cause => some cause
      | .returned (some err) => some (some err)

def handleBusiness (S : Subscription validName) (T : Handoff) (handler : Received → Handled)
    (raw : Raw) (causes : Causes) : Left :=
  match failure U H S handler raw causes with
  | some cause => fail S T raw (received U H S raw) cause causes
  | none =>
    { causes := Function.update causes (S.key raw.id.toList) none, log := [.finished] }

end Handling

/-! ## When a terminal failure leaves the queue -/

section Leaving

variable {U : Unmarshaling} {H : Sha256} {S : Subscription validName} {T : Handoff}
  {handler : Received → Handled} {raw : Raw} {causes : Causes}

theorem id_ne_nil (id : Vector UInt8 16) : id.toList ≠ [] := by
  intro hnil
  have hlength := congrArg List.length hnil
  simp at hlength

theorem identified_uuid_ne_nil (id : Vector UInt8 16) (e : Envelope) :
    (identified id e).uuid ≠ [] := by
  unfold identified
  split
  · exact id_ne_nil id
  · assumption

theorem decoded_uuid_ne_nil (U : Unmarshaling) (H : Sha256) (raw : Raw) :
    (decoded U H raw).uuid ≠ [] := by
  unfold decoded
  split <;> exact identified_uuid_ne_nil _ _

theorem complete_failedHandoff (U : Unmarshaling) (H : Sha256) (S : Subscription validName)
    (hvalid : validName [] = false) (raw : Raw) (cause : Bytes) :
    (failedHandoff S.topic S.channel S.maxAttempts (received U H S raw) cause).complete = true ↔
      cause ≠ [] := by
  have hpositive : 1 ≤ (Int64.ofNat S.maxAttempts.toNat).toInt := by
    have hlt := S.maxAttempts.toNat_lt
    rw [Int64.toInt_ofNat_of_lt (by omega)]
    have hne : S.maxAttempts.toNat ≠ 0 := fun hzero =>
      S.bounded (UInt16.toNat_inj.mp hzero)
    omega
  have hname : ∀ {name}, validName name = true → name ≠ [] := by
    rintro _ hname rfl
    simp [hvalid] at hname
  rw [Legacy.complete_iff]
  constructor
  · exact fun h => h.2.2.2.2
  · exact fun hcause => ⟨hname S.named.1, hname S.named.2,
      decoded_uuid_ne_nil U H raw, hpositive, hcause⟩

/-- The delivery fails with an error that has no text: the handler's own, or the remembered one
once the attempts are used up. -/
def Blank (U : Unmarshaling) (H : Sha256) (S : Subscription validName)
    (handler : Received → Handled) (raw : Raw) (causes : Causes) : Prop :=
  decodeErr U H raw = none ∧
    if S.maxAttempts < raw.attempts then causes (S.key raw.id.toList) = some []
    else handler (received U H S raw) = .nacked (some []) ∨
      handler (received U H S raw) = .returned (some [])

theorem blank_iff {cause : Error} (h : failure U H S handler raw causes = some cause) :
    cause.getD nackedCause = [] ↔ Blank U H S handler raw causes := by
  have hnacked : nackedCause ≠ [] := by decide
  have hexhausted : utf8 "transport delivery exhausted after prior handler failure" ≠ [] := by
    decide
  have hdecode : utf8 "decode message envelope: " ≠ [] := by decide
  unfold failure at h
  unfold Blank
  cases herr : decodeErr U H raw with
  | some err =>
    rw [herr] at h
    cases h
    simp [hdecode]
  | none =>
    rw [herr] at h
    dsimp only at h
    split at h
    next hattempts =>
      cases h
      rw [if_pos hattempts]
      cases causes (S.key raw.id.toList) <;> simp [hexhausted]
    next hattempts =>
      rw [if_neg hattempts]
      cases hhandled : handler (received U H S raw) with
      | acked =>
        rw [hhandled] at h
        cases h
      | nacked e =>
        rw [hhandled] at h
        cases h
        cases cause <;> simp [hnacked]
      | returned e =>
        rw [hhandled] at h
        cases e with
        | none => cases h
        | some e =>
          cases h
          simp

/-- What `fail` can do: requeue, or publish the record and then finish or requeue. -/
theorem fail_cases (S : Subscription validName) (T : Handoff) (raw : Raw) (r : Received)
    (cause : Error) (causes : Causes) :
    let remembering := Function.update causes (S.key r.transportId) (some (cause.getD nackedCause))
    (fail S T raw r cause causes).causes = remembering ∧
        (fail S T raw r cause causes).log = [.requeued] ∨
      ∃ body outcome, Legacy.encodeFailedHandoff (failedHandoff S.topic S.channel S.maxAttempts r
          (cause.getD nackedCause)) = .ok body ∧
        ((fail S T raw r cause causes).causes =
              Function.update remembering (S.key r.transportId) none ∧
            (fail S T raw r cause causes).log =
              [.published raw.address S.failureTopic body outcome, .finished] ∨
          (fail S T raw r cause causes).causes = remembering ∧
            (fail S T raw r cause causes).log =
              [.published raw.address S.failureTopic body outcome, .requeued]) := by
  unfold fail
  dsimp only
  split
  · exact .inl ⟨rfl, rfl⟩
  split
  · exact .inl ⟨rfl, rfl⟩
  next body hbody =>
    split
    · exact .inl ⟨rfl, rfl⟩
    split
    · exact .inl ⟨rfl, rfl⟩
    split
    · exact .inr ⟨body, _, hbody, .inl ⟨rfl, rfl⟩⟩
    · exact .inr ⟨body, _, hbody, .inr ⟨rfl, rfl⟩⟩

theorem fail_terminal {r : Received} {cause : Error} (hattempts : S.maxAttempts ≤ raw.attempts)
    (haddress : raw.address ≠ []) (hready : T.ready raw.address S.failureTopic = none)
    (hpublish : ∀ body, T.publish raw.address S.failureTopic body = confirmed) :
    (fail S T raw r cause causes).log =
      match Legacy.encodeFailedHandoff
          (failedHandoff S.topic S.channel S.maxAttempts r (cause.getD nackedCause)) with
      | .ok body => [.published raw.address S.failureTopic body confirmed, .finished]
      | .error _ => [.requeued] := by
  unfold fail
  simp only [if_neg (UInt16.not_lt.mpr hattempts), if_neg haddress, hready, hpublish, if_true]
  cases Legacy.encodeFailedHandoff (failedHandoff S.topic S.channel S.maxAttempts r
    (cause.getD nackedCause)) <;> rfl

/-- A failed delivery of the last attempt, while the handoff transport is healthy, is handed off
and finished exactly if the error it fails with has a text. -/
theorem terminal_failure_leaves_iff (U : Unmarshaling) (H : Sha256) (S : Subscription validName)
    (hvalid : validName [] = false) (T : Handoff) (handler : Received → Handled) (raw : Raw)
    (causes : Causes)
    (hfails : (failure U H S handler raw causes).isSome = true)
    (hattempts : S.maxAttempts ≤ raw.attempts) (haddress : raw.address ≠ [])
    (hready : T.ready raw.address S.failureTopic = none)
    (hpublish : ∀ body, T.publish raw.address S.failureTopic body = confirmed) :
    (∃ cause body, failure U H S handler raw causes = some cause ∧
        Legacy.encodeFailedHandoff (failedHandoff S.topic S.channel S.maxAttempts
          (received U H S raw) (cause.getD nackedCause)) = .ok body ∧
        (handleBusiness U H S T handler raw causes).log =
          [.published raw.address S.failureTopic body confirmed, .finished]) ↔
      ¬ Blank U H S handler raw causes := by
  obtain ⟨cause, hcause⟩ := Option.isSome_iff_exists.mp hfails
  have hcall : handleBusiness U H S T handler raw causes =
      fail S T raw (received U H S raw) cause causes := by
    rw [handleBusiness, hcause]
  rw [← blank_iff hcause, hcall, fail_terminal hattempts haddress hready hpublish]
  constructor
  · rintro ⟨other, body, -, -, hpublished⟩ hblank
    have hrefused : Legacy.encodeFailedHandoff (failedHandoff S.topic S.channel S.maxAttempts
        (received U H S raw) []) = .error "invalid legacy NSQ failed handoff" :=
      if_neg fun hcomplete => (complete_failedHandoff U H S hvalid raw []).mp hcomplete rfl
    rw [hblank, hrefused] at hpublished
    cases hpublished
  · intro hcomplete
    have hencoded : Legacy.encodeFailedHandoff (failedHandoff S.topic S.channel S.maxAttempts
        (received U H S raw) (cause.getD nackedCause)) = .ok _ :=
      if_pos ((complete_failedHandoff U H S hvalid raw _).mpr hcomplete)
    exact ⟨cause, _, hcause, hencoded, by rw [hencoded]⟩

/-- The handler reports no error without a text. -/
def Speaks (handler : Received → Handled) : Prop :=
  ∀ r, handler r ≠ .nacked (some []) ∧ handler r ≠ .returned (some [])

/-- No error without a text is remembered. -/
def Spoken (causes : Causes) : Prop := ∀ key, causes key ≠ some []

theorem not_blank (hhandler : Speaks handler) (hcauses : Spoken causes) :
    ¬ Blank U H S handler raw causes := by
  rintro ⟨-, hblank⟩
  split at hblank
  · exact hcauses _ hblank
  · exact hblank.elim (hhandler _).1 (hhandler _).2

theorem Spoken.update (h : Spoken causes) (key : Bytes) {cause : Error} (hcause : cause ≠ some []) :
    Spoken (Function.update causes key cause) := by
  intro k
  by_cases hk : k = key
  · rw [hk, Function.update_self]
    exact hcause
  · rw [Function.update_of_ne hk]
    exact h k

theorem Spoken.handleBusiness (hcauses : Spoken causes) (hhandler : Speaks handler) :
    Spoken (handleBusiness U H S T handler raw causes).causes := by
  unfold FailureRecords.handleBusiness
  split
  next cause hcause =>
    have htext : some (cause.getD nackedCause) ≠ some [] := fun heq =>
      not_blank hhandler hcauses ((blank_iff hcause).mp (Option.some.inj heq))
    have hkept := hcauses.update (S.key raw.id.toList) htext
    rcases fail_cases S T raw (received U H S raw) cause causes with
      ⟨heq, -⟩ | ⟨body, outcome, -, ⟨heq, -⟩ | ⟨heq, -⟩⟩
    · exact heq ▸ hkept
    · exact heq ▸ hkept.update _ nofun
    · exact heq ▸ hkept
  next => exact hcauses.update _ nofun

/-- The causes after some deliveries, each with the transport and the handler it met. -/
def remembered (U : Unmarshaling) (H : Sha256) (S : Subscription validName)
    (deliveries : List (Handoff × (Received → Handled) × Raw)) : Causes :=
  deliveries.foldl (fun causes d => (handleBusiness U H S d.1 d.2.1 d.2.2 causes).causes)
    fun _ => none

theorem spoken_remembered {deliveries : List (Handoff × (Received → Handled) × Raw)}
    (h : ∀ d ∈ deliveries, Speaks d.2.1) : Spoken (remembered U H S deliveries) := by
  have hfold : ∀ causes, Spoken causes → Spoken (deliveries.foldl
      (fun causes d => (FailureRecords.handleBusiness U H S d.1 d.2.1 d.2.2 causes).causes)
      causes) := by
    induction deliveries with
    | nil => exact fun _ hcauses => hcauses
    | cons d deliveries ih =>
      intro causes hcauses
      exact ih (fun d' hd' => h d' (List.mem_cons_of_mem _ hd')) _
        (hcauses.handleBusiness (h d List.mem_cons_self))
  exact hfold _ nofun

/-- After any deliveries whose handlers reported no error without a text, the next one does not fail
with such an error. -/
theorem not_blank_remembered {deliveries : List (Handoff × (Received → Handled) × Raw)}
    (h : ∀ d ∈ deliveries, Speaks d.2.1) (hhandler : Speaks handler) :
    ¬ Blank U H S handler raw (remembered U H S deliveries) :=
  not_blank hhandler (spoken_remembered h)

end Leaving

namespace Sample

def ascii (name : Bytes) : Bool := name ≠ [] && name.all (·.toNat ≤ 127)

def subscription : Subscription ascii where
  topic := utf8 "orders"
  channel := utf8 "billing"
  failureTopic := utf8 "cb.failed"
  maxAttempts := 1
  named := by decide
  bounded := by decide

def raw (attempts : UInt16) : Raw := ⟨.replicate 16 48, [0], attempts, 1, [1]⟩

def healthy : Handoff := ⟨fun _ _ => none, fun _ _ _ => confirmed⟩

def refusing (_ : Received) : Handled := .returned (some (utf8 "full"))

theorem failure_refusing :
    failure default default subscription refusing (raw 1) (fun _ => none) =
      some (some (utf8 "full")) := by
  have hdecode : decodeErr default default (raw 1) = none :=
    congrArg (fun d => d.2.2) (Legacy.decode_nul default default [])
  rw [failure, hdecode]
  rfl

end Sample

open Sample

theorem not_blank_remembered_refused :
    ¬ Blank default default subscription refusing (raw 1)
      (remembered default default subscription
        [(healthy, refusing, raw 1)]) := by
  have hspeaks : Speaks refusing := fun _ =>
    ⟨nofun, fun h => absurd (Option.some.inj (Handled.returned.inj h)) (by decide)⟩
  exact not_blank_remembered (by simpa using hspeaks) hspeaks

theorem terminal_failure_leaves_iff_refused :
    (∃ cause body, failure default default subscription refusing (raw 1)
          (fun _ => none) = some cause ∧
        Legacy.encodeFailedHandoff (failedHandoff subscription.topic
          subscription.channel subscription.maxAttempts
          (received default default subscription (raw 1))
          (cause.getD nackedCause)) = .ok body ∧
        (handleBusiness default default subscription healthy refusing
          (raw 1) (fun _ => none)).log =
          [.published [1] (utf8 "cb.failed") body confirmed, .finished]) ↔
      ¬ Blank default default subscription refusing (raw 1)
        (fun _ => none) :=
  terminal_failure_leaves_iff default default subscription rfl healthy refusing
    (raw 1) _ (by rw [failure_refusing]; rfl) (by decide) (by decide) rfl
    fun _ => rfl

/-- A handler error whose text is empty: the message is requeued after its last attempt, and so at
every later delivery, although the handoff transport is healthy. -/
theorem blank_error_is_requeued :
    (handleBusiness default default subscription healthy
        (fun _ => .returned (some [])) (raw 1) (fun _ => none)).log = [.requeued] ∧
      ∀ attempts causes, 1 < attempts →
        causes (subscription.key (raw attempts).id.toList) = some [] →
        (handleBusiness default default subscription healthy
          (fun _ => .returned (some [])) (raw attempts) causes).log = [.requeued] ∧
        (handleBusiness default default subscription healthy
          (fun _ => .returned (some [])) (raw attempts) causes).causes
            (subscription.key (raw attempts).id.toList) = some [] := by
  have hdecode : ∀ attempts, decodeErr default default (raw attempts) = none :=
    fun _ => congrArg (fun d => d.2.2) (Legacy.decode_nul default default [])
  have hrefused : ∀ attempts, Legacy.encodeFailedHandoff (failedHandoff subscription.topic
      subscription.channel subscription.maxAttempts
      (received default default subscription (raw attempts)) []) =
        .error "invalid legacy NSQ failed handoff" := fun attempts => if_neg fun hcomplete =>
    (complete_failedHandoff default default subscription rfl (raw attempts) []).mp
      hcomplete rfl
  have hfail : ∀ attempts causes, 1 ≤ attempts →
      fail subscription healthy (raw attempts)
        (received default default subscription (raw attempts)) (some []) causes =
      { causes := Function.update causes
          (subscription.key (raw attempts).id.toList) (some [])
        log := [.requeued], err := some (utf8 "invalid legacy NSQ failed handoff") } := by
    intro attempts causes hattempts
    have hlast : ¬ (raw attempts).attempts < subscription.maxAttempts :=
      UInt16.not_lt.mpr hattempts
    simp only [fail, Option.getD_some, if_neg hlast, hrefused]
    rfl
  constructor
  · have hcause : failure default default subscription (fun _ => .returned (some []))
        (raw 1) (fun _ => none) = some (some []) := by
      rw [failure, hdecode]
      rfl
    rw [handleBusiness, hcause]
    exact congrArg Left.log (hfail 1 _ (by decide))
  · intro attempts causes hattempts hblank
    have hcause : failure default default subscription (fun _ => .returned (some []))
        (raw attempts) causes = some (some []) := by
      have hexhausted : subscription.maxAttempts < (raw attempts).attempts :=
        hattempts
      rw [failure, hdecode]
      simp only [if_pos hexhausted, hblank, Option.getD_some]
    rw [handleBusiness, hcause]
    dsimp only
    rw [hfail attempts causes (UInt16.le_of_lt hattempts)]
    refine ⟨rfl, ?_⟩
    dsimp only
    rw [Function.update_self]

/-! ## What a published record says -/

section Fidelity

variable {U : Unmarshaling} {H : Sha256} {S : Subscription validName} {T : Handoff}
  {handler : Received → Handled} {raw : Raw} {causes : Causes}

theorem valid_decode (U : Unmarshaling) (H : Sha256) (body : Bytes) :
    (Legacy.decode U H body).1.Valid := by
  have htexts : ∀ (uuid : String) (metadata : Map String String) (payload : Bytes),
      Envelope.Valid ⟨utf8 uuid, Legacy.ofTexts metadata, payload⟩ :=
    fun uuid _ _ => ⟨validString_iff.mpr ⟨uuid, rfl⟩, Legacy.valid_of_ofTexts (.refl _)⟩
  unfold Legacy.decode
  dsimp only
  split
  · exact htexts "" .empty []
  · split
    · exact htexts _ _ _
    · exact htexts _ _ _

theorem valid_identified {id : Vector UInt8 16} {e : Envelope}
    (hid : validString id.toList = true) (h : e.Valid) : (identified id e).Valid := by
  unfold identified
  split
  · exact ⟨hid, h.2⟩
  · exact h

theorem valid_decoded (hid : validString raw.id.toList = true) : (decoded U H raw).Valid := by
  have hdecode := valid_decode U H raw.body
  unfold decoded
  split
  next heq =>
    rw [heq] at hdecode
    exact valid_identified hid hdecode
  next => exact valid_identified hid ⟨hid, nofun⟩

structure Describes (S : Subscription validName) (raw : Raw) (e : Envelope)
    (failed : FailedHandoff) : Prop where
  topic : failed.topic = S.topic
  channel : failed.channel = S.channel
  attempts : failed.attempts.toInt = S.maxAttempts.toNat
  transportMessageId : failed.transportMessageId = raw.id.toList
  timestamp : failed.timestamp = raw.timestamp
  uuid : failed.uuid = e.uuid
  metadata : failed.metadata.Same e.metadata
  payload : failed.payload = e.payload

theorem describes_coerced (hvalid : ∀ name, validName name = true → ∀ b ∈ name, b.toNat ≤ 127)
    (hid : validString raw.id.toList = true) (cause : Bytes) :
    Describes S raw (decoded U H raw)
      (failedHandoff S.topic S.channel S.maxAttempts (received U H S raw) cause).coerced := by
  have hdecoded : (decoded U H raw).Valid := valid_decoded hid
  have hname : ∀ {name}, validName name = true → utf8 (coerce name) = name := fun h =>
    utf8_coerce_iff.mpr (validString_ascii (hvalid _ h))
  have hattempts := S.maxAttempts.toNat_lt
  exact
    { topic := hname S.named.1
      channel := hname S.named.2
      attempts := Int64.toInt_ofNat_of_lt (by omega)
      transportMessageId := utf8_coerce_iff.mpr hid
      timestamp := rfl
      uuid := utf8_coerce_iff.mpr hdecoded.1
      metadata := Legacy.ofTexts_coerceMap hdecoded.2
      payload := rfl }

theorem published_record {address topic body : Bytes} {outcome : UInt8}
    (h : .published address topic body outcome ∈ (handleBusiness U H S T handler raw causes).log) :
    ∃ cause, Legacy.encodeFailedHandoff
      (failedHandoff S.topic S.channel S.maxAttempts (received U H S raw) cause) = .ok body := by
  unfold handleBusiness at h
  split at h
  next cause _ =>
    rcases fail_cases S T raw (received U H S raw) cause causes with
      ⟨-, hlog⟩ | ⟨written, outcome', hwritten, ⟨-, hlog⟩ | ⟨-, hlog⟩⟩
    · simp [hlog] at h
    all_goals
      simp only [hlog, List.mem_cons, Event.published.injEq, reduceCtorEq, List.not_mem_nil,
        or_false] at h
      exact ⟨_, h.2.2.1 ▸ hwritten⟩
  next => simp at h

/-- The envelope that the business handler would have been given: `Decode`'s, also of a corrupt
one, with the physical id for a missing identity; for any other body the physical id and the whole
body. -/
def Given (U : Unmarshaling) (H : Sha256) (raw : Raw) (e : Envelope) : Prop :=
  match Legacy.decode U H raw.body with
  | (envelope, true, _) =>
    e.uuid = (if envelope.uuid = [] then raw.id.toList else envelope.uuid) ∧
      e.metadata = envelope.metadata ∧ e.payload = envelope.payload
  | (_, false, _) => e.uuid = raw.id.toList ∧ e.metadata = .empty ∧ e.payload = raw.body

theorem given_decoded : Given U H raw (decoded U H raw) := by
  unfold Given decoded
  split
  next envelope _ _ =>
    by_cases h : envelope.uuid = [] <;> simp [identified, h]
  next => simp [identified]

/-- Every published failure record is read back as the delivery it is about. -/
theorem published_record_is_faithful (U : Unmarshaling) (H : Sha256) (S : Subscription validName)
    (hvalid : ∀ name, validName name = true → ∀ b ∈ name, b.toNat ≤ 127) (T : Handoff)
    (handler : Received → Handled) (raw : Raw) (causes : Causes)
    (hid : ∀ b ∈ raw.id.toList, b.toNat ≤ 127) (address topic body : Bytes) (outcome : UInt8)
    (h : .published address topic body outcome ∈ (handleBusiness U H S T handler raw causes).log) :
    ∃ failed e, Legacy.decodeFailedHandoff U body = .ok failed ∧ Describes S raw e failed ∧
      Given U H raw e ∧ e.uuid ≠ [] ∧
      (received U H S raw).id = e.uuid ∧ (received U H S raw).metadata = e.metadata ∧
      (received U H S raw).payload = e.payload := by
  obtain ⟨cause, hbody⟩ := published_record h
  exact ⟨_, decoded U H raw, Legacy.decodeFailedHandoff_encoded U hbody,
    describes_coerced hvalid (validString_ascii hid) cause, given_decoded,
    decoded_uuid_ne_nil U H raw, rfl, rfl, rfl⟩

end Fidelity

theorem published_record_is_faithful_refused :
    ∃ body, .published [1] (utf8 "cb.failed") body confirmed ∈
        (handleBusiness default default subscription healthy refusing
          (raw 1) (fun _ => none)).log ∧
      ∃ failed e, Legacy.decodeFailedHandoff default body = .ok failed ∧
        Describes subscription (raw 1) e failed ∧
        Given default default (raw 1) e ∧ e.uuid ≠ [] ∧
        (received default default subscription (raw 1)).id = e.uuid ∧
        (received default default subscription (raw 1)).metadata = e.metadata ∧
        (received default default subscription (raw 1)).payload = e.payload := by
  obtain ⟨body, hbody⟩ : ∃ body, Legacy.encodeFailedHandoff (failedHandoff
      subscription.topic subscription.channel subscription.maxAttempts
      (received default default subscription (raw 1))
      ((some (utf8 "full") : Error).getD nackedCause)) = .ok body :=
    ⟨_, if_pos ((complete_failedHandoff default default subscription rfl (raw 1) _).mpr
      (by decide))⟩
  have hlog : .published [1] (utf8 "cb.failed") body confirmed ∈
      (handleBusiness default default subscription healthy refusing
        (raw 1) (fun _ => none)).log := by
    rw [handleBusiness, failure_refusing]
    dsimp only
    rw [fail_terminal (by decide) (by decide) rfl fun _ => rfl, hbody]
    exact List.mem_cons_self
  have hascii : (raw 1).id.toList.all (·.toNat ≤ 127) = true := by decide
  have hvalid : ∀ name, ascii name = true → ∀ b ∈ name, b.toNat ≤ 127 := by
    simp only [ascii, Bool.and_eq_true, List.all_eq_true, decide_eq_true_eq]
    exact fun name h => h.2
  exact ⟨body, hlog, published_record_is_faithful default default subscription hvalid healthy
    refusing (raw 1) _
    (fun b hb => of_decide_eq_true (List.all_eq_true.mp hascii b hb)) _ _ _ _ hlog⟩

end ReliableMessaging.FailureRecords
