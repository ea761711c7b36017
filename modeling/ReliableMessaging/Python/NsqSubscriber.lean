import ReliableMessaging.Encoding.JsonLibraries
import ReliableMessaging.Outbox.Record
import ReliableMessaging.Tasks
import ReliableMessaging.Wire.Legacy

/-!
# The NSQ subscriber in Python

`NSQSubscriber._handle` and `_handoff` of `python/src/reliable_messaging/nsq.py`:
one task for each message, on the business channel or on the failure channel.
It awaits the host's callbacks and the publisher of the address the message
came from, and answers nsqd through the message, with `finish` or `requeue`.
-/

namespace ReliableMessaging.Python.Nsq

open Tasks List
open Json (Value Library textField)
open Outbox (Outcome)
open Wire (Envelope)

/-- An exception: the classes that the code tells apart, and any other `Exception`. Subclasses
count as their class, so a `UnicodeError` is a `ValueError`. -/
inductive Fault
  | value
  | type
  | key
  | attribute
  | other
deriving DecidableEq

structure Raw where
  id : Bytes
  body : Bytes
  attempts : Int
  timestamp : Int
  sourceAddress : String

structure Received where
  value : Envelope
  wire : Bytes
  transportId : String
  sourceAddress : String
  attempts : Int
  timestamp : Int

/-- What settling a message reads of the subscriber. -/
structure Subscriber where
  topic : String
  channel : String
  failureTopic : String
  maxAttempts : Int
  /-- The addresses that have a publisher. -/
  publishers : String → Bool

inductive Callback
  | handler
  | failedHandler
  | invalidHandler (reason : String)
  | failureReady (address : String)
  | publish (address : String)
deriving DecidableEq

inductive Event
  | called (c : Callback)
  | returned (c : Callback)
  | published (address : String) (outcome : Outcome)
  | cancelled
  | finished
  | requeued
deriving DecidableEq

/-! ## The message's own answers -/

def Event.answers : Event → Bool
  | .finished | .requeued => true
  | _ => false

def settlements (log : List Event) : Nat := log.countP Event.answers

/-- The client library's message: whether it takes a further answer or raises, and
`has_responded`. The first answer is taken. -/
structure Message where
  respond : List Event → Except Fault Unit
  hasResponded : List Event → Bool
  first : ∀ {log}, settlements log = 0 → respond log = .ok () ∧ hasResponded log = false

/-! ## Handling -/

/-- The host's callbacks, the publishers by address, the message and the decoders. -/
structure Host where
  message : Message
  handler : Received → Answer Fault Unit
  failedHandler : Bytes → Answer Fault Unit
  invalidHandler : Bytes → String → Answer Fault Unit
  failureReady : String → String → String → Answer Fault Unit
  publish : String → String → Bytes → Answer Fault Outcome
  /-- `wire.decode`. -/
  decode : Bytes → Except Fault Envelope
  library : Library
  /-- What `json.loads` raises where it returns no value. -/
  unreadable : Bytes → Fault

abbrev Handling (α : Type) : Type := Task Fault Event α

def failedChannel : String := "cb-failed-handler"
def maxMetadataBytes : Nat := 4096
def nsqMaxBytes : Nat := 262144

def call (c : Callback) (answer : Answer Fault Unit) : Handling Unit :=
  await (.called c) (fun _ => .returned c) .cancelled answer

/-- `raw.id.decode("ascii")`. -/
def decodeAscii (id : Bytes) : Except Fault String :=
  if id.all (· < 128) then .ok (String.ofList (id.map fun b => Char.ofNat b.toNat))
  else .error .value

section

variable (H : Host) (S : Subscriber)

def respond (answer : Event) : Handling Unit := do
  let taken ← logged H.message.respond
  attempt taken
  note answer

def finish : Handling Unit := respond H .finished
def requeue : Handling Unit := respond H .requeued

/-- The `try` block of the failure channel. -/
def checkFailure (body : Bytes) : Except Fault Unit :=
  match H.library.loads body with
  | none => .error (H.unreadable body)
  | some (.object document) =>
    if textField document "type" ≠ some Wire.failedEnvelopeType ∨
        textField document "provider" ≠ some "nsq" then .error .value
    else match document.lookup "payload" with
      | none => .error .key
      | some (.string payload) =>
        match H.library.b64decode payload with
        | some _ => .ok ()
        | none => .error .value
      | some _ => .error .type
  | some _ => .error .attribute

/-- The `try` block of the business channel. -/
def checkWire (body : Bytes) : Except Fault Envelope := do
  let value ← H.decode body
  if value.uuid = "" ∨
      (Wire.Python.goJson (Wire.entries value.metadata)).length > maxMetadataBytes then
    .error .value
  else .ok value

def handoff (raw : Raw) (value : Envelope) : Handling Unit := do
  if S.publishers raw.sourceAddress = false then throw (.fault .value)
  else do
    call (.failureReady raw.sourceAddress)
      (H.failureReady raw.sourceAddress S.failureTopic failedChannel)
    let transportId ← attempt (decodeAscii raw.id)
    match Wire.Python.encodeFailure value S.topic S.channel transportId S.maxAttempts
        raw.timestamp "handler_failed" with
    | none => throw (.fault .value)
    | some body =>
      if body.length > nsqMaxBytes then do
        call (.invalidHandler "failure_wire_oversize")
          (H.invalidHandler raw.body "failure_wire_oversize")
        finish H
      else do
        let outcome ← await (.called (.publish raw.sourceAddress))
          (.published raw.sourceAddress) .cancelled
          (H.publish raw.sourceAddress S.failureTopic body)
        if outcome ≠ .confirmed then throw (.fault .other) else finish H

def handleFailure (raw : Raw) : Handling Unit := do
  match checkFailure H raw.body with
  | .ok () => call .failedHandler (H.failedHandler raw.body)
  | .error .other => throw (.fault .other)
  | .error _ =>
    call (.invalidHandler "invalid_failure_wire")
      (H.invalidHandler raw.body "invalid_failure_wire")
  finish H

def handleBusiness (raw : Raw) : Handling Unit := do
  match checkWire H raw.body with
  | .error .value => do
    call (.invalidHandler "invalid_wire") (H.invalidHandler raw.body "invalid_wire")
    finish H
  | .error f => throw (.fault f)
  | .ok value => do
    let transportId ← attempt (decodeAscii raw.id)
    let received : Received := ⟨value, raw.body, transportId, raw.sourceAddress, raw.attempts,
      raw.timestamp⟩
    if raw.attempts > S.maxAttempts then handoff H S raw value
    else do
      let failed ← tryCatch
        (do
          call .handler (H.handler received)
          pure false)
        fun
          | .cancelled => throw .cancelled
          | .fault _ => pure true
      if failed then
        if raw.attempts ≥ S.maxAttempts then handoff H S raw value else requeue H
      else finish H

def handle (raw : Raw) (failure : Bool) : Handling Unit :=
  tryCatch (if failure then handleFailure H raw else handleBusiness H S raw) fun
    | .cancelled => pure ()
    | .fault _ => do
      let responded ← logged H.message.hasResponded
      if responded then pure () else requeue H

end

/-! ## One answer -/

/-- What authorises a FIN on the business channel. -/
def Authorised (address : String) (log : List Event) : Prop :=
  .returned .handler ∈ log ∨ (∃ reason, .returned (.invalidHandler reason) ∈ log) ∨
    (.returned (.failureReady address) ∈ log ∧ .published address .confirmed ∈ log)

/-- The log of a message that was not answered yet, and whose handler was called only if it may
be. -/
def Pending (may : Prop) (log : List Event) : Prop :=
  settlements log = 0 ∧ (.called .handler ∈ log → may)

/-- The log of a message that was just answered, by a FIN only if `ok` allows it. -/
def Answered (may : Prop) (ok : List Event → Prop) (log : List Event) : Prop :=
  ∃ before, Pending may before ∧
    (log = before ++ [.finished] ∧ ok before ∨ log = before ++ [.requeued])

/-- Where a part of the handling may end: answered, or raising without an answer, and with a mark
in the log if it was cancelled. -/
def Outcomes (may : Prop) (ok : List Event → Prop) (r : Except (Raised Fault) Unit)
    (log : List Event) : Prop :=
  match r with
  | .ok () => Answered may ok log
  | .error .cancelled => Pending may log ∧ .cancelled ∈ log
  | .error (.fault _) => Pending may log

section Rules

variable {may : Prop} {ok : List Event → Prop} {log : List Event}

theorem Pending.append {more : List Event} (h : Pending may log)
    (hmore : more.all fun e => !e.answers) (hmay : .called .handler ∈ more → may) :
    Pending may (log ++ more) := by
  simp only [all_eq_true, Bool.not_eq_true'] at hmore
  refine ⟨?_, fun hmem => (mem_append.mp hmem).elim h.2 hmay⟩
  rw [settlements, countP_append, ← settlements, h.1,
    countP_eq_zero.mpr fun e he => by simp [hmore e he]]

theorem ends_respond {H : Host} {answer : Event}
    {Q : Except (Raised Fault) Unit → List Event → Prop} (h : Pending may log)
    (hQ : Q (.ok ()) (log ++ [answer])) : Ends (respond H answer) Q log := by
  refine ends_bind (ends_logged ⟨fun taken heq => ?_, nofun⟩)
  cases heq
  rw [(H.message.first h.1).1]
  exact ends_note hQ

theorem ends_finish {H : Host} (h : Pending may log) (hok : ok log) :
    Ends (finish H) (Outcomes may ok) log :=
  ends_respond h ⟨log, h, .inl ⟨rfl, hok⟩⟩

theorem ends_requeue {H : Host} (h : Pending may log) : Ends (requeue H) (Outcomes may ok) log :=
  ends_respond h ⟨log, h, .inr rfl⟩

theorem ends_await_bind {α : Type} {c : Callback} {returned : α → Event} {answer : Answer Fault α}
    {f : α → Handling Unit} (h : Pending may log) (hmay : c = .handler → may)
    (hreturned : ∀ a, (returned a).answers = false ∧ returned a ≠ .called .handler)
    (hf : ∀ a, Pending may (log ++ [.called c, returned a]) →
      Ends (f a) (Outcomes may ok) (log ++ [.called c, returned a])) :
    Ends (await (.called c) returned .cancelled answer >>= f) (Outcomes may ok) log := by
  have hcalled : Event.called .handler = .called c → may := fun heq =>
    hmay (Event.called.inj heq).symm
  have hquiet : (Event.called c).answers = false := rfl
  refine ends_bind (ends_await (fun a _ => ⟨fun a' heq => ?_, nofun⟩)
    (fun fault _ => ⟨nofun, fun e heq => ?_⟩) fun _ => ⟨nofun, fun e heq => ?_⟩)
  · cases heq
    obtain ⟨hanswers, hne⟩ := hreturned a
    refine hf a (h.append (by simp [hanswers, hquiet]) fun hmem => ?_)
    simp only [mem_cons, not_mem_nil, or_false] at hmem
    exact hmem.elim hcalled fun heq => absurd heq.symm hne
  · cases heq
    exact h.append rfl fun hmem => hcalled (by simpa using hmem)
  · cases heq
    exact ⟨h.append rfl fun hmem => hcalled (by simpa using hmem), by simp⟩

theorem ends_call_bind {c : Callback} {answer : Answer Fault Unit} {f : Unit → Handling Unit}
    (h : Pending may log) (hmay : c = .handler → may)
    (hf : Pending may (log ++ [.called c, .returned c]) →
      Ends (f ()) (Outcomes may ok) (log ++ [.called c, .returned c])) :
    Ends (call c answer >>= f) (Outcomes may ok) log :=
  ends_await_bind h hmay (fun _ => ⟨rfl, nofun⟩) fun _ => hf

theorem ends_attempt_bind {α : Type} {x : Except Fault α} {f : α → Handling Unit}
    (h : Pending may log) (hf : ∀ a, Ends (f a) (Outcomes may ok) log) :
    Ends (attempt x >>= f) (Outcomes may ok) log := by
  refine ends_bind (ends_attempt (fun a _ => ⟨fun a' _ => hf a', nofun⟩)
    fun fault _ => ⟨nofun, fun e heq => ?_⟩)
  cases heq
  exact h

end Rules

section Runs

variable (H : Host) (S : Subscriber) (raw : Raw)

theorem ends_handoff (value : Envelope) {may : Prop} {log : List Event} (h : Pending may log) :
    Ends (handoff H S raw value) (Outcomes may (Authorised raw.sourceAddress)) log := by
  refine ends_ite (fun _ => ends_throw h) fun _ => ?_
  refine ends_call_bind h nofun fun h1 => ends_attempt_bind h1 fun transportId => ?_
  split
  · exact ends_throw h1
  refine ends_ite (fun _ => ?_) fun _ => ?_
  · refine ends_call_bind h1 nofun fun h2 => ends_finish h2 (.inr (.inl ?_))
    exact ⟨"failure_wire_oversize", by simp⟩
  · refine ends_await_bind h1 nofun (fun _ => ⟨rfl, nofun⟩) fun outcome h2 => ?_
    refine ends_ite (fun _ => ends_throw h2) fun hconfirmed => ?_
    refine ends_finish h2 (.inr (.inr ⟨by simp, ?_⟩))
    simp [not_not.mp hconfirmed]

theorem ends_handleFailure {may : Prop} {log : List Event} (h : Pending may log) :
    Ends (handleFailure H raw) (Outcomes may fun _ => True) log := by
  unfold handleFailure
  split
  · exact ends_call_bind h nofun fun h1 => ends_finish h1 trivial
  · exact ends_bind (ends_throw ⟨nofun, fun e heq => by cases heq; exact h⟩)
  · exact ends_call_bind h nofun fun h1 => ends_finish h1 trivial

theorem ends_handler {may : Prop} {log : List Event} {answer : Answer Fault Unit}
    {f : Bool → Handling Unit} {ok : List Event → Prop} (h : Pending may log) (hmay : may)
    (hf : ∀ failed l, Pending may l → (failed = false → .returned .handler ∈ l) →
      Ends (f failed) (Outcomes may ok) l) :
    Ends (tryCatch (do call .handler answer; pure false) (fun
        | .cancelled => throw .cancelled
        | .fault _ => pure true) >>= f) (Outcomes may ok) log := by
  refine ends_bind (ends_tryCatch (ends_bind (ends_await
    (fun a _ => ⟨fun _ _ => ends_pure ?_, nofun⟩) (fun fault _ => ⟨nofun, fun e heq => ?_⟩)
    fun _ => ⟨nofun, fun e heq => ?_⟩)))
  · refine ⟨fun failed heq => ⟨fun failed' heq' => ?_, nofun⟩, nofun⟩
    cases heq
    cases heq'
    exact hf false _ (h.append rfl fun _ => hmay) fun _ => by simp
  · cases heq
    refine ⟨nofun, fun e' heq' => ?_⟩
    cases heq'
    refine ends_pure ⟨fun failed heq'' => ?_, nofun⟩
    cases heq''
    exact hf true _ (h.append rfl fun _ => hmay) nofun
  · cases heq
    refine ⟨nofun, fun e' heq' => ?_⟩
    cases heq'
    refine ends_throw ⟨nofun, fun e'' heq'' => ?_⟩
    cases heq''
    exact ⟨h.append rfl fun _ => hmay, by simp⟩

theorem ends_handleBusiness {log : List Event} (h : Pending (raw.attempts ≤ S.maxAttempts) log) :
    Ends (handleBusiness H S raw)
      (Outcomes (raw.attempts ≤ S.maxAttempts) (Authorised raw.sourceAddress)) log := by
  unfold handleBusiness
  split
  · refine ends_call_bind h nofun fun h1 => ends_finish h1 (.inr (.inl ⟨"invalid_wire", ?_⟩))
    simp
  · exact ends_throw h
  refine ends_attempt_bind h fun transportId => ends_ite (fun _ => ends_handoff H S raw _ h) ?_
  intro hattempts
  refine ends_handler h (not_lt.mp hattempts) fun failed l hl hreturned => ?_
  cases failed with
  | false => exact ends_finish hl (.inl (hreturned rfl))
  | true =>
    rw [if_pos rfl]
    exact ends_ite (fun _ => ends_handoff H S raw _ hl) fun _ => ends_requeue hl

/-- Where `_handle` ends: the message is answered, or the task was cancelled. -/
def Settled (may : Prop) (ok : List Event → Prop) (log : List Event) : Prop :=
  Answered may ok log ∨ Pending may log ∧ .cancelled ∈ log

theorem ends_handle (failure : Bool) :
    Ends (handle H S raw failure)
      (fun r log => r = .ok () ∧ Settled (raw.attempts ≤ S.maxAttempts)
        (fun before => failure = false → Authorised raw.sourceAddress before) log) [] := by
  have hstart : Pending (raw.attempts ≤ S.maxAttempts) [] := ⟨rfl, nofun⟩
  have hinner : Ends (if failure then handleFailure H raw else handleBusiness H S raw)
      (Outcomes (raw.attempts ≤ S.maxAttempts)
        fun before => failure = false → Authorised raw.sourceAddress before) [] := by
    cases failure with
    | true => simpa using ends_handleFailure H raw hstart
    | false => simpa using ends_handleBusiness H S raw hstart
  refine ends_tryCatch (hinner.mono fun r log hlog => ⟨?_, ?_⟩)
  · rintro ⟨⟩ rfl
    exact ⟨rfl, .inl hlog⟩
  · rintro (_ | fault) rfl
    · exact ends_pure ⟨rfl, .inr hlog⟩
    · refine ends_bind (ends_logged ⟨fun responded heq => ?_, nofun⟩)
      cases heq
      rw [(H.message.first hlog.1).2]
      exact ends_respond hlog ⟨rfl, .inl ⟨log, hlog, .inr rfl⟩⟩

end Runs

theorem Answered.settlements_eq {may : Prop} {ok : List Event → Prop} {log : List Event}
    (h : Answered may ok log) : settlements log = 1 := by
  obtain ⟨before, hbefore, ⟨rfl, -⟩ | rfl⟩ := h
  all_goals
    rw [settlements, countP_append, ← settlements, hbefore.1]
    rfl

theorem Answered.called {may : Prop} {ok : List Event → Prop} {log : List Event}
    (h : Answered may ok log) (hcalled : .called .handler ∈ log) : may := by
  obtain ⟨before, hbefore, ⟨rfl, -⟩ | rfl⟩ := h
  all_goals exact hbefore.2 (by simpa using hcalled)

theorem Pending.not_finished {may : Prop} {log : List Event} (h : Pending may log) :
    .finished ∉ log :=
  fun hmem => countP_eq_zero.mp h.1 .finished hmem rfl

/-- Whatever the body, the attempts and the callbacks: one message is answered at most once, and
once unless the task was cancelled; a business message is finished last of all, and only once its
handler has returned, or the invalid handler has, or the failure channel of its own nsqd was ready
and that nsqd confirmed the handoff; past the attempts its handler is not called. -/
theorem message_settles_once (H : Host) (S : Subscriber) (raw : Raw) (failure : Bool) :
    settlements (logOf (handle H S raw failure)) ≤ 1 ∧
      (.cancelled ∉ logOf (handle H S raw failure) →
        settlements (logOf (handle H S raw failure)) = 1) ∧
      (failure = false → .finished ∈ logOf (handle H S raw failure) →
        ∃ before, logOf (handle H S raw failure) = before ++ [.finished] ∧
          Authorised raw.sourceAddress before) ∧
      (raw.attempts > S.maxAttempts → .called .handler ∉ logOf (handle H S raw failure)) := by
  obtain ⟨-, hanswered | ⟨hpending, hcancelled⟩⟩ := ends_handle H S raw failure
  · refine ⟨hanswered.settlements_eq.le, fun _ => hanswered.settlements_eq, ?_, ?_⟩
    · intro hbusiness hfinished
      obtain ⟨before, hbefore, ⟨heq, hok⟩ | heq⟩ := hanswered
      · exact ⟨before, heq, hok hbusiness⟩
      · have hmem : Event.finished ∈ before ++ [.requeued] := heq ▸ hfinished
        exact absurd (by simpa using hmem) hbefore.not_finished
    · intro hattempts hcalled
      exact absurd (hanswered.called hcalled) (not_le.mpr hattempts)
  · refine ⟨hpending.1.trans_le (Nat.zero_le 1), fun h => absurd hcancelled h, ?_, ?_⟩
    · intro _ hfinished
      exact absurd hfinished hpending.not_finished
    · intro hattempts hcalled
      exact absurd (hpending.2 hcalled) (not_le.mpr hattempts)

end ReliableMessaging.Python.Nsq
