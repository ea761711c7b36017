import ReliableMessaging.Threads
import ReliableMessaging.Wire.Legacy

/-!
# The RocketMQ subscriber

`rocketmq.Subscriber` from the moment a message was received: `handle` starts
`dispatch` in a goroutine, which calls the host's handler and, at the delivery
limit, the failure callback; when that is done `handle` settles what the host
has left unsettled. The host may call `Ack` and `Nack` from any goroutine, also
after its handler has returned.
-/

namespace ReliableMessaging.Transport.RocketMq

open Option

open Wire (Envelope Metadata)

structure View where
  topic : String
  body : Bytes
  messageId : String
  deliveryAttempt : Int
  bornTimestamp : Option Int

structure Received where
  provider : String
  physicalTopic : String
  wire : Bytes
  id : String
  transportId : String
  topic : String
  channel : String
  metadata : Metadata
  payload : Bytes
  attempts : Nat
  timestamp : Int

structure Failure where
  provider : String
  message : Received
  cause : String

/-- The route a message was received on, and what handling it reads of the configuration. -/
structure Subscription where
  topic : String
  physicalTopic : String
  channel : String
  maxAttempts : Nat
  /-- `legacy.Decode`: the envelope, whether it was recognized, and the error. -/
  decode : Bytes → Envelope × Bool × Option String

/-- The attempt as a `uint16`, at least 1. -/
def attempts (view : View) : Nat := (max 1 (min view.deliveryAttempt 65535)).toNat

def Subscription.decodeErr (S : Subscription) (view : View) : Option String :=
  if view.topic ≠ S.physicalTopic then
    some "received physical topic differs from trusted subscription"
  else (S.decode view.body).2.2

def Subscription.received (S : Subscription) (view : View) : Received :=
  let plain : Received :=
    { provider := "rocketmq", physicalTopic := view.topic, wire := view.body, id := "",
      transportId := view.messageId, topic := S.topic, channel := S.channel, metadata := [],
      payload := view.body, attempts := attempts view, timestamp := view.bornTimestamp.getD 0 }
  let (envelope, recognized, err) := S.decode view.body
  if view.topic = S.physicalTopic ∧ recognized = true ∧ err = none then
    { plain with
      id := envelope.uuid, metadata := envelope.metadata, payload := envelope.payload }
  else plain

/-! ## A delivery -/

inductive Return
  | nil
  | err (text : String)
  | panic

/-- The error that `dispatch` makes of it. -/
def Return.result : Return → Option String
  | .nil => none
  | .err text => some text
  | .panic => some "handler or failure audit panic"

inductive Dispatch
  | entering
  | handling
  | checking (err : String)
  | auditing (failure : Failure)
  | done (err : Option String)

inductive Handle
  | selecting
  | checking (err : Option String)
  | settling (err : Option String)
  | waiting
  | returned

inductive Verdict
  | ack
  | nack
deriving DecidableEq

structure Delivery where
  view : View
  dispatch : Dispatch := .entering
  handle : Handle := .selecting
  settled : Bool := false
  /-- The delivery's context has ended. -/
  cancelled : Bool := false
  /-- RPCs sent to the broker. -/
  acks : Nat := 0
  nacks : Nat := 0
  renewals : Nat := 0
  /-- The handler was called, and with it the host has the delivery. -/
  invoked : Bool := false
  /-- The host's first settlement call. -/
  first : Option Verdict := none
  /-- The handler returned nil before any settlement call. -/
  quiet : Bool := false
  /-- The failure callback was called, and returned nil. -/
  called : Bool := false
  audited : Bool := false

/-- `delivery.Ack`; `ok` is the RPC's result. -/
def Delivery.ack (ok : Bool) (d : Delivery) : Delivery :=
  if d.settled then d else { d with acks := d.acks + 1, settled := ok }

def Delivery.nack (ok : Bool) (d : Delivery) : Delivery :=
  if d.settled then d else { d with nacks := d.nacks + 1, settled := ok }

inductive Choice
  | cancel
  /-- The next statement of `dispatch`. -/
  | step
  /-- The handler, or the failure callback, ends. -/
  | returns (r : Return)
  /-- The host's settlement calls, with the RPC's result if they send one. -/
  | ack (ok : Bool)
  | nack (ok : Bool)
  /-- The branches of `handle`'s `select`. -/
  | done
  | ctx
  | tick (ok : Bool)
  /-- The next statement of `handle`, with the RPC's result if it sends one. -/
  | settle (ok : Bool)

/-- `dispatch` up to the handler or the failure callback. -/
def Delivery.enter (S : Subscription) (d : Delivery) : Delivery :=
  if S.maxAttempts < attempts d.view then
    { d with
      called := true
      dispatch := .auditing { provider := "rocketmq", message := S.received d.view,
                              cause := "delivery attempts exhausted" } }
  else
    match S.decodeErr d.view with
    | some err => { d with dispatch := .checking err }
    | none => { d with dispatch := .handling, invoked := true }

/-- `dispatch` after an error: at the delivery limit an unsettled message is audited. -/
def Delivery.check (S : Subscription) (err : String) (d : Delivery) : Delivery :=
  if S.maxAttempts ≤ attempts d.view ∧ d.settled = false then
    { d with
      called := true
      dispatch := .auditing
        { provider := "rocketmq", message := S.received d.view,
          cause := if (S.decodeErr d.view).isSome then "invalid envelope or physical source"
            else "handler failed at delivery limit" } }
  else { d with dispatch := .done (some err) }

def Delivery.move (S : Subscription) (k : Choice) (d : Delivery) : Option Delivery :=
  match k, d.dispatch, d.handle with
  | .cancel, _, _ => some { d with cancelled := true }
  | .ack ok, _, _ =>
    if d.invoked then some ({ d with first := some (d.first.getD .ack) }.ack ok) else none
  | .nack ok, _, _ =>
    if d.invoked then some ({ d with first := some (d.first.getD .nack) }.nack ok) else none
  | .step, .entering, _ => some (d.enter S)
  | .returns .nil, .handling, _ =>
    some { d with dispatch := .done none, quiet := d.quiet || d.first.isNone }
  | .returns (.err text), .handling, _ => some { d with dispatch := .checking text }
  -- A panic leaves `dispatch` at once, past the check of the delivery limit.
  | .returns .panic, .handling, _ => some { d with dispatch := .done Return.panic.result }
  | .step, .checking err, _ => some (d.check S err)
  | .returns r, .auditing _, _ =>
    some { d with dispatch := .done r.result, audited := d.audited || r.result.isNone }
  | .done, .done err, .selecting => some { d with handle := .checking err }
  | .ctx, _, .selecting => if d.cancelled then some { d with handle := .waiting } else none
  | .tick ok, _, .selecting =>
    if d.settled = false ∧ d.cancelled = false then
      some { d with renewals := d.renewals + 1, cancelled := !ok }
    else some d
  | .settle _, _, .checking err =>
    some { d with handle := if d.settled then .returned else .settling err }
  | .settle ok, _, .settling none => some { d.ack ok with handle := .returned }
  | .settle ok, _, .settling (some _) => some { d.nack ok with handle := .returned }
  | .done, .done _, .waiting => some { d with handle := .returned }
  | _, _, _ => none

def subscriber (S : Subscription) : Threads Unit Delivery View Choice where
  start view := { view := view }
  move k _ d := (d.move S k).map fun next => ((), next)

/-! ## First settlement wins, with a firm host -/

/-- What justifies an Ack RPC. -/
def Delivery.Justified (d : Delivery) : Prop :=
  d.first = some .ack ∨ d.quiet = true ∨ d.audited = true

structure Delivery.FirstWins (d : Delivery) : Prop where
  acks : d.acks ≠ 0 → d.Justified
  /-- A `Nack` of the running handler, without an audit, is never acknowledged. -/
  nacked : d.first = some .nack → d.quiet = false → d.called = false → d.acks = 0

/-- The host keeps to its `Nack`: while the delivery that it nacked first is unsettled, because
the RPC failed, it neither calls `Ack` nor returns nil from the handler. -/
def firm (k : Choice) (d : Delivery) : Bool :=
  match k with
  | .ack _ => d.first ≠ some .nack || d.settled
  | .returns .nil =>
    match d.dispatch with
    | .handling => d.first ≠ some .nack || d.settled
    | _ => true
  | _ => true

/-- `dispatch` or `handle` is about to acknowledge. -/
def Delivery.passing (d : Delivery) : Bool :=
  match d.dispatch, d.handle with
  | .done none, .selecting | _, .checking none | _, .settling none => true
  | _, _ => false

structure Delivery.Sound (d : Delivery) : Prop where
  acks : d.acks ≠ 0 → d.Justified
  passing : d.passing = true → d.settled = true ∨ d.Justified
  auditing : ∀ failure, d.dispatch = .auditing failure → d.called = true
  audited : d.audited = true → d.called = true

theorem Delivery.passing_iff {d : Delivery} :
    d.passing = true ↔ d.dispatch = .done none ∧ d.handle = .selecting ∨
      d.handle = .checking none ∨ d.handle = .settling none := by
  unfold Delivery.passing
  split <;> simp_all

section

variable {d : Delivery} {ok : Bool}

theorem Delivery.Sound.handled (h : d.Sound) {handle : Handle}
    (hpassing : { d with handle := handle }.passing = true → d.passing = true ∨ d.settled = true) :
    { d with handle := handle }.Sound where
  acks := h.acks
  passing hp := (hpassing hp).elim h.passing .inl
  auditing := h.auditing
  audited := h.audited

theorem Delivery.Sound.dispatched (h : d.Sound) {dispatch : Dispatch} {called invoked : Bool}
    (hdispatch : dispatch ≠ .done none) (haudit : ∀ failure, dispatch = .auditing failure → called)
    (hcalled : d.called = true → called = true) :
    { d with dispatch := dispatch, called := called, invoked := invoked }.Sound where
  acks := h.acks
  passing hp := by
    rcases Delivery.passing_iff.mp hp with ⟨hd, -⟩ | hhandle
    · exact absurd hd hdispatch
    · exact h.passing (Delivery.passing_iff.mpr (.inr hhandle))
  auditing := haudit
  audited := fun haudited => hcalled (h.audited haudited)

/-- A move of `dispatch` to its result, which is nil only for a delivery that is settled or whose
Ack is justified by then. -/
theorem Delivery.Sound.ended (h : d.Sound) {result : Option String} {quiet audited : Bool}
    (hquiet : d.quiet = true → quiet = true) (haudited : d.audited = true → audited = true)
    (hcalled : audited = true → d.called = true) (hnil : result = none →
      d.settled = true ∨ d.first = some .ack ∨ quiet = true ∨ audited = true) :
    { d with dispatch := .done result, quiet := quiet, audited := audited }.Sound := by
  have hjustified : d.Justified → d.first = some .ack ∨ quiet = true ∨ audited = true :=
    Or.imp id (Or.imp hquiet haudited)
  refine ⟨fun hacks => hjustified (h.acks hacks), fun hp => ?_, nofun, hcalled⟩
  rcases Delivery.passing_iff.mp hp with ⟨hd, -⟩ | hhandle
  · exact hnil (Dispatch.done.inj hd)
  · exact (h.passing (Delivery.passing_iff.mpr (.inr hhandle))).imp id hjustified

theorem Delivery.Sound.ack (h : d.Sound) (hjustified : d.settled = true ∨ d.Justified) :
    (d.ack ok).Sound := by
  unfold Delivery.ack
  split
  · exact h
  next hsettled =>
    have hjustified := hjustified.resolve_left hsettled
    exact ⟨fun _ => hjustified, fun _ => .inr hjustified, h.auditing, h.audited⟩

theorem Delivery.Sound.nack (h : d.Sound) : (d.nack ok).Sound := by
  unfold Delivery.nack
  split
  · exact h
  next hsettled =>
    exact ⟨h.acks, fun hp => .inr ((h.passing hp).resolve_left hsettled), h.auditing, h.audited⟩

/-- The host's first settlement call justifies no less than what was justified before. -/
theorem Delivery.Sound.called (h : d.Sound) (verdict : Verdict) :
    { d with first := some (d.first.getD verdict) }.Sound := by
  have hjustified : d.Justified → { d with first := some (d.first.getD verdict) }.Justified :=
    Or.imp (fun hfirst => by simp [hfirst]) id
  exact ⟨fun hacks => hjustified (h.acks hacks), fun hp => (h.passing hp).imp id hjustified,
    h.auditing, h.audited⟩

theorem Delivery.Sound.hostAck (h : d.Sound) (hfirm : d.first = some .nack → d.settled = true) :
    ({ d with first := some (d.first.getD .ack) }.ack ok).Sound := by
  refine (h.called .ack).ack ?_
  cases hfirst : d.first with
  | none => exact .inr (.inl rfl)
  | some verdict =>
    cases verdict with
    | ack => exact .inr (.inl rfl)
    -- The delivery is settled, so the call sends nothing.
    | nack => exact .inl (hfirm hfirst)

theorem Delivery.Sound.enter (h : d.Sound) (S : Subscription) : (d.enter S).Sound := by
  unfold Delivery.enter
  split
  · exact h.dispatched nofun (fun _ _ => rfl) fun _ => rfl
  · split
    · exact h.dispatched nofun nofun id
    · exact h.dispatched nofun nofun id

theorem Delivery.Sound.check (h : d.Sound) (S : Subscription) (err : String) :
    (d.check S err).Sound := by
  unfold Delivery.check
  split
  · exact h.dispatched nofun (fun _ _ => rfl) fun _ => rfl
  · exact h.dispatched nofun nofun id

end

theorem Delivery.Sound.move {S : Subscription} {k : Choice} {d d' : Delivery} (h : d.Sound)
    (hfirm : firm k d = true) (hmove : d.move S k = some d') : d'.Sound := by
  unfold Delivery.move at hmove
  split at hmove
  case h_1 =>
    cases hmove
    exact ⟨h.acks, h.passing, h.auditing, h.audited⟩
  case h_2 ok =>
    obtain ⟨-, hnext⟩ := ite_none_right_eq_some.mp hmove
    cases hnext
    refine h.hostAck fun hfirst => ?_
    simpa [firm, hfirst] using hfirm
  case h_3 ok =>
    obtain ⟨-, hnext⟩ := ite_none_right_eq_some.mp hmove
    cases hnext
    exact (h.called .nack).nack
  case h_4 =>
    cases hmove
    exact h.enter S
  case h_5 hdispatch =>
    cases hmove
    refine h.ended (fun hquiet => by simp [hquiet]) id h.audited fun _ => ?_
    cases hfirst : d.first with
    | none => exact .inr (.inr (.inl (by simp)))
    | some verdict =>
      cases verdict with
      | ack => exact .inr (.inl rfl)
      | nack =>
        refine .inl ?_
        simpa [firm, hdispatch, hfirst] using hfirm
  case h_6 | h_7 =>
    cases hmove
    exact h.dispatched nofun nofun id
  case h_8 err hdispatch =>
    cases hmove
    exact h.check S err
  case h_9 r failure hdispatch =>
    cases hmove
    have hcalled := h.auditing failure hdispatch
    exact h.ended id (fun haudited => by simp [haudited]) (fun _ => hcalled)
      fun hnil => .inr (.inr (.inr (by simp [hnil])))
  case h_10 err hdispatch hhandle =>
    cases hmove
    refine h.handled fun hp => .inl (Delivery.passing_iff.mpr (.inl ⟨?_, hhandle⟩))
    simpa [Delivery.passing_iff, hdispatch] using hp
  case h_11 =>
    obtain ⟨-, hnext⟩ := ite_none_right_eq_some.mp hmove
    cases hnext
    exact h.handled fun hp => by simp [Delivery.passing_iff] at hp
  case h_12 =>
    split at hmove <;> cases hmove
    · exact ⟨h.acks, h.passing, h.auditing, h.audited⟩
    · exact h
  case h_13 err hhandle =>
    cases hmove
    refine h.handled fun hp => ?_
    split at hp
    · simp [Delivery.passing_iff] at hp
    · refine .inl (Delivery.passing_iff.mpr (.inr (.inl ?_)))
      simpa [Delivery.passing_iff, hhandle] using hp
  case h_14 hhandle =>
    cases hmove
    have hpassing := h.passing (Delivery.passing_iff.mpr (.inr (.inr hhandle)))
    exact (h.ack hpassing).handled fun hp => by simp [Delivery.passing_iff] at hp
  case h_15 =>
    cases hmove
    exact h.nack.handled fun hp => by simp [Delivery.passing_iff] at hp
  case h_16 =>
    cases hmove
    exact h.handled fun hp => by simp [Delivery.passing_iff] at hp
  case h_17 => cases hmove

/-- In every run in which the hosts are firm, an Ack RPC is sent only for a delivery that was
acknowledged first, or left to its handler's nil return, or audited. -/
theorem first_settlement_wins (S : Subscription) {c : Threads.Conf Unit Delivery}
    (hc : ((subscriber S).only fun k _ d => firm k d).Reaches () c) :
    ∀ d ∈ c.pool, d.FirstWins := by
  have hsound : ∀ d ∈ c.pool, d.Sound := by
    refine Threads.Reaches.forall (fun view => ?_) ?_ hc
    · constructor <;> simp [subscriber, Threads.only, Delivery.passing]
    · intro _ d k _ d' hd hmove
      obtain ⟨hfirm, hmove⟩ := ite_none_right_eq_some.mp hmove
      obtain ⟨d1, hstep, hnext⟩ := map_eq_some_iff.mp hmove
      cases hnext
      exact hd.move hfirm hstep
  intro d hd
  obtain ⟨acks, -, -, audited⟩ := hsound d hd
  refine ⟨acks, fun hfirst hquiet hcalled => ?_⟩
  by_contra hacks
  rcases acks hacks with hack | hnil | haudited
  · rw [hfirst] at hack
    cases hack
  · rw [hquiet] at hnil
    cases hnil
  · rw [audited haudited] at hcalled
    cases hcalled

namespace Sample

def plain : Subscription where
  topic := "orders"
  physicalTopic := "orders"
  channel := "billing"
  maxAttempts := 3
  decode _ := ({ uuid := "", metadata := [], payload := [] }, false, none)

def view : View :=
  { topic := "orders", body := [1], messageId := "id", deliveryAttempt := 1, bornTimestamp := none }

def nackedTwice : List (Threads.Turn View Choice) :=
  [.call view, .move 0 .step, .move 0 (.nack false), .move 0 (.nack true),
    .move 0 (.returns .nil), .move 0 .done, .move 0 (.settle true)]

def nackLost : List (Threads.Turn View Choice) :=
  [.call view, .move 0 .step, .move 0 (.nack false), .move 0 (.returns .nil), .move 0 .done,
    .move 0 (.settle true), .move 0 (.settle true)]

end Sample

open RocketMq.Sample

theorem first_settlement_wins_nacked_twice :
    ∃ d : Delivery, ((subscriber plain).only fun k _ d => firm k d).Reaches () ⟨(), [d]⟩ ∧
      d.first = some .nack ∧ d.FirstWins ∧ d.acks = 0 := by
  have hrun : ((subscriber plain).only fun k _ d => firm k d).Reaches () ⟨(), [_]⟩ :=
    ⟨nackedTwice, rfl⟩
  have hwins := first_settlement_wins plain hrun _ List.mem_cons_self
  exact ⟨_, hrun, rfl, hwins, hwins.nacked rfl rfl rfl⟩

/-- A lost Nack RPC followed by a nil return acknowledges the delivery that was nacked. -/
theorem lost_nack_is_acknowledged :
    ∃ d : Delivery, (subscriber plain).Reaches () ⟨(), [d]⟩ ∧
      d.first = some .nack ∧ d.called = false ∧ d.acks = 1 ∧ ¬ d.FirstWins := by
  have hrun : (subscriber plain).Reaches () ⟨(), [_]⟩ := ⟨nackLost, rfl⟩
  refine ⟨_, hrun, rfl, rfl, rfl, fun hwins => ?_⟩
  exact absurd (hwins.nacked rfl rfl rfl) (by decide)

end ReliableMessaging.Transport.RocketMq
