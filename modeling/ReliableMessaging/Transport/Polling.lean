import Mathlib.Algebra.BigOperators.Group.Multiset.Basic
import Mathlib.Algebra.Order.BigOperators.Group.List
import Mathlib.Algebra.Order.Group.Nat
import ReliableMessaging.Transport.Subscriber

/-!
# The receive slots of the RocketMQ subscriber

`Subscribe` starts one poller a consumer group, and all of them share the
channel `slots`. A poller reserves up to sixteen slots before it receives,
gives back what it does not need, and hands one slot to the goroutine of each
message, which gives it back when `handle` has returned. `Close` ends the
context of the pollers and waits for them, then for the handlers.
-/

namespace ReliableMessaging.Transport.RocketMq.Polling

open List Option

/-- The goroutine that `Close` starts once: what it waits for. -/
inductive Drain
  | idle
  | pollers
  | handlers
  | closed
deriving DecidableEq

structure State where
  maxInFlight : Nat
  /-- Tokens in the channel. -/
  slots : Nat := 0
  stopping : Bool := false
  /-- `s.ctx` was made, and has ended. -/
  started : Bool := false
  cancelled : Bool := false
  /-- The two wait groups. -/
  pollers : Nat := 0
  handlers : Nat := 0
  drain : Drain := .idle

/-! ## Handlers -/

inductive Stage
  | running
  /-- The slot was given back. -/
  | released
  | finished
deriving DecidableEq

structure Worker where
  subscription : Subscription
  delivery : Delivery
  stage : Stage := .running

inductive Work
  /-- A move of `handle`, of `dispatch` or of the host. -/
  | handle (k : Choice)
  /-- The deferred receive on `slots`. -/
  | release
  /-- The deferred `Done`. -/
  | done

def Worker.move (k : Work) (s : State) (w : Worker) : Option (State × Worker) :=
  match k, w.stage, w.delivery.handle with
  | .handle k, _, _ => (w.delivery.move w.subscription k).map fun d => (s, { w with delivery := d })
  | .release, .running, .returned =>
    if 0 < s.slots then some ({ s with slots := s.slots - 1 }, { w with stage := .released })
    else none
  | .done, .released, _ =>
    some ({ s with handlers := s.handlers - 1 }, { w with stage := .finished })
  | _, _, _ => none

/-! ## Pollers -/

/-- Where `Subscribe`, and then `poll`, is. -/
inductive Poll
  | entering
  /-- At the `select` for the first slot. -/
  | reserving
  | topping (batch : Nat)
  | receiving (batch : Nat)
  /-- Giving all slots back, after an error or nothing received. -/
  | refunding (left : Nat)
  | pausing
  /-- Giving back the slots that no message needs. -/
  | trimming (left : Nat) (messages : List View)
  | starting (messages : List View)
  /-- Between `Add` and `go`. -/
  | spawning (message : View) (messages : List View)
  | leaving
  | returned

/-- An error of `Receive`, with the code if it is an RPC status. -/
structure ReceiveError where
  code : Option Int

/-- One call of `Subscribe` and what came of it. -/
structure Poller where
  route : Subscription
  routes : List (String × Subscription)
  poll : Poll := .entering
  workers : List Worker := []

inductive Move
  /-- The critical section of `Subscribe`, and whether everything else it needs succeeds. -/
  | subscribe (ok : Bool)
  /-- The branches of the `select`s. -/
  | slot
  | done
  | timer
  | receive (messages : List View) (err : Option ReceiveError)
  | step
  | work (worker : Nat) (k : Work)

/-- No message is not an error. -/
def receiveErr (err : Option ReceiveError) : Option ReceiveError :=
  err.bind fun e => if e.code = some 40401 then none else some e

def Poller.move (k : Move) (s : State) (p : Poller) : Option (State × Poller) :=
  match k, p.poll with
  | .subscribe ok, .entering =>
    if s.stopping = false ∧ ok = true then
      some ({ s with started := true, pollers := s.pollers + 1 }, { p with poll := .reserving })
    else some (s, { p with poll := .returned })
  | .done, .reserving => if s.cancelled then some (s, { p with poll := .leaving }) else none
  | .slot, .reserving =>
    if s.slots < s.maxInFlight then
      some ({ s with slots := s.slots + 1 }, { p with poll := .topping 1 })
    else none
  | .step, .topping batch =>
    if batch < 16 ∧ s.slots < s.maxInFlight then
      some ({ s with slots := s.slots + 1 }, { p with poll := .topping (batch + 1) })
    else some (s, { p with poll := .receiving batch })
  | .receive messages err, .receiving batch =>
    if (receiveErr err).isSome ∨ messages = [] then some (s, { p with poll := .refunding batch })
    else
      let messages := messages.take batch
      some (s, { p with poll := .trimming (batch - messages.length) messages })
  | .step, .refunding (left + 1) =>
    if 0 < s.slots then some ({ s with slots := s.slots - 1 }, { p with poll := .refunding left })
    else none
  | .step, .refunding 0 => some (s, { p with poll := if s.cancelled then .leaving else .pausing })
  | .done, .pausing => if s.cancelled then some (s, { p with poll := .leaving }) else none
  | .timer, .pausing => some (s, { p with poll := .reserving })
  | .step, .trimming (left + 1) messages =>
    if 0 < s.slots then
      some ({ s with slots := s.slots - 1 }, { p with poll := .trimming left messages })
    else none
  | .step, .trimming 0 messages => some (s, { p with poll := .starting messages })
  | .step, .starting [] => some (s, { p with poll := .reserving })
  | .step, .starting (message :: messages) =>
    some ({ s with handlers := s.handlers + 1 }, { p with poll := .spawning message messages })
  | .step, .spawning message messages =>
    let worker : Worker :=
      { subscription := (p.routes.lookup message.topic).getD p.route
        delivery := { view := message } }
    some (s, { p with poll := .starting messages, workers := p.workers ++ [worker] })
  | .step, .leaving => some ({ s with pollers := s.pollers - 1 }, { p with poll := .returned })
  | .work i k, _ =>
    (p.workers[i]?).bind fun w =>
      (w.move k s).map fun next => (next.1, { p with workers := p.workers.set i next.2 })
  | _, _ => none

/-! ## `Close` -/

inductive Closing
  | entering
  | waiting
  | returned
deriving DecidableEq

inductive Shut
  /-- The critical section, and the start of the goroutine that drains. -/
  | stop
  | drain
  | drained
  | ctx

def Closing.move (k : Shut) (s : State) (c : Closing) : Option (State × Closing) :=
  match k, c with
  | .stop, .entering =>
    some ({ s with
      stopping := true
      cancelled := s.cancelled || s.started
      drain := if s.drain = .idle then .pollers else s.drain }, .waiting)
  | .drain, _ =>
    match s.drain with
    | .pollers => if s.pollers = 0 then some ({ s with drain := .handlers }, c) else none
    | .handlers => if s.handlers = 0 then some ({ s with drain := .closed }, c) else none
    | _ => none
  | .drained, .waiting => if s.drain = .closed then some (s, .returned) else none
  -- The caller's context may end at any time.
  | .ctx, .waiting => some (s, .returned)
  | _, _ => none

/-! ## Threads -/

inductive Thread
  | poller (p : Poller)
  | close (c : Closing)

inductive Call
  | subscribe (route : Subscription) (routes : List (String × Subscription))
  | close

inductive Turn
  | poller (k : Move)
  | close (k : Shut)

def threads : Threads State Thread Call Turn where
  start
    | .subscribe route routes => .poller { route := route, routes := routes }
    | .close => .close .entering
  move k s t :=
    match k, t with
    | .poller k, .poller p => (p.move k s).map fun next => (next.1, .poller next.2)
    | .close k, .close c => (c.move k s).map fun next => (next.1, .close next.2)
    | _, _ => none

/-! ## Who owns a slot -/

namespace Poll

def reserved : Poll → Nat
  | .topping batch | .receiving batch => batch
  | .refunding left => left
  | .trimming left messages => left + messages.length
  | .starting messages => messages.length
  | .spawning _ messages => messages.length + 1
  | _ => 0

/-- The poller's share of its wait group. -/
def polling : Poll → Nat
  | .entering | .returned => 0
  | _ => 1

/-- The handler that was added and does not run yet. -/
def adding : Poll → Nat
  | .spawning _ _ => 1
  | _ => 0

end Poll

def Worker.isRunning (w : Worker) : Bool := w.stage = .running

def Worker.isWorking (w : Worker) : Bool := w.stage ≠ .finished

def Poller.running (p : Poller) : Nat := p.workers.countP Worker.isRunning

/-- The handlers' share of their wait group. -/
def Poller.working (p : Poller) : Nat := p.workers.countP Worker.isWorking + p.poll.adding

namespace Thread

def reserved : Thread → Nat
  | .poller p => p.poll.reserved
  | .close _ => 0

def running : Thread → Nat
  | .poller p => p.running
  | .close _ => 0

def polling : Thread → Nat
  | .poller p => p.poll.polling
  | .close _ => 0

def working : Thread → Nat
  | .poller p => p.working
  | .close _ => 0

end Thread

/-! ## One move -/

variable {s s' : State} {t t' : Thread} {p p' : Poller} {w w' : Worker}

/-- What a move of `t` does to the channel and the wait groups. -/
structure Step (s s' : State) (t t' : Thread) : Prop where
  maxInFlight : s'.maxInFlight = s.maxInFlight
  slots : s'.slots + (t.reserved + t.running) = s.slots + (t'.reserved + t'.running)
  bounded : s.slots ≤ s.maxInFlight → s'.slots ≤ s.maxInFlight
  pollers : t.polling ≤ s.pollers → s'.pollers + t.polling = s.pollers + t'.polling
  handlers : t.working ≤ s.handlers → s'.handlers + t.working = s.handlers + t'.working
  /-- Nobody subscribes any more. -/
  late : s.stopping = true → s'.stopping = true ∧ t'.polling ≤ t.polling
  /-- Only a poller starts handlers. -/
  settled : t.polling = 0 → s.stopping = true → t'.working ≤ t.working

/-- What a move does that leaves the handlers alone. -/
structure Changes (s s' : State) (a b : Poll) : Prop where
  maxInFlight : s'.maxInFlight = s.maxInFlight
  stopping : s'.stopping = s.stopping
  drain : s'.drain = s.drain
  slots : s'.slots + a.reserved = s.slots + b.reserved
  bounded : s.slots ≤ s.maxInFlight → s'.slots ≤ s.maxInFlight
  pollers : a.polling ≤ s.pollers → s'.pollers + a.polling = s.pollers + b.polling
  handlers : a.adding ≤ s.handlers → s'.handlers + a.adding = s.handlers + b.adding
  late : s.stopping = true → b.polling ≤ a.polling
  settled : a.polling = 0 → b.adding ≤ a.adding

variable {a b : Poll} {workers : List Worker} {i : Nat} {k : Turn} {c c' : Closing}

theorem Changes.step (hpoll : p.poll = a) (h : Changes s s' a b) :
    Step s s' (.poller p) (.poller { p with poll := b }) ∧ s'.drain = s.drain := by
  subst hpoll
  refine ⟨?_, h.drain⟩
  exact {
    maxInFlight := h.maxInFlight
    slots := by
      have hslots := h.slots
      simp only [Thread.reserved, Thread.running, Poller.running]
      omega
    bounded := h.bounded
    pollers := h.pollers
    handlers := fun hle => by
      simp only [Thread.working, Poller.working] at hle ⊢
      have hhandlers := h.handlers (by omega)
      omega
    late := fun hstopping => ⟨h.stopping.trans hstopping, h.late hstopping⟩
    settled := fun hpolling _ => Nat.add_le_add_left (h.settled hpolling) _ }

theorem Changes.stay (reserved : a.reserved = b.reserved) (polling : a.polling = b.polling)
    (adding : a.adding = b.adding) : Changes s s a b where
  maxInFlight := rfl
  stopping := rfl
  drain := rfl
  slots := by rw [reserved]
  bounded := id
  pollers _ := by rw [polling]
  handlers _ := by rw [adding]
  late _ := polling.ge
  settled _ := adding.ge

theorem Changes.take (hfree : s.slots < s.maxInFlight) (reserved : b.reserved = a.reserved + 1)
    (polling : a.polling = b.polling) (adding : a.adding = b.adding) :
    Changes s { s with slots := s.slots + 1 } a b where
  maxInFlight := rfl
  stopping := rfl
  drain := rfl
  slots := by
    simp only [reserved]
    omega
  bounded _ := hfree
  pollers _ := by rw [polling]
  handlers _ := by rw [adding]
  late _ := polling.ge
  settled _ := adding.ge

theorem Changes.give (hheld : 0 < s.slots) (reserved : a.reserved = b.reserved + 1)
    (polling : a.polling = b.polling) (adding : a.adding = b.adding) :
    Changes s { s with slots := s.slots - 1 } a b where
  maxInFlight := rfl
  stopping := rfl
  drain := rfl
  slots := by
    simp only [reserved]
    omega
  bounded := (Nat.sub_le _ _).trans
  pollers _ := by rw [polling]
  handlers _ := by rw [adding]
  late _ := polling.ge
  settled _ := adding.ge

theorem countP_set (h : workers[i]? = some w) (q : Worker → Bool) (w' : Worker) :
    (workers.set i w').countP q + (q w).toNat = workers.countP q + (q w').toNat := by
  have htally : ∀ l : List Worker, l.countP q = Threads.tally q l := fun l => by
    simp [Threads.tally]
  obtain ⟨others, hbefore, hafter⟩ := Threads.pool_split h
  rw [htally, htally, hbefore, hafter, Threads.tally_cons, Threads.tally_cons]
  omega

theorem Worker.move_cases {k : Work} (h : w.move k s = some (s', w')) :
    s' = s ∧ w'.stage = w.stage ∨
    w.stage = .running ∧ 0 < s.slots ∧ s' = { s with slots := s.slots - 1 } ∧
      w'.stage = .released ∨
    w.stage = .released ∧ s' = { s with handlers := s.handlers - 1 } ∧ w'.stage = .finished := by
  unfold Worker.move at h
  split at h
  · obtain ⟨d, -, hnext⟩ := map_eq_some_iff.mp h
    cases hnext
    exact .inl ⟨rfl, rfl⟩
  next hstage _ =>
    obtain ⟨hslots, hnext⟩ := ite_none_right_eq_some.mp h
    cases hnext
    exact .inr (.inl ⟨hstage, hslots, rfl, rfl⟩)
  next hstage =>
    cases h
    exact .inr (.inr ⟨hstage, rfl, rfl⟩)
  · cases h

theorem step_of_workers (hmax : s'.maxInFlight = s.maxInFlight)
    (hstopping : s'.stopping = s.stopping) (hpollers : s'.pollers = s.pollers)
    (hle : s'.slots ≤ s.slots)
    (hslots : s'.slots + p.workers.countP Worker.isRunning = s.slots + workers.countP Worker.isRunning)
    (hhandlers : p.workers.countP Worker.isWorking ≤ s.handlers →
      s'.handlers + p.workers.countP Worker.isWorking =
      s.handlers + workers.countP Worker.isWorking)
    (hworking : workers.countP Worker.isWorking ≤ p.workers.countP Worker.isWorking) :
    Step s s' (.poller p) (.poller { p with workers := workers }) where
  maxInFlight := hmax
  slots := by
    simp only [Thread.reserved, Thread.running, Poller.running]
    omega
  bounded := hle.trans
  pollers _ := by rw [hpollers]; rfl
  handlers hpool := by
    simp only [Thread.working, Poller.working] at hpool ⊢
    have := hhandlers (by omega)
    omega
  late h := ⟨hstopping.trans h, Nat.le_refl _⟩
  settled _ _ := Nat.add_le_add_right hworking _

theorem Worker.step {k : Work} (hw : p.workers[i]? = some w) (h : w.move k s = some (s', w')) :
    Step s s' (.poller p) (.poller { p with workers := p.workers.set i w' }) := by
  have hrunning := countP_set hw Worker.isRunning w'
  have hworking := countP_set hw Worker.isWorking w'
  obtain ⟨rfl, hstage⟩ | ⟨hstage, hslots, rfl, hstage'⟩ | ⟨hstage, rfl, hstage'⟩ :=
    Worker.move_cases h
  · simp only [Worker.isRunning, Worker.isWorking, hstage, Nat.add_right_cancel_iff]
      at hrunning hworking
    exact step_of_workers rfl rfl rfl (Nat.le_refl _) (congrArg _ hrunning.symm)
      (fun _ => congrArg _ hworking.symm) hworking.le
  · have hbefore : w.isRunning = true ∧ w.isWorking = true := by
      simp [Worker.isRunning, Worker.isWorking, hstage]
    have hafter : w'.isRunning = false ∧ w'.isWorking = true := by
      simp [Worker.isRunning, Worker.isWorking, hstage']
    simp only [hbefore, hafter, Bool.toNat_true, Bool.toNat_false] at hrunning hworking
    refine step_of_workers rfl rfl rfl (Nat.sub_le _ _) ?_ (fun _ => ?_) (by omega)
    · simp only
      omega
    · simp only
      omega
  · have hbefore : w.isRunning = false ∧ w.isWorking = true := by
      simp [Worker.isRunning, Worker.isWorking, hstage]
    have hafter : w'.isRunning = false ∧ w'.isWorking = false := by
      simp [Worker.isRunning, Worker.isWorking, hstage']
    simp only [hbefore, hafter, Bool.toNat_true, Bool.toNat_false] at hrunning hworking
    refine step_of_workers rfl rfl rfl (Nat.le_refl _) ?_ (fun _ => ?_) (by omega)
    · simp only
      omega
    · simp only
      omega

theorem spawn_step {message : View} {messages : List View}
    (hpoll : p.poll = .spawning message messages) (hw : w.stage = .running) :
    Step s s (.poller p)
      (.poller { p with poll := .starting messages, workers := p.workers ++ [w] }) := by
  have hrunning : w.isRunning = true := by simp [Worker.isRunning, hw]
  have hworking : w.isWorking = true := by simp [Worker.isWorking, hw]
  have hsame : Thread.working (.poller { p with
      poll := .starting messages, workers := p.workers ++ [w] }) = Thread.working (.poller p) := by
    simp [Thread.working, Poller.working, hpoll, Poll.adding, hworking]
  exact {
    maxInFlight := rfl
    slots := by
      simp only [Thread.reserved, hpoll, Poll.reserved, Thread.running, Poller.running,
        countP_append, countP_singleton, hrunning, if_true]
      omega
    bounded := id
    pollers := fun _ => by simp [Thread.polling, hpoll, Poll.polling]
    handlers := fun _ => by rw [hsame]
    late := fun hstopping => ⟨hstopping, by simp [Thread.polling, hpoll, Poll.polling]⟩
    settled := fun _ _ => hsame.le }

theorem Poller.step {k : Move} (h : p.move k s = some (s', p')) :
    Step s s' (.poller p) (.poller p') ∧ s'.drain = s.drain := by
  unfold Poller.move at h
  split at h
  case h_1 ok hpoll =>
    split at h
    next hopen =>
      cases h
      refine Changes.step hpoll ?_
      constructor <;> simp [Poll.reserved, Poll.polling, Poll.adding, hopen.1]
    · cases h
      exact Changes.step hpoll (.stay rfl rfl rfl)
  case h_2 hpoll | h_8 hpoll =>
    obtain ⟨-, hnext⟩ := ite_none_right_eq_some.mp h
    cases hnext
    exact Changes.step hpoll (.stay rfl rfl rfl)
  case h_3 hpoll =>
    obtain ⟨hfree, hnext⟩ := ite_none_right_eq_some.mp h
    cases hnext
    exact Changes.step hpoll (.take hfree rfl rfl rfl)
  case h_4 batch hpoll =>
    split at h
    next hfree =>
      cases h
      exact Changes.step hpoll (.take hfree.2 rfl rfl rfl)
    · cases h
      exact Changes.step hpoll (.stay rfl rfl rfl)
  case h_5 messages err batch hpoll =>
    split at h
    · cases h
      exact Changes.step hpoll (.stay rfl rfl rfl)
    · cases h
      have hbatch : batch = batch - (messages.take batch).length + (messages.take batch).length := by
        have := length_take_le batch messages
        omega
      exact Changes.step hpoll (.stay hbatch rfl rfl)
  case h_6 left hpoll =>
    obtain ⟨hheld, hnext⟩ := ite_none_right_eq_some.mp h
    cases hnext
    exact Changes.step hpoll (.give hheld rfl rfl rfl)
  case h_7 hpoll =>
    cases h
    refine Changes.step hpoll ?_
    split
    · exact .stay rfl rfl rfl
    · exact .stay rfl rfl rfl
  case h_9 hpoll | h_11 messages hpoll | h_12 hpoll =>
    cases h
    exact Changes.step hpoll (.stay (by simp [Poll.reserved]) rfl rfl)
  case h_10 left messages hpoll =>
    obtain ⟨hheld, hnext⟩ := ite_none_right_eq_some.mp h
    cases hnext
    refine Changes.step hpoll (.give hheld ?_ rfl rfl)
    simp only [Poll.reserved]
    omega
  case h_13 message messages hpoll =>
    cases h
    refine Changes.step hpoll ?_
    constructor <;> simp [Poll.reserved, Poll.polling, Poll.adding]
  case h_14 message messages hpoll =>
    cases h
    exact ⟨spawn_step hpoll rfl, rfl⟩
  case h_15 hpoll =>
    cases h
    refine Changes.step hpoll ?_
    constructor <;> simp [Poll.reserved, Poll.polling, Poll.adding]
    omega
  case h_16 i k =>
    obtain ⟨w, hw, hmove⟩ := bind_eq_some_iff.mp h
    obtain ⟨⟨s1, w1⟩, hworker, hnext⟩ := map_eq_some_iff.mp hmove
    cases hnext
    refine ⟨Worker.step hw hworker, ?_⟩
    obtain ⟨rfl, -⟩ | ⟨-, -, rfl, -⟩ | ⟨-, rfl, -⟩ := Worker.move_cases hworker <;> rfl
  case h_17 => cases h

theorem step_of_close (hmax : s'.maxInFlight = s.maxInFlight) (hslots : s'.slots = s.slots)
    (hpollers : s'.pollers = s.pollers) (hhandlers : s'.handlers = s.handlers)
    (hstopping : s.stopping = true → s'.stopping = true) : Step s s' (.close c) (.close c') where
  maxInFlight := hmax
  slots := congrArg (· + 0) hslots
  bounded := hslots.le.trans
  pollers _ := hpollers
  handlers _ := hhandlers
  late h := ⟨hstopping h, Nat.le_refl _⟩
  settled _ _ := Nat.le_refl _

/-- What a move of `Close` waits for. -/
def Drains (s s' : State) : Prop :=
  s'.drain = s.drain ∨ s'.drain = .pollers ∧ s'.stopping = true ∨
    s.drain = .pollers ∧ s'.drain = .handlers ∧ s.pollers = 0 ∨
    s.drain = .handlers ∧ s'.drain = .closed ∧ s.handlers = 0

theorem Closing.step {k : Shut} (h : c.move k s = some (s', c')) :
    Step s s' (.close c) (.close c') ∧ Drains s s' := by
  unfold Closing.move at h
  split at h
  case h_1 =>
    cases h
    refine ⟨step_of_close rfl rfl rfl rfl fun _ => rfl, ?_⟩
    by_cases hidle : s.drain = .idle
    · exact .inr (.inl ⟨if_pos hidle, rfl⟩)
    · exact .inl (if_neg hidle)
  case h_2 =>
    split at h
    next hdrain =>
      obtain ⟨hzero, hnext⟩ := ite_none_right_eq_some.mp h
      cases hnext
      exact ⟨step_of_close rfl rfl rfl rfl id, .inr (.inr (.inl ⟨hdrain, rfl, hzero⟩))⟩
    next hdrain =>
      obtain ⟨hzero, hnext⟩ := ite_none_right_eq_some.mp h
      cases hnext
      exact ⟨step_of_close rfl rfl rfl rfl id, .inr (.inr (.inr ⟨hdrain, rfl, hzero⟩))⟩
    · cases h
  case h_3 =>
    obtain ⟨-, hnext⟩ := ite_none_right_eq_some.mp h
    cases hnext
    exact ⟨step_of_close rfl rfl rfl rfl id, .inl rfl⟩
  case h_4 =>
    cases h
    exact ⟨step_of_close rfl rfl rfl rfl id, .inl rfl⟩
  case h_5 => cases h

theorem threads_step (h : threads.move k s t = some (s', t')) : Step s s' t t' ∧ Drains s s' := by
  cases t with
  | poller p =>
    cases k with
    | poller k =>
      obtain ⟨⟨s1, p1⟩, hmove, hnext⟩ := map_eq_some_iff.mp h
      cases hnext
      obtain ⟨hstep, hdrain⟩ := Poller.step hmove
      exact ⟨hstep, .inl hdrain⟩
    | close k => cases h
  | close c =>
    cases k with
    | poller k => cases h
    | close k =>
      obtain ⟨⟨s1, c1⟩, hmove, hnext⟩ := map_eq_some_iff.mp h
      cases hnext
      exact Closing.step hmove

/-! ## All threads together -/

/-- Every token has an owner, and the wait groups count the pollers and handlers. -/
structure Sound (maxInFlight : Nat) (s : State) (pool : Multiset Thread) : Prop where
  maxInFlight : s.maxInFlight = maxInFlight
  slots : s.slots = (pool.map fun t => t.reserved + t.running).sum
  bounded : s.slots ≤ s.maxInFlight
  pollers : s.pollers = (pool.map Thread.polling).sum
  handlers : s.handlers = (pool.map Thread.working).sum
  stopping : s.drain ≠ .idle → s.stopping = true
  /-- What the draining goroutine has seen stays so. -/
  quiet : s.drain = .handlers ∨ s.drain = .closed → s.pollers = 0
  empty : s.drain = .closed → s.handlers = 0

theorem Sound.call {maxInFlight : Nat} {pool : Multiset Thread} (h : Sound maxInFlight s pool)
    (a : Call) : Sound maxInFlight s (threads.start a ::ₘ pool) := by
  have hslots : (threads.start a).reserved + (threads.start a).running = 0 := by
    cases a <;> rfl
  have hpolling : (threads.start a).polling = 0 := by
    cases a <;> rfl
  have hworking : (threads.start a).working = 0 := by
    cases a <;> rfl
  exact { h with
    slots := by rw [Multiset.map_cons, Multiset.sum_cons, hslots, Nat.zero_add, h.slots]
    pollers := by rw [Multiset.map_cons, Multiset.sum_cons, hpolling, Nat.zero_add, h.pollers]
    handlers := by rw [Multiset.map_cons, Multiset.sum_cons, hworking, Nat.zero_add, h.handlers] }

theorem Sound.move {maxInFlight : Nat} {others : Multiset Thread}
    (h : Sound maxInFlight s (t ::ₘ others)) (hmove : threads.move k s t = some (s', t')) :
    Sound maxInFlight s' (t' ::ₘ others) := by
  obtain ⟨hstep, hdrains⟩ := threads_step hmove
  obtain ⟨hmax, hslots, hbounded, hpollers, hhandlers, hstopping, hquiet, hempty⟩ := h
  simp only [Multiset.map_cons, Multiset.sum_cons] at hslots hpollers hhandlers
  have hslots' := hstep.slots
  have hpollers' := hstep.pollers (by omega)
  have hhandlers' := hstep.handlers (by omega)
  -- Behind a shut door the pollers only get fewer, and without pollers the handlers do.
  have hfewer : s.stopping = true → s'.pollers ≤ s.pollers := by
    intro hshut
    have := (hstep.late hshut).2
    omega
  have hfewer' : s.stopping = true → s.pollers = 0 → s'.handlers ≤ s.handlers := by
    intro hshut hzero
    have := hstep.settled (by omega) hshut
    omega
  refine ⟨hstep.maxInFlight.trans hmax, ?_, ?_, ?_, ?_, ?_, ?_, ?_⟩
  · simp only [Multiset.map_cons, Multiset.sum_cons]
    omega
  · rw [hstep.maxInFlight]
    exact hstep.bounded hbounded
  · simp only [Multiset.map_cons, Multiset.sum_cons]
    omega
  · simp only [Multiset.map_cons, Multiset.sum_cons]
    omega
  · intro hdrain
    obtain hsame | ⟨-, hshut⟩ | ⟨hold, -⟩ | ⟨hold, -⟩ := hdrains
    · exact (hstep.late (hstopping (hsame ▸ hdrain))).1
    · exact hshut
    · exact (hstep.late (hstopping (by simp [hold]))).1
    · exact (hstep.late (hstopping (by simp [hold]))).1
  · intro hdrain
    have hzero : s.stopping = true ∧ s.pollers = 0 := by
      obtain hsame | ⟨hnew, -⟩ | ⟨hold, -, hzero⟩ | ⟨hold, -⟩ := hdrains
      · rw [hsame] at hdrain
        exact ⟨hstopping (by rcases hdrain with h | h <;> simp [h]), hquiet hdrain⟩
      · simp [hnew] at hdrain
      · exact ⟨hstopping (by simp [hold]), hzero⟩
      · exact ⟨hstopping (by simp [hold]), hquiet (.inl hold)⟩
    have := hfewer hzero.1
    omega
  · intro hdrain
    have hzero : s.stopping = true ∧ s.pollers = 0 ∧ s.handlers = 0 := by
      obtain hsame | ⟨hnew, -⟩ | ⟨-, hnew, -⟩ | ⟨hold, -, hzero⟩ := hdrains
      · rw [hsame] at hdrain
        exact ⟨hstopping (by simp [hdrain]), hquiet (.inr hdrain), hempty hdrain⟩
      · simp [hnew] at hdrain
      · simp [hnew] at hdrain
      · exact ⟨hstopping (by simp [hold]), hquiet (.inl hold), hzero⟩
    have := hfewer' hzero.1 hzero.2.1
    omega

theorem sound_of_reaches {maxInFlight : Nat} {c : Threads.Conf State Thread}
    (hc : threads.Reaches { maxInFlight := maxInFlight } c) :
    Sound maxInFlight c.shared c.pool := by
  refine Threads.Leads.invariant (fun _ _ a h => h.call a) (fun _ _ _ _ _ _ h hmove => h.move hmove)
    hc ?_
  exact ⟨rfl, rfl, Nat.zero_le _, rfl, rfl, by simp, by simp, by simp⟩

/-! ## Giving back and draining -/

/-- The moves that are a receive on `slots`, where the thread stands before it. -/
inductive Thread.GivesBack : Thread → Turn → Prop
  | refund {p : Poller} {left : Nat} (hpoll : p.poll = .refunding (left + 1)) :
      GivesBack (.poller p) (.poller .step)
  | trim {p : Poller} {left : Nat} {messages : List View}
      (hpoll : p.poll = .trimming (left + 1) messages) : GivesBack (.poller p) (.poller .step)
  | release {p : Poller} {i : Nat} {w : Worker} (hw : p.workers[i]? = some w)
      (hstage : w.stage = .running) (hhandle : w.delivery.handle = .returned) :
      GivesBack (.poller p) (.poller (.work i .release))

theorem Thread.GivesBack.owns (h : t.GivesBack k) : 0 < t.reserved + t.running := by
  cases h with
  | refund hpoll =>
    rw [Thread.reserved, hpoll]
    exact Nat.add_pos_left (Nat.succ_pos _) _
  | trim hpoll =>
    rw [Thread.reserved, hpoll]
    exact Nat.add_pos_left (Nat.add_pos_left (Nat.succ_pos _) _) _
  | release hw hstage _ =>
    refine Nat.add_pos_right _ (countP_pos_iff.mpr ⟨_, mem_of_getElem? hw, ?_⟩)
    simp [Worker.isRunning, hstage]

theorem Thread.GivesBack.move (h : t.GivesBack k) (hslots : 0 < s.slots) :
    ∃ s' t', threads.move k s t = some (s', t') ∧ s'.slots + 1 = s.slots := by
  have hone : s.slots - 1 + 1 = s.slots := Nat.sub_add_cancel hslots
  cases h with
  | @refund p left hpoll =>
    refine ⟨{ s with slots := s.slots - 1 }, .poller { p with poll := .refunding left }, ?_, hone⟩
    simp [threads, Poller.move, hpoll, if_pos hslots]
  | @trim p left messages hpoll =>
    refine ⟨{ s with slots := s.slots - 1 }, .poller { p with poll := .trimming left messages }, ?_,
      hone⟩
    simp [threads, Poller.move, hpoll, if_pos hslots]
  | @release p i w hw hstage hhandle =>
    refine ⟨{ s with slots := s.slots - 1 },
      .poller { p with workers := p.workers.set i { w with stage := .released } }, ?_, hone⟩
    simp [threads, Poller.move, hw, Worker.move, hstage, hhandle, if_pos hslots]

/-- A thread that is no poller, or none any more, and whose handlers are finished. -/
def Thread.Over : Thread → Prop
  | .poller p => p.poll.polling = 0 ∧ ∀ w ∈ p.workers, w.stage = .finished
  | .close _ => True

theorem Poll.reserved_of_polling (h : a.polling = 0) : a.reserved = 0 := by
  cases a <;> first | rfl | cases h

theorem Thread.Over.owns_nothing (h : t.Over) : t.reserved + t.running = 0 := by
  cases t with
  | close c => rfl
  | poller p =>
    have hrunning : p.running = 0 := by
      refine countP_eq_zero.mpr fun w hw => ?_
      simp [Worker.isRunning, h.2 w hw]
    rw [Thread.reserved, Thread.running, Poll.reserved_of_polling h.1, hrunning]

section Pool

variable {maxInFlight : Nat} {pool : List Thread}

theorem Sound.owned (h : Sound maxInFlight s pool) :
    s.slots = (pool.map fun t => t.reserved + t.running).sum := by
  have hslots := h.slots
  rwa [Multiset.map_coe, Multiset.sum_coe] at hslots

theorem Sound.pos_of_givesBack (h : Sound maxInFlight s pool) (ht : t ∈ pool) {k : Turn}
    (hk : t.GivesBack k) : 0 < s.slots := by
  have hle := single_le_sum (fun _ _ => Nat.zero_le _) _
    (mem_map_of_mem (f := fun t => Thread.reserved t + Thread.running t) ht)
  rw [h.owned]
  exact Nat.lt_of_lt_of_le hk.owns hle

theorem Sound.empty_of_over (h : Sound maxInFlight s pool) (hover : ∀ t ∈ pool, t.Over) :
    s.slots = 0 := by
  rw [h.owned]
  refine sum_eq_zero fun n hn => ?_
  obtain ⟨t, ht, rfl⟩ := mem_map.mp hn
  exact (hover t ht).owns_nothing

/-- What `Close` waits for is that all threads are over. -/
theorem Sound.over_of_closed (h : Sound maxInFlight s pool) (hclosed : s.drain = .closed) :
    ∀ t ∈ pool, t.Over := by
  have hpollers := h.pollers.symm.trans (h.quiet (.inr hclosed))
  have hhandlers := h.handlers.symm.trans (h.empty hclosed)
  rw [Multiset.map_coe, Multiset.sum_coe] at hpollers hhandlers
  intro t ht
  have hpolling := sum_eq_zero_iff.mp hpollers _ (mem_map_of_mem ht)
  have hworking := sum_eq_zero_iff.mp hhandlers _ (mem_map_of_mem ht)
  cases t with
  | close c => trivial
  | poller p =>
    refine ⟨hpolling, fun w hw => ?_⟩
    have hfinished := countP_eq_zero.mp (Nat.add_eq_zero_iff.mp hworking).1 w hw
    simpa [Worker.isWorking] using hfinished

end Pool

/-- In every interleaving the tokens in the channel are the slots that pollers have reserved and
those of the handlers that run, at most `MaxInFlight` of them; a receive that gives a slot back
goes through at once; and when all pollers have returned and all handlers are finished the channel
is empty. -/
theorem slots_are_conserved (maxInFlight : Nat) {c : Threads.Conf State Thread}
    (hc : threads.Reaches { maxInFlight := maxInFlight } c) :
    c.shared.slots = (c.pool.map Thread.reserved).sum + (c.pool.map Thread.running).sum ∧
      c.shared.slots ≤ maxInFlight ∧
      (∀ t ∈ c.pool, ∀ k, t.GivesBack k →
        ∃ s' t', threads.move k c.shared t = some (s', t') ∧ s'.slots + 1 = c.shared.slots) ∧
      ((∀ t ∈ c.pool, t.Over) → c.shared.slots = 0) := by
  have h := sound_of_reaches hc
  refine ⟨?_, h.maxInFlight ▸ h.bounded, fun t ht k hk => hk.move (h.pos_of_givesBack ht hk),
    h.empty_of_over⟩
  rw [h.owned, sum_map_add]

/-- When `Close` has drained, every poller has returned, every handler is finished and the channel
is empty. -/
theorem all_over_of_closed {maxInFlight : Nat} {c : Threads.Conf State Thread}
    (hc : threads.Reaches { maxInFlight := maxInFlight } c) (hclosed : c.shared.drain = .closed) :
    (∀ t ∈ c.pool, t.Over) ∧ c.shared.slots = 0 := by
  have h := sound_of_reaches hc
  exact ⟨h.over_of_closed hclosed, h.empty_of_over (h.over_of_closed hclosed)⟩

namespace Sample

/-- Two slots are reserved and two messages come for them, one of which is handled. -/
def polled : List (Threads.Turn Call Turn) :=
  [.call (.subscribe RocketMq.Sample.plain []), .move 0 (.poller (.subscribe true)),
    .move 0 (.poller .slot), .move 0 (.poller .step), .move 0 (.poller .step),
    .move 0 (.poller (.receive [RocketMq.Sample.view, RocketMq.Sample.view,
      RocketMq.Sample.view] none)),
    .move 0 (.poller .step), .move 0 (.poller .step), .move 0 (.poller .step)]

/-- A poller starts a handler and is closed; it leaves, and the handler ends after it. -/
def closed : List (Threads.Turn Call Turn) :=
  [.call (.subscribe RocketMq.Sample.plain []), .move 0 (.poller (.subscribe true)),
    .move 0 (.poller .slot), .move 0 (.poller .step),
    .move 0 (.poller (.receive [RocketMq.Sample.view] none)), .move 0 (.poller .step),
    .move 0 (.poller .step), .move 0 (.poller .step), .move 0 (.poller .step), .call .close,
    .move 1 (.close .stop), .move 0 (.poller .done), .move 0 (.poller .step),
    .move 1 (.close .drain)] ++
  ([.handle .step, .handle (.returns .nil), .handle .done, .handle (.settle true),
    .handle (.settle true), .release, .done].map fun k => .move 0 (.poller (.work 0 k))) ++
  [.move 1 (.close .drain)]

end Sample

theorem slots_are_conserved_polled :
    ∃ c, threads.Reaches { maxInFlight := 2 } c ∧ (c.pool.map Thread.reserved).sum = 1 ∧
      (c.pool.map Thread.running).sum = 1 ∧ c.shared.slots = 2 := by
  have hrun : threads.Reaches { maxInFlight := 2 } _ := ⟨Sample.polled, rfl⟩
  exact ⟨_, hrun, rfl, rfl, (slots_are_conserved 2 hrun).1⟩

theorem all_over_of_closed_polled :
    ∃ c, threads.Reaches { maxInFlight := 1 } c ∧
      (∃ p w, c.pool.head? = some (.poller p) ∧ p.workers = [w] ∧ w.delivery.acks = 1) ∧
      (∀ t ∈ c.pool, t.Over) ∧ c.shared.slots = 0 := by
  have hrun : threads.Reaches { maxInFlight := 1 } _ := ⟨Sample.closed, rfl⟩
  exact ⟨_, hrun, ⟨_, _, rfl, rfl, rfl⟩, all_over_of_closed hrun rfl⟩

end ReliableMessaging.Transport.RocketMq.Polling
