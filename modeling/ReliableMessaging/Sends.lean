import ReliableMessaging.Gate

/-!
# Detached sends through a gate

A caller takes a slot, is admitted under a mutex and leaves the work itself to
a goroutine, which outlives the caller when the caller's context ends:

    select { slots <- token | <-stop | <-ctx.Done() }
    lock; if refused { unlock; <-slots; return }; active++; unlock
    go { reply := send(); done <- outcome(reply); <-slots; lock; active--; …; unlock }
    select { <-done | <-ctx.Done() }
-/

namespace ReliableMessaging.Sends

open Option

inductive Caller (ω : Type)
  | entering
  | selecting
  | locking
  | undoing
  | waiting
  | returned (outcome : ω)
deriving DecidableEq

inductive Worker
  | none
  | ready
  | sending
  | replied
  | posted
  | freed
  | ended
deriving DecidableEq

/-- A call with its data `δ`, the target `α` it was admitted to, the reply `ρ` that its send got
and the outcome `ω` that this means. -/
structure Call (δ α ρ ω : Type) where
  data : δ
  /-- The caller's context has ended. -/
  cancelled : Bool := false
  caller : Caller ω
  worker : Worker := .none
  target : Option α := .none
  reply : Option ρ := .none
  /-- The buffered channel `done`. -/
  done : Option ω := .none
  /-- How often this call sent into `slots` and received from it. -/
  taken : Nat := 0
  returned : Nat := 0

/-- What a move cannot decide by itself. -/
inductive Choice (ρ : Type)
  | cancel
  /-- The caller's next statement. -/
  | step
  /-- The branches of its `select`s. -/
  | slot
  | stop
  | done
  | ctx
  /-- The goroutine's next statement. -/
  | work
  | reply (r : ρ)

/-- What the surroundings say to a call at this moment. -/
structure Door (α : Type) where
  /-- Turned away on entering, whatever the context. -/
  refused : Bool
  /-- The channel `stop` is closed. -/
  halted : Bool
  /-- The mutex is not held. -/
  free : Bool
  /-- Waiting for the mutex ends with the context. -/
  impatient : Bool
  /-- The critical section: whom it admits to what, by whether the context has ended. -/
  admits : Bool → Option α

variable {δ α ρ ω : Type}

/-- One move of the caller or of its goroutine; `unknown` is the outcome of a call without one. -/
def Call.move (outcome : ρ → ω) (unknown : ω) (door : Door α) (k : Choice ρ) (g : Gate)
    (c : Call δ α ρ ω) : Option (Gate × Call δ α ρ ω) :=
  match k, c.caller, c.worker with
  | .cancel, _, _ => some (g, { c with cancelled := true })
  | .step, .entering, _ =>
    some (g, { c with
      caller := if c.cancelled || door.refused then .returned unknown else .selecting })
  | .slot, .selecting, _ =>
    g.take.map fun g' => (g', { c with caller := .locking, taken := c.taken + 1 })
  | .stop, .selecting, _ =>
    if door.halted then some (g, { c with caller := .returned unknown }) else none
  | .ctx, .selecting, _ =>
    if c.cancelled then some (g, { c with caller := .returned unknown }) else none
  | .step, .locking, _ =>
    if door.free then
      match door.admits c.cancelled with
      | some a =>
        some (g.enter, { c with caller := .waiting, worker := .ready, target := some a })
      | none => some (g, { c with caller := .undoing })
    else none
  | .ctx, .locking, _ =>
    if door.impatient && c.cancelled then some (g, { c with caller := .undoing }) else none
  | .step, .undoing, _ =>
    g.give.map fun g' =>
      (g', { c with caller := .returned unknown, returned := c.returned + 1 })
  | .done, .waiting, _ =>
    c.done.map fun outcome => (g, { c with caller := .returned outcome, done := .none })
  | .ctx, .waiting, _ =>
    if c.cancelled then some (g, { c with caller := .returned unknown }) else none
  | .work, _, .ready => some (g, { c with worker := .sending })
  | .reply r, _, .sending => some (g, { c with worker := .replied, reply := some r })
  | .work, _, .replied => some (g, { c with worker := .posted, done := c.reply.map outcome })
  | .work, _, .posted =>
    g.give.map fun g' => (g', { c with worker := .freed, returned := c.returned + 1 })
  | .work, _, .freed =>
    if door.free then some (g.leave, { c with worker := .ended }) else none
  | _, _, _ => none

/-- Holding a token before the work is handed over. -/
@[grind] def Caller.holding : Caller ω → Bool
  | .locking | .undoing => true
  | _ => false

/-- Holding a token since the work was handed over. -/
@[grind] def Worker.holding : Worker → Bool
  | .ready | .sending | .replied | .posted => true
  | _ => false

/-- Between `active++` and `active--`. -/
@[grind] def Worker.counted : Worker → Bool
  | .ready | .sending | .replied | .posted | .freed => true
  | _ => false

namespace Call

/-- The call's token is in `slots`. -/
@[grind] def held (c : Call δ α ρ ω) : Bool := c.caller.holding || c.worker.holding

/-- The call is counted by `active`. -/
@[grind] def working (c : Call δ α ρ ω) : Bool := c.worker.counted

def sending (c : Call δ α ρ ω) : Bool := c.worker = .sending

/-- The caller has returned and no goroutine of the call is left. -/
def Finished (c : Call δ α ρ ω) : Prop :=
  (∃ o, c.caller = .returned o) ∧ (c.worker = .none ∨ c.worker = .ended)

@[grind] def entered (c : Call δ α ρ ω) : Bool :=
  match c.caller with
  | .entering => false
  | .returned _ => c.worker ≠ .none
  | _ => true

/-- The send was answered, and the answer means `o`. -/
@[grind] def Answered (outcome : ρ → ω) (c : Call δ α ρ ω) (o : ω) : Prop :=
  (c.worker = .posted ∨ c.worker = .freed ∨ c.worker = .ended) ∧
    ∃ r, c.reply = some r ∧ outcome r = o

theorem held_of_sending {c : Call δ α ρ ω} (h : c.sending = true) : c.held = true := by
  simp only [sending, decide_eq_true_eq] at h
  simp [held, h, Worker.holding]

theorem working_of_sending {c : Call δ α ρ ω} (h : c.sending = true) : c.working = true := by
  simp only [sending, decide_eq_true_eq] at h
  simp [working, h, Worker.counted]

theorem held_of_finished {c : Call δ α ρ ω} (h : c.Finished) : c.held = false := by
  obtain ⟨⟨o, hcaller⟩, hworker⟩ := h
  rcases hworker with hworker | hworker <;>
    simp [held, hcaller, hworker, Caller.holding, Worker.holding]

end Call

/-- What holds of a call wherever it is. The outcomes outside `Silent` are returned only with the
reply that means them. -/
structure Sound (outcome : ρ → ω) (Silent : ω → Prop) (c : Call δ α ρ ω) : Prop where
  tokens : c.taken = c.returned + c.held.toNat
  takes : c.taken ≤ 1
  fresh : c.caller = .entering ∨ c.caller = .selecting → c.taken = 0
  alone : c.caller = .entering ∨ c.caller = .selecting ∨ c.caller = .locking ∨
    c.caller = .undoing → c.worker = .none
  aimed : c.worker ≠ .none → c.target.isSome = true
  posts : ∀ o, c.done = some o → c.Answered outcome o
  returns : ∀ o, c.caller = .returned o → Silent o ∨ c.Answered outcome o

variable {outcome : ρ → ω} {unknown : ω} {Silent : ω → Prop} {door : Door α} {k : Choice ρ}
  {g g' : Gate} {c c' : Call δ α ρ ω}

/-- What one move does to the gate: nothing, or one of its operations. -/
theorem move_gate (hc : Sound outcome Silent c) (hsilent : Silent unknown)
    (hmove : c.move outcome unknown door k g = some (g', c')) :
    Sound outcome Silent c' ∧ c'.data = c.data ∧
      (c'.entered = true → c.entered = true ∨ door.refused = false) ∧
      (g' = g ∧ c'.held = c.held ∧ c'.working = c.working ∧ c'.target = c.target ∨
      g.take = some g' ∧ c.held = false ∧ c'.held = true ∧ c'.working = c.working ∧
        c'.target = c.target ∨
      g.give = some g' ∧ c.held = true ∧ c'.held = false ∧ c'.working = c.working ∧
        c'.target = c.target ∨
      g' = g.enter ∧ door.admits c.cancelled = c'.target ∧ c'.target.isSome = true ∧
        door.free = true ∧ c'.held = c.held ∧ c.working = false ∧ c'.working = true ∨
      g' = g.leave ∧ door.free = true ∧ c'.held = c.held ∧ c.working = true ∧
        c'.working = false ∧ c'.target = c.target) := by
  obtain ⟨tokens, takes, fresh, alone, aimed, posts, returns⟩ := hc
  unfold Call.move at hmove
  split at hmove
  case h_1 | h_2 | h_11 | h_12 =>
    cases hmove
    exact ⟨by constructor <;> grind, rfl, by grind, by grind⟩
  case h_13 =>
    cases hmove
    exact ⟨by constructor <;> grind [map_eq_some_iff], rfl, by grind, by grind⟩
  case h_3 | h_8 | h_9 | h_14 =>
    obtain ⟨_, hg, hnext⟩ := map_eq_some_iff.mp hmove
    cases hnext
    exact ⟨by constructor <;> grind, rfl, by grind, by grind⟩
  case h_4 | h_5 | h_7 | h_10 | h_15 =>
    obtain ⟨hif, hnext⟩ := ite_none_right_eq_some.mp hmove
    cases hnext
    exact ⟨by constructor <;> grind, rfl, by grind, by grind⟩
  case h_6 =>
    obtain ⟨hif, hnext⟩ := ite_none_right_eq_some.mp hmove
    split at hnext
    · cases hnext
      exact ⟨by constructor <;> grind, rfl, by grind, by grind⟩
    · cases hnext
      exact ⟨by constructor <;> grind, rfl, by grind, by grind⟩
  case h_16 => cases hmove

/-- No call shuts the gate or opens it. -/
theorem move_frame (hc : Sound outcome Silent c) (hsilent : Silent unknown)
    (hmove : c.move outcome unknown door k g = some (g', c')) :
    g'.stopping = g.stopping ∧ g.Later g' := by
  obtain ⟨-, -, -, hgate⟩ := move_gate hc hsilent hmove
  obtain ⟨rfl, -⟩ | ⟨htake, -⟩ | ⟨hgive, -⟩ | ⟨rfl, -⟩ | ⟨rfl, -⟩ := hgate
  · exact ⟨rfl, .refl _⟩
  · exact ⟨Gate.take_stopping htake, Gate.later_take htake⟩
  · exact ⟨Gate.give_stopping hgive, Gate.later_give hgive⟩
  · exact ⟨rfl, Gate.later_enter⟩
  · exact ⟨Gate.leave_stopping, Gate.later_leave⟩

theorem move_counts {held working : Nat} (hc : Sound outcome Silent c)
    (hsilent : Silent unknown) (hshut : ∀ b, (door.admits b).isSome = true → g.stopping = false)
    (hg : g.Counts (held + c.held.toNat) (working + c.working.toNat))
    (hmove : c.move outcome unknown door k g = some (g', c')) :
    g'.Counts (held + c'.held.toNat) (working + c'.working.toNat) := by
  obtain ⟨-, -, -, hgate⟩ := move_gate hc hsilent hmove
  obtain ⟨rfl, hh, hw, -⟩ | ⟨htake, hh, hh', hw, -⟩ | ⟨hgive, hh, hh', hw, -⟩ |
    ⟨rfl, hadmits, hsome, -, hh, hw, hw'⟩ | ⟨rfl, -, hh, hw, hw', -⟩ := hgate
  · rwa [hh, hw]
  · rw [hh] at hg
    rw [hh', hw]
    exact hg.take htake
  · rw [hh] at hg
    rw [hh', hw]
    exact hg.give hgive
  · rw [hw] at hg
    rw [hh, hw']
    exact hg.enter (hshut _ (by rwa [hadmits]))
  · rw [hw] at hg
    rw [hh, hw']
    exact hg.leave

theorem Sound.entered_of_working (hc : Sound outcome Silent c) (h : c.working = true) :
    c.entered = true := by
  have halone := hc.alone
  grind

theorem Sound.arrived (data : δ) : Sound outcome Silent
    ({ data := data, caller := .entering } : Call δ α ρ ω) := by
  constructor <;> simp [Call.held, Caller.holding, Worker.holding]

theorem Sound.refused {o : ω} (ho : Silent o) (data : δ) : Sound outcome Silent
    ({ data := data, caller := .returned o } : Call δ α ρ ω) := by
  constructor <;> simp [Call.held, Caller.holding, Worker.holding, ho]

theorem Sound.slots (hc : Sound outcome Silent c) :
    c.taken ≤ 1 ∧ c.returned ≤ c.taken ∧ (c.Finished → c.returned = c.taken) := by
  have htokens := hc.tokens
  refine ⟨hc.takes, by omega, fun hfinished => ?_⟩
  simpa [Call.held_of_finished hfinished] using htokens.symm

end ReliableMessaging.Sends
