import ReliableMessaging.Transport.Publisher

/-!
# Draining a publisher

What the critical sections, the slots and the goroutines' last statements add
up to in any interleaving: the tokens in `slots` are those of the calls that
hold one, `active` counts the calls between admission and the goroutine's end,
and the last to leave a stopped publisher closes `drained`.
-/

namespace ReliableMessaging.Transport

open List Option

open Outbox (Outcome)
open Threads (tally tally_cons)

namespace Publisher

variable {ρ : Type} {K : Kind ρ} {k : Choice ρ} {s s' : State}

/-- `Sends.Sound` for a publisher's calls: only a confirmation needs the driver's word. -/
abbrev CallSound (K : Kind ρ) (c : Call ρ) : Prop := Sends.Sound K.outcome (· ≠ .confirmed) c

/-! ## Shutting down -/

namespace Shut

def closing (d : Shut) : Bool := d.closer ≠ .none

/-- Its goroutine has closed `closeDone`. -/
def closed (d : Shut) : Bool := d.closer = .ended

/-- A shutdown's move: it may shut the gate, win the once, or close `closeDone`. -/
theorem move_cases {d d' : Shut} (hmove : d.move K k s = some (s', d')) :
    (s' = s ∨ s' = beginDrain s ∨ (∃ err, s' = { s with closeErr := err }) ∨
        s' = { s with once := true } ∧ s.once = true) ∧
        d'.closing = d.closing ∧ d'.closed = d.closed ∨
      s' = { s with once := true } ∧ s.once = false ∧ d'.closing = true ∧ d'.closed = false ∨
      s' = { s with closeDone := s.closeDone + 1 } ∧ d'.closing = d.closing ∧
        d.closed = false ∧ d'.closed = true := by
  unfold Shut.move at hmove
  split at hmove
  case h_1 | h_2 | h_5 | h_8 | h_9 =>
    cases hmove
    grind [closing, closed]
  case h_3 | h_4 | h_6 | h_7 =>
    obtain ⟨-, hnext⟩ := ite_none_right_eq_some.mp hmove
    cases hnext
    exact .inl ⟨.inl rfl, rfl, rfl⟩
  case h_10 => cases hmove

end Shut

/-! ## All threads together -/

namespace Thread

def held : Thread ρ → Bool
  | .call c => c.held
  | _ => false

def working : Thread ρ → Bool
  | .call c => c.working
  | _ => false

def sending : Thread ρ → Bool
  | .call c => c.sending
  | _ => false

def closing : Thread ρ → Bool
  | .shut d => d.closing
  | _ => false

def closed : Thread ρ → Bool
  | .shut d => d.closed
  | _ => false

/-- Where the arguments of a call leave it. -/
def Initial (t : Thread ρ) : Prop :=
  t = .call rejected ∨ (∃ topic keys body, t = .call (enter topic keys body)) ∨
    (∃ aim, t = .shut { aim := aim }) ∨ t = .start none

end Thread

structure Sound (K : Kind ρ) (maxInFlight : Nat) (s : State) (pool : Multiset (Thread ρ)) :
    Prop where
  cap : s.gate.cap = maxInFlight
  gate : s.gate.Counts (tally Thread.held pool) (tally Thread.working pool)
  stopCh : s.stopCh = s.gate.stopping.toNat
  once : tally Thread.closing pool = s.once.toNat
  closeDone : s.closeDone = tally Thread.closed pool
  calls : ∀ c, .call c ∈ pool → CallSound K c

namespace Sound

variable {maxInFlight : Nat} {others : Multiset (Thread ρ)}

theorem call_move (hK : ∀ s b, K.admits s b = true → s.gate.stopping = false) {c c' : Call ρ}
    {k : Sends.Choice ρ} (h : Sound K maxInFlight s (.call c ::ₘ others))
    (hmove : Call.move K k s c = some (s', c')) :
    Sound K maxInFlight s' (.call c' ::ₘ others) ∧ s.gate.Later s'.gate := by
  obtain ⟨cap, gate, stopCh, once, closeDone, calls⟩ := h
  obtain ⟨⟨g, c1⟩, hsend, hnext⟩ := map_eq_some_iff.mp hmove
  cases hnext
  have hc := calls c (Multiset.mem_cons_self _ _)
  have hsilent : Outcome.unknown ≠ .confirmed := by decide
  have hshut : ∀ b, ((door K s).admits b).isSome = true → s.gate.stopping = false := by
    intro b hb
    refine hK s b ?_
    simpa [door] using hb
  rw [tally_cons, tally_cons] at gate
  obtain ⟨hc', -⟩ := Sends.move_gate hc hsilent hsend
  obtain ⟨hstopping, hlater⟩ := Sends.move_frame hc hsilent hsend
  have gate' := Sends.move_counts hc hsilent hshut gate hsend
  refine ⟨⟨hlater.cap.trans cap, ?_, ?_, ?_, ?_, ?_⟩, hlater⟩
  · rw [tally_cons, tally_cons]
    exact gate'
  · rw [hstopping]
    exact stopCh
  · rw [tally_cons] at once ⊢
    exact once
  · rw [tally_cons] at closeDone ⊢
    exact closeDone
  · intro d hd
    rcases Multiset.mem_cons.mp hd with hd | hd
    · cases hd
      exact hc'
    · exact calls d (Multiset.mem_cons_of_mem hd)

theorem other_move {t t' : Thread ρ} (h : Sound K maxInFlight s (t ::ₘ others))
    (ht : ∀ c, t ≠ .call c) (ht' : ∀ c, t' ≠ .call c)
    (hgate : s'.gate = s.gate ∧ s'.stopCh = s.stopCh ∨ s' = beginDrain s)
    (honce : tally Thread.closing others + t'.closing.toNat = s'.once.toNat)
    (hclosed : s'.closeDone = tally Thread.closed others + t'.closed.toNat) :
    Sound K maxInFlight s' (t' ::ₘ others) ∧ s.gate.Later s'.gate := by
  have idle : ∀ {u : Thread ρ}, (∀ c, u ≠ .call c) → u.held = false ∧ u.working = false := by
    intro u hu
    cases u with
    | call c => exact absurd rfl (hu c)
    | shut d => exact ⟨rfl, rfl⟩
    | start r => exact ⟨rfl, rfl⟩
  have gate := h.gate
  simp only [tally_cons, idle ht] at gate
  have hlater : s.gate.Later s'.gate := by
    rcases hgate with ⟨hgate, -⟩ | rfl
    · rw [hgate]
      exact .refl _
    · exact Gate.later_shut
  refine ⟨⟨hlater.cap.trans h.cap, ?_, ?_, ?_, ?_, ?_⟩, hlater⟩
  · simp only [tally_cons, idle ht']
    rcases hgate with ⟨hgate, -⟩ | rfl
    · rw [hgate]
      exact gate
    · exact gate.shut
  · rcases hgate with ⟨hgate, hstop⟩ | rfl
    · rw [hgate, hstop]
      exact h.stopCh
    · have hstop := h.stopCh
      cases hg : s.gate.stopping <;> simp_all [beginDrain, Gate.shut_stopping]
  · rwa [tally_cons]
  · rwa [tally_cons]
  · intro c hc
    rcases Multiset.mem_cons.mp hc with hc | hc
    · exact absurd hc.symm (ht' c)
    · exact h.calls c (Multiset.mem_cons_of_mem hc)

theorem shut_move {d d' : Shut} (h : Sound K maxInFlight s (.shut d ::ₘ others))
    (hmove : d.move K k s = some (s', d')) :
    Sound K maxInFlight s' (.shut d' ::ₘ others) ∧ s.gate.Later s'.gate := by
  have once := h.once
  have closeDone := h.closeDone
  simp only [tally_cons, Thread.closing, Thread.closed] at once closeDone
  obtain ⟨hs', hclosing, hclosed⟩ | ⟨rfl, hfirst, hclosing, hclosed⟩ |
    ⟨rfl, hclosing, hopen, hclosed⟩ := Shut.move_cases hmove
  · have hshared : s'.once = s.once ∧ s'.closeDone = s.closeDone ∧
        (s'.gate = s.gate ∧ s'.stopCh = s.stopCh ∨ s' = beginDrain s) := by
      obtain rfl | rfl | ⟨err, rfl⟩ | ⟨rfl, hs⟩ := hs'
      · exact ⟨rfl, rfl, .inl ⟨rfl, rfl⟩⟩
      · exact ⟨rfl, rfl, .inr rfl⟩
      · exact ⟨rfl, rfl, .inl ⟨rfl, rfl⟩⟩
      · exact ⟨hs.symm, rfl, .inl ⟨rfl, rfl⟩⟩
    refine h.other_move (by simp) (by simp) hshared.2.2 ?_ ?_
    · simpa [Thread.closing, hclosing, hshared.1] using once
    · simpa [Thread.closed, hclosed, hshared.2.1] using closeDone
  · -- The winner of the once: no thread has closed anything before.
    rw [hfirst, Bool.toNat_false, Nat.add_eq_zero_iff] at once
    have hbefore : d.closed.toNat = 0 := by
      have hd : d.closing = false := by simpa using once.2
      simp_all [Shut.closing, Shut.closed]
    refine h.other_move (by simp) (by simp) (.inl ⟨rfl, rfl⟩) ?_ ?_
    · simp [Thread.closing, hclosing, once.1]
    · simp [Thread.closed, hclosed, closeDone, hbefore]
  · refine h.other_move (by simp) (by simp) (.inl ⟨rfl, rfl⟩) ?_ ?_
    · simpa [Thread.closing, hclosing] using once
    · simp [Thread.closed, hclosed, closeDone, hopen]

theorem move (hK : ∀ s b, K.admits s b = true → s.gate.stopping = false) {t t' : Thread ρ}
    (h : Sound K maxInFlight s (t ::ₘ others)) (hmove : Publisher.move K k s t = some (s', t')) :
    Sound K maxInFlight s' (t' ::ₘ others) ∧ s.gate.Later s'.gate := by
  unfold Publisher.move at hmove
  split at hmove
  · split at hmove
    · obtain ⟨⟨s1, c'⟩, hcall, hnext⟩ := map_eq_some_iff.mp hmove
      cases hnext
      exact h.call_move hK hcall
    · cases hmove
  · obtain ⟨⟨s1, d'⟩, hshut, hnext⟩ := map_eq_some_iff.mp hmove
    cases hnext
    exact h.shut_move hshut
  · split at hmove
    next ok =>
      cases hmove
      have hshared : (start ok s).1 = { s with started := (start ok s).1.started } := by
        unfold start
        split
        · rfl
        · split <;> rfl
      rw [hshared]
      exact h.other_move (by simp) (by simp) (.inl ⟨rfl, rfl⟩)
        (by simpa [Thread.closing] using h.once) (by simpa [Thread.closed] using h.closeDone)
    · cases hmove
  · cases hmove

theorem add {t : Thread ρ} (h : Sound K maxInFlight s others) (ht : t.Initial) :
    Sound K maxInFlight s (t ::ₘ others) := by
  have hzero : t.held = false ∧ t.working = false ∧ t.closing = false ∧ t.closed = false := by
    obtain rfl | ⟨_, _, _, rfl⟩ | ⟨aim, rfl⟩ | rfl := ht <;> exact ⟨rfl, rfl, rfl, rfl⟩
  obtain ⟨hheld, hworking, hclosing, hclosed⟩ := hzero
  refine ⟨h.cap, ?_, h.stopCh, ?_, ?_, ?_⟩
  · simpa [hheld, hworking] using h.gate
  · simpa [hclosing] using h.once
  · simpa [hclosed] using h.closeDone
  · intro c hc
    rcases Multiset.mem_cons.mp hc with rfl | hc
    · obtain hc | ⟨topic, keys, body, hc⟩ | ⟨aim, hc⟩ | hc := ht
      · cases hc
        exact .refused (by decide) _
      · cases hc
        exact .arrived _
      · cases hc
      · cases hc
    · exact h.calls c hc

end Sound

/-- The promise of a drain, in the words of its users: how many driver calls run at once, when
`drained` is closed, what becomes of the slots, and what a confirmation rests on. -/
structure Drains (K : Kind ρ) (maxInFlight : Nat) (s : State) (pool : Multiset (Thread ρ)) :
    Prop where
  inFlight : tally Thread.sending pool ≤ maxInFlight
  once : s.gate.drained ≤ 1
  /-- Closed as soon as admission has stopped and no admitted call is left, and not before. -/
  drained : s.gate.drained = 1 ↔
    s.gate.stopping = true ∧ ∀ c, .call c ∈ pool → c.working = false
  idle : s.gate.drained ≠ 0 → ∀ c, .call c ∈ pool → c.sending = false
  slots : ∀ c, .call c ∈ pool → c.taken ≤ 1 ∧ c.returned ≤ c.taken ∧
    (c.Finished → c.returned = c.taken)
  /-- Giving a slot back never blocks. -/
  gives : ∀ c, .call c ∈ pool → c.held = true → s.gate.give.isSome = true
  confirmed : ∀ c, .call c ∈ pool → c.caller = .returned .confirmed →
    ∃ r, c.reply = some r ∧ K.outcome r = .confirmed

theorem Sound.drains {maxInFlight : Nat} {pool : Multiset (Thread ρ)}
    (h : Sound K maxInFlight s pool) : Drains K maxInFlight s pool := by
  have hworking : tally Thread.working pool = 0 ↔ ∀ c, .call c ∈ pool → c.working = false := by
    rw [Threads.tally_eq_zero]
    refine ⟨fun hall c hc => hall _ hc, fun hall t ht => ?_⟩
    cases t with
    | call c => exact hall c ht
    | shut d => rfl
    | start r => rfl
  refine ⟨?_, h.gate.drained_le, ?_, ?_, ?_, ?_, ?_⟩
  · have hheld : tally Thread.sending pool ≤ tally Thread.held pool := by
      refine Threads.tally_mono fun t _ ht => ?_
      cases t with
      | call c => exact Sends.Call.held_of_sending ht
      | shut d => cases ht
      | start r => cases ht
    calc tally Thread.sending pool ≤ tally Thread.held pool := hheld
      _ = s.gate.slots := h.gate.slots.symm
      _ ≤ s.gate.cap := h.gate.bounded
      _ = maxInFlight := h.cap
  · rw [h.gate.drained, ← hworking]
    split <;> simp_all
  · intro hdrained c hc
    have hidle := hworking.mp (h.gate.of_drained hdrained).2 c hc
    by_contra hsending
    rw [Sends.Call.working_of_sending (by simpa using hsending)] at hidle
    cases hidle
  · intro c hc
    exact (h.calls c hc).slots
  · intro c hc hheld
    obtain ⟨others, rfl⟩ := Multiset.exists_cons_of_mem hc
    have hgate := h.gate
    rw [tally_cons, Thread.held, hheld] at hgate
    exact hgate.can_give
  · intro c hc hcaller
    rcases (h.calls c hc).returns .confirmed hcaller with hsilent | hanswered
    · exact absurd rfl hsilent
    · exact hanswered.2

/-- A publisher of either kind in any run: it keeps the promise, and once `drained` is closed no
driver call runs again. -/
theorem drains_of_run {ι : Type} {P : Threads State (Thread ρ) ι (Choice ρ)} {maxInFlight : Nat}
    (hK : ∀ s b, K.admits s b = true → s.gate.stopping = false) (hmove : P.move = move K)
    (hstart : ∀ a, (P.start a).Initial)
    {c : Threads.Conf State (Thread ρ)} (hc : P.Reaches (opened maxInFlight) c) :
    Drains K maxInFlight c.shared c.pool ∧
      ∀ c', P.Leads c c' → c.shared.gate.drained ≠ 0 →
        c'.shared.gate.drained = 1 ∧ ∀ x, .call x ∈ c'.pool → x.sending = false := by
  have hsound : ∀ {c}, P.Reaches (opened maxInFlight) c →
      Sound K maxInFlight c.shared c.pool := by
    intro c hc
    refine Threads.Leads.invariant (fun s others a h => h.add (hstart a)) ?_ hc ?_
    · intro s t others k s' t' h ht
      rw [hmove] at ht
      exact (h.move hK ht).1
    · exact ⟨rfl, Gate.counts_open _, rfl, rfl, rfl, by simp⟩
  refine ⟨(hsound hc).drains, fun c' hlead hdrained => ?_⟩
  have hlater : Sound K maxInFlight c'.shared c'.pool ∧ c'.shared.gate.drained ≠ 0 := by
    refine Threads.Leads.invariant (I := fun s pool => Sound K maxInFlight s pool ∧
      s.gate.drained ≠ 0)
      (fun s others a h => ⟨h.1.add (hstart a), h.2⟩) ?_ hlead ⟨hsound hc, hdrained⟩
    intro s t others k s' t' h ht
    rw [hmove] at ht
    obtain ⟨h', hlater⟩ := h.1.move hK ht
    have := hlater.drained
    exact ⟨h', by omega⟩
  have hone := hlater.1.gate.drained_le
  exact ⟨by omega, fun x hx => hlater.1.drains.idle hlater.2 x (by simpa using hx)⟩

end Publisher

open Publisher

theorem Nsq.start_initial (routes : String → Option String) (validTopic : String → Bool)
    (a : Nsq.PublisherOp) : ((Nsq.publisher routes validTopic).start a).Initial := by
  unfold Thread.Initial
  cases a <;> grind [Nsq.publisher, Nsq.publish, Nsq.publishRaw]

theorem RocketMq.start_initial (routes : String → Option String) (a : RocketMq.PublisherOp) :
    ((RocketMq.publisher routes).start a).Initial := by
  unfold Thread.Initial
  cases a <;> grind [RocketMq.publisher, RocketMq.publish, RocketMq.publishRaw, RocketMq.publishTo]

theorem RocketMq.confirmed_iff {r : RocketMq.SendReply} :
    RocketMq.sendOutcome r = .confirmed ↔ ∃ id, r = .receipts [some id] ∧ id ≠ "" := by
  unfold RocketMq.sendOutcome
  split
  · split <;> simp
  · simp
  · split <;> simp_all
  next ids hids =>
    simp only [reduceCtorEq, RocketMq.SendReply.receipts.injEq, false_iff, not_exists, not_and]
    rintro id rfl
    exact absurd rfl (hids id)

/-- Draining a publisher, for every interleaving of its calls with `Drain`, `Close` and
`Interrupt`: callers may give up at any moment and the driver may answer at any later one. -/
theorem publishers_drain (routes : String → Option String) (validTopic : String → Bool)
    (maxInFlight : Nat) :
    (∀ c, (Nsq.publisher routes validTopic).Reaches (opened maxInFlight) c →
      Drains Nsq.kind maxInFlight c.shared c.pool ∧
      (∀ c', (Nsq.publisher routes validTopic).Leads c c' → c.shared.gate.drained ≠ 0 →
        c'.shared.gate.drained = 1 ∧ ∀ x, .call x ∈ c'.pool → x.sending = false) ∧
      ∀ x, .call x ∈ c.pool → x.caller = .returned .confirmed → x.reply = some false) ∧
    (∀ c, (RocketMq.publisher routes).Reaches (opened maxInFlight) c →
      Drains RocketMq.kind maxInFlight c.shared c.pool ∧
      (∀ c', (RocketMq.publisher routes).Leads c c' → c.shared.gate.drained ≠ 0 →
        c'.shared.gate.drained = 1 ∧ ∀ x, .call x ∈ c'.pool → x.sending = false) ∧
      ∀ x, .call x ∈ c.pool → x.caller = .returned .confirmed →
        ∃ id, x.reply = some (.receipts [some id]) ∧ id ≠ "") := by
  constructor
  · intro c hc
    obtain ⟨hdrains, hafter⟩ := drains_of_run (K := Nsq.kind) (by simp [Nsq.kind]) rfl
      (Nsq.start_initial routes validTopic) hc
    refine ⟨hdrains, hafter, fun x hx hcaller => ?_⟩
    obtain ⟨failed, hreply, hconfirmed⟩ := hdrains.confirmed x (by simpa using hx) hcaller
    cases failed with
    | false => exact hreply
    | true => cases hconfirmed
  · intro c hc
    obtain ⟨hdrains, hafter⟩ := drains_of_run (K := RocketMq.kind) (by simp [RocketMq.kind]) rfl
      (RocketMq.start_initial routes) hc
    refine ⟨hdrains, hafter, fun x hx hcaller => ?_⟩
    obtain ⟨r, hreply, hconfirmed⟩ := hdrains.confirmed x (by simpa using hx) hcaller
    obtain ⟨id, rfl, hid⟩ := RocketMq.confirmed_iff.mp hconfirmed
    exact ⟨id, hreply, hid⟩

namespace Sample

/-- A send that is drained while the driver works and confirmed before it is gone. The thread
`call` sends, the thread `call + 1` drains. -/
def drainedSend {ι ρ : Type} (call : Nat) (send drain : ι) (reply : ρ) :
    List (Threads.Turn ι (Choice ρ)) :=
  [.call send, .move call (.go .step), .move call (.go .slot), .move call (.go .step),
    .move call (.go .work), .call drain, .move (call + 1) (.go .step),
    .move call (.go (.reply reply)), .move call (.go .work), .move call (.go .done),
    .move call (.go .work), .move call (.go .work), .move (call + 1) (.go .done)]

end Sample

theorem publishers_drain_after_confirmation :
    (∃ c, (Nsq.publisher (fun _ => none) (fun _ => true)).Reaches (opened 1) c ∧
      c.shared.gate.drained = 1 ∧ Drains Nsq.kind 1 c.shared c.pool ∧
      ∃ x, .call x ∈ c.pool ∧ x.caller = .returned .confirmed ∧ x.reply = some false) ∧
    ∃ c, (RocketMq.publisher some).Reaches (opened 1) c ∧
      c.shared.gate.drained = 1 ∧ Drains RocketMq.kind 1 c.shared c.pool ∧
      ∃ x, .call x ∈ c.pool ∧ x.caller = .returned .confirmed ∧
        ∃ id, x.reply = some (.receipts [some id]) ∧ id ≠ "" := by
  constructor
  · have hrun : (Nsq.publisher (fun _ => none) (fun _ => true)).Reaches (opened 1) _ :=
      ⟨Sample.drainedSend 0 (.publishRaw "orders" [1]) .drain false, rfl⟩
    obtain ⟨hdrains, -, hconfirmed⟩ :=
      (publishers_drain (fun _ => none) (fun _ => true) 1).1 _ hrun
    exact ⟨_, hrun, rfl, hdrains, _, mem_cons_self, rfl, hconfirmed _ mem_cons_self rfl⟩
  · have hrun : (RocketMq.publisher some).Reaches (opened 1) _ :=
      ⟨.call .start :: .move 0 (.boot true) ::
        Sample.drainedSend 1 (.publishRaw "orders" [1]) .drain (.receipts [some "id"]), rfl⟩
    obtain ⟨hdrains, -, hconfirmed⟩ := (publishers_drain some (fun _ => true) 1).2 _ hrun
    exact ⟨_, hrun, rfl, hdrains, _, mem_cons_of_mem _ mem_cons_self, rfl,
      hconfirmed _ (mem_cons_of_mem _ mem_cons_self) rfl⟩

end ReliableMessaging.Transport
