import Mathlib.Algebra.Order.Group.Multiset
import Mathlib.Data.Multiset.Range
import Mathlib.Tactic.Abel
import ReliableMessaging.Transport.Lifecycle

/-!
# Admission and shutdown of a transactional sender

What holds of a sender in every interleaving: operations and checks stay within
their limits, no channel is closed twice or sent on when it is closed, and once
`closeDone` is closed nothing runs any more or ever will, every accepted check
has run once, and the backend was closed after all of that.
-/

namespace ReliableMessaging.Transport.Lifecycle

open List Option

open Threads (tally tally_cons)

variable {L : Limits} {k : Choice} {s s' : Sender}

/-! ## How far the sender has come -/

/-- The `Start` that began has closed its channel. -/
@[grind] def Starting.settled : Starting → Bool
  | .stopping | .closing | .waiting | .returned => true
  | _ => false

@[grind] def Closing.rank : Closing → Nat
  | .before => 0
  | .reading => 1
  | .awaitingStart _ => 2
  | .awaitingSends => 3
  | .stoppingMaintenance => 4
  | .awaitingMaintenance => 5
  | .closingChecks => 6
  | .awaitingChecks => 7
  | .closingBackend => 8
  | .settling => 9
  | .closingDone => 10
  | .ended => 11

/-- The goroutine that closes has taken `n` steps. -/
@[grind] def Closing.past (n : Nat) (c : Closing) : Bool := n ≤ c.rank

structure Staged (L : Limits) (s : Sender) : Prop where
  everStarted : s.everStarted = true ↔ s.start ≠ .before
  startDone : s.startDone = s.start.settled.toNat
  sendStop : s.sendStop = s.stopping.toNat
  once : s.closeOnce = s.closer.past 1
  stopping : s.closer.past 1 = true → s.stopping = true
  startClosing : s.start = .closing → s.stopping = true
  replaced : ∀ b, s.closer = .awaitingStart b → b = s.everStarted
  startOver : s.closer.past 3 = true → s.start = .before ∨ s.start.settled = true
  maintStop : s.maintStop = (s.closer.past 5).toNat
  maintDone : s.maintDone = (decide (s.maintenance = .ended)).toNat
  maintBefore : s.start.settled = false → s.maintenance = .before
  maintOver : s.closer.past 6 = true → s.maintenance = .before ∨ s.maintenance = .ended
  checksClosing : s.checksClosing = s.closer.past 7
  checksClosed : s.checksClosed = (s.closer.past 7).toNat
  unsent : s.sentOnClosed = false
  unspawned : s.start = .before ∨ s.start = .validating → s.spawned = 0 ∧ s.dispatching = false
  spawning : ∀ i, s.start = .spawning i →
    s.spawned = i ∧ i ≤ L.checkWorkers ∧ s.dispatching = false
  spawned : s.spawned ≤ L.checkWorkers
  dispatching : s.dispatching = true → s.spawned = L.checkWorkers
  storing : s.start = .storing → s.created = true
  backend : s.start ≠ .storing → s.backend = s.created
  backendCloses : s.backendCloses = (s.closer.past 9 && s.backend).toNat
  closeDone : s.closeDone = (s.closer.past 11).toNat

theorem staged_initial : Staged L {} := by
  constructor <;> simp [Starting.settled, Closing.past, Closing.rank]

theorem stopAdmission_start : s.stopAdmission.start = s.start := by
  unfold Sender.stopAdmission
  split <;> rfl

theorem stopAdmission_stopping : s.stopAdmission.stopping = true := by
  unfold Sender.stopAdmission
  split
  · assumption
  · rfl

theorem closeAsync_start : s.closeAsync.start = s.start := by
  unfold Sender.closeAsync
  split <;> rfl

theorem closeAsync_stopping : s.closeAsync.stopping = s.stopping := by
  unfold Sender.closeAsync
  split <;> rfl

theorem startStep_stopping (hstep : s.startStep L k = some s') (hs : s.stopping = true) :
    s'.stopping = true := by
  unfold Sender.startStep at hstep
  grind [Sender.stopAdmission, Sender.closeAsync]

theorem closeStep_stopping (hstep : s.closeStep = some s') (hs : s.stopping = true) :
    s'.stopping = true := by
  unfold Sender.closeStep at hstep
  grind

namespace Staged

theorem stopAdmission (h : Staged L s) : Staged L s.stopAdmission := by
  unfold Sender.stopAdmission
  split
  · exact h
  next hopen =>
    have hsend := h.sendStop
    exact { h with
      sendStop := by simp_all
      stopping := fun _ => rfl
      startClosing := fun _ => rfl }

theorem closer_at {c : Closing} (h : Staged L s) (hc : s.closer = c) :
    Staged L { s with closer := c } := by
  subst hc
  exact h

theorem closeAsync (h : Staged L s) (hstop : s.stopping = true) : Staged L s.closeAsync := by
  unfold Sender.closeAsync
  split
  · exact h
  next honce =>
    have hbefore : s.closer = .before := by
      have hpast := h.once
      cases hcloser : s.closer <;> simp_all [Closing.past, Closing.rank]
    exact { h.closer_at hbefore with
      once := rfl
      stopping := fun _ => hstop
      replaced := fun _ hc => nomatch hc }

theorem closeStep (h : Staged L s) (hstep : s.closeStep = some s') : Staged L s' := by
  cases hcloser : s.closer with
  | before | ended => simp [Sender.closeStep, hcloser] at hstep
  | reading =>
    simp only [Sender.closeStep, hcloser] at hstep
    cases hstep
    exact { h.closer_at hcloser with
      replaced := fun _ hb => (Closing.awaitingStart.inj hb).symm }
  | awaitingStart b =>
    simp only [Sender.closeStep, hcloser, ite_none_right_eq_some, Option.some.injEq] at hstep
    obtain ⟨hwait, rfl⟩ := hstep
    have hb := h.replaced b hcloser
    have hever := h.everStarted
    have hdone := h.startDone
    exact { h.closer_at hcloser with
      replaced := fun _ hc => nomatch hc
      startOver := fun _ => by grind }
  | awaitingSends =>
    simp only [Sender.closeStep, hcloser, ite_none_right_eq_some, Option.some.injEq] at hstep
    obtain ⟨-, rfl⟩ := hstep
    exact { h.closer_at hcloser with
      replaced := fun _ hc => nomatch hc }
  | stoppingMaintenance =>
    simp only [Sender.closeStep, hcloser] at hstep
    cases hstep
    exact { h.closer_at hcloser with
      replaced := fun _ hc => nomatch hc
      maintStop := congrArg (· + 1) (h.closer_at hcloser).maintStop }
  | awaitingMaintenance =>
    simp only [Sender.closeStep, hcloser, ite_none_right_eq_some, Option.some.injEq] at hstep
    obtain ⟨hwait, rfl⟩ := hstep
    have hdone := h.maintDone
    exact { h.closer_at hcloser with
      replaced := fun _ hc => nomatch hc
      maintOver := fun _ => by grind }
  | closingChecks =>
    simp only [Sender.closeStep, hcloser] at hstep
    cases hstep
    exact { h.closer_at hcloser with
      replaced := fun _ hc => nomatch hc
      checksClosing := rfl
      checksClosed := congrArg (· + 1) (h.closer_at hcloser).checksClosed }
  | awaitingChecks =>
    simp only [Sender.closeStep, hcloser, ite_none_right_eq_some, Option.some.injEq] at hstep
    obtain ⟨-, rfl⟩ := hstep
    exact { h.closer_at hcloser with
      replaced := fun _ hc => nomatch hc }
  | closingBackend =>
    have hcloses := (h.closer_at hcloser).backendCloses
    simp only [Sender.closeStep, hcloser] at hstep
    split at hstep
    next hbackend =>
      cases hstep
      exact { h.closer_at hcloser with
        replaced := fun _ hc => nomatch hc
        backendCloses := by
          simpa [Closing.past, Closing.rank, hbackend] using hcloses }
    next hbackend =>
      cases hstep
      exact { h.closer_at hcloser with
        replaced := fun _ hc => nomatch hc
        backendCloses := by
          simpa [Closing.past, Closing.rank, hbackend] using hcloses }
  | settling =>
    simp only [Sender.closeStep, hcloser] at hstep
    cases hstep
    exact { h.closer_at hcloser with
      replaced := fun _ hc => nomatch hc }
  | closingDone =>
    simp only [Sender.closeStep, hcloser] at hstep
    cases hstep
    exact { h.closer_at hcloser with
      replaced := fun _ hc => nomatch hc
      closeDone := congrArg (· + 1) (h.closer_at hcloser).closeDone }

variable {m : Maintaining} {t : Starting}

theorem maintenance_at (h : Staged L s) (hm : s.maintenance = m) :
    Staged L { s with maintenance := m } := by
  subst hm
  exact h

theorem maintaining (h : Staged L s) (hne : s.maintenance ≠ .before)
    (hrun : s.maintenance ≠ .ended) : s.start.settled = true ∧ s.closer.past 6 = false := by
  refine ⟨?_, ?_⟩
  · by_contra hsettled
    exact hne (h.maintBefore (by simpa using hsettled))
  · by_contra hpast
    rcases h.maintOver (by simpa using hpast) with hm | hm
    · exact hne hm
    · exact hrun hm

theorem maintain_to {m' : Maintaining} (h : Staged L s) (hm : s.maintenance = m) (hne : m ≠ .before)
    (hrun : m ≠ .ended) (hrun' : m' ≠ .ended) (healthy : Bool) :
    Staged L { s with dbHealthy := healthy, maintenance := m' } := by
  obtain ⟨hsettled, hpast⟩ := h.maintaining (hm ▸ hne) (hm ▸ hrun)
  have hdone := h.maintDone
  exact { h with
    maintDone := by simp_all
    maintBefore := fun hnot => by simp_all
    maintOver := fun hp => by simp_all }

theorem maintainStep (h : Staged L s) (hstep : s.maintainStep k = some s') : Staged L s' := by
  cases hm : s.maintenance with
  | before | ended => simp [Sender.maintainStep, hm] at hstep
  | selecting =>
    simp only [Sender.maintainStep, hm] at hstep
    split at hstep
    · cases hstep
      exact h.maintain_to hm (by decide) (by decide) (by decide) s.dbHealthy
    · split at hstep <;> cases hstep
      exact h.maintain_to hm (by decide) (by decide) (by decide) s.dbHealthy
  | validating =>
    simp only [Sender.maintainStep, hm] at hstep
    split at hstep <;> cases hstep
    · exact h.maintain_to hm (by decide) (by decide) (by decide) true
    · exact h.maintain_to hm (by decide) (by decide) (by decide) false
  | reconciling =>
    simp only [Sender.maintainStep, hm] at hstep
    cases hstep
    exact h.maintain_to hm (by decide) (by decide) (by decide) s.dbHealthy
  | leaving =>
    simp only [Sender.maintainStep, hm] at hstep
    cases hstep
    obtain ⟨hsettled, -⟩ := h.maintaining (by simp [hm]) (by simp [hm])
    exact { h with
      maintDone := congrArg (· + 1) (h.maintenance_at hm).maintDone
      maintBefore := fun hnot => by simp_all
      maintOver := fun _ => .inr rfl }

theorem start_at (h : Staged L s) (ht : s.start = t) : Staged L { s with start := t } := by
  subst ht
  exact h

theorem starting (h : Staged L s) (hne : s.start ≠ .before) (hopen : s.start.settled = false) :
    s.closer.past 3 = false ∧ s.maintenance = .before := by
  refine ⟨?_, h.maintBefore hopen⟩
  by_contra hpast
  rcases h.startOver (by simpa using hpast) with hs | hs
  · exact hne hs
  · rw [hopen] at hs
    cases hs

theorem start_to (h : Staged L s) (hs : s.start = t) (hne : t ≠ .before) (hopen : t.settled = false)
    (hstoring : t ≠ .storing) (u : Starting) (hne' : u ≠ .before) (hopen' : u.settled = false)
    (hlater : u ≠ .validating) (hstoring' : u ≠ .storing)
    (hspawning : ∀ i, u = .spawning i → s.spawned = i ∧ i ≤ L.checkWorkers ∧
      s.dispatching = false) :
    Staged L { s with start := u } := by
  obtain ⟨hpast, hmaint⟩ := h.starting (hs ▸ hne) (hs ▸ hopen)
  have hdone := h.startDone
  exact { h with
    everStarted := ⟨fun _ => hne', fun _ => h.everStarted.mpr (hs ▸ hne)⟩
    startDone := by simp_all
    startClosing := fun hc => by simp_all [Starting.settled]
    startOver := fun hp => by simp_all
    maintBefore := fun _ => hmaint
    unspawned := fun hu => by simp_all
    spawning := hspawning
    storing := fun hc => absurd hc hstoring'
    backend := fun _ => h.backend (hs ▸ hstoring) }

theorem start_after (h : Staged L s) (hs : s.start = t) (hsettled : t.settled = true) (u : Starting)
    (hsettled' : u.settled = true) (hstop : u = .closing → s.stopping = true) :
    Staged L { s with start := u } := by
  have hdone := h.startDone
  have hnot : ∀ v : Starting, v.settled = false → t ≠ v ∧ u ≠ v := by
    intro v hv
    constructor <;> rintro rfl <;> simp_all
  exact { h with
    everStarted := ⟨fun _ => (hnot .before rfl).2,
      fun _ => h.everStarted.mpr (hs ▸ (hnot .before rfl).1)⟩
    startDone := by simp_all
    startClosing := hstop
    startOver := fun _ => .inr hsettled'
    maintBefore := fun hn => by simp_all
    unspawned := fun hu => hu.elim (fun hb => absurd hb (hnot .before rfl).2)
      fun hv => absurd hv (hnot .validating rfl).2
    spawning := fun i hi => absurd hi (hnot (.spawning i) rfl).2
    storing := fun hst => absurd hst (hnot .storing rfl).2
    backend := fun _ => h.backend (hs ▸ (hnot .storing rfl).1) }

theorem startStep (h : Staged L s) (hstep : s.startStep L k = some s') : Staged L s' := by
  have hunder := h.starting
  cases hstart : s.start with
  | before | returned => simp [Sender.startStep, hstart] at hstep
  | validating =>
    have hnone := h.unspawned (.inr hstart)
    simp only [Sender.startStep, hstart] at hstep
    split at hstep <;> cases hstep
    · refine h.start_to hstart nofun rfl nofun _ nofun rfl nofun nofun fun i hi => ?_
      cases hi
      exact ⟨hnone.1, Nat.zero_le _, hnone.2⟩
    · exact h.start_to hstart nofun rfl nofun _ nofun rfl nofun nofun nofun
  | spawning i =>
    obtain ⟨hspawned, hle, hdispatch⟩ := h.spawning i hstart
    obtain ⟨hpast, -⟩ := hunder (by simp [hstart]) (by simp [hstart, Starting.settled])
    simp only [Sender.startStep, hstart] at hstep
    split at hstep <;> cases hstep
    next hlt =>
      exact { h.start_at hstart with
        everStarted := ⟨fun _ => nofun, fun _ => h.everStarted.mpr (by simp [hstart])⟩
        startClosing := nofun
        startOver := fun hp => by simp_all
        unspawned := nofun
        spawning := fun j hj => by
          cases hj
          exact ⟨congrArg (· + 1) hspawned, hlt, hdispatch⟩
        spawned := by simp only; omega
        dispatching := fun hd => by simp_all
        storing := nofun
        backend := fun _ => h.backend (by simp [hstart]) }
    next hge =>
      have hmove := h.start_to hstart nofun rfl nofun .creating nofun rfl nofun nofun nofun
      exact { hmove with
        unspawned := nofun
        spawning := nofun
        dispatching := fun _ => by simp only; omega }
  | creating =>
    obtain ⟨hpast, -⟩ := hunder (by simp [hstart]) (by simp [hstart, Starting.settled])
    simp only [Sender.startStep, hstart] at hstep
    split at hstep <;> cases hstep
    · exact { h.start_at hstart with
        everStarted := ⟨fun _ => nofun, fun _ => h.everStarted.mpr (by simp [hstart])⟩
        startClosing := nofun
        startOver := fun hp => by simp_all
        unspawned := nofun
        spawning := nofun
        storing := fun _ => rfl
        backend := fun hne => absurd rfl hne }
    · exact h.start_to hstart nofun rfl nofun _ nofun rfl nofun nofun nofun
  | storing =>
    obtain ⟨hpast, -⟩ := hunder (by simp [hstart]) (by simp [hstart, Starting.settled])
    simp only [Sender.startStep, hstart] at hstep
    cases hstep
    have hcreated := h.storing hstart
    have hcloses := h.backendCloses
    exact { h.start_at hstart with
      everStarted := ⟨fun _ => nofun, fun _ => h.everStarted.mpr (by simp [hstart])⟩
      startClosing := nofun
      startOver := fun hp => by simp_all
      unspawned := nofun
      spawning := nofun
      storing := nofun
      backend := fun _ => hcreated.symm
      backendCloses := by
        have hlate : s.closer.past 9 = false := by grind
        simpa [hlate] using hcloses }
  | starting =>
    simp only [Sender.startStep, hstart] at hstep
    cases hstep
    exact h.start_to hstart nofun rfl nofun _ nofun rfl nofun nofun nofun
  | settling ok =>
    obtain ⟨hpast, hmaint⟩ := hunder (by simp [hstart]) (by simp [hstart, Starting.settled])
    simp only [Sender.startStep, hstart] at hstep
    cases hstep
    have hdone := (h.start_at hstart).startDone
    have hmdone := h.maintDone
    have hnot : ∀ (c : Bool) (v : Starting), v = .closing ∨ v.settled = false →
        (if c then Starting.stopping else .returned) ≠ v := by
      rintro c v hv rfl
      cases c <;> simp [Starting.settled] at hv
    have hsettled : ∀ c : Bool, (if c then Starting.stopping else .returned).settled = true := by
      decide
    exact { h with
      everStarted := ⟨fun _ => hnot _ _ (.inr rfl), fun _ => h.everStarted.mpr (by simp [hstart])⟩
      startDone := by
        rw [hsettled]
        exact congrArg (· + 1) hdone
      startClosing := fun hc => absurd hc (hnot _ _ (.inl rfl))
      startOver := fun _ => .inr (hsettled _)
      maintDone := by
        simp only [hmaint] at hmdone ⊢
        split <;> simpa using hmdone
      maintBefore := fun hn => absurd ((hsettled _).symm.trans hn) (by decide)
      maintOver := fun hp => by grind
      unspawned := fun hu => hu.elim (fun hb => absurd hb (hnot _ _ (.inr rfl)))
        fun hv => absurd hv (hnot _ _ (.inr rfl))
      spawning := fun i hi => absurd hi (hnot _ _ (.inr rfl))
      storing := fun hst => absurd hst (hnot _ _ (.inr rfl))
      backend := fun _ => h.backend (by simp [hstart]) }
  | stopping =>
    simp only [Sender.startStep, hstart] at hstep
    cases hstep
    exact h.stopAdmission.start_after (stopAdmission_start.trans hstart) rfl _ rfl
      fun _ => stopAdmission_stopping
  | closing =>
    simp only [Sender.startStep, hstart] at hstep
    cases hstep
    exact (h.closeAsync (h.startClosing hstart)).start_after (closeAsync_start.trans hstart) rfl _
      rfl nofun
  | waiting =>
    simp only [Sender.startStep, hstart] at hstep
    split at hstep <;> cases hstep
    exact h.start_after hstart rfl _ rfl nofun

end Staged

/-! ## Operations -/

@[grind] def Operation.holding (o : Operation) : Bool :=
  match o.place with
  | .deciding | .refusing | .running | .releasing => true
  | _ => false

@[grind] def Operation.unfinished (o : Operation) : Bool :=
  match o.place with
  | .running | .releasing => true
  | _ => false

/-- It was admitted and `Close` waits for it. -/
@[grind] def Operation.counted (o : Operation) : Bool :=
  match o.place with
  | .running | .releasing | .leaving => true
  | _ => false

/-- The slots and the wait group, seen with the operations around them. -/
structure Sending (L : Limits) (s : Sender) (holding counted : Nat) : Prop where
  slots : s.slots = holding
  bounded : s.slots ≤ L.sends
  sendWG : s.sendWG = counted
  drained : s.closer.past 4 = true → counted = 0

namespace Sending

variable {holding counted : Nat}

theorem take (h : Sending L s holding counted) (hroom : s.slots < L.sends) :
    Sending L { s with slots := s.slots + 1 } (holding + 1) counted :=
  { h with
    slots := congrArg (· + 1) h.slots
    bounded := hroom }

theorem give (h : Sending L s (holding + 1) counted) :
    Sending L { s with slots := s.slots - 1 } holding counted :=
  { h with
    slots := congrArg (· - 1) h.slots
    bounded := Nat.le_trans (Nat.sub_le _ _) h.bounded }

theorem enter (h : Sending L s holding counted) (hopen : s.closer.past 4 = false) :
    Sending L { s with sendWG := s.sendWG + 1 } holding (counted + 1) :=
  { h with
    sendWG := by simp [h.sendWG]
    drained := fun hp => by simp_all }

theorem leave (h : Sending L s holding (counted + 1)) :
    Sending L { s with sendWG := s.sendWG - 1 } holding counted :=
  { h with
    sendWG := by simp [h.sendWG]
    drained := fun hp => absurd (h.drained hp) (Nat.succ_ne_zero _) }

theorem open_of_ready (hstaged : Staged L s) (hready : s.ready L = true) :
    s.closer.past 4 = false := by
  have hstop := hstaged.stopping
  grind [Sender.ready]

theorem operation {o o' : Operation} (hstaged : Staged L s)
    (h : Sending L s (holding + o.holding.toNat) (counted + o.counted.toNat))
    (hmove : o.move L k s = some (s', o')) :
    Sending L s' (holding + o'.holding.toNat) (counted + o'.counted.toNat) := by
  obtain ⟨detached, place, done⟩ := o
  cases place with
  | entering =>
    simp only [Operation.move] at hmove
    split at hmove <;> cases hmove <;> exact h
  | selecting =>
    cases k with
    | ok =>
      simp only [Operation.move] at hmove
      split at hmove <;> cases hmove
      exact h.take (by assumption)
    | fail =>
      simp only [Operation.move] at hmove
      split at hmove <;> cases hmove
      exact h
    | cancel =>
      cases hmove
      exact h
  | deciding =>
    simp only [Operation.move] at hmove
    split at hmove <;> cases hmove
    · exact h.enter (open_of_ready hstaged (by assumption))
    · exact h
  | refusing =>
    simp only [Operation.move] at hmove
    split at hmove <;> cases hmove
    exact h.give
  | running =>
    simp only [Operation.move] at hmove
    split at hmove <;> cases hmove
    · exact { h with }
    · exact h
  | releasing =>
    simp only [Operation.move] at hmove
    split at hmove <;> cases hmove
    exact h.give
  | leaving =>
    simp only [Operation.move] at hmove
    split at hmove <;> cases hmove <;> exact h.leave
  | closing =>
    cases hmove
    exact h
  | ended => cases hmove

end Sending

variable {o o' : Operation} {d d' : Dispatch} {t : Thread}

theorem Operation.move_frame (hmove : o.move L k s = some (s', o')) :
    ∃ slots sendWG dbHealthy,
      s' = { s with slots := slots, sendWG := sendWG, dbHealthy := dbHealthy } := by
  obtain ⟨detached, place, done⟩ := o
  cases place <;> cases k <;> simp only [Operation.move] at hmove <;>
    first
      | contradiction
      | (cases hmove; exact ⟨_, _, _, rfl⟩)
      | (split at hmove <;> cases hmove <;> exact ⟨_, _, _, rfl⟩)

theorem maintainStep_frame (hstep : s.maintainStep k = some s') :
    ∃ dbHealthy maintenance maintDone, s' =
      { s with dbHealthy := dbHealthy, maintenance := maintenance, maintDone := maintDone } := by
  unfold Sender.maintainStep at hstep
  split at hstep
  · split at hstep
    · cases hstep
      exact ⟨_, _, _, rfl⟩
    · split at hstep <;> cases hstep
      exact ⟨_, _, _, rfl⟩
  · split at hstep <;> cases hstep <;> exact ⟨_, _, _, rfl⟩
  · cases hstep
    exact ⟨_, _, _, rfl⟩
  · cases hstep
    exact ⟨_, _, _, rfl⟩
  · cases hstep
  · cases hstep

/-! ## Checks -/

@[grind] def Worker.live : Worker → Bool
  | .unstarted | .gone => false
  | _ => true

@[grind] def Worker.begun (w : Worker) : Bool := w ≠ .unstarted

@[grind] def Worker.blocking (w : Worker) : Bool := w = .blocked

/-- A worker that has found the channel closed and empty. -/
@[grind] def Worker.exited : Worker → Bool
  | .leaving | .gone => true
  | _ => false

@[grind] def Worker.check : Worker → Option Nat
  | .received check => some check
  | _ => none

@[grind] def Worker.busy : Worker → Bool
  | .received _ | .running _ => true
  | _ => false

/-- The workers around a sender, as the sender sees them. -/
structure Crowd where
  live : Nat
  begun : Nat
  blocking : Nat
  exited : Nat
  /-- Checks received and not run. -/
  holding : Multiset Nat

def Crowd.join (c : Crowd) (w : Worker) : Crowd :=
  ⟨c.live + w.live.toNat, c.begun + w.begun.toNat, c.blocking + w.blocking.toNat,
    c.exited + w.exited.toNat, (w.check.elim 0 fun n => {n}) + c.holding⟩

/-- The channel of checks and its wait group, seen with the workers around them. -/
structure Checking (L : Limits) (s : Sender) (c : Crowd) : Prop where
  checkWG : s.checkWG = s.newWorkers + c.live
  spawned : s.spawned = s.newWorkers + c.begun
  receivers : s.receivers = c.blocking
  handed : s.handed.length ≤ s.receivers
  /-- Nothing is buffered while a worker waits for it. -/
  buffered : s.checks ≠ [] → s.handed.length = s.receivers
  queue : s.checks.length ≤ L.checkQueue
  numbers : (s.runs : Multiset Nat) + c.holding + s.handed + s.checks = Multiset.range s.accepted
  exited : c.exited ≠ 0 → s.checks = [] ∧ s.checksClosed ≠ 0
  accepted : s.accepted ≠ 0 → s.dispatching = true
  ended : s.closer.past 8 = true → s.newWorkers = 0 ∧ c.live = 0

theorem coe_snoc (items : List Nat) (n : Nat) :
    ((items ++ [n] : List Nat) : Multiset Nat) = items + {n} := by
  rw [← Multiset.coe_add, Multiset.coe_singleton]

theorem coe_head (items : List Nat) (n : Nat) :
    ((n :: items : List Nat) : Multiset Nat) = {n} + items := by
  rw [← Multiset.cons_coe, Multiset.singleton_add]

theorem range_next (n : Nat) : Multiset.range (n + 1) = Multiset.range n + {n} := by
  rw [Multiset.range_succ, ← Multiset.singleton_add, add_comm]

namespace Checking

variable {c : Crowd}

theorem dispatch {d d' : Dispatch} (hstaged : Staged L s) (h : Checking L s c)
    (hmove : d.move L s = some (s', d')) : Checking L s' c := by
  have hclosing := hstaged.checksClosing
  have hclosed := hstaged.checksClosed
  cases d with
  | accepted check | rejected => cases hmove
  | entering =>
    simp only [Dispatch.move] at hmove
    split at hmove
    · cases hmove
    rename_i hgiven
    split at hmove
    · cases hmove
      exact { h with }
    rename_i hopen
    have hopened : s.checksClosed = 0 := by simp_all
    have hnone : c.exited ≠ 0 → False := fun he => (h.exited he).2 hopened
    have hnumbers := h.numbers
    split at hmove
    next hne =>
      exact absurd hopened hne
    split at hmove
    next hroom =>
      cases hmove
      exact { h with
        handed := by
          rw [length_append]
          exact hroom
        buffered := fun hne => absurd (h.buffered hne) (Nat.ne_of_lt hroom)
        numbers := by
          rw [coe_snoc, range_next, ← hnumbers]
          abel
        accepted := fun _ => by simpa using hgiven }
    rename_i hfull
    split at hmove
    next hroom =>
      cases hmove
      exact { h with
        buffered := fun _ => Nat.le_antisymm h.handed (Nat.le_of_not_lt hfull)
        queue := by
          rw [length_append]
          exact hroom
        numbers := by
          rw [coe_snoc, range_next, ← hnumbers]
          abel
        exited := fun he => (hnone he).elim
        accepted := fun _ => by simpa using hgiven }
    · cases hmove
      exact { h with }

theorem worker {w w' : Worker} (h : Checking L s (c.join w))
    (hmove : w.move k s = some (s', w')) : Checking L s' (c.join w') := by
  have hnumbers := h.numbers
  have hwg := h.checkWG
  have hspawned := h.spawned
  have hreceivers := h.receivers
  have hhanded := h.handed
  cases w with
  | gone => cases hmove
  | unstarted =>
    simp only [Worker.move] at hmove
    split at hmove <;> cases hmove
    rename_i hnew
    exact { h with
      checkWG := by
        simp [Crowd.join, Worker.live] at hwg ⊢
        omega
      spawned := by
        simp [Crowd.join, Worker.begun] at hspawned ⊢
        omega
      ended := fun hp => by
        have hn := (h.ended hp).1
        omega }
  | receiving =>
    simp only [Worker.move] at hmove
    split at hmove
    next check rest hchecks =>
      cases hmove
      have hqueue := h.queue
      rw [hchecks] at hqueue
      exact { h with
        buffered := fun _ => h.buffered (by simp [hchecks])
        queue := Nat.le_of_succ_le hqueue
        numbers := by
          rw [← hnumbers, hchecks, coe_head]
          simp only [Crowd.join, Worker.check, Option.elim]
          abel
        exited := fun he => by
          have hempty := (h.exited he).1
          rw [hchecks] at hempty
          cases hempty }
    next hempty =>
      split at hmove <;> cases hmove
      next hclosed =>
        exact { h with
          exited := fun _ => ⟨hempty, hclosed⟩ }
      · exact { h with
          receivers := by
            simp [Crowd.join, Worker.blocking] at hreceivers ⊢
            omega
          handed := by simp only; omega
          buffered := fun hne => absurd hempty hne }
  | blocked =>
    have hone : s.receivers ≠ 0 := by
      simp [Crowd.join, Worker.blocking] at hreceivers
      omega
    simp only [Worker.move] at hmove
    split at hmove
    next check rest hvalues =>
      cases hmove
      rw [hvalues, length_cons] at hhanded
      exact { h with
        receivers := by
          simp [Crowd.join, Worker.blocking] at hreceivers ⊢
          omega
        handed := by simp only; omega
        buffered := fun hne => by
          have hall := h.buffered hne
          rw [hvalues, length_cons] at hall
          simp only
          omega
        numbers := by
          rw [← hnumbers, hvalues, coe_head]
          simp only [Crowd.join, Worker.check, Option.elim]
          abel }
    next hvalues =>
      split at hmove <;> cases hmove
      rename_i hclosed
      have hempty : s.checks = [] := by
        by_contra hne
        have hall := h.buffered hne
        rw [hvalues, length_nil] at hall
        exact hone hall.symm
      exact { h with
        receivers := by
          simp [Crowd.join, Worker.blocking] at hreceivers ⊢
          omega
        handed := by simp [hvalues]
        buffered := fun hne => absurd hempty hne
        exited := fun _ => ⟨hempty, hclosed⟩ }
  | received check =>
    cases hmove
    exact { h with
      numbers := by
        rw [coe_snoc, ← hnumbers]
        simp only [Crowd.join, Worker.check, Option.elim]
        abel }
  | running check =>
    simp only [Worker.move] at hmove
    split at hmove <;> cases hmove
    · exact { h with }
    · exact { h with }
  | leaving =>
    cases hmove
    exact { h with
      checkWG := by
        simp [Crowd.join, Worker.live] at hwg ⊢
        omega
      ended := fun hp => by
        have hlive := (h.ended hp).2
        simp [Crowd.join, Worker.live] at hlive }

theorem closer_at {t : Closing} (h : Checking L s c) (ht : s.closer = t) :
    Checking L { s with closer := t } c := by
  subst ht
  exact h

theorem stopAdmission (h : Checking L s c) : Checking L s.stopAdmission c := by
  unfold Sender.stopAdmission
  split
  · exact h
  · exact { h with }

theorem closeAsync (h : Checking L s c) : Checking L s.closeAsync c := by
  unfold Sender.closeAsync
  split
  · exact h
  · exact { h with ended := nofun }

theorem startStep (hstaged : Staged L s) (h : Checking L s c)
    (hstep : s.startStep L k = some s') : Checking L s' c := by
  cases hstart : s.start with
  | before | returned => simp [Sender.startStep, hstart] at hstep
  | validating | creating | waiting =>
    simp only [Sender.startStep, hstart] at hstep
    split at hstep <;> cases hstep <;> exact { h with }
  | spawning i =>
    obtain ⟨hpast, -⟩ := hstaged.starting (by simp [hstart]) (by simp [hstart, Starting.settled])
    have hwg := h.checkWG
    have hspawned := h.spawned
    simp only [Sender.startStep, hstart] at hstep
    split at hstep <;> cases hstep
    · exact { h with
        checkWG := by
          simp only [Nat.cast_add, Nat.cast_one]
          omega
        spawned := by
          simp only
          omega
        ended := fun hp => by grind }
    · exact { h with
        accepted := fun _ => rfl }
  | storing | starting | settling ok =>
    simp only [Sender.startStep, hstart] at hstep
    cases hstep
    exact { h with }
  | stopping =>
    simp only [Sender.startStep, hstart] at hstep
    cases hstep
    exact { h.stopAdmission with }
  | closing =>
    simp only [Sender.startStep, hstart] at hstep
    cases hstep
    exact { h.closeAsync with }

theorem maintainStep (h : Checking L s c) (hstep : s.maintainStep k = some s') :
    Checking L s' c := by
  obtain ⟨m, d, n, rfl⟩ := maintainStep_frame hstep
  exact { h with }

theorem closeStep (h : Checking L s c) (hstep : s.closeStep = some s') : Checking L s' c := by
  cases hcloser : s.closer with
  | before | ended => simp [Sender.closeStep, hcloser] at hstep
  | reading | stoppingMaintenance | settling | closingDone =>
    simp only [Sender.closeStep, hcloser] at hstep
    cases hstep
    exact { h.closer_at hcloser with }
  | closingChecks =>
    simp only [Sender.closeStep, hcloser] at hstep
    cases hstep
    exact { h.closer_at hcloser with
      exited := fun he => ⟨(h.exited he).1, Nat.succ_ne_zero _⟩ }
  | awaitingStart b | awaitingSends | awaitingMaintenance =>
    simp only [Sender.closeStep, hcloser, ite_none_right_eq_some, Option.some.injEq] at hstep
    obtain ⟨-, rfl⟩ := hstep
    exact { h.closer_at hcloser with }
  | awaitingChecks =>
    simp only [Sender.closeStep, hcloser, ite_none_right_eq_some, Option.some.injEq] at hstep
    obtain ⟨hwait, rfl⟩ := hstep
    have hwg := h.checkWG
    exact { h.closer_at hcloser with
      ended := fun _ => by
        simp only
        omega }
  | closingBackend =>
    simp only [Sender.closeStep, hcloser] at hstep
    split at hstep <;> cases hstep <;> exact { h.closer_at hcloser with }

end Checking

namespace Sending

variable {holding counted : Nat}

theorem closer_at {t : Closing} (h : Sending L s holding counted) (ht : s.closer = t) :
    Sending L { s with closer := t } holding counted := by
  subst ht
  exact h

theorem stopAdmission (h : Sending L s holding counted) :
    Sending L s.stopAdmission holding counted := by
  unfold Sender.stopAdmission
  split
  · exact h
  · exact { h with }

theorem closeAsync (h : Sending L s holding counted) : Sending L s.closeAsync holding counted := by
  unfold Sender.closeAsync
  split
  · exact h
  · exact { h with drained := nofun }

theorem startStep (h : Sending L s holding counted) (hstep : s.startStep L k = some s') :
    Sending L s' holding counted := by
  cases hstart : s.start with
  | before | returned => simp [Sender.startStep, hstart] at hstep
  | validating | creating | waiting | spawning i =>
    simp only [Sender.startStep, hstart] at hstep
    split at hstep <;> cases hstep <;> exact { h with }
  | storing | starting | settling ok =>
    simp only [Sender.startStep, hstart] at hstep
    cases hstep
    exact { h with }
  | stopping =>
    simp only [Sender.startStep, hstart] at hstep
    cases hstep
    exact { h.stopAdmission with }
  | closing =>
    simp only [Sender.startStep, hstart] at hstep
    cases hstep
    exact { h.closeAsync with }

theorem maintainStep (h : Sending L s holding counted) (hstep : s.maintainStep k = some s') :
    Sending L s' holding counted := by
  obtain ⟨m, d, n, rfl⟩ := maintainStep_frame hstep
  exact { h with }

theorem closeStep (h : Sending L s holding counted) (hstep : s.closeStep = some s') :
    Sending L s' holding counted := by
  cases hcloser : s.closer with
  | before | ended => simp [Sender.closeStep, hcloser] at hstep
  | reading | stoppingMaintenance | settling | closingDone | closingChecks =>
    simp only [Sender.closeStep, hcloser] at hstep
    cases hstep
    exact { h.closer_at hcloser with }
  | awaitingStart b | awaitingChecks | awaitingMaintenance =>
    simp only [Sender.closeStep, hcloser, ite_none_right_eq_some, Option.some.injEq] at hstep
    obtain ⟨-, rfl⟩ := hstep
    exact { h.closer_at hcloser with }
  | awaitingSends =>
    simp only [Sender.closeStep, hcloser, ite_none_right_eq_some, Option.some.injEq] at hstep
    obtain ⟨hwait, rfl⟩ := hstep
    have hwg := h.sendWG
    exact { h.closer_at hcloser with
      drained := fun _ => by omega }
  | closingBackend =>
    simp only [Sender.closeStep, hcloser] at hstep
    split at hstep <;> cases hstep <;> exact { h.closer_at hcloser with }

end Sending

/-! ## All threads -/

theorem Staged.begin (h : Staged L s) (hnever : s.everStarted = false)
    (hopen : s.stopping = false) :
    Staged L { s with everStarted := true, start := .validating } := by
  have hbefore : s.start = .before := by
    by_contra hne
    rw [h.everStarted.mpr hne] at hnever
    cases hnever
  have hpast : s.closer.past 1 = false := by
    by_contra hp
    rw [h.stopping (by simpa using hp)] at hopen
    cases hopen
  exact { h.start_at hbefore with
    everStarted := ⟨fun _ => nofun, fun _ => rfl⟩
    startClosing := nofun
    replaced := fun b hb => by
      rw [hb] at hpast
      cases hpast
    startOver := fun hp => by grind
    unspawned := fun _ => h.unspawned (.inl hbefore)
    spawning := nofun
    storing := nofun
    backend := fun _ => h.backend (by simp [hbefore]) }

theorem Staged.dispatch (h : Staged L s) (hmove : d.move L s = some (s', d')) : Staged L s' := by
  have hclosing := h.checksClosing
  have hclosed := h.checksClosed
  unfold Dispatch.move at hmove
  split at hmove
  · split at hmove
    · cases hmove
    split at hmove
    · cases hmove
      exact { h with }
    rename_i hopen
    split at hmove
    · simp_all
    split at hmove
    · cases hmove
      exact { h with }
    split at hmove <;> cases hmove <;> exact { h with }
  · cases hmove

theorem Dispatch.move_frame (hmove : d.move L s = some (s', d')) :
    ∃ checkRejected sentOnClosed handed checks accepted, s' =
      { s with checkRejected := checkRejected, sentOnClosed := sentOnClosed, handed := handed,
               checks := checks, accepted := accepted } := by
  cases d with
  | accepted check | rejected => cases hmove
  | entering =>
    simp only [Dispatch.move] at hmove
    split at hmove
    · cases hmove
    split at hmove
    · cases hmove
      exact ⟨_, _, _, _, _, rfl⟩
    split at hmove
    · cases hmove
      exact ⟨_, _, _, _, _, rfl⟩
    split at hmove
    · cases hmove
      exact ⟨_, _, _, _, _, rfl⟩
    split at hmove <;> cases hmove <;> exact ⟨_, _, _, _, _, rfl⟩

theorem Worker.move_frame {w w' : Worker} (hmove : w.move k s = some (s', w')) :
    ∃ newWorkers checks receivers handed runningChecks runs dbHealthy checkWG, s' =
      { s with newWorkers := newWorkers, checks := checks, receivers := receivers,
               handed := handed, runningChecks := runningChecks, runs := runs,
               dbHealthy := dbHealthy, checkWG := checkWG } := by
  cases w with
  | gone => cases hmove
  | received check | leaving =>
    cases hmove
    exact ⟨_, _, _, _, _, _, _, _, rfl⟩
  | unstarted | running check =>
    simp only [Worker.move] at hmove
    split at hmove <;> cases hmove <;> exact ⟨_, _, _, _, _, _, _, _, rfl⟩
  | receiving | blocked =>
    simp only [Worker.move] at hmove
    split at hmove
    · cases hmove
      exact ⟨_, _, _, _, _, _, _, _, rfl⟩
    · split at hmove <;> cases hmove <;> exact ⟨_, _, _, _, _, _, _, _, rfl⟩

def Thread.holding : Thread → Bool
  | .operation o => o.holding
  | _ => false

def Thread.unfinished : Thread → Bool
  | .operation o => o.unfinished
  | _ => false

def Thread.counted : Thread → Bool
  | .operation o => o.counted
  | _ => false

def Thread.worker? : Thread → Option Worker
  | .worker w => some w
  | _ => none

def workers (pool : Multiset Thread) : Multiset Worker := pool.filterMap Thread.worker?

def crowd (pool : Multiset Thread) : Crowd :=
  ⟨tally Worker.live (workers pool), tally Worker.begun (workers pool),
    tally Worker.blocking (workers pool), tally Worker.exited (workers pool),
    (workers pool).filterMap Worker.check⟩

theorem crowd_worker (w : Worker) (others : Multiset Thread) :
    crowd (.worker w ::ₘ others) = (crowd others).join w := by
  have hcons : workers (.worker w ::ₘ others) = w ::ₘ workers others :=
    Multiset.filterMap_cons_some _ _ _ rfl
  simp only [crowd, hcons, tally_cons, Crowd.join]
  cases hcheck : w.check with
  | none => rw [Multiset.filterMap_cons_none _ _ hcheck, elim_none, zero_add]
  | some n => rw [Multiset.filterMap_cons_some _ _ _ hcheck, elim_some, Multiset.singleton_add]

theorem crowd_other (ht : t.worker? = none) (others : Multiset Thread) :
    crowd (t ::ₘ others) = crowd others := by
  rw [crowd, workers, Multiset.filterMap_cons_none _ _ ht]
  rfl

structure Inv (L : Limits) (s : Sender) (pool : Multiset Thread) : Prop where
  staged : Staged L s
  sending : Sending L s (tally Thread.holding pool) (tally Thread.counted pool)
  checking : Checking L s (crowd pool)
  closing : .stop .closing ∈ pool → s.stopping = true

namespace Inv

variable {others : Multiset Thread}

variable {t t' : Thread}

theorem closing_of (h : Inv L s (t ::ₘ others)) (ht' : t' ≠ .stop .closing)
    (hstop : s.stopping = true → s'.stopping = true) :
    .stop .closing ∈ t' ::ₘ others → s'.stopping = true := fun hmem =>
  hstop (h.closing (Multiset.mem_cons_of_mem
    ((Multiset.mem_cons.mp hmem).resolve_left fun heq => ht' heq.symm)))

theorem operation {o o' : Operation} (h : Inv L s (.operation o ::ₘ others))
    (hmove : o.move L k s = some (s', o')) : Inv L s' (.operation o' ::ₘ others) := by
  have hsending := h.sending
  rw [tally_cons, tally_cons] at hsending
  have hsending' := Sending.operation h.staged hsending hmove
  have hchecking := h.checking
  rw [crowd_other rfl] at hchecking
  obtain ⟨slots, sendWG, dbHealthy, rfl⟩ := Operation.move_frame hmove
  exact {
    staged := { h.staged with }
    sending := by
      rw [tally_cons, tally_cons]
      exact hsending'
    checking := by
      rw [crowd_other rfl]
      exact { hchecking with }
    closing := h.closing_of nofun id }

theorem worker {w w' : Worker} (h : Inv L s (.worker w ::ₘ others))
    (hmove : w.move k s = some (s', w')) : Inv L s' (.worker w' ::ₘ others) := by
  have hsending := h.sending
  have hchecking := h.checking
  rw [tally_cons, tally_cons] at hsending
  rw [crowd_worker] at hchecking
  have hchecking' := hchecking.worker hmove
  obtain ⟨newWorkers, checks, receivers, handed, runningChecks, runs, dbHealthy, checkWG, rfl⟩ :=
    Worker.move_frame hmove
  exact {
    staged := { h.staged with }
    sending := by
      rw [tally_cons, tally_cons]
      exact { hsending with }
    checking := by
      rw [crowd_worker]
      exact hchecking'
    closing := h.closing_of nofun id }

theorem other (h : Inv L s (t ::ₘ others))
    (ht : t.holding = false ∧ t.counted = false ∧ t.worker? = none)
    (ht' : t'.holding = false ∧ t'.counted = false ∧ t'.worker? = none) (staged : Staged L s')
    (sending : ∀ n m, Sending L s n m → Sending L s' n m)
    (checking : ∀ c, Checking L s c → Checking L s' c)
    (closing : .stop .closing ∈ t' ::ₘ others → s'.stopping = true) : Inv L s' (t' ::ₘ others) := by
  have hsending := h.sending
  have hchecking := h.checking
  rw [tally_cons, tally_cons, ht.1, ht.2.1] at hsending
  rw [crowd_other ht.2.2] at hchecking
  refine ⟨staged, ?_, ?_, closing⟩
  · rw [tally_cons, tally_cons, ht'.1, ht'.2.1]
    exact sending _ _ hsending
  · rw [crowd_other ht'.2.2]
    exact checking _ hchecking

theorem dispatch {d d' : Dispatch} (h : Inv L s (.dispatch d ::ₘ others))
    (hmove : d.move L s = some (s', d')) : Inv L s' (.dispatch d' ::ₘ others) := by
  have hstaged := h.staged.dispatch hmove
  have hchecking : ∀ c, Checking L s c → Checking L s' c := fun c hc => hc.dispatch h.staged hmove
  obtain ⟨checkRejected, sentOnClosed, handed, checks, accepted, rfl⟩ := Dispatch.move_frame hmove
  exact h.other ⟨rfl, rfl, rfl⟩ ⟨rfl, rfl, rfl⟩ hstaged (fun _ _ hs => { hs with }) hchecking
    (h.closing_of nofun id)

theorem start {t t' : Start} (h : Inv L s (.start t ::ₘ others))
    (hmove : t.move L k s = some (s', t')) : Inv L s' (.start t' ::ₘ others) := by
  cases t with
  | refused => cases hmove
  | entering =>
    simp only [Start.move] at hmove
    split at hmove <;> cases hmove
    · exact h.other ⟨rfl, rfl, rfl⟩ ⟨rfl, rfl, rfl⟩ h.staged (fun _ _ => id) (fun _ => id)
        (h.closing_of nofun id)
    next hfresh =>
      simp only [Bool.or_eq_true, not_or, Bool.not_eq_true] at hfresh
      exact h.other ⟨rfl, rfl, rfl⟩ ⟨rfl, rfl, rfl⟩ (h.staged.begin hfresh.1 hfresh.2)
        (fun _ _ hs => { hs with }) (fun _ hc => { hc with }) (h.closing_of nofun id)
  | inside =>
    obtain ⟨s1, hstep, hs1⟩ := map_eq_some_iff.mp hmove
    cases hs1
    exact h.other ⟨rfl, rfl, rfl⟩ ⟨rfl, rfl, rfl⟩ (h.staged.startStep hstep)
      (fun _ _ hs => hs.startStep hstep) (fun _ hc => hc.startStep h.staged hstep)
      (h.closing_of nofun (startStep_stopping hstep))

theorem stop {t t' : Stop} (h : Inv L s (.stop t ::ₘ others))
    (hmove : t.move k s = some (s', t')) : Inv L s' (.stop t' ::ₘ others) := by
  cases t with
  | returned => cases hmove
  | stopping close =>
    cases hmove
    exact h.other ⟨rfl, rfl, rfl⟩ ⟨rfl, rfl, rfl⟩ h.staged.stopAdmission
      (fun _ _ hs => hs.stopAdmission) (fun _ hc => hc.stopAdmission) fun _ =>
        stopAdmission_stopping
  | closing =>
    cases hmove
    have hstopping := h.closing (Multiset.mem_cons_self _ _)
    exact h.other ⟨rfl, rfl, rfl⟩ ⟨rfl, rfl, rfl⟩ (h.staged.closeAsync hstopping)
      (fun _ _ hs => hs.closeAsync) (fun _ hc => hc.closeAsync) fun _ =>
        closeAsync_stopping.trans hstopping
  | waiting =>
    simp only [Stop.move] at hmove
    split at hmove <;> cases hmove
    exact h.other ⟨rfl, rfl, rfl⟩ ⟨rfl, rfl, rfl⟩ h.staged (fun _ _ => id) (fun _ => id)
      (h.closing_of nofun id)

theorem maintainer (h : Inv L s (.maintainer ::ₘ others)) (hstep : s.maintainStep k = some s') :
    Inv L s' (.maintainer ::ₘ others) :=
  h.other ⟨rfl, rfl, rfl⟩ ⟨rfl, rfl, rfl⟩ (h.staged.maintainStep hstep)
    (fun _ _ hs => hs.maintainStep hstep) (fun _ hc => hc.maintainStep hstep)
    (h.closing_of nofun fun hs => by
      obtain ⟨m, d, n, rfl⟩ := maintainStep_frame hstep
      exact hs)

theorem closer (h : Inv L s (.closer ::ₘ others)) (hstep : s.closeStep = some s') :
    Inv L s' (.closer ::ₘ others) :=
  h.other ⟨rfl, rfl, rfl⟩ ⟨rfl, rfl, rfl⟩ (h.staged.closeStep hstep)
    (fun _ _ hs => hs.closeStep hstep) (fun _ hc => hc.closeStep hstep)
    (h.closing_of nofun (closeStep_stopping hstep))

theorem initial : Inv L {} 0 where
  staged := staged_initial
  sending := ⟨rfl, Nat.zero_le _, rfl, nofun⟩
  checking := by
    constructor <;> simp [crowd, workers, Closing.past, Closing.rank]
  closing := fun hmem => absurd hmem (Multiset.notMem_zero _)

theorem call (h : Inv L s others) (a : Call) : Inv L s (Thread.begin a ::ₘ others) := by
  have hcounts : (Thread.begin a).holding = false ∧ (Thread.begin a).counted = false ∧
      Thread.begin a ≠ .stop .closing := by
    cases a <;> exact ⟨rfl, rfl, nofun⟩
  have hcrowd : crowd (Thread.begin a ::ₘ others) = crowd others := by
    cases a with
    | worker =>
      rw [Thread.begin, crowd_worker]
      simp [Crowd.join, Worker.live, Worker.begun, Worker.blocking, Worker.exited, Worker.check]
    | _ => exact crowd_other rfl others
  refine ⟨h.staged, ?_, ?_, fun hmem => h.closing ?_⟩
  · rw [tally_cons, tally_cons, hcounts.1, hcounts.2.1]
    exact h.sending
  · rw [hcrowd]
    exact h.checking
  · exact (Multiset.mem_cons.mp hmem).resolve_left hcounts.2.2.symm

theorem move (h : Inv L s (t ::ₘ others)) (hmove : t.move L k s = some (s', t')) :
    Inv L s' (t' ::ₘ others) := by
  cases t <;> obtain ⟨r, hr, hreturn⟩ := map_eq_some_iff.mp hmove <;> cases hreturn
  · exact h.operation hr
  · exact h.dispatch hr
  · exact h.worker hr
  · exact h.start hr
  · exact h.stop hr
  · exact h.maintainer hr
  · exact h.closer hr

theorem of_reaches {c : Threads.Conf Sender Thread} (h : (threads L).Reaches {} c) :
    Inv L c.shared c.pool :=
  Threads.Leads.invariant (I := Inv L) (fun _ _ a hi => hi.call a)
    (fun _ _ _ _ _ _ hi hmove => hi.move hmove) h initial

end Inv

/-! ## The end -/

def Thread.busy : Thread → Bool
  | .worker w => w.busy
  | _ => false

/-- No admitted operation, accepted check or iteration of the maintenance loop is under way. -/
structure Quiet (c : Threads.Conf Sender Thread) : Prop where
  operations : ∀ t ∈ c.pool, t.counted = false
  buffered : c.shared.checks = [] ∧ c.shared.handed = []
  checks : ∀ t ∈ c.pool, t.busy = false
  maintenance : c.shared.maintenance = .before ∨ c.shared.maintenance = .ended

theorem past_mono {m n : Nat} {c : Closing} (hmn : m ≤ n) (h : c.past n = true) :
    c.past m = true := by
  simp only [Closing.past, decide_eq_true_eq] at h ⊢
  omega

section

variable {c : Threads.Conf Sender Thread}

variable {w : Worker}

theorem mem_workers (hmem : .worker w ∈ c.pool) : w ∈ workers c.pool :=
  (Multiset.mem_filterMap _ _).mpr ⟨.worker w, hmem, rfl⟩

theorem Worker.not_live (h : w.live = false) :
    w.blocking = false ∧ w.busy = false ∧ w.check = none ∧
      (w.exited = false → w.begun = false) := by
  cases w with
  | unstarted => exact ⟨rfl, rfl, rfl, fun _ => rfl⟩
  | gone => exact ⟨rfl, rfl, rfl, nofun⟩
  | _ => cases h

/-- Where no worker is left but checks were accepted, some worker has found the channel empty. -/
theorem Inv.exited (h : Inv L c.shared c.pool) (hnew : c.shared.newWorkers = 0)
    (hdead : ∀ w ∈ workers c.pool, w.live = false) (haccepted : c.shared.accepted ≠ 0) :
    (crowd c.pool).exited ≠ 0 := by
  intro hexited
  have hnone : tally Worker.exited (workers c.pool) = 0 := hexited
  have hbegun : tally Worker.begun (workers c.pool) = 0 := Threads.tally_eq_zero.mpr fun w hw =>
    (Worker.not_live (hdead w hw)).2.2.2 (Threads.tally_eq_zero.mp hnone w hw)
  have hspawned : c.shared.spawned = c.shared.newWorkers + tally Worker.begun (workers c.pool) :=
    h.checking.spawned
  have hall := h.staged.dispatching (h.checking.accepted haccepted)
  have hworkers := L.workers
  omega

/-- Behind the wait for the checks there is nothing left. -/
theorem Inv.quiet (h : Inv L c.shared c.pool) (hpast : c.shared.closer.past 8 = true) :
    Quiet c ∧ c.shared.runs.Perm (List.range c.shared.accepted) := by
  obtain ⟨hnew, hlive⟩ := h.checking.ended hpast
  have hdead : ∀ w ∈ workers c.pool, w.live = false := Threads.tally_eq_zero.mp hlive
  have hblocked : (crowd c.pool).blocking = 0 := Threads.tally_eq_zero.mpr fun w hw =>
    (Worker.not_live (hdead w hw)).1
  have hhanded : c.shared.handed = [] := by
    have hle := h.checking.handed
    rw [h.checking.receivers, hblocked] at hle
    exact length_eq_zero_iff.mp (Nat.le_zero.mp hle)
  have hholding : (crowd c.pool).holding = 0 := by
    refine Multiset.eq_zero_of_forall_notMem fun n hn => ?_
    obtain ⟨w, hw, hcheck⟩ := (Multiset.mem_filterMap Worker.check (workers c.pool)).mp hn
    rw [(Worker.not_live (hdead w hw)).2.2.1] at hcheck
    cases hcheck
  have hnumbers := h.checking.numbers
  rw [hholding, hhanded] at hnumbers
  have hchecks : c.shared.checks = [] := by
    by_cases haccepted : c.shared.accepted = 0
    · have hcard := congrArg Multiset.card hnumbers
      simp only [haccepted, Multiset.card_add, Multiset.coe_card, Multiset.card_range] at hcard
      exact length_eq_zero_iff.mp (by omega)
    · exact (h.checking.exited (h.exited hnew hdead haccepted)).1
  rw [hchecks] at hnumbers
  refine ⟨⟨?_, ⟨hchecks, hhanded⟩, ?_, h.staged.maintOver (past_mono (by decide) hpast)⟩, ?_⟩
  · have hdrained := h.sending.drained (past_mono (by decide) hpast)
    exact Threads.tally_eq_zero.mp hdrained
  · intro t ht
    cases t with
    | worker w => exact (Worker.not_live (hdead w (mem_workers ht))).2.1
    | _ => rfl
  · have hruns : (c.shared.runs : Multiset Nat) = Multiset.range c.shared.accepted := by
      simpa using hnumbers
    exact Multiset.coe_eq_coe.mp hruns

theorem tally_busy (pool : Multiset Thread) :
    tally Thread.busy pool = tally Worker.busy (workers pool) := by
  induction pool using Multiset.induction with
  | empty => rfl
  | cons t others ih =>
    cases ht : t.worker? with
    | none =>
      have hbusy : t.busy = false := by cases t <;> first | rfl | cases ht
      rw [tally_cons, hbusy, ih, workers, workers, Multiset.filterMap_cons_none _ _ ht]
      rfl
    | some w =>
      have hbusy : t.busy = w.busy := by cases t <;> first | cases ht; rfl | cases ht
      rw [tally_cons, hbusy, ih, workers, workers, Multiset.filterMap_cons_some _ _ _ ht,
        tally_cons]

/-- Accepted checks that are not finished have a place in the buffer or a worker. -/
theorem Inv.checks_bounded (h : Inv L c.shared c.pool) :
    c.shared.checks.length + c.shared.handed.length + tally Thread.busy c.pool ≤
      L.checkWorkers + L.checkQueue := by
  have hplaces : tally Worker.busy (workers c.pool) + tally Worker.blocking (workers c.pool) ≤
      tally Worker.begun (workers c.pool) :=
    Threads.tally_add_le fun w _ => by
      cases w <;> simp [Worker.busy, Worker.blocking, Worker.begun]
  have hspawned : c.shared.spawned = c.shared.newWorkers + tally Worker.begun (workers c.pool) :=
    h.checking.spawned
  have hreceivers : c.shared.receivers = tally Worker.blocking (workers c.pool) :=
    h.checking.receivers
  have hhanded := h.checking.handed
  have hqueue := h.checking.queue
  have hlimit := h.staged.spawned
  rw [tally_busy]
  omega

theorem Inv.operations_bounded (h : Inv L c.shared c.pool) :
    tally Thread.unfinished c.pool ≤ L.sends := by
  have hle : tally Thread.unfinished c.pool ≤ tally Thread.holding c.pool :=
    Threads.tally_mono fun t _ ht => by
      cases t with
      | operation o =>
        simp only [Thread.unfinished, Thread.holding] at ht ⊢
        grind
      | _ => cases ht
  have hslots := h.sending.slots
  have hbounded := h.sending.bounded
  omega

end

theorem Operation.done_of_move (h : o.done = 0 ∨ o.done = 1 ∧ o.place = .ended)
    (hmove : o.move L k s = some (s', o')) : o'.done = 0 ∨ o'.done = 1 ∧ o'.place = .ended := by
  obtain ⟨detached, place, done⟩ := o
  rcases h with rfl | ⟨-, rfl⟩
  · cases place <;> simp only [Operation.move] at hmove <;> grind
  · cases hmove

theorem operation_done {c : Threads.Conf Sender Thread} (h : (threads L).Reaches {} c)
    (hmem : .operation o ∈ c.pool) : o.done ≤ 1 := by
  have hall : ∀ t ∈ c.pool, ∀ o, t = .operation o → o.done = 0 ∨ o.done = 1 ∧ o.place = .ended := by
    refine Threads.Reaches.forall ?_ ?_ h
    · rintro a o ho
      cases a <;> cases ho <;> exact .inl rfl
    · rintro s t k s' t' ht hmove o rfl
      cases t with
      | operation o0 =>
        obtain ⟨r, hr, hreturn⟩ := map_eq_some_iff.mp hmove
        cases hreturn
        exact Operation.done_of_move (ht o0 rfl) hr
      | _ =>
        obtain ⟨r, -, hreturn⟩ := map_eq_some_iff.mp hmove
        cases hreturn
  rcases hall _ hmem o rfl with h0 | h1 <;> omega

theorem startStep_closeDone (hstep : s.startStep L k = some s') : s'.closeDone = s.closeDone := by
  unfold Sender.startStep at hstep
  grind [Sender.stopAdmission, Sender.closeAsync]

theorem Start.move_closeDone {t t' : Start} (hmove : t.move L k s = some (s', t')) :
    s'.closeDone = s.closeDone := by
  cases t with
  | entering =>
    unfold Start.move at hmove
    grind
  | inside =>
    obtain ⟨r, hr, hreturn⟩ := map_eq_some_iff.mp hmove
    cases hreturn
    exact startStep_closeDone hr
  | refused => cases hmove

theorem Stop.move_closeDone {t t' : Stop} (hmove : t.move k s = some (s', t')) :
    s'.closeDone = s.closeDone := by
  unfold Stop.move at hmove
  grind [Sender.stopAdmission, Sender.closeAsync]

theorem closeDone_of_move {t' : Thread} (hmove : t.move L k s = some (s', t'))
    (h : s.closeDone ≠ 0) :
    s'.closeDone ≠ 0 := by
  cases t <;> obtain ⟨r, hr, hreturn⟩ := map_eq_some_iff.mp hmove <;> cases hreturn
  case operation =>
    obtain ⟨_, _, _, hs⟩ := Operation.move_frame hr
    rw [hs]
    exact h
  case dispatch =>
    obtain ⟨_, _, _, _, _, hs⟩ := Dispatch.move_frame hr
    rw [hs]
    exact h
  case worker =>
    obtain ⟨_, _, _, _, _, _, _, _, hs⟩ := Worker.move_frame hr
    rw [hs]
    exact h
  case start => rwa [Start.move_closeDone hr]
  case stop => rwa [Stop.move_closeDone hr]
  case maintainer =>
    obtain ⟨_, _, _, hs⟩ := maintainStep_frame hr
    rw [hs]
    exact h
  case closer =>
    unfold Sender.closeStep at hr
    grind

theorem closeDone_of_leads {c c' : Threads.Conf Sender Thread} (h : (threads L).Leads c c')
    (hdone : c.shared.closeDone ≠ 0) : c'.shared.closeDone ≠ 0 := by
  refine Threads.Leads.invariant (I := fun s _ => s.closeDone ≠ 0) ?_ ?_ h hdone
  · intro s others a hs
    exact hs
  · intro s t others k s' t' hs hmove
    exact closeDone_of_move hmove hs

theorem past_of_toNat {b : Bool} (h : b.toNat ≠ 0) : b = true := by
  cases b
  · exact absurd rfl h
  · rfl

/-- Admission and shutdown of a sender, in every interleaving of its calls and goroutines. -/
theorem sender_shuts_down (L : Limits) {c : Threads.Conf Sender Thread}
    (h : (threads L).Reaches {} c) :
    tally Thread.unfinished c.pool ≤ L.sends ∧
    c.shared.checks.length + c.shared.handed.length + tally Thread.busy c.pool ≤
      L.checkWorkers + L.checkQueue ∧
    (c.shared.sentOnClosed = false ∧ c.shared.sendStop ≤ 1 ∧ c.shared.startDone ≤ 1 ∧
      c.shared.maintStop ≤ 1 ∧ c.shared.maintDone ≤ 1 ∧ c.shared.checksClosed ≤ 1 ∧
      c.shared.closeDone ≤ 1 ∧ ∀ o, .operation o ∈ c.pool → o.done ≤ 1) ∧
    (c.shared.backendCloses ≠ 0 →
      Quiet c ∧ c.shared.runs.Perm (List.range c.shared.accepted)) ∧
    (c.shared.closeDone ≠ 0 → ∀ c', (threads L).Leads c c' →
      Quiet c' ∧ c'.shared.runs.Perm (List.range c'.shared.accepted) ∧
        c'.shared.backendCloses = c'.shared.created.toNat) := by
  have hinv := Inv.of_reaches h
  have hone : ∀ b : Bool, b.toNat ≤ 1 := Bool.toNat_le
  refine ⟨hinv.operations_bounded, hinv.checks_bounded, ⟨hinv.staged.unsent, ?_, ?_, ?_, ?_, ?_, ?_,
    fun o ho => operation_done h ho⟩, ?_, ?_⟩
  · exact hinv.staged.sendStop ▸ hone _
  · exact hinv.staged.startDone ▸ hone _
  · exact hinv.staged.maintStop ▸ hone _
  · exact hinv.staged.maintDone ▸ hone _
  · exact hinv.staged.checksClosed ▸ hone _
  · exact hinv.staged.closeDone ▸ hone _
  · intro hcloses
    rw [hinv.staged.backendCloses] at hcloses
    have hpast := Bool.and_elim_left (past_of_toNat hcloses)
    exact hinv.quiet (past_mono (by decide) hpast)
  · intro hdone c' hlater
    have hinv' := Inv.of_reaches (h.leads hlater)
    have hended : c'.shared.closer.past 11 = true := by
      refine past_of_toNat ?_
      rw [← hinv'.staged.closeDone]
      exact closeDone_of_leads hlater hdone
    obtain ⟨hquiet, hruns⟩ := hinv'.quiet (past_mono (by decide) hended)
    refine ⟨hquiet, hruns, ?_⟩
    have hstart : c'.shared.start ≠ .storing := by
      intro hstoring
      rcases hinv'.staged.startOver (past_mono (by decide) hended) with hbefore | hsettled
      · rw [hbefore] at hstoring
        cases hstoring
      · rw [hstoring] at hsettled
        cases hsettled
    rw [hinv'.staged.backendCloses, hinv'.staged.backend hstart,
      past_mono (by decide : 9 ≤ 11) hended, Bool.true_and]

/-- One operation and one check pass through a sender that is then closed. -/
def closingRun : List (Threads.Turn Call Choice) :=
  [.call .start, .move 0 .ok, .move 0 .ok, .move 0 .ok, .move 0 .ok, .move 0 .ok, .move 0 .ok,
   .move 0 .ok, .move 0 .ok,
   .call .worker, .move 1 .ok, .call .execute, .move 2 .ok, .move 2 .ok, .move 2 .ok,
   .call .dispatch, .move 3 .ok, .move 1 .ok, .move 1 .ok, .call .close, .move 4 .ok, .move 4 .ok,
   .move 2 .ok, .move 2 .ok, .move 2 .ok, .move 2 .ok, .move 1 .ok,
   .call .maintainer, .call .closer, .move 6 .ok, .move 6 .ok, .move 6 .ok, .move 6 .ok,
   .move 5 .fail, .move 5 .ok, .move 6 .ok, .move 6 .ok, .move 1 .ok, .move 1 .ok,
   .move 6 .ok, .move 6 .ok, .move 6 .ok, .move 6 .ok]

def small : Limits := ⟨1, 1, 1, by decide⟩

theorem sender_shuts_down_once : ∃ c, (threads small).Reaches {} c ∧
    c.shared.closeDone = 1 ∧ c.shared.accepted = 1 ∧ c.shared.runs = [0] ∧
    c.shared.backendCloses = 1 ∧ Quiet c := by
  have h : (threads small).Reaches {} _ := ⟨closingRun, rfl⟩
  exact ⟨_, h, rfl, rfl, rfl, rfl, ((sender_shuts_down small h).2.2.2.2 (by decide) _ ⟨[], rfl⟩).1⟩

end ReliableMessaging.Transport.Lifecycle
