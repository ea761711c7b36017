import ReliableMessaging.Transport.Subscription

/-!
# Every NSQ delivery is settled once

Whatever the host, its handlers and the handoff transport do, a call of
`HandleBusiness` or `HandleFailure` that returns has answered nsqd exactly
once, and nothing answers again later.
-/

namespace ReliableMessaging.Transport.Nsq

open Option

variable {S : Subscription} {raw : Raw} {k : Choice} {causes causes' : Causes} {log log' : Log}

/-! ## Failing a delivery -/

/-- The last attempt was handed over: `Ready`, then a confirmed `Publish`, at the source nsqd, and
only then the FIN. -/
def Log.HandedOver (S : Subscription) (raw : Raw) (log : Log) : Prop :=
  S.maxAttempts ≤ raw.attempts ∧ log = [.ready raw.address, .confirmed raw.address, .fin]

/-- What `fail` ends with: a REQ, or a FIN after the handoff. -/
def Log.Failed (S : Subscription) (raw : Raw) (log : Log) : Prop :=
  log.fins = 0 ∧ log.reqs = 1 ∨ log.HandedOver S raw

@[grind] def Fail.Sound (S : Subscription) (raw : Raw) (log : Log) : Fail → Prop
  | .remembering _ | .comparing _ => log = []
  | .requeueing _ => log = [] ∨ log = [.ready raw.address]
  | .readying _ => S.maxAttempts ≤ raw.attempts ∧ log = []
  | .publishing _ => S.maxAttempts ≤ raw.attempts ∧ log = [.ready raw.address]
  | .forgetting | .finishing =>
    S.maxAttempts ≤ raw.attempts ∧ log = [.ready raw.address, .confirmed raw.address]
  | .done _ => log.Failed S raw

theorem Fail.Sound.move {f f' : Fail} (h : f.Sound S raw log)
    (hmove : f.move S raw k causes log = some (causes', log', f')) : f'.Sound S raw log' := by
  cases f with
  | comparing cause =>
    simp only [Fail.move] at hmove
    split at hmove
    · split at hmove
      · cases hmove
        cases h
        exact .inl ⟨rfl, rfl⟩
      next hlast =>
        have hlast : S.maxAttempts ≤ raw.attempts := by omega
        split at hmove
        · cases hmove
          exact .inl h
        · split at hmove
          · cases hmove
            exact .inl h
          · cases hmove
            exact ⟨hlast, h⟩
    · cases hmove
  | finishing =>
    simp only [Fail.move] at hmove
    split at hmove
    · cases hmove
      exact .inr ⟨h.1, congrArg (· ++ [.fin]) h.2⟩
    · cases hmove
  | requeueing err =>
    simp only [Fail.move] at hmove
    split at hmove
    · cases hmove
      rcases h with rfl | rfl <;> exact .inl ⟨rfl, rfl⟩
    · cases hmove
  | publishing body =>
    simp only [Fail.move] at hmove
    split at hmove
    · split at hmove <;> cases hmove
      · exact .inr h.2
      · exact ⟨h.1, congrArg (· ++ [.confirmed raw.address]) h.2⟩
    · cases hmove
  | readying body =>
    simp only [Fail.move] at hmove
    split at hmove <;> cases hmove
    · exact .inl h.2
    · exact ⟨h.1, congrArg (· ++ [.ready raw.address]) h.2⟩
  | remembering cause =>
    simp only [Fail.move] at hmove
    split at hmove <;> cases hmove
    exact h
  | forgetting =>
    simp only [Fail.move] at hmove
    split at hmove <;> cases hmove
    exact h
  | done err => cases hmove

/-! ## A business delivery -/

/-- The settlement, seen with who was first. -/
@[grind] def Business.Settling (S : Subscription) (b : Business) : Prop :=
  match b.settlement with
  | .idle => b.first = none
  | .forgetting | .finishing =>
    ∃ w, b.first = some w ∧ w.ack = true ∧ (w.host = false → b.handled = some none) ∧ b.log = []
  | .nacking f => ∃ w, b.first = some w ∧ w.ack = false ∧ f.Sound S b.raw b.log
  | .closed _ =>
    ∃ w, b.first = some w ∧
      (w.ack = true ∧ (w.host = false → b.handled = some none) ∧ b.log = [.fin] ∨
      w.ack = false ∧ b.log.Failed S b.raw)

/-- Where the call is, seen with how far the settlement has come. -/
@[grind] def Business.Placed (S : Subscription) (b : Business) : Prop :=
  match b.place with
  | .entering => b.invoked = false ∧ b.settlement = .idle ∧ b.log = []
  | .failing f => b.invoked = false ∧ b.settlement = .idle ∧ f.Sound S b.raw b.log
  | .handling =>
    b.invoked = true ∧ (b.settlement = .idle → b.log = []) ∧
      ∀ w, b.first = some w → w.host = true
  | .deciding err | .settling err =>
    b.invoked = true ∧ b.handled = some err ∧ (b.settlement = .idle → b.log = [])
  | .awaiting => b.invoked = true ∧ b.settlement ≠ .idle
  | .returned _ =>
    b.invoked = false ∧ b.settlement = .idle ∧ b.log.Failed S b.raw ∨
    b.invoked = true ∧ ∃ err, b.settlement = .closed err

structure Business.Sound (S : Subscription) (b : Business) : Prop where
  settling : b.Settling S
  placed : b.Placed S
  admitted : b.invoked = true → b.raw.attempts ≤ S.maxAttempts ∧ S.decodeErr b.raw = none

namespace Business

variable {b b' : Business}

theorem Sound.silent (h : b.Sound S) (hinvoked : b.invoked = true)
    (hidle : b.settlement = .idle) : b.log = [] := by
  have hplaced := h.placed
  unfold Placed at hplaced
  split at hplaced <;> simp_all

theorem Sound.invoked (h : b.Sound S) (hbusy : b.settlement ≠ .idle) : b.invoked = true := by
  have hplaced := h.placed
  unfold Placed at hplaced
  split at hplaced <;> simp_all

theorem Sound.returned (h : b.Sound S) {err : Option String} (hplace : b.place = .returned err) :
    b.settlement = .idle ∧ b.log.Failed S b.raw ∨ ∃ err, b.settlement = .closed err := by
  have hplaced := h.placed
  rw [Placed, hplace] at hplaced
  exact hplaced.imp And.right And.right

/-- The first call starts the settlement, a later one finds it started. -/
theorem settle_settling (host : Bool) (verdict : Option Fail) (h : b.Settling S)
    (hsilent : b.settlement = .idle → b.log = [])
    (hverdict : ∀ f, verdict = some f → ∃ cause, f = .start cause)
    (hhandled : host = false → verdict = none → b.handled = some none) :
    (b.settle host verdict).Settling S ∧ (b.settle host verdict).settlement ≠ .idle ∧
      (b.settlement ≠ .idle → b.settle host verdict = b) ∧
      (b.settlement = .idle → ∃ ack, (b.settle host verdict).first = some ⟨host, ack⟩) := by
  unfold settle
  split
  next hidle =>
    refine ⟨?_, ?_, fun hbusy => absurd hidle hbusy, fun _ => ⟨_, rfl⟩⟩
    · cases verdict with
      | none => exact ⟨_, rfl, rfl, fun hhost => hhandled hhost rfl, hsilent hidle⟩
      | some f =>
        obtain ⟨cause, rfl⟩ := hverdict f rfl
        exact ⟨_, rfl, rfl, hsilent hidle⟩
    · cases verdict <;> simp
  next hbusy =>
    exact ⟨h, hbusy, fun _ => rfl, fun hidle => absurd hidle hbusy⟩

theorem settle_frame (b : Business) (host : Bool) (verdict : Option Fail) :
    (b.settle host verdict).raw = b.raw ∧ (b.settle host verdict).place = b.place ∧
      (b.settle host verdict).log = b.log ∧ (b.settle host verdict).invoked = b.invoked ∧
      (b.settle host verdict).handled = b.handled := by
  unfold settle
  split <;> exact ⟨rfl, rfl, rfl, rfl, rfl⟩

theorem Sound.host (h : b.Sound S) (hinvoked : b.invoked = true) {verdict : Option Fail}
    (hverdict : ∀ f, verdict = some f → ∃ cause, f = .start cause) :
    (b.settle true verdict).Sound S := by
  obtain ⟨hsettling, hbusy, hlate, hfirst⟩ :=
    settle_settling true verdict h.settling (h.silent hinvoked) hverdict (by simp)
  obtain ⟨hraw, hplace, hlog, hinv, hhandled⟩ := settle_frame b true verdict
  refine ⟨hsettling, ?_, by rw [hinv, hraw]; exact h.admitted⟩
  have hplaced := h.placed
  by_cases hidle : b.settlement = .idle
  · obtain ⟨ack, hack⟩ := hfirst hidle
    unfold Placed at hplaced ⊢
    rw [hplace, hraw, hlog, hinv, hhandled]
    split at hplaced <;> simp_all
  · rw [hlate hidle]
    exact hplaced

/-- While a settlement is on its way, the call is not back and has not failed by itself. -/
theorem Sound.keep (h : b.Sound S) (hinvoked : b.invoked = true) {settlement : Settlement}
    {log : Log} (hbusy : b.settlement ≠ .idle) (hopen : ∀ err, b.settlement ≠ .closed err)
    (hbusy' : settlement ≠ .idle)
    (hsettling : ({ b with settlement := settlement, log := log } : Business).Settling S) :
    ({ b with settlement := settlement, log := log } : Business).Sound S := by
  refine ⟨hsettling, ?_, h.admitted⟩
  have hplaced := h.placed
  unfold Placed at hplaced ⊢
  split at hplaced <;> simp_all

theorem Sound.work (h : b.Sound S) (hmove : b.work S k causes = some (causes', b')) :
    b'.Sound S := by
  have hsettling := h.settling
  have hinvoked := h.invoked
  unfold Settling at hsettling
  unfold Business.work at hmove
  split at hmove
  next hs =>
    rw [hs] at hsettling
    split at hmove
    · cases hmove
      exact h.keep (hinvoked (by simp [hs])) (by simp [hs]) (by simp [hs]) (by simp) hsettling
    · cases hmove
  next hs =>
    rw [hs] at hsettling
    split at hmove
    · cases hmove
      obtain ⟨w, hfirst, hack, hhost, hsilent⟩ := hsettling
      exact h.keep (hinvoked (by simp [hs])) (by simp [hs]) (by simp [hs]) (by simp)
        ⟨w, hfirst, .inl ⟨hack, hhost, congrArg (· ++ [.fin]) hsilent⟩⟩
    · cases hmove
  next err hs =>
    rw [hs] at hsettling
    split at hmove
    · cases hmove
      obtain ⟨w, hfirst, hack, hfailed⟩ := hsettling
      exact h.keep (hinvoked (by simp [hs])) (by simp [hs]) (by simp [hs]) (by simp)
        ⟨w, hfirst, .inr ⟨hack, hfailed⟩⟩
    · cases hmove
  next f _ hs =>
    rw [hs] at hsettling
    obtain ⟨⟨c1, log', f'⟩, hf, hnext⟩ := map_eq_some_iff.mp hmove
    cases hnext
    obtain ⟨w, hfirst, hack, hsound⟩ := hsettling
    exact h.keep (hinvoked (by simp [hs])) (by simp [hs]) (by simp [hs]) (by simp)
      ⟨w, hfirst, hack, hsound.move hf⟩
  · cases hmove

theorem Sound.enter (h : b.Sound S) (hplace : b.place = .entering) :
    (b.enter S causes).Sound S := by
  have hplaced := h.placed
  rw [Placed, hplace] at hplaced
  obtain ⟨hinvoked, hidle, hsilent⟩ := hplaced
  have hfirst : b.first = none := by simpa [Settling, hidle] using h.settling
  unfold Business.enter
  split
  · exact ⟨by simpa [Settling, hidle] using hfirst, ⟨hinvoked, hidle, hsilent⟩,
      by simp [hinvoked]⟩
  next hdecoded =>
    split
    · exact ⟨by simpa [Settling, hidle] using hfirst, ⟨hinvoked, hidle, hsilent⟩,
        by simp [hinvoked]⟩
    next hattempts =>
      exact ⟨by simpa [Settling, hidle] using hfirst, ⟨rfl, fun _ => hsilent, by simp [hfirst]⟩,
        fun _ => ⟨by simpa using hattempts, hdecoded⟩⟩

theorem Sound.move (h : b.Sound S) (hmove : b.move S k causes = some (causes', b')) :
    b'.Sound S := by
  have hplaced := h.placed
  have hsettling := h.settling
  unfold Business.move at hmove
  split at hmove
  case h_1 | h_2 =>
    obtain ⟨hinvoked, hnext⟩ := ite_none_right_eq_some.mp hmove
    cases hnext
    exact h.host hinvoked (by simp)
  case h_3 hplace =>
    cases hmove
    exact h.enter hplace
  case h_4 err hplace =>
    cases hmove
    rw [Placed, hplace] at hplaced
    exact ⟨hsettling, .inl hplaced, h.admitted⟩
  case h_5 =>
    rename_i f _ _ _ hplace
    obtain ⟨⟨c1, log', f'⟩, hf, hnext⟩ := map_eq_some_iff.mp hmove
    cases hnext
    rw [Placed, hplace] at hplaced
    obtain ⟨hinvoked, hidle, hsound⟩ := hplaced
    exact ⟨by simpa [Settling, hidle] using hsettling, ⟨hinvoked, hidle, hsound.move hf⟩,
      h.admitted⟩
  case h_6 err hplace =>
    cases hmove
    rw [Placed, hplace] at hplaced
    obtain ⟨hinvoked, hsilent, hhost⟩ := hplaced
    refine ⟨?_, ⟨hinvoked, rfl, hsilent⟩, h.admitted⟩
    -- Only the host has settled so far, so nothing rests on what the handler returned before.
    unfold Settling at hsettling ⊢
    grind
  case h_7 err hplace =>
    rw [Placed, hplace] at hplaced
    split at hmove
    · cases hmove
      exact ⟨hsettling, hplaced, h.admitted⟩
    next hbusy =>
      cases hmove
      exact ⟨hsettling, ⟨hplaced.1, hbusy⟩, h.admitted⟩
  case h_8 err hplace =>
    cases hmove
    rw [Placed, hplace] at hplaced
    obtain ⟨hinvoked, hhandled, hsilent⟩ := hplaced
    obtain ⟨hsettling', hbusy, -, -⟩ :=
      settle_settling false (err.map fun e => .start (some e)) h.settling hsilent (by simp)
        (fun _ hnone => by rw [hhandled, map_eq_none_iff.mp hnone])
    obtain ⟨hraw, -, -, hinv, -⟩ :=
      settle_frame b false (err.map fun e => Fail.start (some e))
    exact ⟨hsettling', ⟨hinv.trans hinvoked, hbusy⟩, by
      simp only [hinv, hraw]
      exact h.admitted⟩
  case h_9 hplace =>
    rw [Placed, hplace] at hplaced
    split at hmove
    next err hclosed =>
      cases hmove
      exact ⟨hsettling, .inr ⟨hplaced.1, err, hclosed⟩, h.admitted⟩
    · cases hmove
  case h_10 => exact h.work hmove

end Business

/-- What the settlement of a business delivery promises. -/
structure Business.Settled (S : Subscription) (b : Business) : Prop where
  once : b.log.fins + b.log.reqs ≤ 1
  answered : ∀ err, b.place = .returned err → b.log.fins + b.log.reqs = 1
  /-- FIN: the host's `Ack` was first, or the handler returned nil with nothing settled, or the
  source nsqd was ready and then confirmed the failure record. -/
  fin : b.log.fins = 1 → b.first = some ⟨true, true⟩ ∨
    b.first = some ⟨false, true⟩ ∧ b.handled = some none ∨
    b.log = [.ready b.raw.address, .confirmed b.raw.address, .fin]
  retried : b.raw.attempts < S.maxAttempts →
    (∃ host, b.first = some ⟨host, false⟩) ∨ (S.decodeErr b.raw).isSome = true →
    b.log.fins = 0 ∧ ∀ err, b.place = .returned err → b.log.reqs = 1
  bounded : b.invoked = true → b.raw.attempts ≤ S.maxAttempts

theorem Log.Failed.fins {S : Subscription} {raw : Raw} {log : Log} (h : log.Failed S raw) :
    log.fins + log.reqs = 1 ∧ (log.fins = 1 → log.HandedOver S raw) := by
  rcases h with ⟨hfins, hreqs⟩ | ⟨hlast, rfl⟩
  · exact ⟨by omega, by omega⟩
  · exact ⟨rfl, fun _ => ⟨hlast, rfl⟩⟩

theorem Fail.Sound.fins {f : Fail} (h : f.Sound S raw log) :
    log.fins + log.reqs ≤ 1 ∧ (log.fins = 1 → log.HandedOver S raw) := by
  cases f with
  | done err =>
    obtain ⟨hone, hover⟩ := Log.Failed.fins h
    exact ⟨hone.le, hover⟩
  | requeueing err => rcases h with rfl | rfl <;> simp [Log.fins, Log.reqs]
  | _ => simp_all [Fail.Sound, Log.fins, Log.reqs]

theorem Business.Sound.idle {b : Business} (h : b.Sound S) (hidle : b.settlement = .idle) :
    b.log.fins + b.log.reqs ≤ 1 ∧ (b.log.fins = 1 → b.log.HandedOver S b.raw) := by
  have hplaced := h.placed
  unfold Placed at hplaced
  have hsilent : b.log = [] → b.log.fins + b.log.reqs ≤ 1 ∧
      (b.log.fins = 1 → b.log.HandedOver S b.raw) := by
    intro hlog
    simp [hlog, Log.fins, Log.reqs]
  split at hplaced
  · exact hsilent hplaced.2.2
  · exact hplaced.2.2.fins
  · exact hsilent (hplaced.2.1 hidle)
  · exact hsilent (hplaced.2.2 hidle)
  · exact hsilent (hplaced.2.2 hidle)
  · exact absurd hidle hplaced.2
  · rcases hplaced with ⟨-, -, hfailed⟩ | ⟨-, err, hclosed⟩
    · exact ⟨hfailed.fins.1.le, hfailed.fins.2⟩
    · simp [hidle] at hclosed

theorem Business.Sound.answers {b : Business} (h : b.Sound S) :
    b.log.fins + b.log.reqs ≤ 1 ∧
      (b.log.fins = 1 → (∃ w, b.first = some w ∧ w.ack = true ∧
        (w.host = false → b.handled = some none)) ∧ b.invoked = true ∨
          b.log.HandedOver S b.raw) := by
  have hsettling := h.settling
  have hinvoked := h.invoked
  unfold Settling at hsettling
  split at hsettling
  next hidle =>
    exact ⟨(h.idle hidle).1, fun hfin => .inr ((h.idle hidle).2 hfin)⟩
  · obtain ⟨w, -, -, -, hlog⟩ := hsettling
    simp [hlog, Log.fins, Log.reqs]
  · obtain ⟨w, -, -, -, hlog⟩ := hsettling
    simp [hlog, Log.fins, Log.reqs]
  · obtain ⟨w, -, -, hsound⟩ := hsettling
    exact ⟨hsound.fins.1, fun hfin => .inr (hsound.fins.2 hfin)⟩
  next err hclosed =>
    obtain ⟨w, hfirst, ⟨hack, hhost, hlog⟩ | ⟨-, hfailed⟩⟩ := hsettling
    · exact ⟨by rw [hlog]; decide, fun _ =>
        .inl ⟨⟨w, hfirst, hack, hhost⟩, hinvoked (by simp [hclosed])⟩⟩
    · exact ⟨hfailed.fins.1.le, fun hfin => .inr (hfailed.fins.2 hfin)⟩

theorem Business.Sound.answered {b : Business} (h : b.Sound S) {err : Option String}
    (hplace : b.place = .returned err) : b.log.fins + b.log.reqs = 1 := by
  rcases h.returned hplace with ⟨-, hfailed⟩ | ⟨result, hclosed⟩
  · exact hfailed.fins.1
  · have hsettling := h.settling
    rw [Settling, hclosed] at hsettling
    obtain ⟨w, -, ⟨-, -, hlog⟩ | ⟨-, hfailed⟩⟩ := hsettling
    · rw [hlog]
      rfl
    · exact hfailed.fins.1

theorem Business.Sound.settled {b : Business} (h : b.Sound S) : b.Settled S := by
  obtain ⟨once, fin⟩ := h.answers
  refine ⟨once, fun err => h.answered, ?_, ?_, fun hinvoked => (h.admitted hinvoked).1⟩
  · intro hfin
    rcases fin hfin with ⟨⟨⟨host, ack⟩, hfirst, hack, hhost⟩, -⟩ | hover
    · cases hack
      cases host with
      | true => exact .inl hfirst
      | false => exact .inr (.inl ⟨hfirst, hhost rfl⟩)
    · exact .inr (.inr hover.2)
  · intro hbelow hfails
    have hfins : b.log.fins = 0 := by
      by_contra hnot
      rcases fin (by omega) with ⟨⟨w, hfirst, hack, -⟩, hinvoked⟩ | hover
      · rcases hfails with ⟨host, hnack⟩ | hdecode
        · rw [hnack] at hfirst
          cases hfirst
          cases hack
        · rw [(h.admitted hinvoked).2] at hdecode
          cases hdecode
      · have := hover.1
        omega
    exact ⟨hfins, fun err hplace => by have := h.answered hplace; omega⟩

/-! ## A failure delivery -/

/-- What the settlement of a failure delivery promises. -/
structure Failure.Settled (d : Failure) : Prop where
  once : d.log.fins + d.log.reqs ≤ 1
  answered : ∀ err, d.stage = .returned err → d.log.fins + d.log.reqs = 1

/-- Nothing is answered before the call returns. -/
def Failure.Sound (d : Failure) : Prop :=
  match d.stage with
  | .returned _ => d.log.fins + d.log.reqs = 1
  | _ => d.log = []

theorem Failure.Sound.move {d d' : Failure} (h : d.Sound) (hmove : d.move S k = some d') :
    d'.Sound := by
  unfold Failure.Sound at h
  unfold Failure.move at hmove
  split at hmove <;> cases hmove <;> simp_all [Failure.Sound, Log.fins, Log.reqs]

theorem Failure.Sound.settled {d : Failure} (h : d.Sound) : d.Settled := by
  unfold Failure.Sound at h
  split at h
  · exact ⟨h.le, fun _ _ => h⟩
  next hstage =>
    exact ⟨by rw [h]; decide, fun err herr => absurd herr (hstage err)⟩

/-! ## The promise -/

def Thread.Sound (S : Subscription) : Thread → Prop
  | .business b => b.Sound S
  | .failure d => d.Sound

/-- Every call of `HandleBusiness` and `HandleFailure`, in every run of a subscription. -/
theorem deliveries_are_settled_once (S : Subscription) {c : Threads.Conf Causes Thread}
    (hc : (subscription S).Reaches (fun _ => none) c) :
    (∀ b, .business b ∈ c.pool → b.Settled S) ∧ ∀ d, .failure d ∈ c.pool → d.Settled := by
  have hsound : ∀ t ∈ c.pool, t.Sound S := by
    refine Threads.Reaches.forall ?_ ?_ hc
    · rintro (raw | raw)
      · exact ⟨rfl, ⟨rfl, rfl, rfl⟩, by simp⟩
      · exact rfl
    · rintro causes (b | d) k causes' t' ht hmove
      · obtain ⟨⟨causes1, b'⟩, hb, hnext⟩ := map_eq_some_iff.mp hmove
        cases hnext
        exact Business.Sound.move ht hb
      · obtain ⟨d', hd, hnext⟩ := map_eq_some_iff.mp hmove
        cases hnext
        exact Failure.Sound.move ht hd
  exact ⟨fun b hb => (hsound _ hb : b.Sound S).settled, fun d hd => (hsound _ hd : d.Sound).settled⟩

namespace Sample

def twice : Subscription where
  topic := "orders"
  channel := "billing"
  maxAttempts := 2
  failureTopic := "failed"
  decode _ := ({ uuid := "", metadata := [], payload := [] }, false, none)
  encodeFailedHandoff _ := .ok [1]
  decodeFailedHandoff _ := .error "unknown"

def attempt (n : Nat) : Raw :=
  { id := "0123456789abcdef", body := [1], attempts := n, timestamp := 0, address := "nsqd:4150" }

/-- The first attempt is nacked by the host and acknowledged too late; the second one fails and is
handed over. -/
def retriedThenHandedOver : List (Threads.Turn Arrival Choice) :=
  [.call (.business (attempt 1)), .move 0 .step, .move 0 (.nack none), .move 0 .ack,
    .move 0 .work, .move 0 .work, .move 0 .work, .move 0 (.returns none), .move 0 .step,
    .move 0 .step,
    .call (.business (attempt 2)), .move 1 .step, .move 1 (.returns (some "no stock")),
    .move 1 .step, .move 1 .step, .move 1 .work, .move 1 .work, .move 1 (.ready none),
    .move 1 (.publish 1), .move 1 .work, .move 1 .work, .move 1 .work, .move 1 .step]

end Sample

open Nsq.Sample

theorem deliveries_are_settled_once_retried :
    ∃ c b1 b2, (subscription twice).Reaches (fun _ => none) c ∧
      c.pool = [.business b1, .business b2] ∧
      (b1.Settled twice ∧ b1.place = .returned none ∧ b1.log.reqs = 1) ∧
      b2.Settled twice ∧ b2.place = .returned none ∧ b2.log.fins = 1 := by
  have hrun : (subscription twice).Reaches (fun _ => none) _ :=
    ⟨retriedThenHandedOver, rfl⟩
  have hsettled := (deliveries_are_settled_once twice hrun).1
  exact ⟨_, _, _, hrun, rfl, ⟨hsettled _ (List.mem_of_getElem? (i := 0) rfl), rfl, rfl⟩,
    hsettled _ (List.mem_of_getElem? (i := 1) rfl), rfl, rfl⟩

end ReliableMessaging.Transport.Nsq
