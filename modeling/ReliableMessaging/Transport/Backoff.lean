import Mathlib.Algebra.Order.Ring.Int
import Mathlib.Logic.Relation
import ReliableMessaging.Transport.Subscription

/-!
# The delay of a requeue

`retryDelay` of the NSQ subscription, on the `int64` values it computes with.
The doubling stops one step before it could pass the cap: a delay above half of
the cap goes to the cap at once. So no product leaves the type, and what comes
out is the capped power of two of the unbounded integers, for every base, every
cap and every attempt.
-/

namespace ReliableMessaging.Transport.Nsq

/-- `Backoff`; `F` is `float64`, of which only the comparison with 0 is needed. -/
structure Backoff (F : Type) where
  baseDelay : Int64
  maxDelay : Int64
  jitterFraction : F

namespace Backoff

/-! ## The loop -/

structure Loop where
  step : Int64
  delay : Int64

namespace Loop

variable {attempt limit step delay : Int64} {l l' : Loop}

/-- One turn: on with the next round, or out of the loop with a delay. -/
def turn (attempt limit : Int64) (l : Loop) : Loop ⊕ Int64 :=
  if l.step < attempt ∧ l.delay < limit then
    if l.delay > limit / 2 then .inr limit
    else .inl ⟨l.step + 1, l.delay * 2⟩
  else .inr l.delay

theorem toInt_succ (h : step < attempt) : (step + 1).toInt = step.toInt + 1 := by
  have hlt := Int64.lt_iff_toInt_lt.mp h
  have hmax := attempt.toInt_lt
  have hmin := step.le_toInt
  rw [Int64.toInt_add, Int64.toInt_one]
  exact Int.bmod_eq_of_le (by omega) (by omega)

theorem step_of_turn (h : l.turn attempt limit = .inl l') :
    l.step.toInt < attempt.toInt ∧ l'.step.toInt = l.step.toInt + 1 := by
  unfold turn at h
  split at h
  next hloop =>
    split at h
    · cases h
    · cases h
      exact ⟨Int64.lt_iff_toInt_lt.mp hloop.1, toInt_succ hloop.1⟩
  · cases h

def run (attempt limit : Int64) (l : Loop) : Int64 :=
  match _h : l.turn attempt limit with
  | .inl l' => l'.run attempt limit
  | .inr delay => delay
termination_by (attempt.toInt - l.step.toInt).toNat
decreasing_by
  have hstep := step_of_turn _h
  omega

theorem run_of_inl (h : l.turn attempt limit = .inl l') :
    l.run attempt limit = l'.run attempt limit := by
  rw [run]
  split <;> simp_all

theorem run_of_inr (h : l.turn attempt limit = .inr delay) : l.run attempt limit = delay := by
  rw [run]
  split <;> simp_all

/-! ## What a turn computes -/

theorem toInt_half (h : 0 ≤ limit) : (limit / 2).toInt = limit.toInt / 2 := by
  have hnonneg := Int64.le_iff_toInt_le.mp h
  rw [Int64.toInt_div_of_ne_right limit 2 (by decide), show (2 : Int64).toInt = 2 by decide]
  exact Int.tdiv_eq_ediv_of_nonneg hnonneg

theorem toInt_double (hlimit : 0 ≤ limit) (hdelay : 0 ≤ delay) (h : ¬ delay > limit / 2) :
    (delay * 2).toInt = delay.toInt * 2 := by
  have hhalf := Int64.le_iff_toInt_le.mp (Int64.not_lt.mp h)
  have hnonneg := Int64.le_iff_toInt_le.mp hdelay
  have hmax := limit.toInt_lt
  rw [toInt_half hlimit] at hhalf
  rw [Int64.toInt_zero] at hnonneg
  rw [Int64.toInt_mul, show (2 : Int64).toInt = 2 by decide]
  exact Int.bmod_eq_of_le (by omega) (by omega)

theorem turn_cases (attempt : Int64) (hlimit : 0 ≤ limit) (hdelay : 0 ≤ l.delay) :
    (∃ l', l.turn attempt limit = .inl l' ∧ l.step.toInt < attempt.toInt ∧
      l.delay.toInt * 2 ≤ limit.toInt ∧ l'.step.toInt = l.step.toInt + 1 ∧
      l'.delay.toInt = l.delay.toInt * 2) ∨
    l.turn attempt limit = .inr limit ∧ limit.toInt < l.delay.toInt * 2 ∧
      l.step.toInt < attempt.toInt ∨
    l.turn attempt limit = .inr l.delay ∧
      (attempt.toInt ≤ l.step.toInt ∨ limit.toInt ≤ l.delay.toInt) := by
  unfold turn
  split
  next hloop =>
    have hstep := Int64.lt_iff_toInt_lt.mp hloop.1
    split
    next hbig =>
      have hhalf := Int64.lt_iff_toInt_lt.mp hbig
      rw [toInt_half hlimit] at hhalf
      exact .inr (.inl ⟨rfl, by omega, hstep⟩)
    next hsmall =>
      have hhalf := Int64.le_iff_toInt_le.mp (Int64.not_lt.mp hsmall)
      rw [toInt_half hlimit] at hhalf
      exact .inl ⟨_, rfl, hstep, by omega, toInt_succ hloop.1, toInt_double hlimit hdelay hsmall⟩
  next hloop =>
    refine .inr (.inr ⟨rfl, ?_⟩)
    rcases not_and_or.mp hloop with hstep | hdelay
    · exact .inl (Int64.le_iff_toInt_le.mp (Int64.not_lt.mp hstep))
    · exact .inr (Int64.le_iff_toInt_le.mp (Int64.not_lt.mp hdelay))

/-- From a delay within the cap, the loop doubles once for every attempt that is left, up to the
cap. -/
theorem run_eq (attempt : Int64) (l : Loop) (n : Nat) (hlimit : 0 ≤ limit) (hdelay : 0 ≤ l.delay)
    (hle : l.delay ≤ limit) (hn : l.step.toInt + n = attempt.toInt) :
    (l.run attempt limit).toInt = min (l.delay.toInt * 2 ^ n) limit.toInt := by
  induction n generalizing l with
  | zero =>
    have hle := Int64.le_iff_toInt_le.mp hle
    obtain ⟨l', -, hstep, -⟩ | ⟨-, -, hstep⟩ | ⟨hturn, -⟩ :=
      turn_cases attempt hlimit hdelay
    · omega
    · omega
    · rw [run_of_inr hturn, pow_zero, mul_one, min_eq_left hle]
  | succ n ih =>
    have hle := Int64.le_iff_toInt_le.mp hle
    have hnonneg := Int64.le_iff_toInt_le.mp hdelay
    rw [Int64.toInt_zero] at hnonneg
    have hgrow : l.delay.toInt * 2 ≤ l.delay.toInt * 2 ^ (n + 1) := by
      rw [pow_succ', ← mul_assoc]
      exact le_mul_of_one_le_right (by omega) (one_le_pow₀ (by decide))
    obtain ⟨l', hturn, -, hfits, hstep, hdouble⟩ | ⟨hturn, hbig, -⟩ | ⟨hturn, hout⟩ :=
      turn_cases attempt hlimit hdelay
    · have hdelay' : 0 ≤ l'.delay := Int64.le_iff_toInt_le.mpr (by rw [Int64.toInt_zero]; omega)
      have hle' : l'.delay ≤ limit := Int64.le_iff_toInt_le.mpr (by omega)
      rw [run_of_inl hturn, ih l' hdelay' hle' (by push_cast at hn ⊢; omega), hdouble, mul_assoc,
        ← pow_succ']
    · rw [run_of_inr hturn, min_eq_right (by omega)]
    · rw [run_of_inr hturn, min_eq_right (by push_cast at hn; omega)]
      push_cast at hn
      omega

/-- Each turn computes what it would compute over the integers. -/
structure Exact (attempt limit : Int64) (l : Loop) : Prop where
  half : (limit / 2).toInt = limit.toInt / 2
  next : ∀ l', l.turn attempt limit = .inl l' →
    l'.step.toInt = l.step.toInt + 1 ∧ l'.delay.toInt = l.delay.toInt * 2

/-- The values that the variables of the loop take. -/
def Visits (attempt limit : Int64) : Loop → Loop → Prop :=
  Relation.ReflTransGen fun l l' => l.turn attempt limit = .inl l'

theorem exact_of_nonneg (hlimit : 0 ≤ limit) (hdelay : 0 ≤ l.delay) : l.Exact attempt limit := by
  refine ⟨toInt_half hlimit, fun l' hturn => ?_⟩
  obtain ⟨l1, hturn', -, -, hstep, hdouble⟩ | ⟨hturn', -⟩ | ⟨hturn', -⟩ :=
    turn_cases attempt hlimit hdelay
  · cases hturn.symm.trans hturn'
    exact ⟨hstep, hdouble⟩
  · cases hturn.symm.trans hturn'
  · cases hturn.symm.trans hturn'

theorem Visits.nonneg (h : l.Visits attempt limit l') (hlimit : 0 ≤ limit) (hdelay : 0 ≤ l.delay) :
    0 ≤ l'.delay := by
  induction h with
  | refl => exact hdelay
  | tail _ hturn ih =>
    have hdouble := ((exact_of_nonneg hlimit ih).next _ hturn).2
    have hnonneg := Int64.le_iff_toInt_le.mp ih
    rw [Int64.toInt_zero] at hnonneg
    refine Int64.le_iff_toInt_le.mpr ?_
    rw [Int64.toInt_zero]
    omega

end Loop

/-! ## `retryDelay` -/

variable {F : Type}

def limit (b : Backoff F) : Int64 := if b.maxDelay < b.baseDelay then b.baseDelay else b.maxDelay

theorem toInt_limit (b : Backoff F) :
    b.limit.toInt = max b.maxDelay.toInt b.baseDelay.toInt := by
  unfold limit
  split
  next h =>
    exact (max_eq_right (Int64.lt_iff_toInt_lt.mp h).le).symm
  next h =>
    exact (max_eq_left (Int64.le_iff_toInt_le.mp (Int64.not_lt.mp h))).symm

/-- The delay over the integers. -/
def cappedDouble (b : Backoff F) (attempt : Int) : Int :=
  min (b.baseDelay.toInt * 2 ^ (max attempt 1 - 1).toNat)
    (max b.maxDelay.toInt b.baseDelay.toInt)

theorem cappedDouble_mono {b : Backoff F} (hbase : 0 ≤ b.baseDelay) {m n : Int} (h : m ≤ n) :
    b.cappedDouble m ≤ b.cappedDouble n := by
  have hnonneg := Int64.le_iff_toInt_le.mp hbase
  rw [Int64.toInt_zero] at hnonneg
  have hpow : (2 : Int) ^ (max m 1 - 1).toNat ≤ 2 ^ (max n 1 - 1).toNat :=
    pow_le_pow_right₀ (by decide) (by omega)
  exact min_le_min_right _ (mul_le_mul_of_nonneg_left hpow hnonneg)

variable [Zero F] [DecidableEq F]

/-- `retryDelay`; `jitter` is its last lines, for a fraction other than 0. -/
def retryDelay (jitter : F → Int64 → Int64 → String → Int64) (b : Backoff F) (attempt : Int64)
    (id : String) : Int64 :=
  if b.baseDelay ≤ 0 then 0
  else
    let attempt := if attempt < 1 then 1 else attempt
    let delay := Loop.run attempt b.limit ⟨1, b.baseDelay⟩
    let delay := if delay > b.limit then b.limit else delay
    if b.jitterFraction = 0 then delay else jitter b.jitterFraction delay attempt id

variable {jitter : F → Int64 → Int64 → String → Int64} {b : Backoff F} {id : String}

theorem toInt_retryDelay (hbase : 0 ≤ b.baseDelay) (hjitter : b.jitterFraction = 0)
    (attempt : Int64) :
    (b.retryDelay jitter attempt id).toInt = b.cappedDouble attempt.toInt := by
  have hnonneg := Int64.le_iff_toInt_le.mp hbase
  rw [Int64.toInt_zero] at hnonneg
  have hcap := toInt_limit b
  have hle : b.baseDelay ≤ b.limit := Int64.le_iff_toInt_le.mpr (hcap ▸ le_max_right _ _)
  have hlimit : 0 ≤ b.limit := Int64.le_trans hbase hle
  unfold retryDelay
  split
  next hzero =>
    have hzero := Int64.le_iff_toInt_le.mp hzero
    rw [Int64.toInt_zero] at hzero
    have hbase : b.baseDelay.toInt = 0 := by omega
    rw [cappedDouble, hbase, zero_mul, Int64.toInt_zero, min_eq_left (le_max_right _ _)]
  · have hattempt : (if attempt < 1 then 1 else attempt).toInt = max attempt.toInt 1 := by
      split
      next h =>
        have h := Int64.lt_iff_toInt_lt.mp h
        rw [Int64.toInt_one] at h ⊢
        exact (max_eq_right h.le).symm
      next h =>
        have h := Int64.le_iff_toInt_le.mp (Int64.not_lt.mp h)
        rw [Int64.toInt_one] at h
        exact (max_eq_left h).symm
    have hrun := Loop.run_eq (if attempt < 1 then 1 else attempt) ⟨1, b.baseDelay⟩
      (max attempt.toInt 1 - 1).toNat hlimit hbase hle (by
        rw [hattempt, Int64.toInt_one]
        omega)
    have hcapped : ¬ Loop.run (if attempt < 1 then 1 else attempt) b.limit ⟨1, b.baseDelay⟩ >
        b.limit := by
      refine Int64.not_lt.mpr (Int64.le_iff_toInt_le.mpr ?_)
      rw [hrun]
      exact min_le_right _ _
    simp only [hcapped, if_false]
    rw [hrun, hcap, cappedDouble]

/-- Without jitter, `retryDelay` is the capped power of two of the integers; no value on the way
there wraps, and a later attempt never waits less. -/
theorem retryDelay_is_capped_doubling (jitter : F → Int64 → Int64 → String → Int64)
    (b : Backoff F) (id : String) (hbase : 0 ≤ b.baseDelay) (hmax : 0 ≤ b.maxDelay)
    (hjitter : b.jitterFraction = 0) :
    (∀ attempt : Int64, (b.retryDelay jitter attempt id).toInt =
      min (b.baseDelay.toInt * 2 ^ (max attempt.toInt 1 - 1).toNat)
        (max b.maxDelay.toInt b.baseDelay.toInt)) ∧
    (∀ (attempt : Int64) (l : Loop), Loop.Visits (if attempt < 1 then 1 else attempt) b.limit
      ⟨1, b.baseDelay⟩ l → l.Exact (if attempt < 1 then 1 else attempt) b.limit) ∧
    ∀ attempt attempt' : Int64, attempt ≤ attempt' →
      b.retryDelay jitter attempt id ≤ b.retryDelay jitter attempt' id := by
  have hlimit : 0 ≤ b.limit := by
    unfold limit
    split
    · exact hbase
    · exact hmax
  refine ⟨toInt_retryDelay hbase hjitter, fun attempt l hvisits => ?_, fun attempt attempt' h => ?_⟩
  · exact Loop.exact_of_nonneg hlimit (hvisits.nonneg hlimit hbase)
  · rw [Int64.le_iff_toInt_le, toInt_retryDelay hbase hjitter, toInt_retryDelay hbase hjitter]
    exact cappedDouble_mono hbase (Int64.le_iff_toInt_le.mp h)

/-- An odd cap: from 3 over 6 to 7. -/
theorem retryDelay_is_capped_doubling_odd_cap :
    ((⟨3, 7, 0⟩ : Backoff Int).retryDelay (fun _ delay _ _ => delay) 2 "m").toInt = 6 ∧
      ((⟨3, 7, 0⟩ : Backoff Int).retryDelay (fun _ delay _ _ => delay) 3 "m").toInt = 7 := by
  obtain ⟨hdelay, -⟩ := retryDelay_is_capped_doubling (fun _ delay _ _ => delay)
    (⟨3, 7, 0⟩ : Backoff Int) "m" (by decide) (by decide) rfl
  exact ⟨(hdelay 2).trans (by decide), (hdelay 3).trans (by decide)⟩

end Backoff

end ReliableMessaging.Transport.Nsq
