import Mathlib.Tactic.Common

/-!
# A gate for bounded work that can be drained

A buffered channel bounds how many may work at once: who sends a token into
it may enter, who is done takes one out. A counter, kept under a mutex, says
how many are inside. Draining shuts the gate, and whoever leaves last through
a shut gate closes the channel `drained`; if nobody is inside, the one who
shuts it does.
-/

namespace ReliableMessaging

open Option

structure Gate where
  cap : Nat
  /-- Tokens in the channel. -/
  slots : Nat := 0
  active : Int := 0
  stopping : Bool := false
  /-- How often `drained` was closed. -/
  drained : Nat := 0
deriving DecidableEq

namespace Gate

/-- Send a token; a full channel blocks. -/
def take (g : Gate) : Option Gate :=
  if g.slots < g.cap then some { g with slots := g.slots + 1 } else none

/-- Receive a token; an empty channel blocks. -/
def give (g : Gate) : Option Gate :=
  if 0 < g.slots then some { g with slots := g.slots - 1 } else none

def enter (g : Gate) : Gate := { g with active := g.active + 1 }

def leave (g : Gate) : Gate :=
  if g.stopping = true ∧ g.active - 1 = 0 then
    { g with active := g.active - 1, drained := g.drained + 1 }
  else { g with active := g.active - 1 }

def shut (g : Gate) : Gate :=
  if g.stopping then g
  else { g with stopping := true, drained := if g.active = 0 then g.drained + 1 else g.drained }

structure Counts (g : Gate) (held working : Nat) : Prop where
  slots : g.slots = held
  bounded : g.slots ≤ g.cap
  active : g.active = working
  drained : g.drained = if g.stopping = true ∧ working = 0 then 1 else 0

variable {g g' : Gate} {held working : Nat}

theorem counts_open (cap : Nat) : Counts { cap := cap } 0 0 :=
  ⟨rfl, Nat.zero_le _, rfl, rfl⟩

theorem take_eq (h : g.take = some g') : g' = { g with slots := g'.slots } := by
  simp only [take, ite_none_right_eq_some, Option.some.injEq] at h
  obtain ⟨-, rfl⟩ := h
  rfl

theorem give_eq (h : g.give = some g') : g' = { g with slots := g'.slots } := by
  simp only [give, ite_none_right_eq_some, Option.some.injEq] at h
  obtain ⟨-, rfl⟩ := h
  rfl

theorem take_stopping (h : g.take = some g') : g'.stopping = g.stopping := by
  rw [take_eq h]

theorem give_stopping (h : g.give = some g') : g'.stopping = g.stopping := by
  rw [give_eq h]

/-- What no operation undoes: a shut gate stays shut, a closed channel closed. -/
structure Later (g g' : Gate) : Prop where
  cap : g'.cap = g.cap
  stopping : g.stopping = true → g'.stopping = true
  drained : g.drained ≤ g'.drained

theorem Later.refl (g : Gate) : Later g g := ⟨rfl, id, Nat.le_refl _⟩

theorem later_take (h : g.take = some g') : Later g g' := by
  rw [take_eq h]
  exact ⟨rfl, id, Nat.le_refl _⟩

theorem later_give (h : g.give = some g') : Later g g' := by
  rw [give_eq h]
  exact ⟨rfl, id, Nat.le_refl _⟩

theorem later_enter : Later g g.enter := ⟨rfl, id, Nat.le_refl _⟩

theorem leave_stopping : g.leave.stopping = g.stopping := by
  unfold leave
  split <;> rfl

theorem later_leave : Later g g.leave := by
  refine ⟨?_, ?_, ?_⟩ <;> unfold leave <;> split <;> simp

theorem shut_stopping : g.shut.stopping = true := by
  unfold shut
  split
  · assumption
  · rfl

theorem later_shut : Later g g.shut := by
  refine ⟨?_, fun _ => shut_stopping, ?_⟩ <;> unfold shut
  · split <;> rfl
  · split
    · exact Nat.le_refl _
    · simp only
      split <;> omega

namespace Counts

theorem take (h : Counts g held working) (ht : g.take = some g') :
    Counts g' (held + 1) working := by
  simp only [Gate.take, ite_none_right_eq_some, Option.some.injEq] at ht
  obtain ⟨hlt, rfl⟩ := ht
  exact ⟨congrArg (· + 1) h.slots, hlt, h.active, h.drained⟩

theorem give (h : Counts g (held + 1) working) (hg : g.give = some g') :
    Counts g' held working := by
  simp only [Gate.give, ite_none_right_eq_some, Option.some.injEq] at hg
  obtain ⟨-, rfl⟩ := hg
  have hslots := h.slots
  have hbounded := h.bounded
  exact ⟨by simp only; omega, by simp only; omega, h.active, h.drained⟩

theorem can_give (h : Counts g (held + 1) working) : g.give.isSome = true := by
  have hslots := h.slots
  simp [Gate.give, hslots]

theorem enter (h : Counts g held working) (hopen : g.stopping = false) :
    Counts g.enter held (working + 1) := by
  have hdrained := h.drained
  refine ⟨h.slots, h.bounded, ?_, ?_⟩
  · simp [Gate.enter, h.active]
  · simpa [Gate.enter, hopen] using hdrained

theorem leave (h : Counts g held (working + 1)) : Counts g.leave held working := by
  have hactive : g.active - 1 = working := by rw [h.active]; omega
  have hdrained : g.drained = 0 := by simpa using h.drained
  unfold Gate.leave
  rw [hactive]
  split
  next hlast =>
    exact ⟨h.slots, h.bounded, rfl, by simp_all⟩
  next hmore =>
    exact ⟨h.slots, h.bounded, rfl, by simp_all⟩

theorem shut (h : Counts g held working) : Counts g.shut held working := by
  unfold Gate.shut
  split
  · exact h
  next hopen =>
    have hdrained : g.drained = 0 := by simpa [hopen] using h.drained
    have hactive := h.active
    exact ⟨h.slots, h.bounded, hactive, by simp [hdrained, hactive]⟩

theorem drained_le (h : Counts g held working) : g.drained ≤ 1 := by
  rw [h.drained]
  split <;> omega

theorem of_drained (h : Counts g held working) (hd : g.drained ≠ 0) :
    g.stopping = true ∧ working = 0 := by
  by_contra hnot
  exact hd (by rw [h.drained, if_neg hnot])

end Counts

end Gate

end ReliableMessaging
