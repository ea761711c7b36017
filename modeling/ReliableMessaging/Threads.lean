import Mathlib.Data.Multiset.Count
import Mathlib.Tactic.Common

/-!
# Threads over a shared state

Calls come in at any time and each runs as a thread of its own. A turn is one
new call or one atomic move of one thread; what the thread cannot decide (the
branch a `select` takes, what the outside world answers, a context that ends)
is the move's choice. A run is any list of turns.
-/

namespace ReliableMessaging

open List Option

/-- The code of the threads: where a call begins and what a move does. -/
structure Threads (σ τ ι κ : Type) where
  start : ι → τ
  move : κ → σ → τ → Option (σ × τ)

namespace Threads

variable {σ τ ι κ : Type}

/-- The moves that meet a condition, and no others. -/
def only (P : Threads σ τ ι κ) (ok : κ → σ → τ → Bool) : Threads σ τ ι κ where
  start := P.start
  move k s t := if ok k s t then P.move k s t else none

structure Conf (σ τ : Type) where
  shared : σ
  pool : List τ

inductive Turn (ι κ : Type)
  | call (a : ι)
  | move (thread : Nat) (choice : κ)

def turn (P : Threads σ τ ι κ) (c : Conf σ τ) : Turn ι κ → Option (Conf σ τ)
  | .call a => some { c with pool := c.pool ++ [P.start a] }
  | .move i k =>
    (c.pool[i]?).bind fun t =>
      (P.move k c.shared t).map fun next => { shared := next.1, pool := c.pool.set i next.2 }

def run (P : Threads σ τ ι κ) (c : Conf σ τ) (turns : List (Turn ι κ)) : Option (Conf σ τ) :=
  turns.foldlM P.turn c

/-- Some run takes `c` to `c'`. -/
def Leads (P : Threads σ τ ι κ) (c c' : Conf σ τ) : Prop := ∃ turns, P.run c turns = some c'

/-- The configurations of runs that begin with `s0` and no thread. -/
def Reaches (P : Threads σ τ ι κ) (s0 : σ) (c : Conf σ τ) : Prop :=
  P.Leads { shared := s0, pool := [] } c

variable {P : Threads σ τ ι κ} {s0 : σ} {c c' : Conf σ τ} {i : Nat} {t : τ}

theorem Reaches.leads (h : P.Reaches s0 c) (h' : P.Leads c c') : P.Reaches s0 c' := by
  obtain ⟨turns, hrun⟩ := h
  obtain ⟨turns', hrun'⟩ := h'
  refine ⟨turns ++ turns', ?_⟩
  rw [run, foldlM_append]
  exact bind_eq_some_iff.mpr ⟨c, hrun, hrun'⟩

theorem turn_move {k : κ} (h : P.turn c (.move i k) = some c') :
    ∃ t s' t', c.pool[i]? = some t ∧ P.move k c.shared t = some (s', t') ∧
      c' = { shared := s', pool := c.pool.set i t' } := by
  obtain ⟨t, ht, h⟩ := bind_eq_some_iff.mp h
  obtain ⟨⟨s', t'⟩, hmove, hc⟩ := map_eq_some_iff.mp h
  exact ⟨t, s', t', ht, hmove, hc.symm⟩

theorem pool_split {pool : List τ} (h : pool[i]? = some t) :
    ∃ others : Multiset τ, (pool : Multiset τ) = t ::ₘ others ∧
      ∀ t', (pool.set i t' : Multiset τ) = t' ::ₘ others := by
  obtain ⟨hi, rfl⟩ := List.getElem?_eq_some_iff.mp h
  refine ⟨(pool.take i ++ pool.drop (i + 1) : List τ), ?_, ?_⟩
  · have hpool : pool = pool.take i ++ pool[i] :: pool.drop (i + 1) := by
      rw [getElem_cons_drop, take_append_drop]
    nth_rewrite 1 [hpool]
    exact Multiset.coe_eq_coe.mpr perm_middle
  · intro t'
    rw [set_eq_take_append_cons_drop, if_pos hi]
    exact Multiset.coe_eq_coe.mpr perm_middle

/-- What a new call and every move preserve, a run preserves. -/
theorem Leads.invariant {I : σ → Multiset τ → Prop}
    (call : ∀ s others a, I s others → I s (P.start a ::ₘ others))
    (move : ∀ s t others k s' t', I s (t ::ₘ others) → P.move k s t = some (s', t') →
      I s' (t' ::ₘ others)) (h : P.Leads c c') (hc : I c.shared c.pool) : I c'.shared c'.pool := by
  obtain ⟨turns, hrun⟩ := h
  induction turns generalizing c with
  | nil =>
    cases hrun
    exact hc
  | cons a turns ih =>
    rw [run, foldlM_cons] at hrun
    obtain ⟨c1, hturn, hrest⟩ := bind_eq_some_iff.mp hrun
    refine ih ?_ hrest
    cases a with
    | call a =>
      cases hturn
      have hpool : ((c.pool ++ [P.start a] : List τ) : Multiset τ) = P.start a ::ₘ c.pool :=
        Multiset.coe_eq_coe.mpr (perm_append_singleton _ _)
      simpa [hpool] using call _ _ a hc
    | move i k =>
      obtain ⟨t, s', t', ht, hmove, rfl⟩ := turn_move hturn
      obtain ⟨others, hbefore, hafter⟩ := pool_split ht
      rw [hbefore] at hc
      simpa [hafter] using move _ _ _ _ _ _ hc hmove

/-- What each thread keeps by itself, all threads of a run have. -/
theorem Reaches.forall {F : τ → Prop} (start : ∀ a, F (P.start a))
    (move : ∀ s t k s' t', F t → P.move k s t = some (s', t') → F t') (h : P.Reaches s0 c) :
    ∀ t ∈ c.pool, F t := by
  have hall : ∀ t ∈ (c.pool : Multiset τ), F t := by
    refine Leads.invariant (I := fun _ pool => ∀ t ∈ pool, F t) ?_ ?_ h (by simp)
    · intro s others a hothers
      exact Multiset.forall_mem_cons.mpr ⟨start a, hothers⟩
    · intro s t others k s' t' hpool hmove
      obtain ⟨ht, hothers⟩ := Multiset.forall_mem_cons.mp hpool
      exact Multiset.forall_mem_cons.mpr ⟨move s t k s' t' ht hmove, hothers⟩
  simpa using hall

/-! ## Counting threads -/

/-- How many threads are where `p` says. -/
def tally (p : τ → Bool) (pool : Multiset τ) : Nat := pool.countP (p · = true)

variable {p q : τ → Bool} {pool : Multiset τ}

@[simp] theorem tally_zero : tally p 0 = 0 := Multiset.countP_zero _

@[simp] theorem tally_cons (t : τ) : tally p (t ::ₘ pool) = tally p pool + (p t).toNat := by
  rw [tally, Multiset.countP_cons, tally]
  cases p t <;> rfl

theorem tally_eq_zero : tally p pool = 0 ↔ ∀ t ∈ pool, p t = false := by
  simp [tally, Multiset.countP_eq_zero]

theorem tally_alone {b : Bool} (h : tally p (t ::ₘ pool) = b.toNat) (ht : p t = true) :
    ∀ u ∈ pool, p u = false := by
  rw [tally_cons, ht, Bool.toNat_true] at h
  have hb := Bool.toNat_le b
  exact tally_eq_zero.mp (by omega)

theorem tally_mono (h : ∀ t ∈ pool, p t = true → q t = true) : tally p pool ≤ tally q pool := by
  induction pool using Multiset.induction with
  | empty => simp
  | cons t others ih =>
    have hothers := ih fun t' ht' => h t' (Multiset.mem_cons_of_mem ht')
    have ht := h t (Multiset.mem_cons_self t others)
    rw [tally_cons, tally_cons]
    cases hp : p t with
    | false => simp only [Bool.toNat_false]; omega
    | true => simp only [ht hp, Bool.toNat_true]; omega

theorem tally_add_le {r : τ → Bool} (h : ∀ t ∈ pool, (p t).toNat + (q t).toNat ≤ (r t).toNat) :
    tally p pool + tally q pool ≤ tally r pool := by
  induction pool using Multiset.induction with
  | empty => simp
  | cons t others ih =>
    have hothers := ih fun t' ht' => h t' (Multiset.mem_cons_of_mem ht')
    have ht := h t (Multiset.mem_cons_self t others)
    rw [tally_cons, tally_cons, tally_cons]
    omega

end Threads

end ReliableMessaging
