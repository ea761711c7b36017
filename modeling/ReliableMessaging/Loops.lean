import Mathlib.Algebra.BigOperators.Group.List.Basic
import Mathlib.Data.List.Forall2
import Mathlib.Logic.Function.Basic
import Mathlib.Tactic.Common

/-!
# Loops that check as they go

A validation loop walks a list, keeps tables of what it has met and stops at
the first row that contradicts them. Two facts carry every proof about such a
loop: a property of the rows done that each round preserves holds of all rows
(`foldlM_rounds`), and a table that refuses a second value for a key it knows
only ever grows (`claim_ok`). A loop that counts needs a third: rounds that
each add something add up to the sum (`foldlM_sum`).
-/

namespace ReliableMessaging.Loops

open List Function

theorem bind_ok {ε α β : Type} {x : Except ε α} {f : α → Except ε β} {b : β}
    (h : (x >>= f) = .ok b) : ∃ a, x = .ok a ∧ f a = .ok b := by
  cases x with
  | error e => cases h
  | ok a => exact ⟨a, rfl, h⟩

/-- Ends the round with `err` where `c` holds. -/
def refuseIf {ε : Type} (c : Prop) [Decidable c] (err : ε) : Except ε Unit :=
  if c then .error err else .ok ()

theorem refuseIf_ok {ε : Type} {c : Prop} [Decidable c] {err : ε} {u : Unit}
    (h : refuseIf c err = .ok u) : ¬ c := by
  intro hc
  simp [refuseIf, hc] at h

def Passes {ε α : Type} (x : Except ε α) : Prop := ∃ a, x = .ok a

section Passes

variable {ε α β σ : Type}

@[simp] theorem passes_ok (a : α) : Passes (.ok a : Except ε α) := ⟨a, rfl⟩

@[simp] theorem passes_pure (a : α) : Passes (pure a : Except ε α) := ⟨a, rfl⟩

@[simp] theorem not_passes_error (e : ε) : ¬ Passes (.error e : Except ε α) :=
  fun ⟨_, h⟩ => nomatch h

theorem passes_bind {x : Except ε α} {f : α → Except ε β} :
    Passes (x >>= f) ↔ ∃ a, x = .ok a ∧ Passes (f a) := by
  constructor
  · rintro ⟨b, h⟩
    obtain ⟨a, ha, hb⟩ := bind_ok h
    exact ⟨a, ha, b, hb⟩
  · rintro ⟨a, rfl, hb⟩
    exact hb

theorem passes_seq {x : Except ε Unit} {f : Unit → Except ε β} :
    Passes (x >>= f) ↔ Passes x ∧ Passes (f ()) := by
  rw [passes_bind]
  exact ⟨fun ⟨a, ha, hb⟩ => ⟨⟨a, ha⟩, hb⟩, fun ⟨⟨a, ha⟩, hb⟩ => ⟨a, ha, hb⟩⟩

@[simp] theorem passes_refuseIf {c : Prop} [Decidable c] {err : ε} :
    Passes (refuseIf c err) ↔ ¬ c := by
  by_cases hc : c <;> simp [refuseIf, hc]

theorem passes_mapM_self {f : α → Except ε α} (hf : ∀ a b, f a = .ok b → b = a) (rows : List α) :
    rows.mapM f = .ok rows ∧ (∀ a ∈ rows, Passes (f a)) ∨
      ¬ Passes (rows.mapM f) ∧ ¬ ∀ a ∈ rows, Passes (f a) := by
  induction rows with
  | nil => exact .inl ⟨rfl, by simp⟩
  | cons a rows ih =>
    rw [mapM_cons, forall_mem_cons]
    by_cases ha : Passes (f a)
    · obtain ⟨b, hb⟩ := ha
      obtain rfl := hf a b hb
      rcases ih with ⟨hrows, hall⟩ | ⟨hrows, hall⟩
      · refine .inl ⟨?_, ⟨b, hb⟩, hall⟩
        rw [hb, hrows]
        rfl
      · refine .inr ⟨fun h => ?_, fun h => hall h.2⟩
        obtain ⟨_, -, h⟩ := passes_bind.mp h
        obtain ⟨rest, hrest, -⟩ := passes_bind.mp h
        exact hrows ⟨rest, hrest⟩
    · refine .inr ⟨fun h => ?_, fun h => ha h.1⟩
      obtain ⟨b, hb, -⟩ := passes_bind.mp h
      exact ha ⟨b, hb⟩

/-- A round that looks at its own row and at the rows done. -/
theorem foldlM_passes (rows : List α) {f : σ → α → Except ε σ} {P : List α → σ → Prop}
    {V : α → Prop} {R : α → α → Prop}
    (round : ∀ done s a, P done s → (Passes (f s a) ↔ V a ∧ ∀ b ∈ done, R b a))
    (keep : ∀ done s a s', P done s → f s a = .ok s' → P (done ++ [a]) s') {s : σ} (hP : P [] s) :
    Passes (rows.foldlM f s) ↔ (∀ a ∈ rows, V a) ∧ rows.Pairwise R := by
  suffices hfrom : ∀ done s, P done s → (Passes (rows.foldlM f s) ↔
      (∀ a ∈ rows, V a ∧ ∀ b ∈ done, R b a) ∧ rows.Pairwise R) by
    simpa using hfrom [] s hP
  clear hP s
  induction rows with
  | nil => simp
  | cons a rows ih =>
    intro done s hP
    rw [foldlM_cons, passes_bind, pairwise_cons, forall_mem_cons]
    constructor
    · rintro ⟨s', hs', hrest⟩
      obtain ⟨hall, hpair⟩ := (ih _ _ (keep done s a s' hP hs')).mp hrest
      refine ⟨⟨(round done s a hP).mp ⟨s', hs'⟩, fun b hb => ⟨(hall b hb).1, fun d hd => ?_⟩⟩,
        fun b hb => (hall b hb).2 a (by simp), hpair⟩
      exact (hall b hb).2 d (mem_append_left _ hd)
    · rintro ⟨⟨ha, hall⟩, hnew, hpair⟩
      obtain ⟨s', hs'⟩ := (round done s a hP).mpr ha
      refine ⟨s', hs', (ih _ _ (keep done s a s' hP hs')).mpr ⟨fun b hb => ?_, hpair⟩⟩
      refine ⟨(hall b hb).1, fun d hd => ?_⟩
      rcases mem_append.mp hd with hd | hd
      · exact (hall b hb).2 d hd
      · exact mem_singleton.mp hd ▸ hnew b hb

end Passes

/-- What every round keeps of the rows done, a loop that ends well has kept of all of them. -/
theorem foldlM_rounds {ε α σ : Type} {f : σ → α → Except ε σ} {P : List α → σ → Prop}
    (round : ∀ done s a s', P done s → f s a = .ok s' → P (done ++ [a]) s')
    {rows : List α} {s s' : σ} (hP : P [] s) (hrun : rows.foldlM f s = .ok s') : P rows s' := by
  suffices hfrom : ∀ done s, P done s → rows.foldlM f s = .ok s' → P (done ++ rows) s' from
    hfrom [] s hP hrun
  clear hP hrun s
  induction rows with
  | nil =>
    intro done s hP hrun
    cases hrun
    simpa using hP
  | cons a rows ih =>
    intro done s hP hrun
    rw [foldlM_cons] at hrun
    obtain ⟨t, hround, hrest⟩ := bind_ok hrun
    simpa using ih (done ++ [a]) t (round done s a t hP hround) hrest

/-- Rounds that each add what their row stands for add up to the sum over the rows. -/
theorem foldlM_sum {ε α β σ M : Type} [AddMonoid M] {f : σ → α → Except ε σ} {g : σ → M → σ}
    {t : β → M} {R : α → β → Prop} {I : σ → Prop} (zero : ∀ s, g s 0 = s)
    (add : ∀ s m n, g (g s m) n = g s (m + n)) (keep : ∀ s m, I s → I (g s m))
    (round : ∀ s a b, I s → R a b → f s a = .ok (g s (t b)))
    {rows : List α} {items : List β} (hrows : List.Forall₂ R rows items) {s : σ} (hs : I s) :
    rows.foldlM f s = .ok (g s (items.map t).sum) := by
  induction hrows generalizing s with
  | nil => simp [zero, pure, Except.pure]
  | cons hab _ ih =>
    rw [foldlM_cons, round _ _ _ hs hab]
    simp only [bind, Except.bind, map_cons, sum_cons]
    rw [ih (keep _ _ hs), add]

section Tables

variable {ε κ ν : Type} [DecidableEq κ] [DecidableEq ν]

def Extends (m m' : κ → Option ν) : Prop := ∀ k v, m k = some v → m' k = some v

/-- Enters `v` under `k`, unless `k` already has another value. -/
def claim (err : ε) (m : κ → Option ν) (k : κ) (v : ν) : Except ε (κ → Option ν) :=
  match m k with
  | some old => if old ≠ v then .error err else .ok (Function.update m k (some v))
  | none => .ok (Function.update m k (some v))

/-- `claim` behind a condition; the table stays as it is where that fails. -/
def claimIf (c : Prop) [Decidable c] (err : ε) (m : κ → Option ν) (k : κ) (v : ν) :
    Except ε (κ → Option ν) :=
  if c then claim err m k v else .ok m

theorem claim_ok {err : ε} {m m' : κ → Option ν} {k : κ} {v : ν} (h : claim err m k v = .ok m') :
    m' k = some v ∧ Extends m m' := by
  have hentered : m' = Function.update m k (some v) ∧ ∀ old, m k = some old → old = v := by
    unfold claim at h
    split at h
    next old hold =>
      split at h
      · cases h
      next heq =>
        cases h
        exact ⟨rfl, fun w hw => by rw [hold] at hw; cases hw; exact not_not.mp heq⟩
    next hnone =>
      cases h
      exact ⟨rfl, fun w hw => by rw [hnone] at hw; cases hw⟩
  obtain ⟨rfl, hsame⟩ := hentered
  refine ⟨update_self .., ?_⟩
  intro k' w hw
  by_cases hk : k' = k
  · subst hk
    rw [update_self, hsame w hw]
  · rw [update_of_ne hk, hw]

/-- The table has what the rows done of one kind claim, and nothing else. -/
def Lists {α : Type} (p : α → Prop) (key : α → κ) (val : α → ν) (done : List α)
    (m : κ → Option ν) : Prop :=
  ∀ k v, m k = some v ↔ ∃ a ∈ done, p a ∧ key a = k ∧ val a = v

section Lists

variable {α : Type} {p : α → Prop} {key : α → κ} {val : α → ν} {done : List α}
  {m m' : κ → Option ν} {a : α} {err : ε} [Decidable (p a)]

omit [DecidableEq κ] [DecidableEq ν] in
theorem lists_nil : Lists p key val [] fun _ => none := by
  intro k v
  simp

theorem Lists.passes (h : Lists p key val done m) (err : ε) (a : α) [Decidable (p a)] :
    Passes (claimIf (p a) err m (key a) (val a)) ↔
      (p a → ∀ b ∈ done, p b → key b = key a → val b = val a) := by
  by_cases hp : p a
  · simp only [claimIf, hp, if_true, claim]
    cases hm : m (key a) with
    | none =>
      refine iff_of_true (passes_ok _) fun _ b hb hpb hkey => ?_
      have hsome := (h (key a) (val b)).mpr ⟨b, hb, hpb, hkey, rfl⟩
      rw [hm] at hsome
      cases hsome
    | some old =>
      obtain ⟨c, hc, hpc, hckey, hcval⟩ := (h (key a) old).mp hm
      by_cases hold : old = val a
      · simp only [hold, ne_eq, not_true_eq_false, if_false]
        refine iff_of_true (passes_ok _) fun _ b hb hpb hkey => ?_
        have hsome := (h (key a) (val b)).mpr ⟨b, hb, hpb, hkey, rfl⟩
        rw [hm] at hsome
        exact (Option.some.inj hsome).symm.trans hold
      · simp only [ne_eq, hold, not_false_eq_true, if_true]
        refine iff_of_false (not_passes_error _) fun hall => hold ?_
        exact hcval.symm.trans (hall trivial c hc hpc hckey)
  · simp [claimIf, hp]

theorem Lists.claimIf (h : Lists p key val done m)
    (hok : claimIf (p a) err m (key a) (val a) = .ok m') :
    Lists p key val (done ++ [a]) m' := by
  have hsame := (h.passes err a).mp ⟨m', hok⟩
  intro k v
  by_cases hp : p a
  · have hm' : m' = Function.update m (key a) (some (val a)) := by
      simp only [Loops.claimIf, hp, if_true, claim] at hok
      split at hok
      · split at hok
        · cases hok
        · exact (Except.ok.inj hok).symm
      · exact (Except.ok.inj hok).symm
    subst hm'
    by_cases hk : k = key a
    · subst hk
      rw [update_self]
      constructor
      · rintro ⟨⟩
        exact ⟨a, by simp, hp, rfl, rfl⟩
      · rintro ⟨b, hb, hpb, hkey, rfl⟩
        rcases mem_append.mp hb with hb | hb
        · rw [hsame hp b hb hpb hkey]
        · rw [mem_singleton.mp hb]
    · rw [update_of_ne hk, h k v]
      have hother : ¬ (p a ∧ key a = k ∧ val a = v) := fun hall => hk hall.2.1.symm
      simp [or_and_right, exists_or, hother]
  · simp only [Loops.claimIf, hp, if_false, Except.ok.injEq] at hok
    subst hok
    rw [h k v]
    simp [or_and_right, exists_or, hp]

end Lists

theorem claimIf_ok {c : Prop} [Decidable c] {err : ε} {m m' : κ → Option ν} {k : κ} {v : ν}
    (h : claimIf c err m k v = .ok m') : (c → m' k = some v) ∧ Extends m m' := by
  unfold claimIf at h
  split at h
  · obtain ⟨hk, hext⟩ := claim_ok h
    exact ⟨fun _ => hk, hext⟩
  next hc =>
    cases h
    exact ⟨fun hc' => absurd hc' hc, fun _ _ hm => hm⟩

end Tables

end ReliableMessaging.Loops
