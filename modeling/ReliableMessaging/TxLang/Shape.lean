import ReliableMessaging.TxLang.Guarantee

/-!
# What a call does after a commit

When the reply to a commit is lost its call does not know whether the rows
have changed, and its log does not show the attempt. So that a call which
answers in a certain way has not changed any row is a fact about its program:
on no path does such an answer come after a statement that publishes
(`Prog.AllAfter`). `Runs.unpublished` turns it into a fact about runs.
-/

namespace TxLang

open Function

variable {Row Ev : Type} {Val : Row → Type} {Ans : Ev → Type} {α β Err : Type}

/-- The statements that may change committed rows. -/
def Stmt.publishes : Stmt Val Ev → Bool
  | .commit => true
  | .auto _ => true
  | _ => false

/-- The statements that ask something of the world. -/
def Stmt.asks : Stmt Val Ev → Bool
  | .call _ => true
  | _ => false

/-- After a statement that publishes, the program returns only these. -/
def Prog.EndsAfter (R : α → Prop) : Prog Val Ans α → Prop
  | .ret _ => True
  | .step s k => (s.publishes = true → ∀ r, (k r).EndsIn R) ∧ ∀ r, (k r).EndsAfter R

/-- After a statement that publishes, the program sends only these. -/
def Prog.AllAfter (P : Stmt Val Ev → Prop) : Prog Val Ans α → Prop
  | .ret _ => True
  | .step s k => (s.publishes = true → ∀ r, (k r).All P) ∧ ∀ r, (k r).AllAfter P

variable {P : Stmt Val Ev → Prop} {p : Prog Val Ans α} {f : α → Prog Val Ans β}

theorem Prog.EndsAfter.mono {R R' : α → Prop} (hR : ∀ a, R a → R' a) (h : p.EndsAfter R) :
    p.EndsAfter R' := by
  induction p with
  | ret a => trivial
  | step s k ih => exact ⟨fun hs r => (h.1 hs r).mono hR, fun r => ih r (h.2 r)⟩

theorem Prog.EndsAfter.bind {R : β → Prop} (h : p.EndsAfter fun a => (f a).EndsIn R)
    (hf : ∀ a, (f a).EndsAfter R) : (p.bind f).EndsAfter R := by
  induction p with
  | ret a => exact hf a
  | step s k ih => exact ⟨fun hs r => Prog.EndsIn.bind (h.1 hs r), fun r => ih r (h.2 r)⟩

theorem Prog.EndsAfter.of_all {R : α → Prop} (h : p.All fun s => s.publishes = false) :
    p.EndsAfter R := by
  induction p with
  | ret a => trivial
  | step s k ih =>
    refine ⟨fun hs => ?_, fun r => ih r (h.2 r)⟩
    rw [h.1] at hs
    cases hs

theorem Prog.All.bind_ends (hp : p.All P) (h : p.EndsIn fun a => (f a).All P) :
    (p.bind f).All P := by
  induction p with
  | ret a => exact h
  | step s k ih => exact ⟨hp.1, fun r => ih r (hp.2 r) (h r)⟩

theorem Prog.AllAfter.bind (hp : p.All P) (h : p.EndsAfter fun a => (f a).All P)
    (hf : ∀ a, (f a).AllAfter P) : (p.bind f).AllAfter P := by
  induction p with
  | ret a => exact hf a
  | step s k ih =>
    exact ⟨fun hs r => (hp.2 r).bind_ends (h.1 hs r), fun r => ih r (hp.2 r) (h.2 r)⟩

/-! Fallible code. -/

section Code

variable {x : Code Err Val Ans α} {g : α → Code Err Val Ans β} {R : Except Err β → Prop}

theorem endsAfter_bind
    (hx : x.run.EndsAfter fun r => (∀ e, r = .error e → R (.error e)) ∧
      ∀ a, r = .ok a → (g a).run.EndsIn R)
    (hg : ∀ a, (g a).run.EndsAfter R) : (x >>= g).run.EndsAfter R := by
  refine Prog.EndsAfter.bind (p := x.run) (f := ExceptT.bindCont g) ?_ fun r => ?_
  · refine Prog.EndsAfter.mono (fun r hr => ?_) hx
    cases r with
    | ok a => exact hr.2 a rfl
    | error e => exact hr.1 e rfl
  · cases r with
    | ok a => exact hg a
    | error e => trivial

theorem endsAfter_quiet_bind (hx : x.run.All fun s => s.publishes = false)
    (hg : ∀ a, (g a).run.EndsAfter R) : (x >>= g).run.EndsAfter R :=
  endsAfter_bind (.of_all hx) hg

theorem endsAfter_withTx {fault : Err} {body : Code Err Val Ans β} (h : body.run.EndsAfter R) :
    (withTx fault body).run.EndsAfter R := by
  refine ⟨nofun, fun r => ?_⟩
  cases r with
  | none => trivial
  | some _ =>
    exact Prog.EndsAfter.bind (h.mono fun _ hr _ => hr) fun _ => ⟨nofun, fun _ => trivial⟩

end Code

/-! ## Runs -/

variable [DecidableEq Row] {Call : Type} {iso : Isolation} {code : Call → Prog Val Ans Unit}
variable {s s' s1 s2 : Sys Val Ans Call} {n : Nat} {pr : Proc Val Ans Call}

/-- What is left of a call's program keeps any property that its parts have. -/
theorem Runs.left {Q : Prog Val Ans Unit → Prop}
    (hQ : ∀ st (k : Option (st.Reply Ans) → Prog Val Ans Unit), Q (.step st k) → ∀ r, Q (k r))
    (hret : Q (.ret ())) (hp : s.procs n = some pr) (h : Q pr.prog) (hruns : Runs iso code s s') :
    ∃ pr', s'.procs n = some pr' ∧ Q pr'.prog := by
  induction hruns with
  | refl => exact ⟨pr, hp, h⟩
  | tail _ hs ih =>
    obtain ⟨pr1, hp1, h1⟩ := ih
    obtain ⟨pr2, hp2⟩ := Step.procs_some hs hp1
    refine ⟨pr2, hp2, ?_⟩
    cases Step.came hs hp2 with
    | same hsame =>
      cases hp1.symm.trans hsame
      exact h1
    | went hfrom hprog _ hnext =>
      cases hp1.symm.trans hfrom
      rw [hprog] at h1
      rw [hnext]
      exact hQ _ _ h1 _
    | stopped _ _ hstop =>
      rw [hstop]
      exact hret
    | started hnone => exact absurd (hnone.symm.trans hp1) nofun

/-- A step of a call leaves the rows and the commits in doubt as they are, or
sends the call where it is after a statement that publishes. -/
theorem Step.unpublished (hs : Step iso code s s') (hp : s.procs n = some pr)
    (h : pr.prog.AllAfter P) (hmoved : s'.procs n ≠ s.procs n) :
    s'.db = s.db ∧ s'.orphans = s.orphans ∨ ∃ pr', s'.procs n = some pr' ∧ pr'.prog.All P := by
  cases hs with
  | spawn m call hm =>
    have hne : n ≠ m := by
      rintro rfl
      exact absurd (hm.symm.trans hp) nofun
    exact absurd (update_of_ne hne _ _) hmoved
  | @run m pr0 st k busy r σ tx new hm hprog _ hlocal _ =>
    by_cases hne : n = m
    · subst hne
      cases hp.symm.trans hm
      rw [hprog] at h
      cases hst : st.publishes with
      | true => exact .inr ⟨_, update_self _ _ _, h.1 hst r⟩
      | false =>
        refine .inl ⟨?_, rfl⟩
        obtain ⟨call, prog, tx0⟩ := pr
        cases hlocal with
        | commit => cases hst
        | auto => cases hst
        | autoLost => cases hst
        | _ => rfl
    · exact absurd (update_of_ne hne _ _) hmoved
  | crash m hm => exact .inl ⟨rfl, rfl⟩
  | @lost m pr0 t k hm hprog ht =>
    by_cases hne : n = m
    · subst hne
      cases hp.symm.trans hm
      rw [hprog] at h
      exact .inr ⟨_, update_self _ _ _, h.1 rfl none⟩
    · exact absurd (update_of_ne hne _ _) hmoved
  | orphanCommit => exact absurd rfl hmoved
  | orphanRollback => exact absurd rfl hmoved

/-- A call that comes to ask what its program never asks after a statement
that publishes has changed nothing: no step of its own changes a row, or
leaves a commit in doubt. -/
theorem Runs.unpublished {ev : Ev} (hp : s1.procs n = some pr) (h : pr.prog.AllAfter P)
    (hev : ¬ P (.call ev)) (hbefore : Runs iso code s1 s) (hs : Step iso code s s')
    (hafter : Runs iso code s' s2)
    (hask : ∃ pr k, s2.procs n = some pr ∧ pr.prog = .step (.call ev) k)
    (hmoved : s'.procs n ≠ s.procs n) : s'.db = s.db ∧ s'.orphans = s.orphans := by
  obtain ⟨pr1, hp1, h1⟩ := Runs.left (Q := fun q => q.AllAfter P) (fun _ _ h => h.2) trivial hp h
    hbefore
  rcases Step.unpublished hs hp1 h1 hmoved with hsame | ⟨pr', hp', hall⟩
  · exact hsame
  · obtain ⟨pr2, hp2, h2⟩ := Runs.left (Q := fun q => q.All P) (fun _ _ h => h.2) trivial hp' hall
      hafter
    obtain ⟨pr3, k, hp3, hprog⟩ := hask
    cases hp2.symm.trans hp3
    rw [hprog] at h2
    exact absurd h2.1 hev

end TxLang
