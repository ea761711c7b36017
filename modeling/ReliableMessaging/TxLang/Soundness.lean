import ReliableMessaging.TxLang.Logic

/-!
# Whole systems

If every call's program has been proved under a contract (`Verified`), the
system keeps it, whatever the calls and however they interleave.
-/


namespace TxLang

open List Function

open Relation (ReflTransGen)

variable {Row Ev : Type} [DecidableEq Row] {Val : Row → Type} {Ans : Ev → Type} {Call : Type}

/-- A transaction holds what it writes. -/
def Tx.Owned (t : Tx Val) : Prop := ∀ r, r ∉ t.excl → t.writes.lookup r = none

theorem Tx.Owned.stage {t : Tx Val} (h : t.Owned) (rows : Db Val) : (t.stage rows).Owned := by
  intro r hr
  have hrows : r ∉ rows.keys := fun hm => hr (mem_append_left _ hm)
  have hexcl : r ∉ t.excl := fun hm => hr (mem_append_right _ hm)
  show (rows ∪ t.writes).lookup r = none
  rw [lookup_union_of_none (AList.lookup_eq_none.mpr hrows)]
  exact h r hexcl

theorem Tx.Owned.acquire {t : Tx Val} (h : t.Owned) (row : Row) (m : Mode) :
    (t.acquire row m).Owned := by
  intro r hr
  cases m with
  | share => exact h r hr
  | update => exact h r fun hm => hr (mem_cons_of_mem _ hm)

variable {t : Tx Val} {r : Row} {u tx tx' : Option (Tx Val)} {busy : List Row} {σ σ' : Db Val}
variable {new log : List (Entry Val Ans)} {A : Db Val → Db Val → Prop} {st : Stmt Val Ev}
variable {k : Option (st.Reply Ans) → Prog Val Ans Unit} {o : Orphan Val Ans Call}
variable {s' : Sys Val Ans Call} {l m : List (Orphan Val Ans Call)}

theorem Tx.Owned.publish (h : t.Owned) (hr : r ∉ t.excl) (σ : Db Val) :
    (t.writes ∪ σ).lookup r = σ.lookup r :=
  lookup_union_of_none (h r hr)

omit [DecidableEq Row] in
theorem Tx.Compat.symm {u : Tx Val} (h : t.Compat u) : u.Compat t := by
  refine ⟨fun r hu ht => ?_, fun r hu ht => h.1 r ht (Or.inl hu)⟩
  rcases ht with ht | ht
  · exact h.2 r ht hu
  · exact h.1 r ht (Or.inr hu)

omit [DecidableEq Row] in
theorem Tx.Compat.not_excl {u : Tx Val} (h : t.Compat u) (hr : u.Holds r) : r ∉ t.excl :=
  fun ht => h.1 r ht hr

theorem Local.owned {iso : Isolation} {s : Stmt Val Ev} {r : Option (s.Reply Ans)}
    (h : Local iso busy σ tx s r σ' tx' new) (ho : ∀ t, tx = some t → t.Owned) :
    ∀ t, tx' = some t → t.Owned := by
  intro t ht
  cases h with
  | fault => exact ho t ht
  | begin => cases ht; exact fun r _ => AList.lookup_empty r
  | commit => cases ht
  | lost => cases ht
  | rollback => cases ht
  | select => exact ho t ht
  | lock => cases ht; exact (ho _ rfl).acquire _ _
  | lockMiss => exact ho t ht
  | skipLocked =>
    cases ht
    exact fun r hr => ho _ rfl r fun hm => hr (mem_append_right _ hm)
  | update => cases ht; exact (ho _ rfl).stage _
  | insert => cases ht; exact (ho _ rfl).stage _
  | auto => cases ht
  | autoLost => cases ht
  | duplicate => exact ho t ht
  | now => exact ho t ht
  | random => exact ho t ht
  | call => exact ho t ht

variable (Γ : Spec Val Ans) (iso : Isolation) (code : Call → Prog Val Ans Unit)
variable (assume : Call → Db Val → Db Val → Prop) (pre : Call → Db Val → Prop)

/-- Every call's program is proved, from any rows the invariant and its own
precondition admit. -/
def Verified : Prop :=
  ∀ call σ, Γ.Inv σ → pre call σ →
    wp Γ iso (assume call) (code call) (fun _ _ => True) ⟨σ, none, []⟩

/-- The invariant of the whole system. -/
structure Good (s : Sys Val Ans Call) : Prop where
  inv : Γ.Inv s.db
  procs : ∀ p pr, s.procs p = some pr →
    wp Γ iso (assume pr.call) pr.prog (fun _ _ => True) ⟨s.db, pr.tx, logOf p s.log⟩
  orphans : ∀ o ∈ s.orphans, ∀ σ, Env Γ (assume o.call) (some o.tx) s.db σ → Γ.Inv σ →
    Publishes Γ ⟨σ, some o.tx, o.log⟩ (o.tx.writes ∪ σ)
  orphanLog : ∀ o ∈ s.orphans, ∃ p, o.log ⊆ logOf p s.log
  owned : ∀ p pr t, s.procs p = some pr → pr.tx = some t → t.Owned
  orphanOwned : ∀ o ∈ s.orphans, o.tx.Owned
  compat : ∀ p pr t, s.procs p = some pr → pr.tx = some t → ∀ u, s.Other p u → t.Compat u
  orphanCompat : s.orphans.Pairwise fun o o' => o.tx.Compat o'.tx
  fresh : ∀ p, s.procs p = none → logOf p s.log = []

variable {Γ iso code assume pre}

theorem Good.start {σ : Db Val} (h : Γ.Inv σ) :
    Good Γ iso assume (Sys.start σ : Sys Val Ans Call) where
  inv := h
  procs := fun _ _ hp => nomatch hp
  orphans := fun _ ho => nomatch ho
  orphanLog := fun _ ho => nomatch ho
  owned := fun _ _ _ hp => nomatch hp
  orphanOwned := fun _ ho => nomatch ho
  compat := fun _ _ _ hp => nomatch hp
  orphanCompat := List.Pairwise.nil
  fresh := fun _ _ => rfl

/-- Publishing one transaction is a step of another client's surroundings,
if it is a transition and the other client assumes as much. -/
theorem envStep_publish (ht : t.Owned) (hc : ∀ u, tx = some u → t.Compat u)
    (htrans : Γ.Trans σ (t.writes ∪ σ)) (hA : A σ (t.writes ∪ σ)) :
    EnvStep Γ A tx σ (t.writes ∪ σ) := by
  refine ⟨htrans, hA, fun r hr => ?_⟩
  cases tx with
  | none => exact hr.elim
  | some u => exact ht.publish ((hc u rfl).not_excl hr) σ

/-- A transaction of its own that waited for its rows is a step of everyone's
surroundings. -/
theorem envAuto {f : Nat → Db Val → Db Val} (clock : Nat) (hfree : ∀ r ∈ (f clock σ).keys, r ∉ busy)
    (ho : ∀ clock, Publishes Γ ⟨σ, tx, log⟩ (f clock σ ∪ σ)) (hbusy : ∀ r, held u r → r ∈ busy)
    (hA : f clock σ ∪ σ ≠ σ → A σ (f clock σ ∪ σ)) : Env Γ A u σ (f clock σ ∪ σ) := by
  by_cases heq : f clock σ ∪ σ = σ
  · rw [heq]
    exact Env.refl _ _
  · refine .single ⟨(ho clock).1, hA heq, fun r hr => ?_⟩
    have hkey : r ∉ (f clock σ).keys := fun hm => hfree r hm (hbusy r hr)
    exact lookup_union_of_none (AList.lookup_eq_none.mpr hkey)

/-- What a statement of one call does to the committed rows is, for any
other client, nothing or a step of its surroundings. -/
theorem Local.env {s : Stmt Val Ev} {r : Option (s.Reply Ans)}
    (h : Local iso busy σ tx s r σ' tx' new) (ho : Owes Γ ⟨σ, tx, log⟩ s)
    (howned : ∀ t, tx = some t → t.Owned) (hc : ∀ t, tx = some t → ∀ v, u = some v → t.Compat v)
    (hbusy : ∀ r, held u r → r ∈ busy) (hA : σ' ≠ σ → A σ σ') : Env Γ A u σ σ' := by
  cases h with
  | @commit t =>
    by_cases heq : t.writes ∪ σ = σ
    · rw [heq]
      exact Env.refl _ _
    · exact .single (envStep_publish (howned t rfl) (hc t rfl) (ho t rfl).1 (hA heq))
  | auto clock hfree => exact envAuto clock hfree ho hbusy hA
  | autoLost clock hfree => exact envAuto clock hfree ho hbusy hA
  | _ => exact Env.refl _ _

theorem wp_of_not_running {pr : Proc Val Ans Call} (h : ¬ pr.Running) (c : Ctx Val Ans) :
    wp Γ iso A pr.prog (fun _ _ => True) c := by
  simp only [Proc.Running, not_forall, not_not] at h
  obtain ⟨a, ha⟩ := h
  rw [ha]
  trivial

theorem wp_of_env {pr : Proc Val Ans Call}
    (h : wp Γ iso A pr.prog (fun _ _ => True) ⟨σ, pr.tx, log⟩)
    (henv : pr.Running → Env Γ A pr.tx σ σ') :
    wp Γ iso A pr.prog (fun _ _ => True) ⟨σ', pr.tx, log⟩ := by
  by_cases hrun : pr.Running
  · exact wp_env (henv hrun) h
  · exact wp_of_not_running hrun _

omit [DecidableEq Row] in
theorem logOf_append_other {p q : Nat} (h : q ≠ p) (log : List (Nat × Entry Val Ans))
    (new : List (Entry Val Ans)) : logOf q (log ++ new.map (p, ·)) = logOf q log := by
  rw [logOf_append, logOf_other h, append_nil]

omit [DecidableEq Row] in
theorem logOf_append_own (p : Nat) (log : List (Nat × Entry Val Ans))
    (new : List (Entry Val Ans)) : logOf p (log ++ new.map (p, ·)) = logOf p log ++ new := by
  rw [logOf_append, logOf_own]

section Updated

variable {procs : Nat → Option (Proc Val Ans Call)} {p q : Nat} {pr pr' : Proc Val Ans Call}

omit [DecidableEq Row] in
theorem update_self_eq (h : Function.update procs p (some pr) p = some pr') : pr' = pr := by
  rw [update_self] at h
  exact (Option.some.inj h).symm

omit [DecidableEq Row] in
theorem update_other_eq (hq : q ≠ p) (h : Function.update procs p (some pr) q = some pr') :
    procs q = some pr' := by
  rwa [update_of_ne hq] at h

omit [DecidableEq Row] in
theorem update_other_none (hq : q ≠ p) (h : Function.update procs p (some pr) q = none) :
    procs q = none := by
  rwa [update_of_ne hq] at h

end Updated

theorem Good.spawn {s : Sys Val Ans Call} (hg : Good Γ iso assume s)
    (hv : Verified Γ iso code assume pre) (p : Nat) (call : Call) (hp : s.procs p = none)
    (hpre : pre call s.db) : Good Γ iso assume (s.spawned code p call) where
  inv := hg.inv
  procs := by
    intro q pr hq
    by_cases hqp : q = p
    · subst hqp
      rw [update_self_eq hq]
      have hlog : logOf q s.log = [] := hg.fresh q hp
      simpa [Sys.spawned, hlog] using hv call s.db hg.inv hpre
    · exact hg.procs q pr (update_other_eq hqp hq)
  orphans := hg.orphans
  orphanLog := hg.orphanLog
  owned := by
    intro q pr t hq ht
    by_cases hqp : q = p
    · subst hqp
      rw [update_self_eq hq] at ht
      cases ht
    · exact hg.owned q pr t (update_other_eq hqp hq) ht
  orphanOwned := hg.orphanOwned
  compat := by
    intro q pr t hq ht u hu
    by_cases hqp : q = p
    · subst hqp
      rw [update_self_eq hq] at ht
      cases ht
    · refine hg.compat q pr t (update_other_eq hqp hq) ht u ?_
      rcases hu with ⟨q', pr', hne, hq', hu⟩ | hu
      · by_cases hq'p : q' = p
        · subst hq'p
          rw [update_self_eq hq'] at hu
          cases hu
        · exact Or.inl ⟨q', pr', hne, update_other_eq hq'p hq', hu⟩
      · exact Or.inr hu
  orphanCompat := hg.orphanCompat
  fresh := by
    intro q hq
    by_cases hqp : q = p
    · subst hqp
      exact hg.fresh q hp
    · exact hg.fresh q (update_other_none hqp hq)

/-- A statement of one call is, for the transaction of anyone else, nothing or
a step of its surroundings. -/
theorem Good.run_env {s : Sys Val Ans Call} (hg : Good Γ iso assume s) {p : Nat}
    {pr : Proc Val Ans Call} {r : Option (st.Reply Ans)} (hp : s.procs p = some pr)
    (hprog : pr.prog = .step st k) (hbusy : ∀ r, r ∈ busy ↔ ∃ u, s.Other p u ∧ u.Holds r)
    (hlocal : Local iso busy s.db pr.tx st r σ tx new) (hu : ∀ v, u = some v → s.Other p v)
    (hA : σ ≠ s.db → A s.db σ) : Env Γ A u s.db σ := by
  have hwp := hg.procs p pr hp
  rw [hprog] at hwp
  refine hlocal.env (hwp s.db (Env.refl _ _) hg.inv).1 (fun t ht => hg.owned p pr t hp ht)
    (fun t ht v hv => hg.compat p pr t hp ht v (hu v hv)) (fun row hrow => ?_) hA
  cases u with
  | none => exact hrow.elim
  | some v => exact (hbusy row).mpr ⟨v, hu v rfl, hrow⟩

theorem Good.orphan_env {s : Sys Val Ans Call} (hg : Good Γ iso assume s) (hmem : o ∈ s.orphans)
    (hc : ∀ u, tx = some u → o.tx.Compat u)
    (hA : o.tx.writes ∪ s.db ≠ s.db → A s.db (o.tx.writes ∪ s.db)) :
    Env Γ A tx s.db (o.tx.writes ∪ s.db) := by
  have htrans := (hg.orphans o hmem s.db (Env.refl _ _) hg.inv).1
  by_cases heq : o.tx.writes ∪ s.db = s.db
  · rw [heq]
    exact Env.refl _ _
  · exact .single (envStep_publish (hg.orphanOwned o hmem) hc htrans (hA heq))

theorem Good.run {s : Sys Val Ans Call} (hg : Good Γ iso assume s) (p : Nat)
    {pr : Proc Val Ans Call} {r : Option (st.Reply Ans)} (hp : s.procs p = some pr)
    (hprog : pr.prog = .step st k) (hbusy : ∀ r, r ∈ busy ↔ ∃ u, s.Other p u ∧ u.Holds r)
    (hlocal : Local iso busy s.db pr.tx st r σ tx new)
    (hfree : ∀ t, tx = some t → ∀ u, s.Other p u → t.Compat u)
    (hs' : s' = { db := σ
                  procs := Function.update s.procs p (some { pr with prog := k r, tx := tx })
                  orphans := s.orphans
                  log := s.log ++ new.map (p, ·) })
    (hr : Respects assume s s') : Good Γ iso assume s' := by
  have hwp := hg.procs p pr hp
  rw [hprog] at hwp
  obtain ⟨howes, hnext⟩ := hwp s.db (Env.refl _ _) hg.inv
  have hdb : s'.db = σ := by rw [hs']
  have hother : ∀ q pr', q ≠ p → s'.procs q = some pr' → s.procs q = some pr' := by
    intro q pr' hne hq
    rw [hs'] at hq
    exact update_other_eq hne hq
  have hsame : ∀ q pr', q ≠ p → s.procs q = some pr' → s'.procs q = some pr' := by
    intro q pr' hne hq
    rw [hs']
    show Function.update s.procs p _ q = some pr'
    rw [update_of_ne hne, hq]
  have hself : ∀ pr', s'.procs p = some pr' → pr' = { pr with prog := k r, tx := tx } := by
    intro pr' hq
    rw [hs'] at hq
    exact update_self_eq hq
  have horph : s'.orphans = s.orphans := by rw [hs']
  -- a transaction that is not `q`'s own is the stepping call's, or an old one
  have hOther : ∀ q u, q ≠ p → s'.Other q u → (tx = some u) ∨ s.Other q u := by
    rintro q u hne (⟨q', pr', hq', hproc, hu⟩ | hu)
    · by_cases h : q' = p
      · subst h
        rw [hself pr' hproc] at hu
        exact Or.inl hu
      · exact Or.inr (Or.inl ⟨q', pr', hq', hother q' pr' h hproc, hu⟩)
    · rw [horph] at hu
      exact Or.inr (Or.inr hu)
  refine ⟨?_, ?_, ?_, ?_, ?_, ?_, ?_, ?_, ?_⟩
  · rw [hdb]
    exact hlocal.inv (c := ⟨s.db, pr.tx, logOf p s.log⟩) howes hg.inv
  · intro q pr' hq
    by_cases hqp : q = p
    · subst hqp
      rw [hself pr' hq, hs']
      show wp Γ iso (assume pr.call) (k r) _ ⟨σ, tx, logOf q (s.log ++ new.map (q, ·))⟩
      rw [logOf_append_own]
      exact hnext busy r σ tx new hlocal
    · have hq0 := hother q pr' hqp hq
      have hlog : logOf q s'.log = logOf q s.log := by
        rw [hs']
        exact logOf_append_other hqp s.log new
      rw [hdb, hlog]
      refine wp_of_env (hg.procs q pr' hq0) fun hrun => ?_
      refine hg.run_env hp hprog hbusy hlocal (fun v hv => Or.inl ⟨q, pr', hqp, hq0, hv⟩) ?_
      intro hne
      have hresp := (hr (hdb ▸ hne)).1 q pr' hq0 hrun hq
      rwa [hdb] at hresp
  · intro o ho σ'' henv hinv
    rw [horph] at ho
    rw [hdb] at henv
    refine hg.orphans o ho σ'' (Env.trans ?_ henv) hinv
    refine hg.run_env hp hprog hbusy hlocal (fun v hv => ?_) fun hne => ?_
    · cases hv
      exact Or.inr ⟨o, ho, rfl⟩
    · have hresp := (hr (hdb ▸ hne)).2 o ho (horph ▸ ho)
      rwa [hdb] at hresp
  · intro o ho
    rw [horph] at ho
    obtain ⟨q, hq⟩ := hg.orphanLog o ho
    refine ⟨q, fun en hen => ?_⟩
    rw [hs', logOf_append]
    exact mem_append_left _ (hq hen)
  · intro q pr' t hq ht
    by_cases hqp : q = p
    · subst hqp
      rw [hself pr' hq] at ht
      exact hlocal.owned (fun t ht => hg.owned q pr t hp ht) t ht
    · exact hg.owned q pr' t (hother q pr' hqp hq) ht
  · intro o ho
    exact hg.orphanOwned o (horph ▸ ho)
  · intro q pr' t hq ht u hu
    by_cases hqp : q = p
    · subst hqp
      rw [hself pr' hq] at ht
      refine hfree t ht u ?_
      rcases hu with ⟨q', pr'', hne, hproc, hu⟩ | hu
      · exact Or.inl ⟨q', pr'', hne, hother q' pr'' hne hproc, hu⟩
      · exact Or.inr (horph ▸ hu)
    · have hq0 := hother q pr' hqp hq
      rcases hOther q u hqp hu with hown | hold
      · exact (hfree u hown t (Or.inl ⟨q, pr', hqp, hq0, ht⟩)).symm
      · exact hg.compat q pr' t hq0 ht u hold
  · rw [horph]
    exact hg.orphanCompat
  · intro q hq
    by_cases hqp : q = p
    · subst hqp
      rw [hs'] at hq
      simp only [update_self] at hq
      cases hq
    · have hq0 : s.procs q = none := by
        rw [hs'] at hq
        exact update_other_none hqp hq
      rw [hs']
      show logOf q (s.log ++ new.map (p, ·)) = []
      rw [logOf_append_other hqp]
      exact hg.fresh q hq0

theorem Good.crash {s : Sys Val Ans Call} (hg : Good Γ iso assume s) (p : Nat)
    {pr : Proc Val Ans Call} (hp : s.procs p = some pr) :
    Good Γ iso assume
      { s with
        procs := Function.update s.procs p (some { pr with prog := .ret (), tx := none }) } := by
  refine ⟨hg.inv, ?_, hg.orphans, hg.orphanLog, ?_, hg.orphanOwned, ?_, hg.orphanCompat, ?_⟩
  · intro q pr' hq
    by_cases hqp : q = p
    · subst hqp
      rw [update_self_eq hq]
      trivial
    · exact hg.procs q pr' (update_other_eq hqp hq)
  · intro q pr' t hq ht
    by_cases hqp : q = p
    · subst hqp
      rw [update_self_eq hq] at ht
      cases ht
    · exact hg.owned q pr' t (update_other_eq hqp hq) ht
  · intro q pr' t hq ht u hu
    by_cases hqp : q = p
    · subst hqp
      rw [update_self_eq hq] at ht
      cases ht
    · refine hg.compat q pr' t (update_other_eq hqp hq) ht u ?_
      rcases hu with ⟨q', pr'', hne, hq', hu⟩ | hu
      · by_cases hq'p : q' = p
        · subst hq'p
          rw [update_self_eq hq'] at hu
          cases hu
        · exact Or.inl ⟨q', pr'', hne, update_other_eq hq'p hq', hu⟩
      · exact Or.inr hu
  · intro q hq
    by_cases hqp : q = p
    · subst hqp
      simp only [update_self] at hq
      cases hq
    · exact hg.fresh q (update_other_none hqp hq)

theorem Good.lost {s : Sys Val Ans Call} (hg : Good Γ iso assume s) (p : Nat)
    {pr : Proc Val Ans Call} {t : Tx Val}
    {k : Option ((Stmt.commit : Stmt Val Ev).Reply Ans) → Prog Val Ans Unit}
    (hp : s.procs p = some pr) (hprog : pr.prog = .step .commit k) (ht : pr.tx = some t) :
    Good Γ iso assume
      { s with
        procs := Function.update s.procs p (some { pr with prog := k none, tx := none })
        orphans := ⟨pr.call, t, logOf p s.log⟩ :: s.orphans } := by
  have hwp := hg.procs p pr hp
  rw [hprog] at hwp
  refine ⟨hg.inv, ?_, ?_, ?_, ?_, ?_, ?_, ?_, ?_⟩
  · intro q pr' hq
    by_cases hqp : q = p
    · subst hqp
      rw [update_self_eq hq]
      have hnext := (hwp s.db (Env.refl _ _) hg.inv).2 [] none s.db none [] .lost
      rwa [append_nil] at hnext
    · exact hg.procs q pr' (update_other_eq hqp hq)
  · intro o ho σ henv hinv
    rcases mem_cons.mp ho with rfl | ho
    · -- the owing of the commit, at whatever rows it is published
      rw [← ht] at henv ⊢
      exact (hwp σ henv hinv).1 t ht
    · exact hg.orphans o ho σ henv hinv
  · intro o ho
    rcases mem_cons.mp ho with rfl | ho
    · exact ⟨p, fun _ hen => hen⟩
    · exact hg.orphanLog o ho
  · intro q pr' u hq hu
    by_cases hqp : q = p
    · subst hqp
      rw [update_self_eq hq] at hu
      cases hu
    · exact hg.owned q pr' u (update_other_eq hqp hq) hu
  · intro o ho
    rcases mem_cons.mp ho with rfl | ho
    · exact hg.owned p pr t hp ht
    · exact hg.orphanOwned o ho
  · intro q pr' u hq hu v hv
    by_cases hqp : q = p
    · subst hqp
      rw [update_self_eq hq] at hu
      cases hu
    · refine hg.compat q pr' u (update_other_eq hqp hq) hu v ?_
      rcases hv with ⟨q', pr'', hne, hproc, hv⟩ | ⟨o, ho, hv⟩
      · by_cases hq'p : q' = p
        · subst hq'p
          rw [update_self_eq hproc] at hv
          cases hv
        · exact Or.inl ⟨q', pr'', hne, update_other_eq hq'p hproc, hv⟩
      · rcases mem_cons.mp ho with rfl | ho
        · exact Or.inl ⟨p, pr, Ne.symm hqp, hp, ht.trans (congrArg some hv)⟩
        · exact Or.inr ⟨o, ho, hv⟩
  · refine pairwise_cons.mpr ⟨fun o ho => ?_, hg.orphanCompat⟩
    exact hg.compat p pr t hp ht o.tx (Or.inr ⟨o, ho, rfl⟩)
  · intro q hq
    by_cases hqp : q = p
    · subst hqp
      simp only [update_self] at hq
      cases hq
    · exact hg.fresh q (update_other_none hqp hq)

theorem Good.orphanRollback {s : Sys Val Ans Call} (hg : Good Γ iso assume s)
    (h : s.orphans = l ++ o :: m) : Good Γ iso assume { s with orphans := l ++ m } := by
  have hsub : ∀ x ∈ l ++ m, x ∈ s.orphans := by
    intro x hx
    rw [h]
    rcases mem_append.mp hx with hx | hx
    · exact mem_append_left _ hx
    · exact mem_append_right _ (mem_cons_of_mem _ hx)
  refine ⟨hg.inv, hg.procs, fun x hx => hg.orphans x (hsub x hx),
    fun x hx => hg.orphanLog x (hsub x hx), hg.owned, fun x hx => hg.orphanOwned x (hsub x hx),
    ?_, ?_, hg.fresh⟩
  · intro p pr t hp ht u hu
    refine hg.compat p pr t hp ht u ?_
    rcases hu with hu | ⟨x, hx, hu⟩
    · exact Or.inl hu
    · exact Or.inr ⟨x, hsub x hx, hu⟩
  · refine hg.orphanCompat.sublist ?_
    rw [h]
    exact List.Sublist.append_left (sublist_cons_self _ _) _

theorem Good.orphan_compat {s : Sys Val Ans Call} (hg : Good Γ iso assume s)
    (h : s.orphans = l ++ o :: m) : ∀ x ∈ l ++ m, o.tx.Compat x.tx := by
  have hall := hg.orphanCompat
  rw [h, pairwise_append, pairwise_cons] at hall
  intro x hx
  rcases mem_append.mp hx with hx | hx
  · exact (hall.2.2 x hx o mem_cons_self).symm
  · exact hall.2.1.1 x hx

theorem Good.orphanCommit {s : Sys Val Ans Call} (hg : Good Γ iso assume s)
    (h : s.orphans = l ++ o :: m)
    (hr : Respects assume s { s with db := o.tx.writes ∪ s.db, orphans := l ++ m }) :
    Good Γ iso assume { s with db := o.tx.writes ∪ s.db, orphans := l ++ m } := by
  have hmem : o ∈ s.orphans := by rw [h]; exact mem_append_right _ mem_cons_self
  have htrans := (hg.orphans o hmem s.db (Env.refl _ _) hg.inv).1
  have hrest := hg.orphanRollback h
  refine ⟨Γ.keeps hg.inv htrans, ?_, ?_, hrest.orphanLog, hrest.owned, hrest.orphanOwned,
    hrest.compat, hrest.orphanCompat, hrest.fresh⟩
  · intro q pr hq
    refine wp_of_env (hg.procs q pr hq) fun hrun => ?_
    refine hg.orphan_env hmem (fun u hu => ?_) fun hne => (hr hne).1 q pr hq hrun hq
    exact (hg.compat q pr u hq hu o.tx (Or.inr ⟨o, hmem, rfl⟩)).symm
  · intro x hx σ hσ hinv
    have hx0 : x ∈ s.orphans := by
      rw [h]
      rcases mem_append.mp hx with hx | hx
      · exact mem_append_left _ hx
      · exact mem_append_right _ (mem_cons_of_mem _ hx)
    refine hg.orphans x hx0 σ (Env.trans ?_ hσ) hinv
    refine hg.orphan_env hmem (fun u hu => ?_) fun hne => (hr hne).2 x hx0 hx
    cases hu
    exact hg.orphan_compat h x hx

theorem Good.step {s : Sys Val Ans Call} (hv : Verified Γ iso code assume pre)
    (hg : Good Γ iso assume s) (hs : Step iso code s s') (hr : Respects assume s s')
    (hpre : ∀ p call, s.procs p = none → s' = s.spawned code p call → pre call s.db) :
    Good Γ iso assume s' := by
  cases hs with
  | spawn p call hp => exact hg.spawn hv p call hp (hpre p call hp rfl)
  | run p hp hprog hbusy hlocal hfree => exact hg.run p hp hprog hbusy hlocal hfree rfl hr
  | crash p hp => exact hg.crash p hp
  | lost p hp hprog ht => exact hg.lost p hp hprog ht
  | orphanCommit h => exact hg.orphanCommit h hr
  | orphanRollback h => exact hg.orphanRollback h

theorem Good.run_publishes {s : Sys Val Ans Call} (hg : Good Γ iso assume s) {p : Nat}
    {pr : Proc Val Ans Call} {r : Option (st.Reply Ans)} (hp : s.procs p = some pr)
    (hprog : pr.prog = .step st k) (hlocal : Local iso busy s.db pr.tx st r σ tx new) :
    σ = s.db ∨ Publishes Γ ⟨s.db, pr.tx, logOf p s.log⟩ σ := by
  have hwp := hg.procs p pr hp
  rw [hprog] at hwp
  have howes := (hwp s.db (Env.refl _ _) hg.inv).1
  obtain ⟨call, prog, tx0⟩ := pr
  cases hlocal with
  | commit => exact Or.inr (howes _ rfl)
  | auto clock => exact Or.inr (howes clock)
  | autoLost clock => exact Or.inr (howes clock)
  | _ => exact Or.inl rfl

theorem Good.orphan_publishes {s : Sys Val Ans Call} (hg : Good Γ iso assume s)
    (h : s.orphans = l ++ o :: m) : Publishes Γ ⟨s.db, some o.tx, o.log⟩ (o.tx.writes ∪ s.db) := by
  refine hg.orphans o ?_ s.db (Env.refl _ _) hg.inv
  rw [h]
  exact mem_append_right _ mem_cons_self

/-- A step of a good system leaves the rows alone, or makes a transition that
some call has earned. -/
theorem Good.step_publishes {s : Sys Val Ans Call} (hg : Good Γ iso assume s)
    (hs : Step iso code s s') : s'.db = s.db ∨
      Γ.Trans s.db s'.db ∧ ∃ p own, own ⊆ logOf p s.log ∧ Γ.Earned own s.db s'.db := by
  cases hs with
  | spawn => exact Or.inl rfl
  | run p hp hprog _ hlocal _ =>
    refine (hg.run_publishes hp hprog hlocal).imp_right fun hpub => ?_
    exact ⟨hpub.1, p, _, List.Subset.refl _, hpub.2⟩
  | crash => exact Or.inl rfl
  | lost => exact Or.inl rfl
  | @orphanCommit o l m h =>
    have hmem : o ∈ s.orphans := by rw [h]; exact mem_append_right _ mem_cons_self
    obtain ⟨p, hown⟩ := hg.orphanLog o hmem
    have hpub := hg.orphan_publishes h
    exact Or.inr ⟨hpub.1, p, o.log, hown, hpub.2⟩
  | orphanRollback => exact Or.inl rfl

theorem Good.step_trans {s : Sys Val Ans Call} (hg : Good Γ iso assume s)
    (hs : Step iso code s s') :
    s'.db = s.db ∨ Γ.Trans s.db s'.db :=
  (hg.step_publishes hs).imp_right And.left

/-- The call's open transaction holds the row. -/
def Sys.Holding (p : Nat) (r : Row) (s : Sys Val Ans Call) : Prop :=
  ∃ pr t, s.procs p = some pr ∧ pr.tx = some t ∧ t.Holds r

/-- An open transaction or a commit in doubt holds the row. -/
def Sys.Locked (r : Row) (s : Sys Val Ans Call) : Prop :=
  (∃ p, s.Holding p r) ∨ ∃ o ∈ s.orphans, o.tx.Holds r

/-- A step that leaves a row locked has not moved it. -/
theorem Good.step_locked {s : Sys Val Ans Call} (hg : Good Γ iso assume s)
    (hs : Step iso code s s') (h : s'.Locked r) : s'.db.lookup r = s.db.lookup r := by
  cases hs with
  | @run q pr st k busy rep σ tx new hq hprog hbusy hlocal _ =>
    obtain ⟨call, prog, tx0⟩ := pr
    -- a call that is not in a transaction afterwards is not the one that holds the row
    have hother : tx = none → ∃ u, s.Other q u ∧ u.Holds r := by
      rintro rfl
      rcases h with ⟨p, pr, t, hp, ht, hr⟩ | ⟨o, ho, hr⟩
      · have hpq : p ≠ q := by
          rintro rfl
          rw [update_self_eq hp] at ht
          cases ht
        exact ⟨t, .inl ⟨p, pr, hpq, update_other_eq hpq hp, ht⟩, hr⟩
      · exact ⟨o.tx, .inr ⟨o, ho, rfl⟩, hr⟩
    have hauto {f : Nat → Db Val → Db Val} {clock : Nat} (hnone : tx = none)
        (hfree : ∀ r ∈ (f clock s.db).keys, r ∉ busy) :
        (f clock s.db ∪ s.db).lookup r = s.db.lookup r := by
      have hmem := (hbusy r).mpr (hother hnone)
      exact lookup_union_of_none (AList.lookup_eq_none.mpr fun hm => hfree r hm hmem)
    cases hlocal with
    | @commit u =>
      obtain ⟨u', hu', hr⟩ := hother rfl
      exact (hg.owned q _ u hq rfl).publish ((hg.compat q _ u hq rfl u' hu').not_excl hr) s.db
    | auto clock hfree => exact hauto rfl hfree
    | autoLost clock hfree => exact hauto rfl hfree
    | _ => rfl
  | @orphanCommit o l m hsplit =>
    have hmem : o ∈ s.orphans := by rw [hsplit]; exact mem_append_right _ mem_cons_self
    refine (hg.orphanOwned o hmem).publish ?_ s.db
    rcases h with ⟨p, pr, t, hp, ht, hr⟩ | ⟨o', ho', hr⟩
    · exact (hg.compat p pr t hp ht o.tx (Or.inr ⟨o, hmem, rfl⟩)).symm.not_excl hr
    · exact (hg.orphan_compat hsplit o' ho').not_excl hr
  | _ => rfl

theorem Good.step_later {s : Sys Val Ans Call} (hg : Good Γ iso assume s)
    (hs : Step iso code s s') :
    Later Γ s.db s'.db := by
  rcases hg.step_trans hs with h | h
  · rw [h]
    exact .refl
  · exact .single h

/-! ## What runs keep -/

/-- A log and the rows it leads to, entry by entry: what a contract allows
a system to have done. A move is a commit whose client never heard of it. -/
inductive History (Γ : Spec Val Ans) : Db Val → List (Nat × Entry Val Ans) → Prop
  | start {σ : Db Val} (h : Γ.Inv σ) : History Γ σ []
  | move {σ σ' : Db Val} {log : List (Nat × Entry Val Ans)} (h : History Γ σ log) (p : Nat)
      {own : List (Entry Val Ans)} (hown : own ⊆ logOf p log) (ht : Γ.Trans σ σ')
      (he : Γ.Earned own σ σ') : History Γ σ' log
  | called {σ : Db Val} {log : List (Nat × Entry Val Ans)} (h : History Γ σ log) (p : Nat)
      (ev : Ev) (ans : Option (Ans ev)) {tx : Option (Tx Val)}
      (ha : Γ.Allow ⟨σ, tx, logOf p log⟩ ev) :
      History Γ σ (log ++ [(p, .called ev ans)])
  | committed {σ σ' : Db Val} {log : List (Nat × Entry Val Ans)} (h : History Γ σ log) (p : Nat)
      (ht : Γ.Trans σ σ') (he : Γ.Earned (logOf p log) σ σ') :
      History Γ σ' (log ++ [(p, .committed σ σ')])

theorem History.inv {log : List (Nat × Entry Val Ans)} (h : History Γ σ log) : Γ.Inv σ := by
  induction h with
  | start h => exact h
  | move _ _ _ ht _ ih => exact Γ.keeps ih ht
  | called _ _ _ _ _ ih => exact ih
  | committed _ _ ht _ ih => exact Γ.keeps ih ht

theorem Good.step_history {s : Sys Val Ans Call} (hg : Good Γ iso assume s)
    (hh : History Γ s.db s.log) (hs : Step iso code s s') : History Γ s'.db s'.log := by
  cases hs with
  | spawn => exact hh
  | @run p pr st k busy r σ tx new hp hprog _ hlocal _ =>
    have hwp := hg.procs p pr hp
    rw [hprog] at hwp
    have howes := (hwp s.db (Env.refl _ _) hg.inv).1
    obtain ⟨call, prog, tx0⟩ := pr
    cases hlocal with
    | commit => exact hh.committed p (howes _ rfl).1 (howes _ rfl).2
    | auto clock => exact hh.committed p (howes clock).1 (howes clock).2
    | autoLost clock =>
      rw [map_nil, append_nil]
      exact hh.move p (fun _ h => h) (howes clock).1 (howes clock).2
    | call ans => exact hh.called p _ ans howes
    | _ => simpa using hh
  | crash => exact hh
  | lost => exact hh
  | @orphanCommit o l m h =>
    have hmem : o ∈ s.orphans := by rw [h]; exact mem_append_right _ mem_cons_self
    obtain ⟨p, hown⟩ := hg.orphanLog o hmem
    have hpub := hg.orphan_publishes h
    exact hh.move p hown hpub.1 hpub.2
  | orphanRollback => exact hh

/-- All that a system has to show before its runs can be spoken of: proofs of
its programs, initial rows that keep the invariant, steps that respect what
the calls assume, and calls that start only where their preconditions hold,
for which the history so far may be consulted. -/
structure Sound (Γ : Spec Val Ans) (iso : Isolation) (code : Call → Prog Val Ans Unit)
    (assume : Call → Db Val → Db Val → Prop) (pre : Call → Db Val → Prop)
    (ok : Sys Val Ans Call → Sys Val Ans Call → Prop) (init : Db Val → Prop) : Prop where
  verified : Verified Γ iso code assume pre
  init : ∀ σ, init σ → Γ.Inv σ
  respects : ∀ s s', ok s s' → Respects assume s s'
  ready : ∀ s p call, History Γ s.db s.log → s.procs p = none →
    ok s (s.spawned code p call) → pre call s.db

section Runs

variable {ok : Sys Val Ans Call → Sys Val Ans Call → Prop} {init : Db Val → Prop}
variable {s : Sys Val Ans Call}

theorem Reach.good_history (hv : Sound Γ iso code assume pre ok init)
    (h : Reach iso code ok init s) : Good Γ iso assume s ∧ History Γ s.db s.log := by
  induction h with
  | start h => exact ⟨Good.start (hv.init _ h), .start (hv.init _ h)⟩
  | @step s s' _ hs hok ih =>
    obtain ⟨hg, hh⟩ := ih
    refine ⟨hg.step hv.verified hs (hv.respects s s' hok) ?_, hg.step_history hh hs⟩
    rintro p call hp rfl
    exact hv.ready s p call hh hp hok

theorem Reach.good (hv : Sound Γ iso code assume pre ok init) (h : Reach iso code ok init s) :
    Good Γ iso assume s :=
  (h.good_history hv).1

theorem Reach.history (hv : Sound Γ iso code assume pre ok init) (h : Reach iso code ok init s) :
    History Γ s.db s.log :=
  (h.good_history hv).2

theorem Reach.inv (hv : Sound Γ iso code assume pre ok init) (h : Reach iso code ok init s) :
    Γ.Inv s.db :=
  (h.good hv).inv

end Runs

end TxLang
