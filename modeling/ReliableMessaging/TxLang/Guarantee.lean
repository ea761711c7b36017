import ReliableMessaging.TxLang.Runs

/-!
# What one kind of call guarantees

The contract of `TxLang.Soundness` is the same for all calls: it says what any
commit may do. A call often does much less, and what it promises beyond the
contract is its own business: the others never rely on it. So the promise is
proved of the call's program alone, in the company the contract describes
(`Spec.owing`), and it is kept in every run (`Reach.keeps`).
-/

namespace TxLang

open List

variable {Row Ev : Type} [DecidableEq Row] {Val : Row → Type} {Ans : Ev → Type} {Call : Type}

/-- The contract, for a client whose commits and questions are bound by other
clauses: the invariant and the transitions everyone relies on are the same. -/
def Spec.owing (Γ : Spec Val Ans) (earned : List (Entry Val Ans) → Db Val → Db Val → Prop)
    (allow : Ctx Val Ans → Ev → Prop) : Spec Val Ans :=
  { Γ with Earned := earned, Allow := allow }

variable {Γ : Spec Val Ans} {iso : Isolation} {code : Call → Prog Val Ans Unit}
variable {assume : Call → Db Val → Db Val → Prop} {pre : Call → Db Val → Prop}
variable {init : Db Val → Prop} {ok : Sys Val Ans Call → Sys Val Ans Call → Prop}
variable {s s' : Sys Val Ans Call} {p : Nat} {pr pr' : Proc Val Ans Call}
variable {earned : List (Entry Val Ans) → Db Val → Db Val → Prop}
variable {allow : Ctx Val Ans → Ev → Prop}

theorem wp_owing_mono {earned' : List (Entry Val Ans) → Db Val → Db Val → Prop}
    {allow' : Ctx Val Ans → Ev → Prop} {A : Db Val → Db Val → Prop} {α : Type}
    (he : ∀ log a b, earned log a b → earned' log a b) (ha : ∀ c ev, allow c ev → allow' c ev)
    {p : Prog Val Ans α} {Q : α → Ctx Val Ans → Prop} :
    ∀ {c : Ctx Val Ans}, wp (Γ.owing earned allow) iso A p Q c →
      wp (Γ.owing earned' allow') iso A p Q c := by
  induction p with
  | ret a => exact fun h => h
  | step s k ih =>
    intro c h σ henv hinv
    obtain ⟨ho, hk⟩ := h σ henv hinv
    refine ⟨?_, fun busy r σ' tx new hl => ih r (hk busy r σ' tx new hl)⟩
    cases s with
    | commit => exact fun t ht => ⟨(ho t ht).1, he _ _ _ (ho t ht).2⟩
    | auto f => exact fun clock => ⟨(ho clock).1, he _ _ _ (ho clock).2⟩
    | call ev => exact ha _ _ ho
    | _ => trivial

/-! ## One call -/

/-- What is left of a call's program is proved under other clauses, from where
the call stands. -/
def Tracked (Γ : Spec Val Ans) (iso : Isolation) (assume : Call → Db Val → Db Val → Prop)
    (earned : List (Entry Val Ans) → Db Val → Db Val → Prop) (allow : Ctx Val Ans → Ev → Prop)
    (s : Sys Val Ans Call) (p : Nat) (pr : Proc Val Ans Call) : Prop :=
  wp (Γ.owing earned allow) iso (assume pr.call) pr.prog (fun _ _ => True)
    ⟨s.db, pr.tx, logOf p s.log⟩

theorem Good.step_tracks (hg : Good Γ iso assume s) (hs : Step iso code s s')
    (hr : Respects assume s s') (hp : s.procs p = some pr) (hp' : s'.procs p = some pr')
    (h : Tracked Γ iso assume earned allow s p pr) :
    pr'.call = pr.call ∧ Tracked Γ iso assume earned allow s' p pr' := by
  have hsame : ∀ {q : Nat} {new : Proc Val Ans Call}, p ≠ q →
      Function.update s.procs q (some new) p = some pr' → pr' = pr := by
    intro q new hne hq
    exact Option.some.inj ((update_other_eq hne hq).symm.trans hp)
  cases hs with
  | spawn q call hq =>
    by_cases hpq : p = q
    · subst hpq
      rw [hp] at hq
      cases hq
    · cases hsame hpq hp'
      exact ⟨rfl, h⟩
  | @run q pr0 st k busy r σ tx new hq hprog hbusy hlocal hfree =>
    by_cases hpq : p = q
    · subst hpq
      cases hp.symm.trans hq
      cases update_self_eq hp'
      refine ⟨rfl, ?_⟩
      unfold Tracked at h ⊢
      rw [hprog] at h
      rw [logOf_append_own]
      exact (h s.db (Env.refl _ _) hg.inv).2 busy r σ tx new hlocal
    · cases hsame hpq hp'
      refine ⟨rfl, ?_⟩
      unfold Tracked at h ⊢
      rw [logOf_append_other hpq]
      refine wp_of_env h fun hrun => ?_
      exact hg.run_env hq hprog hbusy hlocal (fun v hv => Or.inl ⟨p, pr, hpq, hp, hv⟩)
        fun hne => (hr hne).1 p pr hp hrun hp'
  | crash q hq =>
    by_cases hpq : p = q
    · subst hpq
      cases hp.symm.trans hq
      cases update_self_eq hp'
      exact ⟨rfl, trivial⟩
    · cases hsame hpq hp'
      exact ⟨rfl, h⟩
  | lost q hq hprog ht =>
    by_cases hpq : p = q
    · subst hpq
      cases hp.symm.trans hq
      cases update_self_eq hp'
      refine ⟨rfl, ?_⟩
      unfold Tracked at h ⊢
      rw [hprog] at h
      have hnext := (h s.db (Env.refl _ _) hg.inv).2 [] none s.db none [] .lost
      rwa [append_nil] at hnext
    · cases hsame hpq hp'
      exact ⟨rfl, h⟩
  | @orphanCommit o l m horphans =>
    cases hp.symm.trans hp'
    have hmem : o ∈ s.orphans := by
      rw [horphans]
      exact mem_append_right _ mem_cons_self
    refine ⟨rfl, ?_⟩
    unfold Tracked at h ⊢
    refine wp_of_env h fun hrun => hg.orphan_env hmem (fun u hu => ?_)
      fun hne => (hr hne).1 p pr hp hrun hp
    exact (hg.compat p pr u hp hu o.tx (Or.inr ⟨o, hmem, rfl⟩)).symm
  | orphanRollback =>
    cases hp.symm.trans hp'
    exact ⟨rfl, h⟩

theorem Step.procs_some (hs : Step iso code s s') (hp : s.procs p = some pr) :
    ∃ pr', s'.procs p = some pr' := by
  have hupdate : ∀ (q : Nat) (new : Proc Val Ans Call),
      ∃ pr', Function.update s.procs q (some new) p = some pr' := by
    intro q new
    by_cases hpq : p = q
    · subst hpq
      exact ⟨new, Function.update_self _ _ _⟩
    · exact ⟨pr, (Function.update_of_ne hpq _ _).trans hp⟩
  cases hs with
  | spawn q call _ => exact hupdate q _
  | run q => exact hupdate q _
  | crash q => exact hupdate q _
  | lost q => exact hupdate q _
  | orphanCommit => exact ⟨pr, hp⟩
  | orphanRollback => exact ⟨pr, hp⟩

/-- A call that is proved under other clauses where it stands stays so. -/
theorem Runs.tracks (hv : Sound Γ iso code assume pre ok init) (h : Reach iso code ok init s)
    (hp : s.procs p = some pr) (ht : Tracked Γ iso assume earned allow s p pr)
    (hruns : RunsBy iso code ok s s') :
    ∃ pr', s'.procs p = some pr' ∧ pr'.call = pr.call ∧
      Tracked Γ iso assume earned allow s' p pr' := by
  induction hruns with
  | refl => exact ⟨pr, hp, rfl, ht⟩
  | @tail a b hruns hs ih =>
    obtain ⟨pr1, hp1, hcall1, ht1⟩ := ih
    obtain ⟨pr2, hp2⟩ := Step.procs_some hs.1 hp1
    obtain ⟨hcall2, ht2⟩ := ((h.runsBy hruns).good hv).step_tracks hs.1 (hv.respects _ _ hs.2)
      hp1 hp2 ht1
    exact ⟨pr2, hp2, hcall2.trans hcall1, ht2⟩

theorem Tracked.called (hinv : Γ.Inv s.db) (hs : Step iso code s s')
    (hp : s.procs p = some pr) (ht : Tracked Γ iso assume earned allow s p pr) {ev : Ev}
    {ans : Option (Ans ev)} (hlog : s'.log = s.log ++ [(p, .called ev ans)]) :
    allow ⟨s.db, pr.tx, logOf p s.log⟩ ev := by
  obtain ⟨pr', k, hp', hprog⟩ := Step.asking hs hlog
  cases hp.symm.trans hp'
  unfold Tracked at ht
  rw [hprog] at ht
  exact (ht s.db (Env.refl _ _) hinv).1

/-! ## One kind of call -/

def Guarantees (Γ : Spec Val Ans) (iso : Isolation) (code : Call → Prog Val Ans Unit)
    (assume : Call → Db Val → Db Val → Prop) (pre : Call → Db Val → Prop)
    (promise : Call → Db Val → Db Val → Prop) : Prop :=
  ∀ call σ, Γ.Inv σ → pre call σ →
    wp (Γ.owing (fun _ => promise call) Γ.Allow) iso (assume call) (code call) (fun _ _ => True)
      ⟨σ, none, []⟩

/-- Every call in progress, and every commit in doubt, keeps its promise. -/
structure Keeps (Γ : Spec Val Ans) (iso : Isolation) (assume : Call → Db Val → Db Val → Prop)
    (promise : Call → Db Val → Db Val → Prop) (s : Sys Val Ans Call) : Prop where
  procs : ∀ p pr, s.procs p = some pr →
    Tracked Γ iso assume (fun _ => promise pr.call) Γ.Allow s p pr
  orphans : ∀ o ∈ s.orphans, ∀ σ, Env Γ (assume o.call) (some o.tx) s.db σ → Γ.Inv σ →
    promise o.call σ (o.tx.writes ∪ σ)

variable {promise : Call → Db Val → Db Val → Prop}

theorem Keeps.step_orphans (hk : Keeps Γ iso assume promise s) (hg : Good Γ iso assume s)
    (hs : Step iso code s s') (hr : Respects assume s s') :
    ∀ o ∈ s'.orphans, ∀ σ, Env Γ (assume o.call) (some o.tx) s'.db σ → Γ.Inv σ →
      promise o.call σ (o.tx.writes ∪ σ) := by
  intro o ho σ henv hinv
  cases hs with
  | run q hq hprog hbusy hlocal _ =>
    refine hk.orphans o ho σ (Env.trans ?_ henv) hinv
    refine hg.run_env hq hprog hbusy hlocal (fun v hv => ?_) fun hne => (hr hne).2 o ho ho
    cases hv
    exact Or.inr ⟨o, ho, rfl⟩
  | @lost q pr t k hq hprog ht =>
    rcases mem_cons.mp ho with rfl | ho
    · have htracked := hk.procs q pr hq
      unfold Tracked at htracked
      rw [hprog] at htracked
      rw [← ht] at henv
      exact ((htracked σ henv hinv).1 t ht).2
    · exact hk.orphans o ho σ henv hinv
  | @orphanCommit x l m horphans =>
    have hmem : x ∈ s.orphans := by
      rw [horphans]
      exact mem_append_right _ mem_cons_self
    have hold : o ∈ s.orphans := by
      rw [horphans]
      rcases mem_append.mp ho with ho | ho
      · exact mem_append_left _ ho
      · exact mem_append_right _ (mem_cons_of_mem _ ho)
    refine hk.orphans o hold σ (Env.trans (hg.orphan_env hmem (fun u hu => ?_)
      fun hne => (hr hne).2 o hold ho) henv) hinv
    cases hu
    have hall := hg.orphanCompat
    rw [horphans, pairwise_append, pairwise_cons] at hall
    rcases mem_append.mp ho with ho | ho
    · exact (hall.2.2 o ho x mem_cons_self).symm
    · exact hall.2.1.1 o ho
  | @orphanRollback x l m horphans =>
    refine hk.orphans o ?_ σ henv hinv
    rw [horphans]
    rcases mem_append.mp ho with ho | ho
    · exact mem_append_left _ ho
    · exact mem_append_right _ (mem_cons_of_mem _ ho)
  | _ => exact hk.orphans o ho σ henv hinv

theorem Keeps.step (hgu : Guarantees Γ iso code assume pre promise)
    (hk : Keeps Γ iso assume promise s) (hg : Good Γ iso assume s) (hs : Step iso code s s')
    (hr : Respects assume s s')
    (hpre : ∀ p call, s.procs p = none → s' = s.spawned code p call → pre call s.db) :
    Keeps Γ iso assume promise s' := by
  refine ⟨fun p pr' hp' => ?_, hk.step_orphans hg hs hr⟩
  cases hp : s.procs p with
  | some pr =>
    obtain ⟨hcall, htracked⟩ := hg.step_tracks hs hr hp hp' (hk.procs p pr hp)
    rw [hcall]
    exact htracked
  | none =>
    -- the call has just started
    have hcame := Step.came hs hp'
    cases hcame with
    | same h => exact absurd (hp.symm.trans h) nofun
    | went h => exact absurd (hp.symm.trans h) nofun
    | stopped h => exact absurd (hp.symm.trans h) nofun
    | started _ hnext hspawn =>
      have hstart := hgu pr'.call s.db hg.inv (hpre p _ hp hspawn)
      subst hspawn
      have hnew := update_self_eq hp'
      have hlog : logOf p s.log = [] := hg.fresh p hp
      unfold Tracked
      rw [hnext, show pr'.tx = none from congrArg Proc.tx hnew]
      simpa [Sys.spawned, hlog] using hstart

theorem Reach.keeps (hv : Sound Γ iso code assume pre ok init)
    (hgu : Guarantees Γ iso code assume pre promise) (h : Reach iso code ok init s) :
    Keeps Γ iso assume promise s := by
  induction h with
  | start => exact ⟨fun _ _ hp => (nomatch hp), fun _ ho => (nomatch ho)⟩
  | @step s s' hr hs hok ih =>
    obtain ⟨hg, hh⟩ := hr.good_history hv
    refine ih.step hgu hg hs (hv.respects s s' hok) ?_
    rintro p call hp rfl
    exact hv.ready s p call hh hp hok

/-- The rows that a call may leave next: by its next statement, or by a commit
of its that is in doubt. -/
def Sys.MayLeave (iso : Isolation) (s : Sys Val Ans Call) (call : Call) (σ' : Db Val) : Prop :=
  (∃ p pr, s.procs p = some pr ∧ pr.call = call ∧ s.Leaves iso p σ') ∨
    ∃ o ∈ s.orphans, o.call = call ∧ σ' = o.tx.writes ∪ s.db

/-- A step leaves the rows alone, or leaves what some call may leave. -/
theorem Step.mayLeave (hs : Step iso code s s') :
    s'.db = s.db ∨ ∃ call, s.MayLeave iso call s'.db := by
  cases hs with
  | run p hp hprog _ hlocal _ =>
    exact .inr ⟨_, .inl ⟨p, _, hp, rfl, _, hp, _, _, _, _, _, _, hprog, hlocal⟩⟩
  | @orphanCommit o l m horphans =>
    refine .inr ⟨o.call, .inr ⟨o, ?_, rfl, rfl⟩⟩
    rw [horphans]
    exact mem_append_right _ mem_cons_self
  | _ => exact .inl rfl

/-- Whatever rows a call may leave are those it found, or those its kind
promises. -/
theorem Keeps.mayLeave (hk : Keeps Γ iso assume promise s) (hg : Good Γ iso assume s)
    {call : Call} {σ' : Db Val} (h : s.MayLeave iso call σ') :
    σ' = s.db ∨ Γ.Trans s.db σ' ∧ promise call s.db σ' := by
  rcases h with ⟨p, pr, hp, rfl, pr', hp', st, k, busy, r, tx, new, hprog, hlocal⟩ |
    ⟨o, ho, rfl, rfl⟩
  · cases hp.symm.trans hp'
    have htracked := hk.procs p pr hp
    unfold Tracked at htracked
    rw [hprog] at htracked
    have howes := (htracked s.db (Env.refl _ _) hg.inv).1
    obtain ⟨call, prog, tx0⟩ := pr
    cases hlocal with
    | commit => exact .inr (howes _ rfl)
    | auto clock => exact .inr (howes clock)
    | autoLost clock => exact .inr (howes clock)
    | _ => exact .inl rfl
  · exact .inr ⟨(hg.orphans o ho s.db (Env.refl _ _) hg.inv).1,
      hk.orphans o ho s.db (Env.refl _ _) hg.inv⟩

/-! ## The commits of a run -/

/-- A run with its commits, oldest first: the call that each comes from, the
rows it found and the rows it left. -/
inductive Trace (iso : Isolation) (code : Call → Prog Val Ans Unit)
    (ok : Sys Val Ans Call → Sys Val Ans Call → Prop) (init : Db Val → Prop) :
    Sys Val Ans Call → List (Call × Db Val × Db Val) → Prop
  | start {σ : Db Val} (h : init σ) : Trace iso code ok init (Sys.start σ) []
  | quiet {s s' : Sys Val Ans Call} {commits : List (Call × Db Val × Db Val)}
      (h : Trace iso code ok init s commits) (hs : Step iso code s s') (hok : ok s s')
      (hsame : s'.db = s.db) : Trace iso code ok init s' commits
  | commit {s s' : Sys Val Ans Call} {commits : List (Call × Db Val × Db Val)} {call : Call}
      (h : Trace iso code ok init s commits) (hs : Step iso code s s') (hok : ok s s')
      (hleft : s.MayLeave iso call s'.db) :
      Trace iso code ok init s' (commits ++ [(call, s.db, s'.db)])

variable {commits : List (Call × Db Val × Db Val)}

theorem Trace.reach (h : Trace iso code ok init s commits) : Reach iso code ok init s := by
  induction h with
  | start h => exact .start h
  | quiet _ hs hok _ ih => exact ih.step hs hok
  | commit _ hs hok _ ih => exact ih.step hs hok

theorem Reach.trace (h : Reach iso code ok init s) :
    ∃ commits, Trace iso code ok init s commits := by
  induction h with
  | start h => exact ⟨[], .start h⟩
  | step _ hs hok ih =>
    obtain ⟨commits, htrace⟩ := ih
    rcases Step.mayLeave hs with hsame | ⟨call, hleft⟩
    · exact ⟨commits, htrace.quiet hs hok hsame⟩
    · exact ⟨_, htrace.commit hs hok hleft⟩

theorem Trace.invariant {I : Db Val → List (Call × Db Val × Db Val) → Prop}
    (hv : Sound Γ iso code assume pre ok init)
    (hgu : Guarantees Γ iso code assume pre promise) (start : ∀ σ, init σ → I σ [])
    (same : ∀ σ commits call, I σ commits → I σ (commits ++ [(call, σ, σ)]))
    (commit : ∀ σ commits call σ', I σ commits → Γ.Trans σ σ' → promise call σ σ' →
      I σ' (commits ++ [(call, σ, σ')]))
    (h : Trace iso code ok init s commits) : I s.db commits := by
  induction h with
  | start h => exact start _ h
  | quiet _ _ _ hsame ih => rwa [hsame]
  | @commit s s' commits call h _ _ hleft ih =>
    rcases (h.reach.keeps hv hgu).mayLeave (h.reach.good hv) hleft with
      hsame | ⟨htrans, hpromise⟩
    · rw [hsame]
      exact same _ _ _ ih
    · exact commit _ _ _ _ ih htrans hpromise

end TxLang
