import ReliableMessaging.TxLang.Soundness

/-!
# Along a run

What the contract's theorems say of one state, said along runs: the log only
grows, a fact that every transition keeps holds of everything asked so far
(`History.lasting`), and a row is the same for as long as a transaction that is
open or in doubt holds it (`kept_while_locked`).
-/

namespace TxLang

open List

open Relation (ReflTransGen)

variable {Row Ev : Type} [DecidableEq Row] {Val : Row → Type} {Ans : Ev → Type} {Call : Type}

def Runs (iso : Isolation) (code : Call → Prog Val Ans Unit) :
    Sys Val Ans Call → Sys Val Ans Call → Prop :=
  ReflTransGen (Step iso code)

def RunsBy (iso : Isolation) (code : Call → Prog Val Ans Unit)
    (ok : Sys Val Ans Call → Sys Val Ans Call → Prop) :
    Sys Val Ans Call → Sys Val Ans Call → Prop :=
  ReflTransGen fun s s' => Step iso code s s' ∧ ok s s'

/-- Any number of steps, with `P` in every state they lead to. -/
def RunsWhile (iso : Isolation) (code : Call → Prog Val Ans Unit) (P : Sys Val Ans Call → Prop) :
    Sys Val Ans Call → Sys Val Ans Call → Prop :=
  RunsBy iso code fun _ s' => P s'

def Sys.Open (p : Nat) (s : Sys Val Ans Call) : Prop :=
  ∃ pr t, s.procs p = some pr ∧ pr.tx = some t

variable {Γ : Spec Val Ans} {iso : Isolation} {code : Call → Prog Val Ans Unit}
variable {assume : Call → Db Val → Db Val → Prop} {pre : Call → Db Val → Prop}
variable {init : Db Val → Prop}
variable {s s' : Sys Val Ans Call} {σ : Db Val} {log : List (Nat × Entry Val Ans)}

variable {p : Nat} {ev : Ev} {ans : Option (Ans ev)} {post : List (Nat × Entry Val Ans)} {α : Type}
variable {l : List α} {a b : α} {pr : Proc Val Ans Call} {t : Tx Val} {r : Row}

omit [DecidableEq Row] in
theorem mem_logOf {en : Entry Val Ans} : en ∈ logOf p log ↔ (p, en) ∈ log := by
  unfold logOf
  simp only [mem_map, mem_filter, beq_iff_eq, Prod.exists]
  constructor
  · rintro ⟨q, en', ⟨hmem, rfl⟩, rfl⟩
    exact hmem
  · intro hmem
    exact ⟨p, en, ⟨hmem, rfl⟩, rfl⟩

theorem Reach.mono {ok ok' : Sys Val Ans Call → Sys Val Ans Call → Prop}
    (hok : ∀ a b, ok a b → ok' a b) (h : Reach iso code ok init s) :
    Reach iso code ok' init s := by
  induction h with
  | start h => exact .start h
  | step _ hs hstep ih => exact ih.step hs (hok _ _ hstep)

/-! ## With no condition on the steps -/

/-- Programs that are proved from any rows and assume nothing of each other
may take any step. -/
theorem Verified.sound
    (hv : Verified Γ iso code (fun _ _ _ => True) (fun _ _ => True))
    (hinit : ∀ σ, init σ → Γ.Inv σ) :
    Sound Γ iso code (fun _ _ _ => True) (fun _ _ => True) anyStep init where
  verified := hv
  init := hinit
  respects := fun _ _ _ _ => ⟨fun _ _ _ _ _ => trivial, fun _ _ _ => trivial⟩
  ready := fun _ _ _ _ _ _ => trivial

theorem Reach.runsBy {ok : Sys Val Ans Call → Sys Val Ans Call → Prop}
    (h : Reach iso code ok init s) (hruns : RunsBy iso code ok s s') :
    Reach iso code ok init s' := by
  induction hruns with
  | refl => exact h
  | tail _ hs ih => exact ih.step hs.1 hs.2

theorem Reach.runs (h : Reach iso code anyStep init s) (hruns : Runs iso code s s') :
    Reach iso code anyStep init s' := by
  induction hruns with
  | refl => exact h
  | tail _ hs ih => exact ih.step hs trivial

theorem RunsBy.runs {ok : Sys Val Ans Call → Sys Val Ans Call → Prop}
    (h : RunsBy iso code ok s s') : Runs iso code s s' :=
  ReflTransGen.mono (fun _ _ hs => hs.1) _ _ h

theorem Runs.anyBy (h : Runs iso code s s') : RunsBy iso code anyStep s s' :=
  ReflTransGen.mono (fun _ _ hs => ⟨hs, trivial⟩) _ _ h

theorem Reach.later {ok : Sys Val Ans Call → Sys Val Ans Call → Prop}
    (hv : Sound Γ iso code assume pre ok init) (h : Reach iso code ok init s)
    (hruns : RunsBy iso code ok s s') : Later Γ s.db s'.db := by
  induction hruns with
  | refl => exact .refl
  | tail hruns hs ih => exact ih.trans (((h.runsBy hruns).good hv).step_later hs.1)

/-! ## The log -/

theorem Step.log_grows (h : Step iso code s s') : s.log <+: s'.log := by
  cases h with
  | run => exact prefix_append _ _
  | _ => exact prefix_refl _

theorem Runs.log_grows (h : Runs iso code s s') : s.log <+: s'.log := by
  induction h with
  | refl => exact prefix_refl _
  | tail _ hs ih => exact ih.trans (Step.log_grows hs)

theorem Step.called_db (h : Step iso code s s') (hlog : s'.log = s.log ++ [(p, .called ev ans)]) :
    s'.db = s.db := by
  cases h with
  | @run q pr st k busy r σ tx new hp hprog _ hlocal _ =>
    obtain ⟨call, prog, tx0⟩ := pr
    cases hlocal with
    | commit =>
      have hnew := append_cancel_left hlog
      simp at hnew
    | auto =>
      have hnew := append_cancel_left hlog
      simp at hnew
    | autoLost => simp at hlog
    | _ => rfl
  | orphanCommit => simp at hlog
  | _ => rfl

theorem Step.asking (hs : Step iso code s s') (hlog : s'.log = s.log ++ [(p, .called ev ans)]) :
    ∃ pr k, s.procs p = some pr ∧ pr.prog = .step (.call ev) k := by
  cases hs with
  | @run q pr0 st k busy r σ tx new hq hprog _ hlocal _ =>
    have hnew := append_cancel_left hlog
    obtain ⟨call, prog, tx0⟩ := pr0
    cases hlocal with
    | call ans' =>
      simp only [map_cons, map_nil, List.cons.injEq, Prod.mk.injEq, and_true] at hnew
      obtain ⟨rfl, hcall⟩ := hnew
      cases hcall
      exact ⟨_, k, hq, hprog⟩
    | _ => simp at hnew
  | _ => simp [Sys.spawned] at hlog

theorem Good.step_called (hg : Good Γ iso assume s) (h : Step iso code s s')
    (hlog : s'.log = s.log ++ [(p, .called ev ans)]) :
    ∃ pr, s'.procs p = some pr ∧ Γ.Allow ⟨s'.db, pr.tx, logOf p s.log⟩ ev := by
  cases h with
  | @run q pr st k busy r σ tx new hp hprog _ hlocal _ =>
    have hwp := hg.procs q pr hp
    rw [hprog] at hwp
    have howes := (hwp s.db (Env.refl _ _) hg.inv).1
    have hnew := append_cancel_left hlog
    obtain ⟨call, prog, tx0⟩ := pr
    cases hlocal with
    | call ans' =>
      simp only [map_cons, map_nil, List.cons.injEq, Prod.mk.injEq, and_true] at hnew
      obtain ⟨rfl, hcall⟩ := hnew
      cases hcall
      exact ⟨_, Function.update_self _ _ _, howes⟩
    | _ => simp at hnew
  | _ => simp [Sys.spawned] at hlog

/-- What a call may only ask when it is true, and every transition keeps, is
true of everything asked so far. -/
theorem History.lasting {P : Ev → Db Val → Prop}
    (hallow : ∀ c ev, Γ.Inv c.db → Γ.Allow c ev → P ev c.db)
    (hkeep : ∀ ev a b, P ev a → Γ.Trans a b → P ev b) (h : History Γ σ log) :
    ∀ p ev ans, (p, Entry.called ev ans) ∈ log → P ev σ := by
  induction h with
  | start => exact fun _ _ _ hm => nomatch hm
  | move _ _ _ ht _ ih => exact fun p ev ans hm => hkeep ev _ _ (ih p ev ans hm) ht
  | @called σ log hh q ev' ans' tx ha ih =>
    intro p ev ans hm
    rcases mem_append.mp hm with hm | hm
    · exact ih p ev ans hm
    · cases mem_singleton.mp hm
      exact hallow _ _ hh.inv ha
  | committed _ q ht _ ih =>
    intro p ev ans hm
    rcases mem_append.mp hm with hm | hm
    · exact hkeep ev _ _ (ih p ev ans hm) ht
    · simp at hm

/-- Whatever was asked was allowed then, by the log of that moment. -/
theorem History.allowed (h : History Γ σ log) {pre : List (Nat × Entry Val Ans)}
    (hsplit : log = pre ++ (p, .called ev ans) :: post) :
    ∃ σ' tx, History Γ σ' pre ∧ Γ.Allow ⟨σ', tx, logOf p pre⟩ ev := by
  induction h generalizing post with
  | start => simp at hsplit
  | move _ _ _ _ _ ih => exact ih hsplit
  | @called σ log hh q ev' ans' tx ha ih =>
    rcases eq_nil_or_concat post with rfl | ⟨post, last, rfl⟩
    · -- the last entry is the one asked about
      obtain ⟨rfl, hlast⟩ := append_inj' hsplit rfl
      cases hlast
      exact ⟨σ, tx, hh, ha⟩
    · rw [concat_eq_append, ← cons_append, ← append_assoc] at hsplit
      exact ih (append_inj' hsplit rfl).1
  | committed hh q ht _ ih =>
    rcases eq_nil_or_concat post with rfl | ⟨post, last, rfl⟩
    · obtain ⟨rfl, hlast⟩ := append_inj' hsplit rfl
      cases hlast
    · rw [concat_eq_append, ← cons_append, ← append_assoc] at hsplit
      exact ih (append_inj' hsplit rfl).1

theorem split_of_pair (h : List.Sublist [a, b] l) : ∃ pre post, l = pre ++ b :: post ∧ a ∈ pre := by
  obtain ⟨r1, r2, rfl, ha, hb⟩ := cons_sublist_iff.mp h
  obtain ⟨x, y, rfl⟩ := append_of_mem (singleton_sublist.mp hb)
  exact ⟨r1 ++ x, y, by rw [append_assoc], mem_append_left _ ha⟩

theorem pair_sublist (ha : a ∈ l) (hb : b ∈ l) (hne : a ≠ b) :
    List.Sublist [a, b] l ∨ List.Sublist [b, a] l := by
  obtain ⟨x, y, rfl⟩ := append_of_mem ha
  rcases mem_append.mp hb with hx | hy
  · exact .inr ((singleton_sublist.mpr hx).append
      (singleton_sublist.mpr mem_cons_self))
  · have hy' := (mem_cons.mp hy).resolve_left (Ne.symm hne)
    exact .inl (((singleton_sublist.mpr hy').cons_cons a).trans (sublist_append_right _ _))

/-- A commit was made at the rows of its moment, and what it left has only
moved since. -/
theorem History.committed_at (h : History Γ σ log) {pre : List (Nat × Entry Val Ans)} {a b : Db Val}
    (hsplit : log = pre ++ (p, .committed a b) :: post) : History Γ a pre ∧ Later Γ b σ := by
  induction h generalizing post with
  | start => simp at hsplit
  | move _ _ _ ht _ ih =>
    obtain ⟨hh, hl⟩ := ih hsplit
    exact ⟨hh, hl.tail ht⟩
  | called _ _ _ _ _ ih =>
    rcases eq_nil_or_concat post with rfl | ⟨post, last, rfl⟩
    · obtain ⟨rfl, hlast⟩ := append_inj' hsplit rfl
      cases hlast
    · rw [concat_eq_append, ← cons_append, ← append_assoc] at hsplit
      exact ih (append_inj' hsplit rfl).1
  | committed hh q ht _ ih =>
    rcases eq_nil_or_concat post with rfl | ⟨post, last, rfl⟩
    · obtain ⟨rfl, hlast⟩ := append_inj' hsplit rfl
      cases hlast
      exact ⟨hh, .refl⟩
    · rw [concat_eq_append, ← cons_append, ← append_assoc] at hsplit
      obtain ⟨hh', hl⟩ := ih (append_inj' hsplit rfl).1
      exact ⟨hh', hl.tail ht⟩

/-- Of two commits the second was made at rows that come after the first. -/
theorem History.committed_order (h : History Γ σ log) {q : Nat} {a b a' b' : Db Val}
    (hsub : List.Sublist [(p, Entry.committed a b), (q, .committed a' b')] log) : Later Γ b a' := by
  obtain ⟨pre, post, hsplit, hmem⟩ := split_of_pair hsub
  obtain ⟨pre', post', hsplit'⟩ := append_of_mem hmem
  exact ((h.committed_at hsplit).1.committed_at hsplit').2

/-! ## Programs of the calls in progress -/

/-- A transaction that stays open holds what it held. -/
theorem Local.keeps {busy : List Row} {t' : Tx Val} {st : Stmt Val Ev} {r : Option (st.Reply Ans)}
    {σ' : Db Val} {new : List (Entry Val Ans)} (h : Local iso busy σ (some t) st r σ' (some t') new)
    (row : Row) (hr : t.Holds row) : t'.Holds row := by
  cases h with
  | lock => exact hr.acquire _ _
  | skipLocked => exact hr.imp_right (mem_append_right _)
  | update => exact hr.stage _
  | insert => exact hr.stage _
  | _ => exact hr

/-- Where a call in progress comes from: it was there, it has gone on with its
program or lost the rest of it, or it has just started. -/
inductive Came (code : Call → Prog Val Ans Unit) (s s' : Sys Val Ans Call) (p : Nat)
    (pr : Proc Val Ans Call) : Prop
  | same (h : s.procs p = some pr)
  | went {pr0 : Proc Val Ans Call} {st : Stmt Val Ev}
      {k : Option (st.Reply Ans) → Prog Val Ans Unit} {r : Option (st.Reply Ans)}
      (h : s.procs p = some pr0) (hprog : pr0.prog = .step st k) (hcall : pr.call = pr0.call)
      (hnext : pr.prog = k r) (hheld : ∀ t t', pr0.tx = some t → pr.tx = some t' →
        ∀ row, t.Holds row → t'.Holds row)
  | stopped {pr0 : Proc Val Ans Call} (h : s.procs p = some pr0) (hcall : pr.call = pr0.call)
      (hnext : pr.prog = .ret ()) (htx : pr.tx = none)
  | started (h : s.procs p = none) (hnext : pr.prog = code pr.call)
      (hs : s' = s.spawned code p pr.call)

theorem Step.came (h : Step iso code s s') (hp : s'.procs p = some pr) : Came code s s' p pr := by
  cases h with
  | spawn q call hq =>
    by_cases hpq : p = q
    · subst hpq
      cases update_self_eq hp
      exact .started hq rfl rfl
    · exact .same (update_other_eq hpq hp)
  | run q hq hprog _ hlocal =>
    by_cases hpq : p = q
    · subst hpq
      cases update_self_eq hp
      refine .went hq hprog rfl rfl fun t t' ht ht' => ?_
      subst ht'
      rw [ht] at hlocal
      exact hlocal.keeps
    · exact .same (update_other_eq hpq hp)
  | crash q hq =>
    by_cases hpq : p = q
    · subst hpq
      cases update_self_eq hp
      exact .stopped hq rfl rfl rfl
    · exact .same (update_other_eq hpq hp)
  | lost q hq hprog =>
    by_cases hpq : p = q
    · subst hpq
      cases update_self_eq hp
      exact .went hq hprog rfl rfl nofun
    · exact .same (update_other_eq hpq hp)
  | orphanCommit => exact .same hp
  | orphanRollback => exact .same hp

variable {ok : Sys Val Ans Call → Sys Val Ans Call → Prop}

theorem Reach.all {P : Call → Stmt Val Ev → Prop} (hcode : ∀ call, (code call).All (P call))
    (h : Reach iso code ok init s) :
    ∀ p pr, s.procs p = some pr → pr.prog.All (P pr.call) := by
  induction h with
  | start => exact fun _ _ hp => nomatch hp
  | step _ hs _ ih =>
    intro p pr hp
    cases Step.came hs hp with
    | same h => exact ih p pr h
    | @went pr0 st k r h hprog hcall hnext =>
      have hall := ih p pr0 h
      rw [hprog] at hall
      rw [hnext, hcall]
      exact hall.2 r
    | stopped h hcall hnext =>
      rw [hnext]
      trivial
    | started h hnext =>
      rw [hnext]
      exact hcode pr.call

/-- What the log said of a call when it started, it says for as long as the
call is in progress. -/
theorem Reach.calls {P : Call → List (Nat × Entry Val Ans) → Prop}
    (hmono : ∀ call l m, P call l → l <+: m → P call m)
    (hstart : ∀ s p call, s.procs p = none → ok s (s.spawned code p call) → P call s.log)
    (h : Reach iso code ok init s) : ∀ p pr, s.procs p = some pr → P pr.call s.log := by
  induction h with
  | start => exact fun _ _ hp => nomatch hp
  | @step s s' _ hs hok ih =>
    intro p pr hp
    refine hmono _ _ _ ?_ (Step.log_grows hs)
    cases Step.came hs hp with
    | same h => exact ih p pr h
    | went h _ hcall =>
      rw [hcall]
      exact ih p _ h
    | stopped h hcall =>
      rw [hcall]
      exact ih p _ h
    | started h _ hspawn =>
      subst hspawn
      exact hstart s p pr.call h hok

theorem Reach.orphanCalls {P : Call → Prop}
    (hprocs : ∀ s, Reach iso code ok init s → ∀ p pr, s.procs p = some pr → P pr.call)
    (h : Reach iso code ok init s) : ∀ o ∈ s.orphans, P o.call := by
  induction h with
  | start => exact fun _ ho => nomatch ho
  | @step s s' hr hs _ ih =>
    intro o ho
    cases hs with
    | lost p hp =>
      rcases mem_cons.mp ho with rfl | ho
      · exact hprocs s hr p _ hp
      · exact ih o ho
    | orphanCommit horphans =>
      refine ih o ?_
      rw [horphans]
      exact mem_append.mpr ((mem_append.mp ho).imp_right (mem_cons_of_mem _))
    | orphanRollback horphans =>
      refine ih o ?_
      rw [horphans]
      exact mem_append.mpr ((mem_append.mp ho).imp_right (mem_cons_of_mem _))
    | _ => exact ih o ho

/-- The next statement of a call may leave these rows. -/
def Sys.Leaves (iso : Isolation) (s : Sys Val Ans Call) (p : Nat) (σ' : Db Val) : Prop :=
  ∃ pr, s.procs p = some pr ∧ ∃ (st : Stmt Val Ev) (k : Option (st.Reply Ans) → Prog Val Ans Unit)
    (busy : List Row) (r : Option (st.Reply Ans)) (tx : Option (Tx Val))
    (new : List (Entry Val Ans)), pr.prog = .step st k ∧ Local iso busy s.db pr.tx st r σ' tx new

/-! ## Open transactions -/

/-- A transaction that stays open in a step holds what it held. -/
theorem Step.holding (hs : Step iso code s s') (h : s.Holding p r) (hopen : s'.Open p) :
    s'.Holding p r := by
  obtain ⟨pr, t, hp, ht, hr⟩ := h
  obtain ⟨pr', t', hp', ht'⟩ := hopen
  refine ⟨pr', t', hp', ht', ?_⟩
  cases hs.came hp' with
  | same h =>
    cases hp.symm.trans h
    cases ht.symm.trans ht'
    exact hr
  | went h _ _ _ hheld =>
    cases hp.symm.trans h
    exact hheld t t' ht ht' r hr
  | stopped _ _ _ htx => cases htx.symm.trans ht'
  | started h => cases hp.symm.trans h

theorem Sys.Holding.locked (h : s.Holding p r) (hruns : RunsWhile iso code (Sys.Open p) s s') :
    s'.Holding p r ∧ RunsWhile iso code (Sys.Locked r) s s' := by
  induction hruns with
  | refl => exact ⟨h, .refl⟩
  | tail _ hs ih =>
    have hnext := hs.1.holding ih.1 hs.2
    exact ⟨hnext, ih.2.tail ⟨hs.1, .inl ⟨p, hnext⟩⟩⟩

/-- While a row is locked, by an open transaction or by a commit in doubt, it
does not move. -/
theorem kept_while_locked (hv : Sound Γ iso code assume pre anyStep init)
    (h : Reach iso code anyStep init s) (hruns : RunsWhile iso code (Sys.Locked r) s s') :
    s'.db.lookup r = s.db.lookup r := by
  induction hruns with
  | refl => rfl
  | tail hruns hs ih =>
    exact (((h.runs (RunsBy.runs hruns)).good hv).step_locked hs.1 hs.2).trans ih

end TxLang
