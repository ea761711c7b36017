import ReliableMessaging.TxLang.Guarantee

/-!
# One call at a time

With no one else about, a program is a function: the clock, the entropy and
the answers of the world (`World`) decide everything. `solo` computes it, and
`serve` a whole sequence of calls; `reach_serve` says that the system can run
so, hence that what the functions compute is reached by some run.
-/

namespace TxLang

open List Function

open Relation (ReflTransGen)

variable {Row Ev : Type} [DecidableEq Row] {Val : Row → Type} {Ans : Ev → Type} {Call : Type}
variable {α β : Type}

/-- What a call alone finds outside the store. -/
structure World (Ans : Ev → Type) where
  clock : Nat
  random : Nat
  answer : (ev : Ev) → Option (Ans ev)

/-- What running alone leaves: a value, the committed rows, the transaction
still open, and what the log gains. -/
structure After {Row Ev : Type} (Val : Row → Type) (Ans : Ev → Type) (α : Type) where
  value : α
  db : Db Val
  tx : Option (Tx Val)
  log : List (Entry Val Ans)

section Solo

variable (iso : Isolation) (w : World Ans)

def execIn (σ : Db Val) (t : Tx Val) :
    (s : Stmt Val Ev) → After Val Ans (Option (s.Reply Ans))
  | .begin => ⟨none, σ, some t, []⟩
  | .commit => ⟨some (), t.writes ∪ σ, none, [.committed σ (t.writes ∪ σ)]⟩
  | .rollback => ⟨some (), σ, none, []⟩
  | .select => ⟨some (view iso σ (some t)), σ, some t, []⟩
  | .lock m r =>
    match (view iso σ (some t)).lookup r with
    | some v => ⟨some (some v), σ, some (t.acquire r m), []⟩
    | none => ⟨some none, σ, some t, []⟩
  | .skipLocked pick =>
    ⟨some (pick (view iso σ (some t))), σ,
      some { t with excl := (pick (view iso σ (some t))).map Sigma.fst ++ t.excl }, []⟩
  | .update f =>
    ⟨some (f (view iso σ (some t))), σ, some (t.stage (f (view iso σ (some t)))), []⟩
  | .insert rows =>
    if rows.keys.all fun r => ((view iso σ (some t)).lookup r).isNone then
      ⟨some true, σ, some (t.stage rows), []⟩
    else ⟨some false, σ, some t, []⟩
  | .now => ⟨some w.clock, σ, some t, []⟩
  | .random => ⟨some w.random, σ, some t, []⟩
  | .call ev => ⟨w.answer ev, σ, some t, [.called ev (w.answer ev)]⟩
  | .auto _ => ⟨none, σ, some t, []⟩

def execOut (σ : Db Val) : (s : Stmt Val Ev) → After Val Ans (Option (s.Reply Ans))
  | .begin => ⟨some (), σ, some { snap := σ }, []⟩
  | .select => ⟨some σ, σ, none, []⟩
  | .auto f =>
    ⟨some (w.clock, f w.clock σ), f w.clock σ ∪ σ, none, [.committed σ (f w.clock σ ∪ σ)]⟩
  | .now => ⟨some w.clock, σ, none, []⟩
  | .random => ⟨some w.random, σ, none, []⟩
  | .call ev => ⟨w.answer ev, σ, none, [.called ev (w.answer ev)]⟩
  | _ => ⟨none, σ, none, []⟩

def exec (σ : Db Val) : Option (Tx Val) → (s : Stmt Val Ev) → After Val Ans (Option (s.Reply Ans))
  | none, s => execOut w σ s
  | some t, s => execIn iso w σ t s

def solo : Prog Val Ans α → Db Val → Option (Tx Val) → After Val Ans α
  | .ret a, σ, tx => ⟨a, σ, tx, []⟩
  | .step s k, σ, tx =>
    let r := exec iso w σ tx s
    let rest := solo (k r.value) r.db r.tx
    { rest with log := r.log ++ rest.log }

/-- The first `n` statements of a program, alone; the value is the rest of it. -/
def pause : Nat → Prog Val Ans α → Db Val → Option (Tx Val) → After Val Ans (Prog Val Ans α)
  | n + 1, .step s k, σ, tx =>
    let r := exec iso w σ tx s
    let rest := pause n (k r.value) r.db r.tx
    { rest with log := r.log ++ rest.log }
  | _, p, σ, tx => ⟨p, σ, tx, []⟩

end Solo

/-- A sequence of calls, the first with number `n`: the rows and the log. -/
def serve (iso : Isolation) (code : Call → Prog Val Ans Unit) :
    Nat → List (World Ans × Call) → Db Val → Db Val × List (Nat × Entry Val Ans)
  | _, [], σ => (σ, [])
  | n, (w, call) :: rest, σ =>
    let r := solo iso w (code call) σ none
    let next := serve iso code (n + 1) rest r.db
    (next.1, r.log.map (n, ·) ++ next.2)

theorem serve_one (iso : Isolation) (code : Call → Prog Val Ans Unit) (n : Nat)
    (x : World Ans × Call) (σ : Db Val) :
    (serve iso code n [x] σ).1 = (solo iso x.1 (code x.2) σ none).db :=
  rfl

variable {iso : Isolation} {code : Call → Prog Val Ans Unit} {w : World Ans}
variable {σ : Db Val} {tx : Option (Tx Val)} {s : Sys Val Ans Call} {p n : Nat}

/-- The snapshot of an open transaction is where the rows still are. -/
def Current (σ : Db Val) (tx : Option (Tx Val)) : Prop := ∀ t, tx = some t → t.snap = σ

theorem writable_of_current {t : Tx Val} (h : Current σ (some t)) (rows : Db Val) :
    Writable iso σ t rows := by
  intro _ r _
  rw [h t rfl]
  exact Or.inr rfl

theorem exec_spec (iso : Isolation) (w : World Ans) (h : Current σ tx) (st : Stmt Val Ev) :
    Local iso [] σ tx st (exec iso w σ tx st).value (exec iso w σ tx st).db
      (exec iso w σ tx st).tx (exec iso w σ tx st).log ∧
    Current (exec iso w σ tx st).db (exec iso w σ tx st).tx := by
  cases tx with
  | none =>
    cases st with
    | begin => exact ⟨.begin, fun t ht => by cases ht; rfl⟩
    | commit => exact ⟨.lost, nofun⟩
    | rollback => exact ⟨.rollback none, nofun⟩
    | select => exact ⟨.select, nofun⟩
    | auto f => exact ⟨.auto _ nofun, nofun⟩
    | now => exact ⟨.now _, nofun⟩
    | random => exact ⟨.random _, nofun⟩
    | call ev => exact ⟨.call _, nofun⟩
    | _ => exact ⟨.fault nofun nofun nofun, nofun⟩
  | some t =>
    have hsnap := h t rfl
    have hkeep : ∀ {t' : Tx Val}, t'.snap = t.snap → Current σ (some t') := by
      intro t' hs u hu
      cases hu
      exact hs.trans hsnap
    cases st with
    | begin => exact ⟨.fault nofun nofun nofun, h⟩
    | commit => exact ⟨.commit, nofun⟩
    | rollback => exact ⟨.rollback _, nofun⟩
    | select => exact ⟨.select, h⟩
    | lock m r =>
      simp only [exec, execIn]
      split
      next v hv =>
        refine ⟨.lock hv, hkeep ?_⟩
        cases m <;> rfl
      next hv =>
        exact ⟨.lockMiss hv, h⟩
    | skipLocked pick => exact ⟨.skipLocked, hkeep rfl⟩
    | update f => exact ⟨.update (writable_of_current h _), hkeep rfl⟩
    | insert rows =>
      simp only [exec, execIn]
      split
      next hall =>
        refine ⟨.insert (fun r hr => ?_) (writable_of_current h _), hkeep rfl⟩
        exact Option.isNone_iff_eq_none.mp (all_eq_true.mp hall r hr)
      next hsome =>
        simp only [all_eq_true, not_forall] at hsome
        obtain ⟨r, hr, hv⟩ := hsome
        exact ⟨.duplicate hr fun hnone => hv (by rw [hnone]; rfl), h⟩
    | now => exact ⟨.now _, h⟩
    | random => exact ⟨.random _, h⟩
    | call ev => exact ⟨.call _, h⟩
    | auto f => exact ⟨.fault nofun nofun nofun, h⟩

/-! ## The system can run so -/

/-- No call has a transaction open, and no commit is in doubt. -/
def Sys.Idle (s : Sys Val Ans Call) : Prop :=
  s.orphans = [] ∧ ∀ q pr, s.procs q = some pr → pr.tx = none

/-- No transaction is open that is not this call's. -/
def Sys.Quiet (s : Sys Val Ans Call) (p : Nat) : Prop := ∀ u, ¬ s.Other p u

/-- The state in which one call has come to stand elsewhere. -/
def Sys.put (s : Sys Val Ans Call) (p : Nat) (pr : Proc Val Ans Call) (db : Db Val)
    (new : List (Entry Val Ans)) : Sys Val Ans Call :=
  ⟨db, Function.update s.procs p (some pr), s.orphans, s.log ++ new.map (p, ·)⟩

omit [DecidableEq Row] in
theorem Sys.Quiet.put (h : s.Quiet p) (pr : Proc Val Ans Call) (db : Db Val)
    (new : List (Entry Val Ans)) : (s.put p pr db new).Quiet p := by
  rintro u (⟨q, pr', hne, hpr, hu⟩ | hu)
  · exact h u (.inl ⟨q, pr', hne, update_other_eq hne hpr, hu⟩)
  · exact h u (.inr hu)

/-- A step leaves the rows alone, or a call moves them by `moves`. -/
def Moved (iso : Isolation) (moves : Call → Db Val → Db Val → Prop) (a b : Sys Val Ans Call) :
    Prop :=
  b.db = a.db ∨ ∃ call, a.MayLeave iso call b.db ∧ moves call a.db b.db

/-- A step that starts no call is `ok`, if it leaves the rows alone or its call
moves them by `moves`. -/
def FreeBetween (iso : Isolation) (code : Call → Prog Val Ans Unit)
    (moves : Call → Db Val → Db Val → Prop) (ok : Sys Val Ans Call → Sys Val Ans Call → Prop) :
    Prop :=
  ∀ a b, Step iso code a b → (∀ q, a.procs q = none → b.procs q = none) →
    Moved iso moves a b → ok a b

theorem freeBetween_startsWhen (may : Call → List (Nat × Entry Val Ans) → Prop) :
    FreeBetween iso code (fun _ _ _ => True) (StartsWhen code may) := by
  rintro a b _ hnone _ p call hp rfl
  have hstarted := hnone p hp
  simp only [Sys.spawned, update_self] at hstarted
  cases hstarted

theorem exec_db (iso : Isolation) (w : World Ans) (σ : Db Val) (tx : Option (Tx Val))
    (st : Stmt Val Ev) : (exec iso w σ tx st).db = σ ∨
      Entry.committed σ (exec iso w σ tx st).db ∈ (exec iso w σ tx st).log := by
  cases tx with
  | none =>
    cases st with
    | auto f => exact .inr mem_cons_self
    | _ => exact .inl rfl
  | some t =>
    cases st with
    | commit => exact .inr mem_cons_self
    | lock m r =>
      simp only [exec, execIn]
      split <;> exact .inl rfl
    | insert rows =>
      simp only [exec, execIn]
      split <;> exact .inl rfl
    | _ => exact .inl rfl

variable {ok : Sys Val Ans Call → Sys Val Ans Call → Prop}
variable {moves : Call → Db Val → Db Val → Prop}

omit [DecidableEq Row] in
theorem update_started {procs : Nat → Option (Proc Val Ans Call)} {pr pr' : Proc Val Ans Call}
    (hp : procs p = some pr) (q : Nat) (hq : procs q = none) :
    Function.update procs p (some pr') q = none := by
  have hne : q ≠ p := by
    rintro rfl
    rw [hp] at hq
    cases hq
  rw [update_of_ne hne, hq]

variable {call : Call} {prog : Prog Val Ans Unit} {init : Db Val → Prop}

theorem step_exec (iso : Isolation) (code : Call → Prog Val Ans Unit) (w : World Ans)
    {st : Stmt Val Ev} {k : Option (st.Reply Ans) → Prog Val Ans Unit} (hq : s.Quiet p)
    (hp : s.procs p = some ⟨call, .step st k, tx⟩) (hc : Current s.db tx) :
    Step iso code s (s.put p ⟨call, k (exec iso w s.db tx st).value, (exec iso w s.db tx st).tx⟩
      (exec iso w s.db tx st).db (exec iso w s.db tx st).log) := by
  refine Step.run p hp rfl (fun row => ?_) (exec_spec iso w hc st).1
    fun t _ u hu => absurd hu (hq u)
  constructor
  · intro hm
    cases hm
  · rintro ⟨u, hu, _⟩
    exact absurd hu (hq u)

theorem runs_pause (iso : Isolation) (code : Call → Prog Val Ans Unit) (w : World Ans) {n : Nat}
    (hq : s.Quiet p) (hp : s.procs p = some ⟨call, prog, tx⟩) (hc : Current s.db tx) :
    Runs iso code s (s.put p ⟨call, (pause iso w n prog s.db tx).value,
      (pause iso w n prog s.db tx).tx⟩ (pause iso w n prog s.db tx).db
      (pause iso w n prog s.db tx).log) := by
  have hsame : s.put p ⟨call, prog, tx⟩ s.db [] = s := by
    obtain ⟨db, procs, orphans, log⟩ := s
    simp only [Sys.put, map_nil, append_nil]
    congr
    rw [← hp]
    exact update_eq_self p procs
  induction n generalizing s tx prog with
  | zero =>
    simp only [pause, hsame]
    exact .refl
  | succ n ih =>
    cases prog with
    | ret a =>
      simp only [pause, hsame]
      exact .refl
    | step st k =>
      have hstep := step_exec iso code w hq hp hc
      have hcur := (exec_spec iso w hc st).2
      simp only [pause]
      generalize exec iso w s.db tx st = r at hstep hcur
      have hrest := ih (hq.put ⟨call, k r.value, r.tx⟩ r.db r.log) (update_self _ _ _) hcur
        (by simp [Sys.put, update_idem])
      simp only [Sys.put, update_idem, append_assoc, ← map_append] at hrest ⊢
      exact .head hstep hrest

/-- The first part of a program can run alone, up to where the rest begins. -/
theorem runs_solo (hok : FreeBetween iso code moves ok) (w : World Ans) (hq : s.Quiet p)
    {prog : Prog Val Ans α} {g : α → Prog Val Ans Unit}
    (hp : s.procs p = some ⟨call, prog.bind g, tx⟩) (hc : Current s.db tx)
    (hm : ∀ a b, Entry.committed a b ∈ (solo iso w prog s.db tx).log → moves call a b) :
    RunsBy iso code ok s (s.put p ⟨call, g (solo iso w prog s.db tx).value,
      (solo iso w prog s.db tx).tx⟩ (solo iso w prog s.db tx).db (solo iso w prog s.db tx).log) := by
  induction prog generalizing s tx with
  | ret a =>
    have hsame : s.put p ⟨call, g a, tx⟩ s.db [] = s := by
      obtain ⟨db, procs, orphans, log⟩ := s
      simp only [Sys.put, map_nil, append_nil]
      congr
      exact (congrArg (update procs p) hp.symm).trans (update_eq_self p procs)
    simp only [solo, hsame]
    exact .refl
  | step st k ih =>
    obtain ⟨hlocal, hcur⟩ := exec_spec iso w hc st
    have hstep := step_exec iso code w hq hp hc
    have hdb := exec_db iso w s.db tx st
    simp only [solo, mem_append] at hm ⊢
    generalize exec iso w s.db tx st = r at hstep hlocal hcur hdb hm
    have hleft : s.MayLeave iso call r.db :=
      .inl ⟨p, _, hp, rfl, _, hp, st, _, [], _, _, _, rfl, hlocal⟩
    have hfree := hok _ _ hstep (update_started hp)
      (hdb.imp_right fun h => ⟨call, hleft, hm _ _ (.inl h)⟩)
    have hrest := ih r.value (hq.put _ r.db r.log) (update_self _ _ _) hcur
      fun a b h => hm a b (.inr h)
    simp only [Sys.put, update_idem, append_assoc, ← map_append] at hrest ⊢
    exact .head ⟨hstep, hfree⟩ hrest

omit [DecidableEq Row] in
theorem Sys.Idle.quiet (h : s.Idle) (p : Nat) : s.Quiet p := by
  rintro u (⟨q, pr, _, hpr, hu⟩ | ⟨o, ho, _⟩)
  · rw [h.2 q pr hpr] at hu
    cases hu
  · rw [h.1] at ho
    cases ho

omit [DecidableEq Row] in
theorem Sys.Idle.spawned (h : s.Idle) (code : Call → Prog Val Ans Unit) (p : Nat) (call : Call) :
    (s.spawned code p call).Idle := by
  refine ⟨h.1, fun q pr hq => ?_⟩
  by_cases hqp : q = p
  · subst hqp
    rw [update_self_eq hq]
  · exact h.2 q pr (update_other_eq hqp hq)

/-- A call can start in an idle system and stop between transactions. -/
theorem runs_started (iso : Isolation) (code : Call → Prog Val Ans Unit) (w : World Ans)
    (call : Call) (n : Nat) (hidle : s.Idle) (hp : s.procs p = none)
    (htx : (pause iso w n (code call) s.db none).tx = none) :
    ∃ s', Runs iso code s s' ∧ s'.Idle ∧
      s'.procs p = some ⟨call, (pause iso w n (code call) s.db none).value, none⟩ ∧
      (∀ q, q ≠ p → s'.procs q = s.procs q) ∧
      s'.db = (pause iso w n (code call) s.db none).db := by
  have hspawned := hidle.spawned code p call
  have hrun := runs_pause (n := n) iso code w (hspawned.quiet p) (update_self _ _ _) nofun
  rw [show (s.spawned code p call).db = s.db from rfl, htx] at hrun
  refine ⟨_, .head (.spawn p call hp) hrun, ⟨hidle.1, fun q pr hq => ?_⟩,
    update_self _ _ _, fun q hne => ?_, rfl⟩
  · by_cases hqp : q = p
    · subst hqp
      rw [update_self_eq hq]
    · exact hspawned.2 q pr (update_other_eq hqp hq)
  · simp [Sys.put, Sys.spawned, update_of_ne hne]

def Prog.atCommit : Prog Val Ans α → Bool
  | .step .commit _ => true
  | _ => false

/-- A call can start in an idle system and come to its commit: then it may
leave what it has staged. -/
theorem mayLeave_pause (iso : Isolation) (code : Call → Prog Val Ans Unit) (w : World Ans)
    (call : Call) (n : Nat) {t : Tx Val} (hidle : s.Idle) (hp : s.procs p = none)
    (htx : (pause iso w n (code call) s.db none).tx = some t)
    (hcommit : (pause iso w n (code call) s.db none).value.atCommit = true) :
    ∃ s', Runs iso code s s' ∧ s'.db = (pause iso w n (code call) s.db none).db ∧
      s'.MayLeave iso call (t.writes ∪ s'.db) := by
  obtain ⟨k, hk⟩ : ∃ k, (pause iso w n (code call) s.db none).value = .step .commit k := by
    revert hcommit
    generalize (pause iso w n (code call) s.db none).value = prog
    intro hcommit
    unfold Prog.atCommit at hcommit
    split at hcommit
    · exact ⟨_, rfl⟩
    · cases hcommit
  have hspawned := hidle.spawned code p call
  have hrun := runs_pause (n := n) iso code w (hspawned.quiet p) (update_self _ _ _) nofun
  rw [show (s.spawned code p call).db = s.db from rfl, htx, hk] at hrun
  exact ⟨_, .head (.spawn p call hp) hrun, rfl, .inl ⟨p, _, update_self _ _ _, rfl, _,
    update_self _ _ _, .commit, k, [], _, _, _, rfl, .commit⟩⟩

theorem runs_call (hok : FreeBetween iso code moves ok) (w : World Ans) (call : Call)
    (hidle : s.Idle) (hp : s.procs p = none) (hstart : ok s (s.spawned code p call))
    (hm : ∀ a b, Entry.committed a b ∈ (solo iso w (code call) s.db none).log → moves call a b) :
    ∃ s', RunsBy iso code ok s s' ∧ s'.Idle ∧ (∀ q, q ≠ p → s'.procs q = s.procs q) ∧
      s'.db = (solo iso w (code call) s.db none).db ∧
      s'.log = s.log ++ (solo iso w (code call) s.db none).log.map (p, ·) ∧
      s'.procs p = some ⟨call, .ret (), none⟩ := by
  have hp' : (s.spawned code p call).procs p = some ⟨call, (code call).bind .ret, none⟩ := by
    rw [Prog.bind_ret]
    exact update_self _ _ _
  have hrun := runs_solo hok w ((hidle.spawned code p call).quiet p) hp' nofun hm
  obtain ⟨horphans, htx⟩ := hidle
  rw [show (s.spawned code p call).db = s.db from rfl] at hrun
  generalize solo iso w (code call) s.db none = r at hrun ⊢
  have hend : ((s.spawned code p call).put p ⟨call, .ret (), r.tx⟩ r.db r.log).procs p =
      some ⟨call, .ret (), r.tx⟩ := update_self _ _ _
  have hcrash : Step iso code _ _ := .crash p hend
  have hfree := hok _ _ hcrash (update_started hend) (.inl rfl)
  -- whatever is still open ends with the call
  refine ⟨_, (ReflTransGen.head ⟨.spawn p call hp, hstart⟩ hrun).tail ⟨hcrash, hfree⟩,
    ⟨horphans, ?_⟩, fun q hne => ?_, rfl, rfl, update_self _ _ _⟩
  · intro q pr hq
    by_cases hqp : q = p
    · subst hqp
      rw [update_self_eq hq]
    · exact htx q pr (update_other_eq hqp (update_other_eq hqp (update_other_eq hqp hq)))
  · simp [Sys.put, Sys.spawned, update_of_ne hne]

/-- Each call of the sequence may start when its turn comes. -/
def MayServe (iso : Isolation) (code : Call → Prog Val Ans Unit)
    (may : Call → List (Nat × Entry Val Ans) → Prop) :
    Nat → List (World Ans × Call) → Db Val → List (Nat × Entry Val Ans) → Prop
  | _, [], _, _ => True
  | n, (w, call) :: rest, σ, log =>
    may call log ∧ MayServe iso code may (n + 1) rest (solo iso w (code call) σ none).db
      (log ++ (solo iso w (code call) σ none).log.map (n, ·))

/-- The commits of a sequence of calls. -/
def commitsOf (iso : Isolation) (code : Call → Prog Val Ans Unit) :
    List (World Ans × Call) → Db Val → List (Call × Db Val × Db Val)
  | [], _ => []
  | (w, call) :: rest, σ =>
    ((solo iso w (code call) σ none).log.filterMap fun
      | .committed a b => some (call, a, b)
      | _ => none) ++ commitsOf iso code rest (solo iso w (code call) σ none).db

variable {may : Call → List (Nat × Entry Val Ans) → Prop}

theorem runs_serve (hok : FreeBetween iso code moves ok)
    (hstart : ∀ s p call, s.procs p = none → may call s.log → ok s (s.spawned code p call))
    (calls : List (World Ans × Call)) (hidle : s.Idle) (hfree : ∀ m, n ≤ m → s.procs m = none)
    (hmay : MayServe iso code may n calls s.db s.log)
    (hm : ∀ c ∈ commitsOf iso code calls s.db, moves c.1 c.2.1 c.2.2) :
    ∃ s', RunsBy iso code ok s s' ∧ s'.Idle ∧
      (∀ m, n + calls.length ≤ m → s'.procs m = none) ∧
      s'.db = (serve iso code n calls s.db).1 ∧
      s'.log = s.log ++ (serve iso code n calls s.db).2 := by
  induction calls generalizing s n with
  | nil => exact ⟨s, .refl, hidle, hfree, rfl, (append_nil _).symm⟩
  | cons head rest ih =>
    obtain ⟨w, call⟩ := head
    obtain ⟨hmay1, hmay2⟩ := hmay
    simp only [commitsOf, mem_append, mem_filterMap] at hm
    have hn := hfree n (Nat.le_refl n)
    obtain ⟨s1, hruns1, hidle1, hsame, hdb1, hlog1, _⟩ :=
      runs_call hok w call hidle hn (hstart s n call hn hmay1)
        fun a b h => hm (call, a, b) (.inl ⟨_, h, rfl⟩)
    have hfree1 : ∀ m, n + 1 ≤ m → s1.procs m = none := by
      intro m hle
      rw [hsame m (by omega)]
      exact hfree m (by omega)
    rw [← hdb1, ← hlog1] at hmay2
    obtain ⟨s2, hruns2, hidle2, hfree2, hdb2, hlog2⟩ := ih hidle1 hfree1 hmay2
      fun c h => hm c (.inr (hdb1 ▸ h))
    refine ⟨s2, hruns1.trans hruns2, hidle2, fun m hle => hfree2 m ?_, ?_, ?_⟩
    · rw [length_cons] at hle
      omega
    · rw [hdb2, hdb1]
      rfl
    · rw [hlog2, hlog1, hdb1, append_assoc]
      rfl

/-- What a sequence of calls computes from initial rows is reached. -/
theorem reach_serve_by (hok : FreeBetween iso code moves ok)
    (hstart : ∀ s p call, s.procs p = none → may call s.log → ok s (s.spawned code p call))
    (hinit : init σ) (calls : List (World Ans × Call)) (hmay : MayServe iso code may 0 calls σ [])
    (hm : ∀ c ∈ commitsOf iso code calls σ, moves c.1 c.2.1 c.2.2) :
    ∃ s : Sys Val Ans Call, Reach iso code ok init s ∧ s.Idle ∧
      (∀ m, calls.length ≤ m → s.procs m = none) ∧
      s.db = (serve iso code 0 calls σ).1 ∧ s.log = (serve iso code 0 calls σ).2 := by
  have hbegin : Reach iso code ok init (Sys.start σ) := .start hinit
  obtain ⟨s, hruns, hidle, hfree, hdb, hlog⟩ :=
    runs_serve (s := Sys.start σ) (n := 0) hok hstart calls ⟨rfl, nofun⟩ (fun m _ => rfl) hmay hm
  refine ⟨s, hbegin.runsBy hruns, hidle, fun m hm => hfree m (by omega), hdb, ?_⟩
  rw [hlog]
  rfl

theorem reach_serve (iso : Isolation) (code : Call → Prog Val Ans Unit)
    (may : Call → List (Nat × Entry Val Ans) → Prop) (hinit : init σ)
    (calls : List (World Ans × Call)) (hmay : MayServe iso code may 0 calls σ []) :
    ∃ s : Sys Val Ans Call, Reach iso code (StartsWhen code may) init s ∧ s.Idle ∧
      (∀ m, calls.length ≤ m → s.procs m = none) ∧
      s.db = (serve iso code 0 calls σ).1 ∧ s.log = (serve iso code 0 calls σ).2 := by
  refine reach_serve_by (freeBetween_startsWhen may) ?_ hinit calls hmay fun _ _ => trivial
  intro s p call hp hmay q call' hq hsame
  have hprocs := congrFun (congrArg Sys.procs hsame) q
  by_cases hqp : q = p
  · subst hqp
    simp only [Sys.spawned, update_self, Option.some.injEq] at hprocs
    cases hprocs
    exact hmay
  · simp only [Sys.spawned, update_self, update_of_ne hqp, hq] at hprocs
    cases hprocs

theorem mayServe_true (iso : Isolation) (code : Call → Prog Val Ans Unit)
    (calls : List (World Ans × Call)) (n : Nat) (σ : Db Val) (log : List (Nat × Entry Val Ans)) :
    MayServe iso code (fun _ _ => True) n calls σ log := by
  induction calls generalizing n σ log with
  | nil => trivial
  | cons head rest ih => exact ⟨trivial, ih _ _ _⟩

/-- A run in which every step has moved the rows by a call's move, with its commits. -/
theorem Reach.trace_moved (h : Reach iso code (Moved iso moves) init s) :
    ∃ commits, Trace iso code anyStep init s commits ∧
      ∀ c ∈ commits, moves c.1 c.2.1 c.2.2 := by
  induction h with
  | start h => exact ⟨[], .start h, nofun⟩
  | step _ hs hok ih =>
    obtain ⟨commits, htrace, hall⟩ := ih
    rcases hok with hsame | ⟨call, hleft, hmoves⟩
    · exact ⟨commits, htrace.quiet hs trivial hsame, hall⟩
    · refine ⟨_, htrace.commit hs trivial hleft, fun c hc => ?_⟩
      rcases mem_append.mp hc with hc | hc
      · exact hall c hc
      · cases mem_singleton.mp hc
        exact hmoves

/-- What a sequence of calls computes is reached by a run with commits of their
calls. -/
theorem trace_serve (iso : Isolation) (code : Call → Prog Val Ans Unit)
    (moves : Call → Db Val → Db Val → Prop) (hinit : init σ) (calls : List (World Ans × Call))
    (hm : ∀ c ∈ commitsOf iso code calls σ, moves c.1 c.2.1 c.2.2) :
    ∃ (s : Sys Val Ans Call) (commits : List (Call × Db Val × Db Val)),
      Trace iso code anyStep init s commits ∧ (∀ c ∈ commits, moves c.1 c.2.1 c.2.2) ∧
      s.db = (serve iso code 0 calls σ).1 := by
  have hok : FreeBetween iso code moves (Moved iso moves) := fun _ _ _ _ h => h
  obtain ⟨s, hr, _, _, hdb, _⟩ := reach_serve_by hok (fun _ _ _ _ _ => .inl rfl) hinit calls
    (mayServe_true iso code calls 0 σ []) hm
  obtain ⟨commits, htrace, hall⟩ := hr.trace_moved
  exact ⟨s, commits, htrace, hall, hdb⟩

/-- One sequence of calls, and one that follows it. -/
theorem reach_runs_serve (iso : Isolation) (code : Call → Prog Val Ans Unit) (hinit : init σ)
    (first rest : List (World Ans × Call)) :
    ∃ s s' : Sys Val Ans Call, Reach iso code anyStep init s ∧ Runs iso code s s' ∧
      s.db = (serve iso code 0 first σ).1 ∧
      s'.db = (serve iso code first.length rest (serve iso code 0 first σ).1).1 := by
  obtain ⟨s, hr, hidle, hfree, hdb, _⟩ := reach_serve iso code (fun _ _ => True) hinit first
    (mayServe_true iso code first 0 σ [])
  obtain ⟨s', hruns, _, _, hdb', _⟩ := runs_serve (freeBetween_startsWhen fun _ _ => True)
    (fun _ _ _ _ _ _ _ _ _ => trivial) rest hidle hfree
    (mayServe_true iso code rest first.length s.db s.log) fun _ _ => trivial
  exact ⟨s, s', hr.mono fun _ _ _ => trivial, hruns.runs, hdb, hdb ▸ hdb'⟩

/-- One sequence of calls, and a call after it that asks and commits nothing:
it runs to its end and leaves the rows alone. -/
theorem reach_refused (iso : Isolation) (code : Call → Prog Val Ans Unit)
    (may : Call → List (Nat × Entry Val Ans) → Prop) (hinit : init σ)
    (first : List (World Ans × Call)) (hmay : MayServe iso code may 0 first σ []) (w : World Ans)
    (call : Call)
    (hlog : (solo iso w (code call) (serve iso code 0 first σ).1 none).log.isEmpty = true) :
    ∃ s s' : Sys Val Ans Call, Reach iso code (StartsWhen code may) init s ∧
      s.db = (serve iso code 0 first σ).1 ∧ s'.db = s.db ∧
      (∀ ok : Sys Val Ans Call → Sys Val Ans Call → Prop,
        (∀ a b, a.db = s.db → b.db = s.db → ok a b) → RunsBy iso code ok s s') ∧
      s'.procs first.length = some ⟨call, .ret (), none⟩ := by
  obtain ⟨s, hr, hidle, hfree, hdb, _⟩ := reach_serve iso code may hinit first hmay
  rw [← hdb, List.isEmpty_iff] at hlog
  have hsame : FreeBetween iso code (fun _ _ _ => False) fun a b => b.db = a.db :=
    fun _ _ _ _ h => h.resolve_right fun ⟨_, _, hfalse⟩ => hfalse
  obtain ⟨s', hruns, -, -, -, -, hend⟩ := runs_call hsame w call hidle (hfree _ (Nat.le_refl _)) rfl
    (by rw [hlog]; nofun)
  have hkept : s'.db = s.db ∧ ∀ ok : Sys Val Ans Call → Sys Val Ans Call → Prop,
      (∀ a b, a.db = s.db → b.db = s.db → ok a b) → RunsBy iso code ok s s' := by
    clear hend
    induction hruns with
    | refl => exact ⟨rfl, fun _ _ => .refl⟩
    | tail _ hs ih =>
      have hnext := hs.2.trans ih.1
      exact ⟨hnext, fun ok hok => (ih.2 ok hok).tail ⟨hs.1, hok _ _ ih.1 hnext⟩⟩
  exact ⟨s, s', hr, hdb, hkept.1, hkept.2, hend⟩

/-! ## Rules for code that runs alone -/

section Alone

variable {Err : Type} {x : Code Err Val Ans α} {f : α → Code Err Val Ans β} {t : Tx Val}
variable {Q : α → Db Val → Option (Tx Val) → Prop}

/-- Alone, the code returns a value without an error, and what it leaves
satisfies `Q`. -/
def Alone (iso : Isolation) (w : World Ans) (x : Code Err Val Ans α)
    (Q : α → Db Val → Option (Tx Val) → Prop) (σ : Db Val) (tx : Option (Tx Val)) : Prop :=
  ∃ a, (solo iso w x.run σ tx).value = .ok a ∧
    Q a (solo iso w x.run σ tx).db (solo iso w x.run σ tx).tx

theorem solo_bind (p : Prog Val Ans α) (g : α → Prog Val Ans β) :
    let r := solo iso w p σ tx
    let r' := solo iso w (g r.value) r.db r.tx
    solo iso w (p.bind g) σ tx = { r' with log := r.log ++ r'.log } := by
  induction p generalizing σ tx with
  | ret a => rfl
  | step st k ih => simp [Prog.bind, solo, ih]

variable {a : α} {e : Err}

theorem alone_pure (h : Q a σ tx) : Alone iso w (pure a : Code Err Val Ans α) Q σ tx :=
  ⟨a, rfl, h⟩

theorem alone_bind {Q : β → Db Val → Option (Tx Val) → Prop}
    (h : Alone iso w x (fun a σ' tx' => Alone iso w (f a) Q σ' tx') σ tx) :
    Alone iso w (x >>= f) Q σ tx := by
  obtain ⟨a, ha, b, hb, hQ⟩ := h
  have hrun : solo iso w (x >>= f).run σ tx = _ := solo_bind x.run (ExceptT.bindCont f)
  rw [ha] at hrun
  refine ⟨b, ?_, ?_⟩ <;> rw [hrun]
  exacts [hb, hQ]

theorem alone_refuse {b : Bool} {Q : Unit → Db Val → Option (Tx Val) → Prop} (hb : b = false)
    (h : Q () σ tx) : Alone iso w (refuse b e : Code Err Val Ans Unit) Q σ tx := by
  subst hb
  exact alone_pure h

theorem alone_lift {y : Except Err α} (hy : y = .ok a) (h : Q a σ tx) :
    Alone iso w (lift y : Code Err Val Ans α) Q σ tx := by
  subst hy
  exact ⟨a, rfl, h⟩

theorem alone_found {o : Option α} (ho : o = some a) (h : Q a σ tx) :
    Alone iso w (found o e : Code Err Val Ans α) Q σ tx := by
  subst ho
  exact alone_pure h

theorem alone_send {st : Stmt Val Ev} {r : st.Reply Ans}
    {Q : st.Reply Ans → Db Val → Option (Tx Val) → Prop} (hr : (exec iso w σ tx st).value = some r)
    (h : Q r (exec iso w σ tx st).db (exec iso w σ tx st).tx) :
    Alone iso w (send e st : Code Err Val Ans _) Q σ tx := by
  refine ⟨r, ?_, ?_⟩ <;> simp [send, ExceptT.run_mk, solo, hr]
  exact h

/-- A row that is there is locked. -/
theorem alone_lock {m : Mode} {r : Row} {v : Val r}
    {Q : Option (Val r) → Db Val → Option (Tx Val) → Prop}
    (hv : (view iso σ (some t)).lookup r = some v) (h : Q (some v) σ (some (t.acquire r m))) :
    Alone iso w (send e (.lock m r) : Code Err Val Ans (Option (Val r))) Q σ (some t) := by
  have hexec : exec iso w σ (some t) (.lock m r : Stmt Val Ev) =
      ⟨some (some v), σ, some (t.acquire r m), []⟩ := by
    simp [exec, execIn, hv]
  refine ⟨some v, ?_, ?_⟩ <;> simp [send, ExceptT.run_mk, solo, hexec]
  exact h

theorem alone_withTx {fault : Err}
    (h : Alone iso w x (fun a σ' _ => Q a σ' none) σ (some { snap := σ })) :
    Alone iso w (withTx fault x) Q σ none := by
  obtain ⟨a, ha, hQ⟩ := h
  have hbegin : exec iso w σ none (.begin : Stmt Val Ev) =
      ⟨some (), σ, some { snap := σ }, []⟩ := rfl
  have hend : ∀ (σ' : Db Val) (tx' : Option (Tx Val)),
      (exec iso w σ' tx' (.rollback : Stmt Val Ev)).db = σ' ∧
        (exec iso w σ' tx' (.rollback : Stmt Val Ev)).tx = none := by
    intro σ' tx'
    cases tx' <;> exact ⟨rfl, rfl⟩
  refine ⟨a, ?_, ?_⟩ <;> simp [withTx, ExceptT.run_mk, solo, hbegin, solo_bind, hend, ha]
  exact hQ

/-- What a call alone does, an idle system can do. -/
theorem Alone.runs {call : Call} (hcode : code call = ignore x.run)
    (h : Alone iso w x Q s.db none) (hidle : s.Idle) (hp : s.procs p = none) :
    ∃ s' a tx, Runs iso code s s' ∧ Q a s'.db tx := by
  obtain ⟨a, ha, hQ⟩ := h
  have hany : FreeBetween iso code (fun _ _ _ => True) anyStep := fun _ _ _ _ _ => trivial
  obtain ⟨s', hruns, _, _, hdb, _⟩ := runs_call hany w call hidle hp trivial fun _ _ _ => trivial
  refine ⟨s', a, (solo iso w x.run s.db none).tx, hruns.runs, ?_⟩
  rw [hdb, hcode, ignore, solo_bind]
  exact hQ

end Alone

end TxLang
