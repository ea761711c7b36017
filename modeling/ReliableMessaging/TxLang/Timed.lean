import ReliableMessaging.TxLang.Sequential
import ReliableMessaging.TxLang.Shape

/-!
# The engine with a clock

In `TxLang.Engine` a clock reading is any number, and a call that has returned
leaves nothing behind. Here the database has one clock, which never goes back;
a call keeps what its program returned; and a run keeps its commits with the
clients they come from. Nothing else is different: a timed run, with all this
forgotten, is a run of the engine (`Runs.erases`), so its locks exclude each
other as they do there (`Runs.locked`).
-/


namespace TxLang.Timed

open List Function Option

/-- A call in progress. A program that has returned is its value; there is none
if the process has died. -/
structure Client {Row Ev : Type} (Val : Row → Type) (Ans : Ev → Type) (Call Res : Type) where
  call : Call
  prog : Option (Prog Val Ans Res)
  tx : Option (Tx Val)

/-- A commit in doubt, and the client that has lost sight of it. -/
structure Doubt {Row : Type} (Val : Row → Type) (Call : Type) where
  client : Nat
  call : Call
  tx : Tx Val

/-- A commit: whose it is, the rows it found and the rows it left. -/
structure Commit {Row : Type} (Val : Row → Type) (Call : Type) where
  client : Nat
  call : Call
  before : Db Val
  after : Db Val

/-- The clock, the committed rows, the clients by number, and the commits in doubt. -/
structure Sys {Row Ev : Type} (Val : Row → Type) (Ans : Ev → Type) (Call Res : Type) where
  clock : Nat
  db : Db Val
  clients : Nat → Option (Client Val Ans Call Res)
  doubts : List (Doubt Val Call)

variable {Row Ev : Type} {Val : Row → Type} {Ans : Ev → Type} {Call Res : Type}

def Sys.start (clock : Nat) (σ : Db Val) : Sys Val Ans Call Res :=
  { clock := clock, db := σ, clients := fun _ => none, doubts := [] }

/-- An open transaction that is not this client's own. -/
def Sys.Other (s : Sys Val Ans Call Res) (p : Nat) (t : Tx Val) : Prop :=
  (∃ q c, q ≠ p ∧ s.clients q = some c ∧ c.tx = some t) ∨ ∃ o ∈ s.doubts, o.tx = t

def Sys.Returned (s : Sys Val Ans Call Res) (p : Nat) (call : Call) (a : Res) : Prop :=
  ∃ c, s.clients p = some c ∧ c.call = call ∧ c.prog = some (.ret a)

section

variable [DecidableEq Row]

/-- A statement that reads the clock reads this time; one whose reply was lost
has run at this time or not at all. -/
def ReadsClock (clock : Nat) (σ σ' : Db Val) :
    (st : Stmt Val Ev) → Option (st.Reply Ans) → Prop
  | .now, some (n : Nat) => n = clock
  | .auto _, some (reply : Nat × Db Val) => reply.1 = clock
  | .auto f, none => σ' = σ ∨ σ' = f clock σ ∪ σ
  | _, _ => True

/-- One step of the system; with it the client whose transaction it commits, if
any. `allow` is what the run promises of every statement, given the rows that
others hold. -/
inductive Step (iso : Isolation) (code : Call → Prog Val Ans Res)
    (allow : List Row → Stmt Val Ev → Prop) :
    Sys Val Ans Call Res → Option (Nat × Call) → Sys Val Ans Call Res → Prop
  | tick {s : Sys Val Ans Call Res} (later : Nat) (h : s.clock ≤ later) :
      Step iso code allow s none { s with clock := later }
  | spawn {s : Sys Val Ans Call Res} (p : Nat) (call : Call) (hp : s.clients p = none) :
      Step iso code allow s none
        { s with clients := Function.update s.clients p (some ⟨call, some (code call), none⟩) }
  | run {s : Sys Val Ans Call Res} (p : Nat) {c : Client Val Ans Call Res} {st : Stmt Val Ev}
      {k : Option (st.Reply Ans) → Prog Val Ans Res} {busy : List Row}
      {r : Option (st.Reply Ans)} {σ : Db Val} {tx : Option (Tx Val)}
      {new : List (Entry Val Ans)} (hp : s.clients p = some c)
      (hprog : c.prog = some (.step st k)) (hallow : allow busy st)
      (hbusy : ∀ row, row ∈ busy ↔ ∃ t, s.Other p t ∧ t.Holds row)
      (hlocal : Local iso busy s.db c.tx st r σ tx new)
      (hclock : ReadsClock s.clock s.db σ st r)
      (hfree : ∀ t, tx = some t → ∀ u, s.Other p u → t.Compat u) :
      Step iso code allow s (if st.publishes then some (p, c.call) else none)
        { s with
          db := σ
          clients := Function.update s.clients p (some { c with prog := some (k r), tx := tx }) }
  | crash {s : Sys Val Ans Call Res} (p : Nat) {c : Client Val Ans Call Res}
      (hp : s.clients p = some c) :
      Step iso code allow s none
        { s with
          clients := Function.update s.clients p (some { c with prog := none, tx := none }) }
  | lost {s : Sys Val Ans Call Res} (p : Nat) {c : Client Val Ans Call Res} {t : Tx Val}
      {k : Option ((Stmt.commit : Stmt Val Ev).Reply Ans) → Prog Val Ans Res}
      (hp : s.clients p = some c) (hprog : c.prog = some (.step .commit k))
      (ht : c.tx = some t) :
      Step iso code allow s none
        { s with
          clients := Function.update s.clients p (some { c with prog := some (k none), tx := none })
          doubts := ⟨p, c.call, t⟩ :: s.doubts }
  | doubtCommit {s : Sys Val Ans Call Res} {o : Doubt Val Call} {l m : List (Doubt Val Call)}
      (h : s.doubts = l ++ o :: m) :
      Step iso code allow s (some (o.client, o.call))
        { s with db := o.tx.writes ∪ s.db, doubts := l ++ m }
  | doubtRollback {s : Sys Val Ans Call Res} {o : Doubt Val Call} {l m : List (Doubt Val Call)}
      (h : s.doubts = l ++ o :: m) :
      Step iso code allow s none { s with doubts := l ++ m }

def committed (e : Option (Nat × Call)) (σ σ' : Db Val) : List (Commit Val Call) :=
  e.toList.map fun x => ⟨x.1, x.2, σ, σ'⟩

/-- Any number of steps, with their commits, oldest first. -/
inductive Runs (iso : Isolation) (code : Call → Prog Val Ans Res)
    (allow : List Row → Stmt Val Ev → Prop) (s0 : Sys Val Ans Call Res) :
    List (Commit Val Call) → Sys Val Ans Call Res → Prop
  | refl : Runs iso code allow s0 [] s0
  | step {commits : List (Commit Val Call)} {s s' : Sys Val Ans Call Res}
      {e : Option (Nat × Call)} (h : Runs iso code allow s0 commits s)
      (hs : Step iso code allow s e s') :
      Runs iso code allow s0 (commits ++ committed e s.db s'.db) s'

/-- No promise at all. -/
def anyStatement (_ : List Row) (_ : Stmt Val Ev) : Prop := True

variable {iso : Isolation} {code : Call → Prog Val Ans Res}
variable {allow : List Row → Stmt Val Ev → Prop} {s s' s0 : Sys Val Ans Call Res}
variable {e : Option (Nat × Call)} {commits : List (Commit Val Call)} {p : Nat}

/-! ## A timed run is a run -/

/-- The client as the engine has it. -/
def Client.erase (c : Client Val Ans Call Res) : Proc Val Ans Call where
  call := c.call
  prog := match c.prog with
    | some q => ignore q
    | none => .ret ()
  tx := c.tx

/-- The engine's system is this one, with the clock and the results forgotten. -/
structure Erases (s : Sys Val Ans Call Res) (u : TxLang.Sys Val Ans Call) : Prop where
  db : u.db = s.db
  procs : ∀ p, u.procs p = (s.clients p).map Client.erase
  orphans : u.orphans.map (·.tx) = s.doubts.map (·.tx)

variable {u : TxLang.Sys Val Ans Call}

omit [DecidableEq Row] in
theorem Erases.other (h : Erases s u) {t : Tx Val} : u.Other p t ↔ s.Other p t := by
  refine or_congr ⟨?_, ?_⟩ ?_
  · rintro ⟨q, pr, hne, hq, ht⟩
    rw [h.procs, map_eq_some_iff] at hq
    obtain ⟨c, hc, rfl⟩ := hq
    exact ⟨q, c, hne, hc, ht⟩
  · rintro ⟨q, c, hne, hq, ht⟩
    exact ⟨q, c.erase, hne, by rw [h.procs, hq, map_some], ht⟩
  · have hmem : t ∈ u.orphans.map (·.tx) ↔ t ∈ s.doubts.map (·.tx) := by rw [h.orphans]
    simpa using hmem

omit [DecidableEq Row] in
theorem Erases.update (h : Erases s u) (p : Nat) (c : Client Val Ans Call Res) (q : Nat) :
    Function.update u.procs p (some c.erase) q =
      (Function.update s.clients p (some c) q).map Client.erase := by
  by_cases hq : q = p
  · subst hq
    simp [update_self]
  · rw [update_of_ne hq, update_of_ne hq, h.procs]

variable {o : Doubt Val Call} {clock : Nat} {σ : Db Val} {tx v : Option (Tx Val)} {row : Row}
variable {allow' : List Row → Stmt Val Ev → Prop}

omit [DecidableEq Row] in
theorem Erases.doubt (h : Erases s u) {l m : List (Doubt Val Call)}
    (hdoubts : s.doubts = l ++ o :: m) :
    ∃ o' l' m', u.orphans = l' ++ o' :: m' ∧ o'.tx = o.tx ∧
      (l' ++ m').map (·.tx) = (l ++ m).map (·.tx) := by
  have horphans := h.orphans
  rw [hdoubts, map_append, map_cons] at horphans
  obtain ⟨l', rest, hsplit, hl, hrest⟩ := map_eq_append_iff.mp horphans
  obtain ⟨o', m', hcons, ho, hm⟩ := map_eq_cons_iff.mp hrest
  refine ⟨o', l', m', by rw [hsplit, hcons], ho, ?_⟩
  rw [map_append, map_append, hl, hm]

/-- A step with the clock forgotten is a step, or nothing. -/
theorem Step.erases (hs : Step iso code allow s e s') (h : Erases s u) :
    Erases s' u ∨ ∃ u', TxLang.Step iso (fun call => ignore (code call)) u u' ∧ Erases s' u' := by
  have hfound : ∀ {p : Nat} {c : Client Val Ans Call Res}, s.clients p = some c →
      u.procs p = some c.erase := by
    intro p c hp
    rw [h.procs, hp, map_some]
  cases hs with
  | tick later _ => exact .inl ⟨h.db, h.procs, h.orphans⟩
  | spawn p call hp =>
    refine .inr ⟨_, .spawn p call (by rw [h.procs, hp, map_none]), h.db, fun q => ?_,
      h.orphans⟩
    exact h.update p ⟨call, some (code call), none⟩ q
  | @run p c st k busy r σ tx new hp hprog _ hbusy hlocal _ hfree =>
    have hnext : c.erase.prog = .step st fun r => ignore (k r) := by
      simp only [Client.erase, hprog]
      rfl
    rw [← h.db] at hlocal
    refine .inr ⟨_, .run p (hfound hp) hnext (fun row => ?_) hlocal (fun t ht v hv => ?_),
      rfl, fun q => ?_, h.orphans⟩
    · simp [hbusy, h.other]
    · exact hfree t ht v (h.other.mp hv)
    · exact h.update p { c with prog := some (k r), tx := tx } q
  | @crash p c hp =>
    refine .inr ⟨_, .crash p (hfound hp), h.db, fun q => ?_, h.orphans⟩
    exact h.update p { c with prog := none, tx := none } q
  | @lost p c t k hp hprog ht =>
    have hnext : c.erase.prog = .step .commit fun r => ignore (k r) := by
      simp only [Client.erase, hprog]
      rfl
    refine .inr ⟨_, .lost p (hfound hp) hnext ht, h.db, fun q => ?_, ?_⟩
    · exact h.update p { c with prog := some (k none), tx := none } q
    · rw [map_cons, map_cons, h.orphans]
  | doubtCommit hdoubts =>
    obtain ⟨o', l', m', horphans, ho, hrest⟩ := h.doubt hdoubts
    exact .inr ⟨_, .orphanCommit horphans, by rw [ho, h.db], h.procs, hrest⟩
  | doubtRollback hdoubts =>
    obtain ⟨o', l', m', horphans, _, hrest⟩ := h.doubt hdoubts
    exact .inr ⟨_, .orphanRollback horphans, h.db, h.procs, hrest⟩

omit [DecidableEq Row] in
theorem Erases.start (clock : Nat) (σ : Db Val) :
    Erases (Sys.start clock σ : Sys Val Ans Call Res) (TxLang.Sys.start σ) :=
  ⟨rfl, fun _ => rfl, rfl⟩

theorem Runs.erases (h : Runs iso code allow (Sys.start clock σ) commits s) :
    ∃ u, Reach iso (fun call => ignore (code call)) anyStep (fun σ' => σ' = σ) u ∧ Erases s u := by
  induction h with
  | refl => exact ⟨_, .start rfl, Erases.start clock σ⟩
  | step _ hs ih =>
    obtain ⟨u, hreach, herases⟩ := ih
    rcases hs.erases herases with hsame | ⟨u', hstep, hnext⟩
    · exact ⟨u, hreach, hsame⟩
    · exact ⟨u', hreach.step hstep trivial, hnext⟩

/-! ## Locks -/

def free (Val : Row → Type) (Ans : Ev → Type) : Spec Val Ans where
  Inv := fun _ => True
  Trans := fun _ _ => True
  Earned := fun _ _ _ => True
  Allow := fun _ _ => True
  keeps := fun _ _ => trivial

theorem owes_free (c : Ctx Val Ans) (st : Stmt Val Ev) : Owes (free Val Ans) c st := by
  cases st with
  | commit => exact fun _ _ => ⟨trivial, trivial⟩
  | auto f => exact fun _ => ⟨trivial, trivial⟩
  | _ => trivial

theorem wp_free {α : Type} {assume : Db Val → Db Val → Prop} (q : Prog Val Ans α)
    (c : Ctx Val Ans) : wp (free Val Ans) iso assume q (fun _ _ => True) c := by
  induction q generalizing c with
  | ret a => trivial
  | step st k ih => exact fun σ _ _ => ⟨owes_free _ st, fun busy r σ' tx new _ => ih r _⟩

/-- Every open transaction holds what it writes, and no two hold what either may write. -/
structure Locked (s : Sys Val Ans Call Res) : Prop where
  owned : ∀ p c t, s.clients p = some c → c.tx = some t → t.Owned
  doubtOwned : ∀ o ∈ s.doubts, o.tx.Owned
  compat : ∀ p c t, s.clients p = some c → c.tx = some t → ∀ v, s.Other p v → t.Compat v
  doubtCompat : s.doubts.Pairwise fun o o' => o.tx.Compat o'.tx

theorem Runs.locked (h : Runs iso code allow (Sys.start clock σ) commits s) : Locked s := by
  obtain ⟨u, hreach, herases⟩ := h.erases
  have hv : Verified (free Val Ans) iso (fun call => ignore (code call)) (fun _ _ _ => True)
      (fun _ _ => True) := fun call _ _ _ => wp_free _ _
  have hg := hreach.good (hv.sound fun _ _ => trivial)
  have hfound : ∀ {p : Nat} {c : Client Val Ans Call Res}, s.clients p = some c →
      u.procs p = some c.erase := by
    intro p c hp
    rw [herases.procs, hp, map_some]
  refine ⟨fun p c t hp ht => hg.owned p _ t (hfound hp) ht, fun o ho => ?_,
    fun p c t hp ht v hv => hg.compat p _ t (hfound hp) ht v (herases.other.mpr hv), ?_⟩
  · have hmem : o.tx ∈ u.orphans.map (·.tx) := by
      rw [herases.orphans]
      exact mem_map_of_mem ho
    obtain ⟨o', ho', heq⟩ := mem_map.mp hmem
    rw [← heq]
    exact hg.orphanOwned o' ho'
  · have hpairs : (u.orphans.map (·.tx)).Pairwise Tx.Compat :=
      pairwise_map.mpr hg.orphanCompat
    rw [herases.orphans] at hpairs
    exact pairwise_map.mp hpairs

/-- What one client's statement does, it does to rows that no other transaction holds. -/
theorem Locked.run_held (hl : Locked s) {c : Client Val Ans Call Res} {st : Stmt Val Ev}
    {busy : List Row} {r : Option (st.Reply Ans)} {new : List (Entry Val Ans)}
    (hp : s.clients p = some c) (hbusy : ∀ row, row ∈ busy ↔ ∃ t, s.Other p t ∧ t.Holds row)
    (hlocal : Local iso busy s.db c.tx st r σ tx new) (hv : ∀ t, v = some t → s.Other p t)
    (hrow : held v row) : σ.lookup row = s.db.lookup row := by
  have henv : Env (free Val Ans) (fun _ _ => True) v s.db σ := by
    refine hlocal.env (owes_free ⟨s.db, c.tx, []⟩ st) (fun t ht => hl.owned p c t hp ht)
      (fun t ht w hw => hl.compat p c t hp ht w (hv w hw)) (fun row' hrow' => ?_)
      fun _ => trivial
    cases v with
    | none => exact hrow'.elim
    | some t => exact (hbusy row').mpr ⟨t, hv t rfl, hrow'⟩
  exact henv.held hrow

theorem Locked.doubt_held (hl : Locked s) (ho : o ∈ s.doubts) (hc : ∀ t, v = some t → o.tx.Compat t)
    (hrow : held v row) : (o.tx.writes ∪ s.db).lookup row = s.db.lookup row := by
  cases v with
  | none => exact hrow.elim
  | some t => exact (hl.doubtOwned o ho).publish ((hc t rfl).not_excl hrow) s.db

/-! ## What is known of a client -/

/-- Facts about each client in progress and each commit in doubt. They may
speak of the client's transaction, of the committed rows, and of the commits
so far. -/
structure Watch {Row Ev : Type} (Val : Row → Type) (Ans : Ev → Type) (Call Res : Type) where
  client : Nat → Call → Prog Val Ans Res → Option (Tx Val) → Db Val →
    List (Commit Val Call) → Prop
  doubt : Nat → Call → Tx Val → Db Val → Prop

/-- They are true now. -/
structure Watch.On (w : Watch Val Ans Call Res) (s : Sys Val Ans Call Res)
    (commits : List (Commit Val Call)) : Prop where
  client : ∀ p c q, s.clients p = some c → c.prog = some q →
    w.client p c.call q c.tx s.db commits
  doubt : ∀ o ∈ s.doubts, w.doubt o.client o.call o.tx s.db

/-- They survive: the client's own statements, under what is known of the clock
and the rows (`I`), and anything that leaves alone what the transaction holds. -/
structure Watch.Survives (w : Watch Val Ans Call Res) (iso : Isolation)
    (code : Call → Prog Val Ans Res) (allow : List Row → Stmt Val Ev → Prop)
    (I : Nat → Db Val → Prop) : Prop where
  spawn : ∀ p call σ commits, w.client p call (code call) none σ commits
  own : ∀ {p call st k tx σ commits clock busy r σ' tx' new}, I clock σ →
    w.client p call (.step st k) tx σ commits → allow busy st →
    Local iso busy σ tx st r σ' tx' new → ReadsClock clock σ σ' st r →
    w.client p call (k r) tx' σ'
      (commits ++ committed (if st.publishes then some (p, call) else none) σ σ')
  others : ∀ {p call q tx σ σ' commits} more, w.client p call q tx σ commits →
    (∀ row, held tx row → σ'.lookup row = σ.lookup row) →
    w.client p call q tx σ' (commits ++ more)
  lost : ∀ {p call k t σ commits}, w.client p call (.step .commit k) (some t) σ commits →
    w.client p call (k none) none σ commits ∧ w.doubt p call t σ
  doubt : ∀ {p call t σ σ'}, w.doubt p call t σ →
    (∀ row, t.Holds row → σ'.lookup row = σ.lookup row) → w.doubt p call t σ'

variable {w : Watch Val Ans Call Res} {I : Nat → Db Val → Prop}

omit [DecidableEq Row] in
theorem Watch.On.start (clock : Nat) (σ : Db Val) :
    w.On (Sys.start clock σ) ([] : List (Commit Val Call)) :=
  ⟨fun _ _ _ hp => (nomatch hp), fun _ ho => (nomatch ho)⟩

section Update

variable {clients : Nat → Option (Client Val Ans Call Res)} {c c' : Client Val Ans Call Res}
variable {q : Nat}

omit [DecidableEq Row] in
theorem client_self (h : Function.update clients p (some c) p = some c') : c' = c := by
  rw [update_self] at h
  exact (Option.some.inj h).symm

omit [DecidableEq Row] in
theorem client_other (hq : q ≠ p) (h : Function.update clients p (some c) q = some c') :
    clients q = some c' := by
  rwa [update_of_ne hq] at h

end Update

theorem Watch.step (hw : w.Survives iso code allow I) (hl : Locked s) (hi : I s.clock s.db)
    (hon : w.On s commits) (hs : Step iso code allow s e s') :
    w.On s' (commits ++ committed e s.db s'.db) := by
  have hstay : ∀ p c q more, s.clients p = some c → c.prog = some q →
      w.client p c.call q c.tx s.db (commits ++ more) :=
    fun p c q more hp hq => hw.others more (hon.client p c q hp hq) fun _ _ => rfl
  cases hs with
  | tick later _ => exact ⟨fun p c q hp hq => hstay p c q _ hp hq, hon.doubt⟩
  | spawn p call hp =>
    refine ⟨fun p' c q hp' hq => ?_, hon.doubt⟩
    by_cases heq : p' = p
    · subst heq
      cases client_self hp'
      cases hq
      exact hw.spawn p' call _ _
    · exact hstay p' c q _ (client_other heq hp') hq
  | @run p c st k busy r σ tx new hp hprog hallow hbusy hlocal hclock hfree =>
    constructor
    · intro p' c' q hp' hq
      by_cases heq : p' = p
      · subst heq
        cases client_self hp'
        cases hq
        exact hw.own hi (hon.client p' c _ hp hprog) hallow hlocal hclock
      · have hold := client_other heq hp'
        refine hw.others _ (hon.client p' c' q hold hq) fun row hrow => ?_
        exact hl.run_held hp hbusy hlocal (fun t ht => .inl ⟨p', c', heq, hold, ht⟩) hrow
    · intro o ho
      refine hw.doubt (hon.doubt o ho) fun row hrow => ?_
      refine hl.run_held hp hbusy hlocal (v := some o.tx) (fun t ht => ?_) hrow
      cases ht
      exact .inr ⟨o, ho, rfl⟩
  | crash p hp =>
    refine ⟨fun p' c' q hp' hq => ?_, hon.doubt⟩
    by_cases heq : p' = p
    · subst heq
      cases client_self hp'
      cases hq
    · exact hstay p' c' q _ (client_other heq hp') hq
  | @lost p c t k hp hprog ht =>
    have hown := hon.client p c _ hp hprog
    rw [ht] at hown
    obtain ⟨hnext, hdoubt⟩ := hw.lost hown
    constructor
    · intro p' c' q hp' hq
      by_cases heq : p' = p
      · subst heq
        cases client_self hp'
        cases hq
        exact hw.others _ hnext fun _ _ => rfl
      · exact hstay p' c' q _ (client_other heq hp') hq
    · intro o ho
      rcases mem_cons.mp ho with rfl | ho
      · exact hdoubt
      · exact hon.doubt o ho
  | @doubtCommit o l m hdoubts =>
    have hmem : o ∈ s.doubts := by
      rw [hdoubts]
      exact mem_append_right _ mem_cons_self
    constructor
    · intro p c q hp hq
      refine hw.others _ (hon.client p c q hp hq) fun row hrow => ?_
      exact hl.doubt_held hmem
        (fun t ht => (hl.compat p c t hp ht o.tx (.inr ⟨o, hmem, rfl⟩)).symm) hrow
    · intro o' ho'
      have hpairs := hl.doubtCompat
      rw [hdoubts, pairwise_append, pairwise_cons] at hpairs
      have hold : o' ∈ s.doubts := by
        rw [hdoubts]
        exact mem_append.mpr ((mem_append.mp ho').imp_right (mem_cons_of_mem _))
      refine hw.doubt (hon.doubt o' hold) fun row hrow => ?_
      refine hl.doubt_held hmem (v := some o'.tx) (fun t ht => ?_) hrow
      cases ht
      rcases mem_append.mp ho' with hleft | hright
      · exact (hpairs.2.2 o' hleft o mem_cons_self).symm
      · exact hpairs.2.1.1 o' hright
  | @doubtRollback o l m hdoubts =>
    refine ⟨fun p c q hp hq => hstay p c q _ hp hq, fun o' ho' => hon.doubt o' ?_⟩
    rw [hdoubts]
    exact mem_append.mpr ((mem_append.mp ho').imp_right (mem_cons_of_mem _))

/-! ## Along a run -/

/-- A step leaves the rows alone, or it is a statement that publishes, or a
commit in doubt that comes through. -/
theorem Step.inversion (hs : Step iso code allow s e s') :
    e = none ∧ s'.db = s.db ∨
    (∃ p c, ∃ (st : Stmt Val Ev) (k : Option (st.Reply Ans) → Prog Val Ans Res) (busy : List Row)
      (r : Option (st.Reply Ans)) (tx : Option (Tx Val)) (new : List (Entry Val Ans)),
      e = some (p, c.call) ∧ s.clients p = some c ∧ c.prog = some (.step st k) ∧
      st.publishes = true ∧ Local iso busy s.db c.tx st r s'.db tx new ∧
      ReadsClock s.clock s.db s'.db st r) ∨
    ∃ o ∈ s.doubts, e = some (o.client, o.call) ∧ s'.db = o.tx.writes ∪ s.db := by
  cases hs with
  | @run p c st k busy r σ tx new hp hprog _ _ hlocal hclock _ =>
    cases hpub : st.publishes with
    | true =>
      exact .inr (.inl ⟨p, c, st, k, busy, r, tx, new, by simp, hp, hprog, hpub, hlocal, hclock⟩)
    | false =>
      refine .inl ⟨by simp, ?_⟩
      obtain ⟨call, prog, tx0⟩ := c
      cases hlocal with
      | commit => cases hpub
      | auto => cases hpub
      | autoLost => cases hpub
      | _ => rfl
  | @doubtCommit o l m hdoubts =>
    refine .inr (.inr ⟨o, ?_, rfl, rfl⟩)
    rw [hdoubts]
    exact mem_append_right _ mem_cons_self
  | _ => exact .inl ⟨rfl, rfl⟩

theorem Step.clock_le (hs : Step iso code allow s e s') : s.clock ≤ s'.clock := by
  cases hs with
  | tick later h => exact h
  | _ => exact Nat.le_refl _

def Tenanted (s : Sys Val Ans Call Res) : Prop := ∀ o ∈ s.doubts, s.clients o.client ≠ none

theorem Step.clients_stay (hs : Step iso code allow s e s') (hp : s.clients p ≠ none) :
    s'.clients p ≠ none := by
  have hupdate : ∀ (q : Nat) (c : Client Val Ans Call Res),
      Function.update s.clients q (some c) p ≠ none := by
    intro q c
    by_cases heq : p = q
    · subst heq
      rw [update_self]
      exact some_ne_none c
    · rwa [update_of_ne heq]
  cases hs with
  | spawn q call _ => exact hupdate q _
  | run q => exact hupdate q _
  | crash q => exact hupdate q _
  | lost q => exact hupdate q _
  | _ => exact hp

theorem Step.tenanted (hs : Step iso code allow s e s') (h : Tenanted s) : Tenanted s' := by
  have hkept : ∀ o ∈ s.doubts, s'.clients o.client ≠ none := fun o ho => hs.clients_stay (h o ho)
  intro o ho
  cases hs with
  | lost p hp =>
    rcases mem_cons.mp ho with rfl | ho
    · show Function.update s.clients p _ p ≠ none
      rw [update_self]
      exact some_ne_none _
    · exact hkept o ho
  | doubtCommit hdoubts =>
    refine hkept o ?_
    rw [hdoubts]
    exact mem_append.mpr ((mem_append.mp ho).imp_right (mem_cons_of_mem _))
  | doubtRollback hdoubts =>
    refine hkept o ?_
    rw [hdoubts]
    exact mem_append.mpr ((mem_append.mp ho).imp_right (mem_cons_of_mem _))
  | _ => exact hkept o ho

theorem Step.mono (hallow : ∀ busy st, allow busy st → allow' busy st)
    (hs : Step iso code allow s e s') : Step iso code allow' s e s' := by
  cases hs with
  | tick later h => exact .tick later h
  | spawn p call hp => exact .spawn p call hp
  | run p hp hprog hok hbusy hlocal hclock hfree =>
    exact .run p hp hprog (hallow _ _ hok) hbusy hlocal hclock hfree
  | crash p hp => exact .crash p hp
  | lost p hp hprog ht => exact .lost p hp hprog ht
  | doubtCommit h => exact .doubtCommit h
  | doubtRollback h => exact .doubtRollback h

theorem Runs.trans {more : List (Commit Val Call)}
    (hallow : ∀ busy st, allow' busy st → allow busy st) (h : Runs iso code allow s0 commits s)
    (h' : Runs iso code allow' s more s') : Runs iso code allow s0 (commits ++ more) s' := by
  induction h' with
  | refl => rwa [append_nil]
  | step _ hs ih =>
    rw [← append_assoc]
    exact ih.step (hs.mono hallow)

theorem Runs.tenanted (h : Runs iso code allow (Sys.start clock σ) commits s) : Tenanted s := by
  induction h with
  | refl => exact fun _ ho => nomatch ho
  | step _ hs ih => exact hs.tenanted ih

/-! ## One call at a time -/

/-- No client has a transaction open, and no commit is in doubt. -/
def Sys.Idle (s : Sys Val Ans Call Res) : Prop :=
  s.doubts = [] ∧ ∀ q c, s.clients q = some c → c.tx = none

/-- The state in which one client has come to stand elsewhere. -/
def Sys.put (s : Sys Val Ans Call Res) (p : Nat) (c : Client Val Ans Call Res) (db : Db Val) :
    Sys Val Ans Call Res :=
  { s with db := db, clients := Function.update s.clients p (some c) }

theorem exec_reads {w : World Ans} (σ : Db Val) (tx : Option (Tx Val)) (st : Stmt Val Ev) :
    ReadsClock w.clock σ (exec iso w σ tx st).db st (exec iso w σ tx st).value := by
  cases tx with
  | none =>
    cases st with
    | now => exact rfl
    | auto f => exact rfl
    | _ => trivial
  | some t =>
    cases st with
    | now => exact rfl
    | auto f => exact .inl rfl
    | _ => trivial

theorem runs_solo (iso : Isolation) (code : Call → Prog Val Ans Res) (hallow : ∀ st, allow [] st)
    {w : World Ans} (hw : w.clock = s.clock) {call : Call} {prog : Prog Val Ans Res}
    (hq : ∀ t, ¬ s.Other p t) (hp : s.clients p = some ⟨call, some prog, tx⟩)
    (hc : Current s.db tx) :
    ∃ commits, Runs iso code allow s commits
      (s.put p ⟨call, some (.ret (solo iso w prog s.db tx).value), (solo iso w prog s.db tx).tx⟩
        (solo iso w prog s.db tx).db) := by
  induction prog generalizing s tx with
  | ret a =>
    have hsame : s.put p ⟨call, some (.ret a), tx⟩ s.db = s := by
      obtain ⟨clock, db, clients, doubts⟩ := s
      simp only [Sys.put]
      congr
      rw [← hp]
      exact update_eq_self p clients
    simp only [solo, hsame]
    exact ⟨[], .refl⟩
  | step st k ih =>
    have hcur := (exec_spec iso w hc st).2
    have hstep : Step iso code allow s (if st.publishes then some (p, call) else none)
        (s.put p ⟨call, some (k (exec iso w s.db tx st).value), (exec iso w s.db tx st).tx⟩
          (exec iso w s.db tx st).db) := by
      refine .run p hp rfl (hallow st) (fun row => ?_) (exec_spec iso w hc st).1 ?_
        fun t _ u hu => absurd hu (hq u)
      · constructor
        · intro hm
          cases hm
        · rintro ⟨t, ht, _⟩
          exact absurd ht (hq t)
      · rw [← hw]
        exact exec_reads s.db tx st
    have hquiet : ∀ (c : Client Val Ans Call Res) (db : Db Val) t, ¬ (s.put p c db).Other p t := by
      rintro c db t (⟨q, c', hne, hq', ht⟩ | hdoubt)
      · exact hq t (.inl ⟨q, c', hne, client_other hne hq', ht⟩)
      · exact hq t (.inr hdoubt)
    simp only [solo]
    generalize exec iso w s.db tx st = r at hstep hcur
    obtain ⟨commits, hrest⟩ := ih r.value (s := s.put p ⟨call, some (k r.value), r.tx⟩ r.db) hw
      (hquiet _ _) (update_self _ _ _) hcur
    simp only [Sys.put, update_idem] at hrest
    exact ⟨_, (Runs.step .refl hstep).trans (fun _ _ h => h) hrest⟩

theorem Sys.Idle.serve (h : s.Idle) (iso : Isolation) (code : Call → Prog Val Ans Res)
    (hallow : ∀ st, allow [] st) {w : World Ans} (hw : w.clock = s.clock)
    (hp : s.clients p = none) (call : Call)
    (hclosed : (solo iso w (code call) s.db none).tx = none) :
    ∃ commits, Runs iso code allow s commits
      (s.put p ⟨call, some (.ret (solo iso w (code call) s.db none).value), none⟩
        (solo iso w (code call) s.db none).db) ∧
      (s.put p ⟨call, some (.ret (solo iso w (code call) s.db none).value), none⟩
        (solo iso w (code call) s.db none).db).Idle := by
  have hspawn : Step iso code allow s none (s.put p ⟨call, some (code call), none⟩ s.db) :=
    .spawn p call hp
  have hquiet : ∀ t, ¬ (s.put p ⟨call, some (code call), none⟩ s.db).Other p t := by
    rintro t (⟨q, c, hne, hq, ht⟩ | ⟨o, ho, _⟩)
    · rw [h.2 q c (client_other hne hq)] at ht
      cases ht
    · rw [show (s.put p ⟨call, some (code call), none⟩ s.db).doubts = s.doubts from rfl, h.1] at ho
      cases ho
  have hfound : (s.put p ⟨call, some (code call), none⟩ s.db).clients p =
      some ⟨call, some (code call), none⟩ := update_self _ _ _
  obtain ⟨commits, hruns⟩ := runs_solo (s := s.put p ⟨call, some (code call), none⟩ s.db) iso code
    hallow hw hquiet hfound fun _ ht => nomatch ht
  rw [show (s.put p ⟨call, some (code call), none⟩ s.db).db = s.db from rfl, hclosed] at hruns
  simp only [Sys.put, update_idem] at hruns
  refine ⟨_, (Runs.step .refl hspawn).trans (fun _ _ h => h) hruns, h.1, fun q c hq => ?_⟩
  by_cases heq : q = p
  · subst heq
    cases client_self hq
    rfl
  · exact h.2 q c (client_other heq hq)

end

end TxLang.Timed
