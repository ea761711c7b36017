import ReliableMessaging.TxLang.Prog

/-!
# Two engines for transaction programs

A transaction collects its writes apart from the committed rows and
publishes them all at its commit. What other clients may do meanwhile is
the engine's promise, and there are two.
-/

namespace TxLang

/-- Which of the two engines reads the programs. -/
inductive Isolation
  | readCommitted
  | snapshot
deriving DecidableEq

/-- An open transaction: its unpublished writes, its locks, and the rows
that were committed when it began. -/
structure Tx {Row : Type} (Val : Row → Type) where
  writes : Db Val := ∅
  share : List Row := []
  excl : List Row := []
  snap : Db Val

/-- One thing a client did that outlives its transactions: it asked
something of the world, or a commit of its own was acknowledged. -/
inductive Entry {Row Ev : Type} (Val : Row → Type) (Ans : Ev → Type)
  | called (ev : Ev) (ans : Option (Ans ev))
  | committed (before after : Db Val)

section Log

variable {Row Ev : Type} {Val : Row → Type} {Ans : Ev → Type}

def logOf (p : Nat) (log : List (Nat × Entry Val Ans)) : List (Entry Val Ans) :=
  (log.filter (·.1 == p)).map (·.2)

theorem logOf_append (p : Nat) (l m : List (Nat × Entry Val Ans)) :
    logOf p (l ++ m) = logOf p l ++ logOf p m := by
  simp [logOf]

theorem logOf_own (p : Nat) (l : List (Entry Val Ans)) : logOf p (l.map (p, ·)) = l := by
  induction l with
  | nil => rfl
  | cons e l ih =>
    simp only [logOf, List.map_cons, List.filter_cons, beq_self_eq_true, if_true] at ih ⊢
    rw [ih]

theorem logOf_other {p q : Nat} (h : p ≠ q) (l : List (Entry Val Ans)) :
    logOf p (l.map (q, ·)) = [] := by
  induction l with
  | nil => rfl
  | cons e l ih =>
    have hq : (q == p) = false := beq_false_of_ne (Ne.symm h)
    simp only [logOf, List.map_cons, List.filter_cons, hq] at ih ⊢
    exact ih

end Log

section

variable {Row Ev : Type} [DecidableEq Row] {Val : Row → Type} {Ans : Ev → Type}

def view (iso : Isolation) (σ : Db Val) : Option (Tx Val) → Db Val
  | none => σ
  | some t =>
    match iso with
    | .readCommitted => t.writes ∪ σ
    | .snapshot => t.writes ∪ t.snap

/-- The rows that stay as they are until this transaction ends. -/
def Tx.Holds (t : Tx Val) (r : Row) : Prop := r ∈ t.share ∨ r ∈ t.excl

/-- The rows an optional transaction keeps from changing. -/
def held : Option (Tx Val) → Row → Prop
  | none, _ => False
  | some t, r => t.Holds r

def Tx.acquire (t : Tx Val) (r : Row) : Mode → Tx Val
  | .share => { t with share := r :: t.share }
  | .update => { t with excl := r :: t.excl }

def Tx.stage (t : Tx Val) (rows : Db Val) : Tx Val :=
  { t with writes := rows ∪ t.writes, excl := rows.keys ++ t.excl }

/-- Whether the engine lets a transaction write these rows. Row locks never
refuse (they wait); a snapshot refuses rows that moved since it was taken. -/
def Writable (iso : Isolation) (σ : Db Val) (t : Tx Val) (rows : Db Val) : Prop :=
  iso = .snapshot → ∀ r ∈ rows.keys, r ∈ t.excl ∨ σ.lookup r = t.snap.lookup r

/-- One statement as its client sees it: the reply, the committed rows and
the transaction afterwards, and what the client's log gains. `busy` lists
the rows that other transactions hold.

A statement that answers `none` has changed nothing the client will keep,
because every program rolls back after it; there are three exceptions. A
commit that answers `none` is `lost`: the transaction is out of the
client's hands. A rollback ends the transaction whatever it answers. A call
that answers `none` did happen. -/
inductive Local (iso : Isolation) (busy : List Row) (σ : Db Val) : Option (Tx Val) →
    (s : Stmt Val Ev) → Option (s.Reply Ans) → Db Val → Option (Tx Val) →
    List (Entry Val Ans) → Prop
  | fault {tx : Option (Tx Val)} {s : Stmt Val Ev} (hcommit : s ≠ .commit)
      (hrollback : s ≠ .rollback) (hcall : ∀ ev, s ≠ .call ev) :
      Local iso busy σ tx s none σ tx []
  | begin : Local iso busy σ none .begin (some ()) σ (some { snap := σ }) []
  | commit {t : Tx Val} :
      Local iso busy σ (some t) .commit (some ()) (t.writes ∪ σ) none
        [.committed σ (t.writes ∪ σ)]
  | lost {tx : Option (Tx Val)} : Local iso busy σ tx .commit none σ none []
  | rollback {tx : Option (Tx Val)} (r : Option Unit) :
      Local iso busy σ tx .rollback r σ none []
  | select {tx : Option (Tx Val)} :
      Local iso busy σ tx .select (some (view iso σ tx)) σ tx []
  | lock {t : Tx Val} {m : Mode} {r : Row} {v : Val r}
      (hv : (view iso σ (some t)).lookup r = some v) :
      Local iso busy σ (some t) (.lock m r) (some (some v)) σ (some (t.acquire r m)) []
  | lockMiss {t : Tx Val} {m : Mode} {r : Row}
      (hv : (view iso σ (some t)).lookup r = none) :
      Local iso busy σ (some t) (.lock m r) (some none) σ (some t) []
  | skipLocked {t : Tx Val} {pick : Db Val → List (Sigma Val)} :
      Local iso busy σ (some t) (.skipLocked pick)
        (some (pick (without (view iso σ (some t)) busy))) σ
        (some { t with
          excl := (pick (without (view iso σ (some t)) busy)).map Sigma.fst ++ t.excl }) []
  | update {t : Tx Val} {f : Db Val → Db Val}
      (hw : Writable iso σ t (f (view iso σ (some t)))) :
      Local iso busy σ (some t) (.update f) (some (f (view iso σ (some t)))) σ
        (some (t.stage (f (view iso σ (some t))))) []
  | insert {t : Tx Val} {rows : Db Val}
      (hnew : ∀ r ∈ rows.keys, (view iso σ (some t)).lookup r = none)
      (hw : Writable iso σ t rows) :
      Local iso busy σ (some t) (.insert rows) (some true) σ (some (t.stage rows)) []
  | auto {f : Nat → Db Val → Db Val} (clock : Nat)
      (hfree : ∀ r ∈ (f clock σ).keys, r ∉ busy) :
      Local iso busy σ none (.auto f) (some (clock, f clock σ)) (f clock σ ∪ σ) none
        [.committed σ (f clock σ ∪ σ)]
  | autoLost {f : Nat → Db Val → Db Val} (clock : Nat)
      (hfree : ∀ r ∈ (f clock σ).keys, r ∉ busy) :
      Local iso busy σ none (.auto f) none (f clock σ ∪ σ) none []
  | duplicate {t : Tx Val} {rows : Db Val} {r : Row} (hr : r ∈ rows.keys)
      (hv : (view iso σ (some t)).lookup r ≠ none) :
      Local iso busy σ (some t) (.insert rows) (some false) σ (some t) []
  | now {tx : Option (Tx Val)} (clock : Nat) : Local iso busy σ tx .now (some clock) σ tx []
  | random {tx : Option (Tx Val)} (n : Nat) : Local iso busy σ tx .random (some n) σ tx []
  | call {tx : Option (Tx Val)} {ev : Ev} (ans : Option (Ans ev)) :
      Local iso busy σ tx (.call ev) ans σ tx [.called ev ans]

/-! ## The whole system -/

/-- A call in progress: which call it is, what is left of its program, and
its open transaction. -/
structure Proc {Row Ev : Type} (Val : Row → Type) (Ans : Ev → Type) (Call : Type) where
  call : Call
  prog : Prog Val Ans Unit
  tx : Option (Tx Val)

/-- A commit in doubt: the transaction, the call it comes from, and what that
call had done when it lost sight of it. -/
structure Orphan {Row Ev : Type} (Val : Row → Type) (Ans : Ev → Type) (Call : Type) where
  call : Call
  tx : Tx Val
  log : List (Entry Val Ans)

/-- The committed rows, the calls, the orphans, and everything that was asked
or acknowledged so far, oldest first, each under its call's number. -/
structure Sys {Row Ev : Type} (Val : Row → Type) (Ans : Ev → Type) (Call : Type) where
  db : Db Val
  procs : Nat → Option (Proc Val Ans Call)
  orphans : List (Orphan Val Ans Call)
  log : List (Nat × Entry Val Ans)

variable {Call : Type}

/-- An open transaction that is not this call's own. -/
def Sys.Other (s : Sys Val Ans Call) (p : Nat) (u : Tx Val) : Prop :=
  (∃ q pr, q ≠ p ∧ s.procs q = some pr ∧ pr.tx = some u) ∨ ∃ o ∈ s.orphans, o.tx = u

/-- Two transactions' locks can be held together. -/
def Tx.Compat (t u : Tx Val) : Prop :=
  (∀ r ∈ t.excl, ¬ u.Holds r) ∧ ∀ r ∈ t.share, r ∉ u.excl

def Sys.spawned (code : Call → Prog Val Ans Unit) (s : Sys Val Ans Call) (p : Nat) (call : Call) :
    Sys Val Ans Call :=
  { s with procs := Function.update s.procs p (some ⟨call, code call, none⟩) }

/-- One step of the system. `spawn` starts a call; `run` is a statement of
one call, if the locks it asks for are free; `crash` ends a call where it
stands, and the server rolls back what it had open; `lost` is a commit whose
reply never came; the orphans it leaves end on their own. -/
inductive Step (iso : Isolation) (code : Call → Prog Val Ans Unit) :
    Sys Val Ans Call → Sys Val Ans Call → Prop
  | spawn {s : Sys Val Ans Call} (p : Nat) (call : Call) (hp : s.procs p = none) :
      Step iso code s (s.spawned code p call)
  | run {s : Sys Val Ans Call} (p : Nat) {pr : Proc Val Ans Call} {st : Stmt Val Ev}
      {k : Option (st.Reply Ans) → Prog Val Ans Unit} {busy : List Row}
      {r : Option (st.Reply Ans)} {σ : Db Val} {tx : Option (Tx Val)}
      {new : List (Entry Val Ans)} (hp : s.procs p = some pr) (hprog : pr.prog = .step st k)
      (hbusy : ∀ r, r ∈ busy ↔ ∃ u, s.Other p u ∧ u.Holds r)
      (hlocal : Local iso busy s.db pr.tx st r σ tx new)
      (hfree : ∀ t, tx = some t → ∀ u, s.Other p u → t.Compat u) :
      Step iso code s
        { db := σ
          procs := Function.update s.procs p (some { pr with prog := k r, tx := tx })
          orphans := s.orphans
          log := s.log ++ new.map (p, ·) }
  | crash {s : Sys Val Ans Call} (p : Nat) {pr : Proc Val Ans Call} (hp : s.procs p = some pr) :
      Step iso code s
        { s with procs := Function.update s.procs p (some { pr with prog := .ret (), tx := none }) }
  | lost {s : Sys Val Ans Call} (p : Nat) {pr : Proc Val Ans Call} {t : Tx Val}
      {k : Option ((Stmt.commit : Stmt Val Ev).Reply Ans) → Prog Val Ans Unit}
      (hp : s.procs p = some pr) (hprog : pr.prog = .step .commit k) (ht : pr.tx = some t) :
      Step iso code s
        { s with
          procs := Function.update s.procs p (some { pr with prog := k none, tx := none })
          orphans := ⟨pr.call, t, logOf p s.log⟩ :: s.orphans }
  | orphanCommit {s : Sys Val Ans Call} {o : Orphan Val Ans Call}
      {l m : List (Orphan Val Ans Call)} (h : s.orphans = l ++ o :: m) :
      Step iso code s { s with db := o.tx.writes ∪ s.db, orphans := l ++ m }
  | orphanRollback {s : Sys Val Ans Call} {o : Orphan Val Ans Call}
      {l m : List (Orphan Val Ans Call)} (h : s.orphans = l ++ o :: m) :
      Step iso code s { s with orphans := l ++ m }

def Sys.start (σ : Db Val) : Sys Val Ans Call :=
  { db := σ, procs := fun _ => none, orphans := [], log := [] }

def Proc.Running (pr : Proc Val Ans Call) : Prop := ∀ a, pr.prog ≠ .ret a

/-- A step that changes the rows only in ways that every other call in
progress, and every other commit in doubt, assumes of its surroundings. With
the trivial assumption every step is one. -/
def Respects (assume : Call → Db Val → Db Val → Prop) (s s' : Sys Val Ans Call) : Prop :=
  s'.db ≠ s.db →
    (∀ p pr, s.procs p = some pr → pr.Running → s'.procs p = some pr →
      assume pr.call s.db s'.db) ∧
    ∀ o ∈ s.orphans, o ∈ s'.orphans → assume o.call s.db s'.db

/-- What is reached from initial rows by steps that are all `ok`. -/
inductive Reach (iso : Isolation) (code : Call → Prog Val Ans Unit)
    (ok : Sys Val Ans Call → Sys Val Ans Call → Prop) (init : Db Val → Prop) :
    Sys Val Ans Call → Prop
  | start {σ : Db Val} (h : init σ) : Reach iso code ok init (Sys.start σ)
  | step {s s' : Sys Val Ans Call} (h : Reach iso code ok init s)
      (hs : Step iso code s s') (hok : ok s s') : Reach iso code ok init s'

/-- The condition on steps that every step meets. -/
def anyStep (_ _ : Sys Val Ans Call) : Prop := True

/-- Calls start only when the log says they may: the condition on the steps of
a system whose calls are made by one another. -/
def StartsWhen (code : Call → Prog Val Ans Unit)
    (may : Call → List (Nat × Entry Val Ans) → Prop) (s s' : Sys Val Ans Call) : Prop :=
  ∀ p call, s.procs p = none → s' = s.spawned code p call → may call s.log

end

end TxLang
