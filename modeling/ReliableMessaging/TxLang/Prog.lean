import Mathlib.Data.List.AList

/-!
# Transaction programs

A client of a transactional row store, written as a program: a tree of
statements whose next node is chosen by the statement's reply. The tree
is what the client's code says; nothing here decides what a statement
does. Two engines read the same trees (`TxLang.Engine`): one with row
locks and one with snapshots, and `TxLang.Sequential` reads them alone.
-/

namespace TxLang

open Option

/-- A database state: finitely many rows, each key at most once. -/
abbrev Db {Row : Type} (Val : Row → Type) : Type := AList Val

section Rows

variable {Row : Type} [DecidableEq Row] {Val : Row → Type}

/-- Reading an overlay: the upper layer answers, and the lower one only
where the upper is silent. -/
theorem lookup_union (s t : Db Val) (r : Row) :
    (s ∪ t).lookup r = (s.lookup r).or (t.lookup r) := by
  by_cases h : r ∈ s
  · rw [AList.lookup_union_left h]
    obtain ⟨v, hv⟩ := isSome_iff_exists.mp (AList.lookup_isSome.mpr h)
    rw [hv, some_or]
  · rw [AList.lookup_union_right h, AList.lookup_eq_none.mpr h, none_or]

variable {s t σ : Db Val} {r : Row}

theorem lookup_union_of_none (h : s.lookup r = none) : (s ∪ t).lookup r = t.lookup r := by
  rw [lookup_union, h, none_or]

theorem lookup_union_of_some {v : Val r} (h : s.lookup r = some v) : (s ∪ t).lookup r = some v := by
  rw [lookup_union, h, some_or]

/-- The rows a key list does not name. -/
def without (σ : Db Val) (rows : List Row) : Db Val := rows.foldr AList.erase σ

theorem lookup_without_of_mem :
    ∀ {rows : List Row}, r ∈ rows → (without σ rows).lookup r = none
  | q :: rows, h => by
    by_cases hq : r = q
    · subst hq
      exact AList.lookup_erase _ _
    · have hr : r ∈ rows := (List.mem_cons.mp h).resolve_left hq
      show ((without σ rows).erase q).lookup r = none
      rw [AList.lookup_erase_ne hq]
      exact lookup_without_of_mem hr

theorem lookup_without_of_not_mem :
    ∀ {rows : List Row}, r ∉ rows → (without σ rows).lookup r = σ.lookup r
  | [], _ => rfl
  | q :: rows, h => by
    have hq : r ≠ q := fun e => h (e ▸ List.mem_cons_self)
    have hr : r ∉ rows := fun e => h (List.mem_cons_of_mem _ e)
    show ((without σ rows).erase q).lookup r = _
    rw [AList.lookup_erase_ne hq]
    exact lookup_without_of_not_mem hr

end Rows

inductive Mode
  | share
  | update
deriving DecidableEq

/-- The statements a client can send.

`select` is a consistent read without locks and answers the whole view;
a program looks only at the rows its query names. `update` names the rows
it writes as a function of the view it reads, `insert` the rows it adds;
`auto` is an update that is a transaction of its own and reads the clock.
`now` is the database clock, `random` the client's entropy, and `call` is
anything outside the store that the log should remember. -/
inductive Stmt {Row : Type} (Val : Row → Type) (Ev : Type)
  | begin
  | commit
  | rollback
  | select
  | lock (mode : Mode) (row : Row)
  | skipLocked (pick : Db Val → List (Sigma Val))
  | update (rows : Db Val → Db Val)
  | insert (rows : Db Val)
  | auto (rows : Nat → Db Val → Db Val)
  | now
  | random
  | call (ev : Ev)

section

variable {Row Ev : Type} {Val : Row → Type} {Ans : Ev → Type}

/-- What a statement answers when no driver error hides the answer. -/
def Stmt.Reply (Ans : Ev → Type) : Stmt Val Ev → Type
  | .begin => Unit
  | .commit => Unit
  | .rollback => Unit
  | .select => Db Val
  | .lock _ r => Option (Val r)
  | .skipLocked _ => List (Sigma Val)
  | .update _ => Db Val
  | .insert _ => Bool
  | .auto _ => Nat × Db Val
  | .now => Nat
  | .random => Nat
  | .call ev => Ans ev

def Stmt.reads : Stmt Val Ev → Bool
  | .select | .now | .random => true
  | _ => false

/-- A program: return, or send a statement and go on from its reply. -/
inductive Prog {Row Ev : Type} (Val : Row → Type) (Ans : Ev → Type) (α : Type)
  | ret (a : α)
  | step (s : Stmt Val Ev) (k : Option (s.Reply Ans) → Prog Val Ans α)

variable {α β γ : Type}

def Prog.bind : Prog Val Ans α → (α → Prog Val Ans β) → Prog Val Ans β
  | .ret a, f => f a
  | .step s k, f => .step s fun r => (k r).bind f

theorem Prog.bind_ret (p : Prog Val Ans α) : p.bind .ret = p := by
  induction p with
  | ret a => rfl
  | step st k ih => exact congrArg (Prog.step st) (funext ih)

instance : Monad (Prog Val Ans) where
  pure := .ret
  bind := Prog.bind

def ask (ev : Ev) : Prog Val Ans (Option (Ans ev)) := .step (.call ev) .ret

/-- A program whose answer nobody reads. -/
def ignore (p : Prog Val Ans α) : Prog Val Ans Unit := p.bind fun _ => .ret ()

/-- Every statement the program may send is one of these. -/
def Prog.All (P : Stmt Val Ev → Prop) : Prog Val Ans α → Prop
  | .ret _ => True
  | .step s k => P s ∧ ∀ r, (k r).All P

variable {p : Prog Val Ans α}

theorem Prog.All.bind {P : Stmt Val Ev → Prop} {f : α → Prog Val Ans β} (hp : p.All P)
    (hf : ∀ a, (f a).All P) : (p.bind f).All P := by
  induction p with
  | ret a => exact hf a
  | step s k ih => exact ⟨hp.1, fun r => ih r (hp.2 r)⟩

theorem Prog.All.mono {P Q : Stmt Val Ev → Prop} (hPQ : ∀ s, P s → Q s) (hp : p.All P) :
    p.All Q := by
  induction p with
  | ret => trivial
  | step s k ih => exact ⟨hPQ s hp.1, fun r => ih r (hp.2 r)⟩

theorem Prog.all_of_forall {P : Stmt Val Ev → Prop} (h : ∀ s, P s) (p : Prog Val Ans α) :
    p.All P := by
  induction p with
  | ret => trivial
  | step s k ih => exact ⟨h s, ih⟩

/-- A fallible routine. -/
abbrev Code {Row Ev : Type} (Err : Type) (Val : Row → Type) (Ans : Ev → Type) (α : Type) : Type :=
  ExceptT Err (Prog Val Ans) α

variable {Err : Type}

/-- Send one statement; a driver error becomes `fault`. -/
def send (fault : Err) (s : Stmt Val Ev) : Code Err Val Ans (s.Reply Ans) :=
  ExceptT.mk (.step s fun
    | some r => .ret (.ok r)
    | none => .ret (.error fault))

def refuse (b : Bool) (e : Err) : Code Err Val Ans Unit := if b then throw e else pure ()

def lift (x : Except Err α) : Code Err Val Ans α := ExceptT.mk (.ret x)

/-- The value found, or an error. -/
def found (o : Option α) (e : Err) : Code Err Val Ans α :=
  match o with
  | some a => pure a
  | none => throw e

def mapErr (f : Err → Err) (x : Code Err Val Ans α) : Code Err Val Ans α :=
  ExceptT.mk (x.run.bind fun
    | .ok a => .ret (.ok a)
    | .error e => .ret (.error (f e)))

/-- A transaction that its own code commits: begin, run the body, and roll
back whatever is still open when the body returns. -/
def withTx (fault : Err) (body : Code Err Val Ans α) : Code Err Val Ans α :=
  ExceptT.mk (.step .begin fun
    | none => .ret (.error fault)
    | some _ => body.run.bind fun r => .step .rollback fun _ => .ret r)

/-- Every value the program may return is one of these. -/
def Prog.EndsIn (R : α → Prop) : Prog Val Ans α → Prop
  | .ret a => R a
  | .step _ k => ∀ r, (k r).EndsIn R

theorem Prog.EndsIn.bind {R : β → Prop} {f : α → Prog Val Ans β}
    (h : p.EndsIn fun a => (f a).EndsIn R) : (p.bind f).EndsIn R := by
  induction p with
  | ret a => exact h
  | step s k ih => exact fun r => ih r (h r)

theorem Prog.EndsIn.mono {R R' : α → Prop} (hR : ∀ a, R a → R' a) (h : p.EndsIn R) :
    p.EndsIn R' := by
  induction p with
  | ret a => exact hR a h
  | step s k ih => exact fun r => ih r (h r)

/-! Which errors fallible code may raise. -/

/-- Every error of the code is one of these. -/
def Raises (E : Err → Prop) (x : Code Err Val Ans α) : Prop :=
  x.run.EndsIn fun r => ∀ e, r = .error e → E e

section Raises

variable {E : Err → Prop} {x : Code Err Val Ans α} {f : α → Code Err Val Ans β}

theorem Raises.mono {E' : Err → Prop} (hE : ∀ e, E e → E' e) (h : Raises E x) : Raises E' x :=
  Prog.EndsIn.mono (fun _ hr e he => hE e (hr e he)) h

theorem raises_pure {a : α} : Raises E (pure a : Code Err Val Ans α) := fun _ he => nomatch he

theorem raises_bind (hx : Raises E x) (hf : ∀ a, Raises E (f a)) : Raises E (x >>= f) := by
  refine Prog.EndsIn.bind (p := x.run) (f := ExceptT.bindCont f) (Prog.EndsIn.mono ?_ hx)
  intro r hr
  cases r with
  | ok a => exact hf a
  | error e =>
    intro e' he
    cases he
    exact hr e rfl

variable {fault e : Err}

theorem raises_send {s : Stmt Val Ev} (h : E fault) :
    Raises E (send fault s : Code Err Val Ans _) := by
  intro r
  cases r with
  | some a => exact fun _ he => nomatch he
  | none =>
    intro e he
    cases he
    exact h

theorem raises_refuse {b : Bool} (h : E e) : Raises E (refuse b e : Code Err Val Ans Unit) := by
  cases b with
  | false => exact raises_pure
  | true =>
    intro e' he
    cases he
    exact h

theorem raises_lift {y : Except Err α} (h : ∀ e, y = .error e → E e) :
    Raises E (lift y : Code Err Val Ans α) :=
  h

theorem raises_found {o : Option α} (h : E e) (hf : ∀ a, Raises E (f a)) :
    Raises E (found o e >>= f) := by
  cases o with
  | some a => exact hf a
  | none =>
    intro e' he
    cases he
    exact h

theorem raises_ite {b : Prop} [Decidable b] {y : Code Err Val Ans α} (hx : Raises E x)
    (hy : Raises E y) : Raises E (if b then x else y) := by
  split
  · exact hx
  · exact hy

theorem raises_withTx (h : E fault) (hx : Raises E x) : Raises E (withTx fault x) := by
  intro r
  cases r with
  | none =>
    intro e he
    cases he
    exact h
  | some _ => exact Prog.EndsIn.bind (Prog.EndsIn.mono (fun _ hr _ => hr) hx)

end Raises

/-! What fallible code may return. -/

/-- Every value that the code returns is one of these. -/
def Returns (R : α → Prop) (x : Code Err Val Ans α) : Prop :=
  x.run.EndsIn fun r => ∀ a, r = .ok a → R a

section Returns

variable {R : β → Prop} {f : α → Code Err Val Ans β}

theorem returns_pure {b : β} (h : R b) : Returns R (pure b : Code Err Val Ans β) := by
  intro b' hb
  cases hb
  exact h

theorem returns_bind {S : α → Prop} {x : Code Err Val Ans α} (hx : Returns S x)
    (hf : ∀ a, S a → Returns R (f a)) : Returns R (x >>= f) := by
  refine Prog.EndsIn.bind (p := x.run) (f := ExceptT.bindCont f) (Prog.EndsIn.mono ?_ hx)
  intro r hr
  cases r with
  | ok a => exact hf a (hr a rfl)
  | error e => exact fun _ hb => nomatch hb

theorem returns_any (x : Code Err Val Ans α) : Returns (fun _ => True) x := by
  have hall : ∀ p : Prog Val Ans (Except Err α), p.EndsIn fun r => ∀ a, r = .ok a → True := by
    intro p
    induction p with
    | ret r => exact fun _ _ => trivial
    | step s k ih => exact ih
  exact hall x.run

theorem returns_lift {y : Except Err α} : Returns (fun a => y = .ok a)
    (lift y : Code Err Val Ans α) :=
  fun _ h => h

end Returns

/-! Which statements fallible code may send. -/

section All

variable {P : Stmt Val Ev → Prop}

theorem all_bind {x : Code Err Val Ans α} {f : α → Code Err Val Ans β} (hx : x.run.All P)
    (hf : ∀ a, (f a).run.All P) : (x >>= f).run.All P := by
  refine Prog.All.bind (p := x.run) hx fun r => ?_
  cases r with
  | error e => trivial
  | ok a => exact hf a

variable {fault e : Err} {b : Bool}

theorem all_send {s : Stmt Val Ev} (h : P s) : (send fault s : Code Err Val Ans _).run.All P := by
  refine ⟨h, fun r => ?_⟩
  cases r <;> trivial

theorem all_refuse : (refuse b e : Code Err Val Ans Unit).run.All P := by
  cases b <;> trivial

theorem all_refuse_bind {f : Unit → Code Err Val Ans α} (h : b = false → (f ()).run.All P) :
    (refuse b e >>= f).run.All P := by
  cases b with
  | true => trivial
  | false => exact h rfl

theorem all_pure {a : α} : (pure a : Code Err Val Ans α).run.All P := trivial

theorem all_lift {x : Except Err α} : (lift x : Code Err Val Ans α).run.All P := trivial

theorem all_mapErr {g : Err → Err} {x : Code Err Val Ans α} (h : x.run.All P) :
    (mapErr g x).run.All P := by
  refine Prog.All.bind h fun r => ?_
  cases r <;> trivial

theorem all_ite {b : Prop} [Decidable b] {x y : Code Err Val Ans α} (hx : x.run.All P)
    (hy : y.run.All P) : (if b then x else y).run.All P := by
  split
  · exact hx
  · exact hy

theorem all_found {o : Option α} {f : α → Code Err Val Ans β}
    (h : ∀ a, o = some a → (f a).run.All P) : (found o e >>= f).run.All P := by
  cases o with
  | none => trivial
  | some a => exact h a rfl

theorem all_withTx {body : Code Err Val Ans α} (hbegin : P .begin) (hrollback : P .rollback)
    (h : body.run.All P) : (withTx fault body).run.All P := by
  refine ⟨hbegin, fun r => ?_⟩
  cases r with
  | none => trivial
  | some _ => exact h.bind fun _ => ⟨hrollback, fun _ => trivial⟩

end All

end

end TxLang
