import Mathlib.Tactic.Common

/-!
# Coroutines that log

One task of an event loop: it awaits functions of somebody else, which return,
raise or are cancelled while it waits, and it may raise itself. Its log keeps
what was called and what came of it, also past an exception, so that a handler
may look at it.
-/

namespace ReliableMessaging.Tasks

/-- What an `await` or a statement raises: a fault, or the task was cancelled. -/
inductive Raised (Fault : Type)
  | cancelled
  | fault (f : Fault)

/-- How a function that was awaited ends. -/
inductive Answer (Fault α : Type)
  | returns (a : α)
  | raises (f : Fault)
  | cancelled

abbrev Task (Fault Ev α : Type) : Type := ExceptT (Raised Fault) (StateM (List Ev)) α

variable {Fault Ev α β : Type}

/-- Where a coroutine ends that starts with this log. -/
def Ends (x : Task Fault Ev α) (Q : Except (Raised Fault) α → List Ev → Prop) (log : List Ev) :
    Prop :=
  Q (x.run.run log).1 (x.run.run log).2

def logOf (x : Task Fault Ev α) : List Ev := (x.run.run []).2

def note (e : Ev) : Task Fault Ev Unit := modify (· ++ [e])

def logged (p : List Ev → α) : Task Fault Ev α := do
  let log ← get
  pure (p log)

/-- A pure result, which may be a fault. -/
def attempt (x : Except Fault α) : Task Fault Ev α :=
  match x with
  | .ok a => pure a
  | .error f => throw (.fault f)

def await (called : Ev) (returned : α → Ev) (cancelled : Ev) (answer : Answer Fault α) :
    Task Fault Ev α := do
  note called
  match answer with
  | .returns a => do
    note (returned a)
    pure a
  | .raises f => throw (.fault f)
  | .cancelled => do
    note cancelled
    throw .cancelled

section Rules

variable {Q : Except (Raised Fault) α → List Ev → Prop} {log : List Ev}

theorem Ends.mono {Q' : Except (Raised Fault) α → List Ev → Prop} {x : Task Fault Ev α}
    (h : Ends x Q log) (hQ : ∀ r l, Q r l → Q' r l) : Ends x Q' log :=
  hQ _ _ h

theorem ends_pure {a : α} (h : Q (.ok a) log) : Ends (pure a) Q log := h

theorem ends_throw {e : Raised Fault} (h : Q (.error e) log) : Ends (throw e) Q log := h

theorem ends_note {e : Ev} {Q : Except (Raised Fault) Unit → List Ev → Prop}
    (h : Q (.ok ()) (log ++ [e])) : Ends (note e) Q log := h

theorem ends_logged {p : List Ev → α} (h : Q (.ok (p log)) log) : Ends (logged p) Q log := h

theorem ends_bind {x : Task Fault Ev α} {f : α → Task Fault Ev β}
    {Q : Except (Raised Fault) β → List Ev → Prop}
    (h : Ends x (fun r l => (∀ a, r = .ok a → Ends (f a) Q l) ∧
      ∀ e, r = .error e → Q (.error e) l) log) : Ends (x >>= f) Q log := by
  obtain ⟨hok, herr⟩ := h
  have hrun : ((x >>= f).run.run log) = match x.run.run log with
      | (.ok a, l) => (f a).run.run l
      | (.error e, l) => (.error e, l) := by
    simp only [ExceptT.run_bind, StateT.run_bind]
    rcases x.run.run log with ⟨r, l⟩
    cases r <;> rfl
  unfold Ends
  rw [hrun]
  rcases hx : x.run.run log with ⟨r, l⟩
  rw [hx] at hok herr
  cases r with
  | ok a => exact hok a rfl
  | error e => exact herr e rfl

theorem ends_tryCatch {x : Task Fault Ev α} {handler : Raised Fault → Task Fault Ev α}
    (h : Ends x (fun r l => (∀ a, r = .ok a → Q (.ok a) l) ∧
      ∀ e, r = .error e → Ends (handler e) Q l) log) : Ends (tryCatch x handler) Q log := by
  obtain ⟨hok, herr⟩ := h
  have hrun : ((tryCatch x handler).run.run log) = match x.run.run log with
      | (.ok a, l) => (.ok a, l)
      | (.error e, l) => (handler e).run.run l := by
    simp only [tryCatch, tryCatchThe, MonadExceptOf.tryCatch, ExceptT.tryCatch, ExceptT.run_mk,
      StateT.run_bind]
    change Id.run (StateT.run x.run log >>= _) = _
    rcases x.run.run log with ⟨r, l⟩
    cases r <;> rfl
  unfold Ends
  rw [hrun]
  rcases hx : x.run.run log with ⟨r, l⟩
  rw [hx] at hok herr
  cases r with
  | ok a => exact hok a rfl
  | error e => exact herr e rfl

theorem ends_attempt {x : Except Fault α} (hok : ∀ a, x = .ok a → Q (.ok a) log)
    (herr : ∀ f, x = .error f → Q (.error (.fault f)) log) : Ends (attempt x) Q log := by
  cases x with
  | ok a => exact hok a rfl
  | error f => exact herr f rfl

theorem ends_await {called cancelled : Ev} {returned : α → Ev} {answer : Answer Fault α}
    (hok : ∀ a, answer = .returns a → Q (.ok a) (log ++ [called, returned a]))
    (herr : ∀ f, answer = .raises f → Q (.error (.fault f)) (log ++ [called]))
    (hcancel : answer = .cancelled → Q (.error .cancelled) (log ++ [called, cancelled])) :
    Ends (await called returned cancelled answer) Q log := by
  refine ends_bind (ends_note ⟨fun _ _ => ?_, nofun⟩)
  cases answer with
  | returns a =>
    refine ends_bind (ends_note ⟨fun _ _ => ends_pure ?_, nofun⟩)
    simpa using hok a rfl
  | raises f => exact ends_throw (herr f rfl)
  | cancelled =>
    refine ends_bind (ends_note ⟨fun _ _ => ends_throw ?_, nofun⟩)
    simpa using hcancel rfl

theorem ends_ite {c : Prop} [Decidable c] {x y : Task Fault Ev α} (hx : c → Ends x Q log)
    (hy : ¬ c → Ends y Q log) : Ends (if c then x else y) Q log := by
  split
  · exact hx ‹_›
  · exact hy ‹_›

end Rules

end ReliableMessaging.Tasks
