import ReliableMessaging.TxLang.Prog

/-!
# Where a program stands

A program is a tree, and what is left of it says little about where it stands.
Phases say it: a program follows a protocol if it sends, in each phase, only
what the protocol admits there, and the next phase is the one that the reply
leads to. Following is a fact about the tree alone; what a phase means for the
rows is shown apart from it, one statement of the protocol at a time.
-/

namespace TxLang

/-- A protocol: what may be sent in each phase, and where the reply leads. -/
structure Protocol {Row Ev : Type} (Val : Row → Type) (Ans : Ev → Type) (Phase : Type) where
  admits : Phase → Stmt Val Ev → Prop
  next : Phase → (st : Stmt Val Ev) → Option (st.Reply Ans) → Phase

variable {Row Ev : Type} {Val : Row → Type} {Ans : Ev → Type} {Phase α β Err : Type}

/-- The program follows the protocol from this phase, and returns in a phase
that fits the value. -/
def Prog.Follows (P : Protocol Val Ans Phase) (Q : α → Phase → Prop) : Prog Val Ans α → Phase → Prop
  | .ret a, ph => Q a ph
  | .step st k, ph => P.admits ph st ∧ ∀ r, (k r).Follows P Q (P.next ph st r)

variable {P : Protocol Val Ans Phase} {ph : Phase}

variable {p : Prog Val Ans α}

theorem Prog.Follows.mono {Q Q' : α → Phase → Prop} (hQ : ∀ a ph, Q a ph → Q' a ph)
    (h : p.Follows P Q ph) : p.Follows P Q' ph := by
  induction p generalizing ph with
  | ret a => exact hQ a ph h
  | step st k ih => exact ⟨h.1, fun r => ih r (h.2 r)⟩

theorem Prog.Follows.bind {Q : β → Phase → Prop} {f : α → Prog Val Ans β}
    (h : p.Follows P (fun a ph' => (f a).Follows P Q ph') ph) : (p.bind f).Follows P Q ph := by
  induction p generalizing ph with
  | ret a => exact h
  | step st k ih => exact ⟨h.1, fun r => ih r (h.2 r)⟩

theorem Prog.All.follows {A : Stmt Val Ev → Prop}
    (hA : ∀ st, A st → P.admits ph st ∧ ∀ r, P.next ph st r = ph) (h : p.All A) :
    p.Follows P (fun _ ph' => ph' = ph) ph := by
  induction p with
  | ret a => rfl
  | step st k ih =>
    obtain ⟨hadmits, hnext⟩ := hA st h.1
    refine ⟨hadmits, fun r => ?_⟩
    rw [hnext r]
    exact ih r (h.2 r)

/-! Fallible code, whose errors all lead to the phases `E`. -/

/-- The code follows the protocol, and an error leaves it in a phase of `E`. -/
def Adheres (P : Protocol Val Ans Phase) (E : Phase → Prop) (x : Code Err Val Ans α)
    (Q : α → Phase → Prop) (ph : Phase) : Prop :=
  x.run.Follows P (fun r ph' => (∀ a, r = .ok a → Q a ph') ∧ ∀ e, r = .error e → E ph') ph

section Code

variable {E : Phase → Prop} {Q : α → Phase → Prop}

theorem adheres_pure {a : α} (h : Q a ph) : Adheres P E (pure a : Code Err Val Ans α) Q ph := by
  refine ⟨fun b hb => ?_, nofun⟩
  cases hb
  exact h

theorem adheres_mono {x : Code Err Val Ans α} {Q' : α → Phase → Prop}
    (hQ : ∀ a ph', Q a ph' → Q' a ph') (h : Adheres P E x Q ph) : Adheres P E x Q' ph :=
  Prog.Follows.mono (fun _ ph' hr => ⟨fun a ha => hQ a ph' (hr.1 a ha), hr.2⟩) h

theorem adheres_bind {x : Code Err Val Ans β} {f : β → Code Err Val Ans α}
    (h : Adheres P E x (fun b ph' => Adheres P E (f b) Q ph') ph) : Adheres P E (x >>= f) Q ph := by
  refine Prog.Follows.bind (p := x.run) (f := ExceptT.bindCont f) (Prog.Follows.mono ?_ h)
  rintro r ph' ⟨hok, herr⟩
  cases r with
  | ok b => exact hok b rfl
  | error e =>
    refine ⟨nofun, fun e' he => ?_⟩
    exact herr e rfl

variable {fault : Err} {R : Except Err α → Phase → Prop}

theorem adheres_send {st : Stmt Val Ev} {Q : st.Reply Ans → Phase → Prop} (hadmits : P.admits ph st)
    (herr : E (P.next ph st none)) (h : ∀ r, Q r (P.next ph st (some r))) :
    Adheres P E (send fault st : Code Err Val Ans _) Q ph := by
  refine ⟨hadmits, fun r => ?_⟩
  cases r with
  | none => exact ⟨nofun, fun _ _ => herr⟩
  | some a =>
    refine ⟨fun b hb => ?_, nofun⟩
    cases hb
    exact h a

theorem follows_refuse_bind {b : Bool} {e : Err} {f : Unit → Code Err Val Ans α}
    (herr : R (.error e) ph) (h : b = false → (f ()).run.Follows P R ph) :
    (refuse b e >>= f).run.Follows P R ph := by
  cases b with
  | true => exact herr
  | false => exact h rfl

/-- A transaction: whatever its body comes to, it is rolled back at the end. -/
theorem follows_withTx {body : Code Err Val Ans α} (hadmits : P.admits ph .begin)
    (hfault : R (.error fault) (P.next ph .begin none))
    (h : body.run.Follows P (fun r ph' => P.admits ph' .rollback ∧ ∀ reply,
      R r (P.next ph' .rollback reply)) (P.next ph .begin (some ()))) :
    (withTx fault body).run.Follows P R ph := by
  refine ⟨hadmits, fun r => ?_⟩
  cases r with
  | none => exact hfault
  | some _ => exact Prog.Follows.bind h

end Code

end TxLang
