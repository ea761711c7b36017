import ReliableMessaging.TxLang.Engine
import Mathlib.Logic.Relation

/-!
# A program logic for transaction programs

`Spec` says what the clients of one store owe each other: an invariant of
the committed rows, the transitions a commit may make, and what a client
may ask of the world. `wp` is the weakest precondition of a program under
that contract. Between any two statements of a program the committed rows
may move, by any number of the contract's transitions, as long as the rows
the open transaction holds stay put (`Env`); a statement then runs at
whatever rows it finds. So a proof about one program is a proof about it
in every company.
-/

namespace TxLang

open List

open Relation (ReflTransGen)

/-- Where a client stands: the committed rows, its transaction, its log. -/
structure Ctx {Row Ev : Type} (Val : Row → Type) (Ans : Ev → Type) where
  db : Db Val
  tx : Option (Tx Val)
  log : List (Entry Val Ans)

/-- The contract between the clients of one store. `Trans` is what others see
of a commit; `Earned` says what the committing client must itself have done. -/
structure Spec {Row Ev : Type} [DecidableEq Row] (Val : Row → Type) (Ans : Ev → Type) where
  Inv : Db Val → Prop
  Trans : Db Val → Db Val → Prop
  Earned : List (Entry Val Ans) → Db Val → Db Val → Prop
  Allow : Ctx Val Ans → Ev → Prop
  keeps : ∀ {a b : Db Val}, Inv a → Trans a b → Inv b

section

variable {Row Ev : Type} [DecidableEq Row] {Val : Row → Type} {Ans : Ev → Type}
variable {α β Err : Type}

/-- One step of the surroundings: a transition of the contract that leaves
alone what this client holds and what it may assume. -/
def EnvStep (Γ : Spec Val Ans) (assume : Db Val → Db Val → Prop) (tx : Option (Tx Val))
    (a b : Db Val) : Prop :=
  Γ.Trans a b ∧ assume a b ∧ ∀ r, held tx r → b.lookup r = a.lookup r

/-- Any number of steps of the surroundings. -/
def Env (Γ : Spec Val Ans) (assume : Db Val → Db Val → Prop) (tx : Option (Tx Val)) :
    Db Val → Db Val → Prop :=
  ReflTransGen (EnvStep Γ assume tx)

/-- Any number of transitions, whoever makes them. -/
def Later (Γ : Spec Val Ans) : Db Val → Db Val → Prop := ReflTransGen Γ.Trans

/-- A client may publish these rows: a transition, and one it has earned. -/
def Publishes (Γ : Spec Val Ans) (c : Ctx Val Ans) (ν : Db Val) : Prop :=
  Γ.Trans c.db ν ∧ Γ.Earned c.log c.db ν

/-- What a statement owes before it runs: a commit publishes what its client
may publish, and a call is one the contract allows here. -/
def Owes (Γ : Spec Val Ans) (c : Ctx Val Ans) : Stmt Val Ev → Prop
  | .commit => ∀ t, c.tx = some t → Publishes Γ c (t.writes ∪ c.db)
  | .auto f => ∀ clock, Publishes Γ c (f clock c.db ∪ c.db)
  | .call ev => Γ.Allow c ev
  | _ => True

variable (Γ : Spec Val Ans) (iso : Isolation) (assume : Db Val → Db Val → Prop)

/-- The weakest precondition of a program. -/
def wp : Prog Val Ans α → (α → Ctx Val Ans → Prop) → Ctx Val Ans → Prop
  | .ret a, Q, c => Q a c
  | .step s k, Q, c =>
    ∀ σ, Env Γ assume c.tx c.db σ → Γ.Inv σ →
      Owes Γ { c with db := σ } s ∧
      ∀ (busy : List Row) (r : Option (s.Reply Ans)) (σ' : Db Val) (tx : Option (Tx Val))
        (new : List (Entry Val Ans)),
        Local iso busy σ c.tx s r σ' tx new → wp (k r) Q ⟨σ', tx, c.log ++ new⟩

/-- The weakest precondition of fallible code whose failures owe nothing. -/
def wpc (x : Code Err Val Ans α) (Q : α → Ctx Val Ans → Prop) (c : Ctx Val Ans) : Prop :=
  wp Γ iso assume x.run (fun r c' => ∀ a, r = .ok a → Q a c') c

variable {Γ iso assume}

/-! ## The open transaction -/

theorem lookup_stage (t : Tx Val) (rows : Db Val) (r : Row) :
    (t.stage rows).writes.lookup r = (rows.lookup r).or (t.writes.lookup r) :=
  lookup_union rows t.writes r

variable {rows σ a b σ' : Db Val} {r : Row} {v : Val r} {tx : Option (Tx Val)} {busy : List Row}
variable {s : Stmt Val Ev} {new : List (Entry Val Ans)} {p : Prog Val Ans α}

theorem lookup_stage_union_of_some {t : Tx Val} (h : rows.lookup r = some v) :
    ((t.stage rows).writes ∪ σ).lookup r = some v := by
  refine lookup_union_of_some ?_
  rw [lookup_stage, h, Option.some_or]

theorem lookup_stage_union_of_none {t : Tx Val} (h : rows.lookup r = none) :
    ((t.stage rows).writes ∪ σ).lookup r = (t.writes ∪ σ).lookup r := by
  rw [lookup_union, lookup_stage, h, Option.none_or, lookup_union]

theorem holds_stage {t : Tx Val} (h : rows.lookup r = some v) : (t.stage rows).Holds r := by
  refine Or.inr (mem_append_left _ ?_)
  rw [← AList.mem_keys, ← AList.lookup_isSome, h]
  rfl

theorem Tx.Holds.stage {t : Tx Val} (h : t.Holds r) (rows : Db Val) : (t.stage rows).Holds r := by
  rcases h with h | h
  · exact Or.inl h
  · exact Or.inr (mem_append_right _ h)

omit [DecidableEq Row] in
theorem Tx.Holds.acquire {t : Tx Val} (h : t.Holds r) (q : Row) (m : Mode) :
    (t.acquire q m).Holds r := by
  cases m with
  | share =>
    rcases h with h | h
    · exact Or.inl (mem_cons_of_mem _ h)
    · exact Or.inr h
  | update =>
    rcases h with h | h
    · exact Or.inl h
    · exact Or.inr (mem_cons_of_mem _ h)

omit [DecidableEq Row] in
theorem holds_acquire (t : Tx Val) (r : Row) (m : Mode) : (t.acquire r m).Holds r := by
  cases m with
  | share => exact Or.inl mem_cons_self
  | update => exact Or.inr mem_cons_self

/-! ## The surroundings -/

theorem Env.refl (tx : Option (Tx Val)) (σ : Db Val) : Env Γ assume tx σ σ :=
  ReflTransGen.refl

theorem Env.trans {c : Db Val} (h : Env Γ assume tx a b) (h' : Env Γ assume tx b c) :
    Env Γ assume tx a c :=
  ReflTransGen.trans h h'

theorem Env.held (h : Env Γ assume tx a b) (hr : held tx r) : b.lookup r = a.lookup r := by
  induction h with
  | refl => rfl
  | tail _ hs ih => rw [hs.2.2 r hr, ih]

theorem Env.weaken {tx' : Option (Tx Val)} (hh : ∀ r, TxLang.held tx r → TxLang.held tx' r)
    (h : Env Γ assume tx' a b) : Env Γ assume tx a b :=
  ReflTransGen.mono (fun _ _ (hs : EnvStep Γ assume tx' _ _) =>
    ⟨hs.1, hs.2.1, fun r hr => hs.2.2 r (hh r hr)⟩) _ _ h

theorem Env.of_stage {t : Tx Val} (h : Env Γ assume (some (t.stage rows)) a b) :
    Env Γ assume (some t) a b := by
  refine Env.weaken ?_ h
  intro r hr
  exact Tx.Holds.stage hr rows

theorem Env.of_acquire {t : Tx Val} {m : Mode} (h : Env Γ assume (some (t.acquire r m)) a b) :
    Env Γ assume (some t) a b := by
  refine Env.weaken ?_ h
  intro q hq
  exact Tx.Holds.acquire hq r m

theorem Env.later (h : Env Γ assume tx a b) : Later Γ a b :=
  ReflTransGen.mono (fun _ _ (hs : EnvStep Γ assume tx _ _) => hs.1) _ _ h

/-- A property every assumed step keeps, the surroundings keep. -/
theorem Env.assumed {P : Db Val → Prop} (hP : ∀ {a b}, assume a b → P a → P b)
    (h : Env Γ assume tx a b) (ha : P a) : P b := by
  induction h with
  | refl => exact ha
  | tail _ hs ih => exact hP hs.2.1 ih

theorem Local.inv {c : Ctx Val Ans} {r : Option (s.Reply Ans)}
    (h : Local iso busy c.db c.tx s r σ' tx new) (ho : Owes Γ c s) (hi : Γ.Inv c.db) :
    Γ.Inv σ' := by
  obtain ⟨σ, tx0, log⟩ := c
  cases h with
  | commit => exact Γ.keeps hi (ho _ rfl).1
  | auto clock => exact Γ.keeps hi (ho clock).1
  | autoLost clock => exact Γ.keeps hi (ho clock).1
  | _ => exact hi

theorem Local.later {c : Ctx Val Ans} {r : Option (s.Reply Ans)}
    (h : Local iso busy c.db c.tx s r σ' tx new) (ho : Owes Γ c s) : Later Γ c.db σ' := by
  obtain ⟨σ, tx0, log⟩ := c
  cases h with
  | commit => exact .single (ho _ rfl).1
  | auto clock => exact .single (ho clock).1
  | autoLost clock => exact .single (ho clock).1
  | _ => exact .refl

/-! ## Structural rules -/

theorem wp_mono {Q Q' : α → Ctx Val Ans → Prop} (hQ : ∀ a c, Q a c → Q' a c) :
    ∀ {c : Ctx Val Ans}, wp Γ iso assume p Q c → wp Γ iso assume p Q' c := by
  induction p with
  | ret a => exact fun {c} h => hQ a c h
  | step s k ih =>
    intro c h σ henv hinv
    obtain ⟨ho, hk⟩ := h σ henv hinv
    exact ⟨ho, fun busy r σ' tx new hl => ih r (hk busy r σ' tx new hl)⟩

theorem wp_bind {f : α → Prog Val Ans β} {Q : β → Ctx Val Ans → Prop} :
    ∀ {c : Ctx Val Ans}, wp Γ iso assume p (fun a c' => wp Γ iso assume (f a) Q c') c →
      wp Γ iso assume (p.bind f) Q c := by
  induction p with
  | ret a => exact fun h => h
  | step s k ih =>
    intro c h σ henv hinv
    obtain ⟨ho, hk⟩ := h σ henv hinv
    exact ⟨ho, fun busy r σ' tx new hl => ih r (hk busy r σ' tx new hl)⟩

theorem wp_env {p : Prog Val Ans Unit} {c : Ctx Val Ans} (henv : Env Γ assume c.tx c.db σ)
    (h : wp Γ iso assume p (fun _ _ => True) c) :
    wp Γ iso assume p (fun _ _ => True) { c with db := σ } := by
  cases p with
  | ret a => trivial
  | step s k => exact fun σ' henv' hinv => h σ' (henv.trans henv') hinv

/-- What a program does to the rows, beside what is proved of it: they move
by the contract's transitions. -/
theorem wp_moves {Q : α → Ctx Val Ans → Prop} :
    ∀ {c : Ctx Val Ans}, Γ.Inv c.db → wp Γ iso assume p Q c →
      wp Γ iso assume p (fun a c' => Q a c' ∧ Γ.Inv c'.db ∧ Later Γ c.db c'.db) c := by
  induction p with
  | ret a => exact fun {c} hi h => ⟨h, hi, .refl⟩
  | step s k ih =>
    intro c hi h σ henv hinv
    obtain ⟨ho, hk⟩ := h σ henv hinv
    refine ⟨ho, fun busy r σ' tx new hl => ?_⟩
    refine wp_mono ?_ (ih r (hl.inv (c := { c with db := σ }) ho hinv) (hk busy r σ' tx new hl))
    rintro a c' ⟨hQ, hi', hlater⟩
    have hstmt := hl.later (c := { c with db := σ }) ho
    exact ⟨hQ, hi', (henv.later.trans hstmt).trans hlater⟩

/-- What a program may return at all, beside what is proved of it. -/
theorem wp_endsIn {Q : α → Ctx Val Ans → Prop} {R : α → Prop} (hR : p.EndsIn R) :
    ∀ {c : Ctx Val Ans}, wp Γ iso assume p Q c →
      wp Γ iso assume p (fun a c' => Q a c' ∧ R a) c := by
  induction p with
  | ret a => exact fun h => ⟨h, hR⟩
  | step s k ih =>
    intro c h σ henv hinv
    obtain ⟨ho, hk⟩ := h σ henv hinv
    exact ⟨ho, fun busy r σ' tx new hl => ih r (hR r) (hk busy r σ' tx new hl)⟩

theorem wp_reads (hp : p.All fun st => st.reads = true) :
    ∀ {c : Ctx Val Ans}, Γ.Inv c.db → wp Γ iso assume p (fun _ c' => c'.tx = c.tx ∧
      Env Γ assume c.tx c.db c'.db ∧ Γ.Inv c'.db ∧ c'.log = c.log) c := by
  induction p with
  | ret a => exact fun hi => ⟨rfl, Env.refl _ _, hi, rfl⟩
  | step st k ih =>
    intro c hi σ henv hinv
    obtain ⟨db, tx0, log⟩ := c
    obtain ⟨hst, hk⟩ := hp
    refine ⟨?_, fun busy r σ' tx new hl => ?_⟩
    · cases st <;> trivial
    · have hsame : σ' = σ ∧ tx = tx0 ∧ new = [] := by
        cases hl <;> first | exact ⟨rfl, rfl, rfl⟩ | cases hst
      obtain ⟨rfl, rfl, rfl⟩ := hsame
      refine wp_mono ?_ (ih r (hk r) hinv)
      rintro a c' ⟨htx, henv', hi', hlog⟩
      exact ⟨htx, henv.trans henv', hi', hlog.trans (append_nil _)⟩

theorem wp_ignore {Q : α → Ctx Val Ans → Prop} {c : Ctx Val Ans} (h : wp Γ iso assume p Q c) :
    wp Γ iso assume (ignore p) (fun _ _ => True) c :=
  wp_bind (wp_mono (fun _ _ _ => trivial) h)

/-- Asking the world: allowed where it happens, and any answer may come. -/
theorem wp_ask (ev : Ev) {f : Option (Ans ev) → Prog Val Ans β} {Q : β → Ctx Val Ans → Prop}
    {c : Ctx Val Ans} (h : ∀ σ, Env Γ assume c.tx c.db σ → Γ.Inv σ → Γ.Allow ⟨σ, c.tx, c.log⟩ ev ∧
      ∀ ans, wp Γ iso assume (f ans) Q ⟨σ, c.tx, c.log ++ [.called ev ans]⟩) :
    wp Γ iso assume (ask ev >>= f) Q c := by
  obtain ⟨db, tx0, log⟩ := c
  intro σ henv hinv
  obtain ⟨hallow, hnext⟩ := h σ henv hinv
  refine ⟨hallow, fun busy r σ' tx new hl => ?_⟩
  cases hl with
  | fault _ _ hcall => exact absurd rfl (hcall ev)
  | call => exact hnext r

/-! ## Rules for fallible code -/

section Code

variable {Q : α → Ctx Val Ans → Prop} {c : Ctx Val Ans}

variable {x body : Code Err Val Ans α} {a : α} {e : Err} {f : α → Code Err Val Ans β} {b : Bool}
variable {o : Option α} {m : Mode} {row : Row}

theorem wpc_mono {Q' : α → Ctx Val Ans → Prop} (hQ : ∀ a c, Q a c → Q' a c)
    (h : wpc Γ iso assume x Q c) : wpc Γ iso assume x Q' c :=
  wp_mono (fun _ c' hr a ha => hQ a c' (hr a ha)) h

theorem wpc_pure (h : Q a c) : wpc Γ iso assume (pure a : Code Err Val Ans α) Q c := by
  intro b hb
  cases hb
  exact h

theorem wpc_throw : wpc Γ iso assume (throw e : Code Err Val Ans α) Q c := by
  intro b hb
  cases hb

theorem wpc_bind {Q : β → Ctx Val Ans → Prop}
    (h : wpc Γ iso assume x (fun a c' => wpc Γ iso assume (f a) Q c') c) :
    wpc Γ iso assume (x >>= f) Q c := by
  refine wp_bind (p := x.run) (f := ExceptT.bindCont f) (wp_mono ?_ h)
  intro r c' hr
  cases r with
  | ok a => exact hr a rfl
  | error e => exact fun _ hb => nomatch hb

theorem wpc_refuse {Q : Unit → Ctx Val Ans → Prop} (h : b = false → Q () c) :
    wpc Γ iso assume (refuse b e) Q c := by
  cases b with
  | true => exact wpc_throw
  | false => exact wpc_pure (h rfl)

theorem wpc_lift {x : Except Err α} (h : ∀ a, x = .ok a → Q a c) :
    wpc Γ iso assume (lift x) Q c :=
  h

theorem wpc_found (h : ∀ a, o = some a → Q a c) : wpc Γ iso assume (found o e) Q c := by
  cases o with
  | none => exact wpc_throw
  | some a => exact wpc_pure (h a rfl)

theorem wpc_mapErr {f : Err → Err} (h : wpc Γ iso assume x Q c) :
    wpc Γ iso assume (mapErr f x) Q c := by
  refine wp_bind (wp_mono ?_ h)
  intro r c' hr
  cases r with
  | ok a => exact hr
  | error e => exact fun _ hb => nomatch hb

theorem wpc_ite {b : Prop} [Decidable b] {y : Code Err Val Ans α} (hx : b → wpc Γ iso assume x Q c)
    (hy : ¬ b → wpc Γ iso assume y Q c) : wpc Γ iso assume (if b then x else y) Q c := by
  split
  · exact hx ‹_›
  · exact hy ‹_›

theorem wpc_reads (hx : x.run.All fun st => st.reads = true) (hi : Γ.Inv c.db)
    (h : ∀ a σ, Env Γ assume c.tx c.db σ → Γ.Inv σ → Q a ⟨σ, c.tx, c.log⟩) :
    wpc Γ iso assume x Q c := by
  refine wp_mono ?_ (wp_reads hx hi)
  rintro r ⟨db, tx, log⟩ ⟨rfl, henv, hi', rfl⟩ a _
  exact h a db henv hi'

variable {fault : Err}

/-- The rule all statement rules come from: the answered replies only. -/
theorem wpc_send {s : Stmt Val Ev} {Q : s.Reply Ans → Ctx Val Ans → Prop}
    (h : ∀ σ, Env Γ assume c.tx c.db σ → Γ.Inv σ → Owes Γ { c with db := σ } s ∧
      ∀ (busy : List Row) (r : s.Reply Ans) (σ' : Db Val) (tx : Option (Tx Val))
        (new : List (Entry Val Ans)), Local iso busy σ c.tx s (some r) σ' tx new →
        Q r ⟨σ', tx, c.log ++ new⟩) :
    wpc Γ iso assume (send fault s) Q c := by
  intro σ henv hinv
  obtain ⟨ho, hk⟩ := h σ henv hinv
  refine ⟨ho, fun busy r σ' tx new hl => ?_⟩
  cases r with
  | none => exact fun _ hb => nomatch hb
  | some r =>
    intro b hb
    cases hb
    exact hk busy r σ' tx new hl

theorem wpc_select {Q : Db Val → Ctx Val Ans → Prop} (h : ∀ σ, Env Γ assume c.tx c.db σ → Γ.Inv σ →
      Q (view iso σ c.tx) ⟨σ, c.tx, c.log⟩) :
    wpc Γ iso assume (send fault .select) Q c := by
  refine wpc_send fun σ henv hinv => ⟨trivial, fun busy r σ' tx new hl => ?_⟩
  obtain ⟨db, tx0, log⟩ := c
  cases hl
  simpa using h σ henv hinv

theorem wpc_now {Q : Nat → Ctx Val Ans → Prop}
    (h : ∀ σ clock, Env Γ assume c.tx c.db σ → Γ.Inv σ → Q clock ⟨σ, c.tx, c.log⟩) :
    wpc Γ iso assume (send fault .now) Q c := by
  refine wpc_send fun σ henv hinv => ⟨trivial, fun busy r σ' tx new hl => ?_⟩
  obtain ⟨db, tx0, log⟩ := c
  cases hl
  simpa using h σ r henv hinv

theorem wpc_random {Q : Nat → Ctx Val Ans → Prop}
    (h : ∀ σ n, Env Γ assume c.tx c.db σ → Γ.Inv σ → Q n ⟨σ, c.tx, c.log⟩) :
    wpc Γ iso assume (send fault .random) Q c := by
  refine wpc_send fun σ henv hinv => ⟨trivial, fun busy r σ' tx new hl => ?_⟩
  obtain ⟨db, tx0, log⟩ := c
  cases hl
  simpa using h σ r henv hinv

variable {t : Tx Val}

theorem wpc_lock {Q : Option (Val row) → Ctx Val Ans → Prop} (ht : c.tx = some t)
    (hmiss : ∀ σ, Env Γ assume (some t) c.db σ → Γ.Inv σ → (view iso σ (some t)).lookup row = none →
      Q none ⟨σ, some t, c.log⟩) (hhit : ∀ σ v, Env Γ assume (some t) c.db σ → Γ.Inv σ →
      (view iso σ (some t)).lookup row = some v → Q (some v) ⟨σ, some (t.acquire row m), c.log⟩) :
    wpc Γ iso assume (send fault (.lock m row)) Q c := by
  rw [← ht] at hmiss hhit
  refine wpc_send fun σ henv hinv => ⟨trivial, fun busy r σ' tx new hl => ?_⟩
  obtain ⟨db, tx0, log⟩ := c
  subst ht
  cases hl with
  | lock hv => simpa using hhit σ _ henv hinv hv
  | lockMiss hv => simpa using hmiss σ henv hinv hv

theorem wpc_lock_found {f : Val row → Code Err Val Ans α} (ht : c.tx = some t)
    (h : ∀ σ v, Env Γ assume (some t) c.db σ → Γ.Inv σ → (view iso σ (some t)).lookup row = some v →
      wpc Γ iso assume (f v) Q ⟨σ, some (t.acquire row m), c.log⟩) :
    wpc Γ iso assume
      ((send fault (.lock m row) : Code Err Val Ans (Option (Val row))) >>= fun o =>
        found o e >>= f) Q c :=
  wpc_bind (wpc_lock ht (fun _ _ _ _ => wpc_bind wpc_throw)
    fun σ v henv hinv hv => wpc_bind (wpc_pure (h σ v henv hinv hv)))

theorem wpc_update {f : Db Val → Db Val} {Q : Db Val → Ctx Val Ans → Prop} (ht : c.tx = some t)
    (h : ∀ σ, Env Γ assume (some t) c.db σ → Γ.Inv σ →
      Writable iso σ t (f (view iso σ (some t))) →
      Q (f (view iso σ (some t))) ⟨σ, some (t.stage (f (view iso σ (some t)))), c.log⟩) :
    wpc Γ iso assume (send fault (.update f)) Q c := by
  rw [← ht] at h
  refine wpc_send fun σ henv hinv => ⟨trivial, fun busy r σ' tx new hl => ?_⟩
  obtain ⟨db, tx0, log⟩ := c
  subst ht
  cases hl with
  | update hw => simpa using h σ henv hinv hw

theorem wpc_insert {rows : Db Val} {Q : Bool → Ctx Val Ans → Prop} (ht : c.tx = some t)
    (hdup : ∀ σ, Env Γ assume (some t) c.db σ → Γ.Inv σ →
      (∃ r ∈ rows.keys, (view iso σ (some t)).lookup r ≠ none) → Q false ⟨σ, some t, c.log⟩)
    (hnew : ∀ σ, Env Γ assume (some t) c.db σ → Γ.Inv σ →
      (∀ r ∈ rows.keys, (view iso σ (some t)).lookup r = none) → Writable iso σ t rows →
      Q true ⟨σ, some (t.stage rows), c.log⟩) :
    wpc Γ iso assume (send fault (.insert rows)) Q c := by
  rw [← ht] at hdup hnew
  refine wpc_send fun σ henv hinv => ⟨trivial, fun busy r σ' tx new hl => ?_⟩
  obtain ⟨db, tx0, log⟩ := c
  subst ht
  cases hl with
  | insert hn hw => simpa using hnew σ henv hinv hn hw
  | duplicate hr hv => simpa using hdup σ henv hinv ⟨_, hr, hv⟩

theorem wpc_commit {Q : Unit → Ctx Val Ans → Prop} (ht : c.tx = some t)
    (htrans : ∀ σ, Env Γ assume (some t) c.db σ → Γ.Inv σ →
      Publishes Γ ⟨σ, some t, c.log⟩ (t.writes ∪ σ))
    (h : ∀ σ, Env Γ assume (some t) c.db σ → Γ.Inv σ →
      Q () ⟨t.writes ∪ σ, none, c.log ++ [.committed σ (t.writes ∪ σ)]⟩) :
    wpc Γ iso assume (send fault .commit) Q c := by
  rw [← ht] at htrans h
  refine wpc_send fun σ henv hinv => ⟨fun u hu => ?_, fun busy r σ' tx new hl => ?_⟩
  · cases hu.symm.trans ht
    exact htrans σ henv hinv
  · obtain ⟨db, tx0, log⟩ := c
    subst ht
    cases hl with
    | commit => exact h σ henv hinv

theorem wpc_skipLocked {pick : Db Val → List (Sigma Val)}
    {Q : List (Sigma Val) → Ctx Val Ans → Prop} (ht : c.tx = some t)
    (h : ∀ σ (busy : List Row), Env Γ assume (some t) c.db σ → Γ.Inv σ →
      Q (pick (without (view iso σ (some t)) busy)) ⟨σ, some { t with
        excl := (pick (without (view iso σ (some t)) busy)).map Sigma.fst ++ t.excl }, c.log⟩) :
    wpc Γ iso assume (send fault (.skipLocked pick)) Q c := by
  rw [← ht] at h
  refine wpc_send fun σ henv hinv => ⟨trivial, fun busy r σ' tx new hl => ?_⟩
  obtain ⟨db, tx0, log⟩ := c
  subst ht
  cases hl with
  | skipLocked => simpa using h σ busy henv hinv

theorem wpc_rollback {Q : Unit → Ctx Val Ans → Prop}
    (h : ∀ σ, Env Γ assume c.tx c.db σ → Γ.Inv σ → Q () ⟨σ, none, c.log⟩) :
    wpc Γ iso assume (send fault .rollback) Q c := by
  refine wpc_send fun σ henv hinv => ⟨trivial, fun busy r σ' tx new hl => ?_⟩
  obtain ⟨db, tx0, log⟩ := c
  cases hl with
  | rollback =>
    rw [append_nil]
    exact h σ henv hinv

/-! Code outside transactions: there an error is an answer like any other. -/

theorem wp_code_bind {Q : Except Err β → Ctx Val Ans → Prop}
    (h : wp Γ iso assume x.run (fun r c' => (∀ e, r = .error e → Q (.error e) c') ∧ ∀ a, r = .ok a →
      wp Γ iso assume (f a).run Q c') c) :
    wp Γ iso assume (x >>= f).run Q c := by
  refine wp_bind (p := x.run) (f := ExceptT.bindCont f) (wp_mono ?_ h)
  rintro r c' ⟨herr, hok⟩
  cases r with
  | ok a => exact hok a rfl
  | error e => exact herr e rfl

theorem wp_send_bind {st : Stmt Val Ev} {f : st.Reply Ans → Code Err Val Ans β}
    {Q : Except Err β → Ctx Val Ans → Prop}
    (h : ∀ σ, Env Γ assume c.tx c.db σ → Γ.Inv σ → Owes Γ { c with db := σ } st ∧
      ∀ (busy : List Row) (r : Option (st.Reply Ans)) (σ' : Db Val) (tx : Option (Tx Val))
        (new : List (Entry Val Ans)), Local iso busy σ c.tx st r σ' tx new →
        (r = none → Q (.error fault) ⟨σ', tx, c.log ++ new⟩) ∧
        ∀ a, r = some a → wp Γ iso assume (f a).run Q ⟨σ', tx, c.log ++ new⟩) :
    wp Γ iso assume ((send fault st : Code Err Val Ans _) >>= f).run Q c := by
  intro σ henv hinv
  obtain ⟨ho, hk⟩ := h σ henv hinv
  refine ⟨ho, fun busy r σ' tx new hl => ?_⟩
  obtain ⟨hnone, hsome⟩ := hk busy r σ' tx new hl
  cases r with
  | none => exact hnone rfl
  | some a => exact hsome a rfl

theorem wp_mapErr {g : Err → Err} {Q : Except Err α → Ctx Val Ans → Prop}
    (h : wp Γ iso assume x.run (fun r c' => (∀ e, r = .error e → Q (.error (g e)) c') ∧ ∀ a,
      r = .ok a → Q (.ok a) c') c) :
    wp Γ iso assume (mapErr g x).run Q c := by
  refine wp_bind (wp_mono ?_ h)
  rintro r c' ⟨herr, hok⟩
  cases r with
  | ok a => exact hok a rfl
  | error e => exact herr e rfl

theorem wp_tryCatch {f : Err → Code Err Val Ans α} {Q : Except Err α → Ctx Val Ans → Prop}
    (h : wp Γ iso assume x.run (fun r c' => (∀ a, r = .ok a → Q (.ok a) c') ∧ ∀ e, r = .error e →
      wp Γ iso assume (f e).run Q c') c) :
    wp Γ iso assume (tryCatch x f : Code Err Val Ans α).run Q c := by
  refine wp_bind (p := x.run) (wp_mono ?_ h)
  rintro r c' ⟨hok, herr⟩
  cases r with
  | ok a => exact hok a rfl
  | error e => exact herr e rfl

theorem wp_refuse {Q : Except Err Unit → Ctx Val Ans → Prop} (herr : Q (.error e) c)
    (h : b = false → Q (.ok ()) c) :
    wp Γ iso assume (refuse b e : Code Err Val Ans Unit).run Q c := by
  cases b with
  | true => exact herr
  | false => exact h rfl

theorem wp_refuse_bind {f : Unit → Code Err Val Ans β} {Q : Except Err β → Ctx Val Ans → Prop}
    (herr : Q (.error e) c) (h : b = false → wp Γ iso assume (f ()).run Q c) :
    wp Γ iso assume (refuse b e >>= f).run Q c := by
  cases b with
  | true => exact herr
  | false => exact h rfl

theorem wp_lift_bind {x : Except Err α} {Q : Except Err β → Ctx Val Ans → Prop}
    (herr : ∀ e, x = .error e → Q (.error e) c)
    (h : ∀ a, x = .ok a → wp Γ iso assume (f a).run Q c) :
    wp Γ iso assume (lift x >>= f).run Q c := by
  cases x with
  | error e => exact herr e rfl
  | ok a => exact h a rfl

theorem wp_found_bind {Q : Except Err β → Ctx Val Ans → Prop} (herr : Q (.error e) c)
    (h : ∀ a, o = some a → wp Γ iso assume (f a).run Q c) :
    wp Γ iso assume (found o e >>= f).run Q c := by
  cases o with
  | none => exact herr
  | some a => exact h a rfl

/-! Where the outcome of a check is known. -/

theorem wp_passes {f : Unit → Code Err Val Ans β} {Q : Except Err β → Ctx Val Ans → Prop}
    (hb : b = false) (h : wp Γ iso assume (f ()).run Q c) :
    wp Γ iso assume (refuse b e >>= f).run Q c := by
  subst hb
  exact h

theorem wp_refused {f : Unit → Code Err Val Ans β} {Q : Except Err β → Ctx Val Ans → Prop}
    (hb : b = true) (h : Q (.error e) c) : wp Γ iso assume (refuse b e >>= f).run Q c := by
  subst hb
  exact h

theorem wp_finds {Q : Except Err β → Ctx Val Ans → Prop} (ho : o = some a)
    (h : wp Γ iso assume (f a).run Q c) : wp Γ iso assume (found o e >>= f).run Q c := by
  subst ho
  exact h

theorem wp_select_bind {f : Db Val → Code Err Val Ans β} {Q : Except Err β → Ctx Val Ans → Prop}
    (herr : ∀ σ, Q (.error fault) ⟨σ, c.tx, c.log⟩) (h : ∀ σ, Env Γ assume c.tx c.db σ → Γ.Inv σ →
      wp Γ iso assume (f (view iso σ c.tx)).run Q ⟨σ, c.tx, c.log⟩) :
    wp Γ iso assume ((send fault .select : Code Err Val Ans (Db Val)) >>= f).run Q c := by
  obtain ⟨db, tx0, log⟩ := c
  intro σ henv hinv
  refine ⟨trivial, fun busy r σ' tx new hl => ?_⟩
  cases hl with
  | fault =>
    rw [append_nil]
    exact herr σ
  | select =>
    rw [append_nil]
    exact h σ henv hinv

theorem wp_now_bind {f : Nat → Code Err Val Ans β} {Q : Except Err β → Ctx Val Ans → Prop}
    (herr : ∀ σ, Q (.error fault) ⟨σ, c.tx, c.log⟩)
    (h : ∀ σ clock, Env Γ assume c.tx c.db σ → Γ.Inv σ →
      wp Γ iso assume (f clock).run Q ⟨σ, c.tx, c.log⟩) :
    wp Γ iso assume ((send fault .now : Code Err Val Ans Nat) >>= f).run Q c := by
  obtain ⟨db, tx0, log⟩ := c
  intro σ henv hinv
  refine ⟨trivial, fun busy r σ' tx new hl => ?_⟩
  cases hl with
  | fault =>
    rw [append_nil]
    exact herr σ
  | now clock =>
    rw [append_nil]
    exact h σ clock henv hinv

theorem wp_random_run {f : Except Err Nat → Prog Val Ans β} {Q : β → Ctx Val Ans → Prop}
    (h : ∀ σ r, Env Γ assume c.tx c.db σ → Γ.Inv σ →
      wp Γ iso assume (f r) Q ⟨σ, c.tx, c.log⟩) :
    wp Γ iso assume ((send fault .random : Code Err Val Ans Nat).run >>= f) Q c := by
  obtain ⟨db, tx0, log⟩ := c
  intro σ henv hinv
  refine ⟨trivial, fun busy r σ' tx new hl => ?_⟩
  cases hl with
  | fault =>
    rw [append_nil]
    exact h σ _ henv hinv
  | random n =>
    rw [append_nil]
    exact h σ _ henv hinv

/-- A statement that is a transaction of its own: it has run and said so, has
run with its reply lost, or has not run. -/
theorem wp_auto_run {g : Nat → Db Val → Db Val} {f : Except Err (Nat × Db Val) → Prog Val Ans β}
    {Q : β → Ctx Val Ans → Prop} (hnone : c.tx = none)
    (hpub : ∀ σ clock, Env Γ assume none c.db σ → Γ.Inv σ →
      Publishes Γ ⟨σ, none, c.log⟩ (g clock σ ∪ σ)) (herr : ∀ σ, Later Γ c.db σ → Γ.Inv σ →
      wp Γ iso assume (f (.error fault)) Q ⟨σ, none, c.log⟩)
    (hok : ∀ σ clock, Env Γ assume none c.db σ → Γ.Inv σ → wp Γ iso assume
      (f (.ok (clock, g clock σ))) Q
      ⟨g clock σ ∪ σ, none, c.log ++ [.committed σ (g clock σ ∪ σ)]⟩) :
    wp Γ iso assume ((send fault (.auto g) : Code Err Val Ans (Nat × Db Val)).run >>= f) Q c := by
  obtain ⟨db, tx0, log⟩ := c
  subst hnone
  intro σ henv hinv
  refine ⟨fun clock => hpub σ clock henv hinv, fun busy r σ' tx new hl => ?_⟩
  cases hl with
  | fault =>
    rw [append_nil]
    exact herr σ henv.later hinv
  | auto clock => exact hok σ clock henv hinv
  | autoLost clock =>
    rw [append_nil]
    have hp := hpub σ clock henv hinv
    exact herr _ (henv.later.tail hp.1) (Γ.keeps hinv hp.1)

/-- A transaction of its own: the body starts with nothing staged, and
whatever it returns, nothing stays open. -/
theorem wp_withTx_run {Q : Except Err α → Ctx Val Ans → Prop} (hnone : c.tx = none)
    (hfault : ∀ σ, Q (.error fault) ⟨σ, none, c.log⟩)
    (h : ∀ σ, Env Γ assume none c.db σ → Γ.Inv σ → wp Γ iso assume body.run (fun r c' => ∀ σ',
      Env Γ assume c'.tx c'.db σ' → Γ.Inv σ' → Q r ⟨σ', none, c'.log⟩) ⟨σ, some { snap := σ },
      c.log⟩) :
    wp Γ iso assume (withTx fault body).run Q c := by
  obtain ⟨db, tx0, log⟩ := c
  subst hnone
  intro σ henv hinv
  refine ⟨trivial, fun busy r σ' tx new hl => ?_⟩
  cases hl with
  | fault =>
    rw [append_nil]
    exact hfault σ
  | begin =>
    rw [append_nil]
    refine wp_bind (wp_mono ?_ (h σ henv hinv))
    rintro r ⟨db', tx1, log'⟩ hr σ' henv' hinv'
    refine ⟨trivial, fun busy r' σ'' tx' new' hl' => ?_⟩
    have hend : σ'' = σ' ∧ tx' = none ∧ new' = [] := by
      cases hl' with
      | rollback => exact ⟨rfl, rfl, rfl⟩
      | fault _ hrollback _ => exact absurd rfl hrollback
    obtain ⟨rfl, rfl, rfl⟩ := hend
    rw [append_nil]
    exact hr _ henv' hinv'

theorem wp_withTx {Q : Except Err α → Ctx Val Ans → Prop} (hnone : c.tx = none)
    (herr : ∀ e σ log, Q (.error e) ⟨σ, none, log⟩)
    (h : ∀ σ, Env Γ assume none c.db σ → Γ.Inv σ → wpc Γ iso assume body (fun a c' => ∀ σ',
      Env Γ assume c'.tx c'.db σ' → Γ.Inv σ' → Q (.ok a) ⟨σ', none, c'.log⟩) ⟨σ, some { snap := σ },
      c.log⟩) :
    wp Γ iso assume (withTx fault body).run Q c := by
  refine wp_withTx_run hnone (fun σ => herr _ σ _) fun σ henv hinv => wp_mono ?_ (h σ henv hinv)
  intro r c' hr σ' henv' hinv'
  cases r with
  | ok a => exact hr a rfl σ' henv' hinv'
  | error e => exact herr e σ' _

end Code

end

end TxLang
