import ReliableMessaging.MySql.Effects
import ReliableMessaging.MySql.Later
import ReliableMessaging.TxLang.Soundness

/-!
# Rules for the store's statements

The contract of the transaction tables, and one rule for each statement and
helper the stores are written with. Every rule says where the client stands
afterwards: at rows `σ` that the surroundings may have moved to, with the
transaction it now has.
-/

namespace ReliableMessaging.MySql

open Transaction TxLang List

variable {Ev : Type} {Ans : Ev → Type}

/-- The contract of the transaction tables, for a client that promises `G` of
its commits and may ask `Allow` of the world. -/
def pact (H : Sha256) (G : Tables → Tables → Prop) (Allow : Ctx Val Ans → Ev → Prop) :
    Spec Val Ans where
  Inv := Inv H
  Trans := Trans H
  Earned := fun _ => G
  Allow := Allow
  keeps := fun hi h => h.inv hi

/-- The contract, for clients that promise nothing beside it. -/
abbrev contract (H : Sha256) (Allow : Ctx Val Ans → Ev → Prop) : Spec Val Ans :=
  pact H (fun _ _ => True) Allow

variable {H : Sha256} {Allow : Ctx Val Ans → Ev → Prop} {A G : Tables → Tables → Prop}
variable {α : Type} {c : Ctx Val Ans} {t : Tx Val}

/-! ## Statements -/

variable {Q : Nat → Ctx Val Ans → Prop} {key : Bytes} {cond : ExecutionRow → Bool}
variable {set : ExecutionRow → ExecutionRow} {s : Store} {writer : Bool} {σ : Tables}
variable {rest : Code Err Val Ans α}

theorem wpc_utcTimestamp
    (h : ∀ σ now, Env (pact H G Allow) A c.tx c.db σ → Inv H σ → Q now ⟨σ, c.tx, c.log⟩) :
    wpc (pact H G Allow) .readCommitted A utcTimestamp Q c := by
  unfold utcTimestamp
  refine wpc_bind (wpc_now fun σ n henv hi => wpc_pure ?_)
  exact h σ _ henv hi

theorem wpc_clockIf {b : Bool}
    (h : ∀ σ now, Env (pact H G Allow) A c.tx c.db σ → Q now ⟨σ, c.tx, c.log⟩) :
    wpc (pact H G Allow) .readCommitted A (utcTimestampIf b) Q c :=
  wpc_ite (fun _ => wpc_utcTimestamp fun σ now henv _ => h σ now henv)
    fun _ => wpc_pure (h c.db 0 (Env.refl _ _))

theorem wpc_selectRows {Q : Tables → Ctx Val Ans → Prop}
    (h : ∀ σ, Env (pact H G Allow) A c.tx c.db σ → Inv H σ →
      Q (view .readCommitted σ c.tx) ⟨σ, c.tx, c.log⟩) :
    wpc (pact H G Allow) .readCommitted A select Q c :=
  wpc_select h

theorem wpc_updateRows {rows : Tables → Tables} (ht : c.tx = some t)
    (h : ∀ σ, Env (pact H G Allow) A (some t) c.db σ → Inv H σ →
      Q (rows (t.writes ∪ σ)).keys.length ⟨σ, some (t.stage (rows (t.writes ∪ σ))), c.log⟩) :
    wpc (pact H G Allow) .readCommitted A (update rows) Q c := by
  unfold update
  refine wpc_bind (wpc_update ht fun σ henv hi _ => wpc_pure ?_)
  exact h σ henv hi

theorem wpc_writeExecution {Q : Tables → Ctx Val Ans → Prop} (ht : c.tx = some t)
    (hmiss : ∀ σ rows, Env (pact H G Allow) A (some t) c.db σ → Inv H σ →
      (∀ r, AList.lookup r rows = none) → rows.keys.length = 0 → Q rows ⟨σ, some (t.stage rows),
      c.log⟩)
    (hhit : ∀ σ rows (row : ExecutionRow), Env (pact H G Allow) A (some t) c.db σ → Inv H σ →
      (t.writes ∪ σ).lookup (.execution key) = some row → cond row = true → rows.keys.length = 1 →
      AList.lookup (.execution key) rows = some (set row) → (∀ r, r ≠ .execution key →
      AList.lookup r rows = none) → Q rows ⟨σ, some (t.stage rows), c.log⟩) :
    wpc (pact H G Allow) .readCommitted A
      (send Err.driver (.update (setExecution key cond set))) Q c := by
  refine wpc_update ht fun σ henv hi _ => ?_
  by_cases hn : (setExecution key cond set (t.writes ∪ σ)).keys.length = 0
  · exact hmiss σ _ henv hi (keys_eq_nil_iff.mp (length_eq_zero_iff.mp hn)) hn
  · obtain ⟨row, hrow, hcond⟩ := setExecution_hit hn
    refine hhit σ _ row henv hi hrow hcond (setExecution_one hn) ?_
      fun r hr => lookup_setExecution_ne hr
    rw [show view .readCommitted σ (some t) = t.writes ∪ σ from rfl,
      lookup_setExecution_execution, hrow, Option.bind_some, if_pos ⟨rfl, hcond⟩]

theorem wpc_setExecution (ht : c.tx = some t)
    (hmiss : ∀ σ rows, Env (pact H G Allow) A (some t) c.db σ → Inv H σ →
      (∀ r, AList.lookup r rows = none) → Q 0 ⟨σ, some (t.stage rows), c.log⟩)
    (hhit : ∀ σ rows (row : ExecutionRow) n, Env (pact H G Allow) A (some t) c.db σ → Inv H σ →
      (t.writes ∪ σ).lookup (.execution key) = some row → cond row = true → n = 1 →
      AList.lookup (.execution key) rows = some (set row) → (∀ r, r ≠ .execution key →
      AList.lookup r rows = none) → Q n ⟨σ, some (t.stage rows), c.log⟩) :
    wpc (pact H G Allow) .readCommitted A (update (setExecution key cond set)) Q c := by
  refine wpc_bind (wpc_writeExecution ht (fun σ rows henv hi hnone hn => wpc_pure ?_)
    fun σ rows row henv hi hrow hcond hn hset hrest => wpc_pure ?_)
  · rw [hn]
    exact hmiss σ rows henv hi hnone
  · exact hhit σ rows row _ henv hi hrow hcond hn hset hrest

theorem wpc_insertRow {r : Row} {v : Val r} {Q : Bool → Ctx Val Ans → Prop} (ht : c.tx = some t)
    (hdup : ∀ σ, Env (pact H G Allow) A (some t) c.db σ → Inv H σ →
      (t.writes ∪ σ).lookup r ≠ none → Q false ⟨σ, some t, c.log⟩)
    (hnew : ∀ σ, Env (pact H G Allow) A (some t) c.db σ → Inv H σ →
      (t.writes ∪ σ).lookup r = none →
      Q true ⟨σ, some (t.stage (AList.singleton r v)), c.log⟩) :
    wpc (pact H G Allow) .readCommitted A (insert r v) Q c := by
  refine wpc_insert ht (fun σ henv hi hold => hdup σ henv hi ?_)
    fun σ henv hi hn _ => hnew σ henv hi (hn r ?_)
  · obtain ⟨r', hr', hv⟩ := hold
    cases mem_singleton.mp hr'
    exact hv
  · exact mem_singleton_self r

theorem wpc_commitTx {Q : Unit → Ctx Val Ans → Prop} (ht : c.tx = some t)
    (htrans : ∀ σ, Env (pact H G Allow) A (some t) c.db σ → Inv H σ →
      Trans H σ (t.writes ∪ σ) ∧ G σ (t.writes ∪ σ))
    (h : ∀ σ, Env (pact H G Allow) A (some t) c.db σ → Inv H σ →
      Q () ⟨t.writes ∪ σ, none, c.log ++ [.committed σ (t.writes ∪ σ)]⟩) :
    wpc (pact H G Allow) .readCommitted A commit Q c :=
  wpc_commit ht htrans h

/-! ## The binding row -/

/-- Errors of a call that has not come further than the binding row. -/
def Unreached (err : Err) : Prop :=
  err = .driver ∨ err = .noRows ∨ err = .binding ∨ err = .schema

theorem wp_bindingIn {Q : Except Err Unit → Ctx Val Ans → Prop} (ht : c.tx = some t)
    (hw : t.writes.lookup (.binding s.owner) = none)
    (herr : ∀ err σ tx, Unreached err → Q (.error err) ⟨σ, tx, c.log⟩)
    (h : ∀ σ (b : BindingRow), Env (pact H G Allow) A (some t) c.db σ → Inv H σ →
      σ.lookup (.binding s.owner) = some b → Admits s b writer →
      Q (.ok ()) ⟨σ, some (t.acquire (.binding s.owner) .share), c.log⟩) :
    wp (pact H G Allow) .readCommitted A (bindingIn s writer).run Q c := by
  obtain ⟨db, tx, log⟩ := c
  subst ht
  unfold bindingIn lockBinding
  refine wp_send_bind fun σ henv hi => ⟨trivial, fun busy r σ' tx new hl => ?_⟩
  cases hl with
  | fault =>
    rw [append_nil]
    exact ⟨fun _ => herr _ _ _ (.inl rfl), nofun⟩
  | lockMiss =>
    rw [append_nil]
    refine ⟨nofun, fun o ho => ?_⟩
    cases ho
    exact herr _ _ _ (.inr (.inl rfl))
  | @lock _ _ _ b hb =>
    rw [append_nil]
    refine ⟨nofun, fun o ho => ?_⟩
    cases ho
    refine wp_refuse_bind (herr _ _ _ (.inr (.inr (.inl rfl)))) fun hid => ?_
    refine wp_refuse (herr _ _ _ (.inr (.inr (.inr rfl)))) fun hschema => ?_
    simp only [Bool.or_eq_false_iff, Bool.and_eq_false_iff, decide_eq_false_iff_not, ne_eq,
      not_not] at hid hschema
    exact h σ b henv hi ((lookup_union_of_none hw).symm.trans hb)
      ⟨hid.1, hschema, fun hwriter => hid.2.resolve_left (by simp [hwriter])⟩

theorem wpc_bindingIn {Q : Unit → Ctx Val Ans → Prop} (ht : c.tx = some t)
    (hw : t.writes.lookup (.binding s.owner) = none)
    (h : ∀ σ (b : BindingRow), Env (pact H G Allow) A (some t) c.db σ → Inv H σ →
      σ.lookup (.binding s.owner) = some b → Admits s b writer →
      Q () ⟨σ, some (t.acquire (.binding s.owner) .share), c.log⟩) :
    wpc (pact H G Allow) .readCommitted A (bindingIn s writer) Q c :=
  wp_bindingIn ht hw (fun _ _ _ _ _ ha => nomatch ha)
    fun σ b henv hi hb hlive _ _ => h σ b henv hi hb hlive

/-- The transaction holds a binding row that admits the store. -/
structure Entered (s : Store) (σ : Tables) (t : Tx Val) : Prop where
  held : t.Holds (.binding s.owner)
  admitted : Admitted s σ

theorem Entered.of_admits {b : BindingRow} (hheld : t.Holds (.binding s.owner))
    (hb : σ.lookup (.binding s.owner) = some b) (h : Admits s b writer) : Entered s σ t :=
  ⟨hheld, b, hb, { h with epoch := nofun }⟩

theorem Entered.env {σ' : Tables} (h : Entered s σ t)
    (henv : Env (pact H G Allow) A (some t) σ σ') : Entered s σ' t := by
  obtain ⟨b, hb, hadmits⟩ := h.admitted
  exact ⟨h.held, b, (henv.held h.held).trans hb, hadmits⟩

theorem Entered.acquire (h : Entered s σ t) (r : Row) (m : Mode) : Entered s σ (t.acquire r m) :=
  ⟨h.held.acquire r m, h.admitted⟩

/-- A transaction of the store's own that starts at the binding row: it goes
on with nothing staged and the binding row held. -/
theorem wp_withBinding_run {Q : Except Err α → Ctx Val Ans → Prop} (hnone : c.tx = none)
    (herr : ∀ err σ, Unreached err → Q (.error err) ⟨σ, none, c.log⟩)
    (h : ∀ σ t (b : BindingRow), Later (pact H G Allow) c.db σ → Inv H σ →
      (∀ r, t.writes.lookup r = none) → t.Holds (.binding s.owner) →
      σ.lookup (.binding s.owner) = some b → Admits s b writer →
      wp (pact H G Allow) .readCommitted A rest.run (fun r c' => ∀ σ',
      Env (pact H G Allow) A c'.tx c'.db σ' → Inv H σ' → Q r ⟨σ', none, c'.log⟩) ⟨σ, some t, c.log⟩) :
    wp (pact H G Allow) .readCommitted A
      (withTx .driver (bindingIn s writer >>= fun _ => rest)).run Q c := by
  refine wp_withTx_run hnone (fun σ => herr _ σ (.inl rfl)) fun σ0 henv0 _ => ?_
  refine wp_code_bind (wp_bindingIn rfl (AList.lookup_empty _) (fun err σ tx hun => ?_)
    fun σ b henv hi hb hlive => ⟨nofun, fun _ _ => ?_⟩)
  · refine ⟨fun err' heq σ' _ _ => ?_, nofun⟩
    cases heq
    exact herr err σ' hun
  · exact h σ _ b (henv0.later.trans henv.later) hi (fun r => AList.lookup_empty r)
      (holds_acquire _ _ _) hb hlive

theorem wp_withBinding {Q : Except Err α → Ctx Val Ans → Prop} (hnone : c.tx = none)
    (herr : ∀ e σ log, Q (.error e) ⟨σ, none, log⟩)
    (h : ∀ σ t (b : BindingRow), Later (pact H G Allow) c.db σ → Inv H σ →
      (∀ r, t.writes.lookup r = none) → t.Holds (.binding s.owner) →
      σ.lookup (.binding s.owner) = some b → Admits s b writer →
      wpc (pact H G Allow) .readCommitted A rest (fun a c' => ∀ σ',
      Env (pact H G Allow) A c'.tx c'.db σ' → Inv H σ' → Q (.ok a) ⟨σ', none, c'.log⟩) ⟨σ, some t,
      c.log⟩) :
    wp (pact H G Allow) .readCommitted A
      (withTx .driver (bindingIn s writer >>= fun _ => rest)).run Q c := by
  refine wp_withBinding_run hnone (fun e σ _ => herr e σ _) fun σ t b hl hi he hh hb hlive =>
    wp_mono ?_ (h σ t b hl hi he hh hb hlive)
  intro r c' hr σ' henv' hi'
  cases r with
  | ok a => exact hr a rfl σ' henv' hi'
  | error e => exact herr e σ' _

end ReliableMessaging.MySql
