import ReliableMessaging.MySql.Verified.Store

/-!
# Guards keep the contract

What a host's open transaction has staged is known execution by execution: it
is untouched, or bound, or its witnesses and then the execution itself are
staged as committed (`Touched`). The binding row and every staged row are
held, so the surroundings cannot change what was staged over (`HostOk.env`),
and a host that commits where nothing is half staged makes a transition
(`HostOk.trans`).
-/

namespace ReliableMessaging.MySql

open Transaction TxLang Option

variable {Ev : Type} {Ans : Ev → Type}
variable {H : Sha256} {Allow : Ctx Val Ans → Ev → Prop} {A G : Tables → Tables → Prop}
variable {c : Ctx Val Ans} {s : Store} {e : Execution} {t t' : Tx Val} {σ σ' : Tables}
variable {k : Bytes} {row : ExecutionRow} {g : Nat} {xs ws : State}

def Untouched (t : Tx Val) (k : Bytes) : Prop :=
  t.writes.lookup (.execution k) = none ∧ ∀ b, t.writes.lookup (.witness k b) = none

/-- The execution row is staged in state `xs`, over the committed `row`, and
its witnesses in state `ws` unless that is where they are. -/
structure Touched (σ : Tables) (t : Tx Val) (k : Bytes) (row : ExecutionRow) (g : Nat)
    (xs ws : State) : Prop where
  stored : σ.lookup (.execution k) = some row
  prepared : row.state = .prepared
  held : t.Holds (.execution k)
  binding : t.Holds (.binding row.owner)
  live : Live σ row.owner row.writerEpoch
  staged : t.writes.lookup (.execution k) = some { row with guardVersion := g, state := xs }
  witness : ∀ b, t.writes.lookup (.witness k b) = if ws = .prepared then none else
    (σ.lookup (.witness k b)).map fun w : WitnessRow => { w with state := ws }
  witnessHeld : ∀ b (w : WitnessRow), t.writes.lookup (.witness k b) = some w →
    t.Holds (.witness k b)

/-- Every execution is untouched, or consistently staged. -/
structure HostOk (σ : Tables) (t : Tx Val) : Prop where
  binding : ∀ o, t.writes.lookup (.binding o) = none
  request : ∀ q, t.writes.lookup (.request q) = none
  key : ∀ k, Untouched t k ∨ ∃ row g st, st ≠ .aborted ∧ Touched σ t k row g st st

theorem HostOk.start (hempty : ∀ r, t.writes.lookup r = none) : HostOk σ t :=
  ⟨fun _ => hempty _, fun _ => hempty _, fun _ => .inl ⟨hempty _, fun _ => hempty _⟩⟩

/-- Only the rows of the execution itself matter, and holding more does not. -/
theorem Touched.congr (h : Touched σ t k row g xs ws)
    (hx : t'.writes.lookup (.execution k) = t.writes.lookup (.execution k))
    (hw : ∀ b, t'.writes.lookup (.witness k b) = t.writes.lookup (.witness k b))
    (hh : ∀ r, t.Holds r → t'.Holds r) : Touched σ t' k row g xs ws := by
  obtain ⟨h1, h2, h3, h4, h5, h6, h7, h8⟩ := h
  refine ⟨h1, h2, hh _ h3, hh _ h4, h5, hx.trans h6, fun b => (hw b).trans (h7 b), ?_⟩
  intro b w hb
  rw [hw] at hb
  exact hh _ (h8 b w hb)

theorem HostOk.touch (h : HostOk σ t) (hother : ∀ r, r ≠ .execution k →
    (∀ b, r ≠ .witness k b) → t'.writes.lookup r = t.writes.lookup r)
    (hh : ∀ r, t.Holds r → t'.Holds r)
    (hk : ∃ row g st, st ≠ .aborted ∧ Touched σ t' k row g st st) : HostOk σ t' := by
  refine ⟨fun o => ?_, fun q => ?_, fun k' => ?_⟩
  · rw [hother _ Row.noConfusion fun _ => Row.noConfusion]
    exact h.binding o
  · rw [hother _ Row.noConfusion fun _ => Row.noConfusion]
    exact h.request q
  · by_cases hkk : k' = k
    · subst hkk
      exact .inr hk
    · have hx : t'.writes.lookup (.execution k') = t.writes.lookup (.execution k') :=
        hother _ (fun heq => hkk (Row.execution.inj heq)) fun _ => Row.noConfusion
      have hw : ∀ b, t'.writes.lookup (.witness k' b) = t.writes.lookup (.witness k' b) :=
        fun b => hother _ Row.noConfusion fun _ heq => hkk (Row.witness.inj heq).1
      rcases h.key k' with ⟨hux, huw⟩ | ⟨row, g, st, hst, ht⟩
      · exact .inl ⟨hx.trans hux, fun b => (hw b).trans (huw b)⟩
      · exact .inr ⟨row, g, st, hst, ht.congr hx hw hh⟩

theorem HostOk.more (h : HostOk σ t) (hw : t'.writes = t.writes)
    (hh : ∀ r, t.Holds r → t'.Holds r) : HostOk σ t' := by
  refine ⟨fun o => ?_, fun q => ?_, fun k => ?_⟩
  · rw [hw]
    exact h.binding o
  · rw [hw]
    exact h.request q
  · rcases h.key k with hu | ⟨row, g, st, hst, ht⟩
    · refine .inl ?_
      unfold Untouched
      rw [hw]
      exact hu
    · refine .inr ⟨row, g, st, hst, ht.congr ?_ (fun b => ?_) hh⟩ <;> rw [hw]

theorem Touched.env (hi : Inv H σ) (hi' : Inv H σ') (h : Touched σ t k row g xs ws)
    (henv : Env (pact H G Allow) A (some t) σ σ') : Touched σ' t k row g xs ws := by
  have hrow' := (henv.held h.held).trans h.stored
  refine { h with stored := hrow', live := ?_, witness := fun b => ?_ }
  · obtain ⟨b, hb, hepoch⟩ := h.live
    exact ⟨b, (henv.held h.binding).trans hb, hepoch⟩
  · rw [h.witness b]
    by_cases hws : ws = .prepared
    · rw [if_pos hws, if_pos hws]
    · rw [if_neg hws, if_neg hws]
      have hstaged := h.witness b
      rw [if_neg hws] at hstaged
      cases hw : σ.lookup (.witness k b) with
      | some w =>
        rw [hw] at hstaged
        rw [henv.held (h.witnessHeld b _ hstaged), hw]
      | none =>
        rw [hi.no_witness_later hi' h.stored hrow' hw]

theorem HostOk.env (hi : Inv H σ) (hi' : Inv H σ') (h : HostOk σ t)
    (henv : Env (pact H G Allow) A (some t) σ σ') : HostOk σ' t := by
  refine ⟨h.binding, h.request, fun k => ?_⟩
  rcases h.key k with hu | ⟨row, g, st, hst, ht⟩
  · exact .inl hu
  · exact .inr ⟨row, g, st, hst, ht.env hi hi' henv⟩

theorem HostOk.trans (h : HostOk σ t) : Trans H σ (t.writes ∪ σ) := by
  refine .evolve ⟨fun o => lookup_union_of_none (h.binding o),
    fun q => lookup_union_of_none (h.request q), fun k => ?_⟩
  rcases h.key k with ⟨hx, hw⟩ | ⟨row, g, st, hst, ht⟩
  · exact .of_eq (lookup_union_of_none hx) fun b => lookup_union_of_none (hw b)
  · cases st with
    | aborted => exact absurd rfl hst
    | prepared =>
      refine .of_execution ht.stored (lookup_union_of_some ht.staged)
        ⟨by rw [← ht.prepared], .inl ht.prepared.symm, .inl rfl⟩ ht.prepared.symm fun b => ?_
      refine lookup_union_of_none ?_
      rw [ht.witness b, if_pos rfl]
    | committed =>
      refine .of_end ht.stored (lookup_union_of_some ht.staged)
        ⟨rfl, .inr ⟨ht.prepared, .inr ⟨rfl, ht.live⟩⟩, .inl rfl⟩ (fun b hb => ?_) fun b w hw => ?_
      · rw [lookup_union_of_none, hb]
        rw [ht.witness b, if_neg State.noConfusion, hb, map_none]
      · refine ⟨{ w with state := .committed }, lookup_union_of_some ?_, rfl, rfl⟩
        rw [ht.witness b, if_neg State.noConfusion, hw, map_some]

/-! ## Bind -/

theorem wpc_checkWitnesses {key : Bytes} {refs : List Reference} {Q : Unit → Ctx Val Ans → Prop}
    (ht : c.tx = some t) (hi : Inv H c.db)
    (h : ∀ σ t', Env (pact H G Allow) A (some t) c.db σ → Inv H σ →
      (∀ r, t.Holds r → t'.Holds r) → t'.writes = t.writes → Q () ⟨σ, some t', c.log⟩) :
    wpc (pact H G Allow) .readCommitted A (Guard.checkWitnesses H key refs) Q c := by
  induction refs generalizing c t with
  | nil =>
    obtain ⟨db, tx, log⟩ := c
    subst ht
    exact wpc_pure (h db t (Env.refl _ _) hi (fun _ hr => hr) rfl)
  | cons ref refs ih =>
    refine wpc_lock_found ht fun σ1 w henv1 hi1 _ => wpc_bind (wpc_refuse fun _ => ?_)
    refine ih rfl hi1 fun σ2 t' henv2 hi2 hkeep hwrites => ?_
    exact h σ2 t' (henv1.trans henv2.of_acquire) hi2 (fun r hr => hkeep r (hr.acquire _ _)) hwrites

/-- The execution row a host sees, if it is prepared, is the committed one up
to its guard version; and no witness is staged. -/
theorem HostOk.seen (hok : HostOk σ t) {row : ExecutionRow}
    (hrow : (t.writes ∪ σ).lookup (.execution k) = some row) (hp : row.state = .prepared) :
    ∃ row0 : ExecutionRow, σ.lookup (.execution k) = some row0 ∧ row0.state = .prepared ∧
      row = { row0 with guardVersion := row.guardVersion } ∧
      ∀ b, t.writes.lookup (.witness k b) = none := by
  rcases hok.key k with ⟨hx, hw⟩ | ⟨row0, g, st, _, ht⟩
  · rw [lookup_union_of_none hx] at hrow
    exact ⟨row, hrow, hp, rfl, hw⟩
  · rw [lookup_union_of_some ht.staged] at hrow
    cases hrow
    cases hp
    refine ⟨row0, ht.stored, ht.prepared, ?_, fun b => ?_⟩
    · rw [← ht.prepared]
    · rw [ht.witness b, if_pos rfl]

theorem Touched.same_plan [H.CollisionFree] (h : Touched σ t (e.key H) row g xs ws) (hi : Inv H σ)
    (hplan : e.plan.valid = true) {stored : ExecutionRow}
    (hstored : (view .readCommitted σ (some t)).lookup (.execution (e.key H)) = some stored)
    (hdigest : stored.plan.digest H = e.plan.digest H) : row.plan = e.plan := by
  rw [show (view .readCommitted σ (some t)).lookup (.execution (e.key H)) = _ from
    lookup_union_of_some h.staged] at hstored
  cases hstored
  exact FrozenPlan.digest_inj (hi.execution _ row h.stored).plan hplan hdigest

/-- What `Bind` has staged: its execution, as one that it may bind. -/
structure BoundRow (H : Sha256) (e : Execution) (σ : Tables) (t t' : Tx Val) (row : ExecutionRow)
    (g : Nat) : Prop where
  ok : HostOk σ t'
  touched : Touched σ t' (e.key H) row g .prepared .prepared
  token : row.token = e.token
  others : ∀ k, k ≠ e.key H → t'.writes.lookup (.execution k) = t.writes.lookup (.execution k)
  again : ∀ x : ExecutionRow, t.writes.lookup (.execution (e.key H)) = some x →
    row.token = x.token ∧ row.plan = x.plan

variable {u : Tx Val} {Q : Guard → Ctx Val Ans → Prop}

theorem BoundRow.env (h : BoundRow H e σ u t row g) (hi : Inv H σ) (hi' : Inv H σ')
    (henv : Env (pact H G Allow) A (some t) σ σ') : BoundRow H e σ' u t row g :=
  { h with ok := h.ok.env hi hi' henv, touched := h.touched.env hi hi' henv }

theorem BoundRow.more (h : BoundRow H e σ u t row g) (hw : t'.writes = t.writes)
    (hh : ∀ r, t.Holds r → t'.Holds r) : BoundRow H e σ u t' row g where
  ok := h.ok.more hw hh
  touched := h.touched.congr (by rw [hw]) (fun b => by rw [hw]) hh
  token := h.token
  others := fun k hk => by
    rw [hw]
    exact h.others k hk
  again := h.again

/-- The update of `Bind`, in a transaction that holds its binding. -/
theorem wpc_bumpGuard [H.CollisionFree] {now : Nat} {Q : Tables → Ctx Val Ans → Prop}
    {b : BindingRow} (ht : c.tx = some t) (hi : Inv H c.db) (hok : HostOk c.db t)
    (hheld : t.Holds (.binding s.owner)) (hb : c.db.lookup (.binding s.owner) = some b)
    (hlive : b.writerEpoch = s.writerEpoch) (hformed : e.Formed)
    (howner : e.plan.input.owner = s.owner) (hepoch : e.writerEpoch = s.writerEpoch)
    (hmiss : ∀ σ rows, rows.keys.length = 0 → Q rows ⟨σ, some (t.stage rows), c.log⟩)
    (hhit : ∀ σ rows row g, Inv H σ → BoundRow H e σ t (t.stage rows) row g →
      rows.keys.length = 1 →
      AList.lookup (.execution (e.key H)) rows = some { row with guardVersion := g } →
      Q rows ⟨σ, some (t.stage rows), c.log⟩) :
    wpc (pact H G Allow) .readCommitted A (send Err.driver (.update (setExecution (e.key H)
      (fun row => row.token = e.token && row.state = .prepared && row.leaseUntil > now)
      fun row => { row with guardVersion := row.guardVersion + 1 }))) Q c := by
  refine wpc_writeExecution ht (fun σ rows _ _ _ hn => hmiss σ rows hn)
    fun σ2 rows row henv2 hi2 hrow hcond hn hset hrest => ?_
  simp only [Bool.and_eq_true, decide_eq_true_eq] at hcond
  have hok2 := hok.env hi hi2 henv2
  obtain ⟨row0, hrow0, hprep0, hcols, hwits⟩ := hok2.seen hrow hcond.1.2
  obtain ⟨hro, _, hre, _⟩ := hi2.row_of_key hrow0 hformed.plan hformed.fence.2
  have htouched : Touched σ2 (t.stage rows) (e.key H) row0 (row.guardVersion + 1) .prepared
      .prepared := by
    refine ⟨hrow0, hprep0, holds_stage hset, ?_, ⟨b, ?_, ?_⟩, ?_, fun b => ?_, fun b w hw => ?_⟩
    · rw [hro, howner]
      exact hheld.stage rows
    · rw [hro, howner, henv2.held hheld]
      exact hb
    · rw [hre, hepoch]
      exact hlive
    · rw [lookup_stage, hset, some_or, ← hprep0, hcols]
    · rw [lookup_stage, hrest _ Row.noConfusion, none_or, if_pos rfl]
      exact hwits b
    · rw [lookup_stage, hrest _ Row.noConfusion, none_or, hwits b] at hw
      cases hw
  have htoken : row0.token = e.token := by
    have ht := hcond.1.1
    rwa [hcols] at ht
  refine hhit σ2 rows row0 (row.guardVersion + 1) hi2 ⟨hok2.touch (fun r hr _ => ?_)
    (fun r hr => hr.stage rows) ⟨row0, _, .prepared, State.noConfusion, htouched⟩, htouched, htoken,
    fun k hk => ?_, fun x hx => ?_⟩ hn ?_
  · rw [lookup_stage, hrest r hr, none_or]
  · rw [lookup_stage, hrest _ fun heq => hk (Row.execution.inj heq), none_or]
  · rw [lookup_union_of_some hx] at hrow
    rw [Option.some.inj hrow, hcols]
    exact ⟨rfl, rfl⟩
  · rw [hset, hcols]

theorem wpc_guardBind [H.CollisionFree] (ht : c.tx = some t) (hi : Inv H c.db) (hok : HostOk c.db t)
    (h : ∀ σ t' row g, Inv H σ → BoundRow H e σ t t' row g → row.plan = e.plan →
      Q ⟨e, false⟩ ⟨σ, some t', c.log⟩) :
    wpc (pact H G Allow) .readCommitted A (Guard.bind H s e) Q c := by
  unfold Guard.bind
  refine wpc_bind (wpc_refuse fun hguard => ?_)
  simp only [Bool.or_eq_false_iff, Bool.not_eq_false', decide_eq_false_iff_not, ne_eq,
    not_not] at hguard
  obtain ⟨⟨hvalid, howner⟩, hepoch⟩ := hguard
  have hformed := Execution.formed_of_valid hvalid
  refine wpc_bind (wpc_bindingIn ht (hok.binding _) fun σ1 b henv1 hi1 hb hlive => ?_)
  have hok1 : HostOk σ1 (t.acquire (.binding s.owner) .share) :=
    (hok.env hi hi1 henv1).more rfl fun r hr => hr.acquire _ _
  refine wpc_bind (wpc_utcTimestamp fun σ2 now henv2 hi2 => ?_)
  refine wpc_bind (wpc_bind (wpc_bumpGuard rfl hi2 (hok1.env hi1 hi2 henv2) (holds_acquire _ _ _)
    ((henv2.held (holds_acquire _ _ _)).trans hb) (hlive.epoch rfl) hformed howner hepoch
    (fun σ rows hn => wpc_pure (wpc_bind (wpc_refuse fun h => ?_)))
    fun σ2 rows row g hi2 hbind _ _ => wpc_pure (wpc_bind (wpc_refuse fun _ => ?_))))
  · simp [hn] at h
  refine wpc_bind (wpc_selectRows fun σ3 henv3 hi3 => wpc_bind (wpc_found fun stored hstored => ?_))
  refine wpc_bind (wpc_refuse fun hdigest => ?_)
  have hbind3 := hbind.env hi2 hi3 henv3
  have hsame := hbind3.touched.same_plan hi3 hformed.plan hstored
    (not_not.mp (of_decide_eq_false hdigest))
  refine wpc_bind (wpc_checkWitnesses rfl hi3 fun σ4 t4 henv4 hi4 hkeep hwrites => wpc_pure ?_)
  have hbind4 := (hbind3.env hi3 hi4 henv4).more hwrites hkeep
  exact h σ4 t4 row g hi4 { hbind4 with } hsame

/-! ## CommitWitness -/

/-- `CommitWitness`, whatever it counts the witnesses against. -/
theorem wpc_commitWitness {g : Guard} {err : Err} {count : Nat} (ht : c.tx = some t)
    (hi : Inv H c.db) (hok : HostOk c.db t)
    (hbound : t.writes.lookup (.execution (g.execution.key H)) ≠ none)
    (h : ∀ σ t' (x : ExecutionRow) v, Inv H σ → HostOk σ t' → (∀ k, k ≠ g.execution.key H →
      t'.writes.lookup (.execution k) = t.writes.lookup (.execution k)) →
      t.writes.lookup (.execution (g.execution.key H)) = some x →
      t'.writes.lookup (.execution (g.execution.key H)) = some { x with state := v } →
      Q { g with committed := true } ⟨σ, some t', c.log⟩) :
    wpc (pact H G Allow) .readCommitted A (do
      refuse g.committed err
      let n ← update (setWitnesses (g.execution.key H) (fun _ w => w.state = .prepared)
        fun w => { w with state := .committed })
      refuse (n ≠ count) .staleExecution
      let n ← update (setExecution (g.execution.key H)
        (fun row => row.token = g.execution.token && row.state = .prepared)
        fun row => { row with state := .committed })
      refuse (n ≠ 1) .staleExecution
      pure { g with committed := true }) Q c := by
  refine wpc_bind (wpc_refuse fun _ => ?_)
  refine wpc_bind (wpc_updateRows ht fun σ1 henv1 hi1 => wpc_bind (wpc_refuse fun _ => ?_))
  have hok1 := hok.env hi hi1 henv1
  generalize hws : setWitnesses (g.execution.key H) (fun _ w => decide (w.state = State.prepared))
    (fun w => { w with state := .committed }) (t.writes ∪ σ1) = ws
  have hnot : ∀ r, (∀ b, r ≠ .witness (g.execution.key H) b) → ws.lookup r = none := by
    intro r hr
    rw [← hws]
    exact lookup_setWitnesses_ne hr
  rcases hok1.key (g.execution.key H) with ⟨hx, _⟩ | ⟨row, v, st, hst, htouched⟩
  · exact absurd hx hbound
  refine wpc_bind (wpc_setExecution rfl (fun _ _ _ _ _ => wpc_bind (wpc_refuse nofun))
    fun σ2 rows seen n henv2 hi2 hseen hcond _ hset hrest => ?_)
  refine wpc_bind (wpc_refuse fun _ => wpc_pure ?_)
  rw [lookup_stage_union_of_none (hnot _ fun _ => Row.noConfusion),
    lookup_union_of_some htouched.staged] at hseen
  cases hseen
  -- the update finds the row only where it is not yet staged as committed
  have hprep : st = .prepared := by
    simp only [Bool.and_eq_true, decide_eq_true_eq] at hcond
    exact hcond.2
  subst hprep
  have hhalf : Touched σ1 (t.stage ws) (g.execution.key H) row v .prepared .committed := by
    have hwits : ∀ b, (t.stage ws).writes.lookup (.witness (g.execution.key H) b) =
        (σ1.lookup (.witness (g.execution.key H) b)).map
          fun w : WitnessRow => { w with state := .committed } := by
      intro b
      have hnone := htouched.witness b
      rw [if_pos rfl] at hnone
      rw [lookup_stage, hnone, or_none, ← hws, lookup_setWitnesses_witness,
        lookup_union_of_none hnone]
      cases hw : σ1.lookup (.witness (g.execution.key H) b) with
      | none => rfl
      | some w =>
        have hwst : w.state = .prepared :=
          (hi1.witness_state htouched.stored hw).trans htouched.prepared
        rw [bind_some, if_pos ⟨rfl, decide_eq_true hwst⟩, map_some]
    refine ⟨htouched.stored, htouched.prepared, htouched.held.stage ws, htouched.binding.stage ws,
      htouched.live, ?_, fun b => ?_, fun b w hw => ?_⟩
    · rw [lookup_stage, hnot _ fun _ => Row.noConfusion, none_or]
      exact htouched.staged
    · rw [if_neg State.noConfusion]
      exact hwits b
    · rw [lookup_stage] at hw
      rcases or_eq_some_iff.mp hw with hw | ⟨_, hw⟩
      · exact holds_stage hw
      · exact (htouched.witnessHeld b w hw).stage ws
  have hhalf2 := hhalf.env hi1 hi2 henv2
  have hdone : Touched σ2 ((t.stage ws).stage rows) (g.execution.key H) row v .committed
      .committed := by
    refine ⟨hhalf2.stored, hhalf2.prepared, hhalf2.held.stage rows, hhalf2.binding.stage rows,
      hhalf2.live, ?_, fun b => ?_, fun b w hw => ?_⟩
    · rw [lookup_stage, hset, some_or]
    · rw [lookup_stage, hrest _ Row.noConfusion, none_or]
      exact hhalf2.witness b
    · rw [lookup_stage, hrest _ Row.noConfusion, none_or] at hw
      exact (hhalf2.witnessHeld b w hw).stage rows
  have hother : ∀ r, r ≠ .execution (g.execution.key H) →
      (∀ b, r ≠ .witness (g.execution.key H) b) →
      ((t.stage ws).stage rows).writes.lookup r = t.writes.lookup r := by
    intro r hr hr'
    rw [lookup_stage, hrest r hr, none_or, lookup_stage, hnot r hr', none_or]
  refine h σ2 _ _ .committed hi2 ((hok1.env hi1 hi2 henv2.of_stage).touch hother
    (fun r hr => (hr.stage ws).stage rows) ⟨row, v, .committed, State.noConfusion, hdone⟩)
    (fun k hk => hother _ (fun heq => hk (Row.execution.inj heq)) fun _ => Row.noConfusion)
    htouched.staged hdone.staged

end ReliableMessaging.MySql
