import ReliableMessaging.MySql.Rules

/-!
# The store keeps its contract

For each operation of the store: run in any company that keeps the contract,
every commit it makes is one of `Trans`, it leaves no transaction open, and
when it succeeds something is known of the rows from then on.
-/

namespace ReliableMessaging.MySql

open Transaction TxLang List Option

variable {Ev : Type} {Ans : Ev → Type}
variable {H : Sha256} {Allow : Ctx Val Ans → Ev → Prop} {A G : Tables → Tables → Prop}
variable {c : Ctx Val Ans} {s : Store} {e : Execution}

theorem Inv.row_of_key [H.CollisionFree] {σ : Tables} (hi : Inv H σ) {row : ExecutionRow}
    (hrow : σ.lookup (.execution (e.key H)) = some row) (hp : e.plan.valid = true)
    (hf : e.fence ≤ maxFence) :
    row.owner = e.plan.input.owner ∧ row.operationID = e.plan.input.operationID ∧
      row.writerEpoch = e.writerEpoch ∧ row.fence = e.fence := by
  have hok := hi.execution _ row hrow
  obtain ⟨ho, _, hop, _⟩ := e.plan.sizes hp
  obtain ⟨ho', _, hop', _⟩ := row.plan.sizes hok.plan
  rw [← hok.owner] at ho'
  rw [← hok.operation] at hop'
  obtain ⟨h1, h2, h3, h4⟩ := executionKey_inj ho ho' hop hop' hf hok.fence.2 hok.key
  exact ⟨h1.symm, h2.symm, h3.symm, h4.symm⟩

/-! ## BeginPrepare -/

/-- A commit that starts the preparation of exactly this execution. -/
def Starts (H : Sha256) (e : Execution) (before after : Tables) : Prop :=
  ∃ row : ExecutionRow, before.lookup (.execution (e.key H)) = some row ∧
    row.prepareStarted = false ∧ row.plan = e.plan ∧
    after.lookup (.execution (e.key H)) = some { row with prepareStarted := true }

/-- The update of `BeginPrepare` has found this row: it is held, with the new
one staged over it and nothing else. -/
structure Starting (H : Sha256) (e : Execution) (σ : Tables) (t : Tx Val) (row : ExecutionRow) :
    Prop where
  stored : σ.lookup (.execution (e.key H)) = some row
  token : row.token = e.token
  prepared : row.state = .prepared
  notStarted : row.prepareStarted = false
  held : t.Holds (.execution (e.key H))
  binding : t.Holds (.binding row.owner)
  live : Live σ row.owner row.writerEpoch
  staged : t.writes.lookup (.execution (e.key H)) = some { row with prepareStarted := true }
  rest : ∀ r, r ≠ .execution (e.key H) → t.writes.lookup r = none

section Starting

variable {σ σ' : Tables} {t : Tx Val} {row : ExecutionRow}

theorem Starting.env (h : Starting H e σ t row)
    (henv : Env (pact H G Allow) A (some t) σ σ') : Starting H e σ' t row := by
  obtain ⟨b, hb, hepoch⟩ := h.live
  exact { h with
    stored := (henv.held h.held).trans h.stored
    live := ⟨b, (henv.held h.binding).trans hb, hepoch⟩ }

theorem Starting.trans (h : Starting H e σ t row) : Trans H σ (t.writes ∪ σ) :=
  .evolve (.of_key (k := e.key H) (fun r hr _ => lookup_union_of_none (h.rest r hr))
    (.of_execution h.stored (lookup_union_of_some h.staged)
      ⟨rfl, .inl rfl, .inr ⟨h.notStarted, h.prepared, h.live⟩⟩ rfl
      fun _ => lookup_union_of_none (h.rest _ Row.noConfusion)))

theorem Starting.begins (h : Starting H e σ t row) (hplan : row.plan = e.plan) :
    BeginsPrepare H e σ (t.writes ∪ σ) :=
  ⟨row, ⟨h.stored, lookup_union_of_some h.staged, fun r hr => lookup_union_of_none (h.rest r hr)⟩,
    h.token, hplan, h.prepared, h.notStarted⟩

/-- The row as the transaction itself reads it: a plan with the caller's digest
is the caller's plan. -/
theorem Starting.same_plan [H.CollisionFree] (h : Starting H e σ t row) (hi : Inv H σ)
    (hplan : e.plan.valid = true) {stored : ExecutionRow}
    (hstored : (view .readCommitted σ (some t)).lookup (.execution (e.key H)) = some stored)
    (hdigest : stored.plan.digest H = e.plan.digest H) : row.plan = e.plan := by
  rw [show (view .readCommitted σ (some t)).lookup (.execution (e.key H)) = _ from
    lookup_union_of_some h.staged] at hstored
  cases hstored
  exact FrozenPlan.digest_inj (hi.execution _ row h.stored).plan hplan hdigest

theorem wpc_starting [H.CollisionFree] {α : Type} {rest : Code Err Val Ans α}
    {Q : α → Ctx Val Ans → Prop} {b : BindingRow} (ht : c.tx = some t)
    (hempty : ∀ r, t.writes.lookup r = none) (hheld : t.Holds (.binding s.owner))
    (hb : c.db.lookup (.binding s.owner) = some b) (hlive : b.writerEpoch = s.writerEpoch)
    (hformed : e.Formed) (howner : e.plan.input.owner = s.owner)
    (hepoch : e.writerEpoch = s.writerEpoch) (h : ∀ σ t' row, Inv H σ → Starting H e σ t' row →
      wpc (pact H G Allow) .readCommitted A rest Q ⟨σ, some t', c.log⟩) :
    wpc (pact H G Allow) .readCommitted A (do
      let now ← utcTimestamp
      let n ← update (setExecution (e.key H)
        (fun row => row.token = e.token && row.state = .prepared && !row.prepareStarted &&
          row.leaseUntil > now)
        fun row => { row with prepareStarted := true })
      refuse (n ≠ 1) .staleExecution
      rest) Q c := by
  obtain ⟨db, tx, log⟩ := c
  subst ht
  refine wpc_bind (wpc_utcTimestamp fun σ1 now henv1 _ => ?_)
  refine wpc_bind (wpc_setExecution rfl (fun _ _ _ _ _ => wpc_bind (wpc_refuse nofun))
    fun σ2 rows row n henv2 hi2 hrow hcond _ hset hrest => ?_)
  refine wpc_bind (wpc_refuse fun _ => ?_)
  simp only [Bool.and_eq_true, decide_eq_true_eq, Bool.not_eq_true'] at hcond
  obtain ⟨⟨⟨htoken, hprepared⟩, hstarted⟩, _⟩ := hcond
  rw [lookup_union_of_none (hempty _)] at hrow
  obtain ⟨hro, _, hre, _⟩ := hi2.row_of_key hrow hformed.plan hformed.fence.2
  refine h σ2 _ row hi2 ⟨hrow, htoken, hprepared, hstarted, holds_stage hset, ?_, ⟨b, ?_, ?_⟩, ?_,
    fun r hr => ?_⟩
  · rw [hro, howner]
    exact hheld.stage rows
  · rw [hro, howner, henv2.held hheld, henv1.held hheld]
    exact hb
  · rw [hre, hepoch]
    exact hlive
  · rw [lookup_stage, hset, some_or]
  · rw [lookup_stage, hrest r hr, none_or]
    exact hempty r

end Starting

theorem wp_beginPrepare [H.CollisionFree] (hnone : c.tx = none)
    (hG : ∀ σ ν, BeginsPrepare H e σ ν → G σ ν) :
    wp (pact H G Allow) .readCommitted A (beginPrepare H s e).run (fun r c' => c'.tx = none ∧
      ∀ u, r = .ok u → e.Formed ∧ e.plan.input.owner = s.owner ∧ ∃ before after,
        c'.log = c.log ++ [.committed before after] ∧ Starts H e before after ∧
        Later (pact H G Allow) after c'.db) c := by
  refine wp_refuse_bind ⟨hnone, nofun⟩ fun hguard => ?_
  simp only [Bool.or_eq_false_iff, Bool.not_eq_false', decide_eq_false_iff_not, ne_eq,
    not_not] at hguard
  obtain ⟨⟨hvalid, howner⟩, hepoch⟩ := hguard
  have hformed := Execution.formed_of_valid hvalid
  refine wp_withBinding hnone (fun _ _ _ => ⟨rfl, nofun⟩) fun σ1 t b _ _ hempty hheld hb hlive => ?_
  refine wpc_starting rfl hempty hheld hb (hlive.epoch rfl) hformed howner hepoch
    fun σ2 t' row _ hst2 => ?_
  refine wpc_bind (wpc_selectRows fun σ3 henv3 hi3 => ?_)
  refine wpc_bind (wpc_found fun stored hstored => ?_)
  refine wpc_bind (wpc_refuse fun hdigest => ?_)
  have hst3 := hst2.env henv3
  have hsame := hst3.same_plan hi3 hformed.plan hstored (not_not.mp (of_decide_eq_false hdigest))
  refine wpc_commitTx rfl (fun σ4 henv4 _ => ?_) (fun σ4 henv4 _ σ5 henv5 _ => ?_)
  · exact ⟨(hst3.env henv4).trans, hG _ _ ((hst3.env henv4).begins hsame)⟩
  · refine ⟨rfl, fun u _ => ⟨hformed, howner, σ4, _, rfl, ?_, henv5.later⟩⟩
    exact ⟨row, (hst3.env henv4).stored, hst3.notStarted, hsame, lookup_union_of_some hst3.staged⟩

/-! ## Abort and ReconcileOnce -/

/-- No witness comes to an execution later: there is one for each branch of its
plan from the start. -/
theorem Inv.no_witness_later {σ σ' : Tables} {k b : Bytes} {row : ExecutionRow} (hi : Inv H σ)
    (hi' : Inv H σ') (hrow : σ.lookup (.execution k) = some row)
    (hrow' : σ'.lookup (.execution k) = some row) (hw : σ.lookup (.witness k b) = none) :
    σ'.lookup (.witness k b) = none := by
  cases hw' : σ'.lookup (.witness k b) with
  | none => rfl
  | some w' =>
    obtain ⟨row', hr', br, hbr, rfl⟩ := hi'.witness k b w' hw'
    cases hrow'.symm.trans hr'
    obtain ⟨w, hw0, _⟩ := (hi.execution k row hrow).witness br hbr
    rw [hw] at hw0
    cases hw0

def AbortedAt (H : Sha256) (e : Execution) (σ : Tables) : Prop :=
  ∃ row : ExecutionRow, σ.lookup (.execution (e.key H)) = some row ∧ row.state = .aborted

/-- The first update of `Abort` has found this row and staged its end. -/
structure AbortingRow (H : Sha256) (s : Store) (e : Execution) (σ : Tables) (t : Tx Val)
    (row : ExecutionRow) : Prop where
  entered : Entered s σ t
  stored : σ.lookup (.execution (e.key H)) = some row
  token : row.token = e.token
  prepared : row.state = .prepared
  held : t.Holds (.execution (e.key H))
  staged : t.writes.lookup (.execution (e.key H)) =
    some { row with state := .aborted, guardVersion := row.guardVersion + 1 }
  rest : ∀ r, r ≠ .execution (e.key H) → (∀ b, r ≠ .witness (e.key H) b) →
    t.writes.lookup r = none

/-- The second one has staged the end of every witness. -/
structure Aborting (H : Sha256) (s : Store) (e : Execution) (σ : Tables) (t : Tx Val)
    (row : ExecutionRow) : Prop extends AbortingRow H s e σ t row where
  witness : ∀ b, t.writes.lookup (.witness (e.key H) b) =
    (σ.lookup (.witness (e.key H) b)).map fun w : WitnessRow => { w with state := .aborted }
  witnessHeld : ∀ b (w : WitnessRow), t.writes.lookup (.witness (e.key H) b) = some w →
    t.Holds (.witness (e.key H) b)

section Aborting

variable {σ σ' : Tables} {t : Tx Val} {row : ExecutionRow}

theorem AbortingRow.env (h : AbortingRow H s e σ t row)
    (henv : Env (pact H G Allow) A (some t) σ σ') : AbortingRow H s e σ' t row :=
  { h with entered := h.entered.env henv, stored := (henv.held h.held).trans h.stored }

theorem Aborting.env (h : Aborting H s e σ t row) (hi : Inv H σ) (hi' : Inv H σ')
    (henv : Env (pact H G Allow) A (some t) σ σ') : Aborting H s e σ' t row := by
  refine { h with toAbortingRow := h.toAbortingRow.env henv, witness := fun b => ?_ }
  rw [h.witness b]
  have hstaged := h.witness b
  cases hw : σ.lookup (.witness (e.key H) b) with
  | some w =>
    rw [hw] at hstaged
    rw [henv.held (h.witnessHeld b _ hstaged), hw]
  | none =>
    rw [hi.no_witness_later hi' h.stored (h.toAbortingRow.env henv).stored hw]

theorem Aborting.ends (h : Aborting H s e σ t row) :
    EndsExecution (e.key H) row
      { row with state := .aborted, guardVersion := row.guardVersion + 1 } σ (t.writes ∪ σ) := by
  refine ⟨h.stored, lookup_union_of_some h.staged, fun b => ?_,
    fun r hr hr' => lookup_union_of_none (h.rest r hr hr')⟩
  have hstaged := h.witness b
  cases hw : σ.lookup (.witness (e.key H) b) with
  | none =>
    rw [hw] at hstaged
    rw [lookup_union_of_none hstaged, hw]
    rfl
  | some w =>
    rw [hw] at hstaged
    exact lookup_union_of_some hstaged

theorem Aborting.trans (h : Aborting H s e σ t row) : Trans H σ (t.writes ∪ σ) := by
  refine .evolve (.of_key (k := e.key H) h.ends.rest (.of_end h.stored h.ends.after
    ⟨rfl, .inr ⟨h.prepared, .inl rfl⟩, .inl rfl⟩ (fun b hb => ?_) fun b w hw => ?_))
  · rw [h.ends.witness b, hb]
    rfl
  · rw [h.ends.witness b, hw]
    exact ⟨_, rfl, rfl, rfl⟩

theorem Aborting.aborts (h : Aborting H s e σ t row) (howner : e.plan.input.owner = s.owner)
    (hbranches : row.plan.input.branches.length = e.plan.input.branches.length) :
    Aborts H s e σ (t.writes ∪ σ) :=
  ⟨row, h.ends, howner, h.entered.admitted, h.stored, h.token, h.prepared, hbranches⟩

/-- An execution has as many witnesses as its plan has branches. -/
theorem Inv.length_setWitnesses [H.CollisionFree] {k : Bytes} (hi : Inv H σ)
    (hrow : σ.lookup (.execution k) = some row) (hprepared : row.state = .prepared)
    {rows : Tables} (hrows : ∀ b, rows.lookup (.witness k b) = σ.lookup (.witness k b))
    (set : WitnessRow → WitnessRow) :
    (setWitnesses k (fun _ w => w.state = .prepared) set rows).keys.length =
      row.plan.input.branches.length := by
  have hok := hi.execution k row hrow
  rw [← length_map fun br : BranchInput => Row.witness k (branchKey H br.id)]
  refine List.Perm.length_eq ((perm_ext_iff_of_nodup (AList.keys_nodup _) ?_).mpr fun r => ?_)
  · have hids := row.plan.ids_nodup hok.plan
    refine List.Nodup.map_on (fun a ha b hb heq => ?_) (List.Nodup.of_map _ hids)
    exact inj_on_of_nodup_map hids ha hb (branchKey_inj (Row.witness.inj heq).2)
  · rw [← AList.mem_keys, ← AList.lookup_isSome, List.mem_map]
    constructor
    · intro hsome
      cases r with
      | witness k' b =>
        rw [lookup_setWitnesses_witness] at hsome
        obtain ⟨w', hw'⟩ := isSome_iff_exists.mp hsome
        obtain ⟨w, hw, hif⟩ := bind_eq_some_iff.mp hw'
        split at hif
        next hcond =>
          obtain ⟨rfl, _⟩ := hcond
          rw [hrows] at hw
          obtain ⟨row', hrow', br, hbr, rfl⟩ := hi.witness _ _ _ hw
          cases hrow.symm.trans hrow'
          exact ⟨br, hbr, rfl⟩
        next => cases hif
      | _ => simp [lookup_setWitnesses_other] at hsome
    · rintro ⟨br, hbr, rfl⟩
      obtain ⟨w, hw, _, hstate⟩ := hok.witness br hbr
      rw [lookup_setWitnesses_witness, hrows, hw, bind_some,
        if_pos ⟨rfl, decide_eq_true (hstate.trans hprepared)⟩]
      rfl

/-- The first update of `Abort`: it misses and stages nothing, or it hits. -/
theorem wpc_abortingRow {α : Type} {f : Nat → Code Err Val Ans α} {expired : Bool} {now : Nat}
    {Q : α → Ctx Val Ans → Prop} (ht : c.tx = some t) (hempty : ∀ r, t.writes.lookup r = none)
    (hentered : Entered s c.db t) (hmiss : ∀ σ t', (∀ r, t'.writes.lookup r = none) →
      wpc (pact H G Allow) .readCommitted A (f 0) Q ⟨σ, some t', c.log⟩)
    (hhit : ∀ σ t' row, Inv H σ → AbortingRow H s e σ t' row →
      (∀ b, t'.writes.lookup (.witness (e.key H) b) = none) →
      wpc (pact H G Allow) .readCommitted A (f 1) Q ⟨σ, some t', c.log⟩) :
    wpc (pact H G Allow) .readCommitted A (update (setExecution (e.key H)
      (fun row => row.state = .prepared && row.token = e.token &&
        (!expired || row.leaseUntil ≤ now))
      fun row => { row with state := .aborted, guardVersion := row.guardVersion + 1 }) >>= f)
      Q c := by
  refine wpc_bind (wpc_setExecution ht (fun σ rows _ _ hnone => hmiss σ _ fun r => ?_)
    fun σ rows row n henv hi hrow hcond hn hset hrest => ?_)
  · rw [lookup_stage, hnone r, none_or]
    exact hempty r
  simp only [Bool.and_eq_true, decide_eq_true_eq] at hcond
  obtain ⟨⟨hprepared, htoken⟩, _⟩ := hcond
  rw [lookup_union_of_none (hempty _)] at hrow
  subst hn
  refine hhit σ _ row hi ⟨⟨hentered.held.stage _, (hentered.env henv).admitted⟩, hrow, htoken,
    hprepared, holds_stage hset, ?_, fun r hr _ => ?_⟩ fun b => ?_
  · rw [lookup_stage, hset, some_or]
  · rw [lookup_stage, hrest r hr, none_or]
    exact hempty r
  · rw [lookup_stage, hrest _ Row.noConfusion, none_or]
    exact hempty _

theorem wpc_aborting [H.CollisionFree] {Q : Nat → Ctx Val Ans → Prop} (ht : c.tx = some t)
    (hrow : AbortingRow H s e c.db t row)
    (hempty : ∀ b, t.writes.lookup (.witness (e.key H) b) = none)
    (h : ∀ σ t', Inv H σ → Aborting H s e σ t' row →
      Q row.plan.input.branches.length ⟨σ, some t', c.log⟩) :
    wpc (pact H G Allow) .readCommitted A (update (setWitnesses (e.key H)
      (fun _ w => w.state = .prepared) fun w => { w with state := .aborted })) Q c := by
  refine wpc_updateRows ht fun σ henv hi => ?_
  have hrow' := hrow.env henv
  rw [hi.length_setWitnesses hrow'.stored hrow.prepared fun b => lookup_union_of_none (hempty b)]
  refine h σ _ hi ⟨⟨⟨hrow.entered.held.stage _, hrow'.entered.admitted⟩, hrow'.stored, hrow.token,
    hrow.prepared, hrow.held.stage _, ?_, fun r hr hr' => ?_⟩, fun b => ?_, fun b w hw => ?_⟩
  · rw [lookup_stage, lookup_setWitnesses_other fun _ _ => Row.noConfusion, none_or]
    exact hrow.staged
  · rw [lookup_stage, lookup_setWitnesses_ne hr', none_or]
    exact hrow.rest r hr hr'
  · rw [lookup_stage, hempty b, or_none, lookup_setWitnesses_witness,
      lookup_union_of_none (hempty b)]
    cases hw : σ.lookup (.witness (e.key H) b) with
    | none => rfl
    | some w =>
      have hst : w.state = .prepared := (hi.witness_state hrow'.stored hw).trans hrow.prepared
      rw [bind_some, if_pos ⟨rfl, decide_eq_true hst⟩, map_some]
  · rw [lookup_stage, hempty b, or_none] at hw
    exact holds_stage hw

end Aborting

theorem wp_abort [H.CollisionFree] {expired : Bool} (hnone : c.tx = none)
    (hG : ∀ σ ν, e.valid = true → Aborts H s e σ ν → G σ ν) :
    wp (pact H G Allow) .readCommitted A (abort H s e expired).run (fun r c' => c'.tx = none ∧
      (r = .ok true → AbortedAt H e c'.db)) c := by
  refine wp_refuse_bind ⟨hnone, nofun⟩ fun hform => ?_
  simp only [Bool.or_eq_false_iff, Bool.not_eq_false', decide_eq_false_iff_not, ne_eq,
    not_not] at hform
  refine wp_withBinding hnone (fun _ _ _ => ⟨rfl, nofun⟩)
    fun σ1 t _ _ _ hempty hheld hb hadmits => ?_
  refine wpc_bind (wpc_clockIf fun σ2 now henv2 => ?_)
  refine wpc_abortingRow rfl hempty ((Entered.of_admits hheld hb hadmits).env henv2)
    (fun _ _ _ => ?_) fun σ3 t3 row _ hrow hwits => ?_
  · exact wpc_ite (fun _ => wpc_pure fun _ _ _ => ⟨rfl, nofun⟩) fun h => absurd rfl h
  refine wpc_ite (fun h => absurd h Nat.one_ne_zero) fun _ => ?_
  refine wpc_bind (wpc_aborting rfl hrow hwits fun σ4 t4 hi4 hab => ?_)
  refine wpc_bind (wpc_refuse fun hcount => ?_)
  refine wpc_bind (wpc_commitTx rfl (fun σ5 henv5 hi5 => ?_)
    fun σ5 henv5 hi5 => wpc_pure fun σ6 henv6 _ => ⟨rfl, fun _ => ?_⟩)
  · have hab5 := hab.env hi4 hi5 henv5
    exact ⟨hab5.trans, hG _ _ hform.1 (hab5.aborts hform.2 (by simpa using hcount))⟩
  · obtain ⟨row', hrow', hlater⟩ :=
      later_execution henv6.later (hab.env hi4 hi5 henv5).ends.after
    exact ⟨row', hrow', hlater.ended State.noConfusion⟩

theorem wp_reconcileLoop [H.CollisionFree] {es : List Execution} {n : Nat} (hnone : c.tx = none)
    (hG : ∀ e σ ν, Aborts H s e σ ν → G σ ν) :
    wp (pact H G Allow) .readCommitted A (reconcileLoop H s es n).run
      (fun _ c' => c'.tx = none) c := by
  induction es generalizing c n with
  | nil => exact hnone
  | cons e es ih =>
    refine wp_code_bind (wp_mono ?_ (wp_abort hnone fun σ ν _ => hG e σ ν))
    rintro r c' ⟨hnone', _⟩
    exact ⟨fun _ _ => hnone', fun _ _ => ih hnone'⟩

theorem wp_reconcileOnce [H.CollisionFree] {order : List ExecutionRow → List ExecutionRow}
    {limit : Nat} (hnone : c.tx = none) (hG : ∀ e σ ν, Aborts H s e σ ν → G σ ν) :
    wp (pact H G Allow) .readCommitted A (reconcileOnce H s order limit).run
      (fun _ c' => c'.tx = none) c := by
  refine wp_refuse_bind hnone fun _ => ?_
  refine wp_code_bind (wp_now_bind (fun _ => ⟨fun _ _ => hnone, nofun⟩) fun σ1 now _ _ => ?_)
  refine ⟨nofun, fun _ _ => ?_⟩
  refine wp_select_bind (fun _ => hnone) fun σ2 _ _ => ?_
  exact wp_lift_bind (fun _ _ => hnone) fun es _ => wp_reconcileLoop hnone hG

/-! ## Evidence -/

/-- The row of a reference's execution has ended in this state, with a branch
of exactly this reference. -/
def Decided (H : Sha256) (ref : Reference) (st : State) (σ : Tables) : Prop :=
  ∃ row : ExecutionRow, σ.lookup (.execution (ref.executionKey H)) = some row ∧ row.state = st ∧
    ∃ br ∈ row.plan.input.branches, row.plan.referenceOf H row.fence row.writerEpoch br = ref

variable {ref : Reference} {st : State} {r : Request} {Q : Reservation → Ctx Val Ans → Prop}
variable {p : FrozenPlan} {fence : Nat} {o : ReserveOptions} {key : Bytes} {refs : List Reference}

theorem Decided.later {σ ν : Tables} (h : Decided H ref st σ) (hst : st ≠ .prepared)
    (hl : Relation.ReflTransGen (Trans H) σ ν) : Decided H ref st ν := by
  obtain ⟨row, hrow, hstate, br, hbr, href⟩ := h
  obtain ⟨row', hrow', hlater⟩ := later_execution hl hrow
  have hcols := hlater.columns
  refine ⟨row', hrow', (hlater.ended (hstate ▸ hst)).trans hstate, br, ?_, ?_⟩
  · rw [hcols]
    exact hbr
  · rw [hcols]
    exact href

theorem decided_of_witness {σ : Tables} (hi : Inv H σ) {x : ExecutionRow} {w : WitnessRow}
    (hx : σ.lookup (.execution (ref.executionKey H)) = some x)
    (hw : σ.lookup (.witness (ref.executionKey H) (branchKey H ref.branchID)) = some w)
    (hwr : w.reference = ref) : Decided H ref x.state σ := by
  obtain ⟨x', hx', br, hbr, hkey⟩ := hi.witness _ _ _ hw
  cases hx.symm.trans hx'
  obtain ⟨w', hw', href, _⟩ := (hi.execution _ x hx).witness br hbr
  rw [hkey] at hw'
  cases hw.symm.trans hw'
  exact ⟨x, hx, rfl, br, hbr, href.symm.trans hwr⟩

theorem decided_of_evidence {σ : Tables} (hi : Inv H σ)
    (h : evidenceOf H s ref σ = some ⟨ref, st, st⟩) : Decided H ref st σ := by
  unfold evidenceOf at h
  split at h
  next x w hx hw =>
    split at h
    · split at h
      · simp only [Option.some.injEq, Evidence.mk.injEq] at h
        obtain ⟨hwr, rfl, _⟩ := h
        exact decided_of_witness hi hx hw hwr
      · cases h
    · cases h
  · cases h

theorem wp_evidence (hnone : c.tx = none) :
    wp (pact H G Allow) .readCommitted A (evidence H s ref).run (fun r c' => c'.tx = none ∧
      ∀ st, r = .ok (some ⟨ref, st, st⟩) → Decided H ref st c'.db) c := by
  refine wp_refuse_bind ⟨hnone, nofun⟩ fun _ => ?_
  refine wp_select_bind (fun _ => ⟨hnone, nofun⟩) fun σ _ hi => ⟨hnone, fun st hst => ?_⟩
  rw [hnone] at hst
  exact decided_of_evidence hi (Except.ok.inj hst)

/-! ## Lookup and Reserve -/

theorem wpc_lookupIn_locked {t : Tx Val} (ht : c.tx = some t)
    (hempty : ∀ r, t.writes.lookup r = none)
    (h : ∀ σ (q : RequestRow) (row : ExecutionRow), Env (pact H G Allow) A (some t) c.db σ →
      Inv H σ → σ.lookup (.request (r.keyDigest H)) = some q → q.request = r →
      σ.lookup (.execution q.activeExecution) = some row →
      Q ⟨⟨row.plan, row.fence, row.writerEpoch, 0, row.leaseUntil⟩, false, row.state⟩ ⟨σ,
      some (t.acquire (.request (r.keyDigest H)) .update), c.log⟩) :
    wpc (pact H G Allow) .readCommitted A (lookupIn H r true) Q c := by
  unfold lookupIn
  refine wpc_lock_found ht fun σ1 q henv1 _ hq => ?_
  refine wpc_bind (wpc_refuse fun hid => wpc_bind (wpc_refuse fun hhash => ?_))
  refine wpc_bind (wpc_selectRows fun σ2 henv2 hi2 => wpc_bind (wpc_found fun row hrow => ?_))
  refine wpc_bind (wpc_lift fun scanned hscan => wpc_bind (wpc_lift fun _ _ => wpc_pure ?_))
  have hempty' : ∀ r', (t.acquire (.request (r.keyDigest H)) .update).writes.lookup r' = none :=
    hempty
  rw [show view .readCommitted σ1 (some t) = t.writes ∪ σ1 from rfl,
    lookup_union_of_none (hempty _)] at hq
  have hq2 := (henv2.held (holds_acquire t (.request (r.keyDigest H)) .update)).trans hq
  have hreq : q.request = r := by
    simp only [Bool.or_eq_false_iff, decide_eq_false_iff_not, ne_eq, not_not] at hid hhash
    obtain ⟨⟨ho, hs⟩, hk⟩ := hid
    cases r
    simp only [RequestRow.request, Request.mk.injEq]
    exact ⟨ho, hs, hk, hhash⟩
  unfold scanExecution at hscan
  split at hscan
  · cases hscan
  · cases hscan
    refine h σ2 q row (henv1.trans henv2.of_acquire) hi2 hq2 hreq ?_
    exact (lookup_union_of_none (hempty' _)).symm.trans hrow

/-- Reading the active execution of a request, without locks: what it shows was
active when the request row was read. -/
theorem wpc_lookupIn_free {t : Tx Val} (ht : c.tx = some t) (hempty : ∀ r, t.writes.lookup r = none)
    (h : ∀ res σ, Inv H σ → Shown H r res c.db σ → Q res ⟨σ, some t, c.log⟩) :
    wpc (pact H G Allow) .readCommitted A (lookupIn H r false) Q c := by
  obtain ⟨db, tx, log⟩ := c
  subst ht
  unfold lookupIn selectRequest
  refine wpc_bind (wpc_bind (wpc_selectRows fun σ1 henv1 hi1 => wpc_pure ?_))
  refine wpc_bind (wpc_found fun q hq => wpc_bind (wpc_refuse fun _ => ?_))
  refine wpc_bind (wpc_refuse fun _ => wpc_bind (wpc_selectRows fun σ2 henv2 hi2 => ?_))
  refine wpc_bind (wpc_found fun row hrow => wpc_bind (wpc_lift fun scanned hscan => ?_))
  refine wpc_bind (wpc_lift fun _ hmatch => wpc_pure ?_)
  unfold scanExecution at hscan
  split at hscan
  · cases hscan
  cases hscan
  replace hq : σ1.lookup (.request (r.keyDigest H)) = some q :=
    (lookup_union_of_none (hempty _)).symm.trans hq
  replace hrow : σ2.lookup (.execution q.activeExecution) = some row :=
    (lookup_union_of_none (hempty _)).symm.trans hrow
  -- the row read second is what became of the row that was active at the first read
  obtain ⟨a, ha, hown⟩ := hi1.active hq
  obtain ⟨row', hrow', hlater⟩ := later_execution henv2.later ha.execution
  cases hrow.symm.trans hrow'
  have hsame := hlater.columns
  have hfence : row.fence = a.fence := by rw [hsame]
  refine h _ σ2 hi2 ⟨Current.earlier henv1.later ⟨(Request.match_eq_ok hmatch).2,
    ⟨_, row, hrow, ?_, rfl, rfl⟩, fun q' a' ha' => ?_, ?_⟩, rfl, rfl⟩
  · rw [hsame]
    exact hown
  · cases ha.request.symm.trans ha'.request
    cases ha.execution.symm.trans ha'.execution
    exact Nat.le_of_eq hfence.symm
  · obtain ⟨q', a', ha', _, hle⟩ := later_active henv2.later ha
    exact ⟨q', a', ha', Nat.le_trans (Nat.le_of_eq hfence) hle⟩

theorem wp_lookup (hnone : c.tx = none) :
    wp (pact H G Allow) .readCommitted A (lookup H s r).run (fun res c' => c'.tx = none ∧
      ∀ shown, res = .ok shown → Shown H r shown c.db c'.db) c := by
  refine wp_refuse_bind ⟨hnone, nofun⟩ fun _ => ?_
  refine wp_withBinding hnone (fun _ _ _ => ⟨rfl, nofun⟩) fun σ1 t _ hlater1 _ hempty _ _ _ => ?_
  refine wpc_mapErr (wpc_lookupIn_free rfl hempty fun res σ2 _ hshown σ3 henv3 _ => ⟨rfl, ?_⟩)
  intro shown heq
  cases heq
  exact { hshown with toCurrent := (hshown.earlier hlater1).later henv3.later }

theorem wp_lookup_conflict (hnone : c.tx = none) (hi : Inv H c.db) (hc : Conflicts H r c.db) :
    wp (pact H G Allow) .readCommitted A (lookup H s r).run (fun res c' => c'.tx = none ∧
      ∃ err, res = .error err ∧ (err = .inputConflict ∨ Unreached err)) c := by
  have hunreached : ∀ err, Unreached err → ∃ err', (Except.error err : Except Err Reservation) =
      .error err' ∧ (err' = .inputConflict ∨ Unreached err') := fun err h => ⟨err, rfl, .inr h⟩
  refine wp_refuse_bind ⟨hnone, hunreached _ (.inr (.inr (.inl rfl)))⟩ fun _ => ?_
  refine wp_withBinding_run hnone (fun err σ h => ⟨rfl, hunreached err h⟩)
    fun σ1 t _ hlater1 hi1 hempty _ _ _ => ?_
  refine wp_mapErr ?_
  unfold lookupIn selectRequest
  refine wp_code_bind (wp_select_bind (fun σ2 => ⟨fun e he => ?_, nofun⟩) fun σ2 henv2 hi2 =>
    ⟨nofun, fun o ho => ?_⟩)
  · cases he
    refine ⟨fun e he σ' _ _ => ⟨rfl, ?_⟩, nofun⟩
    cases he
    exact hunreached _ (.inl rfl)
  obtain ⟨q, hq, howner, hscope, hkey, hne⟩ := hc.later hi (hlater1.trans henv2.later)
  cases ho
  refine wp_finds ((lookup_union_of_none (hempty _)).trans hq) ?_
  refine wp_passes ?_ (wp_refused (decide_eq_true hne) ⟨fun e he σ' _ _ => ⟨rfl, ?_⟩, nofun⟩)
  · simp [howner, hscope, hkey]
  · cases he
    exact ⟨_, rfl, .inl rfl⟩

theorem wpc_newExecution {Q : Execution → Ctx Val Ans → Prop}
    (h : ∀ σ token lease, Env (pact H G Allow) A c.tx c.db σ → Q ⟨p, fence, s.writerEpoch, token,
      lease⟩ ⟨σ, c.tx, c.log⟩) :
    wpc (pact H G Allow) .readCommitted A (newExecution s p fence o) Q c := by
  unfold newExecution
  refine wpc_bind (wpc_random fun σ1 n henv1 _ => ?_)
  exact wpc_bind (wpc_utcTimestamp fun σ2 now henv2 _ => wpc_pure (h σ2 _ _ (henv1.trans henv2)))

/-- A loop that encodes and inserts one witness after another. -/
structure InsertsWitnesses (H : Sha256) (key : Bytes)
    (loop : List Reference → Code Err Val Ans Unit) : Prop where
  nil : loop [] = pure ()
  cons : ∃ escape duplicate, ∀ ref refs, loop (ref :: refs) = do
    let stored ← lift (encodeReference escape ref)
    let fresh ← insert (.witness key (branchKey H ref.branchID)) (freshWitness stored)
    refuse (!fresh) duplicate
    loop refs

/-- Inserting the witnesses of references with different branches stages each
of them and nothing else. -/
theorem wpc_insertWitnesses [H.CollisionFree] {t : Tx Val}
    {loop : List Reference → Code Err Val Ans Unit} {Q : Unit → Ctx Val Ans → Prop}
    (hloop : InsertsWitnesses H key loop) (ht : c.tx = some t)
    (hnodup : (refs.map (·.branchID)).Nodup)
    (h : ∀ σ t', Env (pact H G Allow) A (some t) c.db σ → (∀ r, t.Holds r → t'.Holds r) →
      (∀ ref ∈ refs, t'.writes.lookup (.witness key (branchKey H ref.branchID)) = some
      (freshWitness ref)) → (∀ r, (∀ ref ∈ refs, r ≠ .witness key (branchKey H ref.branchID)) →
      t'.writes.lookup r = t.writes.lookup r) → Q () ⟨σ, some t', c.log⟩) :
    wpc (pact H G Allow) .readCommitted A (loop refs) Q c := by
  induction refs generalizing c t with
  | nil =>
    obtain ⟨db, tx, log⟩ := c
    subst ht
    rw [hloop.nil]
    exact wpc_pure (h db t (Env.refl _ _) (fun _ hr => hr) nofun fun _ _ => rfl)
  | cons ref refs ih =>
    rw [map_cons, nodup_cons] at hnodup
    obtain ⟨hnew, hnodup⟩ := hnodup
    obtain ⟨_, _, hcons⟩ := hloop.cons
    rw [hcons]
    refine wpc_bind (wpc_lift fun stored hstored => ?_)
    obtain ⟨rfl, _⟩ := encodeReference_eq_ok hstored
    refine wpc_bind (wpc_insertRow ht (fun _ _ _ _ => wpc_bind (wpc_refuse nofun))
      fun σ1 henv1 _ _ => wpc_bind (wpc_refuse fun _ => ?_))
    -- a later reference has another branch, so it leaves this witness alone
    have hother : ∀ ref' ∈ refs, branchKey H ref'.branchID ≠ branchKey H ref.branchID := by
      intro ref' hmem heq
      exact hnew (branchKey_inj heq ▸ mem_map_of_mem hmem)
    refine ih rfl hnodup fun σ2 t' henv2 hkeep hall hrest => ?_
    refine h σ2 t' (henv1.trans henv2.of_stage)
      (fun r hr => hkeep r (hr.stage _)) ?_ ?_
    · intro ref' hmem
      rcases mem_cons.mp hmem with rfl | hmem
      · rw [hrest _ fun ref'' hm heq => hother ref'' hm (Row.witness.inj heq).2.symm,
          lookup_stage, lookup_singleton_self]
        rfl
      · exact hall ref' hmem
    · intro r hr
      rw [hrest r fun ref' hm => hr ref' (mem_cons_of_mem _ hm), lookup_stage,
        lookup_singleton_ne _ (hr ref mem_cons_self), none_or]

theorem references_branchIDs (hf : e.Formed) : ((e.references H).map (·.branchID)).Nodup := by
  rw [Execution.references_eq hf, List.map_map]
  exact e.plan.ids_nodup hf.plan

structure Inserted (H : Sha256) (rk : Bytes) (e : Execution) (t t' : Tx Val) : Prop where
  keeps : ∀ r, t.Holds r → t'.Holds r
  held : t'.Holds (.execution (e.key H))
  row : t'.writes.lookup (.execution (e.key H)) = some (freshExecution rk e)
  witness : ∀ br ∈ e.plan.input.branches,
    t'.writes.lookup (.witness (e.key H) (branchKey H br.id)) =
      some (freshWitness (e.plan.referenceOf H e.fence e.writerEpoch br))
  rest : ∀ r, r ≠ .execution (e.key H) →
    (∀ br ∈ e.plan.input.branches, r ≠ .witness (e.key H) (branchKey H br.id)) →
    t'.writes.lookup r = t.writes.lookup r

theorem wpc_insertRows [H.CollisionFree] {t : Tx Val} {r : Request} {escape : Json.Escape}
    {duplicate : Err} {loop : List Reference → Code Err Val Ans Unit}
    {Q : Unit → Ctx Val Ans → Prop} (hloop : InsertsWitnesses H (e.key H) loop)
    (ht : c.tx = some t) (hnot : t.writes.lookup (.execution (e.key H)) = none)
    (hf : 0 < e.fence) (hm : e.fence ≤ maxFence) (he : required [e.writerEpoch] = true)
    (h : ∀ σ t', e.plan.valid = true → Env (pact H G Allow) A (some t) c.db σ →
      σ.lookup (.execution (e.key H)) = none → Inserted H (r.keyDigest H) e t t' →
      Q () ⟨σ, some t', c.log⟩) :
    wpc (pact H G Allow) .readCommitted A (do
      let plan ← lift (encodePlan H escape e.plan)
      let fresh ← insert (.execution (e.key H)) ⟨r.keyDigest H, e.plan.input.owner,
        e.plan.input.operationID, e.writerEpoch, e.fence, e.token, plan, .prepared, e.leaseUntil,
        0, false⟩
      refuse (!fresh) duplicate
      loop (e.references H)) Q c := by
  refine wpc_bind (wpc_lift fun stored hstored => ?_)
  obtain ⟨rfl, hplan⟩ := encodePlan_eq_ok hstored
  refine wpc_bind (wpc_insertRow ht (fun _ _ _ _ => wpc_bind (wpc_refuse nofun))
    fun σ1 henv1 _ hfresh => wpc_bind (wpc_refuse fun _ => ?_))
  rw [lookup_union_of_none hnot] at hfresh
  have hformed : e.Formed := ⟨hplan, ⟨hf, hm⟩, he⟩
  refine wpc_insertWitnesses hloop rfl (references_branchIDs hformed)
    fun σ2 t' henv2 hkeep hall hrest => ?_
  have hrefs := Execution.references_eq (H := H) hformed
  have hheld : (t.stage (AList.singleton (.execution (e.key H))
      (freshExecution (r.keyDigest H) e))).Holds (.execution (e.key H)) :=
    holds_stage (lookup_singleton_self _ _)
  refine h σ2 t' hplan (henv1.trans henv2.of_stage)
    ((henv2.held hheld).trans hfresh) ⟨fun r hr => hkeep r (hr.stage _), hkeep _ hheld, ?_, ?_, ?_⟩
  · rw [hrest _ fun _ _ => Row.noConfusion, lookup_stage, lookup_singleton_self]
    rfl
  · intro br hbr
    exact hall (e.plan.referenceOf H e.fence e.writerEpoch br)
      (hrefs ▸ mem_map_of_mem hbr)
  · intro r' hne hne'
    rw [hrest r' ?_, lookup_stage, lookup_singleton_ne _ hne, none_or]
    intro ref href
    rw [hrefs] at href
    obtain ⟨br, hbr, rfl⟩ := List.mem_map.mp href
    exact hne' br hbr

theorem insertsWitnesses_insertWitnesses :
    InsertsWitnesses H key (insertWitnesses H key : List Reference → Code Err Val Ans Unit) :=
  ⟨rfl, Json.goEscape, .driver, fun _ _ => rfl⟩

/-- An execution is staged as new, and beside it at most its request row. -/
structure Issuing (H : Sha256) (e : Execution) (σ : Tables) (t : Tx Val) : Prop where
  plan : e.plan.valid = true
  fence : 0 < e.fence ∧ e.fence ≤ maxFence
  epoch : required [e.writerEpoch] = true
  binding : t.Holds (.binding e.plan.input.owner)
  live : Live σ e.plan.input.owner e.writerEpoch
  held : t.Holds (.execution (e.key H))
  fresh : σ.lookup (.execution (e.key H)) = none
  row : t.writes.lookup (.execution (e.key H)) =
    some (freshExecution ((requestFor e.plan).keyDigest H) e)
  witness : ∀ br ∈ e.plan.input.branches,
    t.writes.lookup (.witness (e.key H) (branchKey H br.id)) =
      some (freshWitness (e.plan.referenceOf H e.fence e.writerEpoch br))
  rest : ∀ r, r ≠ .request ((requestFor e.plan).keyDigest H) → r ≠ .execution (e.key H) →
    (∀ br ∈ e.plan.input.branches, r ≠ .witness (e.key H) (branchKey H br.id)) →
    t.writes.lookup r = none

section Issuing

variable {σ σ' : Tables} {t t' : Tx Val} {q : RequestRow} {old : ExecutionRow}

theorem Issuing.of_inserted (hins : Inserted H ((requestFor e.plan).keyDigest H) e t t')
    (hplan : e.plan.valid = true) (hfence : 0 < e.fence ∧ e.fence ≤ maxFence)
    (hepoch : required [e.writerEpoch] = true) (hheld : t.Holds (.binding e.plan.input.owner))
    (hlive : Live σ e.plan.input.owner e.writerEpoch)
    (hfresh : σ.lookup (.execution (e.key H)) = none)
    (hothers : ∀ r, r ≠ .request ((requestFor e.plan).keyDigest H) → t.writes.lookup r = none) :
    Issuing H e σ t' where
  plan := hplan
  fence := hfence
  epoch := hepoch
  binding := hins.keeps _ hheld
  live := hlive
  held := hins.held
  fresh := hfresh
  row := hins.row
  witness := hins.witness
  rest := fun r hr hx hw => (hins.rest r hx hw).trans (hothers r hr)

theorem Live.env {owner epoch : String} (h : Live σ owner epoch) (hheld : t.Holds (.binding owner))
    (henv : Env (pact H G Allow) A (some t) σ σ') : Live σ' owner epoch := by
  obtain ⟨b, hb, hepoch⟩ := h
  exact ⟨b, (henv.held hheld).trans hb, hepoch⟩

theorem Issuing.env (h : Issuing H e σ t)
    (henv : Env (pact H G Allow) A (some t) σ σ') : Issuing H e σ' t :=
  { h with
    live := h.live.env h.binding henv
    fresh := (henv.held h.held).trans h.fresh }

theorem Issuing.issued (h : Issuing H e σ t) : Issued H e σ (t.writes ∪ σ) where
  plan := h.plan
  fence := h.fence
  epoch := h.epoch
  live := h.live
  fresh := h.fresh
  row := lookup_union_of_some h.row
  witness := fun br hbr => lookup_union_of_some (h.witness br hbr)
  witnessOnly := by
    intro b hb
    refine lookup_union_of_none (h.rest _ Row.noConfusion Row.noConfusion fun br hbr heq => ?_)
    exact hb br hbr (Row.witness.inj heq).2.symm
  otherExecution := by
    intro k hk
    refine lookup_union_of_none (h.rest _ Row.noConfusion ?_ fun _ _ => Row.noConfusion)
    exact fun heq => hk (Row.execution.inj heq)
  otherWitness := by
    intro k b hk
    refine lookup_union_of_none (h.rest _ Row.noConfusion Row.noConfusion fun br _ heq => ?_)
    exact hk (Row.witness.inj heq).1
  otherRequest := by
    intro k hk
    refine lookup_union_of_none (h.rest _ ?_ Row.noConfusion fun _ _ => Row.noConfusion)
    exact fun heq => hk (Row.request.inj heq)
  binding := fun o => lookup_union_of_none
    (h.rest _ Row.noConfusion Row.noConfusion fun _ _ => Row.noConfusion)

/-- A first execution is staged, with its request. -/
structure Reserving (H : Sha256) (e : Execution) (σ : Tables) (t : Tx Val) : Prop
    extends Issuing H e σ t where
  first : e.fence = 1
  absent : σ.lookup (.request ((requestFor e.plan).keyDigest H)) = none
  heldRequest : t.Holds (.request ((requestFor e.plan).keyDigest H))
  filed : t.writes.lookup (.request ((requestFor e.plan).keyDigest H)) =
    some (requestRow (requestFor e.plan) (e.key H))

theorem Reserving.env (h : Reserving H e σ t)
    (henv : Env (pact H G Allow) A (some t) σ σ') : Reserving H e σ' t :=
  { h with
    toIssuing := h.toIssuing.env henv
    absent := (henv.held h.heldRequest).trans h.absent }

theorem Reserving.trans (h : Reserving H e σ t) : Trans H σ (t.writes ∪ σ) :=
  .reserve e h.issued h.first h.absent (lookup_union_of_some h.filed)

theorem wpc_reserving [H.CollisionFree] {r : Request} {escape : Json.Escape} {duplicate : Err}
    {b : BindingRow} {loop : List Reference → Code Err Val Ans Unit} {Q : Unit → Ctx Val Ans → Prop}
    (hloop : InsertsWitnesses H (e.key H) loop)
    (ht : c.tx = some (t.stage (AList.singleton (.request (r.keyDigest H))
      (requestRow r (e.key H)))))
    (hempty : ∀ r, t.writes.lookup r = none) (hheld : t.Holds (.binding s.owner))
    (hb : c.db.lookup (.binding s.owner) = some b) (hlive : b.writerEpoch = s.writerEpoch)
    (habsent : c.db.lookup (.request (r.keyDigest H)) = none) (hreq : requestFor e.plan = r)
    (howner : e.plan.input.owner = s.owner) (hfirst : e.fence = 1)
    (hepoch : e.writerEpoch = s.writerEpoch)
    (h : ∀ σ t', Env (pact H G Allow) A c.tx c.db σ → Reserving H e σ t' →
      Q () ⟨σ, some t', c.log⟩) :
    wpc (pact H G Allow) .readCommitted A (do
      let plan ← lift (encodePlan H escape e.plan)
      let fresh ← insert (.execution (e.key H)) ⟨r.keyDigest H, e.plan.input.owner,
        e.plan.input.operationID, e.writerEpoch, e.fence, e.token, plan, .prepared, e.leaseUntil,
        0, false⟩
      refuse (!fresh) duplicate
      loop (e.references H)) Q c := by
  subst hreq
  have hmax : 1 ≤ maxFence := by decide
  have hstaged : (AList.singleton (.request ((requestFor e.plan).keyDigest H))
      (requestRow (requestFor e.plan) (e.key H)) : Tables).lookup
        (.request ((requestFor e.plan).keyDigest H)) =
      some (requestRow (requestFor e.plan) (e.key H)) := lookup_singleton_self _ _
  have hothers : ∀ r, r ≠ .request ((requestFor e.plan).keyDigest H) →
      (t.stage (AList.singleton (.request ((requestFor e.plan).keyDigest H))
        (requestRow (requestFor e.plan) (e.key H)))).writes.lookup r = none := by
    intro r hr
    rw [lookup_stage, lookup_singleton_ne _ hr, none_or]
    exact hempty r
  have hbinding : (t.stage (AList.singleton (.request ((requestFor e.plan).keyDigest H))
      (requestRow (requestFor e.plan) (e.key H)))).Holds (.binding e.plan.input.owner) := by
    rw [howner]
    exact hheld.stage _
  refine wpc_insertRows hloop ht (hothers _ Row.noConfusion) (by omega) (by omega)
    (hepoch ▸ s.epoch_required) fun σ t' hvalid henv hfresh hins => ?_
  have hlive' : Live c.db e.plan.input.owner e.writerEpoch :=
    ⟨b, by rw [howner]; exact hb, by rw [hepoch]; exact hlive⟩
  refine h σ t' (ht ▸ henv) { Issuing.of_inserted hins hvalid ⟨by omega, by omega⟩
    (hepoch ▸ s.epoch_required) hbinding (hlive'.env hbinding henv) hfresh hothers with
    first := hfirst, absent := ?_, heldRequest := hins.keeps _ (holds_stage hstaged), filed := ?_ }
  · rw [henv.held (holds_stage hstaged)]
    exact habsent
  · rw [hins.rest _ Row.noConfusion fun _ _ => Row.noConfusion, lookup_stage, hstaged]
    rfl

/-- An execution may follow the aborted one that is active. -/
structure Succeeds (H : Sha256) (retry : Prop) (e : Execution) (q : RequestRow)
    (old : ExecutionRow) (σ : Tables) : Prop where
  current : σ.lookup (.request ((requestFor e.plan).keyDigest H)) = some q
  same : q.request = requestFor e.plan
  active : σ.lookup (.execution q.activeExecution) = some old
  aborted : old.state = .aborted
  next : e.fence = old.fence + 1
  kind : e.plan = old.plan ∨ ¬ retry ∧ e.plan.input.operationID ≠ old.operationID

variable {retry : Prop}

theorem Succeeds.env (h : Succeeds H retry e q old σ)
    (hheld : t.Holds (.request ((requestFor e.plan).keyDigest H)))
    (henv : Env (pact H G Allow) A (some t) σ σ') : ∃ old', Succeeds H retry e q old' σ' := by
  obtain ⟨old', hold', hlater⟩ := later_execution henv.later h.active
  have hcolumns := hlater.columns
  have hended := hlater.ended
  rw [h.aborted] at hended
  refine ⟨old', (henv.held hheld).trans h.current, h.same, hold', hended State.noConfusion, ?_, ?_⟩
  · rw [hcolumns]
    exact h.next
  · rw [hcolumns]
    exact h.kind

/-- The next execution of a request is staged, with the request pointing to it. -/
structure Advancing (H : Sha256) (retry : Prop) (e : Execution) (q : RequestRow)
    (old : ExecutionRow) (σ : Tables) (t : Tx Val) : Prop
    extends Issuing H e σ t, Succeeds H retry e q old σ where
  heldRequest : t.Holds (.request ((requestFor e.plan).keyDigest H))
  filed : t.writes.lookup (.request ((requestFor e.plan).keyDigest H)) =
    some { q with activeExecution := e.key H }

theorem Advancing.env {retry : Prop} (h : Advancing H retry e q old σ t)
    (henv : Env (pact H G Allow) A (some t) σ σ') :
    ∃ old', Advancing H retry e q old' σ' t := by
  obtain ⟨old', hsucc⟩ := h.toSucceeds.env h.heldRequest henv
  exact ⟨old', { h with toIssuing := h.toIssuing.env henv, toSucceeds := hsucc }⟩

theorem Advancing.trans (h : Advancing H retry e q old σ t) : Trans H σ (t.writes ∪ σ) :=
  .advance e old q h.issued h.current h.same h.active h.aborted h.next (h.kind.imp_right And.right)
    (lookup_union_of_some h.filed)

theorem Advancing.retried (h : Advancing H retry e q old σ t) (hr : retry) : Retried H e σ :=
  ⟨q, old, h.current, h.active, (h.kind.resolve_right fun hk => hk.1 hr).symm⟩

theorem wpc_advancing [H.CollisionFree] {α : Type} {r : Request} {escape : Json.Escape}
    {duplicate : Err} {retry : Prop}
    {loop : List Reference → Code Err Val Ans Unit} {insertion : Code Err Val Ans Unit}
    {rest : Nat → Code Err Val Ans α} {Q : α → Ctx Val Ans → Prop} (hinsertion : insertion = do
      let plan ← lift (encodePlan H escape e.plan)
      let fresh ← insert (.execution (e.key H)) ⟨r.keyDigest H, e.plan.input.owner,
        e.plan.input.operationID, e.writerEpoch, e.fence, e.token, plan, .prepared, e.leaseUntil,
        0, false⟩
      refuse (!fresh) duplicate
      loop (e.references H))
    (hloop : InsertsWitnesses H (e.key H) loop) (hreq : requestFor e.plan = r)
    (ht : c.tx = some t) (hempty : ∀ r, t.writes.lookup r = none)
    (hfence : 0 < e.fence ∧ e.fence ≤ maxFence) (hepoch : required [e.writerEpoch] = true)
    (hbinding : t.Holds (.binding e.plan.input.owner))
    (hlive : Live c.db e.plan.input.owner e.writerEpoch)
    (hheld : t.Holds (.request (r.keyDigest H))) (hsucc : Succeeds H retry e q old c.db)
    (h : ∀ σ t' n old', Advancing H retry e q old' σ t' →
      wpc (pact H G Allow) .readCommitted A (rest n) Q ⟨σ, some t', c.log⟩) :
    wpc (pact H G Allow) .readCommitted A (insertion >>= fun _ =>
      update (setRequest (r.keyDigest H) fun q => { q with activeExecution := e.key H }) >>= rest)
      Q c := by
  obtain ⟨db, tx, log⟩ := c
  subst ht hreq hinsertion
  refine wpc_bind (wpc_insertRows hloop rfl (hempty _) hfence.1 hfence.2 hepoch
    fun σ1 t1 hvalid henv1 hfresh hins => ?_)
  have hiss : Issuing H e σ1 t1 := .of_inserted hins hvalid hfence hepoch hbinding
    (hlive.env hbinding henv1) hfresh fun r _ => hempty r
  obtain ⟨old1, hsucc1⟩ := hsucc.env hheld henv1
  refine wpc_bind (wpc_updateRows rfl fun σ2 henv2 _ => ?_)
  have hiss2 := hiss.env henv2
  obtain ⟨old2, hsucc2⟩ := hsucc1.env (hins.keeps _ hheld) henv2
  have hunfiled : t1.writes.lookup (.request ((requestFor e.plan).keyDigest H)) = none := by
    rw [hins.rest _ Row.noConfusion fun _ _ => Row.noConfusion]
    exact hempty _
  have hrest : ∀ r, r ≠ .request ((requestFor e.plan).keyDigest H) →
      (t1.stage (setRequest ((requestFor e.plan).keyDigest H)
        (fun q => { q with activeExecution := e.key H }) (t1.writes ∪ σ2))).writes.lookup r =
        t1.writes.lookup r := by
    intro r hr
    rw [lookup_stage, lookup_setRequest_ne hr, none_or]
  refine h σ2 _ _ old2 { hsucc2 with
    plan := hvalid, fence := hfence, epoch := hepoch, binding := hiss2.binding.stage _
    live := hiss2.live, held := hiss2.held.stage _, fresh := hiss2.fresh
    row := (hrest _ Row.noConfusion).trans hiss.row
    witness := fun br hbr => (hrest _ Row.noConfusion).trans (hiss.witness br hbr)
    rest := fun r hr hx hw => (hrest r hr).trans (hiss.rest r hr hx hw)
    heldRequest := (hins.keeps _ hheld).stage _, filed := ?_ }
  rw [lookup_stage, lookup_setRequest_request, lookup_union_of_none hunfiled, hsucc2.current,
    bind_some, if_pos rfl, some_or]

end Issuing

/-- What a reservation that was acquired rests on: the commit of exactly this
execution, and nothing else that the call has done. -/
def Acquired (H : Sha256) (log log' : List (Entry Val Ans)) (res : Reservation) : Prop :=
  res.acquired = true ∧ ∃ before after, log' = log ++ [.committed before after] ∧
    Issued H res.execution before after

theorem raises_bindingIn {writer : Bool} :
    Raises Unreached (bindingIn s writer : Code Err Val Ans Unit) :=
  raises_bind (raises_send (.inl rfl)) fun _ => raises_found (.inr (.inl rfl)) fun _ =>
    raises_bind (raises_refuse (.inr (.inr (.inl rfl)))) fun _ =>
      raises_refuse (.inr (.inr (.inr rfl)))

theorem raises_newExecution :
    Raises Unreached (newExecution s p fence o : Code Err Val Ans Execution) := by
  refine raises_bind (raises_send (.inl rfl)) fun _ => raises_bind ?_ fun _ => raises_pure
  exact raises_bind (raises_send (.inl rfl)) fun _ => raises_pure

/-- Errors of a call that has not come as far as a stored request: it found no
binding that fits, or its plan cannot be stored. -/
def Unstored (err : Err) : Prop := Unreached err ∨ err = .invalidPlan

theorem raises_insertWitnesses :
    Raises Unstored (insertWitnesses H key refs : Code Err Val Ans Unit) := by
  induction refs with
  | nil => exact raises_pure
  | cons ref refs ih =>
    refine raises_bind (raises_lift fun e he => .inr (encodeReference_error he)) fun _ => ?_
    exact raises_bind (raises_send (.inl (.inl rfl))) fun _ =>
      raises_bind (raises_refuse (.inl (.inl rfl))) fun _ => ih

theorem raises_insertExecution :
    Raises Unstored (insertExecution H r e : Code Err Val Ans Unit) := by
  refine raises_bind (raises_lift fun e he => .inr (encodePlan_error he)) fun _ => ?_
  exact raises_bind (raises_send (.inl (.inl rfl))) fun _ =>
    raises_bind (raises_refuse (.inl (.inl rfl))) fun _ => raises_insertWitnesses

/-- What the transaction of `Reserve` is left with: the reservation that it made, or a request
that is there by now. -/
def Won (H : Sha256) (G : Tables → Tables → Prop) (Allow : Ctx Val Ans → Ev → Prop) (r : Request)
    (c c' : Ctx Val Ans) : Option Reservation → Prop
  | some got => Current H r got c.db c'.db ∧ Acquired H c.log c'.log got
  | none => Later (pact H G Allow) c.db c'.db ∧ Inv H c'.db ∧
    ∃ q, c'.db.lookup (.request (r.keyDigest H)) = some q

/-- A reservation is of the request, acquired by a commit of its own or shown
without its token. Where another input is stored in the end, the error says so
unless the call has not come as far. -/
theorem wp_reserve [H.CollisionFree] {r : Request} {p : FrozenPlan} {o : ReserveOptions}
    (hnone : c.tx = none) (hG : ∀ e σ ν, Issued H e σ ν → e.plan = p → G σ ν) :
    wp (pact H G Allow) .readCommitted A (reserve H s r p o).run (fun res c' => c'.tx = none ∧
      (∀ got, res = .ok got → Current H r got c.db c'.db ∧
        (Acquired H c.log c'.log got ∨ got.acquired = false ∧ got.execution.token = 0)) ∧
      ∀ err, res = .error err → ∀ ν, Later (pact H G Allow) c'.db ν → Conflicts H r ν →
        err = .inputConflict ∨ Unstored err ∨ r.match p = .error err) c := by
  have hunbound : Unstored .binding := .inl (.inr (.inr (.inl rfl)))
  refine wp_refuse_bind ⟨hnone, by simp, fun err heq _ _ _ => ?_⟩ fun hguard =>
    wp_lift_bind (fun err hmatch => ⟨hnone, by simp, fun err' heq _ _ _ => ?_⟩) fun _ hmatch => ?_
  · cases heq
    exact .inr (.inl hunbound)
  · cases heq
    exact .inr (.inr hmatch)
  simp only [Bool.or_eq_false_iff, decide_eq_false_iff_not, ne_eq, not_not] at hguard
  obtain ⟨hplan, hreq⟩ := Request.match_eq_ok hmatch
  have howner : p.input.owner = s.owner := by
    rw [← hguard.2, ← hreq]
    rfl
  refine wp_code_bind (wp_mono (p := (withTx Err.driver _).run)
    (Q := fun won c' => (c'.tx = none ∧ ∀ won', won = .ok won' → Won H G Allow r c c' won') ∧
      ∀ err, won = .error err → Unstored err) ?_ (wp_endsIn ?_ ?_))
  · rintro won c' ⟨⟨hnone', hwon⟩, hraised⟩
    refine ⟨fun err heq => ⟨hnone', by simp, fun err' heq' _ _ _ => ?_⟩, fun won' heq => ?_⟩
    · cases heq'
      exact .inr (.inl (hraised err heq))
    cases won' with
    | some got =>
      obtain ⟨hcurrent, hacquired⟩ := hwon _ heq
      refine ⟨hnone', fun got' heq' => ?_, by simp⟩
      cases heq'
      exact ⟨hcurrent, .inl hacquired⟩
    | none =>
      obtain ⟨hlater, hi', q, hq⟩ := hwon _ heq
      by_cases hc : Conflicts H r c'.db
      · refine wp_mono ?_ (wp_lookup_conflict hnone' hi' hc)
        rintro res c'' ⟨hnone'', err, rfl, herr⟩
        refine ⟨hnone'', by simp, fun err' heq' _ _ _ => ?_⟩
        cases heq'
        exact herr.imp_right fun h => .inl (.inl h)
      · refine wp_mono ?_ (wp_moves hi' (wp_lookup hnone'))
        rintro res c'' ⟨⟨hnone'', hshown⟩, _, hlater'⟩
        refine ⟨hnone'', fun got heq' => ?_, fun err _ ν hν hconf => ?_⟩
        · have hsh := hshown got heq'
          exact ⟨hsh.earlier hlater, .inr ⟨hsh.acquired, hsh.token⟩⟩
        · exact absurd (hconf.back hi' (hlater'.trans hν) hq) hc
  · have hmore : ∀ err, Unreached err → Unstored err := fun _ => .inl
    refine raises_withTx (.inl (.inl rfl)) (raises_bind (raises_bindingIn.mono hmore) fun _ => ?_)
    refine raises_bind (raises_newExecution.mono hmore) fun _ => ?_
    refine raises_bind (raises_send (.inl (.inl rfl))) fun _ => raises_ite ?_ ?_
    · exact raises_bind raises_insertExecution fun _ =>
        raises_bind (raises_send (.inl (.inl rfl))) fun _ => raises_pure
    · exact raises_bind (raises_send (.inl (.inl rfl))) fun _ => raises_pure
  refine wp_withBinding hnone (fun _ _ _ => ⟨rfl, by simp⟩)
    fun σ1 t b hlater1 _ hempty hheld hb hlive => ?_
  refine wpc_bind (wpc_newExecution fun σ2 token lease henv2 => ?_)
  refine wpc_bind (wpc_insertRow rfl (fun σ3 henv3 hi3 hold => ?_) fun σ3 henv3 _ habsent => ?_)
  · refine wpc_ite (by simp) fun _ => wpc_bind (wpc_rollback fun σ4 henv4 _ => wpc_pure ?_)
    refine fun σ5 henv5 hi5 => ⟨rfl, fun won' heq => ?_⟩
    cases heq
    have hlater5 := henv4.later.trans henv5.later
    rw [lookup_union_of_none (hempty _)] at hold
    obtain ⟨q, hq⟩ := ne_none_iff_exists'.mp hold
    obtain ⟨a, ha, _⟩ := hi3.active hq
    obtain ⟨q', a', ha', _⟩ := later_active hlater5 ha
    exact ⟨hlater1.trans (henv2.later.trans (henv3.later.trans hlater5)), hi5, q', ha'.request⟩
  refine wpc_ite (fun _ => ?_) fun h => absurd rfl h
  rw [lookup_union_of_none (hempty _)] at habsent
  generalize he : (⟨p, 1, s.writerEpoch, token, lease⟩ : Execution) = e
  have hep : requestFor e.plan = r := by
    rw [← he]
    exact hreq
  have hb3 : σ3.lookup (.binding s.owner) = some b := by
    rw [henv3.held hheld, henv2.held hheld]
    exact hb
  refine wpc_bind (wpc_reserving insertsWitnesses_insertWitnesses rfl hempty hheld hb3 (hlive.epoch rfl)
    habsent hep (by rw [← he]; exact howner) (by rw [← he]) (by rw [← he])
    fun σ4 t4 henv4 hres => ?_)
  refine wpc_bind (wpc_commitTx rfl (fun σ5 henv5 _ => ?_)
    fun σ5 henv5 _ => wpc_pure fun σ6 henv6 _ => ⟨rfl, fun won' heq => ?_⟩)
  · exact ⟨(hres.env henv5).trans, hG e _ _ (hres.env henv5).issued (by rw [← he])⟩
  · cases heq
    have hres5 := hres.env henv5
    have hlater5 := hlater1.trans (henv2.later.trans (henv3.later.trans
      (henv4.later.trans henv5.later)))
    have hcurrent : Current H r ⟨e, true, .prepared⟩ σ5 (t4.writes ∪ σ5) :=
      hres5.issued.current hep (hep ▸ hres5.absent) (hep ▸ lookup_union_of_some hres5.filed) rfl
    exact ⟨(hcurrent.earlier hlater5).later henv6.later, rfl, σ5, _, rfl, hres5.issued⟩

/-! ## Retry and Replan -/

theorem wpc_oldEvidence {t : Tx Val} {Q : List (Option Evidence) → Ctx Val Ans → Prop}
    (ht : c.tx = some t)
    (h : ∀ old σ t', Env (pact H G Allow) A (some t) c.db σ → (∀ r, t.Holds r → t'.Holds r) →
      t'.writes = t.writes → Q old ⟨σ, some t', c.log⟩) :
    wpc (pact H G Allow) .readCommitted A (oldEvidence H key st refs) Q c := by
  induction refs generalizing c t Q with
  | nil =>
    obtain ⟨db, tx, log⟩ := c
    subst ht
    exact wpc_pure (h [] db t (Env.refl _ _) (fun _ hr => hr) rfl)
  | cons ref refs ih =>
    refine wpc_lock_found ht fun σ1 w henv1 _ _ => ?_
    refine wpc_bind (ih rfl fun old σ2 t' henv2 hkeep hwrites => wpc_pure ?_)
    exact h _ σ2 t' (henv1.trans henv2.of_acquire) (fun r hr => hkeep r (hr.acquire _ _)) hwrites

theorem wp_advance [H.CollisionFree] {previous : Execution} {replan : Bool} (hnone : c.tx = none)
    (hG : ∀ e σ ν, Issued H e σ ν → e.plan = p → (replan = false → Retried H e σ) → G σ ν) :
    wp (pact H G Allow) .readCommitted A (advance H s previous p o replan).run
      (fun res c' => c'.tx = none ∧ ∀ got, res = .ok got → Acquired H c.log c'.log got) c := by
  have herr : ∀ err, c.tx = none ∧ ∀ got, (Except.error err : Except Err Reservation) = .ok got →
      Acquired H c.log c.log got := fun _ => ⟨hnone, nofun⟩
  refine wp_refuse_bind (herr _) fun hguard => wp_refuse_bind (herr _) fun howner =>
    wp_lift_bind (fun _ _ => herr _) fun _ hmatch => wp_refuse_bind (herr _) fun _ => ?_
  simp only [Bool.or_eq_false_iff, Bool.not_eq_false', decide_eq_false_iff_not, ne_eq,
    not_not, ge_iff_le, not_le] at hguard howner
  obtain ⟨⟨⟨⟨hprev, hplan⟩, _⟩, hpos⟩, hmax⟩ := hguard
  obtain ⟨_, hreq⟩ := Request.match_eq_ok hmatch
  have hpo : p.input.owner = s.owner := (congrArg Request.owner hreq).trans howner
  refine wp_withBinding hnone (fun _ _ _ => ⟨rfl, nofun⟩)
    fun σ1 t b _ _ hempty hheld hb hlive => ?_
  refine wpc_bind (wpc_lookupIn_locked rfl hempty fun σ2 q row henv2 hi2 hq hqr hrow => ?_)
  refine wpc_bind (wpc_refuse fun hcur => ?_)
  simp only [Bool.or_eq_false_iff, decide_eq_false_iff_not, ne_eq, not_not] at hcur
  obtain ⟨⟨haborted, hkey⟩, hdigest⟩ := hcur
  -- the active execution is the one the caller names
  have hok := hi2.execution _ row hrow
  have hactive : q.activeExecution = previous.key H := by
    rw [hok.key, ← hkey, hok.owner, hok.operation]
    rfl
  have hold : row.plan = previous.plan := FrozenPlan.digest_inj hok.plan hprev hdigest
  obtain ⟨_, hop, _, hfence⟩ :=
    hi2.row_of_key (e := previous) (hactive ▸ hrow) hprev (Nat.le_of_lt hmax)
  refine wpc_bind (wpc_oldEvidence rfl fun old σ3 t3 henv3 hkeep3 hwrites3 => ?_)
  refine wpc_bind (wpc_lift fun _ hvalidate => ?_)
  obtain ⟨_, hretry, hreplan⟩ := validateAdvance_eq_ok hvalidate
  refine wpc_bind (wpc_newExecution fun σ4 token lease henv4 => ?_)
  generalize he : (⟨p, previous.fence + 1, s.writerEpoch, token, lease⟩ : Execution) = e
  have hep : e.plan = p := by rw [← he]
  have hef : e.fence = previous.fence + 1 := by rw [← he]
  have hee : e.writerEpoch = s.writerEpoch := by rw [← he]
  have hempty3 : ∀ r, t3.writes.lookup r = none := fun r => by
    rw [hwrites3]
    exact hempty r
  have hheld2 : (t.acquire (.request ((requestFor previous.plan).keyDigest H)) .update).Holds
      (.binding e.plan.input.owner) := by
    rw [hep, hpo]
    exact hheld.acquire _ _
  have hlive2 : Live σ2 e.plan.input.owner e.writerEpoch := by
    refine ⟨b, ?_, ?_⟩
    · rw [hep, hpo, henv2.held hheld]
      exact hb
    · rw [hee]
      exact hlive.epoch rfl
  have hsucc2 : Succeeds H (replan = false) e q row σ2 := by
    refine ⟨?_, hqr.trans (by rw [hep, hreq]), hrow, haborted, by rw [hef, hfence], ?_⟩
    · rw [hep, hreq]
      exact hq
    · rw [hep]
      cases replan with
      | false => exact .inl ((hretry rfl).trans hold.symm)
      | true => exact .inr ⟨nofun, fun heq => hreplan rfl (heq.trans hop)⟩
  have hreqHeld : (t.acquire (.request ((requestFor previous.plan).keyDigest H)) .update).Holds
      (.request ((requestFor e.plan).keyDigest H)) := by
    rw [hep, hreq]
    exact holds_acquire _ _ _
  obtain ⟨row3, hsucc3⟩ := hsucc2.env hreqHeld henv3
  obtain ⟨row4, hsucc4⟩ := hsucc3.env (hkeep3 _ hreqHeld) henv4
  refine wpc_advancing rfl insertsWitnesses_insertWitnesses (hep ▸ hreq) rfl hempty3
    ⟨by omega, by omega⟩ (hee ▸ s.epoch_required) (hkeep3 _ hheld2)
    ((hlive2.env hheld2 henv3).env (hkeep3 _ hheld2) henv4) (hkeep3 _ (holds_acquire _ _ _)) hsucc4
    fun σ5 t5 n row5 hadv => ?_
  refine wpc_bind (wpc_commitTx rfl (fun σ6 henv6 _ => ?_)
    fun σ6 henv6 _ => wpc_pure fun _ _ _ => ⟨rfl, fun got heq => ?_⟩)
  · obtain ⟨row6, hadv6⟩ := hadv.env henv6
    exact ⟨hadv6.trans, hG e _ _ hadv6.issued hep hadv6.retried⟩
  · cases heq
    obtain ⟨row6, hadv6⟩ := hadv.env henv6
    exact ⟨rfl, σ6, _, rfl, hadv6.issued⟩

end ReliableMessaging.MySql
