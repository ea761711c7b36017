import ReliableMessaging.MySql.Verified.Store

/-!
# Receipts keep the contract

An audit writes columns of one witness that neither name it nor state it, under
the locks of the execution and the witness.
-/

namespace ReliableMessaging.MySql

open Transaction TxLang Option

variable {Ev : Type} {Ans : Ev → Type}
variable {H : Sha256} {Allow : Ctx Val Ans → Ev → Prop} {A G : Tables → Tables → Prop}
variable {c : Ctx Val Ans} {s : Store} {e : Execution} {ref : Reference} {t : Tx Val}
variable {ek bk : Bytes}

variable {σ σ' : Tables} {w : WitnessRow} {x : ExecutionRow}

theorem union_of_empty (hempty : ∀ r, t.writes.lookup r = none) : t.writes ∪ σ = σ := by
  rw [eq_empty_of_lookup hempty, AList.empty_union]

theorem trans_of_empty (hempty : ∀ r, t.writes.lookup r = none) : Trans H σ (t.writes ∪ σ) :=
  .evolve ⟨fun _ => lookup_union_of_none (hempty _), fun _ => lookup_union_of_none (hempty _),
    fun _ => .of_eq (lookup_union_of_none (hempty _)) fun _ => lookup_union_of_none (hempty _)⟩

/-- An audit changes columns of one witness that neither name nor state it. -/
theorem SetsWitness.trans {ν : Tables} {w' : WitnessRow} (h : SetsWitness ek bk w w' σ ν)
    (href : w'.reference = w.reference) (hstate : w'.state = w.state) : Trans H σ ν := by
  refine .evolve (.of_key (k := ek) (fun r _ hr => h.rest r (hr bk))
    (.of_witness (h.rest _ Row.noConfusion) (fun b hb => ?_) fun b v hv => ?_))
  · have hne : b ≠ bk := by
      rintro rfl
      rw [h.before] at hb
      cases hb
    rw [h.rest _ fun heq => hne (Row.witness.inj heq).2]
    exact hb
  · by_cases hb : b = bk
    · subst hb
      cases h.before.symm.trans hv
      exact ⟨w', h.after, href, hstate⟩
    · refine ⟨v, ?_, rfl, rfl⟩
      rw [h.rest _ fun heq => hb (Row.witness.inj heq).2]
      exact hv

structure Checked (s : Store) (σ : Tables) (t : Tx Val) (ek bk : Bytes) (ref : Reference)
    (x : ExecutionRow) (w : WitnessRow) : Prop extends Finds ek bk ref σ x w where
  entered : Entered s σ t
  heldExecution : t.Holds (.execution ek)
  heldWitness : t.Holds (.witness ek bk)

theorem checked_of_locks (hempty : ∀ r, t.writes.lookup r = none) (hentered : Entered s σ t)
    (hx : (view .readCommitted σ (some t)).lookup (.execution ek) = some x)
    (henv : Env (pact H G Allow) A (some (t.acquire (.execution ek) .update)) σ σ')
    (hw : (view .readCommitted σ' (some (t.acquire (.execution ek) .update))).lookup
      (.witness ek bk) = some w) (href : w.reference = ref) (hstate : w.state = x.state) :
    Checked s σ' ((t.acquire (.execution ek) .update).acquire (.witness ek bk) .update) ek bk ref
      x w := by
  have hentered' := (Entered.acquire hentered (.execution ek) .update).env henv
  refine ⟨⟨?_, (lookup_union_of_none (hempty _)).symm.trans hw, href, hstate⟩,
    hentered'.acquire _ _, (holds_acquire _ _ _).acquire _ _, holds_acquire _ _ _⟩
  exact (henv.held (holds_acquire _ _ _)).trans ((lookup_union_of_none (hempty _)).symm.trans hx)

theorem Checked.env (h : Checked s σ t ek bk ref x w)
    (henv : Env (pact H G Allow) A (some t) σ σ') : Checked s σ' t ek bk ref x w :=
  { h with
    entered := h.entered.env henv
    execution := (henv.held h.heldExecution).trans h.execution
    witness := (henv.held h.heldWitness).trans h.witness }

theorem Checked.read {v : WitnessRow} (h : Checked s σ t ek bk ref x w)
    (hempty : ∀ r, t.writes.lookup r = none)
    (hv : (view .readCommitted σ (some t)).lookup (.witness ek bk) = some v) : v = w := by
  rw [show view .readCommitted σ (some t) = t.writes ∪ σ from rfl,
    lookup_union_of_none (hempty _), h.witness] at hv
  exact (Option.some.inj hv).symm

theorem wpc_setWitness {set : WitnessRow → WitnessRow} {Q : Nat → Ctx Val Ans → Prop}
    (ht : c.tx = some t) (hempty : ∀ r, t.writes.lookup r = none)
    (hc : Checked s c.db t ek bk ref x w) (h : ∀ σ t' n, Checked s σ t' ek bk ref x w →
      (∀ ν : Tables, ν.lookup (.witness ek bk) = some w →
      SetsWitness ek bk w (set w) ν (t'.writes ∪ ν)) → Q n ⟨σ, some t', c.log⟩) :
    wpc (pact H G Allow) .readCommitted A
      (update (setWitnesses ek (fun b _ => decide (b = bk)) set)) Q c := by
  refine wpc_updateRows ht fun σ henv _ => ?_
  have hcσ := hc.env henv
  refine h σ _ _ { hcσ with
    entered := ⟨hcσ.entered.held.stage _, hcσ.entered.admitted⟩
    heldExecution := hcσ.heldExecution.stage _, heldWitness := hcσ.heldWitness.stage _ }
    fun ν hν => ⟨hν, lookup_union_of_some ?_, fun r hr => lookup_union_of_none ?_⟩
  · rw [lookup_stage, lookup_setWitnesses_witness, lookup_union_of_none (hempty _), hcσ.witness,
      bind_some, if_pos ⟨rfl, decide_eq_true rfl⟩, some_or]
  · rw [lookup_stage, hempty r, or_none]
    cases r with
    | witness k b =>
      rw [lookup_setWitnesses_witness]
      have hne : ¬ (k = ek ∧ decide (b = bk) = true) := by
        rintro ⟨rfl, hb⟩
        exact hr (by rw [of_decide_eq_true hb])
      simp only [hne, if_false, bind_fun_none]
    | _ => exact lookup_setWitnesses_other fun _ _ => Row.noConfusion

theorem wp_receiptTx {fn : Bytes → Bytes → State → Code Err Val Ans Unit}
    {Q : Except Err Unit → Ctx Val Ans → Prop} (hnone : c.tx = none) (hearly : ∀ r, Q (.error r) c)
    (herr : ∀ r σ log, Q (.error r) ⟨σ, none, log⟩)
    (h : ∀ σ t (x : ExecutionRow) (w : WitnessRow), matchExecution H e ref = true →
      ref.owner = s.owner → x.token = e.token → (∀ r, t.writes.lookup r = none) →
      Checked s σ t (e.key H) (branchKey H ref.branchID) ref x w →
      wpc (pact H G Allow) .readCommitted A
        (fn (e.key H) (branchKey H ref.branchID) x.state >>= fun _ => commit)
        (fun a c' => ∀ σ', Env (pact H G Allow) A c'.tx c'.db σ' → Inv H σ' →
          Q (.ok a) ⟨σ', none, c'.log⟩) ⟨σ, some t, c.log⟩) :
    wp (pact H G Allow) .readCommitted A (receiptTx H s e ref fn).run Q c := by
  refine wp_refuse_bind (hearly _) fun hguard => ?_
  simp only [Bool.or_eq_false_iff, Bool.not_eq_false', decide_eq_false_iff_not, ne_eq,
    not_not] at hguard
  refine wp_withBinding hnone herr fun σ1 t _ _ _ hempty hheld hb hadmits => ?_
  refine wpc_lock_found rfl fun σ2 x henv2 _ hx => wpc_bind (wpc_refuse fun htoken => ?_)
  refine wpc_lock_found rfl fun σ3 w henv3 _ hw => wpc_bind (wpc_refuse fun hchecked => ?_)
  simp only [Bool.or_eq_false_iff, decide_eq_false_iff_not, ne_eq, not_not] at hchecked htoken
  exact h σ3 _ x w hguard.1 hguard.2 htoken hempty (checked_of_locks hempty
    ((Entered.of_admits hheld hb hadmits).env henv2) hx henv3 hw hchecked.1 hchecked.2)

/-- The witness of a reference carries this half receipt. -/
def HalfRecorded (H : Sha256) (ref : Reference) (h : HalfReceipt) (σ : Tables) : Prop :=
  ∃ w : WitnessRow, σ.lookup (.witness (ref.executionKey H) (branchKey H ref.branchID)) = some w ∧
    w.reference = ref ∧ w.halfOutcome = h.outcome ∧ w.brokerMessageID = some h.brokerMessageID ∧
    w.brokerTransactionID = some h.brokerTransactionID ∧ w.halfErrorCode = h.errorCode

theorem wp_recordHalf {h : HalfReceipt} (hnone : c.tx = none)
    (hG : ∀ σ ν, RecordsHalf H e ref h σ ν → G σ ν) :
    wp (pact H G Allow) .readCommitted A (recordHalf H s e ref h).run (fun r c' => c'.tx = none ∧
      ∀ u, r = .ok u → ∃ before after, c'.log = c.log ++ [.committed before after] ∧
        HalfRecorded H ref h after) c := by
  refine wp_refuse_bind ⟨hnone, nofun⟩ fun hvalid => ?_
  refine wp_receiptTx hnone (fun _ => ⟨hnone, nofun⟩) (fun _ _ _ => ⟨rfl, nofun⟩)
    fun σ1 t x w hmatch howner htoken hempty hc => ?_
  refine wpc_bind (wpc_bind (wpc_refuse fun hprepared => ?_))
  refine wpc_bind (wpc_selectRows fun σ2 henv2 _ => wpc_bind (wpc_found fun v hv => ?_))
  refine wpc_bind (wpc_refuse fun hkept => wpc_bind (wpc_utcTimestamp fun σ3 now henv3 _ => ?_))
  have hc2 := hc.env henv2
  cases hc2.read hempty hv
  simp only [Bool.or_eq_false_iff, Bool.and_eq_false_iff, decide_eq_false_iff_not, ne_eq, not_not,
    Bool.not_eq_false'] at hvalid hprepared hkept
  refine wpc_bind (wpc_setWitness rfl hempty (hc2.env henv3) fun σ4 t' n hc4 hsets => wpc_pure ?_)
  refine wpc_commitTx rfl (fun σ5 henv5 _ => ⟨?_, hG _ _ ?_⟩)
    fun σ5 henv5 _ σ6 _ _ => ⟨rfl, fun _ _ => ?_⟩
  · exact (hsets _ (hc4.env henv5).witness).trans rfl rfl
  · exact ⟨x, w, now, hsets _ (hc4.env henv5).witness, (hc4.env henv5).toFinds,
      (matchExecution_spec hmatch).2, htoken,
      hprepared, hvalid, hkept.1.1, hkept.1.2, or_assoc.mp hkept.2⟩
  · obtain ⟨br, _, rfl⟩ := Execution.mem_references (matchExecution_spec hmatch).2
    exact ⟨σ5, _, rfl, _, (hsets _ (hc4.env henv5).witness).after, hc.reference, rfl, rfl, rfl, rfl⟩

theorem wp_recordFinal {f : FinalOutcome} {code : String} (hnone : c.tx = none)
    (hG : ∀ σ ν, MayRecord H s e ref f code σ → RecordsFinal H e ref f code σ ν → G σ ν) :
    wp (pact H G Allow) .readCommitted A (recordFinal H s e ref f code).run
      (fun _ c' => c'.tx = none) c := by
  refine wp_refuse_bind hnone fun hvalid => ?_
  refine wp_receiptTx hnone (fun _ => hnone) (fun _ _ _ => rfl)
    fun σ1 t x w hmatch howner htoken hempty hc => ?_
  refine wpc_bind (wpc_bind (wpc_refuse fun hended => wpc_bind (wpc_refuse fun hfits => ?_)))
  refine wpc_bind (wpc_selectRows fun σ2 henv2 _ => wpc_bind (wpc_found fun v hv => ?_))
  refine wpc_bind (wpc_refuse fun hkept => wpc_bind (wpc_utcTimestamp fun σ3 now henv3 _ => ?_))
  have hc2 := hc.env henv2
  cases hc2.read hempty hv
  simp only [Bool.or_eq_false_iff, Bool.and_eq_false_iff, decide_eq_false_iff_not, ne_eq, not_not,
    Bool.not_eq_false'] at hvalid hended hfits hkept
  have hattempted : f ≠ .notAttempted := of_decide_eq_true (Bool.and_eq_true _ _ ▸ hvalid).2
  refine wpc_bind (wpc_setWitness rfl hempty (hc2.env henv3) fun σ4 t' n hc4 hsets => wpc_pure ?_)
  refine wpc_commitTx rfl (fun σ5 henv5 _ => ⟨?_, hG _ _ ?_ ?_⟩) fun _ _ _ _ _ _ => rfl
  · exact (hsets _ (hc4.env henv5).witness).trans rfl rfl
  · exact ⟨hvalid, hmatch, howner, (hc4.env henv5).entered.admitted⟩
  · exact ⟨x, w, now, hsets _ (hc4.env henv5).witness, (hc4.env henv5).toFinds,
      (matchExecution_spec hmatch).2, htoken,
      hended, hattempted, fun hf => hfits.1.resolve_left (not_not.mpr hf),
      fun hf => hfits.2.resolve_left (not_not.mpr hf), or_assoc.mp hkept⟩

theorem wp_recordRecoveryFinal {outcome : FinalOutcome} (hnone : c.tx = none)
    (hG : ∀ σ ν, RecordsRecovery H ref outcome σ ν → G σ ν) :
    wp (pact H G Allow) .readCommitted A (recordRecoveryFinal H s ref outcome).run
      (fun _ c' => c'.tx = none) c := by
  refine wp_lift_bind (fun _ _ => hnone) fun state hstate => wp_refuse_bind hnone fun _ => ?_
  refine wp_withBinding hnone (fun _ _ _ => rfl) fun σ1 t _ _ _ hempty hheld hb hadmits => ?_
  refine wpc_lock_found rfl fun σ2 x henv2 _ hx => wpc_bind (wpc_refuse fun hexact => ?_)
  refine wpc_lock_found rfl fun σ3 w henv3 _ hw => wpc_bind (wpc_refuse fun hchecked => ?_)
  simp only [Bool.or_eq_false_iff, Bool.and_eq_false_iff, decide_eq_false_iff_not, ne_eq,
    not_not] at hexact hchecked
  obtain ⟨_, rfl⟩ := hexact
  obtain ⟨⟨href, hsame⟩, hkept⟩ := hchecked
  refine wpc_ite (fun _ => ?_) fun hnew => ?_
  · refine wpc_commitTx rfl (fun σ4 _ _ => ⟨trans_of_empty hempty, hG _ _ (.inl ?_)⟩)
      fun _ _ _ _ _ _ => rfl
    exact union_of_empty hempty
  · refine wpc_bind (wpc_utcTimestamp fun σ4 now henv4 _ => ?_)
    have hc := checked_of_locks hempty ((Entered.of_admits hheld hb hadmits).env henv2) hx henv3 hw
      href hsame
    refine wpc_bind (wpc_setWitness rfl hempty (hc.env henv4) fun σ5 t' n hc5 hsets => ?_)
    refine wpc_commitTx rfl (fun σ6 henv6 _ => ⟨?_, hG _ _ (.inr ?_)⟩) fun _ _ _ _ _ _ => rfl
    · exact (hsets _ (hc5.env henv6).witness).trans rfl rfl
    · exact ⟨x, w, now, hsets _ (hc5.env henv6).witness, (hc5.env henv6).toFinds, hstate,
        hkept.resolve_right hnew⟩

end ReliableMessaging.MySql
