import ReliableMessaging.Mongo.Rules

/-!
# The operations keep the contract

Each operation's program, in any company: it makes only the commits that the
contract allows, and of these only the ones that its own promise describes.
-/

namespace ReliableMessaging.Mongo

open Transaction TxLang List Option

variable {Ev : Type} {Ans : Ev → Type} {H : Sha256} {s : Store}
variable {Allow : Ctx Val Ans → Ev → Prop} {A G : Collections → Collections → Prop}
variable {c : Ctx Val Ans} {e : Execution}

/-! ## Reads -/

theorem reads_find : (find : Code Err Val Ans Collections).run.All fun st => st.reads = true :=
  all_send rfl

theorem reads_bindingIn {writer : Bool} :
    (bindingIn s writer : Code Err Val Ans Unit).run.All fun st => st.reads = true :=
  all_bind reads_find fun _ => all_found fun _ _ => all_bind all_refuse fun _ => all_refuse

variable {r : Request} {ref : Reference} {p : FrozenPlan} {fence retries : Nat} {o : ReserveOptions}
variable {d d' : ExecutionDoc} {f : FinalOutcome}

theorem reads_lookupIn :
    (lookupIn H s r : Code Err Val Ans Reservation).run.All fun st => st.reads = true := by
  refine all_bind reads_find fun _ => all_found fun _ _ => ?_
  refine all_bind all_refuse fun _ => all_bind all_refuse fun _ => all_bind reads_find fun _ => ?_
  exact all_found fun _ _ => all_bind all_lift fun _ => all_bind all_lift fun _ => all_pure

theorem reads_evidence :
    (evidence H s ref : Code Err Val Ans (Option Evidence)).run.All fun st => st.reads = true := by
  refine all_bind all_refuse fun _ => all_bind reads_bindingIn fun _ => all_bind reads_find ?_
  intro db
  split
  · exact all_pure
  · split
    · exact all_pure
    · exact all_pure

theorem reads_oldEvidence {refs : List Reference} :
    (oldEvidence H s refs : Code Err Val Ans (List (Option Evidence))).run.All
      fun st => st.reads = true := by
  induction refs with
  | nil => exact all_pure
  | cons ref refs ih =>
    exact all_bind reads_evidence fun _ => all_bind ih fun _ => all_pure

theorem reads_newDoc :
    (newDoc H s p fence o : Code Err Val Ans (ExecutionDoc × Execution)).run.All
      fun st => st.reads = true := by
  refine all_bind (all_send rfl) fun _ => all_bind reads_find fun _ => all_found fun _ _ => ?_
  refine all_bind (all_bind (all_send rfl) fun _ => all_pure) fun _ => ?_
  exact all_bind all_lift fun _ => all_bind all_lift fun _ => all_pure

theorem newDoc_fresh (hfence : fence ≤ maxFence) :
    Returns (fun x => FreshDoc H (x.2.key H) x.1)
      (newDoc H s p fence o : Code Err Val Ans (ExecutionDoc × Execution)) := by
  refine returns_bind (returns_any _) fun _ _ => returns_bind (returns_any _) fun _ _ => ?_
  refine returns_bind (returns_any _) fun _ _ => returns_bind (returns_any _) fun _ _ => ?_
  refine returns_bind returns_lift fun _ hplan => returns_bind (returns_any _) fun _ _ => ?_
  obtain ⟨rfl, hvalid⟩ := encodePlan_eq_ok hplan
  exact returns_pure ⟨⟨hvalid, rfl, rfl, rfl, hfence⟩, rfl, rfl⟩

theorem wpc_newDoc {t : Tx Val} {Q : ExecutionDoc × Execution → Ctx Val Ans → Prop}
    (ht : c.tx = some t) (hi : Inv H c.db) (hfence : fence ≤ maxFence)
    (h : ∀ x σ, Env (pact H G Allow) A (some t) c.db σ → Inv H σ → FreshDoc H (x.2.key H) x.1 →
      Q x ⟨σ, some t, c.log⟩) :
    wpc (pact H G Allow) .snapshot A (newDoc H s p fence o) Q c := by
  refine wp_mono ?_ (wp_endsIn (newDoc_fresh hfence) (wp_readsIn reads_newDoc ht hi
    (Q := fun _ c' => ∃ σ, c' = ⟨σ, some t, c.log⟩ ∧
      Env (pact H G Allow) A (some t) c.db σ ∧ Inv H σ)
    fun _ σ henv hi' => ⟨σ, rfl, henv, hi'⟩))
  rintro r c' ⟨⟨σ, rfl, henv, hi'⟩, hfresh⟩ x hx
  exact h x σ henv hi' (hfresh x hx)

/-! ## Updates outside of transactions -/

/-- `BeginPrepare`; its promise about the epoch holds where no one changes the
binding between its two statements. -/
theorem wp_beginPrepare {quiet : Prop} (hnone : c.tx = none)
    (hA : ∀ a b, A a b → quiet → b.lookup (.binding s.owner) = a.lookup (.binding s.owner))
    (hG : ∀ σ ν, BeginsPrepare H quiet e σ ν → G σ ν) :
    wp (pact H G Allow) .snapshot A (beginPrepare H s e).run Closed c := by
  refine wp_refuse_bind hnone fun hguard => ?_
  refine wp_bindingIn_bind hnone (fun _ _ => rfl) fun σ1 b _ hb hepoch => ?_
  refine wp_updateOne_bind rfl (fun σ now d ν henv _ hf hsets => ⟨⟨rfl, rfl⟩, hG _ _ ?_⟩)
    (fun _ _ _ => rfl) fun n σ log => wp_refuse rfl fun _ => rfl
  simp only [Bool.or_eq_false_iff, Bool.not_eq_false', decide_eq_false_iff_not, ne_eq,
    not_not] at hguard
  simp only [Bool.and_eq_true, decide_eq_true_eq, Bool.not_eq_true'] at hf
  obtain ⟨⟨⟨⟨hstate, htoken⟩, hdigest⟩, hstarted⟩, _⟩ := hf
  refine ⟨d, hsets, ⟨hguard.1.1, htoken, hdigest⟩, hstate, hstarted, fun hquiet => ⟨b, ?_, ?_⟩⟩
  · refine henv.assumed (P := fun σ => σ.lookup (.binding e.plan.input.owner) = some b)
      (fun {a b'} hab hbound => ?_) ?_
    · rw [hguard.1.2] at hbound ⊢
      exact (hA _ _ hab hquiet).trans hbound
    · rw [hguard.1.2]
      exact hb
  · rw [hepoch rfl, hguard.2]

theorem wp_abort {expired : Bool} (hnone : c.tx = none) (hG : ∀ σ ν, Aborts H e σ ν → G σ ν) :
    wp (pact H G Allow) .snapshot A (abort H s e expired).run Closed c := by
  refine wp_refuse_bind hnone fun hguard => ?_
  refine wp_bindingIn_bind hnone (fun _ _ => rfl) fun σ1 b _ _ _ => ?_
  refine wp_lift_bind (fun _ _ => rfl) fun refs _ => ?_
  refine wp_updateOne_bind rfl (fun σ now d ν _ _ hf hsets => ⟨docStep_ended _ _ _, hG _ _ ?_⟩)
    (fun _ _ _ => rfl) fun n σ log => rfl
  simp only [Bool.or_eq_false_iff, Bool.not_eq_false'] at hguard
  simp only [Bool.and_eq_true, decide_eq_true_eq] at hf
  exact ⟨d, hsets, ⟨hguard.1, hf.1.1.1.2, hf.1.1.2⟩, hf.1.1.1.1⟩

theorem wp_reconcileLoop {docs : List (Bytes × ExecutionDoc)} {n : Nat} (hnone : c.tx = none)
    (hG : ∀ e σ ν, Aborts H e σ ν → G σ ν) :
    wp (pact H G Allow) .snapshot A (reconcileLoop H s docs n).run Closed c := by
  induction docs generalizing c n with
  | nil => exact hnone
  | cons x docs ih =>
    refine wp_lift_bind (fun _ _ => hnone) fun r _ => ?_
    refine wp_code_bind (wp_mono ?_ (wp_abort hnone (hG _)))
    exact fun _ c' hclosed => ⟨fun _ _ => hclosed, fun _ _ => ih hclosed⟩

theorem wp_reconcileOnce {order : List (Bytes × ExecutionDoc) → List (Bytes × ExecutionDoc)}
    {limit : Nat} (hnone : c.tx = none) (hG : ∀ e σ ν, Aborts H e σ ν → G σ ν) :
    wp (pact H G Allow) .snapshot A (reconcileOnce H s order limit).run Closed c := by
  refine wp_refuse_bind hnone fun _ => ?_
  refine wp_bindingIn_bind hnone (fun _ _ => rfl) fun σ1 b _ _ _ => ?_
  refine wp_code_bind (wp_now_bind (fun σ => ⟨fun _ _ => rfl, nofun⟩)
    fun σ clock _ _ => ⟨nofun, fun _ _ => ?_⟩)
  exact wp_find_bind rfl (fun _ => rfl) fun σ _ _ => wp_reconcileLoop rfl hG

theorem wp_evidence (hnone : c.tx = none) (hi : Inv H c.db) :
    wp (pact H G Allow) .snapshot A (evidence H s ref).run Closed c := by
  refine wp_mono ?_ (wp_reads reads_evidence (Γ := pact H G Allow) hi)
  exact fun _ c' hc => hc.1.trans hnone

/-! ## Receipts -/

theorem witnessIs_spec {i : Nat} {clause : BranchDoc → Bool} (h : d.witnessIs i clause = true) :
    ∃ w, d.witnesses[i]? = some w ∧ clause w = true := by
  unfold ExecutionDoc.witnessIs at h
  cases hw : d.witnesses[i]? with
  | none =>
    rw [hw] at h
    cases h
  | some w =>
    rw [hw] at h
    exact ⟨w, rfl, h⟩

/-- The filter of a receipt passes only the document that the execution is the
capability for, at the witness with the reference. -/
theorem receiptFilter_spec {filter : Nat × (ExecutionDoc → Bool)}
    (h : receiptFilter H s e ref = .ok filter) (hd : filter.2 d = true) :
    Permits H e d ∧ ∃ w, d.witnesses[filter.1]? = some w ∧ w.reference = ref := by
  unfold receiptFilter at h
  split at h
  · cases h
  next hguard =>
    simp only [Bool.or_eq_true, Bool.not_eq_true', not_or, Bool.not_eq_false] at hguard
    split at h
    · cases h
    next raw hraw =>
      obtain ⟨rfl, _⟩ := encodeReference_eq_ok hraw
      split at h
      · cases h
      · cases h
        simp only [Bool.and_eq_true, decide_eq_true_eq] at hd
        obtain ⟨⟨htoken, hdigest⟩, hclause⟩ := hd
        obtain ⟨w, hw, href⟩ := witnessIs_spec hclause
        exact ⟨⟨(matchExecution_spec hguard.1).1, htoken, hdigest⟩, w, hw, of_decide_eq_true href⟩

theorem wp_recordHalf {h : HalfReceipt} (hnone : c.tx = none)
    (hG : ∀ σ ν, RecordsHalf H e ref h σ ν → G σ ν) :
    wp (pact H G Allow) .snapshot A (recordHalf H s e ref h).run Closed c := by
  refine wp_refuse_bind hnone fun _ => ?_
  refine wp_bindingIn_bind hnone (fun _ _ => rfl) fun σ1 b _ _ _ => ?_
  refine wp_lift_bind (fun _ _ => rfl) fun filter hfilter => ?_
  refine wp_updateOne_bind rfl (fun σ now d ν _ _ hf hsets => ⟨?_, hG _ _ ?_⟩)
    (fun _ _ _ => rfl) fun n σ log => wp_refuse rfl fun _ => rfl
  · exact docStep_setWitness d _ fun _ => rfl
  · simp only [Bool.and_eq_true, decide_eq_true_eq] at hf
    obtain ⟨⟨hreceipt, hstate⟩, hclause⟩ := hf
    obtain ⟨hpermits, w, hw, href⟩ := receiptFilter_spec hfilter hreceipt
    obtain ⟨w', hw', hc⟩ := witnessIs_spec hclause
    cases hw.symm.trans hw'
    simp only [Bool.and_eq_true, decide_eq_true_eq] at hc
    exact ⟨d, filter.1, w, now, ⟨hsets, hw, href, hc.1.1.1.trans hstate.symm⟩, hpermits, hstate⟩

theorem wp_recordFinal {code : String} (hnone : c.tx = none)
    (hG : ∀ σ ν, RecordsFinal H s e ref f code σ ν → G σ ν) :
    wp (pact H G Allow) .snapshot A (recordFinal H s e ref f code).run Closed c := by
  refine wp_refuse_bind hnone fun hform => ?_
  refine wp_bindingIn_bind hnone (fun _ _ => rfl) fun σ1 b _ _ _ => ?_
  refine wp_lift_bind (fun _ _ => rfl) fun filter hfilter => ?_
  refine wp_updateOne_bind rfl (fun σ now d ν _ _ hf hsets => ⟨?_, hG _ _ ?_⟩)
    (fun _ _ _ => rfl) fun n σ log => wp_refuse rfl fun _ => rfl
  · exact docStep_setWitness d _ fun _ => rfl
  · simp only [Bool.and_eq_true] at hf
    obtain ⟨⟨hreceipt, hfinal⟩, hclause⟩ := hf
    obtain ⟨hpermits, w, hw, href⟩ := receiptFilter_spec hfilter hreceipt
    obtain ⟨w', hw', hc⟩ := witnessIs_spec hclause
    cases hw.symm.trans hw'
    simp only [Bool.and_eq_true, decide_eq_true_eq] at hc
    exact ⟨d, filter.1, w, now, ⟨hsets, hw, href, hc.1⟩, hpermits, by simpa using hform,
      ⟨filter.2, hfilter, hreceipt⟩, hfinal, hw, hc.1, hc.2⟩

theorem absentOr_other {field : Option FinalOutcome}
    (h : absentOr field [.notAttempted, .unknown, f] = true) (hne : field ≠ some f) :
    absentOr field [.notAttempted, .unknown] = true := by
  cases field with
  | none => rfl
  | some g =>
    simp only [absentOr, all_some, contains_iff_mem, mem_cons, not_mem_nil, or_false] at h ⊢
    rcases h with h | h | h
    · exact .inl h
    · exact .inr h
    · exact absurd (congrArg some h) hne

theorem wp_recordRecoveryFinal (hnone : c.tx = none)
    (hG : ∀ σ ν, RecordsRecovery H ref f σ ν → G σ ν) :
    wp (pact H G Allow) .snapshot A (recordRecoveryFinal H s retries ref f).run Closed c := by
  refine wp_lift_bind (fun _ _ => hnone) fun state _ => wp_refuse_bind hnone fun _ => ?_
  refine wp_protocolTx hnone fun σ0 log hi0 => ?_
  have hsilent : ∀ r, ({ snap := σ0 } : Tx Val).writes.lookup r = none := AList.lookup_empty
  refine wpc_bind (wpc_bindingIn rfl (hsilent _) fun σ1 _ henv1 _ _ _ => ?_)
  refine wpc_bind (wpc_findIn rfl fun σ2 henv2 _ => wpc_bind (wpc_found fun d hd => ?_))
  rw [lookup_union_of_none (hsilent _)] at hd
  refine wpc_bind (wpc_refuse fun hguard => wpc_bind (wpc_found fun i hi => ?_))
  refine wpc_bind (wpc_found fun w hw => wpc_bind (wpc_refuse fun hbranch => ?_))
  refine wpc_ite (fun _ => wpc_pure ⟨_, rfl, publishable_of_silent hsilent⟩) fun hnot => ?_
  have hu := (unmoved_start.env henv1).env henv2
  refine wpc_bind (wpc_nowIn rfl fun σ3 clock henv3 _ => wpc_bind ?_)
  refine wpc_updateIn rfl (hu.env henv3) fun σ4 henv4 _ hu4 => wpc_refuse fun _ => ⟨_, rfl, ?_⟩
  rcases setExecution_cases (ref.executionKey H) _ _ _ with hmiss | ⟨d', hd', hf, hset⟩
  · refine publishable_of_silent fun r => ?_
    rw [lookup_stage, hmiss, hsilent]
    rfl
  rw [lookup_union_of_none (hsilent _), hd] at hd'
  cases hd'
  have hstep : DocStep d (d.setWitness i (·.withFinal f "" clock)) :=
    docStep_setWitness d i fun _ => rfl
  simp only [Bool.or_eq_false_iff, Bool.not_eq_false', decide_eq_false_iff_not, ne_eq,
    not_not] at hguard hbranch
  refine publishable_setsDoc hu4 hd ?_ (fun r hr => ?_) hstep
    fun σ ν hsets => hG _ _ ⟨d, i, w, clock, ⟨hsets, hw, ?_, hbranch.1.trans hguard.2.symm⟩, ?_⟩
  · rw [lookup_stage, hset]
    rfl
  · rw [lookup_stage, lookup_setExecution_ne hr, hsilent]
    rfl
  · obtain ⟨hlt, href, _⟩ := List.findIdx?_eq_some_iff_getElem.mp hi
    cases (List.getElem?_eq_getElem hlt).symm.trans hw
    exact of_decide_eq_true href
  · exact absentOr_other hbranch.2 hnot

/-! ## Session transactions -/

theorem wp_lookup (hnone : c.tx = none) :
    wp (pact H G Allow) .snapshot A (lookup H s retries r).run Closed c := by
  refine wp_refuse_bind hnone fun _ => wp_mapErr (wp_mono ?_ (wp_protocolTx hnone ?_))
  · exact fun _ c' hclosed => ⟨fun _ _ => hclosed, fun _ _ => hclosed⟩
  · intro σ log hi
    exact wp_readsIn (all_bind reads_bindingIn fun _ => reads_lookupIn) rfl hi
      fun _ σ' _ _ _ _ => ⟨_, rfl, publishable_of_silent AList.lookup_empty⟩

theorem wp_reserve {schema : Except Err Unit} (hnone : c.tx = none)
    (hG : ∀ σ ν id d, Issues H σ ν id d → G σ ν) :
    wp (pact H G Allow) .snapshot A (reserve H s schema retries r p o).run Closed c := by
  refine wp_refuse_bind hnone fun _ => wp_lift_bind (fun _ _ => hnone) fun _ _ =>
    wp_lift_bind (fun _ _ => hnone) fun _ _ => ?_
  refine wp_bind (wp_mono ?_ (wp_protocolTx hnone fun σ0 log hi0 => ?_))
  · intro res c' hclosed
    split
    · exact wp_lookup hclosed
    · exact hclosed
  have hsilent : ∀ r, ({ snap := σ0 } : Tx Val).writes.lookup r = none := AList.lookup_empty
  refine wpc_bind (wpc_bindingIn rfl (hsilent _) fun σ1 _ henv1 hi1 _ _ => ?_)
  refine wpc_bind (wp_bind (wp_readsIn reads_lookupIn rfl hi1 fun found σ2 henv2 hi2 => ?_))
  split
  · exact fun a ha => by cases ha; exact wpc_pure ⟨_, rfl, publishable_of_silent hsilent⟩
  · intro a ha
    cases ha
    refine wpc_bind (wpc_newDoc rfl hi2 (by decide) fun x σ3 henv3 hi3 hfresh => ?_)
    have hu := ((unmoved_start.env henv1).env henv2).env henv3
    refine wpc_bind (wpc_insertOne rfl hu fun σ4 henv4 _ _ hu4 => ?_)
    refine wpc_bind (wpc_insertOne rfl hu4 fun σ5 henv5 _ hnew hu5 => wpc_pure ⟨_, rfl, ?_⟩)
    refine publishable_issues hnew (holds_stage (lookup_singleton_self _ _)) ?_ (fun k hk => ?_)
      hfresh fun σ ν => hG σ ν _ _
    · rw [lookup_stage, lookup_singleton_self]
      rfl
    · rw [lookup_stage, lookup_singleton_ne _ fun heq => hk (Row.execution.inj heq), lookup_stage,
        lookup_singleton_ne _ Row.noConfusion]
      exact hsilent _
  · exact nofun

theorem wp_advance {previous : Execution} {replan : Bool} (hnone : c.tx = none)
    (hG : ∀ σ ν id d, Issues H σ ν id d → G σ ν) :
    wp (pact H G Allow) .snapshot A (advance H s retries previous p o replan).run Closed
      c := by
  refine wp_refuse_bind hnone fun _ => wp_refuse_bind hnone fun _ => ?_
  refine wp_protocolTx hnone fun σ0 log hi0 => ?_
  have hsilent : ∀ r, ({ snap := σ0 } : Tx Val).writes.lookup r = none := AList.lookup_empty
  refine wpc_bind (wpc_bindingIn rfl (hsilent _) fun σ1 _ henv1 hi1 _ _ => ?_)
  refine wpc_bind (wp_readsIn reads_lookupIn rfl hi1 fun _ σ2 henv2 hi2 _ _ => ?_)
  refine wpc_bind (wpc_refuse fun _ => ?_)
  refine wpc_bind (wp_readsIn reads_oldEvidence rfl hi2 fun _ σ3 henv3 hi3 _ _ => ?_)
  refine wpc_bind (wpc_lift fun _ hadvance => ?_)
  refine wpc_bind (wpc_newDoc rfl hi3 (validateAdvance_fence hadvance) fun x σ4 henv4 _ hfresh => ?_)
  have hu := (((unmoved_start.env henv1).env henv2).env henv3).env henv4
  refine wpc_bind (wpc_insertOne rfl hu fun σ5 henv5 _ hnew hu5 => ?_)
  have hheld := holds_stage (t := { snap := σ0 }) (lookup_singleton_self
    (Row.execution (x.2.key H)) x.1)
  refine wpc_bind (wpc_updateIn rfl hu5 fun σ6 henv6 _ _ => wpc_bind (wpc_refuse fun _ => ?_))
  refine wpc_pure ⟨_, rfl, publishable_issues ((henv6.held hheld).trans hnew) (hheld.stage _) ?_
    (fun k hk => ?_) hfresh fun σ ν => hG σ ν _ _⟩
  · rw [lookup_stage, lookup_setRequest_ne fun _ => Row.noConfusion, lookup_stage,
      lookup_singleton_self]
    rfl
  · rw [lookup_stage, lookup_setRequest_ne fun _ => Row.noConfusion, lookup_stage,
      lookup_singleton_ne _ fun heq => hk (Row.execution.inj heq)]
    exact hsilent _

/-! ## Root transactions -/

theorem HostsDoc.bound (h : HostsDoc d d') (hprepared : d'.state = .prepared) (g : Nat) :
    HostsDoc d { d' with guardVersion := g } := by
  obtain ⟨g0, rfl | rfl⟩ := h
  · exact ⟨g, .inl rfl⟩
  · cases hprepared

theorem HostsDoc.committed (h : HostsDoc d d') (hprepared : d'.state = .prepared) :
    HostsDoc d (d'.ended .committed) := by
  obtain ⟨g, rfl | rfl⟩ := h
  · exact ⟨g, .inr rfl⟩
  · cases hprepared

theorem HostsDoc.permits (h : HostsDoc d d') (hp : Permits H e d') : Permits H e d := by
  obtain ⟨g, rfl | rfl⟩ := h
  · exact ⟨hp.valid, hp.token, hp.digest⟩
  · exact ⟨hp.valid, hp.token, hp.digest⟩

/-- An open root transaction with this script, seen from the committed
documents. -/
structure HostTx (H : Sha256) (quiet : Prop) (script : List HostStep) (t : Tx Val)
    (σ : Collections) : Prop extends t.Unmoved σ where
  rest : ∀ r, (∀ id, r ≠ .execution id) → t.writes.lookup r = none
  execution : ∀ id, ∀ d' : ExecutionDoc, t.writes.lookup (.execution id) = some d' →
    ∃ s e d, HostStep.bind s e ∈ script ∧ e.plan.input.owner = s.owner ∧
      HostsExecution H quiet id e t.snap d d'
  stable : quiet → ∀ s e, HostStep.bind s e ∈ script →
    σ.lookup (.binding s.owner) = t.snap.lookup (.binding s.owner)

section Host

variable {quiet : Prop} {script : List HostStep} {t : Tx Val} {σ σ' : Collections}

theorem hostTx_start : HostTx H quiet script { snap := σ } σ where
  toUnmoved := unmoved_start
  rest := fun _ _ => AList.lookup_empty _
  execution := fun _ _ h => absurd h nofun
  stable := fun _ _ _ _ => rfl

theorem HostTx.env (h : HostTx H quiet script t σ)
    (hA : ∀ a b, A a b → quiet → ∀ s e, HostStep.bind s e ∈ script →
      b.lookup (.binding s.owner) = a.lookup (.binding s.owner))
    (henv : Env (pact H G Allow) A (some t) σ σ') : HostTx H quiet script t σ' := by
  refine { h with toUnmoved := h.toUnmoved.env henv, stable := fun hquiet s e hmem => ?_ }
  exact henv.assumed (P := fun σ => σ.lookup (.binding s.owner) = t.snap.lookup (.binding s.owner))
    (fun hab hsame => (hA _ _ hab hquiet s e hmem).trans hsame) (h.stable hquiet s e hmem)

variable {id : Bytes} {rows : Collections} {guards : List Guard} {Q : Guard → Ctx Val Ans → Prop}

/-- The document that the transaction sees under an `_id` is one it has written
or the one in its snapshot. -/
theorem HostTx.seen (h : HostTx H quiet script t σ) {d1 : ExecutionDoc}
    (hd : (t.writes ∪ t.snap).lookup (.execution id) = some d1) (hprepared : d1.state = .prepared) :
    ∃ d : ExecutionDoc, t.snap.lookup (.execution id) = some d ∧ d.state = .prepared ∧
      HostsDoc d d1 := by
  cases hw : (t.writes.lookup (.execution id) : Option ExecutionDoc) with
  | none =>
    rw [lookup_union_of_none hw] at hd
    exact ⟨d1, hd, hprepared, d1.guardVersion, .inl rfl⟩
  | some d' =>
    rw [lookup_union_of_some hw] at hd
    cases hd
    obtain ⟨_, _, d, _, _, he⟩ := h.execution id d1 hw
    exact ⟨d, he.before, he.prepared, he.doc⟩

theorem HostTx.stage {d d' : ExecutionDoc} {s : Store} (h : HostTx H quiet script t σ)
    (hu : (t.stage rows).Unmoved σ) (hset : rows.lookup (.execution id) = some d')
    (hrest : ∀ r, r ≠ .execution id → rows.lookup r = none) (hmem : HostStep.bind s e ∈ script)
    (howner : e.plan.input.owner = s.owner) (he : HostsExecution H quiet id e t.snap d d') :
    HostTx H quiet script (t.stage rows) σ where
  toUnmoved := hu
  rest := fun r hr => by
    rw [lookup_stage, hrest r (hr id), h.rest r hr]
    rfl
  execution := fun k d1 hd1 => by
    rw [lookup_stage] at hd1
    by_cases hk : k = id
    · subst hk
      rw [hset, some_or] at hd1
      cases hd1
      exact ⟨s, e, d, hmem, howner, he⟩
    · rw [hrest _ fun heq => hk (Row.execution.inj heq), none_or] at hd1
      exact h.execution k d1 hd1
  stable := h.stable

theorem HostTx.silent (h : HostTx H quiet script t σ) (hu : (t.stage rows).Unmoved σ)
    (hrows : ∀ r, rows.lookup r = none) : HostTx H quiet script (t.stage rows) σ := by
  have hsame : ∀ r, (t.stage rows).writes.lookup r = t.writes.lookup r := fun r => by
    rw [lookup_stage, hrows, none_or]
  refine ⟨hu, fun r hr => (hsame r).trans (h.rest r hr), fun k d' hd' => ?_, h.stable⟩
  exact h.execution k d' ((hsame _).symm.trans hd')

/-- Every execution that these steps bind is written, and was the capability
for the document that the transaction found. -/
def AllBound (H : Sha256) (steps : List HostStep) (t : Tx Val) : Prop :=
  ∀ s e, HostStep.bind s e ∈ steps →
    (∃ d' : ExecutionDoc, t.writes.lookup (.execution (e.key H)) = some d') ∧
    ∃ d : ExecutionDoc, t.snap.lookup (.execution (e.key H)) = some d ∧ Permits H e d

theorem HostTx.hosts (h : HostTx H quiet script t σ) (hall : AllBound H script t) :
    Hosts H quiet script σ (t.writes ∪ σ) := by
  refine ⟨fun r hr => lookup_union_of_none (h.rest r hr), fun id => ?_, fun s e hmem => ?_⟩
  rotate_left
  · obtain ⟨⟨d', hw⟩, d, hd, hpermits⟩ := hall s e hmem
    exact ⟨d, (h.lookup hw).trans hd, hpermits⟩
  cases hw : (t.writes.lookup (.execution id) : Option ExecutionDoc) with
  | none => exact .inl (lookup_union_of_none hw)
  | some d' =>
    obtain ⟨s, e, d, hmem, howner, he⟩ := h.execution id d' hw
    refine .inr ⟨s, e, d, d', hmem, lookup_union_of_some hw, { he with
      before := (h.lookup hw).trans he.before
      live := fun hquiet => ?_ }⟩
    obtain ⟨b, hb, hepoch⟩ := he.live hquiet
    rw [howner] at hb
    exact ⟨b, by rw [howner]; exact (h.stable hquiet s e hmem).trans hb, hepoch⟩

theorem written_stage {k : Bytes} (rows : Collections)
    (h : ∃ d : ExecutionDoc, t.writes.lookup (.execution k) = some d) :
    ∃ d : ExecutionDoc, (t.stage rows).writes.lookup (.execution k) = some d := by
  obtain ⟨d, hd⟩ := h
  cases hrow : (rows.lookup (.execution k) : Option ExecutionDoc) with
  | none => exact ⟨d, by rw [lookup_stage, hrow, hd]; rfl⟩
  | some d' => exact ⟨d', by rw [lookup_stage, hrow]; rfl⟩

theorem AllBound.stage {done : List HostStep} (h : AllBound H done t) (rows : Collections) :
    AllBound H done (t.stage rows) :=
  fun s e hmem => ⟨written_stage rows (h s e hmem).1, (h s e hmem).2⟩

/-- Each guard's execution is among the documents the transaction has written. -/
def Guarded (H : Sha256) (t : Tx Val) (guards : List Guard) : Prop :=
  ∀ g ∈ guards, ∃ d : ExecutionDoc, t.writes.lookup (.execution (g.execution.key H)) = some d

theorem Guarded.stage (h : Guarded H t guards) (rows : Collections) :
    Guarded H (t.stage rows) guards :=
  fun g hg => written_stage rows (h g hg)

theorem wpc_bind_guard (ht : c.tx = some t)
    (hA : ∀ a b, A a b → quiet → ∀ s e, HostStep.bind s e ∈ script →
      b.lookup (.binding s.owner) = a.lookup (.binding s.owner))
    (h : HostTx H quiet script t c.db) (hmem : HostStep.bind s e ∈ script)
    (hQ : ∀ g σ rows, HostTx H quiet script (t.stage rows) σ → Inv H σ → g.execution = e →
      (∃ d : ExecutionDoc, rows.lookup (.execution (e.key H)) = some d) →
      (∃ d : ExecutionDoc, t.snap.lookup (.execution (e.key H)) = some d ∧ Permits H e d) →
      Q g ⟨σ, some (t.stage rows), c.log⟩) :
    wpc (pact H G Allow) .snapshot A (Guard.bind H s e) Q c := by
  refine wpc_bind (wpc_refuse fun hguard => ?_)
  simp only [Bool.or_eq_false_iff, Bool.not_eq_false', decide_eq_false_iff_not, ne_eq,
    not_not] at hguard
  refine wpc_bind (wpc_bindingIn ht (h.rest _ fun _ => Row.noConfusion)
    fun σ1 b henv1 _ hb hepoch => ?_)
  refine wpc_bind (wpc_nowIn rfl fun σ2 clock henv2 _ => ?_)
  have h2 := (h.env hA henv1).env hA henv2
  refine wpc_bind (wpc_updateIn rfl h2.toUnmoved fun σ3 henv3 hi3 hu3 => ?_)
  have h3 := h2.env hA henv3
  refine wpc_bind (wpc_found fun d' hd' => wpc_bind (wpc_refuse fun _ => ?_))
  refine wpc_bind (wpc_refuse fun _ => wpc_pure ?_)
  rcases setExecution_cases (e.key H) _ _ _ with hmiss | ⟨d1, hd1, hf, hset⟩
  · exact absurd ((hmiss _).symm.trans hd') nofun
  simp only [Bool.and_eq_true, decide_eq_true_eq] at hf
  obtain ⟨⟨⟨hstate, htoken⟩, hdigest⟩, _⟩ := hf
  obtain ⟨d, hd, hprepared, hdoc⟩ := h3.seen hd1 hstate
  have hpermits : Permits H e d := hdoc.permits ⟨hguard.1.1, htoken, hdigest⟩
  refine hQ _ σ3 _ (h3.stage hu3 hset (fun r hr => lookup_setExecution_ne hr) hmem hguard.1.2
    ⟨rfl, hpermits, hd, hprepared, hdoc.bound hstate _, fun _ => ?_⟩)
    hi3 rfl ⟨_, hset⟩ ⟨d, hd, hpermits⟩
  refine ⟨b, ?_, ?_⟩
  · rw [hguard.1.2]
    exact hb
  · rw [hepoch rfl, hguard.2]

theorem wpc_commitWitness {g : Guard} (ht : c.tx = some t)
    (hA : ∀ a b, A a b → quiet → ∀ s e, HostStep.bind s e ∈ script →
      b.lookup (.binding s.owner) = a.lookup (.binding s.owner)) (h : HostTx H quiet script t c.db)
    (hg : ∃ d : ExecutionDoc, t.writes.lookup (.execution (g.execution.key H)) = some d)
    (hQ : ∀ g' σ rows, HostTx H quiet script (t.stage rows) σ → Inv H σ →
      g'.execution = g.execution → Q g' ⟨σ, some (t.stage rows), c.log⟩) :
    wpc (pact H G Allow) .snapshot A (Guard.commitWitness H g) Q c := by
  refine wpc_bind (wpc_refuse fun _ => ?_)
  refine wpc_bind (wpc_updateIn ht h.toUnmoved fun σ1 henv1 hi1 hu1 => ?_)
  have h1 := h.env hA henv1
  refine wpc_bind (wpc_refuse fun _ => wpc_pure (hQ _ σ1 _ ?_ hi1 rfl))
  rcases setExecution_cases (g.execution.key H) _ _ _ with hmiss | ⟨d1, hd1, hf, hset⟩
  · exact h1.silent hu1 hmiss
  obtain ⟨d', hd'⟩ := hg
  rw [lookup_union_of_some hd'] at hd1
  cases hd1
  simp only [Bool.and_eq_true, decide_eq_true_eq] at hf
  obtain ⟨s, e, d, hmem, howner, he⟩ := h1.execution _ _ hd'
  exact h1.stage hu1 hset (fun r hr => lookup_setExecution_ne hr) hmem howner
    { he with doc := he.doc.committed hf.1.1 }

theorem wpc_hostSteps (done : List HostStep) {steps : List HostStep} (ht : c.tx = some t)
    (hi : Inv H c.db) (hA : ∀ a b, A a b → quiet → ∀ s e, HostStep.bind s e ∈ script →
      b.lookup (.binding s.owner) = a.lookup (.binding s.owner))
    (h : HostTx H quiet script t c.db) (hguards : Guarded H t guards) (hall : AllBound H done t)
    (hsteps : done ++ steps = script) :
    wpc (pact H G Allow) .snapshot A (hostSteps H steps guards)
      (fun _ c' => Inv H c'.db ∧ ∃ t', c'.tx = some t' ∧ HostTx H quiet script t' c'.db ∧
        AllBound H script t') c := by
  induction steps generalizing c t done guards with
  | nil =>
    rw [append_nil] at hsteps
    exact wpc_pure ⟨hi, t, ht, h, hsteps ▸ hall⟩
  | cons step steps ih =>
    have hmem : step ∈ script := hsteps ▸ mem_append_right _ mem_cons_self
    have hrest : (done ++ [step]) ++ steps = script := by
      rw [append_assoc]
      exact hsteps
    cases step with
    | bind s e =>
      refine wpc_bind (wpc_bind_guard ht hA h hmem
        fun g σ rows h' hi' hge hrow hpermits => ih _ rfl hi' h' ?_ ?_ hrest)
      · intro g' hg'
        rcases mem_append.mp hg' with hold | hnew
        · exact hguards.stage rows g' hold
        · cases mem_singleton.mp hnew
          obtain ⟨d, hd⟩ := hrow
          rw [hge]
          exact ⟨d, by rw [lookup_stage, hd]; rfl⟩
      · intro s' e' he'
        rcases mem_append.mp he' with hold | hnew
        · exact hall.stage rows s' e' hold
        · cases mem_singleton.mp hnew
          obtain ⟨d, hd⟩ := hrow
          exact ⟨⟨d, by rw [lookup_stage, hd]; rfl⟩, hpermits⟩
    | commitWitness i =>
      refine wpc_bind (wpc_found fun g hgi => ?_)
      have hmem : g ∈ guards := mem_of_getElem? hgi
      refine wpc_bind (wpc_commitWitness ht hA h (hguards g hmem)
        fun g' σ rows h' hi' hge => ih _ rfl hi' h' ?_ (fun s' e' he' => ?_) hrest)
      rotate_left
      · exact hall.stage rows s' e' ((mem_append.mp he').resolve_right (by simp))
      intro g1 hg1
      rcases mem_or_eq_of_mem_set hg1 with hold | rfl
      · exact hguards.stage rows g1 hold
      · rw [hge]
        exact hguards.stage rows g hmem

theorem wp_rootTransaction {commits : Bool} (hnone : c.tx = none)
    (hA : ∀ a b, A a b → quiet → ∀ s e, HostStep.bind s e ∈ script →
      b.lookup (.binding s.owner) = a.lookup (.binding s.owner))
    (hG : ∀ σ ν, Hosts H quiet script σ ν → G σ ν) :
    wp (pact H G Allow) .snapshot A (rootTransaction H script commits).run Closed c := by
  refine wp_withTx hnone (fun _ _ _ => rfl) fun σ0 _ hi0 => wpc_bind (wpc_mono ?_ (wpc_hostSteps
    [] rfl hi0 hA hostTx_start (fun _ hg => nomatch hg) (fun _ _ hm => nomatch hm)
    (nil_append _)))
  rintro _ c' ⟨hi, t, ht, h, hall⟩
  cases commits with
  | false => exact wpc_pure fun _ _ _ => rfl
  | true =>
    refine wpc_commit ht (fun σ henv _ => ?_) fun σ _ _ _ _ _ => rfl
    have hhosts := (h.env hA henv).hosts hall
    exact ⟨hhosts.trans, .inr (hG _ _ hhosts)⟩

theorem wp_rotate {owner : String} {set : BindingDoc → BindingDoc} (hnone : c.tx = none)
    (hG : ∀ σ ν, Rotates σ ν → G σ ν) :
    wp (pact H G Allow) .snapshot A (rotate owner set).run Closed c := by
  refine wp_withTx hnone (fun _ _ _ => rfl) fun σ0 _ _ => ?_
  refine wpc_bind (wpc_updateIn rfl unmoved_start fun σ1 _ _ _ => ?_)
  refine wpc_commit rfl (fun σ _ _ => ?_) fun σ _ _ _ _ _ => rfl
  have hrotates : Rotates σ ((Tx.stage { snap := σ0 } (setBinding owner set
      ((∅ : Collections) ∪ σ0))).writes ∪ σ) := by
    intro r hr
    rw [lookup_stage_union_of_none (lookup_setBinding_ne hr), AList.empty_union]
  exact ⟨hrotates.trans, .inr (hG _ _ hrotates)⟩

end Host

end ReliableMessaging.Mongo
