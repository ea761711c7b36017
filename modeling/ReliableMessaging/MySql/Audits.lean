import ReliableMessaging.MySql.System

/-!
# What becomes of a witness

Three operations write the audit columns of a witness, two of them called by
different components, and the commits that end an execution write its state.
`WitnessChange` is all that any commit can do to one witness; what holds of
the audit columns over whole runs follows from it by cases.
-/

namespace ReliableMessaging.MySql

open Transaction TxLang

open Relation (ReflTransGen)

variable {H : Sha256} {σ ν : Tables} {s s' : StoreSystem}

/-! ## One commit -/

inductive WitnessChange : Option WitnessRow → Option WitnessRow → Prop
  | kept (o : Option WitnessRow) : WitnessChange o o
  | issued (ref : Reference) : WitnessChange none (some (freshWitness ref))
  | ended (w : WitnessRow) (st : State) (prepared : w.state = .prepared) :
      WitnessChange (some w) (some { w with state := st })
  | half (w : WitnessRow) (h : HalfReceipt) (now : Nat) (valid : h.valid = true)
      (messageID : contradicts w.brokerMessageID h.brokerMessageID = false)
      (transactionID : contradicts w.brokerTransactionID h.brokerTransactionID = false)
      (open_ : w.halfOutcome = .notAttempted ∨ w.halfOutcome = .unknown ∨
        w.halfOutcome = h.outcome) : WitnessChange (some w) (some (w.withHalf h now))
  | final (w : WitnessRow) (f : FinalOutcome) (code : String) (now : Nat)
      (commit : f = .commitConfirmed → w.state = .committed)
      (rollback : f = .rollbackConfirmed → w.state = .aborted)
      (open_ : w.finalOutcome = .notAttempted ∨ w.finalOutcome = .unknown ∨
        w.finalOutcome = f) : WitnessChange (some w) (some (w.withFinal f code now))

variable {k b : Bytes} {w w' : WitnessRow} {e : Execution} {ref : Reference} {h : HalfReceipt}
variable {f : FinalOutcome} {op : Op} {a : HalfOutcome} {o : Option WitnessRow}

theorem SetsWitness.change (h : SetsWitness k b w w' σ ν) (hc : WitnessChange (some w) (some w'))
    (k' b' : Bytes) : WitnessChange (σ.lookup (.witness k' b')) (ν.lookup (.witness k' b')) := by
  by_cases hne : (.witness k' b' : Row) = .witness k b
  · cases hne
    rw [h.before, h.after]
    exact hc
  · rw [h.rest _ hne]
    exact .kept _

theorem change_of_ended {x : ExecutionRow} {st : State} (hi : Inv H σ)
    (hx : σ.lookup (.execution k) = some x) (hp : x.state = .prepared)
    (hw : ∀ b, ν.lookup (.witness k b) = (σ.lookup (.witness k b)).map fun w : WitnessRow =>
      ({ w with state := st } : WitnessRow))
    (b : Bytes) : WitnessChange (σ.lookup (.witness k b)) (ν.lookup (.witness k b)) := by
  rw [hw b]
  cases hσ : σ.lookup (.witness k b) with
  | none => exact .kept none
  | some w => exact .ended w st ((hi.witness_state hx hσ).trans hp)

theorem Aborts.change {s : Store} (hi : Inv H σ) (h : Aborts H s e σ ν) (k b : Bytes) :
    WitnessChange (σ.lookup (.witness k b)) (ν.lookup (.witness k b)) := by
  obtain ⟨x, hends, habortable⟩ := h
  by_cases hk : k = e.key H
  · subst hk
    exact change_of_ended hi hends.before habortable.prepared hends.witness b
  · rw [hends.rest _ Row.noConfusion fun b' heq => hk (Row.witness.inj heq).1]
    exact .kept _

theorem Hosts.change {steps : List HostStep} (hi : Inv H σ) (h : Hosts H steps σ ν) (k b : Bytes) :
    WitnessChange (σ.lookup (.witness k b)) (ν.lookup (.witness k b)) := by
  rcases h.key k with ⟨_, hw⟩ | ⟨_, _, x, g, st, _, hx⟩
  · rw [hw b]
    exact .kept _
  · by_cases hst : st = .prepared
    · have hw := hx.witness b
      rw [if_pos hst] at hw
      rw [hw]
      exact .kept _
    · have hw := hx.witness
      simp only [if_neg hst] at hw
      exact change_of_ended hi hx.before hx.prepared hw b

theorem Issued.change (hi : Inv H σ) (h : Issued H e σ ν) (k b : Bytes) :
    WitnessChange (σ.lookup (.witness k b)) (ν.lookup (.witness k b)) := by
  by_cases hk : k = e.key H
  · subst hk
    -- the key is new, so there was no witness under it
    have hnone : σ.lookup (.witness (e.key H) b) = none := by
      cases hσ : σ.lookup (.witness (e.key H) b) with
      | none => rfl
      | some w =>
        obtain ⟨x, hx, _⟩ := hi.witness _ _ _ hσ
        exact absurd (h.fresh.symm.trans hx) nofun
    by_cases hb : ∃ br ∈ e.plan.input.branches, branchKey H br.id = b
    · obtain ⟨br, hbr, rfl⟩ := hb
      rw [hnone, h.witness br hbr]
      exact .issued _
    · rw [h.witnessOnly b fun br hbr heq => hb ⟨br, hbr, heq⟩]
      exact .kept _
  · rw [h.otherWitness k b hk]
    exact .kept _

theorem RecordsHalf.change (hr : RecordsHalf H e ref h σ ν) (k b : Bytes) :
    WitnessChange (σ.lookup (.witness k b)) (ν.lookup (.witness k b)) := by
  obtain ⟨_, w, now, hsets, _, _, _, _, hv, hm, ht, hopen⟩ := hr
  exact hsets.change (.half w h now hv hm ht hopen) k b

theorem RecordsFinal.change {code : String} (hr : RecordsFinal H e ref f code σ ν) (k b : Bytes) :
    WitnessChange (σ.lookup (.witness k b)) (ν.lookup (.witness k b)) := by
  obtain ⟨_, w, now, hsets, hfinds, _, _, _, _, hcommit, hrollback, hopen⟩ := hr
  exact hsets.change (.final w f code now (fun hf => hfinds.state.trans (hcommit hf))
    (fun hf => hfinds.state.trans (hrollback hf)) hopen) k b

theorem RecordsRecovery.change (hr : RecordsRecovery H ref f σ ν) (k b : Bytes) :
    WitnessChange (σ.lookup (.witness k b)) (ν.lookup (.witness k b)) := by
  rcases hr with rfl | ⟨x, w, now, hsets, hfinds, hstate, hopen⟩
  · exact .kept _
  refine hsets.change (.final w f "" now (fun hf => ?_) (fun hf => ?_) ?_) k b
  · subst hf
    exact hfinds.state.trans (Except.ok.inj hstate).symm
  · subst hf
    exact hfinds.state.trans (Except.ok.inj hstate).symm
  · exact hopen.imp_right .inl

theorem effect_change (hi : Inv H σ) (h : effect H op σ ν) (k b : Bytes) :
    WitnessChange (σ.lookup (.witness k b)) (ν.lookup (.witness k b)) := by
  have hissued : ∀ {P : Execution → Prop}, (∃ e, Issued H e σ ν ∧ P e) →
      WitnessChange (σ.lookup (.witness k b)) (ν.lookup (.witness k b)) :=
    fun ⟨_, h, _⟩ => h.change hi k b
  cases op with
  | reserve => exact hissued h
  | lookup => exact h.elim
  | beginPrepare s e =>
    obtain ⟨x, hsets, _⟩ := h
    rw [hsets.rest _ Row.noConfusion]
    exact .kept _
  | abortOnce => exact Aborts.change hi h.2 k b
  | reconcileOnce =>
    obtain ⟨e, he⟩ := h
    exact he.change hi k b
  | retry => exact hissued h
  | replan => exact hissued h
  | evidence => exact h.elim
  | recordHalf => exact RecordsHalf.change h k b
  | recordFinal => exact RecordsFinal.change h.2 k b
  | recordRecoveryFinal => exact RecordsRecovery.change h k b
  | rootTransaction => exact Hosts.change hi h k b
  | rotate =>
    rw [h _ fun _ => Row.noConfusion]
    exact .kept _

theorem Served.change [H.CollisionFree] (h : Served H s) (hs : Step .readCommitted (program H) s s')
    (k b : Bytes) :
    WitnessChange (s.db.lookup (.witness k b)) (s'.db.lookup (.witness k b)) := by
  rcases h.step hs with heq | ⟨_, op, he⟩
  · rw [heq]
    exact .kept _
  · exact effect_change h.inv he k b

/-! ## Whole runs -/

/-- The order in which half outcomes may be recorded. -/
inductive HalfStep : HalfOutcome → HalfOutcome → Prop
  | attempted : HalfStep .notAttempted .unknown
  | prepared : HalfStep .unknown .prepared
  | rejected : HalfStep .unknown .rejected

theorem half_advances {b : HalfOutcome} (hb : b ≠ .notAttempted)
    (ha : a = .notAttempted ∨ a = .unknown ∨ a = b) : ReflTransGen HalfStep a b := by
  have hunknown : ReflTransGen HalfStep .unknown b := by
    cases b with
    | notAttempted => exact absurd rfl hb
    | unknown => exact .refl
    | prepared => exact .single .prepared
    | rejected => exact .single .rejected
  rcases ha with rfl | rfl | rfl
  · exact .head .attempted hunknown
  · exact hunknown
  · exact .refl

theorem half_absorbs {b : HalfOutcome} (h : ReflTransGen HalfStep a b)
    (ha : a = .prepared ∨ a = .rejected) : b = a := by
  induction h with
  | refl => rfl
  | tail _ hs ih =>
    subst ih
    rcases ha with rfl | rfl <;> cases hs

def Confirmed (f : FinalOutcome) : Prop := f = .commitConfirmed ∨ f = .rollbackConfirmed

/-- A text that was recorded and is not empty is still there. -/
def TextKept (old new : Option String) : Prop :=
  ∀ text, old = some text → text ≠ "" → new = some text

/-- What may have become of the audit columns of a witness. -/
structure AuditLater (w w' : WitnessRow) : Prop where
  half : ReflTransGen HalfStep w.halfOutcome w'.halfOutcome
  messageID : TextKept w.brokerMessageID w'.brokerMessageID
  transactionID : TextKept w.brokerTransactionID w'.brokerTransactionID
  final : Confirmed w.finalOutcome → w'.finalOutcome = w.finalOutcome

theorem AuditLater.refl (w : WitnessRow) : AuditLater w w :=
  ⟨.refl, fun _ h _ => h, fun _ h _ => h, fun _ => rfl⟩

theorem AuditLater.trans {a b d : WitnessRow} (h : AuditLater a b) (h' : AuditLater b d) :
    AuditLater a d where
  half := h.half.trans h'.half
  messageID := fun text ha hne => h'.messageID text (h.messageID text ha hne) hne
  transactionID := fun text ha hne => h'.transactionID text (h.transactionID text ha hne) hne
  final := fun hf => by
    have hb := h.final hf
    rw [← hb] at hf
    exact (h'.final hf).trans hb

theorem textKept_of_contradicts {old : Option String} {text : String}
    (h : contradicts old text = false) : TextKept old (some text) := by
  rintro before rfl hne
  simp only [contradicts, Bool.and_eq_false_iff, decide_eq_false_iff_not, ne_eq, not_not] at h
  rw [h.resolve_left hne]

theorem attempted_of_valid (hv : h.valid = true) : h.outcome ≠ .notAttempted := by
  intro heq
  simp only [HalfReceipt.valid, heq, Bool.and_false, Bool.false_eq_true] at hv

theorem WitnessChange.later (h : WitnessChange (some w) o) :
    ∃ w', o = some w' ∧ AuditLater w w' := by
  cases h with
  | kept => exact ⟨w, rfl, .refl w⟩
  | ended _ st _ => exact ⟨_, rfl, .refl, fun _ h _ => h, fun _ h _ => h, fun _ => rfl⟩
  | half _ h now hv hm ht hopen =>
    exact ⟨_, rfl, half_advances (attempted_of_valid hv) hopen, textKept_of_contradicts hm,
      textKept_of_contradicts ht, fun _ => rfl⟩
  | final _ f code now _ _ hopen =>
    refine ⟨_, rfl, .refl, fun _ h _ => h, fun _ h _ => h, fun hf => ?_⟩
    rcases hopen with ho | ho | ho
    · rcases hf with hf | hf <;> exact absurd (ho.symm.trans hf) nofun
    · rcases hf with hf | hf <;> exact absurd (ho.symm.trans hf) nofun
    · exact ho.symm

theorem Served.audit_later [H.CollisionFree] (h : Served H s)
    (hruns : Runs .readCommitted (program H) s s') (hw : s.db.lookup (.witness k b) = some w) :
    ∃ w' : WitnessRow, s'.db.lookup (.witness k b) = some w' ∧ AuditLater w w' := by
  induction hruns with
  | refl => exact ⟨w, hw, .refl w⟩
  | tail hruns hs ih =>
    obtain ⟨w1, hw1, h1⟩ := ih
    have hchange := (h.runs hruns).change hs k b
    rw [hw1] at hchange
    obtain ⟨w2, hw2, h2⟩ := hchange.later
    exact ⟨w2, hw2, h1.trans h2⟩

/-- A confirmed outcome is the one of the state. -/
def WitnessRow.Fits (w : WitnessRow) : Prop :=
  (w.finalOutcome = .commitConfirmed → w.state = .committed) ∧
    (w.finalOutcome = .rollbackConfirmed → w.state = .aborted)

theorem WitnessChange.fits {o' : Option WitnessRow} (h : WitnessChange o o')
    (ho : ∀ w, o = some w → w.Fits) : ∀ w, o' = some w → w.Fits := by
  intro w' hw'
  cases h with
  | kept => exact ho w' hw'
  | issued ref =>
    cases hw'
    exact ⟨nofun, nofun⟩
  | ended w st hp =>
    -- a prepared witness has no confirmed outcome yet
    cases hw'
    obtain ⟨hc, hr⟩ := ho w rfl
    exact ⟨fun hf => absurd (hp.symm.trans (hc hf)) nofun,
      fun hf => absurd (hp.symm.trans (hr hf)) nofun⟩
  | half w =>
    cases hw'
    exact ho w rfl
  | final w f code now hc hr =>
    cases hw'
    exact ⟨hc, hr⟩

theorem Served.fits [H.CollisionFree] (h : Served H s) : ∀ k b (w : WitnessRow),
    s.db.lookup (.witness k b) = some w → w.Fits := by
  induction h with
  | start hinit =>
    intro k b w hw
    exact absurd ((hinit _ fun _ => Row.noConfusion).symm.trans hw) nofun
  | step hr hs _ ih =>
    intro k b
    exact (Served.change hr hs k b).fits (ih k b)

/-! ## Audit calls -/

/-- The operations that only record what a broker answered. -/
def Op.isAudit : Op → Bool
  | .recordHalf _ _ _ _ => true
  | .recordFinal _ _ _ _ _ => true
  | .recordRecoveryFinal _ _ _ => true
  | _ => false

/-- All rows are the same, except for audit columns of witnesses. -/
structure OnlyAudits (σ ν : Tables) : Prop where
  rows : ∀ r, (∀ k b, r ≠ .witness k b) → ν.lookup r = σ.lookup r
  witnesses : ∀ k b, (ν.lookup (.witness k b)).map (fun w : WitnessRow => (w.reference, w.state)) =
    (σ.lookup (.witness k b)).map fun w : WitnessRow => (w.reference, w.state)

theorem SetsWitness.onlyAudits (h : SetsWitness k b w w' σ ν) (href : w'.reference = w.reference)
    (hstate : w'.state = w.state) : OnlyAudits σ ν := by
  refine ⟨fun r hr => h.rest r (hr k b), fun k' b' => ?_⟩
  by_cases hne : (.witness k' b' : Row) = .witness k b
  · cases hne
    rw [h.before, h.after, Option.map_some, Option.map_some, href, hstate]
  · rw [h.rest _ hne]

theorem onlyAudits_of_effect (ha : op.isAudit = true) (h : effect H op σ ν) : OnlyAudits σ ν := by
  cases op with
  | recordHalf =>
    obtain ⟨_, _, _, hsets, _⟩ := h
    exact hsets.onlyAudits rfl rfl
  | recordFinal =>
    obtain ⟨_, _, _, _, hsets, _⟩ := h
    exact hsets.onlyAudits rfl rfl
  | recordRecoveryFinal =>
    rcases h with rfl | ⟨_, _, _, hsets, _⟩
    · exact ⟨fun _ _ => rfl, fun _ _ => rfl⟩
    · exact hsets.onlyAudits rfl rfl
  | _ => cases ha

/-- Audits only move forward. Over any run the audit of a witness moves on in
order and what it has settled stays; a confirmed final outcome is that of the
execution's and the witness's state; and whatever rows an audit call may leave
differ from those it found in audit columns only. -/
theorem audits_move_forward [H.CollisionFree] (h : Served H s)
    (hruns : Runs .readCommitted (program H) s s') :
    (∀ k b (w : WitnessRow), s.db.lookup (.witness k b) = some w →
      ∃ w' : WitnessRow, s'.db.lookup (.witness k b) = some w' ∧ AuditLater w w' ∧
        (w.halfOutcome = .prepared ∨ w.halfOutcome = .rejected →
          w'.halfOutcome = w.halfOutcome)) ∧
      (∀ k b (w : WitnessRow), s'.db.lookup (.witness k b) = some w →
        ∃ x : ExecutionRow, s'.db.lookup (.execution k) = some x ∧
          (w.finalOutcome = .commitConfirmed → x.state = .committed ∧ w.state = .committed) ∧
          (w.finalOutcome = .rollbackConfirmed → x.state = .aborted ∧ w.state = .aborted)) ∧
      ∀ op, op.isAudit = true → ∀ σ', s'.MayLeave .readCommitted op σ' → OnlyAudits s'.db σ' := by
  have h' := h.runs hruns
  refine ⟨fun k b w hw => ?_, fun k b w hw => ?_, fun op ha σ' hleave => ?_⟩
  · obtain ⟨w', hw', hlater⟩ := h.audit_later hruns hw
    exact ⟨w', hw', hlater, half_absorbs hlater.half⟩
  · obtain ⟨x, hx, _⟩ := h'.inv.witness k b w hw
    have hsame := h'.inv.witness_state hx hw
    obtain ⟨hc, hr⟩ := h'.fits k b w hw
    exact ⟨x, hx, fun hf => ⟨hsame ▸ hc hf, hc hf⟩, fun hf => ⟨hsame ▸ hr hf, hr hf⟩⟩
  · rcases h'.mayLeave hleave with rfl | ⟨_, he⟩
    · exact ⟨fun _ _ => rfl, fun _ _ => rfl⟩
    · exact onlyAudits_of_effect ha he

namespace Sample

open Transaction.Sample

def halfRecorded (clock : Nat) (h : HalfReceipt) : World Noted × Op :=
  (clockAt clock, .recordHalf store (execution "1" "k" 1) (reference "1" "k" 1) h)

def witness (σ : Tables) : Option WitnessRow :=
  σ.lookup (.witness ((execution "1" "k" 1).key default) (branchKey default "b"))

end Sample

open Sample

set_option maxRecDepth 100000 in
/-- A broker's answer that was unknown at first and is known later. -/
theorem audits_move_forward_known : ∃ s s', Served default s ∧
    Runs .readCommitted (program default) s s' ∧ ∃ w w' : WitnessRow,
      witness s.db = some w ∧ w.halfOutcome = .unknown ∧
      witness s'.db = some w' ∧ w'.halfOutcome = .prepared ∧ AuditLater w w' := by
  obtain ⟨s, s', hs, hruns, hdb, hdb'⟩ := reach_runs_serve .readCommitted (program default)
    installed_spec [reserved "1" "k", halfRecorded 2 ⟨.unknown, "", "", "x"⟩]
    [halfRecorded 3 ⟨.prepared, "i", "j", ""⟩]
  have hbefore : (witness s.db).map (·.halfOutcome) =
      some .unknown := by
    rw [hdb]
    decide +kernel
  have hafter : (witness s'.db).map (·.halfOutcome) =
      some .prepared := by
    rw [hdb']
    decide +kernel
  obtain ⟨w, hw, hunknown⟩ := Option.map_eq_some_iff.mp hbefore
  obtain ⟨w', hw', hlater, _⟩ := (audits_move_forward hs hruns).1 _ _ w hw
  rw [show witness s'.db = some w' from hw'] at hafter
  exact ⟨s, s', hs, hruns, w, w', hw, hunknown, hw', Option.some.inj hafter, hlater⟩

end ReliableMessaging.MySql
