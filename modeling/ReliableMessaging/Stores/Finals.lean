import ReliableMessaging.Mongo.System
import ReliableMessaging.MySql.Audits

/-!
# What a confirmed outcome is worth

A sender and a checker may both learn that a broker confirmed the same branch,
and each records it: `RecordFinal` with the capability, `RecordRecoveryFinal`
without. The checker's audit looks whether the outcome is there already and
then keeps the first record. The sender's audit does not look: a repeated
outcome passes its filter, and is written again with the time and the error
code of the second call.
-/

namespace ReliableMessaging

open Transaction TxLang Option

namespace MySql

variable {H : Sha256} {σ ν : Tables} {s : StoreSystem} {op : Op} {k b : Bytes} {w : WitnessRow}

/-- The operations that record a final outcome. -/
def Op.isFinalAudit : Op → Bool
  | .recordFinal _ _ _ _ _ => true
  | .recordRecoveryFinal _ _ _ => true
  | _ => false

/-- A `RecordFinal` of the recorded outcome with this error code, that the store accepts: its
arguments pass, the binding row admits the store, the row of the key has the token, and this
witness the reference. -/
def Op.Repeats (H : Sha256) (σ : Tables) (k b : Bytes) (w : WitnessRow) (code : String) : Op → Prop
  | .recordFinal s e ref f code' => e.key H = k ∧ branchKey H ref.branchID = b ∧
    f = w.finalOutcome ∧ code' = code ∧ MayRecord H s e ref f code σ ∧
    ∃ x, Finds k b ref σ x w ∧ x.token = e.token
  | _ => False

/-- The witness after a call: as it was, or with the time or the code of an accepted audit that
repeats its outcome. -/
def Op.KeepsFinal (H : Sha256) (σ ν : Tables) (k b : Bytes) (w : WitnessRow) (op : Op) : Prop :=
  ν.lookup (.witness k b) = some w ∨ ∃ code now, op.Repeats H σ k b w code ∧
    (w.finalErrorCode, w.finalRecordedAt) ≠ (code, some now) ∧
    ν.lookup (.witness k b) = some (w.withFinal w.finalOutcome code now)

theorem not_open_of_confirmed {f : FinalOutcome} (hf : Confirmed f) :
    f ≠ .notAttempted ∧ f ≠ .unknown := by
  rcases hf with rfl | rfl <;> exact ⟨nofun, nofun⟩

/-- A write of one witness keeps every other. -/
theorem SetsWitness.kept {k' b' : Bytes} {w0 w' : WitnessRow}
    (h : SetsWitness k' b' w0 w' σ ν) (hw : σ.lookup (.witness k b) = some w) :
    ν.lookup (.witness k b) = some w ∨ k' = k ∧ b' = b ∧ w0 = w := by
  by_cases hne : (.witness k b : Row) = .witness k' b'
  · cases hne
    exact .inr ⟨rfl, rfl, Option.some.inj (h.before.symm.trans hw)⟩
  · exact .inl ((h.rest _ hne).trans hw)

theorem keepsFinal_of_effect (hw : σ.lookup (.witness k b) = some w)
    (hf : Confirmed w.finalOutcome) (hop : op.isFinalAudit = true) (he : effect H op σ ν) :
    op.KeepsFinal H σ ν k b w := by
  obtain ⟨hattempted, hknown⟩ := not_open_of_confirmed hf
  cases op with
  | recordFinal s e ref f code =>
    obtain ⟨hmay, x, w0, now, hsets, hfinds, _, htoken, _, _, _, _, hopen⟩ := he
    rcases hsets.kept hw with hkept | ⟨rfl, rfl, rfl⟩
    · exact .inl hkept
    obtain rfl : w0.finalOutcome = f := (hopen.resolve_left hattempted).resolve_left hknown
    by_cases hsame : (w0.finalErrorCode, w0.finalRecordedAt) = (code, some now)
    · obtain ⟨rfl, hnow⟩ := Prod.mk.inj hsame
      rw [WitnessRow.withFinal, ← hnow] at hsets
      exact .inl hsets.after
    · exact .inr ⟨code, now, ⟨rfl, rfl, rfl, rfl, hmay, x, hfinds, htoken⟩, hsame, hsets.after⟩
  | recordRecoveryFinal s ref f =>
    rcases he with rfl | ⟨x, w0, now, hsets, _, _, hopen⟩
    · exact .inl hw
    rcases hsets.kept hw with hkept | ⟨_, _, rfl⟩
    · exact .inl hkept
    · exact (hopen.elim hattempted hknown).elim
  | _ => cases hop

theorem Served.keepsFinal [H.CollisionFree] (h : Served H s)
    (hw : s.db.lookup (.witness k b) = some w) (hf : Confirmed w.finalOutcome)
    (hop : op.isFinalAudit = true) {σ' : Tables} (hleave : s.MayLeave .readCommitted op σ') :
    op.KeepsFinal H s.db σ' k b w := by
  rcases h.mayLeave hleave with rfl | ⟨_, he⟩
  · exact .inl hw
  · exact keepsFinal_of_effect hw hf hop he

/-! ### A repeated audit, alone -/

section Alone

variable {t : Tx Val} {u : World Noted} {store : Store}

theorem lookup_view (hempty : t.writes = ∅) (r : Row) :
    (view .readCommitted σ (some t)).lookup r = σ.lookup r := by
  rw [view, hempty, AList.empty_union]

theorem writes_acquire (t : Tx Val) (r : Row) (m : Mode) : (t.acquire r m).writes = t.writes := by
  cases m <;> rfl

theorem alone_bindingIn {Q : Unit → Tables → Option (Tx Val) → Prop} (h : Admitted store σ)
    (hempty : t.writes = ∅) (hQ : ∀ t', t'.writes = ∅ → Q () σ (some t')) :
    Alone .readCommitted u (bindingIn store false : Code Err Val Noted Unit) Q σ (some t) := by
  obtain ⟨b, hb, hadmits⟩ := h
  refine alone_bind (alone_lock ((lookup_view hempty _).trans hb) (alone_bind (alone_found rfl ?_)))
  refine alone_bind (alone_refuse (by simp [hadmits.store]) (alone_refuse ?_ (hQ _ ?_)))
  · simp [hadmits.schema]
  · rw [writes_acquire, hempty]

/-- An accepted audit that repeats the outcome writes its time and its code. -/
theorem alone_recordFinal {e : Execution} {ref : Reference} {f : FinalOutcome} {code : String}
    {x : ExecutionRow} (hmay : MayRecord H store e ref f code σ)
    (hfinds : Finds (e.key H) (branchKey H ref.branchID) ref σ x w) (htoken : x.token = e.token)
    (hf : f = w.finalOutcome) (hconfirmed : Confirmed f) (hfits : w.Fits) :
    Alone .readCommitted u (recordFinal H store e ref f code : Code Err Val Noted Unit)
      (fun _ ν _ => ν.lookup (.witness (e.key H) (branchKey H ref.branchID)) =
        some (w.withFinal f code (u.clock * 1000))) σ none := by
  have hcommitted : f = .commitConfirmed → x.state = .committed := fun h =>
    hfinds.state.symm.trans (hfits.1 (hf.symm.trans h))
  have haborted : f = .rollbackConfirmed → x.state = .aborted := fun h =>
    hfinds.state.symm.trans (hfits.2 (hf.symm.trans h))
  have hended : x.state ≠ .prepared := by
    rcases hconfirmed with rfl | rfl
    · rw [hcommitted rfl]
      nofun
    · rw [haborted rfl]
      nofun
  refine alone_bind (alone_refuse (by simp [hmay.form]) (alone_bind (alone_refuse ?_
    (alone_withTx (alone_bind (alone_bindingIn hmay.admitted rfl fun t ht => ?_))))))
  · simp [hmay.named, hmay.owner]
  have hread := fun (r r' : Row) (m m' : Mode) => lookup_view (σ := σ)
    (t := (t.acquire r m).acquire r' m') (by rw [writes_acquire, writes_acquire, ht])
  refine alone_bind (alone_lock ((lookup_view ht _).trans hfinds.execution) ?_)
  refine alone_bind (alone_found rfl (alone_bind (alone_refuse (by simp [htoken]) ?_)))
  refine alone_bind (alone_lock ((lookup_view (by rw [writes_acquire, ht]) _).trans
    hfinds.witness) ?_)
  refine alone_bind (alone_found rfl (alone_bind (alone_refuse ?_ ?_)))
  · simp [hfinds.reference, hfinds.state]
  refine alone_bind (alone_bind (alone_refuse (by simp [hended]) (alone_bind (alone_refuse ?_ ?_))))
  · simp +contextual [hcommitted, haborted]
  refine alone_bind (alone_send rfl (alone_bind (alone_found ((hread _ _ _ _ _).trans hfinds.witness)
    (alone_bind (alone_refuse (by simp [hf]) ?_)))))
  refine alone_bind (alone_bind (alone_send rfl (alone_pure ?_)))
  refine alone_bind (alone_bind (alone_send rfl (alone_pure (alone_pure (alone_send rfl ?_)))))
  refine lookup_stage_union_of_some ?_
  simp only [exec, execIn]
  rw [lookup_setWitnesses_witness, hread, hfinds.witness, bind_some,
    if_pos ⟨rfl, decide_eq_true rfl⟩]
  rfl

end Alone

/-- A repeated audit of an idle store comes to its end, and the witness has its time and code. -/
theorem Served.final_rewritten [H.CollisionFree] (h : Served H s) (hidle : s.Idle) {p : Nat}
    (hp : s.procs p = none) (hf : Confirmed w.finalOutcome) {code : String}
    (hop : op.Repeats H s.db k b w code) (clock : Nat) : ∃ s', Runs .readCommitted (program H) s
    s' ∧
      s'.db.lookup (.witness k b) = some (w.withFinal w.finalOutcome code (clock * 1000)) := by
  cases op with
  | recordFinal store e ref f code' =>
    obtain ⟨rfl, rfl, rfl, rfl, hmay, x, hfinds, htoken⟩ := hop
    have hcode : program H (.recordFinal store e ref w.finalOutcome code') =
        ignore (recordFinal H store e ref w.finalOutcome code').run := rfl
    obtain ⟨s', _, _, hruns, hrow⟩ := Alone.runs hcode
      (alone_recordFinal (u := ⟨clock, 1, fun _ => some ()⟩) hmay hfinds htoken rfl hf
        (h.fits _ _ _ hfinds.witness)) hidle hp
    exact ⟨s', hruns, hrow⟩
  | _ => exact hop.elim

end MySql

namespace Mongo

variable {H : Sha256} {σ ν : Collections} {s : StoreSystem} {op : Op} {id : Bytes} {i : Nat}
variable {w : BranchDoc} {f : FinalOutcome}

def Op.isFinalAudit : Op → Bool
  | .recordFinal _ _ _ _ _ => true
  | .recordRecoveryFinal _ _ _ _ => true
  | _ => false

/-- The witness with this index, of the document with this `_id`. -/
def Witnesses (σ : Collections) (id : Bytes) (i : Nat) (w : BranchDoc) : Prop :=
  ∃ d : ExecutionDoc, σ.lookup (.execution id) = some d ∧ d.witnesses[i]? = some w

/-- A `RecordFinal` of this outcome with this error code, whose filter the document passes. -/
def Op.Repeats (H : Sha256) (σ : Collections) (id : Bytes) (i : Nat) (w : BranchDoc)
    (f : FinalOutcome) (code : String) : Op → Prop
  | .recordFinal s e ref f' code' => e.key H = id ∧ f' = f ∧ code' = code ∧
    ∃ d, σ.lookup (.execution id) = some d ∧ Passes H s e ref f code d i w
  | _ => False

def Op.KeepsFinal (H : Sha256) (σ ν : Collections) (id : Bytes) (i : Nat) (w : BranchDoc)
    (f : FinalOutcome) (op : Op) : Prop :=
  Witnesses ν id i w ∨ ∃ code now, op.Repeats H σ id i w f code ∧
    (w.finalErrorCode, w.finalRecordedAt) ≠ (some code, some now) ∧
    Witnesses ν id i (w.withFinal f code now)

variable {ref : Reference} {d : ExecutionDoc} {e : Execution} {code : String}

theorem Audits.kept {id' : Bytes} {set : BranchDoc → BranchDoc} {j : Nat} {w0 : BranchDoc}
    (h : Audits id' ref set σ ν d j w0) (hw : Witnesses σ id i w) :
    Witnesses ν id i w ∨ id' = id ∧ j = i ∧ w0 = w ∧ Witnesses ν id i (set w) := by
  obtain ⟨d', hd', hi⟩ := hw
  by_cases hid : id = id'
  · subst hid
    cases h.sets.before.symm.trans hd'
    by_cases hij : j = i
    · subst hij
      refine .inr ⟨rfl, rfl, Option.some.inj (h.witness.symm.trans hi), _, h.sets.after, ?_⟩
      rw [ExecutionDoc.setWitness, List.getElem?_modify_eq, hi]
      rfl
    · refine .inl ⟨_, h.sets.after, (List.getElem?_modify_ne _ _ hij).trans hi⟩
  · exact .inl ⟨d', (h.sets.rest _ fun heq => hid (Row.execution.inj heq)).trans hd', hi⟩

theorem keepsFinal_of_effect {quiet : Prop} (hw : Witnesses σ id i w)
    (hrecorded : w.finalOutcome = some f) (hf : MySql.Confirmed f) (hop : op.isFinalAudit = true)
    (he : effect H quiet op σ ν) : op.KeepsFinal H σ ν id i w f := by
  obtain ⟨hattempted, hknown⟩ := MySql.not_open_of_confirmed hf
  cases op with
  | recordFinal s e ref f' code =>
    obtain ⟨d, j, w0, now, haudits, _, hpasses⟩ := he
    rcases haudits.kept hw with hkept | ⟨rfl, rfl, rfl, hset⟩
    · exact .inl hkept
    obtain rfl : f = f' := by
      simpa [absentOr, hrecorded, hattempted, hknown] using hpasses.unsettled
    by_cases hsame : (w0.finalErrorCode, w0.finalRecordedAt) = (some code, some now)
    · obtain ⟨hcode, hnow⟩ := Prod.mk.inj hsame
      rw [BranchDoc.withFinal, ← hrecorded, ← hcode, ← hnow] at hset
      exact .inl hset
    · exact .inr ⟨code, now, ⟨rfl, rfl, rfl, d, haudits.sets.before, hpasses⟩, hsame, hset⟩
  | recordRecoveryFinal s retries ref f' =>
    obtain ⟨d, j, w0, now, haudits, hopen⟩ := he
    rcases haudits.kept hw with hkept | ⟨_, _, rfl, _⟩
    · exact .inl hkept
    · simp [absentOr, hrecorded, hattempted, hknown] at hopen
  | _ => cases hop

theorem Served.keepsFinal (h : Served H s) (hw : Witnesses s.db id i w)
    (hrecorded : w.finalOutcome = some f) (hf : MySql.Confirmed f) (hop : op.isFinalAudit = true)
    {σ' : Collections} (hleave : s.MayLeave .snapshot op σ') :
    op.KeepsFinal H s.db σ' id i w f := by
  rcases h.mayLeave hleave with rfl | he
  · exact .inl hw
  · exact keepsFinal_of_effect hw hrecorded hf hop he

/-- The binding document that a call which is not a writer's asks for. -/
def Bound (store : Store) (σ : Collections) : Prop :=
  ∃ b : BindingDoc, σ.lookup (.binding store.owner) = some b ∧ b.storeID = store.storeID ∧
    b.schemaVersion = schemaVersion

theorem length_keys_setExecution {filter : ExecutionDoc → Bool} {set : ExecutionDoc → ExecutionDoc}
    (hd : (setExecution id filter set σ).lookup (.execution id) = some d) :
    (setExecution id filter set σ).keys.length = 1 := by
  refine ((List.perm_ext_iff_of_nodup (AList.keys_nodup _)
    (List.nodup_singleton (Row.execution id))).mpr fun r => ?_).length_eq
  rw [mem_keys_iff_lookup, List.mem_singleton]
  by_cases hr : r = .execution id
  · subst hr
    simp [hd]
  · simp [hr, lookup_setExecution_ne hr]

theorem alone_recordFinal {u : World NoAnswer} {store : Store} (hbound : Bound store σ)
    (hd : σ.lookup (.execution (e.key H)) = some d) (hpasses : Passes H store e ref f code d i w) :
    Alone .snapshot u (recordFinal H store e ref f code : Code Err Val NoAnswer Unit)
      (fun _ ν _ => Witnesses ν (e.key H) i (w.withFinal f code (date u.clock))) σ none := by
  obtain ⟨b, hb, hstore, hschema⟩ := hbound
  obtain ⟨keep, hfilter, hkeep⟩ := hpasses.filter
  have hset : (setExecution (e.key H) (fun d => keep d && (finalStates f).contains d.state &&
      d.witnessIs i fun w => w.state = d.state && absentOr w.finalOutcome [.notAttempted, .unknown, f])
      (fun d => d.setWitness i (·.withFinal f code (date u.clock))) σ).lookup
        (.execution (e.key H)) = some (d.setWitness i (·.withFinal f code (date u.clock))) := by
    rw [lookup_setExecution_execution, hd]
    refine if_pos ⟨rfl, ?_⟩
    simp only [hkeep, hpasses.final, ExecutionDoc.witnessIs, hpasses.witness, hpasses.state,
      hpasses.unsettled, any_some, decide_true, Bool.and_true]
  refine alone_bind (alone_refuse (by simp [hpasses.form]) (alone_bind ?_))
  refine alone_bind (alone_send rfl (alone_bind (alone_found hb (alone_bind
    (alone_refuse (by simp [hstore]) (alone_refuse (by simp [hschema]) ?_))))))
  refine alone_bind (alone_lift hfilter (alone_bind (alone_bind (alone_send rfl (alone_pure
    (alone_refuse ?_ ?_))))))
  · exact decide_eq_false (not_not_intro (length_keys_setExecution hset))
  · refine ⟨_, lookup_union_of_some hset, ?_⟩
    rw [ExecutionDoc.setWitness, List.getElem?_modify_eq, hpasses.witness]
    rfl

theorem final_rewritten (hidle : s.Idle) {p : Nat} (hp : s.procs p = none) {store : Store}
    (hbound : Bound store s.db)
    (hop : (Op.recordFinal store e ref f code).Repeats H s.db id i w f code) (clock : Nat) :
    ∃ s', Runs .snapshot (program H) s s' ∧
      Witnesses s'.db id i (w.withFinal f code (date clock)) := by
  obtain ⟨rfl, _, _, d, hd, hpasses⟩ := hop
  have hcode : program H (.recordFinal store e ref f code) =
      ignore (recordFinal H store e ref f code).run := rfl
  obtain ⟨s', _, _, hruns, hrow⟩ := Alone.runs hcode
    (alone_recordFinal (u := ⟨clock, 1, fun _ => some ()⟩) hbound hd hpasses) hidle hp
  exact ⟨s', hruns, hrow⟩

end Mongo

namespace Stores

open MySql (Confirmed)

/-- A confirmed outcome keeps its first record, unless a sender's audit repeats it. In every state
that either store reaches, whatever rows a call that records a final outcome may leave, a witness
with a confirmed outcome is left as it is, or the call is an accepted `RecordFinal` of that outcome
and the record has its time and code, one of which is new. And no such call keeps the record: from
any idle state it runs to the end and leaves the time of its clock and its code. -/
theorem confirmed_finals_are_kept (H : Sha256) [H.CollisionFree] :
    (∀ s : MySql.StoreSystem, MySql.Served H s → ∀ k b (w : MySql.WitnessRow),
      s.db.lookup (.witness k b) = some w → Confirmed w.finalOutcome →
      (∀ op : MySql.Op, op.isFinalAudit = true →
        ∀ σ', s.MayLeave .readCommitted op σ' → op.KeepsFinal H s.db σ' k b w) ∧
      ∀ (op : MySql.Op) code, op.Repeats H s.db k b w code → s.Idle → ∀ p, s.procs p = none →
        ∀ clock, ∃ s', Runs .readCommitted (MySql.program H) s s' ∧
          s'.db.lookup (.witness k b) = some (w.withFinal w.finalOutcome code (clock * 1000))) ∧
    ∀ s : Mongo.StoreSystem, Mongo.Served H s → ∀ id i w f,
      Mongo.Witnesses s.db id i w → w.finalOutcome = some f → Confirmed f →
      (∀ op : Mongo.Op, op.isFinalAudit = true →
        ∀ σ', s.MayLeave .snapshot op σ' → op.KeepsFinal H s.db σ' id i w f) ∧
      ∀ store e ref code, (Mongo.Op.recordFinal store e ref f code).Repeats H s.db id i w f code →
        Mongo.Bound store s.db → s.Idle → ∀ p, s.procs p = none →
        ∀ clock, ∃ s', Runs .snapshot (Mongo.program H) s s' ∧
          Mongo.Witnesses s'.db id i (w.withFinal f code (Mongo.date clock)) :=
  ⟨fun _ h _ _ _ hw hf => ⟨fun _ hop _ hleave => h.keepsFinal hw hf hop hleave,
      fun _ _ hop hidle _ hp clock => h.final_rewritten hidle hp hf hop clock⟩,
    fun _ h _ _ _ _ hw hrecorded hf =>
      ⟨fun _ hop _ hleave => h.keepsFinal hw hrecorded hf hop hleave,
      fun _ _ _ _ hop hbound hidle _ hp clock => Mongo.final_rewritten hidle hp hbound hop clock⟩⟩

namespace Sample

open MySql.Sample Transaction.Sample

def committed : World MySql.Noted × MySql.Op :=
  (clockAt 2, .rootTransaction [.bind store (execution "1" "k" 1), .commitWitness 0] true)

def confirmed (clock : Nat) : World MySql.Noted × MySql.Op :=
  (clockAt clock, .recordFinal store (execution "1" "k" 1) (reference "1" "k" 1)
    .commitConfirmed "")

def recovered : MySql.Op := .recordRecoveryFinal store (reference "1" "k" 1) .commitConfirmed

@[irreducible]
def recorded : MySql.Tables :=
  (MySql.ran default [reserved "1" "k", committed, confirmed 3] installed).1

def executionRow (σ : MySql.Tables) : Option MySql.ExecutionRow :=
  σ.lookup (.execution ((execution "1" "k" 1).key default))

set_option maxRecDepth 100000 in
theorem recorded_rows :
    recorded.lookup (.binding "o") = some (⟨"d", "E", 1⟩ : MySql.BindingRow) ∧
      (executionRow recorded).map (fun x => (x.token, x.state)) = some (1, State.committed) ∧
      (witness recorded).map (fun w => (w.reference, w.state, w.finalOutcome, w.finalRecordedAt)) =
        some (reference "1" "k" 1, State.committed, FinalOutcome.commitConfirmed, some 3000) ∧
      (witness (solo .readCommitted (confirmed 4).1 (MySql.program default (confirmed 4).2)
        recorded none).db).map (·.finalRecordedAt) = some (some 4000) := by
  decide +kernel

set_option maxRecDepth 100000 in
theorem recorded_mayRecord : MySql.MayRecord default store (execution "1" "k" 1)
    (reference "1" "k" 1) .commitConfirmed "" recorded :=
  ⟨by decide +kernel, by decide +kernel, rfl, _, recorded_rows.1, rfl, rfl, nofun⟩

theorem recorded_repeats : ∃ w : MySql.WitnessRow, witness recorded = some w ∧
    w.finalOutcome = .commitConfirmed ∧ w.finalRecordedAt = some 3000 ∧
    ∀ clock, (confirmed clock).2.Repeats default recorded ((execution "1" "k" 1).key default)
      (branchKey default "b") w "" := by
  obtain ⟨_, hrow, hwitness, _⟩ := recorded_rows
  obtain ⟨x, hx, hxs⟩ := map_eq_some_iff.mp hrow
  obtain ⟨w, hw, hws⟩ := map_eq_some_iff.mp hwitness
  simp only [Prod.mk.injEq] at hxs hws
  obtain ⟨href, hstate, houtcome, htime⟩ := hws
  exact ⟨w, hw, houtcome, htime, fun _ => ⟨rfl, rfl, houtcome.symm, rfl, recorded_mayRecord, x,
    ⟨hx, hw, href, hstate.trans hxs.2.symm⟩, hxs.1⟩⟩

end Sample

open Sample

/-- After the sender's audit, a checker's; and the sender's once more. -/
theorem confirmed_finals_are_kept_recovered : ∃ s : MySql.StoreSystem, MySql.Served default s ∧
    ∃ w : MySql.WitnessRow, MySql.Sample.witness s.db = some w ∧ Confirmed w.finalOutcome ∧
    (∃ s1 σ', Runs .readCommitted (MySql.program default) s s1 ∧
      s1.MayLeave .readCommitted recovered σ' ∧ MySql.Sample.witness σ' = some w) ∧
    ∃ s2, Runs .readCommitted (MySql.program default) s s2 ∧
      MySql.Sample.witness s2.db = some (w.withFinal w.finalOutcome "" 4000) := by
  obtain ⟨s, hr, hidle, hfree, hdb, _⟩ := reach_serve .readCommitted (MySql.program default)
    (fun _ _ => True) MySql.Sample.installed_spec
    [MySql.Sample.reserved "1" "k", committed, confirmed 3]
    (mayServe_true _ _ _ _ _ _)
  replace hdb : s.db = recorded := by
    delta recorded
    exact hdb
  obtain ⟨w, hw, hf, _, hrepeats⟩ := recorded_repeats
  rw [← hdb] at hw hrepeats
  have hconfirmed : Confirmed w.finalOutcome := .inl hf
  have hserved : MySql.Served default s := hr.mono fun _ _ _ => trivial
  -- the checker's audit opens its transaction
  have hspawned : Runs .readCommitted (MySql.program default) s
      (s.spawned (MySql.program default) 3 recovered) :=
    .single (.spawn 3 _ (hfree 3 (Nat.le_refl 3)))
  have hproc : (s.spawned (MySql.program default) 3 recovered).procs 3 =
      some ⟨recovered, MySql.program default recovered, none⟩ := by
    simp [Sys.spawned, Function.update_self]
  have hleave : (s.spawned (MySql.program default) 3 recovered).MayLeave .readCommitted
      recovered s.db :=
    .inl ⟨3, _, hproc, rfl, _, hproc, .begin, _, [], _, _, _, rfl, .begin⟩
  refine ⟨s, hserved, w, hw, hconfirmed, ⟨_, s.db, hspawned, hleave, ?_⟩, ?_⟩
  · refine (((confirmed_finals_are_kept default).1 _ (hserved.runs hspawned) _ _ w hw
      hconfirmed).1 recovered rfl _ hleave).resolve_right ?_
    rintro ⟨_, _, hrepeat, _⟩
    exact hrepeat
  · exact ((confirmed_finals_are_kept default).1 s hserved _ _ w hw hconfirmed).2 _ _
      (hrepeats 4) hidle 3 (hfree 3 (Nat.le_refl 3)) 4

/-- **A repeated audit is written again.** A broker's confirmation is recorded
at one time; the sender's second audit of the same outcome moves it to another. -/
theorem confirmed_final_rewritten : ∃ s s' : MySql.StoreSystem, MySql.Served default s ∧
    Runs .readCommitted (MySql.program default) s s' ∧
    s'.db = (solo .readCommitted (confirmed 4).1 (MySql.program default
      (confirmed 4).2) s.db none).db ∧
    ∃ w w' : MySql.WitnessRow, MySql.Sample.witness s.db = some w ∧
      MySql.Sample.witness s'.db = some w' ∧ w.finalOutcome = .commitConfirmed ∧
      w.finalRecordedAt = some 3000 ∧ w'.finalRecordedAt = some 4000 := by
  obtain ⟨s, s', hs, hruns, hdb, hdb'⟩ := reach_runs_serve .readCommitted (MySql.program default)
    MySql.Sample.installed_spec [MySql.Sample.reserved "1" "k", committed,
      confirmed 3] [confirmed 4]
  rw [← hdb, serve_one] at hdb'
  replace hdb : s.db = recorded := by
    delta recorded
    exact hdb
  obtain ⟨w, hw, hf, htime, _⟩ := recorded_repeats
  have hrow' := recorded_rows.2.2.2
  rw [← hdb] at hw hrow'
  rw [← hdb'] at hrow'
  obtain ⟨w', hw', hf'⟩ := map_eq_some_iff.mp hrow'
  exact ⟨s, s', hs, hruns, hdb', w, w', hw, hw', hf, htime, hf'⟩

end Stores

end ReliableMessaging
