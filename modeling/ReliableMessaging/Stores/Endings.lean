import ReliableMessaging.Mongo.Epochs
import ReliableMessaging.Sender.Executions
import ReliableMessaging.Stores.Capability

/-!
# Executions end once, in every store

What the Go client alone keeps of the MySQL tables it keeps beside Python
clients as well, the fence of writer epochs too: all commits keep one contract.
The Mongo store has no such contract for states; that a document ends once is
in what each operation has checked of the document it changes.
-/

namespace ReliableMessaging

open Transaction TxLang

namespace Python

open MySql
open Transaction.Sample (store options execution)

variable {H : Sha256} {s s' : SharedSystem}

theorem Shared.later [H.CollisionFree] (h : Shared H s)
    (hruns : Runs .readCommitted (eitherProgram H) s s') :
    Shared H s' ∧ Later (clients H) s.db s'.db :=
  ⟨Reach.runs h hruns, Reach.later (sound H) h hruns.anyBy⟩

/-- Whatever clients of both languages do: an execution keeps its plan, its
token and its end, and always has the witnesses of its plan, in its state; and
two executions of one request that are ever committed are one. -/
theorem shared_executions_end_once [H.CollisionFree] (h : Shared H s)
    (hruns : Runs .readCommitted (eitherProgram H) s s') {k : Bytes} {e : ExecutionRow}
    (he : s.db.lookup (.execution k) = some e) :
    (∃ e' : ExecutionRow, s'.db.lookup (.execution k) = some e' ∧ ExecutionLater e e' ∧
      ∀ br ∈ e.plan.input.branches, ∃ w : WitnessRow,
        s'.db.lookup (.witness k (branchKey H br.id)) = some w ∧
        w.reference = e.plan.referenceOf H e.fence e.writerEpoch br ∧ w.state = e'.state) ∧
    ∀ k' e', Sender.Filed s'.db e.requestKey k' e' → e.state = .committed →
      e'.state = .committed → k = k' := by
  obtain ⟨hs', hlater⟩ := h.later hruns
  refine ⟨?_, fun k' e' he' hc hc' => ?_⟩
  · obtain ⟨e', he', hle⟩ := later_execution hlater he
    refine ⟨e', he', hle, fun br hbr => ?_⟩
    have hwitness := (hs'.inv.execution k e' he').witness br
    rw [hle.columns] at hwitness
    exact hwitness hbr
  · obtain ⟨e1, he1, hkeep⟩ := Sender.Filed.later ⟨he, rfl⟩ hlater
    obtain ⟨q, hq, _⟩ := hs'.inv.filed k' e' he'.1
    rw [he'.2] at hq
    rw [Sender.committed_active hs'.inv hq he1 (hkeep hc),
      Sender.committed_active hs'.inv hq he' hc']

set_option maxRecDepth 100000 in
/-- An execution that Go reserves and Python aborts, and a retry of it in Go. -/
theorem shared_executions_end_once_aborted : ∃ s s' : SharedSystem, Shared default s ∧
    Runs .readCommitted (eitherProgram default) s s' ∧ ∃ k, ∃ e e' : ExecutionRow,
      s.db.lookup (.execution k) = some e ∧ e.state = .aborted ∧
      s'.db.lookup (.execution k) = some e' ∧ e'.state = .aborted := by
  obtain ⟨s, s', hs, hruns, hdb, _⟩ := reach_runs_serve .readCommitted (eitherProgram default)
    MySql.Sample.installed_spec [Stores.Sample.issued, (MySql.Sample.clockAt 2,
      .inr (.abortOnce ⟨store, .readCommitted⟩ ⟨execution "1" "k" 1, by decide +kernel⟩))]
    [(MySql.Sample.clockAt 3, .inl (.retry store (execution "1" "k" 1) options))]
  have hrow : ∃ e ∈ (s.db.lookup (.execution ((execution "1" "k" 1).key default)) :
      Option ExecutionRow), e.state = .aborted := by
    rw [hdb]
    decide +kernel
  obtain ⟨e, he, ha⟩ := hrow
  obtain ⟨e', he', hl, _⟩ := (shared_executions_end_once hs hruns he).1
  exact ⟨s, s', hs, hruns, _, e, e', he, ha, he', (hl.ended (ha ▸ State.noConfusion)).trans ha⟩

/-- **Writer epochs are fenced in both languages.** While the binding row does
not name an epoch, no client of either language adds an execution of that epoch,
starts its preparation or commits it. -/
theorem shared_old_epoch_writes_nothing [H.CollisionFree] (h : Shared H s) {owner epoch : String}
    (hnot : ¬ Live s.db owner epoch)
    (hruns : RunsWhile .readCommitted (eitherProgram H) (fun s' => ¬ Live s'.db owner epoch) s s')
    {k : Bytes} {e' : ExecutionRow} (he' : s'.db.lookup (.execution k) = some e')
    (howner : e'.owner = owner) (hepoch : e'.writerEpoch = epoch) :
    ∃ e : ExecutionRow, s.db.lookup (.execution k) = some e ∧
      e'.prepareStarted = e.prepareStarted ∧ (e'.state = .committed → e.state = .committed) :=
  Sender.fenced_while (fun _ _ hab hs => (Reach.good (sound H) (Reach.runs h hab)).step_trans hs)
    hnot hruns he' howner hepoch

def Sample.prepared : Either :=
  .inr (.beginPrepare ⟨store, .readCommitted⟩ ⟨execution "1" "k" 1, by decide +kernel⟩)

set_option maxRecDepth 100000 in
/-- An execution of Go whose epoch has ended: a preparation in Python runs to
its refusal and has not started it. -/
theorem shared_old_epoch_writes_nothing_rotated : ∃ s s' : SharedSystem, Shared default s ∧
    RunsWhile .readCommitted (eitherProgram default) (fun s' => ¬ Live s'.db "o" "E") s s' ∧
    s'.procs 2 = some ⟨Sample.prepared, .ret (), none⟩ ∧
    (solo .readCommitted (MySql.Sample.clockAt 2) (beginPrepare default ⟨store, .readCommitted⟩
      (execution "1" "k" 1)).run s.db none).value = .error .binding ∧
    ∃ k, ∃ e e' : ExecutionRow, s.db.lookup (.execution k) = some e ∧
      s'.db.lookup (.execution k) = some e' ∧ e'.writerEpoch = "E" ∧
      e'.prepareStarted = e.prepareStarted := by
  obtain ⟨s, s', hr, hdb, hdb', hruns, hend⟩ := reach_refused .readCommitted (eitherProgram default)
    (fun _ _ => True) MySql.Sample.installed_spec [Stores.Sample.issued, (MySql.Sample.clockAt 2,
      .inl (.rotate "o" fun b => { b with writerEpoch := "F" }))]
    (mayServe_true _ _ _ _ _ _) (MySql.Sample.clockAt 2)
    Sample.prepared (by decide +kernel)
  have hrows : (∃ b ∈ (s.db.lookup (.binding "o") : Option BindingRow), b.writerEpoch = "F") ∧
      (∃ e ∈ (s.db.lookup (.execution ((execution "1" "k" 1).key default)) :
        Option ExecutionRow), e.owner = "o" ∧ e.writerEpoch = "E") ∧
      (solo .readCommitted (MySql.Sample.clockAt 2) (beginPrepare default ⟨store, .readCommitted⟩
        (execution "1" "k" 1)).run s.db none).value = .error .binding := by
    rw [hdb]
    decide +kernel
  obtain ⟨⟨b, hb, hF⟩, ⟨e', he', howner, hE⟩, hrefused⟩ := hrows
  have hs : Shared default s := hr.mono fun _ _ _ => trivial
  have hnot : ¬ Live s.db "o" "E" := Sender.not_live hb (by rw [hF]; decide)
  have hwhile : RunsWhile .readCommitted (eitherProgram default)
      (fun s' => ¬ Live s'.db "o" "E") s s' :=
    hruns _ fun _ b _ hb => (hb ▸ hnot : ¬ Live b.db "o" "E")
  rw [← hdb'] at he'
  obtain ⟨e, he, hstarted, _⟩ := shared_old_epoch_writes_nothing hs hnot hwhile he' howner hE
  exact ⟨s, s', hs, hwhile, hend, hrefused, _, e, e', he, he', hE, hstarted⟩

end Python

namespace Mongo

variable {H : Sha256} {σ ν : Collections} {s s' : StoreSystem} {id : Bytes} {d : ExecutionDoc}

/-- What a document may have become after any number of commits. -/
structure DocLater (d d' : ExecutionDoc) : Prop extends DocStep d d' where
  ended : d.state ≠ .prepared → d'.state = d.state
  started : d.prepareStarted = true → d'.prepareStarted = true

theorem DocLater.refl (d : ExecutionDoc) : DocLater d d := ⟨.refl d, fun _ => rfl, fun h => h⟩

theorem DocLater.trans {a b c : ExecutionDoc} (h : DocLater a b) (h' : DocLater b c) :
    DocLater a c := by
  refine ⟨⟨?_, h'.references.trans h.references⟩, fun ha => ?_,
    fun ha => h'.started (h.started ha)⟩
  · have hc := h'.fields
    rw [h.fields] at hc
    exact hc
  · have hb := h.ended ha
    exact (h'.ended (hb ▸ ha)).trans hb

/-- Only a prepared document is ended. -/
theorem docLater_of_prepared {d' : ExecutionDoc} (h : DocStep d d') (hp : d.state = .prepared)
    (hs : d'.prepareStarted = d.prepareStarted) : DocLater d d' :=
  ⟨h, fun hne => absurd hp hne, fun hd => hs.trans hd⟩

theorem SetsDoc.later {k : Bytes} {x x' : ExecutionDoc} (h : SetsDoc k x x' σ ν)
    (hx : DocLater x x') (hd : σ.lookup (.execution id) = some d) :
    ∃ d' : ExecutionDoc, ν.lookup (.execution id) = some d' ∧ DocLater d d' := by
  by_cases hk : id = k
  · subst hk
    cases hd.symm.trans h.before
    exact ⟨x', h.after, hx⟩
  · exact ⟨d, (h.rest _ fun heq => hk (Row.execution.inj heq)).trans hd, .refl d⟩

theorem Issues.later {k : Bytes} {x : ExecutionDoc} (h : Issues H σ ν k x)
    (hd : σ.lookup (.execution id) = some d) :
    ∃ d' : ExecutionDoc, ν.lookup (.execution id) = some d' ∧ DocLater d d' := by
  have hk : id ≠ k := by
    rintro rfl
    exact absurd (h.fresh.symm.trans hd) nofun
  exact ⟨d, (h.others id hk).trans hd, .refl d⟩

theorem Audits.later {k : Bytes} {ref : Reference} {set : BranchDoc → BranchDoc}
    {x : ExecutionDoc} {i : Nat} {w : BranchDoc} (h : Audits k ref set σ ν x i w)
    (hset : ∀ w, (set w).reference = w.reference) (hd : σ.lookup (.execution id) = some d) :
    ∃ d' : ExecutionDoc, ν.lookup (.execution id) = some d' ∧ DocLater d d' :=
  h.sets.later ⟨docStep_setWitness x i hset, fun _ => rfl, fun hs => hs⟩ hd

theorem effect_later {quiet : Prop} {op : Op} (h : effect H quiet op σ ν)
    (hd : σ.lookup (.execution id) = some d) :
    ∃ d' : ExecutionDoc, ν.lookup (.execution id) = some d' ∧ DocLater d d' := by
  cases op with
  | lookup => exact h.elim
  | evidence => exact h.elim
  | reserve | retry | replan =>
    obtain ⟨k, x, hissues⟩ := h
    exact hissues.later hd
  | beginPrepare =>
    obtain ⟨x, hsets, _⟩ := h
    exact hsets.later ⟨⟨rfl, rfl⟩, fun _ => rfl, fun _ => rfl⟩ hd
  | abortOnce =>
    obtain ⟨x, hsets, _, hp⟩ := h
    exact hsets.later (docLater_of_prepared (docStep_ended x _ _) hp rfl) hd
  | reconcileOnce =>
    obtain ⟨e, x, hsets, _, hp⟩ := h
    exact hsets.later (docLater_of_prepared (docStep_ended x _ _) hp rfl) hd
  | recordHalf =>
    obtain ⟨x, i, w, now, haudits, _⟩ := h
    exact haudits.later (fun _ => rfl) hd
  | recordFinal =>
    obtain ⟨x, i, w, now, haudits, _⟩ := h
    exact haudits.later (fun _ => rfl) hd
  | recordRecoveryFinal =>
    obtain ⟨x, i, w, now, haudits, _⟩ := h
    exact haudits.later (fun _ => rfl) hd
  | rootTransaction =>
    rcases h.execution id with hsame | ⟨_, e, x, x', _, hx', he⟩
    · exact ⟨d, hsame.trans hd, .refl d⟩
    · cases hd.symm.trans he.before
      refine ⟨x', hx', docLater_of_prepared he.doc.step he.prepared ?_⟩
      obtain ⟨g, rfl | rfl⟩ := he.doc
      · rfl
      · rfl
  | rotate => exact ⟨d, (h _ fun _ => Row.noConfusion).trans hd, .refl d⟩

/-- **Mongo executions end once.** In any run every document stays, with its
plan, its token and the references of its witnesses; it is ended only where it
was prepared, and a preparation that was started stays so. -/
theorem executions_end_once (h : Served H s) (hruns : Runs .snapshot (program H) s s')
    (hd : s.db.lookup (.execution id) = some d) :
    ∃ d' : ExecutionDoc, s'.db.lookup (.execution id) = some d' ∧ DocLater d d' := by
  induction hruns with
  | refl => exact ⟨d, hd, .refl d⟩
  | @tail a b hab hs ih =>
    obtain ⟨d1, hd1, h1⟩ := ih
    rcases Step.mayLeave hs with hsame | ⟨op, hleave⟩
    · exact ⟨d1, hsame ▸ hd1, h1⟩
    rcases (h.runs hab).mayLeave hleave with hsame | heffect
    · exact ⟨d1, hsame ▸ hd1, h1⟩
    · obtain ⟨d2, hd2, h2⟩ := effect_later heffect hd1
      exact ⟨d2, hd2, h1.trans h2⟩

set_option maxRecDepth 100000 in
/-- A preparation of an execution that was aborted. -/
theorem executions_end_once_aborted : ∃ s s' : StoreSystem, Served default s ∧
    Runs .snapshot (program default) s s' ∧ ∃ id, ∃ d d' : ExecutionDoc,
      s.db.lookup (.execution id) = some d ∧ d.state = .aborted ∧
      s'.db.lookup (.execution id) = some d' ∧ d'.state = .aborted := by
  obtain ⟨s, s', hs, hruns, hdb, _⟩ := reach_runs_serve .snapshot (program default)
    Sample.installed_spec [Sample.reserved "x" "k", (Sample.clockAt 1, .abortOnce
      Transaction.Sample.store (Sample.execution "x" "k"))] [(Sample.clockAt 1, Sample.prepare)]
  have hrow : ∃ d ∈ (s.db.lookup (.execution ((Sample.execution "x" "k").key default)) :
      Option ExecutionDoc), d.state = .aborted := by
    rw [hdb]
    decide +kernel
  obtain ⟨d, hd, ha⟩ := hrow
  obtain ⟨d', hd', hl⟩ := executions_end_once hs hruns hd
  exact ⟨s, s', hs, hruns, _, d, d', hd, ha, hd', (hl.ended (ha ▸ State.noConfusion)).trans ha⟩

end Mongo

end ReliableMessaging
