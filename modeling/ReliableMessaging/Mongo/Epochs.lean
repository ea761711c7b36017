import ReliableMessaging.Mongo.System

/-!
# Writer epochs over Mongo

The adapter checks the writer's epoch by reading the binding document and
changes the execution afterwards. `BeginPrepare` holds nothing between the two
(`epoch_overtaken` is the run in which the epoch changes there); a root
transaction reads the binding from its snapshot, and a document that is only
read may change under it. The MySQL adapter share-locks the binding row for
this.
-/

namespace ReliableMessaging.Mongo

open Transaction TxLang

variable {H : Sha256} {s s' : StoreSystem} {σ ν : Collections}

/-- The document of an execution was started, or committed, before. -/
structure NotSince (d' : ExecutionDoc) (id : Bytes) (σ : Collections) : Prop where
  started : d'.prepareStarted = true → ∃ d : ExecutionDoc,
    σ.lookup (.execution id) = some d ∧ d.prepareStarted = true
  committed : d'.state = .committed → ∃ d : ExecutionDoc,
    σ.lookup (.execution id) = some d ∧ d.state = .committed

variable {id k : Bytes} {d d' x : ExecutionDoc} {owner epoch : String}

theorem notSince_refl (h : σ.lookup (.execution id) = some d) : NotSince d id σ :=
  ⟨fun hs => ⟨d, h, hs⟩, fun hc => ⟨d, h, hc⟩⟩

theorem SetsDoc.notSince (h : SetsDoc k d d' σ ν) (hstarted : d'.prepareStarted = d.prepareStarted)
    (hstate : d'.state = .committed → d.state = .committed)
    (hx : ν.lookup (.execution id) = some x) :
    NotSince x id σ := by
  by_cases hid : id = k
  · subst hid
    cases h.after.symm.trans hx
    exact ⟨fun hs => ⟨d, h.before, hstarted ▸ hs⟩, fun hc => ⟨d, h.before, hstate hc⟩⟩
  · exact notSince_refl ((h.rest _ fun heq => hid (Row.execution.inj heq)).symm.trans hx)

theorem Issues.notSince (h : Issues H σ ν k d) (hx : ν.lookup (.execution id) = some x) :
    NotSince x id σ := by
  by_cases hid : id = k
  · subst hid
    cases h.doc.symm.trans hx
    refine ⟨fun hs => absurd (h.notStarted.symm.trans hs) nofun, fun hc => ?_⟩
    exact absurd (h.prepared.symm.trans hc) nofun
  · exact notSince_refl ((h.others id hid).symm.trans hx)

/-- One commit while the binding names another epoch: no execution of this
epoch is started or committed. -/
theorem effect_fenced [H.CollisionFree] {op : Op} (hi : Inv H σ) (h : effect H True op σ ν)
    (hnot : ¬ Live σ owner epoch) (hd' : ν.lookup (.execution id) = some d')
    (howner : d'.owner = owner) (hepoch : d'.writerEpoch = epoch) : NotSince d' id σ := by
  subst howner hepoch
  cases op with
  | reserve =>
    obtain ⟨k, d, h⟩ := h
    exact h.notSince hd'
  | retry =>
    obtain ⟨k, d, h⟩ := h
    exact h.notSince hd'
  | replan =>
    obtain ⟨k, d, h⟩ := h
    exact h.notSince hd'
  | lookup => exact h.elim
  | evidence => exact h.elim
  | beginPrepare s e =>
    obtain ⟨d, hsets, hpermits, _, _, hlive⟩ := h
    by_cases hid : id = e.key H
    · subst hid
      cases hsets.after.symm.trans hd'
      obtain ⟨ho, hep⟩ := (hi _ d hsets.before).identity hpermits.valid
      exact absurd (hlive trivial) (by rw [← ho, ← hep]; exact hnot)
    · exact notSince_refl ((hsets.rest _ fun heq => hid (Row.execution.inj heq)).symm.trans hd')
  | abortOnce s e =>
    obtain ⟨d, hsets, _, _⟩ := h
    exact hsets.notSince rfl nofun hd'
  | reconcileOnce =>
    obtain ⟨e, d, hsets, _, _⟩ := h
    exact hsets.notSince rfl nofun hd'
  | recordHalf =>
    obtain ⟨d, i, w, now, haudits, _⟩ := h
    exact haudits.sets.notSince rfl (fun hc => hc) hd'
  | recordFinal =>
    obtain ⟨d, i, w, now, haudits, _⟩ := h
    exact haudits.sets.notSince rfl (fun hc => hc) hd'
  | recordRecoveryFinal =>
    obtain ⟨d, i, w, now, haudits, _⟩ := h
    exact haudits.sets.notSince rfl (fun hc => hc) hd'
  | rootTransaction steps commits =>
    rcases h.execution id with hsame | ⟨s, e, d, d1, _, hd1, he⟩
    · exact notSince_refl (hsame.symm.trans hd')
    · cases hd1.symm.trans hd'
      have hlive := he.live trivial
      obtain ⟨ho, hep⟩ := (he.key ▸ hi id d he.before).identity he.permits.valid
      have hfields := he.doc.step.fields
      rw [hfields] at hnot
      exact absurd hlive (by rw [← ho, ← hep]; exact hnot)
  | rotate => exact notSince_refl ((h _ fun _ => Row.noConfusion).symm.trans hd')

theorem step_fenced [H.CollisionFree] (h : Reach .snapshot (program H) Quiesced Installed s)
    (hs : Step .snapshot (program H) s s') (hnot : ¬ Live s.db owner epoch)
    (hd' : s'.db.lookup (.execution id) = some d') (howner : d'.owner = owner)
    (hepoch : d'.writerEpoch = epoch) :
    s'.db = s.db ∨ Trans H s.db s'.db ∧ NotSince d' id s.db := by
  have hkeeps := Reach.keeps (sound_quiesced H) (guarantees H True) h
  rcases Step.mayLeave hs with hsame | ⟨op, hleave⟩
  · exact .inl hsame
  rcases hkeeps.mayLeave (Reach.good (sound_quiesced H) h) hleave with
    hsame | ⟨htrans, hsame | heffect⟩
  · exact .inl hsame
  · exact .inl hsame
  · exact .inr ⟨htrans, effect_fenced (Reach.inv (sound_quiesced H) h) heffect hnot hd'
      howner hepoch⟩

/-- **The epoch is a fence where it changes at rest.** From a state whose
binding does not name the epoch, and for as long as it does not: an execution
of that epoch is started, or committed, only if it was before. -/
theorem epochs_are_fenced_at_rest [H.CollisionFree]
    (h : Reach .snapshot (program H) Quiesced Installed s) {owner epoch : String}
    (hnot : ¬ Live s.db owner epoch) (hruns : RunsBy .snapshot (program H)
      (fun a b => Quiesced a b ∧ ¬ Live b.db owner epoch) s s') :
    ∀ id, ∀ d' : ExecutionDoc, s'.db.lookup (.execution id) = some d' → d'.owner = owner →
      d'.writerEpoch = epoch → NotSince d' id s.db := by
  suffices hall : Reach .snapshot (program H) Quiesced Installed s' ∧ ¬ Live s'.db owner epoch ∧
      ∀ id, ∀ d' : ExecutionDoc, s'.db.lookup (.execution id) = some d' → d'.owner = owner →
        d'.writerEpoch = epoch → NotSince d' id s.db from hall.2.2
  induction hruns with
  | refl => exact ⟨h, hnot, fun id d hd _ _ => notSince_refl hd⟩
  | @tail a b _ hs ih =>
    obtain ⟨hreach, hnota, ih⟩ := ih
    refine ⟨hreach.step hs.1 hs.2.1, hs.2.2, fun id d' hd' howner hepoch => ?_⟩
    rcases step_fenced hreach hs.1 hnota hd' howner hepoch with hsame | ⟨htrans, hsince⟩
    · exact ih id d' (hsame ▸ hd') howner hepoch
    · have hback : ∀ d : ExecutionDoc, a.db.lookup (.execution id) = some d →
          NotSince d id s.db := by
        intro d hd
        obtain ⟨d1, hd1, hstep⟩ := htrans.kept id d hd
        cases hd'.symm.trans hd1
        rw [hstep.fields] at howner hepoch
        exact ih id d hd howner hepoch
      refine ⟨fun hstarted => ?_, fun hcommitted => ?_⟩
      · obtain ⟨d, hd, hds⟩ := hsince.started hstarted
        exact (hback d hd).started hds
      · obtain ⟨d, hd, hdc⟩ := hsince.committed hcommitted
        exact (hback d hd).committed hdc

/-- Where no operation that checks an epoch is ever started, bindings always
change at rest. -/
theorem quiesced_of_none
    (h : Reach .snapshot (program H)
      (StartsWhen (program H) fun op _ => ∀ owner, ¬ op.checksEpochOf owner) Installed s) :
    Reach .snapshot (program H) Quiesced Installed s := by
  induction h with
  | start h => exact .start h
  | step hr hs _ ih =>
    have hprocs : ∀ s, Reach .snapshot (program H)
        (StartsWhen (program H) fun op _ => ∀ owner, ¬ op.checksEpochOf owner) Installed s →
        ∀ p pr, s.procs p = some pr → ∀ owner, ¬ pr.call.checksEpochOf owner := by
      intro s hs
      exact Reach.calls (P := fun (op : Op) _ => ∀ owner, ¬ op.checksEpochOf owner)
        (fun _ _ _ hcall _ => hcall) (fun s p call hp hok => hok p call hp rfl) hs
    refine ih.step hs fun owner _ => ⟨fun p pr hp _ _ => hprocs _ hr p pr hp owner, ?_⟩
    exact fun o ho _ => Reach.orphanCalls (P := fun op : Op => ∀ owner, ¬ op.checksEpochOf owner)
      hprocs hr o ho owner

namespace Sample

open Transaction.Sample

def installed : Collections := AList.singleton (.binding "o") (⟨"d", "E", 1⟩ : BindingDoc)

theorem installed_spec : Installed installed := by
  intro r hr
  exact lookup_singleton_ne _ (hr "o")

def clockAt (clock : Nat) : World NoAnswer := ⟨clock, 1, nofun⟩

def reserved (operation key : String) : World NoAnswer × Op :=
  (clockAt 1, .reserve store (.ok ()) 0 (requestFor (plan operation key)) (plan operation key)
    options)

def execution (operation key : String) : Execution :=
  ⟨plan operation key, 1, "E", 1, 2000000⟩

def rotated : World NoAnswer × Op :=
  (clockAt 1, .rotate "o" fun b => { b with writerEpoch := "F" })

end Sample

open Sample

theorem not_live {b : BindingDoc} (hb : σ.lookup (.binding owner) = some b)
    (hne : b.writerEpoch ≠ epoch) : ¬ Live σ owner epoch := by
  rintro ⟨b', hb', hepoch⟩
  cases hb.symm.trans hb'
  exact hne hepoch

def Sample.prepare : Op := .beginPrepare store (execution "x" "k")

set_option maxRecDepth 100000 in
/-- An execution reserved before its epoch ended: a later `BeginPrepare` of the
old epoch runs to its refusal and has not started it. -/
theorem epochs_are_fenced_at_rest_rotated :
    ∃ s s' : StoreSystem, Reach .snapshot (program default) Quiesced Installed s ∧
      ¬ Live s.db "o" "E" ∧ RunsBy .snapshot (program default)
        (fun a b => Quiesced a b ∧ ¬ Live b.db "o" "E") s s' ∧
      s'.procs 2 = some ⟨prepare, .ret (), none⟩ ∧
      (solo .snapshot (clockAt 1) (beginPrepare default store
        (Sample.execution "x" "k")).run s.db none).value = .error .binding ∧
      ∃ id, ∃ d : ExecutionDoc, s'.db.lookup (.execution id) = some d ∧ d.writerEpoch = "E" ∧
        NotSince d id s.db := by
  obtain ⟨s, s', hr, hdb, hdb', hruns, hend⟩ := reach_refused .snapshot (program default)
    (fun op _ => ∀ owner, ¬ op.checksEpochOf owner) installed_spec
    [reserved "x" "k", rotated] ⟨fun _ h => h, fun _ h => h, trivial⟩
    (clockAt 1) prepare (by decide +kernel)
  have hrows : (∃ b ∈ (s.db.lookup (.binding "o") : Option BindingDoc), b.writerEpoch = "F") ∧
      (∃ d ∈ (s.db.lookup (.execution ((Sample.execution "x" "k").key default)) :
        Option ExecutionDoc), d.owner = "o" ∧ d.writerEpoch = "E") ∧
      (solo .snapshot (clockAt 1) (beginPrepare default store
        (Sample.execution "x" "k")).run s.db none).value = .error .binding := by
    rw [hdb]
    decide +kernel
  obtain ⟨⟨b, hb, hF⟩, ⟨d, hd, howner, hE⟩, hrefused⟩ := hrows
  have hnot : ¬ Live s.db "o" "E" := not_live hb (by rw [hF]; decide)
  have hwhile : RunsBy .snapshot (program default)
      (fun a b => Quiesced a b ∧ ¬ Live b.db "o" "E") s s' :=
    hruns _ fun _ _ ha hb => ⟨fun _ hne => absurd (by rw [ha, hb]) hne, hb ▸ hnot⟩
  rw [← hdb'] at hd
  refine ⟨s, s', quiesced_of_none hr, hnot, hwhile, hend, hrefused, _, d, hd, hE, ?_⟩
  exact epochs_are_fenced_at_rest (quiesced_of_none hr) hnot hwhile _ d hd howner hE

namespace Sample

@[irreducible]
def before : Collections := (serve .snapshot (program default) 0 [reserved "x" "k"] installed).1

@[irreducible]
def checked : After Val NoAnswer (Prog Val NoAnswer Unit) :=
  pause .snapshot (clockAt 1) 1 (program default prepare) before none

@[irreducible]
def overtaken : Collections := (solo .snapshot (clockAt 1) (program default rotated.2)
  checked.db none).db

@[irreducible]
def started : Collections := (pause .snapshot (clockAt 1) 1 checked.value overtaken none).db

end Sample

set_option maxRecDepth 100000 in
/-- **The epoch may be overtaken.** `BeginPrepare` reads the binding, the host
commits another epoch, and then `BeginPrepare` starts the execution. -/
theorem epoch_overtaken :
    ∃ s s' : StoreSystem, Served default s ∧ Step .snapshot (program default) s s' ∧
      ¬ Live s.db "o" "E" ∧ ¬ Live s'.db "o" "E" ∧
      ∃ id, ∃ d d' : ExecutionDoc, s.db.lookup (.execution id) = some d ∧
        s'.db.lookup (.execution id) = some d' ∧ d'.owner = "o" ∧ d'.writerEpoch = "E" ∧
        d.prepareStarted = false ∧ d'.prepareStarted = true := by
  obtain ⟨s0, hr0, hidle0, hfree0, hdb0, _⟩ := reach_serve .snapshot (program default)
    (fun _ _ => True) installed_spec [reserved "x" "k"] (mayServe_true _ _ _ _ _ _)
  have hserved0 : Served default s0 := hr0.mono fun _ _ _ => trivial
  replace hdb0 : s0.db = before := by
    delta before
    exact hdb0
  -- the call starts and reads the binding
  obtain ⟨s1, hruns1, hidle1, hp1, hsame1, hdb1⟩ := runs_started .snapshot (program default)
    (clockAt 1) prepare 1 hidle0 (hfree0 1 (Nat.le_refl 1)) rfl
  rw [hdb0] at hp1 hdb1
  replace hdb1 : s1.db = checked.db := by
    delta checked
    exact hdb1
  -- the epoch changes
  have hfree1 : s1.procs 2 = none := (hsame1 2 (by decide)).trans (hfree0 2 (by decide))
  have hany : FreeBetween .snapshot (program default) (fun _ _ _ => True) anyStep :=
    fun _ _ _ _ _ => trivial
  obtain ⟨s2, hruns2, hidle2, hsame2, hdb2, _⟩ := runs_call hany (clockAt 1)
    rotated.2 hidle1 hfree1 trivial fun _ _ _ => trivial
  rw [hdb1] at hdb2
  replace hdb2 : s2.db = Sample.overtaken := by
    delta Sample.overtaken
    exact hdb2
  have hp2 : s2.procs 1 = some ⟨prepare, checked.value, none⟩ := by
    delta checked
    exact (hsame2 1 (by decide)).trans hp1
  -- the call goes on
  have hrows : (∃ b ∈ (Sample.overtaken.lookup (.binding "o") : Option BindingDoc),
        b.writerEpoch = "F") ∧
      (∃ b ∈ (Sample.started.lookup (.binding "o") : Option BindingDoc), b.writerEpoch = "F") ∧
      ∃ d ∈ (Sample.overtaken.lookup (.execution ((Sample.execution "x" "k").key default)) :
          Option ExecutionDoc),
        ∃ d' ∈ (Sample.started.lookup (.execution ((Sample.execution "x" "k").key default)) :
          Option ExecutionDoc), d'.owner = "o" ∧ d'.writerEpoch = "E" ∧
          d.prepareStarted = false ∧ d'.prepareStarted = true := by
    decide +kernel
  obtain ⟨⟨b, hb, hF⟩, ⟨b', hb', hF'⟩, d, hd, d', hd', howner, hepoch, hd0, hd1⟩ := hrows
  rw [← hdb2] at hb hd
  cases hrest : checked.value with
  | ret a =>
    have hstep : Sample.started = Sample.overtaken := by
      delta Sample.started
      rw [hrest]
      rfl
    rw [hstep, ← hdb2, hd] at hd'
    cases hd'
    rw [hd0] at hd1
    cases hd1
  | step st k =>
    rw [hrest] at hp2
    have hstep := step_exec .snapshot (program default) (clockAt 1) (hidle2.quiet 1) hp2 nofun
    have hstarted : (exec .snapshot (clockAt 1) s2.db none st).db = Sample.started := by
      delta Sample.started
      rw [hrest, hdb2]
      rfl
    rw [hstarted] at hstep
    refine ⟨s2, _, (hserved0.runs hruns1).runs hruns2.runs, hstep, not_live hb (by rw [hF]; decide),
      not_live hb' (by rw [hF']; decide), _, d, d', hd, hd', howner, hepoch, hd0, hd1⟩

end ReliableMessaging.Mongo
