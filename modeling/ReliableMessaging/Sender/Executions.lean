import ReliableMessaging.Sender.Decisions

/-!
# Requests, executions and witnesses over whole runs

Three consequences of the contract for the rows themselves: a request has one
execution for each fence and at most one of them is ever committed; the
witnesses of an execution are its plan's references and always in its state,
which ends once; and after the binding has moved to another epoch, nothing of
the old epoch is started, committed or inserted.
-/

namespace ReliableMessaging.Sender

open Transaction TxLang MySql Sample

variable {H : Sha256} {s s' : System} {σ ν : Tables}

/-! ## Requests -/

def Filed (σ : Tables) (rk k : Bytes) (e : ExecutionRow) : Prop :=
  σ.lookup (.execution k) = some e ∧ e.requestKey = rk

variable {rk k : Bytes} {e : ExecutionRow}

theorem Filed.later (h : Filed σ rk k e) (hl : Later (protocol H) σ ν) :
    ∃ e' : ExecutionRow, Filed ν rk k e' ∧ (e.state = .committed → e'.state = .committed) := by
  obtain ⟨e', he', hlater⟩ := later_execution hl h.1
  have hcols := hlater.columns
  refine ⟨e', ⟨he', ?_⟩, fun hc => ?_⟩
  · rw [hcols]
    exact h.2
  · rw [hlater.ended (hc ▸ State.noConfusion), hc]

theorem committed_active (hi : Inv H σ) {q : RequestRow} (hq : σ.lookup (.request rk) = some q)
    (he : Filed σ rk k e) (hc : e.state = .committed) : k = q.activeExecution := by
  obtain ⟨a, ha⟩ := hi.request rk q hq
  obtain ⟨hle, hlast⟩ := ha.upto k e he.1 he.2
  rcases Nat.lt_or_eq_of_le hle with hlt | heq
  · rw [ha.older k e he.1 he.2 hlt] at hc
    cases hc
  · exact hlast heq

/-- **At most one committed execution per request.** The executions filed
under a request have the fences `1..n`, one each; the active one has fence
`n`, and all others are aborted. So two executions of one request that are
ever committed are one. -/
theorem one_execution_committed [H.CollisionFree] (hr : Reachable H s) :
    (∀ k (e : ExecutionRow), s.db.lookup (.execution k) = some e →
      ∃ q : RequestRow, s.db.lookup (.request e.requestKey) = some q ∧
        q.request = requestFor e.plan) ∧
    ∀ rk (q : RequestRow), s.db.lookup (.request rk) = some q →
      (∃ n, 0 < n ∧
        (∀ f, (∃ k e, Filed s.db rk k e ∧ e.fence = f) ↔ 1 ≤ f ∧ f ≤ n) ∧
        (∃ a, Filed s.db rk q.activeExecution a ∧ a.fence = n) ∧
        ∀ k e, Filed s.db rk k e → e.fence < n → e.state = .aborted) ∧
      (∀ k k' e e', Filed s.db rk k e → Filed s.db rk k' e' → e.fence = e'.fence → k = k') ∧
      ∀ s', Runs .readCommitted (code H) s s' → ∀ k k' e e', Filed s.db rk k e →
        e.state = .committed → Filed s'.db rk k' e' → e'.state = .committed → k = k' := by
  have hi := hr.inv
  refine ⟨hi.filed, fun rk q hq => ⟨?_, ?_, ?_⟩⟩
  · obtain ⟨a, ha⟩ := hi.request rk q hq
    have hpos := (hi.execution _ a ha.active).fence.1
    refine ⟨a.fence, hpos, fun f => ⟨?_, ?_⟩, ⟨a, ⟨ha.active, ha.own⟩, rfl⟩, ?_⟩
    · rintro ⟨k, e, he, rfl⟩
      exact ⟨(hi.execution k e he.1).fence.1, (ha.upto k e he.1 he.2).1⟩
    · rintro ⟨hlo, hup⟩
      obtain ⟨k, e, he, hown, hf⟩ := ha.every f hlo hup
      exact ⟨k, e, ⟨he, hown⟩, hf⟩
    · intro k e he hlt
      exact ha.older k e he.1 he.2 hlt
  · intro k k' e e' he he' hf
    exact hi.perFence k k' e e' he.1 he'.1 (he.2.trans he'.2.symm) hf
  · intro s' hruns k k' e e' he hc he' hc'
    have hi' := (hr.runs hruns).inv
    obtain ⟨e1, he1, hkeep⟩ := he.later (hr.later hruns)
    obtain ⟨q', hq', _⟩ := hi'.filed k' e' he'.1
    rw [he'.2] at hq'
    rw [committed_active hi' hq' he1 (hkeep hc), committed_active hi' hq' he' hc']

set_option maxRecDepth 100000 in
/-- A request whose first execution was aborted and whose second committed. -/
theorem one_execution_committed_retried :
    ∃ s, Reachable default s ∧ ∃ (rk : Bytes) (q : RequestRow),
      s.db.lookup (.request rk) = some q ∧
      (∃ a, Filed s.db rk q.activeExecution a ∧ a.fence = 2 ∧ a.state = .committed) ∧
      ∃ n, 0 < n ∧ (∀ f, (∃ k e, Filed s.db rk k e ∧ e.fence = f) ↔ 1 ≤ f ∧ f ≤ n) := by
  obtain ⟨s, hr, _, hdb, _⟩ := reachable_served default installed_spec
    [reserve "x" "k", (world .committed, .abortOnce store
      (execution "x" "k" 1)), (world .committed, .retry store
      (execution "x" "k" 1) options), commitRoot (execution "x" "k" 2)]
  have hrows : ∃ q ∈ (s.db.lookup (.request ((requestFor (plan "x" "k")).keyDigest default)) :
      Option RequestRow), ∃ a ∈ (s.db.lookup (.execution q.activeExecution) : Option ExecutionRow),
      a.requestKey = (requestFor (plan "x" "k")).keyDigest default ∧ a.fence = 2 ∧
      a.state = .committed := by
    rw [hdb]
    decide +kernel
  obtain ⟨q, hq, a, ha, hown, hfence, hstate⟩ := hrows
  obtain ⟨n, hn, hfences, _⟩ := ((one_execution_committed hr).2 _ q hq).1
  exact ⟨s, hr, _, q, hq, ⟨a, ⟨ha, hown⟩, hfence, hstate⟩, n, hn, hfences⟩

/-! ## Witnesses -/

theorem witness_branch_unique [H.CollisionFree] (hi : Inv H σ) {b : Bytes} {w : WitnessRow}
    (he : σ.lookup (.execution k) = some e) (hw : σ.lookup (.witness k b) = some w) :
    ∃! br, br ∈ e.plan.input.branches ∧ branchKey H br.id = b := by
  obtain ⟨e', he', br, hbr, hb⟩ := hi.witness k b w hw
  cases he.symm.trans he'
  refine ⟨br, ⟨hbr, hb⟩, ?_⟩
  rintro br' ⟨hbr', hb'⟩
  have hplan := (hi.execution k e he).plan
  have hid : br'.id = br.id := branchKey_inj (hb'.trans hb.symm)
  have hfind := e.plan.find_branch hplan hbr'
  rw [hid, e.plan.find_branch hplan hbr] at hfind
  exact (Option.some.inj hfind).symm

/-- A bound execution is prepared, and the transaction that bound it holds it. -/
theorem Reachable.bound [H.CollisionFree] (hr : Reachable H s)
    (hs : Step .readCommitted (code H) s s') {p : Nat} {e : Execution} {ans : Option Unit}
    (hlog : s'.log = s.log ++ [(p, .called (.bound e) ans)]) :
    ∃ row : ExecutionRow, s'.Holding p (.execution (e.key H)) ∧
      s'.db.lookup (.execution (e.key H)) = some row ∧ row.state = .prepared := by
  have hg := Reach.good (sound H) hr
  obtain ⟨pr, hp, t, row, ht, hholds, hrow, hprepared, _⟩ := hg.step_called hs hlog
  exact ⟨row, ⟨pr, t, hp, ht, hholds⟩, hrow, hprepared⟩

/-- **Witnesses agree with their execution, and states end once.** Every
execution has exactly one witness for each branch of its plan, with that
branch's reference and in the execution's state. The state moves only from
prepared to committed or to aborted, and then never again. After an abort no
root transaction binds the execution; and from a successful `Bind` for as long
as its root transaction is open, or is a commit in doubt that holds the row, the
committed execution stays prepared, so no abort succeeds in between. -/
theorem witnesses_agree_and_states_end [H.CollisionFree] (hr : Reachable H s) :
    (∀ k (e : ExecutionRow), s.db.lookup (.execution k) = some e →
      (∀ br ∈ e.plan.input.branches, ∃ w : WitnessRow,
        s.db.lookup (.witness k (branchKey H br.id)) = some w ∧
        w.reference = e.plan.referenceOf H e.fence e.writerEpoch br ∧ w.state = e.state) ∧
      ∀ b (w : WitnessRow), s.db.lookup (.witness k b) = some w →
        ∃! br, br ∈ e.plan.input.branches ∧ branchKey H br.id = b) ∧
    (∀ k b (w : WitnessRow), s.db.lookup (.witness k b) = some w →
      ∃ e : ExecutionRow, s.db.lookup (.execution k) = some e) ∧
    (∀ k (e : ExecutionRow), s.db.lookup (.execution k) = some e →
      ∀ s', Runs .readCommitted (code H) s s' →
        (∃ e' : ExecutionRow, s'.db.lookup (.execution k) = some e' ∧ e'.plan = e.plan ∧
          (e'.state = e.state ∨
            e.state = .prepared ∧ (e'.state = .committed ∨ e'.state = .aborted))) ∧
        (e.state = .aborted → ∀ s'' p e0 ans, Step .readCommitted (code H) s' s'' →
          s''.log = s'.log ++ [(p, .called (.bound e0) ans)] → e0.key H ≠ k)) ∧
    ∀ s1 s2 s3 p e ans, Step .readCommitted (code H) s s1 →
      s1.log = s.log ++ [(p, .called (.bound e) ans)] →
      RunsWhile .readCommitted (code H) (Sys.Open p) s1 s2 →
      RunsWhile .readCommitted (code H) (Sys.Locked (.execution (e.key H))) s2 s3 →
      ∃ row : ExecutionRow, s1.db.lookup (.execution (e.key H)) = some row ∧
        s3.db.lookup (.execution (e.key H)) = some row ∧ row.state = .prepared := by
  have hi := hr.inv
  refine ⟨fun k e he => ⟨(hi.execution k e he).witness, fun b w hw =>
    witness_branch_unique hi he hw⟩, fun k b w hw => ?_, fun k e he s' hruns => ⟨?_, ?_⟩, ?_⟩
  · obtain ⟨e, he, _⟩ := hi.witness k b w hw
    exact ⟨e, he⟩
  · obtain ⟨e', he', hlater⟩ := later_execution (hr.later hruns) he
    have hcols := hlater.columns
    refine ⟨e', he', by rw [hcols], ?_⟩
    cases hst : e.state with
    | prepared =>
      cases hst' : e'.state with
      | prepared => exact .inl rfl
      | committed => exact .inr ⟨rfl, .inl rfl⟩
      | aborted => exact .inr ⟨rfl, .inr rfl⟩
    | committed => exact .inl ((hlater.ended (hst ▸ State.noConfusion)).trans hst)
    | aborted => exact .inl ((hlater.ended (hst ▸ State.noConfusion)).trans hst)
  · rintro haborted s'' p e0 ans hs hlog rfl
    have hruns' := hruns.tail hs
    obtain ⟨e', he', hlater⟩ := later_execution (hr.later hruns') he
    obtain ⟨row, _, hrow, hprepared⟩ := (hr.runs hruns).bound hs hlog
    cases he'.symm.trans hrow
    rw [hlater.ended (haborted ▸ State.noConfusion), haborted] at hprepared
    cases hprepared
  · intro s1 s2 s3 p e ans hs hlog hopen hlocked
    obtain ⟨row, hholding, hrow, hprepared⟩ := hr.bound hs hlog
    have hkept := kept_while_locked (sound H) (hr.step hs) ((hholding.locked hopen).2.trans hlocked)
    exact ⟨row, hrow, hkept.trans hrow, hprepared⟩

set_option maxRecDepth 100000 in
/-- A committed execution, and its witness with it. -/
theorem witnesses_agree_and_states_end_committed :
    ∃ s, Reachable default s ∧ ∃ (k : Bytes) (e : ExecutionRow),
      s.db.lookup (.execution k) = some e ∧ e.state = .committed ∧
      ∀ br ∈ e.plan.input.branches, ∃ w : WitnessRow,
        s.db.lookup (.witness k (branchKey default br.id)) = some w ∧ w.state = .committed := by
  obtain ⟨s, hr, _, hdb, _⟩ := reachable_served default installed_spec
    [reserve "x" "k", commitRoot (execution "x" "k" 1)]
  have hrow : ∃ e ∈ (s.db.lookup (.execution ((execution "x" "k" 1).key default)) :
      Option ExecutionRow), e.state = .committed := by
    rw [hdb]
    decide +kernel
  obtain ⟨e, he, hstate⟩ := hrow
  refine ⟨s, hr, _, e, he, hstate, fun br hbr => ?_⟩
  obtain ⟨w, hw, _, hwstate⟩ := ((witnesses_agree_and_states_end hr).1 _ e he).1 br hbr
  exact ⟨w, hw, hwstate.trans hstate⟩

/-! ## Writer epochs -/

/-- One commit while the binding names another epoch: no execution of this
epoch is inserted, started or committed. -/
theorem Trans.fenced (h : Trans H σ ν) {owner epoch : String} (hnot : ¬ Live σ owner epoch)
    {e' : ExecutionRow} (he' : ν.lookup (.execution k) = some e') (howner : e'.owner = owner)
    (hepoch : e'.writerEpoch = epoch) :
    ∃ e : ExecutionRow, σ.lookup (.execution k) = some e ∧
      e'.prepareStarted = e.prepareStarted ∧ (e'.state = .committed → e.state = .committed) ∧
      e.owner = owner ∧ e.writerEpoch = epoch := by
  subst howner
  subst hepoch
  have hissued : ∀ {x : Execution}, Issued H x σ ν → σ.lookup (.execution k) = some e' := by
    intro x hx
    rcases hx.cases he' with ⟨_, rfl⟩ | ⟨_, hold⟩
    · exact absurd hx.live hnot
    · exact hold
  cases h with
  | evolve h =>
    obtain ⟨e, he, hstep⟩ := (h.key k).back he'
    obtain ⟨_, ho, _, hep, _⟩ := hstep.fixed
    rw [ho, hep] at hnot
    refine ⟨e, he, ?_, fun hc => ?_, ho.symm, hep.symm⟩
    · rcases hstep.started with hsame | ⟨_, _, hlive⟩
      · exact hsame
      · exact absurd hlive hnot
    · rcases hstep.state with hsame | ⟨_, ha | ⟨_, hlive⟩⟩
      · exact hsame.symm.trans hc
      · rw [ha] at hc
        cases hc
      · exact absurd hlive hnot
  | reserve _ h => exact ⟨e', hissued h, rfl, fun hc => hc, rfl, rfl⟩
  | advance _ _ _ h => exact ⟨e', hissued h, rfl, fun hc => hc, rfl, rfl⟩
  | rotate h =>
    exact ⟨e', (h _ fun _ => Row.noConfusion).symm.trans he', rfl, fun hc => hc, rfl, rfl⟩

/-- A system whose steps are transitions, for as long as the binding names
another epoch. -/
theorem fenced_while {Ev Call : Type} {Ans : Ev → Type} {code : Call → Prog Val Ans Unit}
    {s s' : Sys Val Ans Call} (htrans : ∀ a b, Runs .readCommitted code s a →
      Step .readCommitted code a b → b.db = a.db ∨ Trans H a.db b.db)
    {owner epoch : String} (hnot : ¬ Live s.db owner epoch)
    (hruns : RunsWhile .readCommitted code (fun s' => ¬ Live s'.db owner epoch) s s')
    {e' : ExecutionRow} (he' : s'.db.lookup (.execution k) = some e') (howner : e'.owner = owner)
    (hepoch : e'.writerEpoch = epoch) :
    ∃ e : ExecutionRow, s.db.lookup (.execution k) = some e ∧
      e'.prepareStarted = e.prepareStarted ∧ (e'.state = .committed → e.state = .committed) := by
  -- from the end of the run backwards, so that the row is that of the later state
  induction hruns generalizing e' with
  | refl => exact ⟨e', he', rfl, fun hc => hc⟩
  | @tail a b hab hs ih =>
    have hnota : ¬ Live a.db owner epoch := by
      cases hab with
      | refl => exact hnot
      | tail _ hlast => exact hlast.2
    rcases htrans a b (RunsBy.runs hab) hs.1 with hsame | htrans
    · exact ih (hsame ▸ he') howner hepoch
    · obtain ⟨e, he, hstarted, hcommitted, ho, hep⟩ := Trans.fenced htrans hnota he' howner hepoch
      obtain ⟨e0, he0, hstarted0, hcommitted0⟩ := ih he ho hep
      exact ⟨e0, he0, hstarted.trans hstarted0, fun hc => hcommitted0 (hcommitted hc)⟩

/-- **Writer epochs are fenced.** From a state whose binding row does not name
the epoch, for as long as it does not: every execution of that epoch was there
before, has not had its preparation started since, and is committed only if it
was. -/
theorem old_epoch_writes_nothing [H.CollisionFree] (hr : Reachable H s) {owner epoch : String}
    (hnot : ¬ Live s.db owner epoch)
    (hruns : RunsWhile .readCommitted (code H) (fun s' => ¬ Live s'.db owner epoch) s s')
    {k : Bytes} {e' : ExecutionRow} (he' : s'.db.lookup (.execution k) = some e')
    (howner : e'.owner = owner) (hepoch : e'.writerEpoch = epoch) :
    ∃ e : ExecutionRow, s.db.lookup (.execution k) = some e ∧
      e'.prepareStarted = e.prepareStarted ∧
      (e'.state = .committed → e.state = .committed) :=
  fenced_while (fun _ _ hab hs => (Reach.good (sound H) (hr.runs hab)).step_trans hs) hnot hruns he'
    howner hepoch

theorem not_live {owner epoch : String} {b : BindingRow} (hb : σ.lookup (.binding owner) = some b)
    (hne : b.writerEpoch ≠ epoch) : ¬ Live σ owner epoch := by
  rintro ⟨b', hb', hepoch⟩
  cases hb.symm.trans hb'
  exact hne hepoch

set_option maxRecDepth 100000 in
/-- An execution reserved before its epoch ended: a later `BeginPrepare` of
the old epoch runs to its refusal and has not started it. -/
theorem old_epoch_writes_nothing_rotated :
    ∃ s s' : System, Reachable default s ∧ ¬ Live s.db "o" "E" ∧
      RunsWhile .readCommitted (code default) (fun s' => ¬ Live s'.db "o" "E") s s' ∧
      s'.procs 2 = some ⟨.beginPrepare store (execution "x" "k" 1), .ret (), none⟩ ∧
      (solo .readCommitted (world .committed) (beginPrepare default store
        (execution "x" "k" 1)).run s.db none).value = .error .binding ∧
      ∃ (k : Bytes) (e e' : ExecutionRow), s.db.lookup (.execution k) = some e ∧
        s'.db.lookup (.execution k) = some e' ∧ e'.writerEpoch = "E" ∧
        e'.prepareStarted = e.prepareStarted := by
  obtain ⟨s, s', hr, hdb, hdb', hruns, hend⟩ := reach_refused .readCommitted (code default)
    (fun _ _ => True) installed_spec [reserve "x" "k",
      (world .committed, .rotate "o" fun b => { b with writerEpoch := "F" })]
    (mayServe_true _ _ _ _ _ _) (world .committed)
    (.beginPrepare store (execution "x" "k" 1)) (by decide +kernel)
  have hrows : (∃ b ∈ (s.db.lookup (.binding "o") : Option BindingRow), b.writerEpoch = "F") ∧
      (∃ e ∈ (s.db.lookup (.execution ((execution "x" "k" 1).key default)) :
        Option ExecutionRow), e.owner = "o" ∧ e.writerEpoch = "E") ∧
      (solo .readCommitted (world .committed) (beginPrepare default store
        (execution "x" "k" 1)).run s.db none).value = .error .binding := by
    rw [hdb]
    decide +kernel
  obtain ⟨⟨b, hb, hF⟩, ⟨e', he', howner, hE⟩, hrefused⟩ := hrows
  have hnot : ¬ Live s.db "o" "E" := not_live hb (by rw [hF]; decide)
  have hr : Reachable default s := hr.mono fun _ _ _ => trivial
  have hwhile : RunsWhile .readCommitted (code default) (fun s' => ¬ Live s'.db "o" "E") s s' :=
    hruns _ fun _ b _ hb => (hb ▸ hnot : ¬ Live b.db "o" "E")
  rw [← hdb'] at he'
  obtain ⟨e, he, hstarted, _⟩ := old_epoch_writes_nothing hr hnot hwhile he' howner hE
  exact ⟨s, s', hr, hnot, hwhile, hend, hrefused, _, e, e', he, he', hE, hstarted⟩

end ReliableMessaging.Sender
