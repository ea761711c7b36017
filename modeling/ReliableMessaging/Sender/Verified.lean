import ReliableMessaging.Sender.Contract

/-!
# The sender, the checker and the host keep the contract

`execute` is proved along its own phases: what `BeginPrepare` established
lasts (`Stored`), the loop over the branches knows which half messages it has
sent and what their receipts were (`Preparing`), and every path that ends
half messages has a decision that the rows carry.
-/

namespace ReliableMessaging.Sender

open Transaction TxLang MySql List

variable {H : Sha256} {A : Tables → Tables → Prop} {s : Store} {e : Execution}
variable {c : Ctx Val Answer}

/-- The contract of a store whose clients run the protocol. -/
abbrev protocol (H : Sha256) : Spec Val Answer := contract H (allow H)

variable {α : Type} {st : State} {σ : Tables} {handles : List (Reference × Bool)} {r : Result}
variable {reported : Reported} {log log' : List (Entry Val Answer)} {ref : Reference}
variable {done : List Reference}

/-- A store operation inside the protocol: beside what is proved of it, the
rows move only by commits of the contract. -/
theorem wp_op {β : Type} {p : Prog Val Answer α} {f : α → Prog Val Answer β}
    {P : α → Ctx Val Answer → Prop} {Q : β → Ctx Val Answer → Prop} (hi : Inv H c.db)
    (hop : wp (protocol H) .readCommitted A p P c)
    (h : ∀ a c', P a c' → Inv H c'.db → Later (protocol H) c.db c'.db →
      wp (protocol H) .readCommitted A (f a) Q c') :
    wp (protocol H) .readCommitted A (p >>= f) Q c := by
  refine wp_bind (wp_mono ?_ (wp_moves hi hop))
  rintro a c' ⟨hP, hi', hlater⟩
  exact h a c' hP hi' hlater

theorem wp_ctxErr {f : Bool → Prog Val Answer α} {Q : α → Ctx Val Answer → Prop}
    (h : ∀ σ b ans, Later (protocol H) c.db σ → Inv H σ →
      wp (protocol H) .readCommitted A (f b) Q ⟨σ, c.tx, c.log ++ [.called .cancelled ans]⟩) :
    wp (protocol H) .readCommitted A (ctxErr >>= f) Q c := by
  refine wp_ask Event.cancelled fun σ henv hi => ⟨trivial, fun ans => ?_⟩
  exact h σ _ ans henv.later hi

/-! ## Evidence -/

def AllDecided (H : Sha256) (e : Execution) (st : State) (σ : Tables) : Prop :=
  ∀ ref ∈ e.references H, Decided H ref st σ

theorem AllDecided.later {ν : Tables} (h : AllDecided H e st σ) (hst : st ≠ .prepared)
    (hl : Later (protocol H) σ ν) : AllDecided H e st ν :=
  fun ref href => Decided.later (h ref href) hst hl

/-- Evidence for ended executions is still true when all of it is in. -/
theorem wp_readEvidence {refs : List Reference} (hnone : c.tx = none) (hi : Inv H c.db) :
    wp (protocol H) .readCommitted A (readEvidence H s refs) (fun r c' => c'.tx = none ∧
      Inv H c'.db ∧ Later (protocol H) c.db c'.db ∧
      ∀ evidence st, r = some evidence → st ≠ .prepared →
        (evidence = refs.map fun ref => some ⟨ref, st, st⟩) →
        ∀ ref ∈ refs, Decided H ref st c'.db) c := by
  induction refs generalizing c with
  | nil => exact ⟨hnone, hi, .refl, fun _ _ _ _ _ => nofun⟩
  | cons ref refs ih =>
    refine wp_op hi (wp_evidence hnone) fun r c1 ⟨hnone1, hread⟩ hi1 hl1 => ?_
    cases r with
    | error _ => exact ⟨hnone1, hi1, hl1, nofun⟩
    | ok value =>
      refine wp_bind (wp_mono ?_ (ih hnone1 hi1))
      rintro r c2 ⟨hnone2, hi2, hl2, hrest⟩
      cases r with
      | none => exact ⟨hnone2, hi2, hl1.trans hl2, nofun⟩
      | some rest =>
        refine ⟨hnone2, hi2, hl1.trans hl2, fun evidence st hev hst hall => ?_⟩
        cases hev
        rw [map_cons, List.cons.injEq] at hall
        obtain ⟨rfl, hall⟩ := hall
        intro ref' href'
        rcases mem_cons.mp href' with rfl | href'
        · exact Decided.later (hread st rfl) hst hl2
        · exact hrest rest st rfl hst hall ref' href'

/-- A local outcome that is known is one all references are decided for. -/
def Proved (H : Sha256) (e : Execution) (outcome : LocalOutcome) (σ : Tables) : Prop :=
  outcome ≠ .unknown → ∃ st, outcome.state = some st ∧ AllDecided H e st σ

theorem Proved.decided {outcome : LocalOutcome} (h : Proved H e outcome σ)
    (hst : outcome.state = some st) : AllDecided H e st σ := by
  have hknown : outcome ≠ .unknown := by
    rintro rfl
    cases hst
  obtain ⟨st', hst', hall⟩ := h hknown
  cases hst.symm.trans hst'
  exact hall

theorem wp_localProof (hnone : c.tx = none) (hi : Inv H c.db) :
    wp (protocol H) .readCommitted A (localProof H s e) (fun r c' => c'.tx = none ∧
      Inv H c'.db ∧ Later (protocol H) c.db c'.db ∧ Proved H e r.1 c'.db) c := by
  refine wp_bind (wp_mono ?_ (wp_readEvidence hnone hi))
  rintro r c1 ⟨hnone1, hi1, hl1, hread⟩
  cases r with
  | none => exact ⟨hnone1, hi1, hl1, fun h => absurd rfl h⟩
  | some evidence =>
    refine wp_ctxErr fun σ b ans hl2 hi2 => ?_
    cases b with
    | true => exact ⟨hnone1, hi2, hl1.trans hl2, fun h => absurd rfl h⟩
    | false =>
      refine ⟨hnone1, hi2, hl1.trans hl2, fun hknown => ?_⟩
      obtain ⟨st, hst⟩ := decideLocal_known hknown
      obtain ⟨_, hne, hall⟩ := decideLocal_spec hst
      exact ⟨st, hst, AllDecided.later (hread evidence st rfl hne hall) hne hl2⟩

/-! ## Ending half messages -/

theorem wp_finalize {d : Decision} {i : Nat} {done : Finished} (hnone : c.tx = none)
    (hi : Inv H c.db) (hd : d.state = some st) (hst : st ≠ .prepared)
    (hrefs : ∀ h ∈ handles, h.1 ∈ e.references H) (hall : AllDecided H e st c.db) :
    wp (protocol H) .readCommitted A (finalize H s e d handles i done) (fun _ _ => True) c := by
  induction handles generalizing c i done with
  | nil => trivial
  | cons h rest ih =>
    have hrest : ∀ h ∈ rest, h.1 ∈ e.references H :=
      fun h hh => hrefs h (mem_cons_of_mem _ hh)
    obtain ⟨ref, handle⟩ := h
    cases handle with
    | false => exact ih hnone hi hrest hall
    | true =>
      refine wp_ask (Event.finalize ref d) fun σ henv hi1 => ⟨?_, fun ans => ?_⟩
      · intro st' hd'
        cases hd.symm.trans hd'
        exact (hall.later hst henv.later) ref (hrefs _ mem_cons_self)
      · cases ans with
        | none => trivial
        | some acknowledged =>
          refine wp_op hi1 (wp_recordFinal hnone fun _ _ _ _ => trivial) fun r c2 hnone2 hi2 hl2 => ?_
          have hall2 := hall.later hst (henv.later.trans hl2)
          cases r with
          | error _ => exact ih hnone2 hi2 hrest hall2
          | ok _ => exact ih hnone2 hi2 hrest hall2

theorem wp_abortUnstarted [H.CollisionFree] (hnone : c.tx = none) (hi : Inv H c.db) (hf : e.Formed)
    (hs : Stored H e c.db) (hrefs : ∀ h ∈ handles, h.1 ∈ e.references H) :
    wp (protocol H) .readCommitted A (abortUnstarted H s e handles r) (fun _ _ => True) c := by
  refine wp_op hi (wp_abort hnone fun _ _ _ _ => trivial) fun res c1 ⟨hnone1, haborted⟩ hi1 hl1 => ?_
  match res with
  | .error _ => trivial
  | .ok true =>
    obtain ⟨row, hrow, hst⟩ := haborted rfl
    exact wp_finalize hnone1 hi1 rfl State.noConfusion hrefs
      (decided_of_stored hi1 hf (hs.later hl1) hrow hst)
  | .ok false =>
    refine wp_bind (wp_mono ?_ (wp_localProof hnone1 hi1))
    rintro ⟨proved, failed⟩ c2 ⟨hnone2, hi2, _, hproof⟩
    dsimp only
    split
    · trivial
    next hguard =>
      simp only [Bool.or_eq_true, decide_eq_true_eq, not_or, ne_eq, not_not] at hguard
      obtain ⟨_, rfl⟩ := hguard
      exact wp_finalize hnone2 hi2 rfl State.noConfusion hrefs (hproof.decided rfl)

theorem wp_abortReported [H.CollisionFree] {proof : LocalOutcome × Bool} (hnone : c.tx = none)
    (hi : Inv H c.db) (hf : e.Formed) (hs : Stored H e c.db) (hproof : Proved H e proof.1 c.db) :
    wp (protocol H) .readCommitted A (abortReported H s e reported proof) (fun known c' =>
      c'.tx = none ∧ Inv H c'.db ∧ Proved H e known.1 c'.db) c := by
  unfold abortReported
  split
  · exact ⟨hnone, hi, hproof⟩
  next hguard =>
    simp only [Bool.or_eq_true, decide_eq_true_eq, not_or, ne_eq, not_not] at hguard
    refine wp_op hi (wp_abort hnone fun _ _ _ _ => trivial) fun res c1 ⟨hnone1, haborted⟩ hi1 hl1 => ?_
    match res with
    | .ok true =>
      obtain ⟨row, hrow, haborted⟩ := haborted rfl
      exact ⟨hnone1, hi1, fun _ =>
        ⟨_, rfl, decided_of_stored hi1 hf (hs.later hl1) hrow haborted⟩⟩
    | .ok false => exact ⟨hnone1, hi1, fun h => absurd hguard.1 h⟩
    | .error _ => exact ⟨hnone1, hi1, fun h => absurd hguard.1 h⟩

theorem wp_conclude [H.CollisionFree] (hnone : c.tx = none) (hi : Inv H c.db) (hf : e.Formed)
    (hs : Stored H e c.db) (hrefs : ∀ h ∈ handles, h.1 ∈ e.references H) :
    wp (protocol H) .readCommitted A (conclude H s e handles r reported) (fun _ _ => True) c := by
  refine wp_bind (wp_mono ?_ (wp_localProof hnone hi))
  rintro proof c1 ⟨hnone1, hi1, hl1, hproof⟩
  refine wp_bind (wp_mono ?_ (wp_abortReported hnone1 hi1 hf (hs.later hl1) hproof))
  rintro ⟨known, failed⟩ c2 ⟨hnone2, hi2, hknown⟩
  dsimp only
  split
  · trivial
  next hunknown =>
    obtain ⟨st, hst, hall⟩ := hknown hunknown
    cases known with
    | aborted => cases hst; exact wp_finalize hnone2 hi2 rfl State.noConfusion hrefs hall
    | committed => cases hst; exact wp_finalize hnone2 hi2 rfl State.noConfusion hrefs hall
    | unknown => cases hst
    | notStarted => cases hst

/-! ## Preparing -/

theorem StartedIn.mono (h : StartedIn H e log) (hsub : log ⊆ log') : StartedIn H e log' := by
  obtain ⟨before, after, hmem, hstarts⟩ := h
  exact ⟨before, after, hsub hmem, hstarts⟩

theorem PreparedIn.mono (h : PreparedIn ref log) (hsub : log ⊆ log') : PreparedIn ref log' := by
  obtain ⟨wire, p, ans, hcalled, hgood, hrecorded⟩ := h
  exact ⟨wire, p, ans, hsub hcalled, hgood, hsub hrecorded⟩

/-- Where a run stands in its loop over the branches: `done` are the
references it has asked the broker to prepare. -/
structure Preparing (H : Sha256) (e : Execution) (done : List Reference)
    (c : Ctx Val Answer) : Prop where
  closed : c.tx = none
  inv : Inv H c.db
  stored : Stored H e c.db
  started : StartedIn H e c.log
  notRun : ∀ e' ans, Entry.called (.runLocal e') ans ∉ c.log
  asked : ∀ ref wire ans, Entry.called (.prepare ref wire) ans ∈ c.log → ref ∈ done
  prepared : ∀ ref ∈ done, PreparedIn ref c.log

theorem Preparing.cancelled (h : Preparing H e done c) (ans : Option Bool)
    (hl : Later (protocol H) c.db σ) (hi : Inv H σ) :
    Preparing H e done ⟨σ, c.tx, c.log ++ [.called .cancelled ans]⟩ := by
  have hsub : c.log ⊆ c.log ++ [.called .cancelled ans] := subset_append_left _ _
  refine ⟨h.closed, hi, h.stored.later hl, h.started.mono hsub, fun e' ans' hm => ?_,
    fun ref wire ans' hm => ?_, fun ref href => (h.prepared ref href).mono hsub⟩
  · rcases mem_append.mp hm with hm | hm
    · exact h.notRun e' ans' hm
    · simp at hm
  · rcases mem_append.mp hm with hm | hm
    · exact h.asked ref wire ans' hm
    · simp at hm

theorem Preparing.branch {wire : Bytes} {p : Prepared} {c' : Ctx Val Answer} {before after : Tables}
    {ans : Option Unit} (h : Preparing H e done c) (hnone : c'.tx = none) (hi : Inv H c'.db)
    (hl : Later (protocol H) c.db c'.db)
    (hlog : c'.log = c.log ++ [.called (.prepare ref wire) (some p), .committed before after,
      .called (.recorded ref p.receipt) ans])
    (hgood : p.good = true) : Preparing H e (done ++ [ref]) c' := by
  have hsub : c.log ⊆ c'.log := by
    rw [hlog]
    exact subset_append_left _ _
  refine ⟨hnone, hi, h.stored.later hl, h.started.mono hsub, fun e' ans' hm => ?_,
    fun ref' wire' ans' hm => ?_, fun ref' href' => ?_⟩
  · rw [hlog, mem_append] at hm
    rcases hm with hm | hm
    · exact h.notRun e' ans' hm
    · simp at hm
  · rw [hlog, mem_append] at hm
    rcases hm with hm | hm
    · exact mem_append_left _ (h.asked ref' wire' ans' hm)
    · simp only [mem_cons, Entry.called.injEq, Event.prepare.injEq, reduceCtorEq, false_and,
        not_mem_nil, or_false] at hm
      rw [hm.1.1]
      exact mem_append_right _ mem_cons_self
  · rcases mem_append.mp href' with href' | href'
    · exact (h.prepared ref' href').mono hsub
    · cases mem_singleton.mp href'
      refine ⟨wire, p, ans, ?_, hgood, ?_⟩
      · rw [hlog]
        simp
      · rw [hlog]
        simp

theorem wp_runBusiness [H.CollisionFree] (hf : e.Formed) (hp : Preparing H e (e.references H) c)
    (hrefs : ∀ h ∈ handles, h.1 ∈ e.references H) :
    wp (protocol H) .readCommitted A (runBusiness H s e handles r) (fun _ _ => True) c := by
  refine wp_ctxErr fun σ1 b ans hl1 hi1 => ?_
  have hp1 := hp.cancelled ans hl1 hi1
  cases b with
  | true => exact wp_abortUnstarted hp1.closed hp1.inv hf hp1.stored hrefs
  | false =>
    refine wp_ask (Event.runLocal e) fun σ2 henv2 hi2 => ⟨?_, fun reported => ?_⟩
    · exact ⟨hf, hp1.started, hp1.notRun, hp1.prepared⟩
    · cases reported with
      | none => trivial
      | some reported =>
        exact wp_conclude hp1.closed hi2 hf (hp1.stored.later henv2.later) hrefs

theorem wp_prepareBranches [H.CollisionFree] {todo : List (BranchInput × Reference)}
    (done : List Reference) (hf : e.Formed) (hp : Preparing H e done c)
    (hsplit : done ++ todo.map Prod.snd = e.references H)
    (hrefs : ∀ h ∈ handles, h.1 ∈ e.references H) :
    wp (protocol H) .readCommitted A (prepareBranches H s e todo handles r)
      (fun _ _ => True) c := by
  induction todo generalizing c done handles r with
  | nil =>
    rw [map_nil, append_nil] at hsplit
    exact wp_runBusiness hf (hsplit ▸ hp) hrefs
  | cons head rest ih =>
    obtain ⟨b, ref⟩ := head
    have href : ref ∈ e.references H := by
      rw [← hsplit]
      exact mem_append_right _ mem_cons_self
    refine wp_ctxErr fun σ1 cancelled ans hl1 hi1 => ?_
    have hp1 := hp.cancelled ans hl1 hi1
    cases cancelled with
    | true => exact wp_abortUnstarted hp1.closed hp1.inv hf hp1.stored hrefs
    | false =>
      refine wp_ask (Event.prepare ref b.wire) fun σ2 henv2 hi2 => ⟨?_, fun answer => ?_⟩
      · refine ⟨e, hf, hp1.started, href, fun ref' wire ans' hm heq => ?_⟩
        -- a reference of the same branch would occur twice in the plan
        have hnodup := references_branchIDs (H := H) hf
        rw [← hsplit, map_append, map_cons, nodup_append] at hnodup
        exact hnodup.2.2 _ (mem_map_of_mem (hp1.asked ref' wire ans' hm)) _
          mem_cons_self heq
      · cases answer with
        | none => trivial
        | some p =>
          have hs2 := hp1.stored.later henv2.later
          have hrefs' : ∀ h ∈ handles ++ [(ref, p.handle)], h.1 ∈ e.references H := by
            intro h hh
            rcases mem_append.mp hh with hh | hh
            · exact hrefs h hh
            · cases mem_singleton.mp hh
              exact href
          refine wp_op hi2 (wp_recordHalf hp1.closed fun _ _ _ => trivial) fun res c3 ⟨hnone3,
            hrec⟩ hi3 hl3 => ?_
          cases res with
          | error _ => exact wp_abortUnstarted hnone3 hi3 hf (hs2.later hl3) hrefs'
          | ok u =>
            obtain ⟨before, after, hlog, hrecorded⟩ := hrec u rfl
            dsimp only
            refine wp_ask (Event.recorded ref _) fun σ4 henv4 hi4 => ⟨?_, fun ans4 => ?_⟩
            · refine ⟨before, after, ?_, hrecorded⟩
              rw [hlog]
              exact mem_append_right _ mem_cons_self
            generalize hh : (if p.receipt.valid = true then p.receipt else
              (⟨.unknown, "", "", "invalid_half_receipt"⟩ : HalfReceipt)) = h
            split
            · exact wp_abortUnstarted hnone3 hi4 hf ((hs2.later hl3).later henv4.later) hrefs'
            next hguard =>
              simp only [Bool.or_eq_true, Bool.not_eq_true', decide_eq_true_eq, not_or,
                Bool.not_eq_true, Bool.not_eq_false, ne_eq, not_not] at hguard
              obtain ⟨⟨⟨hfailed, hvalid⟩, hout⟩, hhandle⟩ := hguard
              rw [if_pos hvalid] at hh
              subst hh
              have hgood : p.good = true := by
                simp [Prepared.good, hvalid, hout, hhandle, hfailed]
              refine ih (done ++ [ref]) ?_ ?_ hrefs'
              · have hlater := (henv2.later.trans hl3).trans henv4.later
                rw [append_assoc] at hlog
                rw [hlog, append_assoc]
                exact hp1.branch hnone3 hi4 hlater rfl hgood
              · rw [← hsplit, append_assoc]
                rfl

theorem wp_execute [H.CollisionFree] (hnone : c.tx = none) (hi : Inv H c.db) (hlog : c.log = []) :
    wp (protocol H) .readCommitted A (execute H s e) (fun _ _ => True) c := by
  refine wp_op hi (wp_beginPrepare hnone fun _ _ _ => trivial) fun res c1 ⟨hnone1, hbegun⟩ hi1 _ => ?_
  cases res with
  | error err =>
    dsimp only
    split
    · exact wp_bind (wp_mono (fun _ _ _ => trivial) (wp_localProof hnone1 hi1))
    · trivial
  | ok u =>
    obtain ⟨hf, _, before, after, hlog1, hstarts, hlater⟩ := hbegun u rfl
    rw [hlog, nil_append] at hlog1
    refine wp_prepareBranches [] hf ⟨hnone1, hi1, ?_, ?_, ?_, ?_, nofun⟩ ?_ nofun
    · obtain ⟨row, _, _, hplan, hafter⟩ := hstarts
      have hstored : Stored H e after := ⟨_, hafter, hplan⟩
      exact hstored.later hlater
    · refine ⟨before, after, ?_, hstarts⟩
      rw [hlog1]
      exact mem_cons_self
    · rw [hlog1]
      intro e' ans hm
      simp at hm
    · rw [hlog1]
      intro ref wire ans hm
      simp at hm
    · have hrefs := Execution.references_eq (H := H) hf
      rw [nil_append, map_snd_zip]
      rw [hrefs, length_map]

theorem wp_checkMessage {config : Config} {physical : String} {decoded : Option Reference}
    {body : Bytes} (hnone : c.tx = none) (hi : Inv H c.db) :
    wp (protocol H) .readCommitted A (checkMessage H s config physical decoded body)
      (fun _ _ => True) c := by
  unfold checkMessage
  split
  next ref route _ =>
    split
    · trivial
    · refine wp_op hi (wp_evidence hnone) fun res c1 ⟨hnone1, hread⟩ hi1 _ => ?_
      refine wp_ctxErr fun σ2 cancelled ans hl2 hi2 => ?_
      refine wp_ask (Event.resolution ref _) fun σ3 henv3 hi3 => ⟨?_, fun _ => trivial⟩
      intro st hst
      cases res with
      | error _ => cases hst
      | ok found =>
        cases cancelled with
        | true => cases hst
        | false =>
          obtain ⟨rfl, _, hne⟩ := resolve_spec hst
          exact Decided.later (hread st rfl) hne (hl2.trans henv3.later)
  · trivial

end ReliableMessaging.Sender
