import ReliableMessaging.Mongo.Contract

/-!
# Rules for the adapter's statements

The contract of the collections and one rule for each statement and helper.
Outside a transaction a rule says at which documents the program goes on;
inside one it also says what the transaction has staged (`Staged`). A commit
that publishes nothing is always allowed.
-/

namespace ReliableMessaging.Mongo

open Transaction TxLang

variable {Ev : Type} {Ans : Ev → Type}

/-- The contract of the collections, for a client that promises `G` of the
commits with which it changes them. -/
def pact (H : Sha256) (G : Collections → Collections → Prop)
    (Allow : Ctx Val Ans → Ev → Prop) : Spec Val Ans where
  Inv := Inv H
  Trans := Trans H
  Earned := fun _ σ ν => ν = σ ∨ G σ ν
  Allow := Allow
  keeps := fun hi h => h.inv hi

variable {H : Sha256} {Allow : Ctx Val Ans → Ev → Prop} {A G : Collections → Collections → Prop}
variable {α β : Type} {c : Ctx Val Ans} {t : Tx Val} {s : Store}

def Closed (_ : α) (c : Ctx Val Ans) : Prop := c.tx = none

theorem publishes_same : Publishes (pact H G Allow) c c.db := ⟨.refl _, .inl rfl⟩

/-! ## Outside of transactions -/

section Outside

variable {Q : Except Err β → Ctx Val Ans → Prop}

theorem wp_find_bind {f : Collections → Code Err Val Ans β} (hnone : c.tx = none)
    (herr : ∀ σ, Q (.error .driver) ⟨σ, none, c.log⟩)
    (h : ∀ σ, Env (pact H G Allow) A none c.db σ → Inv H σ →
      wp (pact H G Allow) .snapshot A (f σ).run Q ⟨σ, none, c.log⟩) :
    wp (pact H G Allow) .snapshot A (find >>= f).run Q c := by
  obtain ⟨db, tx, log⟩ := c
  cases hnone
  exact wp_select_bind herr h

theorem wp_bindingIn_bind {writer : Bool} {f : Unit → Code Err Val Ans β} (hnone : c.tx = none)
    (herr : ∀ err σ, Q (.error err) ⟨σ, none, c.log⟩)
    (h : ∀ σ (b : BindingDoc), Inv H σ → σ.lookup (.binding s.owner) = some b →
      (writer = true → b.writerEpoch = s.writerEpoch) →
      wp (pact H G Allow) .snapshot A (f ()).run Q ⟨σ, none, c.log⟩) :
    wp (pact H G Allow) .snapshot A (bindingIn s writer >>= f).run Q c := by
  unfold bindingIn
  refine wp_code_bind (wp_find_bind hnone (fun σ => ⟨fun e he => ?_, nofun⟩) fun σ _ hi => ?_)
  · exact herr e σ
  refine wp_found_bind ⟨fun e he => herr e σ, nofun⟩ fun b hb => ?_
  refine wp_refuse_bind ⟨fun e he => herr e σ, nofun⟩ fun hid => ?_
  refine wp_refuse ⟨fun e he => herr e σ, nofun⟩ fun _ => ⟨nofun, fun _ _ => ?_⟩
  refine h σ b hi hb fun hwriter => ?_
  subst hwriter
  simp only [Bool.true_and, Bool.or_eq_false_iff, decide_eq_false_iff_not, ne_eq, not_not] at hid
  exact hid.2

theorem wp_updateOne_bind {id : Bytes} {filter : Nat → ExecutionDoc → Bool}
    {set : Nat → ExecutionDoc → ExecutionDoc} {f : Nat → Code Err Val Ans β} (hnone : c.tx = none)
    (hpub : ∀ σ now d ν, Env (pact H G Allow) A none c.db σ → Inv H σ →
      filter now d = true → SetsDoc id d (set now d) σ ν → DocStep d (set now d) ∧ G σ ν)
    (herr : ∀ err σ log, Q (.error err) ⟨σ, none, log⟩)
    (h : ∀ n σ log, wp (pact H G Allow) .snapshot A (f n).run Q ⟨σ, none, log⟩) :
    wp (pact H G Allow) .snapshot A (updateOne id filter set >>= f).run Q c := by
  obtain ⟨db, tx, log⟩ := c
  subst hnone
  unfold updateOne
  refine wp_code_bind (wp_send_bind fun σ henv hi => ⟨fun millis => ?_,
    fun busy r σ' tx new hl => ?_⟩)
  · rcases setExecution_cases id (filter (date millis)) (set (date millis)) σ with
      hmiss | ⟨d, hd, hf, hset⟩
    · rw [show setExecution id (filter (date millis)) (set (date millis)) σ ∪ σ = σ by
        rw [eq_empty_of_lookup hmiss, AList.empty_union]]
      exact publishes_same
    · have hsets : SetsDoc id d (set (date millis) d) σ
          (setExecution id (filter (date millis)) (set (date millis)) σ ∪ σ) :=
        ⟨hd, lookup_union_of_some hset,
          fun r hr => lookup_union_of_none (lookup_setExecution_ne hr)⟩
      obtain ⟨hstep, hg⟩ := hpub σ _ d _ henv hi hf hsets
      exact ⟨hsets.trans hstep, .inr hg⟩
  · have htx : tx = none := by
      cases hl <;> rfl
    subst htx
    refine ⟨fun _ => ⟨fun e he => herr e σ' _, nofun⟩, fun reply _ => ?_⟩
    exact ⟨nofun, fun n hn => h n σ' _⟩

end Outside

/-! ## Inside a transaction -/

section Inside

/-- The transaction may be published at any documents it may find. -/
def Publishable (H : Sha256) (G : Collections → Collections → Prop)
    (Allow : Ctx Val Ans → Ev → Prop) (A : Collections → Collections → Prop) (t : Tx Val)
    (σ : Collections) : Prop :=
  ∀ σ' log, Env (pact H G Allow) A (some t) σ σ' → Inv H σ' →
    Publishes (pact H G Allow) ⟨σ', some t, log⟩ (t.writes ∪ σ')

variable {σ : Collections} {id : Bytes} {d : ExecutionDoc} {body : Code Err Val Ans α}

theorem publishable_of_silent (h : ∀ r, t.writes.lookup r = none) :
    Publishable H G Allow A t σ := by
  intro σ' log _ _
  rw [publish_of_silent h]
  exact publishes_same

theorem publishable_setsDoc {d' : ExecutionDoc} (hu : t.Unmoved σ)
    (hsnap : t.snap.lookup (.execution id) = some d)
    (hstaged : t.writes.lookup (.execution id) = some d')
    (hrest : ∀ r, r ≠ .execution id → t.writes.lookup r = none) (hstep : DocStep d d')
    (hG : ∀ σ ν, SetsDoc id d d' σ ν → G σ ν) : Publishable H G Allow A t σ := by
  intro σ' log henv _
  have hsets : SetsDoc id d d' σ' (t.writes ∪ σ') :=
    ⟨((hu.env henv).lookup hstaged).trans hsnap, lookup_union_of_some hstaged,
      fun r hr => lookup_union_of_none (hrest r hr)⟩
  exact ⟨hsets.trans hstep, .inr (hG _ _ hsets)⟩

theorem publishable_issues (hfresh : σ.lookup (.execution id) = none)
    (hheld : t.Holds (.execution id)) (hstaged : t.writes.lookup (.execution id) = some d)
    (hothers : ∀ k, k ≠ id → t.writes.lookup (.execution k) = none) (hd : FreshDoc H id d)
    (hG : ∀ σ ν, Issues H σ ν id d → G σ ν) : Publishable H G Allow A t σ := by
  intro σ' log henv _
  have hissues : Issues H σ' (t.writes ∪ σ') id d :=
    { hd with
      fresh := (henv.held hheld).trans hfresh
      doc := lookup_union_of_some hstaged
      others := fun k hk => lookup_union_of_none (hothers k hk) }
  exact ⟨hissues.trans, .inr (hG _ _ hissues)⟩

/-- A callback's success: what it staged may be published. -/
def Ready (H : Sha256) (G : Collections → Collections → Prop) (Allow : Ctx Val Ans → Ev → Prop)
    (A : Collections → Collections → Prop) (_ : α) (c : Ctx Val Ans) : Prop :=
  ∃ t, c.tx = some t ∧ Publishable H G Allow A t c.db

theorem wp_attempt {failed : Err → Prog Val Ans (Except Err α)} (hnone : c.tx = none)
    (h : ∀ σ log, Inv H σ → wpc (pact H G Allow) .snapshot A body (Ready H G Allow A) ⟨σ,
      some { snap := σ }, log⟩)
    (hfailed : ∀ e σ log, Inv H σ → wp (pact H G Allow) .snapshot A (failed e) Closed ⟨σ, none, log⟩) :
    wp (pact H G Allow) .snapshot A (attempt body failed).run Closed c := by
  obtain ⟨db, tx, log⟩ := c
  subst hnone
  intro σ _ hi
  refine ⟨trivial, fun busy r σ' tx new hl => ?_⟩
  cases hl with
  | fault => exact rfl
  | begin =>
    refine wp_bind (wp_mono ?_ (h σ _ hi))
    rintro r ⟨db', tx', log'⟩ hr
    cases r with
    | error e =>
      intro σ' _ hi'
      refine ⟨trivial, fun busy r σ'' tx'' new' hl' => ?_⟩
      cases hl' with
      | rollback => exact hfailed e σ' _ hi'
      | fault _ hrollback _ => exact absurd rfl hrollback
    | ok a =>
      obtain ⟨t, rfl, hpub⟩ := hr a rfl
      intro σ' henv hi'
      refine ⟨fun u hu => ?_, fun busy r σ'' tx'' new' hl' => ?_⟩
      · cases hu
        exact hpub σ' log' henv hi'
      · cases hl' with
        | fault hcommit => exact absurd rfl hcommit
        | commit => exact rfl
        | lost => exact rfl

/-- A callback that is proved from any snapshot may run any number of times. -/
theorem wp_protocolTx {retries : Nat} (hnone : c.tx = none)
    (h : ∀ σ log, Inv H σ → wpc (pact H G Allow) .snapshot A body (Ready H G Allow A) ⟨σ,
      some { snap := σ }, log⟩) :
    wp (pact H G Allow) .snapshot A (protocolTx retries body).run Closed c := by
  unfold protocolTx
  induction retries generalizing c with
  | zero => exact wp_attempt hnone h fun _ _ _ _ => rfl
  | succ retries ih =>
    refine wp_attempt hnone h fun e σ log _ => ?_
    split
    · exact ih rfl
    · exact rfl

theorem wpc_findIn {Q : Collections → Ctx Val Ans → Prop} (ht : c.tx = some t)
    (h : ∀ σ, Env (pact H G Allow) A (some t) c.db σ → Inv H σ →
      Q (t.writes ∪ t.snap) ⟨σ, some t, c.log⟩) :
    wpc (pact H G Allow) .snapshot A find Q c := by
  refine wpc_select fun σ henv hi => ?_
  rw [ht] at henv ⊢
  exact h σ henv hi

theorem wpc_nowIn {Q : Nat → Ctx Val Ans → Prop} (ht : c.tx = some t)
    (h : ∀ σ clock, Env (pact H G Allow) A (some t) c.db σ → Inv H σ →
      Q clock ⟨σ, some t, c.log⟩) :
    wpc (pact H G Allow) .snapshot A now Q c := by
  unfold now
  refine wpc_bind (wpc_now fun σ clock henv hi => wpc_pure ?_)
  rw [ht] at henv ⊢
  exact h σ _ henv hi

theorem wpc_bindingIn {writer : Bool} {Q : Unit → Ctx Val Ans → Prop} (ht : c.tx = some t)
    (hw : t.writes.lookup (.binding s.owner) = none)
    (h : ∀ σ (b : BindingDoc), Env (pact H G Allow) A (some t) c.db σ → Inv H σ →
      t.snap.lookup (.binding s.owner) = some b →
      (writer = true → b.writerEpoch = s.writerEpoch) → Q () ⟨σ, some t, c.log⟩) :
    wpc (pact H G Allow) .snapshot A (bindingIn s writer) Q c := by
  unfold bindingIn
  refine wpc_bind (wpc_findIn ht fun σ henv hi => wpc_bind (wpc_found fun b hb => ?_))
  rw [lookup_union_of_none hw] at hb
  refine wpc_bind (wpc_refuse fun hid => wpc_refuse fun _ => h σ b henv hi hb fun hwriter => ?_)
  subst hwriter
  simp only [Bool.true_and, Bool.or_eq_false_iff, decide_eq_false_iff_not, ne_eq, not_not] at hid
  exact hid.2

theorem wpc_updateIn {docs : Collections → Collections} {Q : Collections → Ctx Val Ans → Prop}
    (ht : c.tx = some t) (hu : t.Unmoved c.db)
    (h : ∀ σ, Env (pact H G Allow) A (some t) c.db σ → Inv H σ →
      (t.stage (docs (t.writes ∪ t.snap))).Unmoved σ →
      Q (docs (t.writes ∪ t.snap)) ⟨σ, some (t.stage (docs (t.writes ∪ t.snap))), c.log⟩) :
    wpc (pact H G Allow) .snapshot A (updateIn docs) Q c :=
  wpc_update ht fun σ henv hi hw => h σ henv hi ((hu.env henv).stage hw)

/-- What is inserted is not among the committed documents. -/
theorem wpc_insertOne {r : Row} {v : Val r} {Q : Unit → Ctx Val Ans → Prop}
    (ht : c.tx = some t) (hu : t.Unmoved c.db)
    (h : ∀ σ, Env (pact H G Allow) A (some t) c.db σ → Inv H σ → σ.lookup r = none →
      (t.stage (AList.singleton r v)).Unmoved σ →
      Q () ⟨σ, some (t.stage (AList.singleton r v)), c.log⟩) :
    wpc (pact H G Allow) .snapshot A (insertOne r v) Q c := by
  unfold insertOne
  have hmem : r ∈ (AList.singleton r v : Collections).keys := List.mem_singleton_self r
  refine wpc_bind (wpc_insert ht (fun σ _ _ _ => wpc_refuse nofun)
    fun σ henv hi hnew hw => wpc_refuse fun _ => ?_)
  have hu' := hu.env henv
  refine h σ henv hi ?_ (hu'.stage hw)
  have hview := hnew r hmem
  rw [show view .snapshot σ (some t) = t.writes ∪ t.snap from rfl, lookup_union,
    Option.or_eq_none_iff] at hview
  exact (hu'.writable hw hmem).trans hview.2

theorem wp_readsIn {x : Code Err Val Ans α} (hx : x.run.All fun st => st.reads = true)
    (ht : c.tx = some t) (hi : Inv H c.db) {Q : Except Err α → Ctx Val Ans → Prop}
    (h : ∀ r σ, Env (pact H G Allow) A (some t) c.db σ → Inv H σ →
      Q r ⟨σ, some t, c.log⟩) :
    wp (pact H G Allow) .snapshot A x.run Q c := by
  refine wp_mono ?_ (wp_reads hx (Γ := pact H G Allow) hi)
  rintro r ⟨db, tx, log⟩ ⟨htx, henv, hi', hlog⟩
  cases htx.trans ht
  cases hlog
  rw [ht] at henv
  exact h r db henv hi'

end Inside

end ReliableMessaging.Mongo
