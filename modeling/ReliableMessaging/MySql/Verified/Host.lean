import ReliableMessaging.MySql.Verified.Guard

/-!
# Root transactions keep the contract

A host may bind and commit in any order (`MySql.Host`). What it has staged is
consistent after every step of its script (`HostOk`), and it is about
executions that the script has bound with their own token and plan (`Binds`);
so its commit is the one that `Hosts` describes.
-/

namespace ReliableMessaging.MySql

open Transaction TxLang List

variable {Ev : Type} {Ans : Ev → Type}
variable {H : Sha256} {Allow : Ctx Val Ans → Ev → Prop} {A G : Tables → Tables → Prop}
variable {c : Ctx Val Ans} {t t' : Tx Val} {σ : Tables} {script : List HostStep}
variable {announce : Execution → Code Err Val Ans Unit}

/-- The guards of a host's transaction were bound in it. -/
def Bound (H : Sha256) (t : Tx Val) (guards : List Guard) : Prop :=
  ∀ g ∈ guards, t.writes.lookup (.execution (g.execution.key H)) ≠ none

/-- Every execution that is staged was bound by the script. -/
def Binds (H : Sha256) (script : List HostStep) (t : Tx Val) : Prop :=
  ∀ k (x : ExecutionRow), t.writes.lookup (.execution k) = some x →
    ∃ s e, .bind s e ∈ script ∧ e.key H = k ∧ x.token = e.token ∧ x.plan = e.plan

/-- Every execution that these steps bind is staged, as its own capability. -/
def AllBound (H : Sha256) (steps : List HostStep) (t : Tx Val) : Prop :=
  ∀ s e, .bind s e ∈ steps → ∃ x : ExecutionRow,
    t.writes.lookup (.execution (e.key H)) = some x ∧ x.token = e.token ∧ x.plan = e.plan

/-- Telling the log that an execution is bound leaves the transaction alone. -/
def Announces (H : Sha256) (G : Tables → Tables → Prop) (Allow : Ctx Val Ans → Ev → Prop)
    (A : Tables → Tables → Prop) (announce : Execution → Code Err Val Ans Unit) : Prop :=
  ∀ e σ t (row : ExecutionRow) g log, Inv H σ →
    Touched σ t (e.key H) row g .prepared .prepared → row.plan = e.plan →
    wpc (pact H G Allow) .readCommitted A (announce e)
      (fun _ c' => c'.tx = some t ∧ Inv H c'.db ∧ Env (pact H G Allow) A (some t) σ c'.db)
      ⟨σ, some t, log⟩

theorem HostOk.hosts (h : HostOk σ t) (hb : Binds H script t) (hall : AllBound H script t) :
    Hosts H script σ (t.writes ∪ σ) := by
  refine ⟨fun o => lookup_union_of_none (h.binding o),
    fun q => lookup_union_of_none (h.request q), fun k => ?_, fun s e hmem => ?_⟩
  rotate_left
  · obtain ⟨x, hx, htoken, hplan⟩ := hall s e hmem
    rcases h.key (e.key H) with ⟨hnone, _⟩ | ⟨row, g, st, _, ht⟩
    · exact absurd (hnone.symm.trans hx) nofun
    · cases ht.staged.symm.trans hx
      exact ⟨row, ht.stored, htoken, hplan⟩
  rcases h.key k with ⟨hx, hw⟩ | ⟨row, g, st, hst, ht⟩
  · exact .inl ⟨lookup_union_of_none hx, fun b => lookup_union_of_none (hw b)⟩
  obtain ⟨s, e, hmem, hkey, htoken, hplan⟩ := hb k _ ht.staged
  refine .inr ⟨s, e, row, g, st, hmem, hkey, htoken, hplan, ht.prepared, ht.stored,
    lookup_union_of_some ht.staged, hst, fun b => ?_⟩
  have hwit := ht.witness b
  by_cases hp : st = .prepared
  · rw [if_pos hp] at hwit ⊢
    exact lookup_union_of_none hwit
  · rw [if_neg hp] at hwit ⊢
    cases hw : σ.lookup (.witness k b) with
    | none =>
      rw [hw] at hwit
      rw [lookup_union_of_none hwit, hw]
      rfl
    | some w =>
      rw [hw] at hwit
      exact lookup_union_of_some hwit

/-- A host that runs a script, with a state of its own: it ends where the
script ends, and each step leaves staged what `Bind` or `CommitWitness` leaves.
Only executions that `may` admits can be bound. -/
structure RunsScript {S : Type} (H : Sha256) (G : Tables → Tables → Prop)
    (Allow : Ctx Val Ans → Ev → Prop) (A : Tables → Tables → Prop) (may : Execution → Prop)
    (run : S → List HostStep → List Guard → Code Err Val Ans Unit) : Prop where
  nil : ∀ own guards, run own [] guards = pure ()
  bind : ∀ own s e steps guards c t Q, may e → c.tx = some t → Inv H c.db → HostOk c.db t →
    (∀ own' σ t' row g log, Inv H σ → BoundRow H e σ t t' row g → row.plan = e.plan →
      wpc (pact H G Allow) .readCommitted A (run own' steps (guards ++ [⟨e, false⟩])) Q
        ⟨σ, some t', log⟩) →
    wpc (pact H G Allow) .readCommitted A (run own (.bind s e :: steps) guards) Q c
  commitWitness : ∀ own i steps guards c t Q, c.tx = some t → Inv H c.db → HostOk c.db t →
    Bound H t guards →
    (∀ g σ t' (x : ExecutionRow) v, guards[i]? = some g → Inv H σ → HostOk σ t' →
      (∀ k, k ≠ g.execution.key H →
        t'.writes.lookup (.execution k) = t.writes.lookup (.execution k)) →
      t.writes.lookup (.execution (g.execution.key H)) = some x →
      t'.writes.lookup (.execution (g.execution.key H)) = some { x with state := v } →
      wpc (pact H G Allow) .readCommitted A
        (run own steps (guards.set i { g with committed := true })) Q ⟨σ, some t', c.log⟩) →
    wpc (pact H G Allow) .readCommitted A (run own (.commitWitness i :: steps) guards) Q c

section Script

variable {S : Type} {own : S} {may : Execution → Prop}
variable {run : S → List HostStep → List Guard → Code Err Val Ans Unit}

/-- Any script keeps what a host may commit. -/
theorem RunsScript.wpc {done steps : List HostStep} {guards : List Guard}
    {Q : Unit → Ctx Val Ans → Prop} (hrun : RunsScript H G Allow A may run)
    (hmay : ∀ s e, .bind s e ∈ script → may e)
    (hsteps : done ++ steps = script) (ht : c.tx = some t) (hi : Inv H c.db)
    (hok : HostOk c.db t) (hbound : Bound H t guards) (hbinds : Binds H script t)
    (hall : AllBound H done t)
    (h : ∀ σ t' log, Inv H σ → HostOk σ t' → Binds H script t' → AllBound H script t' →
      Q () ⟨σ, some t', log⟩) :
    wpc (pact H G Allow) .readCommitted A (run own steps guards) Q c := by
  induction steps generalizing c t own done guards with
  | nil =>
    obtain ⟨db, tx, log⟩ := c
    subst ht
    rw [append_nil] at hsteps
    rw [hrun.nil]
    exact wpc_pure (h db t log hi hok hbinds (hsteps ▸ hall))
  | cons step steps ih =>
    have hmem : step ∈ script := hsteps ▸ mem_append_right _ mem_cons_self
    have hrest : (done ++ [step]) ++ steps = script := by
      rw [append_assoc]
      exact hsteps
    cases step with
    | bind s e =>
      refine hrun.bind own s e steps guards c t Q (hmay s e hmem) ht hi hok
        fun own1 σ1 t1 row g log hi1 hbind hplan => ?_
      have htouched := hbind.touched
      refine ih hrest rfl hi1 hbind.ok (fun g' hg' => ?_) (fun k x hx => ?_) fun s' e' he' => ?_
      · rcases mem_append.mp hg' with hg' | hg'
        · by_cases hk : g'.execution.key H = e.key H
          · rw [hk, htouched.staged]
            exact Option.some_ne_none _
          · rw [hbind.others _ hk]
            exact hbound g' hg'
        · cases mem_singleton.mp hg'
          rw [htouched.staged]
          exact Option.some_ne_none _
      · by_cases hk : k = e.key H
        · subst hk
          cases htouched.staged.symm.trans hx
          exact ⟨s, e, hmem, rfl, hbind.token, hplan⟩
        · rw [hbind.others k hk] at hx
          exact hbinds k x hx
      · by_cases hk : e'.key H = e.key H
        · rw [hk]
          refine ⟨_, htouched.staged, ?_⟩
          rcases mem_append.mp he' with hold | hnew
          · -- the execution was bound before, over the same row
            obtain ⟨x, hx, htoken, hplan'⟩ := hall s' e' hold
            have hsame := hbind.again x (hk ▸ hx)
            exact ⟨hsame.1.trans htoken, hsame.2.trans hplan'⟩
          · cases mem_singleton.mp hnew
            exact ⟨hbind.token, hplan⟩
        · rw [hbind.others _ hk]
          refine hall s' e' ((mem_append.mp he').resolve_right fun hnew => ?_)
          cases mem_singleton.mp hnew
          exact hk rfl
    | commitWitness i =>
      refine hrun.commitWitness own i steps guards c t Q ht hi hok hbound
        fun g σ1 t1 x v hg hi1 hok1 hother hx hx' => ?_
      refine ih hrest rfl hi1 hok1 (fun g' hg' => ?_) (fun k y hy => ?_) fun s' e' he' => ?_
      · by_cases hk : g'.execution.key H = g.execution.key H
        · rw [hk, hx']
          exact Option.some_ne_none _
        · rw [hother _ hk]
          rcases mem_or_eq_of_mem_set hg' with hg' | rfl
          · exact hbound g' hg'
          · exact absurd rfl hk
      · by_cases hk : k = g.execution.key H
        · subst hk
          cases hx'.symm.trans hy
          exact hbinds _ x hx
        · rw [hother k hk] at hy
          exact hbinds k y hy
      · have hold := (mem_append.mp he').resolve_right (by simp)
        obtain ⟨y, hy, hsame⟩ := hall s' e' hold
        by_cases hk : e'.key H = g.execution.key H
        · rw [hk] at hy ⊢
          cases hx.symm.trans hy
          exact ⟨_, hx', hsame⟩
        · exact ⟨y, (hother _ hk).trans hy, hsame⟩

theorem RunsScript.wpc_root {commits : Bool} (hrun : RunsScript H G Allow A may run) (own : S)
    (hmay : ∀ s e, .bind s e ∈ script → may e) (hG : ∀ σ ν, Hosts H script σ ν → G σ ν)
    (ht : c.tx = some t) (hi : Inv H c.db) (hempty : ∀ r, t.writes.lookup r = none) :
    TxLang.wpc (pact H G Allow) .readCommitted A (do
      run own script []
      if commits then commit else pure ()) (fun _ _ => True) c := by
  have hnothing : Binds H script t := by
    intro k x hx
    exact absurd ((hempty _).symm.trans hx) nofun
  refine wpc_bind (hrun.wpc hmay (nil_append _) ht hi (.start hempty) nofun hnothing nofun
    fun σ2 t log hi2 hok hbinds hall => ?_)
  refine wpc_ite (fun _ => ?_) fun _ => wpc_pure trivial
  refine wpc_commitTx rfl (fun σ3 henv3 hi3 => ?_) fun _ _ _ => trivial
  have hok3 := hok.env hi2 hi3 henv3
  exact ⟨hok3.trans, hG _ _ (hok3.hosts hbinds hall)⟩

end Script

theorem runsScript_hostSteps [H.CollisionFree] (hann : Announces H G Allow A announce) :
    RunsScript H G Allow A (fun _ => True) (fun _ : Unit => hostSteps H announce) where
  nil := fun _ _ => rfl
  bind := by
    intro _ s e steps guards c t Q _ ht hi hok h
    refine wpc_bind (wpc_guardBind ht hi hok fun σ1 t1 row g hi1 hbind hplan => ?_)
    refine wpc_bind (wpc_mono ?_ (hann e σ1 t1 row g _ hi1 hbind.touched hplan))
    rintro _ ⟨db, tx, log⟩ ⟨rfl, hi2, henv2⟩
    exact h () db t1 row g log hi2 (hbind.env hi1 hi2 henv2) hplan
  commitWitness := by
    intro _ i steps guards c t Q ht hi hok hbound h
    refine wpc_bind (wpc_found fun g hg => ?_)
    exact wpc_bind (wpc_commitWitness ht hi hok (hbound g (mem_of_getElem? hg))
      fun σ1 t1 x v hi1 hok1 hother hx hx' => h g σ1 t1 x v hg hi1 hok1 hother hx hx')

theorem wp_rootTransaction [H.CollisionFree] {commits : Bool}
    (hann : Announces H G Allow A announce) (hnone : c.tx = none)
    (hG : ∀ σ ν, Hosts H script σ ν → G σ ν) :
    wp (pact H G Allow) .readCommitted A (rootTransaction H announce script commits).run
      (fun _ c' => c'.tx = none) c := by
  refine wp_withTx hnone (fun _ _ _ => rfl) fun σ1 _ hi1 => ?_
  exact wpc_mono (fun _ _ _ _ _ _ => rfl) ((runsScript_hostSteps hann).wpc_root ()
    (fun _ _ _ => trivial) hG rfl hi1 fun r => AList.lookup_empty r)

theorem wp_rotate {owner : String} {set : BindingRow → BindingRow} (hnone : c.tx = none)
    (hG : ∀ σ ν, Rotates σ ν → G σ ν) :
    wp (pact H G Allow) .readCommitted A (rotate owner set).run (fun _ _ => True) c := by
  refine wp_withTx hnone (fun _ _ _ => trivial) fun σ1 _ _ => ?_
  refine wpc_bind (wpc_updateRows rfl fun σ2 _ _ => ?_)
  generalize hrows : setBinding owner set (_ ∪ σ2) = rows
  have hkept : ∀ σ3 : Tables, Rotates σ3 ((({ snap := σ1 } : Tx Val).stage rows).writes ∪ σ3) := by
    intro σ3 r hr
    rw [lookup_stage_union_of_none (hrows ▸ lookup_setBinding_other hr),
      lookup_union_of_none (AList.lookup_empty r)]
  exact wpc_commitTx rfl (fun σ3 _ _ => ⟨.rotate (hkept σ3), hG _ _ (hkept σ3)⟩)
    fun _ _ _ _ _ _ => trivial

end ReliableMessaging.MySql
