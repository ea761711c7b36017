import ReliableMessaging.Sender.Decisions

/-!
# One set of half messages and one business run

`BeginPrepare` is a compare and set on `prepare_started`: of all the calls
that ever try, one commit starts the preparation of an execution
(`History.starter`). Everything that follows in `execute` happens in the call
that made that commit, so what this call does once is done once.
-/

namespace ReliableMessaging.Sender

open Transaction TxLang MySql List Sample

variable {H : Sha256} {s : System} {σ ν : Tables} {e e' : Execution} {ref ref' : Reference}
variable {log pre post : List (Nat × Entry Val Answer)} {p q : Nat}

/-- The preparation of the stored execution has started, and the plan is this one. -/
def Started (H : Sha256) (e : Execution) (σ : Tables) : Prop :=
  ∃ row : ExecutionRow, σ.lookup (.execution (e.key H)) = some row ∧
    row.prepareStarted = true ∧ row.plan = e.plan

theorem Started.trans (h : Started H e σ) (ht : Trans H σ ν) : Started H e ν := by
  obtain ⟨row, hrow, hstarted, hplan⟩ := h
  obtain ⟨row', hrow', hlater⟩ := ht.execution hrow
  have hcols := hlater.columns
  refine ⟨row', hrow', hlater.started hstarted, ?_⟩
  rw [hcols]
  exact hplan

theorem Starts.started (h : Starts H e σ ν) : Started H e ν := by
  obtain ⟨row, _, _, hplan, hafter⟩ := h
  exact ⟨_, hafter, rfl, hplan⟩

theorem History.started (h : History (protocol H) σ log) {before after : Tables}
    (hmem : (p, Entry.committed before after) ∈ log) (hs : Starts H e before after) :
    Started H e σ := by
  induction h with
  | start => cases hmem
  | move _ _ _ ht _ ih => exact (ih hmem).trans ht
  | called _ _ _ _ _ ih =>
    rcases mem_append.mp hmem with hm | hm
    · exact ih hm
    · simp at hm
  | committed _ _ ht _ ih =>
    rcases mem_append.mp hmem with hm | hm
    · exact (ih hm).trans ht
    · cases mem_singleton.mp hm
      exact Starts.started hs

theorem History.starter (h : History (protocol H) σ log) {b1 a1 b2 a2 : Tables}
    (hp : (p, Entry.committed b1 a1) ∈ log) (hq : (q, Entry.committed b2 a2) ∈ log)
    (hs : Starts H e b1 a1) (hs' : Starts H e' b2 a2) (hkey : e.key H = e'.key H) : p = q := by
  -- a commit that starts it finds it not started, so it comes before every other
  have hclash : ∀ {x y : Execution} {b a : Tables}, x.key H = y.key H → Started H x b →
      ¬ Starts H y b a := by
    rintro x y b a hxy ⟨row, hrow, hstarted, _⟩ ⟨row', hrow', hnot, _⟩
    rw [hxy] at hrow
    cases hrow.symm.trans hrow'
    rw [hstarted] at hnot
    cases hnot
  induction h with
  | start => cases hp
  | move _ _ _ _ _ ih => exact ih hp hq
  | called _ _ _ _ _ ih =>
    rcases mem_append.mp hp with hp | hp
    · rcases mem_append.mp hq with hq | hq
      · exact ih hp hq
      · simp at hq
    · simp at hp
  | committed hh r ht _ ih =>
    rcases mem_append.mp hp with hold | hnew
    · rcases mem_append.mp hq with hold' | hnew'
      · exact ih hold hold'
      · cases mem_singleton.mp hnew'
        exact absurd hs' (hclash hkey (History.started hh hold hs))
    · cases mem_singleton.mp hnew
      rcases mem_append.mp hq with hold' | hnew'
      · exact absurd hs (hclash hkey.symm (History.started hh hold' hs'))
      · cases mem_singleton.mp hnew'
        rfl

theorem StartedIn.same_call (h : History (protocol H) σ log) (hp : StartedIn H e (logOf p log))
    (hq : StartedIn H e' (logOf q log)) (hkey : e.key H = e'.key H) : p = q := by
  obtain ⟨b1, a1, hm1, hs1⟩ := hp
  obtain ⟨b2, a2, hm2, hs2⟩ := hq
  exact History.starter h (mem_logOf.mp hm1) (mem_logOf.mp hm2) hs1 hs2 hkey

theorem StartedIn.same_references [H.CollisionFree] (h : History (protocol H) σ log) (hf : e.Formed)
    (hf' : e'.Formed) (hp : StartedIn H e (logOf p log)) (hq : StartedIn H e' (logOf q log))
    (hkey : e.key H = e'.key H) : e.references H = e'.references H := by
  obtain ⟨b1, a1, hm1, hs1⟩ := hp
  obtain ⟨b2, a2, hm2, hs2⟩ := hq
  obtain ⟨row, hrow, _, hplan⟩ := History.started h (mem_logOf.mp hm1) hs1
  obtain ⟨row', hrow', _, hplan'⟩ := History.started h (mem_logOf.mp hm2) hs2
  rw [hkey] at hrow
  cases hrow.symm.trans hrow'
  obtain ⟨_, _, hep', hfe'⟩ := h.inv.row_of_key hrow hf'.plan hf'.fence.2
  rw [← hkey] at hrow
  obtain ⟨_, _, hep, hfe⟩ := h.inv.row_of_key hrow hf.plan hf.fence.2
  rw [Execution.references_eq hf, Execution.references_eq hf', ← hplan, ← hplan', ← hep, ← hep',
    ← hfe, ← hfe']

/-! ## What the calls did -/

/-- Every half message was sent by the call that started its execution. -/
theorem History.prepare_spec (h : History (protocol H) σ log) {wire : Bytes}
    {ans : Option Prepared} (hsplit : log = pre ++ (p, .called (.prepare ref wire) ans) :: post) :
    ∃ e : Execution, e.Formed ∧ StartedIn H e (logOf p log) ∧ ref ∈ e.references H ∧
      e.key H = ref.executionKey H ∧
      ∀ ref' wire' ans', (p, Entry.called (.prepare ref' wire') ans') ∈ pre →
        ref'.branchID ≠ ref.branchID := by
  obtain ⟨σ', tx, _, e, hf, hstarted, href, hfresh⟩ := h.allowed hsplit
  refine ⟨e, hf, hstarted.mono ?_, href, ?_, fun ref' wire' ans' hm => ?_⟩
  · rw [hsplit, logOf_append]
    exact subset_append_left _ _
  · obtain ⟨br, _, rfl⟩ := Execution.mem_references href
    rfl
  · exact hfresh ref' wire' ans' (mem_logOf.mpr hm)

/-- The business ran in the call that started its execution, after everything. -/
theorem History.runLocal_spec (h : History (protocol H) σ log) {ans : Option Reported}
    (hsplit : log = pre ++ (p, .called (.runLocal e) ans) :: post) :
    e.Formed ∧ StartedIn H e (logOf p log) ∧
      (∀ e' ans', (p, Entry.called (.runLocal e') ans') ∉ pre) ∧
      ∀ ref ∈ e.references H, PreparedIn ref (logOf p pre) := by
  obtain ⟨σ', tx, _, hf, hstarted, hfresh, hprepared⟩ := h.allowed hsplit
  refine ⟨hf, hstarted.mono ?_, fun e' ans' hm => ?_, hprepared⟩
  · rw [hsplit, logOf_append]
    exact subset_append_left _ _
  · exact hfresh e' ans' (mem_logOf.mpr hm)

def SameHalf (H : Sha256) (a b : Nat × Entry Val Answer) : Prop :=
  ∃ ref wire ans ref' wire' ans', a.2 = .called (.prepare ref wire) ans ∧
    b.2 = .called (.prepare ref' wire') ans' ∧ ref.executionKey H = ref'.executionKey H ∧
    ref.branchID = ref'.branchID

instance : Std.Symm fun a b => ¬ SameHalf H a b where
  symm := by
    rintro a b hnot ⟨r1, w1, x1, r2, w2, x2, h1, h2, hk, hi⟩
    exact hnot ⟨r2, w2, x2, r1, w1, x1, h2, h1, hk.symm, hi.symm⟩

/-- Two entries run the business of the same execution. -/
def SameBusiness (H : Sha256) (a b : Nat × Entry Val Answer) : Prop :=
  ∃ e ans e' ans', a.2 = .called (.runLocal e) ans ∧ b.2 = .called (.runLocal e') ans' ∧
    e.key H = e'.key H

theorem History.halves_once (h : History (protocol H) σ log) :
    log.Pairwise fun a b => ¬ SameHalf H a b := by
  refine pairwise_iff_forall_sublist.mpr fun {a b} hsub hsame => ?_
  obtain ⟨pre, post, hsplit, ha⟩ := split_of_pair hsub
  obtain ⟨q, en⟩ := a
  obtain ⟨p, en'⟩ := b
  obtain ⟨ref, wire, ans, ref', wire', ans', rfl, rfl, hkey, hid⟩ := hsame
  obtain ⟨e', _, hstarted', _, hek', hfresh⟩ := History.prepare_spec h hsplit
  have hmem : (q, Entry.called (.prepare ref wire) ans) ∈ log := by
    rw [hsplit]
    exact mem_append_left _ ha
  obtain ⟨pre1, post1, hsplit1⟩ := append_of_mem hmem
  obtain ⟨e, _, hstarted, _, hek, _⟩ := History.prepare_spec h hsplit1
  have hcall := StartedIn.same_call h hstarted hstarted' (hek.trans (hkey.trans hek'.symm))
  subst hcall
  exact hfresh ref wire ans ha hid

theorem History.business_once (h : History (protocol H) σ log) :
    log.Pairwise fun a b => ¬ SameBusiness H a b := by
  refine pairwise_iff_forall_sublist.mpr fun {a b} hsub hsame => ?_
  obtain ⟨pre, post, hsplit, ha⟩ := split_of_pair hsub
  obtain ⟨q, en⟩ := a
  obtain ⟨p, en'⟩ := b
  obtain ⟨e, ans, e', ans', rfl, rfl, hkey⟩ := hsame
  obtain ⟨_, hstarted', hfresh, _⟩ := History.runLocal_spec h hsplit
  have hmem : (q, Entry.called (.runLocal e) ans) ∈ log := by
    rw [hsplit]
    exact mem_append_left _ ha
  obtain ⟨pre1, post1, hsplit1⟩ := append_of_mem hmem
  obtain ⟨_, hstarted, _⟩ := History.runLocal_spec h hsplit1
  have hcall := StartedIn.same_call h hstarted hstarted' hkey
  subst hcall
  exact hfresh e ans ha

/-- If the business of an execution ran, all its half messages went well. -/
theorem History.prepared_of_business [H.CollisionFree] (h : History (protocol H) σ log)
    {wire : Bytes} {ans : Option Prepared} {ans' : Option Reported}
    (hprepare : (q, Entry.called (.prepare ref wire) ans) ∈ log)
    (hrun : (p, Entry.called (.runLocal e) ans') ∈ log) (hkey : e.key H = ref.executionKey H) :
    ∃ pr mark, ans = some pr ∧ pr.good = true ∧
      (q, Entry.called (.recorded ref pr.receipt) mark) ∈ log := by
  obtain ⟨pre, post, hsplit⟩ := append_of_mem hrun
  obtain ⟨hf, hstarted, _, hall⟩ := History.runLocal_spec h hsplit
  obtain ⟨pre1, post1, hsplit1⟩ := append_of_mem hprepare
  obtain ⟨e1, hf1, hstarted1, href, hek, _⟩ := History.prepare_spec h hsplit1
  have hkey1 : e1.key H = e.key H := hek.trans hkey.symm
  have hcall := StartedIn.same_call h hstarted1 hstarted hkey1
  subst hcall
  rw [StartedIn.same_references h hf1 hf hstarted1 hstarted hkey1] at href
  obtain ⟨wire', pr, mark, hcalled, hgood, hrecorded⟩ := hall ref href
  have hpre : ∀ {en : Entry Val Answer}, en ∈ logOf q pre → (q, en) ∈ log := by
    intro en hen
    rw [hsplit]
    exact mem_append_left _ (mem_logOf.mp hen)
  -- a half message is sent once, so this is the one that was answered well
  have hone : ((q, Entry.called (.prepare ref wire) ans) : Nat × Entry Val Answer) =
      (q, Entry.called (.prepare ref wire') (some pr)) := by
    by_contra hne
    exact (History.halves_once h).forall hprepare (hpre hcalled) hne
      ⟨ref, wire, ans, ref, wire', some pr, rfl, rfl, rfl, rfl⟩
  cases hone
  exact ⟨pr, mark, rfl, hgood, hpre hrecorded⟩

/-- **One half set and one business run for each fence.** Of all calls in a
run, each half message (an execution and a branch) is sent at most once and
the local executor of an execution is called at most once. It is called only
after the half message of every branch of the plan was answered with a valid
prepared receipt and a handle, and the recording of that receipt succeeded,
in the same call; and if some half message of the execution was not answered
so, or its receipt was not recorded, it is not called at all. -/
theorem half_set_and_business_once [H.CollisionFree] (hr : Reachable H s) :
    (s.log.Pairwise fun a b => ¬ SameHalf H a b) ∧
    (s.log.Pairwise fun a b => ¬ SameBusiness H a b) ∧
    (∀ pre p e ans post, s.log = pre ++ (p, .called (.runLocal e) ans) :: post →
      ∀ br ∈ e.plan.input.branches, ∃ wire pr mark,
        (p, Entry.called (.prepare (e.plan.referenceOf H e.fence e.writerEpoch br) wire)
          (some pr)) ∈ pre ∧
        pr.receipt.valid = true ∧ pr.receipt.outcome = .prepared ∧ pr.handle = true ∧
        (p, Entry.called (.recorded (e.plan.referenceOf H e.fence e.writerEpoch br) pr.receipt)
          mark) ∈ pre) ∧
    ∀ q ref wire ans, (q, Entry.called (.prepare ref wire) ans) ∈ s.log →
      (¬ ∃ pr mark, ans = some pr ∧ pr.good = true ∧
        (q, Entry.called (.recorded ref pr.receipt) mark) ∈ s.log) →
      ∀ p e ans', e.key H = ref.executionKey H →
        (p, Entry.called (.runLocal e) ans') ∉ s.log := by
  have hh := hr.history
  refine ⟨History.halves_once hh, History.business_once hh, ?_, ?_⟩
  · intro pre p e ans post hsplit br hbr
    obtain ⟨hf, _, _, hall⟩ := History.runLocal_spec hh hsplit
    rw [Execution.references_eq hf] at hall
    obtain ⟨wire, pr, mark, hcalled, hgood, hrecorded⟩ := hall _ (mem_map_of_mem hbr)
    simp only [Prepared.good, Bool.and_eq_true, decide_eq_true_eq] at hgood
    obtain ⟨⟨⟨hvalid, hprepared⟩, hhandle⟩, _⟩ := hgood
    exact ⟨wire, pr, mark, mem_logOf.mp hcalled, hvalid, hprepared, hhandle,
      mem_logOf.mp hrecorded⟩
  · intro q ref wire ans hprepare hbad p e ans' hkey hrun
    exact hbad (History.prepared_of_business hh hprepare hrun hkey)

/-- The host's local work ran for `e` and gave `ans`. -/
def Sample.ran (e : Execution) (ans : Option Reported) : Entry Val Answer → Bool
  | .called (.runLocal e') ans' => e' = e && ans' = ans
  | _ => false

set_option maxRecDepth 100000 in
/-- A run in which a half message was sent and the business ran. -/
theorem half_set_and_business_once_sample :
    ∃ s, Reachable default s ∧
      (∃ p, (p, Entry.called (.runLocal (execution "x" "k" 1)) (some ⟨.aborted, false⟩)) ∈
        s.log) ∧
      s.log.Pairwise fun a b => ¬ SameHalf default a b := by
  obtain ⟨s, hr, _, _, hlog⟩ := reachable_served default installed_spec
    [reserve "x" "k", (world .aborted, .execute store
      (execution "x" "k" 1))]
  have hran : (s.log.any fun x =>
      ran (execution "x" "k" 1) (some ⟨.aborted, false⟩) x.2) = true := by
    rw [hlog]
    decide +kernel
  obtain ⟨⟨p, en⟩, hmem, hen⟩ := any_eq_true.mp hran
  dsimp only at hen
  unfold Sample.ran at hen
  split at hen
  · simp only [Bool.and_eq_true, decide_eq_true_eq] at hen
    obtain ⟨rfl, rfl⟩ := hen
    exact ⟨s, hr, ⟨p, hmem⟩, (half_set_and_business_once hr).1⟩
  · cases hen

end ReliableMessaging.Sender
