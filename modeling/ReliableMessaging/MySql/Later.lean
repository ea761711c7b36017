import ReliableMessaging.MySql.Invariant

/-!
# Rows over time

What any number of commits leave of a row. An execution row stays and keeps
all but its state, its guard version and the mark of its preparation. A request
row stays with the same request in it, and the fence of its active execution
grows by one at a time. So what a lookup reads in two statements, while others
go on, is an execution that was the active one at some moment of the lookup
(`Current`).
-/

namespace ReliableMessaging.MySql

open Transaction TxLang

open Relation (ReflTransGen)

variable {H : Sha256} {σ ν : Tables} {rk : Bytes} {q q' : RequestRow} {a a' : ExecutionRow}
variable {r : Request} {res : Reservation}

/-! ## Executions -/

/-- What an execution row may have become after any number of commits. -/
structure ExecutionLater (e e' : ExecutionRow) : Prop where
  columns : e' = { e with
    state := e'.state, guardVersion := e'.guardVersion, prepareStarted := e'.prepareStarted }
  ended : e.state ≠ .prepared → e'.state = e.state
  started : e.prepareStarted = true → e'.prepareStarted = true

theorem ExecutionLater.refl (e : ExecutionRow) : ExecutionLater e e :=
  ⟨rfl, fun _ => rfl, fun h => h⟩

theorem ExecutionLater.trans {a b d : ExecutionRow} (h : ExecutionLater a b)
    (h' : ExecutionLater b d) : ExecutionLater a d := by
  refine ⟨?_, fun ha => ?_, fun ha => h'.started (h.started ha)⟩
  · have hb := h.columns
    have hd := h'.columns
    rw [hb] at hd
    exact hd
  · have hb := h.ended ha
    rw [← hb] at ha
    exact (h'.ended ha).trans hb

theorem ExecutionStep.later {live : Prop} {e e' : ExecutionRow} (h : ExecutionStep live e e') :
    ExecutionLater e e' := by
  refine ⟨h.columns, fun he => ?_, fun he => ?_⟩
  · rcases h.state with hs | ⟨hs, _⟩
    · exact hs
    · exact absurd hs he
  · rcases h.started with hs | ⟨hs, _⟩
    · rw [hs, he]
    · rw [he] at hs
      cases hs

theorem Trans.execution (h : Trans H σ ν) {k : Bytes} {e : ExecutionRow}
    (he : σ.lookup (.execution k) = some e) :
    ∃ e' : ExecutionRow, ν.lookup (.execution k) = some e' ∧ ExecutionLater e e' := by
  cases h with
  | evolve h =>
    obtain ⟨e', he', hs⟩ := (h.key k).execution e he
    exact ⟨e', he', hs.later⟩
  | reserve _ h => exact ⟨e, h.old he, .refl e⟩
  | advance _ _ _ h => exact ⟨e, h.old he, .refl e⟩
  | rotate h => exact ⟨e, (h _ fun _ => Row.noConfusion).trans he, .refl e⟩

theorem later_execution (h : ReflTransGen (Trans H) σ ν) {k : Bytes}
    {e : ExecutionRow} (he : σ.lookup (.execution k) = some e) :
    ∃ e' : ExecutionRow, ν.lookup (.execution k) = some e' ∧ ExecutionLater e e' := by
  induction h with
  | refl => exact ⟨e, he, .refl e⟩
  | tail _ hs ih =>
    obtain ⟨e1, he1, h1⟩ := ih
    obtain ⟨e2, he2, h2⟩ := hs.execution he1
    exact ⟨e2, he2, h1.trans h2⟩

/-! ## Requests -/

structure ActiveAt (σ : Tables) (rk : Bytes) (q : RequestRow) (a : ExecutionRow) : Prop where
  request : σ.lookup (.request rk) = some q
  execution : σ.lookup (.execution q.activeExecution) = some a

theorem Inv.active (hi : Inv H σ) (hq : σ.lookup (.request rk) = some q) :
    ∃ a, ActiveAt σ rk q a ∧ a.requestKey = rk := by
  obtain ⟨a, ha⟩ := hi.request rk q hq
  exact ⟨a, ⟨hq, ha.active⟩, ha.own⟩

/-- A commit leaves a request what it is, and never moves it to an older
execution. -/
theorem Trans.active (h : Trans H σ ν) (ha : ActiveAt σ rk q a) :
    ∃ q' a', ActiveAt ν rk q' a' ∧ q'.request = q.request ∧ a.fence ≤ a'.fence := by
  cases h with
  | evolve h =>
    obtain ⟨a', ha', hs⟩ := (h.key _).execution a ha.execution
    refine ⟨q, a', ⟨(h.request rk).trans ha.request, ha'⟩, rfl, ?_⟩
    rw [hs.fixed.2.2.2.2.1]
  | reserve e h _ absent _ =>
    have hrk : rk ≠ (requestFor e.plan).keyDigest H := by
      rintro rfl
      exact absurd (absent.symm.trans ha.request) nofun
    exact ⟨q, a, ⟨(h.otherRequest rk hrk).trans ha.request, h.old ha.execution⟩, rfl, le_refl _⟩
  | advance e old q0 h request _ active _ next _ filed =>
    by_cases hrk : rk = (requestFor e.plan).keyDigest H
    · subst hrk
      cases request.symm.trans ha.request
      cases active.symm.trans ha.execution
      refine ⟨_, _, ⟨filed, h.row⟩, rfl, ?_⟩
      exact Nat.le_of_lt (Nat.lt_of_lt_of_eq (Nat.lt_succ_self _) next.symm)
    · exact ⟨q, a, ⟨(h.otherRequest rk hrk).trans ha.request, h.old ha.execution⟩, rfl, le_refl _⟩
  | rotate h =>
    exact ⟨q, a, ⟨(h _ fun _ => Row.noConfusion).trans ha.request,
      (h _ fun _ => Row.noConfusion).trans ha.execution⟩, rfl, le_refl _⟩

/-- It starts at fence one, and moves on by one. -/
theorem Trans.active_from (h : Trans H σ ν) (hi : Inv H σ) (ha : ActiveAt ν rk q' a') :
    a'.fence = 1 ∨ ∃ q a, ActiveAt σ rk q a ∧ a'.fence ≤ a.fence + 1 := by
  cases hσ : σ.lookup (.request rk) with
  | none =>
    refine .inl ?_
    cases h with
    | evolve h => exact absurd (((h.request rk).trans hσ).symm.trans ha.request) nofun
    | reserve e h first _ filed =>
      by_cases hrk : rk = (requestFor e.plan).keyDigest H
      · subst hrk
        cases filed.symm.trans ha.request
        cases h.row.symm.trans ha.execution
        exact first
      · exact absurd (((h.otherRequest rk hrk).trans hσ).symm.trans ha.request) nofun
    | advance e _ _ h request =>
      have hrk : rk ≠ (requestFor e.plan).keyDigest H := by
        rintro rfl
        exact absurd (hσ.symm.trans request) nofun
      exact absurd (((h.otherRequest rk hrk).trans hσ).symm.trans ha.request) nofun
    | rotate h =>
      exact absurd (((h _ fun _ => Row.noConfusion).trans hσ).symm.trans ha.request) nofun
  | some q =>
    obtain ⟨a, hactive, _⟩ := hi.active hσ
    refine .inr ⟨q, a, hactive, ?_⟩
    cases h with
    | evolve h =>
      cases ((h.request rk).trans hσ).symm.trans ha.request
      obtain ⟨e, he, hs⟩ := (h.key _).back ha.execution
      cases he.symm.trans hactive.execution
      rw [hs.fixed.2.2.2.2.1]
      exact Nat.le_succ _
    | reserve e h _ absent _ =>
      have hrk : rk ≠ (requestFor e.plan).keyDigest H := by
        rintro rfl
        exact absurd (absent.symm.trans hσ) nofun
      cases ((h.otherRequest rk hrk).trans hσ).symm.trans ha.request
      cases (h.old hactive.execution).symm.trans ha.execution
      exact Nat.le_succ _
    | advance e old q0 h request _ active _ next _ filed =>
      by_cases hrk : rk = (requestFor e.plan).keyDigest H
      · subst hrk
        cases request.symm.trans hσ
        cases active.symm.trans hactive.execution
        cases filed.symm.trans ha.request
        cases h.row.symm.trans ha.execution
        exact Nat.le_of_eq next
      · cases ((h.otherRequest rk hrk).trans hσ).symm.trans ha.request
        cases (h.old hactive.execution).symm.trans ha.execution
        exact Nat.le_succ _
    | rotate h =>
      cases ((h _ fun _ => Row.noConfusion).trans hσ).symm.trans ha.request
      cases ((h _ fun _ => Row.noConfusion).trans hactive.execution).symm.trans ha.execution
      exact Nat.le_succ _

theorem later_active (h : ReflTransGen (Trans H) σ ν) (ha : ActiveAt σ rk q a) :
    ∃ q' a', ActiveAt ν rk q' a' ∧ q'.request = q.request ∧ a.fence ≤ a'.fence := by
  induction h with
  | refl => exact ⟨q, a, ha, rfl, le_refl _⟩
  | tail _ hs ih =>
    obtain ⟨q1, a1, ha1, hq1, hf1⟩ := ih
    obtain ⟨q2, a2, ha2, hq2, hf2⟩ := hs.active ha1
    exact ⟨q2, a2, ha2, hq2.trans hq1, le_trans hf1 hf2⟩

/-! ## What a lookup may answer -/

/-- Another input is stored under the owner, scope and key of this request. -/
def Conflicts (H : Sha256) (r : Request) (σ : Tables) : Prop :=
  ∃ q : RequestRow, σ.lookup (.request (r.keyDigest H)) = some q ∧
    q.owner = r.owner ∧ q.scope = r.scope ∧ q.idempotencyKey = r.key ∧ q.inputHash ≠ r.inputHash

theorem Conflicts.later (hi : Inv H σ) (h : ReflTransGen (Trans H) σ ν) (hc : Conflicts H r σ) :
    Conflicts H r ν := by
  obtain ⟨q, hq, ho, hs, hk, hh⟩ := hc
  obtain ⟨a, ha, _⟩ := hi.active hq
  obtain ⟨q', a', ha', hsame, _⟩ := later_active h ha
  simp only [RequestRow.request, Request.mk.injEq] at hsame
  obtain ⟨ho', hs', hk', hh'⟩ := hsame
  exact ⟨q', ha'.request, ho'.trans ho, hs'.trans hs, hk'.trans hk, fun heq => hh (hh' ▸ heq)⟩

/-- A request that is stored with one input is not stored with another later. -/
theorem Conflicts.back (hi : Inv H σ) (h : ReflTransGen (Trans H) σ ν)
    (hq : σ.lookup (.request (r.keyDigest H)) = some q) (hc : Conflicts H r ν) :
    Conflicts H r σ := by
  obtain ⟨q', hq', ho, hs, hk, hh⟩ := hc
  obtain ⟨a, ha, _⟩ := hi.active hq
  obtain ⟨q'', a', ha', hsame, _⟩ := later_active h ha
  cases hq'.symm.trans ha'.request
  simp only [RequestRow.request, Request.mk.injEq] at hsame
  obtain ⟨ho', hs', hk', hh'⟩ := hsame
  exact ⟨q, hq, ho' ▸ ho, hs' ▸ hs, hk' ▸ hk, hh' ▸ hh⟩

/-- A reservation that a call may return which begins at `σ` and ends at `ν`: an
execution of the request, not older than the active one at the beginning nor
newer than the active one at the end. -/
structure Current (H : Sha256) (r : Request) (res : Reservation) (σ ν : Tables) : Prop where
  request : requestFor res.execution.plan = r
  stored : ∃ k, ∃ x : ExecutionRow, ν.lookup (.execution k) = some x ∧
    x.requestKey = r.keyDigest H ∧ x.plan = res.execution.plan ∧ x.fence = res.execution.fence
  notBefore : ∀ q a, ActiveAt σ (r.keyDigest H) q a → a.fence ≤ res.execution.fence
  notAfter : ∃ q a, ActiveAt ν (r.keyDigest H) q a ∧ res.execution.fence ≤ a.fence

theorem Current.earlier {σ' : Tables} (h : ReflTransGen (Trans H) σ' σ)
    (hc : Current H r res σ ν) : Current H r res σ' ν := by
  refine { hc with notBefore := fun q a ha => ?_ }
  obtain ⟨q', a', ha', _, hle⟩ := later_active h ha
  exact le_trans hle (hc.notBefore q' a' ha')

theorem Current.later {ν' : Tables} (h : ReflTransGen (Trans H) ν ν') (hc : Current H r res σ ν) :
    Current H r res σ ν' := by
  obtain ⟨k, x, hx, hrk, hplan, hfence⟩ := hc.stored
  obtain ⟨x', hx', hlater⟩ := later_execution h hx
  have hsame := hlater.columns
  obtain ⟨q, a, ha, hle⟩ := hc.notAfter
  obtain ⟨q', a', ha', _, hle'⟩ := later_active h ha
  refine { hc with
    stored := ⟨k, x', hx', ?_, ?_, ?_⟩, notAfter := ⟨q', a', ha', le_trans hle hle'⟩ }
  · rw [hsame, hrk]
  · rw [hsame, hplan]
  · rw [hsame, hfence]

theorem Current.not_conflicts (hi : Inv H ν) (h : Current H r res σ ν) : ¬ Conflicts H r ν := by
  rintro ⟨q, hq, _, _, _, hne⟩
  obtain ⟨k, x, hx, hrk, hplan, _⟩ := h.stored
  obtain ⟨q', hq', hreq⟩ := hi.filed k x hx
  rw [hrk] at hq'
  cases hq.symm.trans hq'
  rw [hplan, h.request] at hreq
  exact hne (congrArg Request.inputHash hreq)

/-- The first execution of a request, at the commit that reserves it. -/
theorem Issued.current {e : Execution} (h : Issued H e σ ν) (hr : requestFor e.plan = r)
    (absent : σ.lookup (.request (r.keyDigest H)) = none)
    (filed : ν.lookup (.request (r.keyDigest H)) = some (requestRow r (e.key H)))
    (he : res.execution = e) : Current H r res σ ν := by
  subst he
  refine ⟨hr, ⟨_, _, h.row, congrArg (Request.keyDigest H) hr, rfl, rfl⟩, fun q a ha => ?_,
    ⟨_, _, ⟨filed, h.row⟩, le_refl _⟩⟩
  exact absurd (absent.symm.trans ha.request) nofun

/-- What a lookup shows that begins at `σ` and ends at `ν`. -/
structure Shown (H : Sha256) (r : Request) (res : Reservation) (σ ν : Tables) : Prop
    extends Current H r res σ ν where
  acquired : res.acquired = false
  token : res.execution.token = 0

end ReliableMessaging.MySql
