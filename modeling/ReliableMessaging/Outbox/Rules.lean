import ReliableMessaging.Outbox.Contract

/-!
# Outbox programs keep the contract: what the stores share

A transaction over the outbox may commit whenever everything it has staged is
a step of a record (`TxOk`); locks keep that true while others commit. The
settlements are the same statement in both stores, so one rule serves both
(`wp_settleBy`).
-/

namespace ReliableMessaging.Outbox

open TxLang Option
open Relation (ReflTransGen)

variable {K : Type} [DecidableEq K] {H : Sha256} {parse : String → Option K} {strict : Prop}
variable {S : Record → Record → Prop}
variable {A : Table K → Table K → Prop} {iso : Isolation} {c : Ctx (Val K) Answer}
variable {own : List (Entry (Val K) Answer)} {σ ν : Table K} {t u : Tx (Val K)} {k : K}

/-- A staged record: a step of the record that is there, or a new one with its
index entry; and published only if its client has had it confirmed. -/
structure Staged (H : Sha256) (parse : String → Option K) (strict : Prop)
    (S : Record → Record → Prop) (own : List (Entry (Val K) Answer)) (σ : Table K) (t : Tx (Val K))
      (k : K)
    (r' : Record) : Prop where
  origin : (∃ r : Record, σ.lookup (.record k) = some r ∧ Next r r' ∧ ReflTransGen S r r') ∨
    σ.lookup (.record k) = none ∧ (∃ r, Fresh r ∧ ReflTransGen S r r') ∧
      (strict → t.writes.lookup (.identity r'.identity) = some k)
  intact : strict → Intact H r'
  earned : strict → r'.state = .published →
    σ.lookup (.record k) = some r' ∨ Confirmed parse own k r'

/-- A transaction that may commit at these rows. -/
structure TxOk (H : Sha256) (parse : String → Option K) (strict : Prop)
    (S : Record → Record → Prop) (own : List (Entry (Val K) Answer)) (σ : Table K)
      (t : Tx (Val K)) : Prop where
  held : ∀ row v, t.writes.lookup row = some v → t.Holds row
  record : ∀ k (r' : Record), t.writes.lookup (.record k) = some r' →
    Staged H parse strict S own σ t k r'
  identity : ∀ i k, t.writes.lookup (.identity i) = some k → σ.lookup (.identity i) = none

theorem TxOk.start (h : ∀ row, t.writes.lookup row = none) : TxOk H parse strict S own σ t where
  held := fun row v hv => by rw [h row] at hv; cases hv
  record := fun k r hr => by rw [h (.record k)] at hr; cases hr
  identity := fun i k hk => by rw [h (.identity i)] at hk; cases hk

theorem TxOk.locks (h : TxOk H parse strict S own σ t) (hw : u.writes = t.writes)
    (hh : ∀ row, t.Holds row → u.Holds row) : TxOk H parse strict S own σ u where
  held := fun row v hv => hh row (h.held row v (hw ▸ hv))
  record := fun k r hr => by
    rw [hw] at hr
    obtain ⟨horigin, hintact, hun⟩ := h.record k r hr
    exact ⟨by rwa [hw], hintact, hun⟩
  identity := fun i k hk => h.identity i k (hw ▸ hk)

theorem TxOk.env (h : TxOk H parse strict S own σ t)
    (henv : Env (pact H parse strict S) A (some t) σ ν) : TxOk H parse strict S own ν t where
  held := h.held
  record := by
    intro k r hr
    have hsame : ν.lookup (.record k) = σ.lookup (.record k) := henv.held (h.held _ _ hr)
    obtain ⟨horigin, hintact, hun⟩ := h.record k r hr
    rw [← hsame] at horigin hun
    exact ⟨horigin, hintact, hun⟩
  identity := by
    intro i k hk
    rw [henv.held (h.held _ _ hk)]
    exact h.identity i k hk

/-- The record that a transaction sees is a later one of the committed one. -/
theorem TxOk.onward (h : TxOk H parse strict S own σ t) : Onward σ (t.writes ∪ σ) := by
  intro k r hr
  cases hw : t.writes.lookup (.record k) with
  | none => exact ⟨r, by rw [lookup_union_of_none hw, hr], Next.refl r⟩
  | some r' =>
    refine ⟨r', lookup_union_of_some hw, ?_⟩
    rcases (h.record k r' hw).origin with ⟨r0, hr0, hnext, _⟩ | ⟨hnone, _⟩
    · cases hr.symm.trans hr0
      exact hnext
    · rw [hr] at hnone
      cases hnone

theorem TxOk.inv (h : TxOk H parse strict S own σ t) (hs : strict) (hi : Inv H σ) : Inv H
  (t.writes ∪ σ) where
  intact := by
    intro k r hr
    cases hw : t.writes.lookup (.record k) with
    | none =>
      rw [lookup_union_of_none hw] at hr
      exact hi.intact k r hr
    | some r' =>
      cases (lookup_union_of_some hw).symm.trans hr
      exact (h.record k r hw).intact hs
  entry := by
    intro k r hr
    -- an entry that is there cannot have been staged again
    have hkept : σ.lookup (.identity r.identity) = some k →
        (t.writes ∪ σ).lookup (.identity r.identity) = some k := by
      intro hentry
      cases hw : t.writes.lookup (.identity r.identity) with
      | none => rw [lookup_union_of_none hw, hentry]
      | some k' =>
        rw [h.identity _ k' hw] at hentry
        cases hentry
    cases hw : t.writes.lookup (.record k) with
    | none =>
      rw [lookup_union_of_none hw] at hr
      exact hkept (hi.entry k r hr)
    | some r' =>
      cases (lookup_union_of_some hw).symm.trans hr
      rcases (h.record k r hw).origin with ⟨r0, hr0, hnext, _⟩ | ⟨_, _, hentry⟩
      · rw [hnext.identity] at hkept ⊢
        exact hkept (hi.entry k r0 hr0)
      · exact lookup_union_of_some (hentry hs)

theorem TxOk.promised (h : TxOk H parse strict S own σ t) : Promised S σ (t.writes ∪ σ) := by
  intro k r' hr'
  cases hw : t.writes.lookup (.record k) with
  | none =>
    rw [lookup_union_of_none hw] at hr'
    exact .inl ⟨r', hr', .refl⟩
  | some r1 =>
    cases (lookup_union_of_some hw).symm.trans hr'
    rcases (h.record k r' hw).origin with ⟨r, hr, _, hsteps⟩ | ⟨hnone, hfresh, _⟩
    · exact .inl ⟨r, hr, hsteps⟩
    · exact .inr ⟨hnone, hfresh⟩

theorem TxOk.publishes (h : TxOk H parse strict S own σ t) (hi : strict → Inv H σ)
    (tx : Option (Tx (Val K))) :
    Publishes (pact H parse strict S) ⟨σ, tx, own⟩ (t.writes ∪ σ) := by
  refine ⟨⟨h.onward, fun hs => h.inv hs (hi hs)⟩, fun hs k r hr hpub => ?_, h.promised⟩
  cases hw : t.writes.lookup (.record k) with
  | none =>
    rw [lookup_union_of_none hw] at hr
    exact .inl hr
  | some r' =>
    cases (lookup_union_of_some hw).symm.trans hr
    exact (h.record k r hw).earned hs hpub

variable {r r' : Record} {rows : Table K}

theorem TxOk.intact (h : TxOk H parse strict S own σ t) (hi : strict → Inv H σ)
    (hr : (t.writes ∪ σ).lookup (.record k) = some r) (hs : strict) : Intact H r :=
  (h.inv hs (hi hs)).intact k r hr

theorem Staged.stage (h : Staged H parse strict S own σ t k r)
    (hrows : ∀ i k', t.writes.lookup (.identity i) = some k' → rows.lookup (.identity i) = none) :
    Staged H parse strict S own σ (t.stage rows) k r := by
  refine ⟨h.origin.imp_right ?_, h.intact, h.earned⟩
  rintro ⟨hnone, hfresh, hentry⟩
  refine ⟨hnone, hfresh, fun hs => ?_⟩
  rw [lookup_stage, hrows _ k (hentry hs), none_or]
  exact hentry hs

/-- Staging a step of a record that the transaction sees. -/
theorem TxOk.set (h : TxOk H parse strict S own σ t) (hi : strict → Inv H σ)
    (hr : (t.writes ∪ σ).lookup (.record k) = some r) (hnext : Next r r') (hstep : S r r')
    (hintact : Intact H r → Intact H r')
    (hstate : strict → r'.state = .published → Confirmed parse own k r')
    (hrow : rows.lookup (.record k) = some r')
    (hother : ∀ row, row ≠ .record k → rows.lookup row = none) :
    TxOk H parse strict S own σ (t.stage rows) where
  held := by
    intro row v hv
    by_cases heq : row = .record k
    · subst heq
      exact holds_stage hrow
    · rw [lookup_stage, hother row heq, none_or] at hv
      exact Tx.Holds.stage (h.held row v hv) rows
  record := by
    intro k' r1 hr1
    have hidentity : ∀ i, rows.lookup (.identity i) = none := fun i => hother _ nofun
    by_cases heq : k' = k
    · subst heq
      rw [lookup_stage, hrow, some_or] at hr1
      cases hr1
      refine ⟨?_, fun hs => hintact (h.intact hi hr hs), fun hs hpub => .inr (hstate hs hpub)⟩
      cases hw : t.writes.lookup (.record k') with
      | none =>
        rw [lookup_union_of_none hw] at hr
        exact .inl ⟨r, hr, hnext, .single hstep⟩
      | some r0 =>
        cases (lookup_union_of_some hw).symm.trans hr
        refine (h.record k' r hw).origin.imp ?_ ?_
        · rintro ⟨r2, hr2, hn, hsteps⟩
          exact ⟨r2, hr2, hn.trans hnext, hsteps.tail hstep⟩
        · rintro ⟨hnone, ⟨r2, hfresh, hsteps⟩, hentry⟩
          refine ⟨hnone, ⟨r2, hfresh, hsteps.tail hstep⟩, fun hs => ?_⟩
          rw [hnext.identity, lookup_stage, hidentity, none_or]
          exact hentry hs
    · rw [lookup_stage, hother _ (fun hrow => heq (Row.record.inj hrow)), none_or] at hr1
      exact (h.record k' r1 hr1).stage fun i _ _ => hidentity i
  identity := by
    intro i k' hk'
    rw [lookup_stage, hother (.identity i) nofun, none_or] at hk'
    exact h.identity i k' hk'

/-- Staging a new record, which nobody sees yet, with its index entry. -/
theorem TxOk.insert (h : TxOk H parse strict S own σ t) (hintact : strict → Intact H r)
    (hfresh : Fresh r) (hrow : rows.lookup (.record k) = some r)
    (hentry : strict → rows.lookup (.identity r.identity) = some k)
    (hrecords : ∀ k', k' ≠ k → rows.lookup (.record k') = none)
    (hnew : ∀ row v, rows.lookup row = some v → (t.writes ∪ σ).lookup row = none) :
    TxOk H parse strict S own σ (t.stage rows) where
  held := by
    intro row v hv
    rw [lookup_stage] at hv
    cases hrows : rows.lookup row with
    | some v' => exact holds_stage hrows
    | none =>
      rw [hrows, none_or] at hv
      exact Tx.Holds.stage (h.held row v hv) rows
  record := by
    intro k' r1 hr1
    by_cases heq : k' = k
    · subst heq
      rw [lookup_stage, hrow, some_or] at hr1
      cases hr1
      have hnone := hnew (.record k') r hrow
      rw [lookup_union, or_eq_none_iff] at hnone
      refine ⟨.inr ⟨hnone.2, ⟨r, hfresh, .refl⟩, fun hs => ?_⟩, hintact, fun _ hpub => ?_⟩
      · rw [lookup_stage, hentry hs, some_or]
      · rw [hfresh.state] at hpub
        cases hpub
    · rw [lookup_stage, hrecords k' heq, none_or] at hr1
      refine (h.record k' r1 hr1).stage fun i k1 hk1 => ?_
      by_contra hsome
      obtain ⟨v, hv⟩ := ne_none_iff_exists'.mp hsome
      have hnone := hnew (.identity i) v hv
      rw [lookup_union_of_some hk1] at hnone
      cases hnone
  identity := by
    intro i k' hk'
    rw [lookup_stage] at hk'
    cases hrows : rows.lookup (.identity i) with
    | some v =>
      have hnone := hnew (.identity i) v hrows
      rw [lookup_union, or_eq_none_iff] at hnone
      exact hnone.2
    | none =>
      rw [hrows, none_or] at hk'
      exact h.identity i k' hk'

/-! ## What a transaction sees -/

theorem onward_env (henv : Env (pact H parse strict S) A (some t) σ ν) :
    Onward (t.writes ∪ σ) (t.writes ∪ ν) := by
  intro k r hr
  cases hw : t.writes.lookup (.record k) with
  | some r' =>
    cases (lookup_union_of_some hw).symm.trans hr
    exact ⟨r, lookup_union_of_some hw, Next.refl r⟩
  | none =>
    rw [lookup_union_of_none hw] at hr ⊢
    exact Later.onward henv.later k r hr

theorem onward_stage
    (h : ∀ k (r r' : Record), (t.writes ∪ σ).lookup (.record k) = some r →
      rows.lookup (.record k) = some r' → Next r r') :
    Onward (t.writes ∪ σ) ((t.stage rows).writes ∪ σ) := by
  intro k r hr
  cases hrows : rows.lookup (.record k) with
  | none =>
    refine ⟨r, ?_, Next.refl r⟩
    rw [lookup_stage_union_of_none hrows, hr]
  | some r' => exact ⟨r', lookup_stage_union_of_some hrows, h k r r' hr hrows⟩

/-! ## Statements that are transactions of their own -/

theorem publishes_set (hi : strict → Inv H σ) (hr : σ.lookup (.record k) = some r)
    (hnext : Next r r') (hstep : S r r') (hintact : Intact H r → Intact H r')
    (hstate : strict → r'.state = .published → Confirmed parse own k r')
    (hrow : rows.lookup (.record k) = some r')
    (hother : ∀ row, row ≠ .record k → rows.lookup row = none) (tx : Option (Tx (Val K))) :
    Publishes (pact H parse strict S) ⟨σ, tx, own⟩ (rows ∪ σ) := by
  have hstart : TxOk H parse strict S own σ ({ snap := σ } : Tx (Val K)) :=
    .start fun row => AList.lookup_empty row
  have hsee : (({ snap := σ } : Tx (Val K)).writes ∪ σ).lookup (.record k) = some r := by
    rw [lookup_union_of_none (AList.lookup_empty _), hr]
  have hok := hstart.set hi hsee hnext hstep hintact hstate hrow hother
  have hpub := hok.publishes hi tx
  rwa [show ((({ snap := σ } : Tx (Val K)).stage rows).writes) = rows from AList.union_empty]
    at hpub

theorem publishes_none (hi : strict → Inv H σ) (hnone : ∀ row, rows.lookup row = none)
    (tx : Option (Tx (Val K))) :
    Publishes (pact H parse strict S) ⟨σ, tx, own⟩ (rows ∪ σ) := by
  have hok : TxOk H parse strict S own σ ({ writes := rows, snap := σ } : Tx (Val K)) :=
    .start hnone
  exact hok.publishes hi tx

/-! ## Settlements -/

/-- Whoever settles a claim as published has had its message confirmed. -/
def MayPublish (parse : String → Option K) (cl : Claim) (c : Ctx (Val K) Answer) : Prop :=
  Claimed parse cl c.db ∧
    ∃ raw, Entry.called (.publish cl) (some raw) ∈ c.log ∧ Outcome.ofRaw raw = .confirmed

variable {cl : Claim} {set : Nat → Record → Record}

theorem version_of_claimedBy {clock : Nat} (h : r.claimedBy cl clock = true) :
    r.version = cl.version := by
  simp only [Record.claimedBy, Bool.and_eq_true, decide_eq_true_eq] at h
  exact h.1.1.2

theorem publishes_settle (hset : Columns set) (hk : parse cl.recordID = some k)
    (hi : strict → Inv H c.db)
    (hstep : ∀ clock r, r.claimedBy cl clock = true → S r (r.settle set clock))
    (hmay : strict → (∀ clock r, (set clock r).state ≠ .published) ∨ MayPublish parse cl c)
    (clock : Nat) : Publishes (pact H parse strict S) c
      (setRecord k (Record.claimedBy cl clock) (Record.settle set clock) c.db ∪ c.db) := by
  rcases setRecord_cases k (Record.claimedBy cl clock) (Record.settle set clock) c.db with
    ⟨r, hr, hby, hrow, _, hother⟩ | hnone
  · refine publishes_set hi hr (hset.next clock r) (hstep clock r hby) (hset.intact clock) ?_ hrow
      hother c.tx
    intro hs hpub
    rcases hmay hs with hnever | ⟨hclaimed, raw, hcalled, hraw⟩
    · exact absurd hpub (hnever clock r)
    · refine ⟨cl, raw, hcalled, hraw, hk, ?_, ?_⟩
      · rw [← version_of_claimedBy hby]
        rfl
      · rw [(hset.next clock r).input, (hclaimed.holder hk hr hby).1]
  · exact publishes_none hi hnone c.tx

theorem settles_or_none (set : Nat → Record → Record) (hk : parse cl.recordID = some k)
    (clock : Nat) (σ : Table K) :
    Settles parse cl clock σ
        (setRecord k (Record.claimedBy cl clock) (Record.settle set clock) σ ∪ σ) ∨
      ∀ row, (setRecord k (Record.claimedBy cl clock) (Record.settle set clock) σ).lookup row =
        none := by
  refine (setRecord_cases k _ _ σ).imp_left ?_
  rintro ⟨r, hr, hby, hrow, _, hother⟩
  refine ⟨k, r, _, hk, hr, hby, lookup_union_of_some hrow, ?_, rfl, fun row hne => ?_⟩
  · rw [← version_of_claimedBy hby]
    rfl
  · exact lookup_union_of_none (hother row hne)

/-- A settlement asks nothing of the world, and returns without an error only
if its statement has settled the claim. -/
theorem wp_settleBy (hset : Columns set) (hnone : c.tx = none)
    (hstep : ∀ clock r, r.claimedBy cl clock = true → S r (r.settle set clock))
    (hmay : strict → (∀ clock r, (set clock r).state ≠ .published) ∨ MayPublish parse cl c) :
    wp (pact H parse strict S) iso A (settleBy parse cl set).run (fun r c' => c'.tx = none ∧
      (∀ ev ans, Entry.called ev ans ∈ c'.log → Entry.called ev ans ∈ c.log) ∧
      (r = .ok () → ∃ clock before after, Entry.committed before after ∈ c'.log ∧
        Settles parse cl clock before after)) c := by
  refine wp_found_bind ⟨hnone, fun _ _ h => h, nofun⟩ fun k hk => ?_
  refine wp_refuse_bind ⟨hnone, fun _ _ h => h, nofun⟩ fun _ => ?_
  refine wp_auto_run hnone (fun σ clock henv hi => ?_) (fun σ _ _ => ⟨rfl, fun _ _ h => h, nofun⟩)
    fun σ clock henv hi => ?_
  · refine publishes_settle (c := ⟨σ, none, c.log⟩) hset hk hi hstep
      (fun hs => (hmay hs).imp_right ?_) clock
    rintro ⟨hclaimed, hconfirmed⟩
    exact ⟨hclaimed.onward (Later.onward henv.later), hconfirmed⟩
  · refine wp_refuse ⟨rfl, fun ev ans h => ?_, nofun⟩ fun hone =>
      ⟨rfl, fun ev ans h => ?_, fun _ => ?_⟩
    · simpa using h
    · simpa using h
    · simp only [ne_eq, decide_eq_false_iff_not, not_not] at hone
      rcases settles_or_none set hk clock σ with hsettles | hempty
      · exact ⟨clock, _, _, List.mem_append_right _ List.mem_cons_self, hsettles⟩
      · rw [keys_eq_nil_iff.mpr hempty] at hone
        cases hone

/-! ## Marks -/

theorem wp_markAll {evs : List Event} {P : Event → Table K → Prop}
    (hallow : ∀ ev c, P ev c.db → allow H parse c ev)
    (hkeep : ∀ ev σ ν, P ev σ → Onward σ ν → P ev ν) (h : ∀ ev ∈ evs, P ev c.db) :
    wp (pact H parse strict S) iso A (markAll evs) (fun _ _ => True) c := by
  induction evs generalizing c with
  | nil => trivial
  | cons ev rest ih =>
    refine wp_ask ev fun σ henv _ => ⟨?_, fun ans => ih fun ev' hev' => ?_⟩
    · exact hallow ev _ (hkeep ev _ _ (h ev List.mem_cons_self) (Later.onward henv.later))
    · exact hkeep ev' _ _ (h ev' (List.mem_cons_of_mem _ hev')) (Later.onward henv.later)

end ReliableMessaging.Outbox
