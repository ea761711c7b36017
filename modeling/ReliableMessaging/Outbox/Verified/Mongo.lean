import ReliableMessaging.Outbox.Mongo
import ReliableMessaging.Outbox.Rules

/-!
# The Mongo outbox keeps the contract

Here transactions read the documents of their snapshot. A host only adds
documents, and the engine refuses to add one that someone else has added since
the snapshot was taken; so what it stages is new (`SnapOk`). `ClaimDue` is a
sequence of single statements, each of which leases one document.
-/

namespace ReliableMessaging.Outbox.Mongo

open TxLang List

variable {B : Bson} {H : Sha256} {S : Record → Record → Prop}
  {A : Table (Id B) → Table (Id B) → Prop}
variable {c : Ctx (Val (Id B)) Answer} {t : Tx (Val (Id B))} {σ : Table (Id B)}

/-! ## The appender -/

/-- A host's transaction over its snapshot. -/
structure SnapOk (H : Sha256) (S : Record → Record → Prop)
    (log : List (Entry (Val (Id B)) Answer)) (σ : Table (Id B)) (t : Tx (Val (Id B))) :
    Prop where
  ok : TxOk H (parseID B) False S log σ t
  wrote : ∀ row ∈ t.excl, t.writes.lookup row ≠ none
  since : Onward t.snap σ

variable {log : List (Entry (Val (Id B)) Answer)} {id : Id B} {steps : List (Message × Option Nat)}
variable {r : Record} {millis : Nat}

theorem SnapOk.env {ν : Table (Id B)} (h : SnapOk H S log σ t)
    (henv : Env (pact H (parseID B) False S) A (some t) σ ν) : SnapOk H S log ν t :=
  ⟨h.ok.env henv, h.wrote, h.since.trans (Later.onward henv.later)⟩

theorem SnapOk.absent (h : SnapOk H S log σ t)
    (hsee : (view .snapshot σ (some t)).lookup (.record id) = none)
    (hmay : Row.record id ∈ t.excl ∨ σ.lookup (.record id) = t.snap.lookup (.record id)) :
    (t.writes ∪ σ).lookup (.record id) = none := by
  rw [show view .snapshot σ (some t) = t.writes ∪ t.snap from rfl, lookup_union,
    Option.or_eq_none_iff] at hsee
  rcases hmay with hexcl | hsame
  · exact absurd hsee.1 (h.wrote _ hexcl)
  · rw [lookup_union_of_none hsee.1, hsame]
    exact hsee.2

theorem wpc_append {m : Message} {due : Option Nat} {Q : Unit → Ctx (Val (Id B)) Answer → Prop}
    (ht : c.tx = some t) (hok : SnapOk H S c.log c.db t)
    (h : ∀ σ t', SnapOk H S c.log σ t' → Onward (t.writes ∪ c.db) (t'.writes ∪ σ) →
      Appended H m (t'.writes ∪ σ) → Q () ⟨σ, some t', c.log⟩) :
    wpc (pact H (parseID B) False S) .snapshot A (append H m due) Q c := by
  obtain ⟨db, tx, log⟩ := c
  subst ht
  refine wpc_bind (wpc_refuse fun hv => wpc_bind (wpc_found fun due _ => wpc_bind (wpc_now
    fun σ1 now henv1 _ => wpc_bind (wpc_update rfl fun σ2 henv2 _ hmay => ?_))))
  have henv := henv1.trans henv2
  have hok2 := hok.env henv
  generalize hrows : setOnInsert (idOf B (identityOf m.input)) _ _ = rows at hmay ⊢
  -- nothing was written, or a new document was
  have hstaged : SnapOk H S log σ2 (t.stage rows) ∧
      Onward (t.writes ∪ σ2) ((t.stage rows).writes ∪ σ2) := by
    unfold setOnInsert at hrows
    split at hrows
    next hsee =>
      subst hrows
      have hkey := hok2.absent hsee (hmay rfl _ (mem_keys_iff_lookup.mpr
        ⟨_, lookup_singleton_self _ _⟩))
      refine ⟨⟨?_, ?_, hok2.since⟩, onward_stage fun k r r' hr hr' => ?_⟩
      · refine hok2.ok.insert nofun ⟨rfl, rfl, rfl, rfl, rfl, rfl⟩ (lookup_singleton_self _ _) nofun
          (fun k' hk' => lookup_singleton_ne _ fun heq => hk' (Row.record.inj heq))
          fun row v hv => ?_
        by_cases hrow : row = .record (idOf B (identityOf m.input))
        · subst hrow
          exact hkey
        · rw [lookup_singleton_ne _ hrow] at hv
          cases hv
      · intro row hrow
        rw [lookup_stage]
        rcases mem_append.mp hrow with hnew | hold
        · obtain ⟨v, hv⟩ := mem_keys_iff_lookup.mp hnew
          rw [hv]
          exact Option.some_ne_none v
        · intro hnone
          exact hok2.wrote row hold (Option.or_eq_none_iff.mp hnone).2
      · by_cases hk : k = idOf B (identityOf m.input)
        · subst hk
          cases hkey.symm.trans hr
        · rw [lookup_singleton_ne _ fun heq => hk (Row.record.inj heq)] at hr'
          cases hr'
    · subst hrows
      have hsame : (t.stage ∅).writes = t.writes := AList.empty_union
      refine ⟨⟨hok2.ok.locks hsame fun row hr => hr.stage ∅, fun row hrow => ?_, hok2.since⟩, ?_⟩
      · rw [hsame]
        exact hok2.wrote row hrow
      · rw [hsame]
        exact Onward.refl _
  obtain ⟨hok', honward⟩ := hstaged
  refine wpc_bind (wpc_select fun σ3 henv3 _ => wpc_bind (wpc_found fun existing hrow =>
    wpc_refuse fun hsame => ?_))
  simp only [ne_eq, decide_eq_false_iff_not, not_not] at hsame
  have hok3 := hok'.env henv3
  refine h σ3 _ hok3 (((onward_env henv).trans honward).trans (onward_env henv3)) ?_
  have hsee : Appended H m ((t.stage rows).writes ∪ (t.stage rows).snap) :=
    ⟨by simpa using hv, _, existing, hrow, hsame⟩
  refine hsee.onward fun k r hr => ?_
  cases hw : (t.stage rows).writes.lookup (.record k) with
  | some r' =>
    cases (lookup_union_of_some hw).symm.trans hr
    exact ⟨r, lookup_union_of_some hw, Next.refl r⟩
  | none =>
    rw [lookup_union_of_none hw] at hr ⊢
    exact hok3.since k r hr

theorem wpc_hostSteps {done : List Message} {Q : List Message → Ctx (Val (Id B)) Answer → Prop}
    (ht : c.tx = some t) (hok : SnapOk H S c.log c.db t)
    (hdone : ∀ m ∈ done, Appended H m (t.writes ∪ c.db))
    (h : ∀ σ t' ms, SnapOk H S c.log σ t' → (∀ m ∈ ms, Appended H m (t'.writes ∪ σ)) →
      Q ms ⟨σ, some t', c.log⟩) :
    wpc (pact H (parseID B) False S) .snapshot A (hostSteps H steps done) Q c := by
  induction steps generalizing c t done with
  | nil =>
    obtain ⟨db, tx, log⟩ := c
    subst ht
    exact wpc_pure (h db t done hok hdone)
  | cons step steps ih =>
    obtain ⟨m, due⟩ := step
    refine wpc_bind (wpc_append ht hok fun σ t' hok' honward hm => ?_)
    refine ih rfl hok' (fun m' hm' => ?_) h
    rcases mem_append.mp hm' with hold | hnew
    · exact (hdone m' hold).onward honward
    · cases mem_singleton.mp hnew
      exact hm

theorem wp_hostTransaction {commits : Bool} (hnone : c.tx = none) :
    wp (pact H (parseID B) False S) .snapshot A (hostTransaction H steps commits).run
      (fun r c' => ∀ ms, r = .ok ms → ∀ m ∈ ms, Appended H m c'.db) c := by
  refine wp_withTx hnone (fun _ _ _ _ hms => nomatch hms) fun σ1 _ hi1 => ?_
  have hstart : SnapOk H S c.log σ1 ({ snap := σ1 } : Tx (Val (Id B))) :=
    ⟨.start fun row => AList.lookup_empty row, nofun, Onward.refl σ1⟩
  refine wpc_bind (wpc_hostSteps rfl hstart (fun _ hm => nomatch hm) fun σ2 t ms hok hms => ?_)
  refine wpc_ite (fun _ => ?_) fun _ => wpc_pure fun _ _ _ _ hnil m hm => ?_
  · refine wpc_bind (wpc_commit rfl (fun σ3 henv3 hi3 => (hok.ok.env henv3).publishes hi3 _)
      fun σ3 henv3 _ => wpc_pure fun σ4 henv4 _ ms' hms' m hm => ?_)
    cases hms'
    exact ((hms m hm).onward (onward_env henv3)).onward (Later.onward henv4.later)
  · cases hnil
    cases hm

/-! ## Claims -/

theorem claimable_of_dueFilter {now : Nat} (h : dueFilter now r = true) : Claimable r := by
  constructor <;> intro hs <;> simp [dueFilter, hs] at h

/-- `FindOneAndUpdate` finds nothing, or leases a document that is there and due. -/
theorem takeDue_cases (token : String) (millis clock : Nat) (σ : Table (Id B)) :
    takeDue token millis clock σ = ∅ ∨
      ∃ id, ∃ r : Record, σ.lookup (.record id) = some r ∧ Claimable r ∧
        takeDue token millis clock σ =
          AList.singleton (.record id) (r.claim token (clock + millis) clock) := by
  unfold takeDue
  split
  · exact .inl rfl
  next id r hfirst =>
    have hmem := mem_of_head? hfirst
    rw [mem_insertionSort, mem_filter] at hmem
    exact .inr ⟨id, r, mem_records hmem.1, claimable_of_dueFilter hmem.2, rfl⟩

theorem wp_quarantine {cl : Claim} {code : String} (hS : ∀ r r', Claims r r' → S r r')
    (hnone : c.tx = none) :
    wp (pact H (parseID B) False S) .snapshot A (quarantine cl code).run
      (fun _ c' => c'.tx = none) c := by
  refine wp_refuse_bind hnone fun _ => wp_mono ?_ (wp_settleBy (columns_setQuarantined code) hnone
    (fun clock r hby => hS _ _ (.corrupt ?_ _ clock)) fun hs => hs.elim)
  · exact fun _ c' hc => hc.1
  · constructor <;> rw [publishing_of_claimedBy hby] <;> exact State.noConfusion

theorem wp_keepOrQuarantine {token : String} {leaseUntil clock : Nat}
    (hS : ∀ r r', Claims r r' → S r r') (hnone : c.tx = none)
    (hrow : c.db.lookup (.record id) = some (r.claim token leaseUntil clock)) :
    wp (pact H (parseID B) False S) .snapshot A
      (keepOrQuarantine H token id (r.claim token leaseUntil clock)) (fun round c' =>
        c'.tx = none ∧ ∀ cl, round = .took cl → Claimed (parseID B) cl c'.db) c := by
  unfold keepOrQuarantine
  split
  next m hm =>
    refine ⟨hnone, fun cl hcl => ?_⟩
    cases hcl
    exact ⟨id, _, parseID_text id, hrow, (message_input hm).symm, Nat.le_refl _,
      fun _ => ⟨rfl, rfl, rfl⟩⟩
  · refine wp_bind (wp_mono (fun done c' hc => ?_) (wp_quarantine hS hnone))
    cases done with
    | error e => exact ⟨hc, nofun⟩
    | ok _ => exact ⟨hc, nofun⟩

theorem wp_claimRound (hS : ∀ r r', Claims r r' → S r r') (hnone : c.tx = none) :
    wp (pact H (parseID B) False S) .snapshot A (claimRound H millis) (fun round c' =>
      c'.tx = none ∧ ∀ cl, round = .took cl → Claimed (parseID B) cl c'.db) c := by
  obtain ⟨db, tx, log⟩ := c
  subst hnone
  refine wp_random_run fun σ entropy _ _ => ?_
  cases entropy with
  | error e => exact ⟨rfl, nofun⟩
  | ok entropy =>
    refine wp_auto_run rfl (fun σ1 clock _ hi1 => ?_) (fun _ _ _ => ⟨rfl, nofun⟩)
      fun σ1 clock _ _ => ?_
    · rcases takeDue_cases (tokenText entropy) millis clock σ1 with
        hnil | ⟨id, r, hr, hclaimable, htook⟩
      · rw [hnil]
        exact publishes_none hi1 (fun row => AList.lookup_empty row) _
      · rw [htook]
        exact publishes_set hi1 hr (next_claim _ _ _ r) (hS _ _ (.lease hclaimable _ _ _))
          (fun hr => hr.claim _ _ _)
          (fun hs => hs.elim) (lookup_singleton_self _ _) (fun row => lookup_singleton_ne _) _
    · rcases takeDue_cases (tokenText entropy) millis clock σ1 with
        hnil | ⟨id, r, _, _, htook⟩
      · rw [hnil]
        exact ⟨rfl, nofun⟩
      · rw [htook]
        exact wp_keepOrQuarantine hS rfl (lookup_union_of_some (lookup_singleton_self _ _))

theorem wp_claimLoop {n : Nat} {claims : List Claim} (hS : ∀ r r', Claims r r' → S r r')
    (hnone : c.tx = none) (hclaims : ∀ cl ∈ claims, Claimed (parseID B) cl c.db) :
    wp (pact H (parseID B) False S) .snapshot A (claimLoop H millis n claims)
      (fun r c' => ∀ cl ∈ r.1, Claimed (parseID B) cl c'.db) c := by
  induction n generalizing c claims with
  | zero => exact hclaims
  | succ n ih =>
    refine wp_bind (wp_mono ?_ (wp_moves (fun hs => hs.elim) (wp_claimRound hS hnone)))
    rintro round c' ⟨⟨hnone', htook⟩, _, hlater⟩
    have hold : ∀ cl ∈ claims, Claimed (parseID B) cl c'.db :=
      fun cl hcl => (hclaims cl hcl).onward (Later.onward hlater)
    cases round with
    | stop err => exact hold
    | skipped => exact ih hnone' hold
    | took cl =>
      refine ih hnone' fun cl' hcl' => ?_
      rcases mem_append.mp hcl' with hcl' | hcl'
      · exact hold cl' hcl'
      · cases mem_singleton.mp hcl'
        exact htook cl rfl

/-- Each claim that `ClaimDue` returns describes its document, also when it
returns an error with them. -/
theorem wp_claimDue {limit lease : Int} (hS : ∀ r r', Claims r r' → S r r') (hnone : c.tx = none) :
    wp (pact H (parseID B) False S) .snapshot A (claimDue H limit lease)
      (fun r c' => ∀ cl ∈ r.1, Claimed (parseID B) cl c'.db) c := by
  unfold claimDue
  split
  · exact fun _ hcl => nomatch hcl
  · exact wp_claimLoop hS hnone fun _ hcl => nomatch hcl

end ReliableMessaging.Outbox.Mongo
