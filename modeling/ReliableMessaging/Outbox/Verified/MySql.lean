import ReliableMessaging.Outbox.MySql
import ReliableMessaging.Outbox.Rules

/-!
# The MySQL outbox keeps the contract

A host stages new records and steps of published ones; `ClaimDue` stages one
step of each row that its scan has locked, and after its commit each claim it
returns describes its record.
-/

namespace ReliableMessaging.Outbox.MySql

open TxLang List Option

variable {H : Sha256} {strict : Prop} {S : Record → Record → Prop}
variable {A : Table Id → Table Id → Prop}
variable {c : Ctx (Val Id) Answer} {t : Tx (Val Id)} {σ : Table Id}

/-- Transactions here: what they may commit, with this store's identifiers. -/
abbrev Ok (H : Sha256) (strict : Prop) (S : Record → Record → Prop)
    (log : List (Entry (Val Id) Answer)) (σ : Table Id) (t : Tx (Val Id)) : Prop :=
  TxOk H parseID strict S log σ t

variable {Q : Nat → Ctx (Val Id) Answer → Prop} {steps : List HostStep} {leaseUntil : Nat}

theorem wpc_timestamp
    (h : ∀ σ clock, Env (pact H parseID strict S) A c.tx c.db σ → (strict → Inv H σ) →
      Q clock ⟨σ, c.tx, c.log⟩) :
    wpc (pact H parseID strict S) .readCommitted A utcTimestamp Q c :=
  wpc_now h

theorem wpc_setRecord {key : Id} {cond : Record → Bool} {set : Record → Record}
    {Q : Table Id → Ctx (Val Id) Answer → Prop} (ht : c.tx = some t)
    (hok : Ok H strict S c.log c.db t) (hnext : ∀ r, cond r = true → Next r (set r))
    (hstep : ∀ σ (r : Record), Env (pact H parseID strict S) A (some t) c.db σ →
      (t.writes ∪ σ).lookup (.record key) = some r → cond r = true → S r (set r))
    (hintact : ∀ r, Intact H r → Intact H (set r)) (hstate : ∀ r, (set r).state ≠ .published)
    (h : ∀ σ t' rows, (strict → Inv H σ) → Ok H strict S c.log σ t' →
      Env (pact H parseID strict S) A (some t) c.db σ →
      Onward (t.writes ∪ c.db) (t'.writes ∪ σ) → (∀ row, t.Holds row → t'.Holds row) →
      (∀ row, row ≠ .record key → t'.writes.lookup row = t.writes.lookup row) →
      (∀ r : Record, (t.writes ∪ σ).lookup (.record key) = some r → cond r = true →
        t'.writes.lookup (.record key) = some (set r)) →
      Q rows ⟨σ, some t', c.log⟩) :
    wpc (pact H parseID strict S) .readCommitted A
      (send Err.driver (.update (setRecord key cond set))) Q c := by
  refine wpc_update ht fun σ henv hi _ => ?_
  have hok' := hok.env henv
  have hview : view .readCommitted σ (some t) = t.writes ∪ σ := rfl
  rw [hview]
  have hother : ∀ row, row ≠ .record key →
      (setRecord key cond set (t.writes ∪ σ)).lookup row = none := by
    rcases setRecord_cases key cond set (t.writes ∪ σ) with ⟨_, _, _, _, _, hother⟩ | hnone
    · exact hother
    · exact fun row _ => hnone row
  have hself : ∀ r : Record, (t.writes ∪ σ).lookup (.record key) = some r → cond r = true →
      (setRecord key cond set (t.writes ∪ σ)).lookup (.record key) = some (set r) := by
    intro r hr hcond
    rw [lookup_setRecord_record, hr, bind_some, if_pos ⟨rfl, hcond⟩]
  have hkept : ∀ row, row ≠ .record key →
      (t.stage (setRecord key cond set (t.writes ∪ σ))).writes.lookup row =
        t.writes.lookup row := by
    intro row hne
    rw [lookup_stage, hother row hne, none_or]
  have hhit : ∀ r : Record, (t.writes ∪ σ).lookup (.record key) = some r → cond r = true →
      (t.stage (setRecord key cond set (t.writes ∪ σ))).writes.lookup (.record key) =
        some (set r) := by
    intro r hr hcond
    rw [lookup_stage, hself r hr hcond, some_or]
  refine h σ _ _ hi ?_ henv ((onward_env henv).trans (onward_stage ?_))
    (fun row hr => Tx.Holds.stage hr _) hkept hhit
  · rcases setRecord_cases key cond set (t.writes ∪ σ) with ⟨r, hr, hcond, hrow, _, _⟩ | hnone
    · exact hok'.set hi hr (hnext r hcond) (hstep σ r henv hr hcond) (hintact r)
        (fun _ hpub => absurd hpub (hstate r)) hrow hother
    · refine hok'.locks ?_ fun row hr => Tx.Holds.stage hr _
      rw [eq_empty_of_lookup hnone]
      exact AList.empty_union
  · intro k r r' hr hr'
    rcases setRecord_cases key cond set (t.writes ∪ σ) with ⟨r0, hr0, hcond, hrow, _, _⟩ | hnone
    · by_cases hk : k = key
      · subst hk
        cases hr.symm.trans hr0
        cases hrow.symm.trans hr'
        exact hnext r hcond
      · rw [hother _ fun heq => hk (Row.record.inj heq)] at hr'
        cases hr'
    · rw [hnone] at hr'
      cases hr'

/-! ## The appender -/

section Inserted

variable {id : Id} {r : Record}

theorem lookup_insertedRows_record : (insertedRows id r).lookup (.record id) = some r :=
  AList.lookup_insert _

theorem lookup_insertedRows_entry :
    (insertedRows id r).lookup (.identity r.identity) = some id := by
  have hne : Row.identity r.identity ≠ Row.record id := nofun
  rw [insertedRows, AList.lookup_insert_ne hne]
  exact lookup_singleton_self _ _

theorem lookup_insertedRows_other {k : Id} (h : k ≠ id) :
    (insertedRows id r).lookup (.record k) = none := by
  rw [insertedRows, AList.lookup_insert_ne fun heq => h (Row.record.inj heq)]
  exact lookup_singleton_ne _ nofun

end Inserted

theorem wpc_append {m : Message} {due : Option Nat} {Q : Unit → Ctx (Val Id) Answer → Prop}
    (ht : c.tx = some t) (hok : Ok H strict S c.log c.db t)
    (h : ∀ σ t', (strict → Inv H σ) → Ok H strict S c.log σ t' →
      Onward (t.writes ∪ c.db) (t'.writes ∪ σ) → Appended H m (t'.writes ∪ σ) →
      Q () ⟨σ, some t', c.log⟩) :
    wpc (pact H parseID strict S) .readCommitted A (append H m due) Q c := by
  obtain ⟨db, tx, log⟩ := c
  subst ht
  refine wpc_bind (wpc_refuse fun hv => wpc_bind (wpc_found fun due _ => ?_))
  rw [Bool.not_eq_false'] at hv
  refine wpc_bind (wpc_timestamp fun σ1 clock henv1 _ => wpc_bind (wpc_random
    fun σ2 number henv2 _ => wpc_bind (wpc_insert rfl (fun σ3 henv3 _ _ => ?_)
      fun σ3 henv3 hi3 hnew _ => ?_)))
  · -- the identity is taken: read what is there, under its lock
    have henv := (henv1.trans henv2).trans henv3
    refine wpc_lock_found rfl fun σ4 id henv4 _ _ => ?_
    refine wpc_lock_found rfl fun σ5 existing henv5 hi5 hrow => wpc_refuse fun hsame => ?_
    have hall := (henv.trans henv4).trans henv5.of_acquire
    simp only [ne_eq, decide_eq_false_iff_not, not_not] at hsame
    refine h σ5 _ hi5 ?_ ?_ ⟨hv, id, existing, ?_, hsame⟩
    · exact (hok.env hall).locks rfl fun row hr => (hr.acquire _ _).acquire _ _
    · exact onward_env hall
    · exact hrow
  · -- a new record, with its index entry
    have henv := (henv1.trans henv2).trans henv3
    refine wpc_pure (h σ3 _ hi3 ?_ ?_
      ⟨hv, Id.next number, _, lookup_stage_union_of_some lookup_insertedRows_record, rfl⟩)
    · refine (hok.env henv).insert (fun _ => intact_of_message hv due clock)
        ⟨rfl, rfl, rfl, rfl, rfl, rfl⟩ lookup_insertedRows_record (fun _ => lookup_insertedRows_entry)
        (fun k hk => lookup_insertedRows_other hk) fun row v hv => ?_
      exact hnew row (mem_keys_iff_lookup.mpr ⟨v, hv⟩)
    · refine (onward_env henv).trans (onward_stage fun k r r' hr hr' => ?_)
      have hnone := hnew (.record k) (mem_keys_iff_lookup.mpr ⟨r', hr'⟩)
      cases hnone.symm.trans hr

theorem wpc_requeueConfirmed {input : ConfirmedRequeue} (hS : ∀ r r', Requeues r r' → S r r')
    (ht : c.tx = some t) (hok : Ok H strict S c.log c.db t)
    (h : ∀ σ t' n, (strict → Inv H σ) → Ok H strict S c.log σ t' →
      Onward (t.writes ∪ c.db) (t'.writes ∪ σ) → Q n ⟨σ, some t', c.log⟩) :
    wpc (pact H parseID strict S) .readCommitted A (requeueConfirmed input) Q c := by
  obtain ⟨db, tx, log⟩ := c
  subst ht
  refine wpc_bind (wpc_found fun id _ => wpc_bind (wpc_refuse fun _ => wpc_bind (wpc_timestamp
    fun σ1 clock henv1 _ => wpc_bind (wpc_setRecord rfl (hok.env henv1) (fun r _ => ?_)
      (fun σ r _ _ hcond => hS _ _ (.requeue ?_ _ _ clock)) (fun r hr => ?_)
      (fun r => State.noConfusion) fun σ2 t' rows hi2 hok2 _ honward _ _ _ => ?_))))
  · exact ⟨rfl, rfl, .inr (Nat.lt_succ_self _)⟩
  · simp only [Bool.and_eq_true, decide_eq_true_eq] at hcond
    exact hcond.1.1.1
  · exact ⟨hr.accepted, hr.fingerprint, nofun⟩
  · exact wpc_bind (wpc_refuse fun _ => wpc_pure (h σ2 t' _ hi2 hok2
      ((onward_env henv1).trans honward)))

theorem wpc_hostSteps {done : List Message} {Q : List Message → Ctx (Val Id) Answer → Prop}
    (hS : ∀ r r', Requeues r r' → S r r') (ht : c.tx = some t) (hi : strict → Inv H c.db)
    (hok : Ok H strict S c.log c.db t) (hdone : ∀ m ∈ done, Appended H m (t.writes ∪ c.db))
    (h : ∀ σ t' ms, (strict → Inv H σ) → Ok H strict S c.log σ t' →
      (∀ m ∈ ms, Appended H m (t'.writes ∪ σ)) → Q ms ⟨σ, some t', c.log⟩) :
    wpc (pact H parseID strict S) .readCommitted A (hostSteps H steps done) Q c := by
  induction steps generalizing c t done with
  | nil =>
    obtain ⟨db, tx, log⟩ := c
    subst ht
    exact wpc_pure (h db t done hi hok hdone)
  | cons step steps ih =>
    cases step with
    | append m due =>
      refine wpc_bind (wpc_append ht hok fun σ t' hi' hok' honward hm => ?_)
      refine ih rfl hi' hok' (fun m' hm' => ?_) h
      rcases mem_append.mp hm' with hold | hnew
      · exact (hdone m' hold).onward honward
      · cases mem_singleton.mp hnew
        exact hm
    | requeue input =>
      refine wpc_bind (wpc_requeueConfirmed hS ht hok fun σ t' _ hi' hok' honward => ?_)
      exact ih rfl hi' hok' (fun m' hm' => (hdone m' hm').onward honward) h

theorem wp_hostTransaction {commits : Bool} (hS : ∀ r r', Requeues r r' → S r r')
    (hnone : c.tx = none) :
    wp (pact H parseID strict S) .readCommitted A (hostTransaction H steps commits).run
      (fun r c' => ∀ ms, r = .ok ms → ∀ m ∈ ms, Appended H m c'.db) c := by
  refine wp_withTx hnone (fun _ _ _ _ hms => nomatch hms) fun σ1 _ hi1 => ?_
  have hstart : Ok H strict S c.log σ1 ({ snap := σ1 } : Tx (Val Id)) :=
    .start fun row => AList.lookup_empty row
  refine wpc_bind (wpc_hostSteps hS rfl hi1 hstart (fun _ hm => nomatch hm)
    fun σ2 t ms hi2 hok hms => ?_)
  refine wpc_ite (fun _ => ?_) fun _ => wpc_pure fun _ _ _ _ hnil m hm => ?_
  · refine wpc_bind (wpc_commit rfl (fun σ3 henv3 hi3 => (hok.env henv3).publishes hi3 _)
      fun σ3 henv3 _ => wpc_pure fun σ4 henv4 _ ms' hms' m hm => ?_)
    cases hms'
    exact ((hms m hm).onward (onward_env henv3)).onward (Later.onward henv4.later)
  · cases hnil
    cases hm

/-! ## Claims -/

theorem lookup_of_dueRows {now limit : Nat} {k : Id} {r : Record}
    (h : (k, r) ∈ recordsOf (dueRows now limit σ)) :
    σ.lookup (.record k) = some r ∧ r.due now = true := by
  obtain ⟨⟨row, v⟩, hmem, hrow⟩ := mem_filterMap.mp h
  obtain ⟨⟨k', r'⟩, htaken, heq⟩ := mem_map.mp hmem
  cases heq
  cases hrow
  have hsorted := mem_of_mem_take htaken
  rw [mem_insertionSort, mem_filter] at hsorted
  exact ⟨mem_records hsorted.1, hsorted.2⟩

theorem dueRows_nodup (now limit : Nat) (σ : Table Id) :
    ((recordsOf (dueRows now limit σ)).map fun x => Row.record x.1).Nodup := by
  have hperm := (((records σ).filter fun x => x.2.due now).perm_insertionSort scanOrder).map
    fun x => Row.record x.1
  have hfilter : (((records σ).filter fun x => x.2.due now).map fun x => Row.record x.1).Nodup :=
    List.Nodup.sublist (filter_sublist.map _) (records_nodup σ)
  have hsorted := hperm.nodup_iff.mpr hfilter
  have htake := List.Nodup.sublist ((take_sublist limit _).map _) hsorted
  refine List.Nodup.sublist (recordsOf_sublist _) ?_
  simpa [dueRows, List.keys, List.map_map, Function.comp_def] using htake

structure Candidate (σ : Table Id) (t : Tx (Val Id)) (x : Id × Record) : Prop where
  held : t.Holds (.record x.1)
  fresh : t.writes.lookup (.record x.1) = none
  stored : σ.lookup (.record x.1) = some x.2
  claimable : Claimable x.2

theorem Candidate.env {x : Id × Record} {ν : Table Id} (h : Candidate σ t x)
    (henv : Env (pact H parseID strict S) A (some t) σ ν) : Candidate ν t x :=
  ⟨h.held, h.fresh, (henv.held h.held).trans h.stored, h.claimable⟩

def Leased (t : Tx (Val Id)) (cl : Claim) : Prop :=
  ∃ k, ∃ r : Record, parseID cl.recordID = some k ∧ t.writes.lookup (.record k) = some r ∧
    r.input = cl.message.input ∧ r.version = cl.version ∧ Holder cl r

theorem Leased.claimed {cl : Claim} (h : Leased t cl) (σ : Table Id) :
    Claimed parseID cl (t.writes ∪ σ) := by
  obtain ⟨k, r, hk, hr, hinput, hversion, hholder⟩ := h
  exact ⟨k, r, hk, lookup_union_of_some hr, hinput, Nat.le_of_eq hversion.symm, fun _ => hholder⟩

theorem wpc_setCandidate {id : Id} {r : Record} {set : Nat → Record → Record}
    {Q : Unit → Ctx (Val Id) Answer → Prop} (ht : c.tx = some t)
    (hok : Ok H strict S c.log c.db t) (hcand : Candidate c.db t (id, r))
    (hnext : ∀ clock r, Next r (set clock r)) (hstep : ∀ clock, S r (set clock r))
    (hintact : ∀ clock r, Intact H r → Intact H (set clock r))
    (hstate : ∀ clock r, (set clock r).state ≠ .published)
    (h : ∀ σ t' clock, (strict → Inv H σ) → Ok H strict S c.log σ t' →
      t'.writes.lookup (.record id) = some (set clock r) →
      (∀ x : Id × Record, x.1 ≠ id → Candidate c.db t x → Candidate σ t' x) →
      (∀ row, row ≠ .record id → t'.writes.lookup row = t.writes.lookup row) →
      Q () ⟨σ, some t', c.log⟩) :
    wpc (pact H parseID strict S) .readCommitted A (setCandidate id r.version set) Q c := by
  obtain ⟨db, tx, log⟩ := c
  subst ht
  refine wpc_bind (wpc_timestamp fun σ1 clock henv1 _ => wpc_bind (wpc_setRecord rfl
    (hok.env henv1) (fun r _ => hnext clock r) ?_ (hintact clock) (hstate clock)
    fun σ2 t' rows hi2 hok2 henv2 _ hholds hkept hhit => wpc_pure ?_))
  · intro σ r' henv hr' _
    rw [lookup_union_of_none hcand.fresh, (hcand.env (henv1.trans henv)).stored] at hr'
    cases hr'
    exact hstep clock
  have henv : Env (pact H parseID strict S) A (some t) db σ2 := henv1.trans henv2
  refine h σ2 t' clock hi2 hok2 ?_ (fun x hne hx => ⟨hholds _ hx.held, ?_, ?_, hx.claimable⟩) hkept
  · refine hhit r ?_ (decide_eq_true rfl)
    rw [lookup_union_of_none hcand.fresh]
    exact (hcand.env henv).stored
  · rw [hkept _ fun heq => hne (Row.record.inj heq)]
    exact hx.fresh
  · exact (hx.env henv).stored

theorem wpc_claimRow {id : Id} {r : Record} {Q : Option Claim → Ctx (Val Id) Answer → Prop}
    (hS : ∀ r r', Claims r r' → S r r') (ht : c.tx = some t) (hok : Ok H strict S c.log c.db t)
    (hcand : Candidate c.db t (id, r))
    (h : ∀ σ t' claim, (strict → Inv H σ) → Ok H strict S c.log σ t' → (∀ cl ∈ claim, ∃ r' : Record,
      parseID cl.recordID = some id ∧ t'.writes.lookup (.record id) = some r' ∧
      r'.input = cl.message.input ∧ r'.version = cl.version ∧ Holder cl r') →
      (∀ x : Id × Record, x.1 ≠ id → Candidate c.db t x → Candidate σ t' x) →
      (∀ row, row ≠ .record id → t'.writes.lookup row = t.writes.lookup row) →
      Q claim ⟨σ, some t', c.log⟩) :
    wpc (pact H parseID strict S) .readCommitted A (claimRow H leaseUntil id r) Q c := by
  unfold claimRow
  split
  · refine wpc_bind (wpc_setCandidate ht hok hcand (columns_setQuarantined _).next
      (fun clock => hS _ _ (.corrupt hcand.claimable _ clock))
      (fun clock r hr => (columns_setQuarantined _).intact clock hr)
      (fun _ _ => State.noConfusion) fun σ t' clock hi hok' _ hcands hkept => ?_)
    exact wpc_pure (h σ t' none hi hok' (fun _ hcl => nomatch hcl) hcands hkept)
  next m hm =>
    obtain ⟨db, tx, log⟩ := c
    subst ht
    refine wpc_bind (wpc_random fun σ0 entropy henv0 _ => ?_)
    refine wpc_bind (wpc_setCandidate rfl (hok.env henv0) (hcand.env henv0) (next_claim _ _)
      (fun clock => hS _ _ (.lease hcand.claimable _ _ clock))
      (fun clock r hr => hr.claim _ _ clock) (fun _ _ => State.noConfusion)
      fun σ t' clock hi hok' hset hcands hkept => wpc_pure (h σ t' _ hi hok' (fun cl hcl => ?_)
        (fun x hne hx => hcands x hne (hx.env henv0)) hkept))
    cases hcl
    exact ⟨_, parseID_text id, hset, (message_input hm).symm, rfl, ⟨rfl, rfl, rfl⟩⟩

theorem wpc_claimRows {rows : List (Id × Record)} {Q : List Claim → Ctx (Val Id) Answer → Prop}
    (hS : ∀ r r', Claims r r' → S r r') (ht : c.tx = some t) (hi : strict → Inv H c.db)
    (hok : Ok H strict S c.log c.db t) (hcand : ∀ x ∈ rows, Candidate c.db t x)
    (hnodup : (rows.map fun x => Row.record x.1).Nodup)
    (h : ∀ σ t' claims, (strict → Inv H σ) → Ok H strict S c.log σ t' →
      (∀ cl ∈ claims, Leased t' cl) → (∀ row, row ∉ rows.map (fun x => Row.record x.1) →
      t'.writes.lookup row = t.writes.lookup row) → Q claims ⟨σ, some t', c.log⟩) :
    wpc (pact H parseID strict S) .readCommitted A (claimRows H leaseUntil rows) Q c := by
  induction rows generalizing c t Q with
  | nil =>
    obtain ⟨db, tx, log⟩ := c
    subst ht
    exact wpc_pure (h db t [] hi hok (fun _ hcl => nomatch hcl) fun _ _ => rfl)
  | cons x rest ih =>
    obtain ⟨id, r⟩ := x
    rw [map_cons, nodup_cons] at hnodup
    obtain ⟨hnot, hnodup⟩ := hnodup
    have hne : ∀ x ∈ rest, x.1 ≠ id := by
      intro x hx heq
      exact hnot (mem_map.mpr ⟨x, hx, congrArg Row.record heq⟩)
    refine wpc_bind (wpc_claimRow hS ht hok (hcand _ mem_cons_self)
      fun σ1 t1 claim hi1 hok1 hclaim hcands hkept1 => wpc_bind ?_)
    refine ih rfl hi1 hok1
      (fun x hx => hcands x (hne x hx) (hcand x (mem_cons_of_mem _ hx))) hnodup
      fun σ' t' claims hi' hok' hleased hkept =>
        wpc_pure (h σ' t' _ hi' hok' (fun cl hcl => ?_) fun row hrow => ?_)
    · rcases mem_append.mp hcl with hcl | hcl
      · obtain ⟨r', hid, hstaged, hrest⟩ := hclaim cl (mem_toList.mp hcl)
        exact ⟨id, r', hid, (hkept _ hnot).trans hstaged, hrest⟩
      · exact hleased cl hcl
    · rw [map_cons, mem_cons, not_or] at hrow
      rw [hkept row hrow.2, hkept1 row hrow.1]

theorem wp_claimDue {limit lease : Int} (hS : ∀ r r', Claims r r' → S r r') (hnone : c.tx = none) :
    wp (pact H parseID strict S) .readCommitted A (claimDue H limit lease).run
      (fun r c' => ∀ claims, r = .ok claims → ∀ cl ∈ claims, Claimed parseID cl c'.db) c := by
  refine wp_refuse_bind (fun _ hr => nomatch hr) fun _ => ?_
  refine wp_withTx hnone (fun _ _ _ _ hr => nomatch hr) fun σ1 _ _ => ?_
  refine wpc_bind (wpc_timestamp fun σ2 now _ _ => ?_)
  refine wpc_bind (wpc_skipLocked rfl fun σ3 busy _ hi3 => ?_)
  have hview : view .readCommitted σ3 (some ({ snap := σ1 } : Tx (Val Id))) = σ3 :=
    AList.empty_union
  rw [hview]
  generalize hrows : dueRows now limit.toNat (without σ3 busy) = rows
  have hstart : Ok H strict S c.log σ3 ({ snap := σ1, excl := rows.map Sigma.fst ++ [] } :
      Tx (Val Id)) := .start fun row => AList.lookup_empty row
  refine wpc_bind (wpc_claimRows hS rfl hi3 hstart (fun x hx => ?_) ?_
    fun σ4 t claims hi4 hok4 hleased _ => ?_)
  · have hheld : Row.record x.1 ∈ rows.map Sigma.fst :=
      (recordsOf_sublist rows).subset (mem_map_of_mem hx)
    rw [← hrows] at hx
    obtain ⟨hfound, hdue⟩ := lookup_of_dueRows hx
    have hfree : Row.record x.1 ∉ busy := by
      intro hm
      rw [lookup_without_of_mem hm] at hfound
      cases hfound
    rw [lookup_without_of_not_mem hfree] at hfound
    exact ⟨.inr (mem_append_left _ hheld), AList.lookup_empty _, hfound,
      claimable_of_due hdue⟩
  · rw [← hrows]
    exact dueRows_nodup _ _ _
  · refine wpc_bind (wpc_commit rfl (fun σ5 henv5 hi5 => (hok4.env henv5).publishes hi5 _)
      fun σ5 _ _ => wpc_pure fun σ6 henv6 _ claims' hclaims cl hcl => ?_)
    cases hclaims
    exact ((hleased cl hcl).claimed σ5).onward (Later.onward henv6.later)

end ReliableMessaging.Outbox.MySql
