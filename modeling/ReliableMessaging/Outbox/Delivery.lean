import ReliableMessaging.Outbox.Fencing
import ReliableMessaging.Outbox.Relay

/-!
# Published means confirmed

Any number of hosts and relays over the MySQL outbox. Here claims are settled
by relays only, and a relay delivers only what some `ClaimDue` has returned
(`mayStart`). Publishers answer anything; retry policies are anyone's; calls
stop anywhere, and writes may have happened when their reply is lost.
-/

namespace ReliableMessaging.Outbox.Relayed

open TxLang List Sample

inductive Call
  | host (steps : List MySql.HostStep) (commits : Bool)
  | claimDue (limit lease : Int)
  | deliver (policy : RetryPolicy) (c : Claim)

def code (H : Sha256) : Call → Prog (Val MySql.Id) Answer Unit
  | .host steps commits => say (MySql.hostTransaction H steps commits).run (·.map .appended)
  | .claimDue limit lease => say (MySql.claimDue H limit lease).run (·.map .claimed)
  | .deliver policy c => Outbox.deliver policy c

abbrev System : Type := Sys (Val MySql.Id) Answer Call

/-- A relay starts to deliver a claim after `ClaimDue` has returned it. -/
def mayStart : Call → List (Nat × Entry (Val MySql.Id) Answer) → Prop
  | .deliver _ c, log => ∃ p ans, (p, Entry.called (.claimed c) ans) ∈ log
  | _, _ => True

/-- An outbox to start from: as its writers leave it, with nothing published. -/
def Installed (H : Sha256) (σ : Table MySql.Id) : Prop :=
  Inv H σ ∧ ∀ k (r : Record), σ.lookup (.record k) = some r → r.state ≠ .published

def Reachable (H : Sha256) (s : System) : Prop :=
  Reach .readCommitted (code H) (StartsWhen (code H) mayStart) (Installed H) s

/-- What a call needs to find: a claim that was returned. -/
def ready : Call → Table MySql.Id → Prop
  | .deliver _ c, σ => Claimed MySql.parseID c σ
  | _, _ => True

/-! ## Relays keep the contract -/

section

variable {H : Sha256} {A : Table MySql.Id → Table MySql.Id → Prop}
variable {c : Ctx (Val MySql.Id) Answer} {cl : Claim}

variable {policy : RetryPolicy}

theorem wp_writeBack {outcome : Outcome} (hnone : c.tx = none)
    (hmay : outcome = .confirmed → MayPublish MySql.parseID cl c) :
    wp (contract H MySql.parseID True) .readCommitted A (writeBack policy cl outcome).run
      (fun _ _ => True) c := by
  have hsettle : ∀ {set : Nat → Record → Record}, Columns set →
      ((∀ clock r, (set clock r).state ≠ .published) ∨ MayPublish MySql.parseID cl c) →
      wp (contract H MySql.parseID True) .readCommitted A (MySql.update cl set).run
        (fun _ _ => True) c :=
    fun hset hpub => wp_mono (fun _ _ _ => trivial)
      (wp_settleBy hset hnone (fun _ _ _ => trivial) fun _ => hpub)
  unfold writeBack
  split
  next hconfirmed =>
    exact hsettle columns_setPublished (.inr (hmay hconfirmed))
  · generalize (if outcome = .rejected then "publish_rejected" else "publish_unknown") = code
    simp only
    split
    · exact wp_refuse_bind trivial fun _ =>
        hsettle (columns_setQuarantined code) (.inl fun _ _ => State.noConfusion)
    · split
      · trivial
      · exact wp_refuse_bind trivial fun _ =>
          hsettle (columns_setRetryWait _ code) (.inl fun _ _ => State.noConfusion)

theorem wp_deliver (hnone : c.tx = none) (hclaimed : Claimed MySql.parseID cl c.db) :
    wp (contract H MySql.parseID True) .readCommitted A (deliver policy cl)
      (fun _ _ => True) c := by
  refine wp_ask _ fun σ henv _ => ⟨trivial, fun raw => wp_ignore (wp_writeBack hnone fun hout => ?_)⟩
  refine ⟨hclaimed.onward (Later.onward henv.later), ?_⟩
  cases raw with
  | none => exact absurd (show Outcome.ofRaw 0 = .confirmed from hout) (by decide)
  | some raw => exact ⟨raw, mem_append_right _ mem_cons_self, hout⟩

end

theorem verified (H : Sha256) :
    Verified (contract H MySql.parseID True) .readCommitted (code H) (fun _ _ _ => True) ready := by
  intro call σ _ hready
  cases call with
  | host steps commits =>
    refine wp_say (wp_mono (fun r c' hr ms hms ev hev => ?_) (MySql.wp_hostTransaction
      (fun _ _ _ => trivial) rfl))
    obtain ⟨m, hm, rfl⟩ := mem_map.mp hev
    exact hr ms hms m hm
  | claimDue limit lease =>
    refine wp_say (wp_mono (fun r c' hr claims hclaims ev hev => ?_)
      (MySql.wp_claimDue (fun _ _ _ => trivial) rfl))
    obtain ⟨cl, hcl, rfl⟩ := mem_map.mp hev
    exact hr claims hclaims cl hcl
  | deliver policy c => exact wp_deliver rfl hready

variable {log : List (Nat × Entry (Val MySql.Id) Answer)} {p : Nat}

theorem stands_of_history {H : Sha256} {σ : Table MySql.Id}
    (h : History (contract H MySql.parseID True) σ log) {ev : Event} {ans : Option (Answer ev)}
    (hmem : (p, Entry.called ev ans) ∈ log) (hev : ∀ c, ev ≠ .settled c) :
    Stands H MySql.parseID ev σ := by
  have hlast := h.lasting
    (P := fun ev σ => (∀ c, ev ≠ .settled c) → Stands H MySql.parseID ev σ) ?_ ?_
  · exact hlast p ev ans hmem hev
  · intro ctx ev _ ha hev
    cases ev with
    | settled c => exact absurd rfl (hev c)
    | publish c => trivial
    | claimed c => exact ha
    | appended m => exact ha
  · exact fun ev a b hP ht hev => (hP hev).onward ht.1

theorem sound (H : Sha256) :
    Sound (contract H MySql.parseID True) .readCommitted (code H) (fun _ _ _ => True) ready
      (StartsWhen (code H) mayStart) (Installed H) where
  verified := verified H
  init := fun _ h _ => h.1
  respects := fun _ _ _ _ => ⟨fun _ _ _ _ _ => trivial, fun _ _ _ => trivial⟩
  ready := by
    intro s p call hh hp hok
    have hmay := hok p call hp rfl
    cases call with
    | host => trivial
    | claimDue => trivial
    | deliver policy c =>
      obtain ⟨q, ans, hmem⟩ := hmay
      exact stands_of_history hh hmem fun _ => Event.noConfusion

/-! ## Who publishes -/

/-- Not a call of the publisher. -/
def Quiet (st : Stmt (Val MySql.Id) Event) : Prop := ∀ c, st ≠ .call (.publish c)

section Quiet

open Outbox.MySql

variable {H : Sha256}

theorem quiet_append (m : Message) (due : Option Nat) :
    (append H m due : OutboxCode Answer Unit).run.All Quiet := by
  refine all_bind all_refuse fun _ => all_found fun due _ => all_bind (all_send nofun) fun clock =>
    all_bind (all_send nofun) fun number => all_bind (all_send nofun) fun fresh => ?_
  cases fresh with
  | true => trivial
  | false =>
    exact all_bind (all_send nofun) fun _ => all_found fun id _ =>
      all_bind (all_send nofun) fun _ => all_found fun _ _ => all_refuse

theorem quiet_requeueConfirmed (input : ConfirmedRequeue) :
    (requeueConfirmed input : OutboxCode Answer Nat).run.All Quiet :=
  all_found fun _ _ => all_bind all_refuse fun _ => all_bind (all_send nofun) fun _ =>
    all_bind (all_send nofun) fun _ => all_bind all_refuse fun _ => trivial

theorem quiet_hostSteps (steps : List HostStep) (done : List Message) :
    (hostSteps H steps done : OutboxCode Answer (List Message)).run.All Quiet := by
  induction steps generalizing done with
  | nil => trivial
  | cons step steps ih =>
    cases step with
    | append m due => exact all_bind (quiet_append m due) fun _ => ih _
    | requeue input => exact all_bind (quiet_requeueConfirmed input) fun _ => ih _

theorem quiet_hostTransaction (steps : List HostStep) (commits : Bool) :
    (hostTransaction H steps commits : OutboxCode Answer (List Message)).run.All Quiet := by
  refine all_withTx nofun nofun (all_bind (quiet_hostSteps steps []) fun done => ?_)
  cases commits with
  | true => exact all_bind (all_send nofun) fun _ => trivial
  | false => trivial

theorem quiet_setCandidate (id : Id) (version : Nat) (set : Nat → Record → Record) :
    (setCandidate id version set : OutboxCode Answer Unit).run.All Quiet :=
  all_bind (all_send nofun) fun _ => all_bind (all_send nofun) fun _ => trivial

theorem quiet_claimRow (leaseUntil : Nat) (id : Id) (r : Record) :
    (claimRow H leaseUntil id r : OutboxCode Answer (Option Claim)).run.All Quiet := by
  unfold claimRow
  split
  · exact all_bind (quiet_setCandidate _ _ _) fun _ => trivial
  · exact all_bind (all_send nofun) fun _ => all_bind (quiet_setCandidate _ _ _) fun _ => trivial

theorem quiet_claimRows (leaseUntil : Nat) (rows : List (Id × Record)) :
    (claimRows H leaseUntil rows : OutboxCode Answer (List Claim)).run.All Quiet := by
  induction rows with
  | nil => trivial
  | cons x rest ih =>
    exact all_bind (quiet_claimRow leaseUntil x.1 x.2) fun _ => all_bind ih fun _ => trivial

theorem quiet_claimDue (limit lease : Int) :
    (claimDue H limit lease : OutboxCode Answer (List Claim)).run.All Quiet :=
  all_bind all_refuse fun _ => all_withTx nofun nofun (all_bind (all_send nofun) fun _ =>
    all_bind (all_send nofun) fun _ => all_bind (quiet_claimRows _ _) fun _ =>
      all_bind (all_send nofun) fun _ => trivial)

theorem quiet_update (c : Claim) (set : Nat → Record → Record) :
    (update c set : OutboxCode Answer Unit).run.All Quiet :=
  all_found fun _ _ => all_bind all_refuse fun _ => all_bind (all_send nofun) fun _ => all_refuse

theorem quiet_writeBack (policy : RetryPolicy) (c : Claim) (outcome : Outcome) :
    (writeBack policy c outcome).run.All Quiet := by
  unfold writeBack
  split
  · exact quiet_update c _
  · generalize (if outcome = .rejected then "publish_rejected" else "publish_unknown") = code
    simp only
    split
    · exact all_bind all_refuse fun _ => quiet_update c _
    · split
      · trivial
      · exact all_bind all_refuse fun _ => quiet_update c _

theorem quiet_markAll {evs : List Event} (h : ∀ ev ∈ evs, ∀ c, ev ≠ .publish c) :
    (markAll evs : Prog (Val MySql.Id) Answer Unit).All Quiet := by
  induction evs with
  | nil => trivial
  | cons ev rest ih =>
    refine ⟨fun c heq => ?_, fun _ => ih fun ev' hev' => h ev' (mem_cons_of_mem _ hev')⟩
    exact h ev mem_cons_self c (Stmt.call.inj heq)

theorem quiet_say {α : Type} {x : OutboxCode Answer α} {evs : α → List Event}
    (hx : x.run.All Quiet) (h : ∀ a, ∀ ev ∈ evs a, ∀ c, ev ≠ .publish c) :
    (say x.run evs).All Quiet := by
  refine hx.bind fun r => ?_
  cases r with
  | error e => trivial
  | ok a => exact quiet_markAll (h a)

end Quiet

/-- Only a delivery calls the publisher, with its own claim. -/
theorem publishes_own (H : Sha256) (call : Call) :
    (code H call).All fun st => ∀ c, st = .call (.publish c) →
      ∃ policy, call = .deliver policy c := by
  have hquiet : ∀ {p : Prog (Val MySql.Id) Answer Unit}, p.All Quiet →
      p.All fun st => ∀ c, st = .call (.publish c) → ∃ policy, call = .deliver policy c :=
    fun h => Prog.All.mono (fun _ hst c heq => absurd heq (hst c)) h
  cases call with
  | host steps commits =>
    refine hquiet (quiet_say (quiet_hostTransaction steps commits) fun ms ev hev c heq => ?_)
    obtain ⟨m, _, rfl⟩ := mem_map.mp hev
    cases heq
  | claimDue limit lease =>
    refine hquiet (quiet_say (quiet_claimDue limit lease) fun ms ev hev c heq => ?_)
    obtain ⟨cl, _, rfl⟩ := mem_map.mp hev
    cases heq
  | deliver policy c =>
    refine ⟨fun c' heq => ?_, fun raw => ?_⟩
    · cases heq
      exact ⟨policy, rfl⟩
    · exact hquiet ((quiet_writeBack policy c _).bind fun _ => trivial)

/-- The claim was returned by some `ClaimDue`. -/
def Returned (c : Claim) (log : List (Nat × Entry (Val MySql.Id) Answer)) : Prop :=
  ∃ p ans, (p, Entry.called (.claimed c) ans) ∈ log

theorem Returned.mono {c : Claim} {l m : List (Nat × Entry (Val MySql.Id) Answer)}
    (h : Returned c l) (hlm : l <+: m) : Returned c m := by
  obtain ⟨p, ans, hmem⟩ := h
  exact ⟨p, ans, hlm.subset hmem⟩

theorem delivery_returned {H : Sha256} {s : System} (hr : Reachable H s)
    {pr : Proc (Val MySql.Id) Answer Call} {policy : RetryPolicy} {c : Claim}
    (hp : s.procs p = some pr) (hcall : pr.call = .deliver policy c) : Returned c s.log := by
  have hall := Reach.calls
    (P := fun (call : Call) log => ∀ policy c, call = .deliver policy c → Returned c log) ?_ ?_ hr
  · exact hall p pr hp policy c hcall
  · intro call l m h hlm policy c heq
    exact (h policy c heq).mono hlm
  · rintro s p call hp hok policy c rfl
    exact hok p _ hp rfl

theorem published_returned {H : Sha256} {s : System} (hr : Reachable H s) :
    ∀ p c ans, (p, Entry.called (.publish c) ans) ∈ s.log → Returned c s.log := by
  induction hr with
  | start => exact fun _ _ _ hmem => nomatch hmem
  | @step s s' hreach hs hok ih =>
    intro p c ans hmem
    refine Returned.mono ?_ (Step.log_grows hs)
    cases hs with
    | @run q pr st k busy r σ tx new hq hprog _ hlocal _ =>
      rcases mem_append.mp hmem with hold | hnew
      · exact ih p c ans hold
      · have hall := Reach.all (publishes_own H) hreach q pr hq
        rw [hprog] at hall
        obtain ⟨call, prog, tx0⟩ := pr
        cases hlocal with
        | @call _ ev ans' =>
          simp only [map_cons, map_nil, mem_singleton, Prod.mk.injEq] at hnew
          obtain ⟨_, hentry⟩ := hnew
          cases hentry
          obtain ⟨policy, hcall⟩ := hall.1 c rfl
          exact delivery_returned hreach hq hcall
        | _ => simp at hnew
    | _ => exact ih p c ans hmem

/-! ## What every state has -/

variable {H : Sha256} {s s' : System} {k : MySql.Id} {r : Record}

theorem Reachable.history (hr : Reachable H s) :
    History (contract H MySql.parseID True) s.db s.log :=
  Reach.history (sound H) hr

theorem Reachable.inv (hr : Reachable H s) : Inv H s.db := Reach.inv (sound H) hr trivial

theorem Reachable.confirmed (hr : Reachable H s) :
    ∀ k (r : Record), s.db.lookup (.record k) = some r → r.state = .published →
      ∃ p c raw, (p, Entry.called (.publish c) (some raw)) ∈ s.log ∧
        Outcome.ofRaw raw = .confirmed ∧ MySql.parseID c.recordID = some k ∧
        c.version + 1 = r.version ∧ c.message.input = r.input := by
  induction hr with
  | start h => exact fun k r hk hpub => absurd hpub (h.2 k r hk)
  | @step s s' hreach hs _ ih =>
    intro k r hk hpub
    have hgrows := Step.log_grows hs
    have hold : s.db.lookup (.record k) = some r →
        ∃ p c raw, (p, Entry.called (.publish c) (some raw)) ∈ s'.log ∧
          Outcome.ofRaw raw = .confirmed ∧ MySql.parseID c.recordID = some k ∧
          c.version + 1 = r.version ∧ c.message.input = r.input := by
      intro hk'
      obtain ⟨p, c, raw, hmem, hrest⟩ := ih k r hk' hpub
      exact ⟨p, c, raw, hgrows.subset hmem, hrest⟩
    rcases (Reach.good (sound H) hreach).step_publishes hs with hsame | ⟨_, p, own, hown, hearned⟩
    · rw [hsame] at hk
      exact hold hk
    · rcases hearned.1 trivial k r hk hpub with hk' | ⟨c, raw, hmem, hrest⟩
      · exact hold hk'
      · exact ⟨p, c, raw, hgrows.subset (mem_logOf.mp (hown hmem)), hrest⟩

theorem Reachable.appended [H.CollisionFree] (hr : Reachable H s) {m : Message} {ans : Option Unit}
    (hmem : (p, Entry.called (.appended m) ans) ∈ s.log) :
    ∃ k, ∃ r : Record, s.db.lookup (.record k) = some r ∧ r.input = m.input ∧
      r.fingerprint = m.fingerprint H := by
  obtain ⟨hv, k, r, hr', hprint⟩ := stands_of_history hr.history hmem fun _ => Event.noConfusion
  refine ⟨k, r, hr', ?_, hprint⟩
  have hintact := hr.inv.intact k r hr'
  rw [hintact.fingerprint] at hprint
  exact Message.preimage_inj hintact.accepted (Message.accepted_of_valid hv)
    (H.sum_injective hprint)

theorem Reachable.unique (hr : Reachable H s) {k k' : MySql.Id} {r r' : Record}
    (hk : s.db.lookup (.record k) = some r) (hk' : s.db.lookup (.record k') = some r')
    (hsame : r.identity = r'.identity) : k = k' := by
  have hentry := hr.inv.entry k r hk
  rw [hsame, hr.inv.entry k' r' hk'] at hentry
  exact (Option.some.inj hentry).symm

theorem Intact.due {now : Nat} (h : Intact H r) (hp : r.state ≠ .published)
    (hq : r.state ≠ .quarantined) (hnow : r.nextAttemptAt ≤ now) : r.due now = true := by
  cases hs : r.state with
  | pending => simp [Record.due, hs, hnow]
  | retryWait => simp [Record.due, hs, hnow]
  | publishing => simp [Record.due, hs, h.aligned hs, hnow]
  | published => exact absurd hs hp
  | quarantined => exact absurd hs hq

/-- **Published means confirmed, and nothing appended is lost.** In every state
that hosts and relays reach: what was appended has a record, with the content
and the fingerprint it was appended with; two records of one identity are one;
no record ever loses or changes its content; a published record was confirmed by
a publisher, with exactly its content and under the returned claim whose version
its own follows; and every record that is neither published nor quarantined is
selected by the scan of `ClaimDue` from the time of its next attempt on. -/
theorem published_means_confirmed [H.CollisionFree] (hr : Reachable H s) :
    (∀ p m ans, (p, Entry.called (.appended m) ans) ∈ s.log →
      ∃ k, ∃ r : Record, s.db.lookup (.record k) = some r ∧ r.input = m.input ∧
        r.fingerprint = m.fingerprint H) ∧
    (∀ k k' (r r' : Record), s.db.lookup (.record k) = some r →
      s.db.lookup (.record k') = some r' → r.identity = r'.identity → k = k') ∧
    (∀ s' k (r : Record), RunsBy .readCommitted (code H) (StartsWhen (code H) mayStart) s s' →
      s.db.lookup (.record k) = some r → ∃ r' : Record, s'.db.lookup (.record k) = some r' ∧
        r'.input = r.input ∧ r'.fingerprint = r.fingerprint) ∧
    (∀ k (r : Record), s.db.lookup (.record k) = some r → r.state = .published →
      ∃ p c raw, (p, Entry.called (.publish c) (some raw)) ∈ s.log ∧
        Outcome.ofRaw raw = .confirmed ∧ Returned c s.log ∧
        MySql.parseID c.recordID = some k ∧ c.version + 1 = r.version ∧
        c.message.input = r.input) ∧
    (∀ k (r : Record), s.db.lookup (.record k) = some r → r.state ≠ .published →
      r.state ≠ .quarantined → ∀ now, r.nextAttemptAt ≤ now → r.due now = true) := by
  refine ⟨fun p m ans hmem => hr.appended hmem, fun k k' r r' hk hk' => hr.unique hk hk',
    fun s' k r hruns hk => ?_, fun k r hk hpub => ?_,
    fun k r hk hp hq now hnow => Intact.due (hr.inv.intact k r hk) hp hq hnow⟩
  · obtain ⟨r', hk', hnext⟩ := Later.onward (Reach.later (sound H) hr hruns) k r hk
    exact ⟨r', hk', hnext.input, hnext.fingerprint⟩
  · obtain ⟨p, c, raw, hmem, hraw, hrest⟩ := hr.confirmed k r hk hpub
    exact ⟨p, c, raw, hmem, hraw, published_returned hr p c _ hmem, hrest⟩

def sampleCalls : List (World Answer × Call) :=
  [(world 1, .host [.append message (some 3)] true), (world 5, .claimDue 10 10000),
    (world 7, .deliver (fun _ _ => ⟨1, false⟩) claim)]

def returnedClaims (log : List (Nat × Entry (Val MySql.Id) Answer)) : List (Nat × Claim) :=
  log.filterMap fun
    | (p, .called (.claimed c) _) => some (p, c)
    | _ => none

theorem returned_of_mem {c : Claim} (h : (p, c) ∈ returnedClaims log) : Returned c log := by
  obtain ⟨x, hmem, hx⟩ := mem_filterMap.mp h
  split at hx
  · cases hx
    exact ⟨_, _, hmem⟩
  · cases hx

set_option maxRecDepth 100000 in
theorem sampleCalls_may :
    MayServe .readCommitted (code default) mayStart 0 sampleCalls ∅ [] := by
  refine ⟨trivial, trivial, returned_of_mem (p := 1) ?_, trivial⟩
  decide +kernel

set_option maxRecDepth 100000 in
/-- A record that came to be published, at the version after its claim's. -/
theorem published_means_confirmed_delivered :
    ∃ s : System, Reachable default s ∧ ∃ k, ∃ r : Record, s.db.lookup (.record k) = some r ∧
      r.state = .published ∧ r.version = 2 ∧
      ∃ p c raw, (p, Entry.called (.publish c) (some raw)) ∈ s.log ∧
        Outcome.ofRaw raw = .confirmed ∧ Returned c s.log ∧ c.version = 1 ∧
        c.message.input = r.input := by
  have hempty : Installed default (∅ : Table MySql.Id) := by
    refine ⟨⟨fun k r hr => ?_, fun k r hr => ?_⟩, fun k r hr => ?_⟩
    all_goals
      rw [AList.lookup_empty] at hr
      cases hr
  obtain ⟨s, hr, _, _, hdb, _⟩ := reach_serve .readCommitted (code default) mayStart hempty
    sampleCalls sampleCalls_may
  have hrow : ∃ r ∈ (s.db.lookup (.record (MySql.Id.next 1)) : Option Record),
      r.state = .published ∧ r.version = 2 := by
    rw [hdb]
    decide +kernel
  obtain ⟨r, hrow, hpub, hversion⟩ := hrow
  obtain ⟨p, c, raw, hmem, hraw, hret, _, hnext, hinput⟩ :=
    (published_means_confirmed hr).2.2.2.1 _ r hrow hpub
  exact ⟨s, hr, _, r, hrow, hpub, hversion, p, c, raw, hmem, hraw, hret, by omega, hinput⟩

end ReliableMessaging.Outbox.Relayed
