import Mathlib.Algebra.Order.BigOperators.Group.List
import Mathlib.Algebra.Order.Group.Nat
import ReliableMessaging.Outbox.Ahead
import ReliableMessaging.Outbox.Fencing

/-!
# Relays taking turns

Relays scan an outbox and settle what they claimed, at any time and in any
order, while one record waits. A store takes part with its programs, with what
is known of each of them on the way (`Scanner`), and with what counts as
selecting a record. Everything else is the same argument for both: from the
time at which the record is due, the account of the records ahead of it
(`Segment`).
-/

namespace ReliableMessaging.Outbox

open TxLang List

/-- What relays do: no host, no requeue. -/
abbrev RelayCall : Type := Call Empty

/-- `ClaimDue`. -/
def Call.scans {Script : Type} : Call Script → Bool
  | .claimDue _ _ => true
  | _ => false

def errorOf {α : Type} : Except Err α → Option Err
  | .ok _ => none
  | .error e => some e

/-- Run to the error that a call returns. -/
def returning {K α : Type} (x : Code Err (Val K) Answer α) : Prog (Val K) Answer (Option Err) :=
  x.run.bind fun r => .ret (errorOf r)

/-- The statement of a settlement: it ends a lease that is in force, with the
record finished or due after the clock. -/
def IsSettlement {K : Type} [DecidableEq K] (st : Stmt (Val K) Event) : Prop :=
  ∃ k c set, st = .auto (fun clock => setRecord k (Record.claimedBy c clock)
      (Record.settle set clock)) ∧
    ∀ clock r, (set clock r).state ≠ .publishing ∧
      (Claimable (set clock r) → clock < (set clock r).nextAttemptAt)

section Settlements

variable {K : Type} [DecidableEq K] {parse : String → Option K} {c : Claim}
variable {set : Nat → Record → Record}

theorem settleBy_all (h : ∀ clock r, (set clock r).state ≠ .publishing ∧
      (Claimable (set clock r) → clock < (set clock r).nextAttemptAt)) :
    (settleBy parse c set : Code Err (Val K) Answer Unit).run.All IsSettlement := by
  refine all_found fun k _ => all_bind all_refuse fun _ => all_bind (all_send ?_) fun _ =>
    all_refuse
  exact ⟨k, c, set, rfl, h⟩

omit [DecidableEq K] in
theorem returning_all {α : Type} {x : Code Err (Val K) Answer α} {P : Stmt (Val K) Event → Prop}
    (h : x.run.All P) : (returning x).All P :=
  h.bind fun _ => trivial

theorem setPublished_ends (clock : Nat) (r : Record) :
    (setPublished clock r).state ≠ .publishing ∧
      (Claimable (setPublished clock r) → clock < (setPublished clock r).nextAttemptAt) :=
  ⟨State.noConfusion, fun h => absurd rfl h.1⟩

theorem setQuarantined_ends (code : String) (clock : Nat) (r : Record) :
    (setQuarantined code clock r).state ≠ .publishing ∧
      (Claimable (setQuarantined code clock r) →
        clock < (setQuarantined code clock r).nextAttemptAt) :=
  ⟨State.noConfusion, fun h => absurd rfl h.2⟩

theorem setRetryWait_ends {delay : Nat} (hdelay : 0 < delay) (code : String) (clock : Nat)
    (r : Record) : (setRetryWait delay code clock r).state ≠ .publishing ∧
      (Claimable (setRetryWait delay code clock r) →
        clock < (setRetryWait delay code clock r).nextAttemptAt) :=
  ⟨State.noConfusion, fun _ => Nat.lt_add_of_pos_right hdelay⟩

/-- What a settlement does at a time, it does to one lease in force. -/
theorem settle_change {k : K} {clock : Nat} (σ : Table K)
    (h : ∀ clock r, (set clock r).state ≠ .publishing ∧
      (Claimable (set clock r) → clock < (set clock r).nextAttemptAt)) :
    setRecord k (Record.claimedBy c clock) (Record.settle set clock) σ ∪ σ = σ ∨
      ∃ r r', SettledAt clock k r r' σ
        (setRecord k (Record.claimedBy c clock) (Record.settle set clock) σ ∪ σ) := by
  rcases setRecord_cases k (Record.claimedBy c clock) (Record.settle set clock) σ with
    ⟨r, hr, hby, hrow, _, hother⟩ | hnone
  · refine .inr ⟨r, r.settle set clock, hr, publishing_of_claimedBy hby, fun l hl => ?_,
      lookup_union_of_some hrow, (h clock r).1, fun hc => (h clock r).2 hc, fun row hne => ?_⟩
    · simp only [Record.claimedBy, Bool.and_eq_true, decide_eq_true_eq] at hby
      have htime := hby.2
      rw [hl] at htime
      simpa using htime
    · exact lookup_union_of_none (hother row hne)
  · refine .inl ?_
    rw [eq_empty_of_lookup hnone]
    exact AList.empty_union

theorem change_of_settlement {T : Target K} {started : Prop} (sel : Table K → K → Bool)
    {clock : Nat} {σ σ' : Table K} {iso : Isolation} {busy : List (Row K)}
    {tx tx' : Option (Tx (Val K))} {new : List (Entry (Val K) Answer)}
    {st : Stmt (Val K) Event} {r : Option (st.Reply Answer)} (hst : IsSettlement st)
    (hlocal : Local iso busy σ tx st r σ' tx' new)
    (hclock : Timed.ReadsClock clock σ σ' st r) (hsame : ∀ k, sel σ k = false)
    (hsettled : ∀ {k r r'}, SettledAt clock k r r' σ σ' → ∀ k, sel σ' k = false) :
    Change T started (sel σ') clock σ σ' := by
  obtain ⟨k, c, set, rfl, hset⟩ := hst
  have hran : σ' = setRecord k (Record.claimedBy c clock) (Record.settle set clock) σ ∪ σ →
      Change T started (sel σ') clock σ σ' := by
    rintro rfl
    rcases settle_change σ hset with heq | ⟨r, r', hs⟩
    · rw [heq]
      exact .same rfl hsame
    · exact .settle hs (hsettled hs)
  cases hlocal with
  | fault => exact .same rfl hsame
  | auto clock' =>
    obtain rfl : clock' = clock := hclock
    exact hran rfl
  | autoLost =>
    rcases hclock with heq | hdb
    · rw [heq]
      exact .same rfl hsame
    · exact hran hdb

end Settlements

/-! ## Runs -/

/-- The system of relays over one store. -/
abbrev Relays (K : Type) : Type := Timed.Sys (Val K) Answer RelayCall (Option Err)

section Runs

variable {K : Type} [DecidableEq K] (iso : Isolation)
variable (code : RelayCall → Prog (Val K) Answer (Option Err))

/-- What a run of relays reaches, from records whose leases end when they are
next due. -/
def Reached (s : Relays K) : Prop :=
  ∃ clock σ commits, Aligned σ ∧
    Timed.Runs iso code Timed.anyStatement (.start clock σ) commits s

/-- A run in which no scan finds the row of `key` locked by another transaction. -/
def RunsPast (key : K) (s0 : Relays K) (commits : List (RelayCommit K RelayCall))
    (s : Relays K) : Prop :=
  Timed.Runs iso code (Passable key) s0 commits s

/-- A record that is due in `s0` is not passed by for long. While no scan
selects it, the scans that have started since select every record at most
once. And scans that have started since and have returned without an error,
with limits that add up to the number of records, leave it selected. -/
structure BypassBounded (selects : RelayCommit K RelayCall → K → Bool) (key : K) (s0 : Relays K)
    (commits : List (RelayCommit K RelayCall)) (s1 : Relays K) : Prop where
  once : (∀ c ∈ commits, selects c key = false) →
    ∀ k, commits.countP (fun c => (s0.clients c.client).isNone && selects c k) ≤ 1
  enough : ∀ scans : List (Nat × Nat), (scans.map Prod.fst).Nodup →
    (∀ x ∈ scans, s0.clients x.1 = none ∧ ∃ lease, s1.Returned x.1 (.claimDue x.2 lease) none) →
    (records s0.db).length ≤ (scans.map Prod.snd).sum → ∃ c ∈ commits, selects c key = true

end Runs

/-! ## A store in a run -/

/-- A store, as far as its scans are concerned: the programs, what a commit
selects, and what is known of the programs on the way. -/
structure Scanner (K : Type) [DecidableEq K] where
  iso : Isolation
  code : RelayCall → Prog (Val K) Answer (Option Err)
  selects : RelayCommit K RelayCall → K → Bool
  watch : Target K → (Nat → Prop) → Timed.Watch (Val K) Answer RelayCall (Option Err)
  survives : ∀ {T : Target K} {started : Nat → Prop}
    {allow : List (Row K) → Stmt (Val K) Event → Prop},
    ((∃ p, started p) → ∀ busy st, allow busy st → Passable T.key busy st) →
    (watch T started).Survives iso code allow (T.Known started)
  change : ∀ {T : Target K} {started : Nat → Prop}
    {allow : List (Row K) → Stmt (Val K) Event → Prop} {s s' : Relays K}
    {commits : List (RelayCommit K RelayCall)} {e : Option (Nat × RelayCall)},
    (watch T started).On s commits → T.Known started s.clock s.db →
    Timed.Step iso code allow s e s' →
    e = none ∧ s'.db = s.db ∨ ∃ p call, e = some (p, call) ∧
      Change T (started p) (selects ⟨p, call, s.db, s'.db⟩) s.clock s.db s'.db
  old : ∀ {T : Target K} {started : Nat → Prop} {s : Relays K}
    {commits : List (RelayCommit K RelayCall)},
    (watch T fun _ => False).On s commits → Timed.Tenanted s →
    (∀ p, s.clients p ≠ none → ¬ started p) → (watch T started).On s []
  completes : ∀ {T : Target K} {started : Nat → Prop} {p : Nat} {limit lease : Int}
    {tx : Option (Tx (Val K))} {σ : Table K} {commits : List (RelayCommit K RelayCall)},
    (watch T started).client p (.claimDue limit lease) (.ret none) tx σ commits → started p →
    T.Progress p limit.toNat commits

namespace Scanner

variable {K : Type} [DecidableEq K] {S : Scanner K} {s0 s s' : Relays K}
variable {commits : List (RelayCommit K RelayCall)} {T : Target K}

/-- Before anybody waits: what is known of every client, and that leases end
when their records are due. -/
theorem before (h : Reached S.iso S.code s) (T : Target K) :
    (∃ commits, (S.watch T fun _ => False).On s commits) ∧ Aligned s.db ∧ Timed.Tenanted s := by
  obtain ⟨clock, σ, commits, hσ, hruns⟩ := h
  suffices hon : (S.watch T fun _ => False).On s commits ∧ Aligned s.db from
    ⟨⟨commits, hon.1⟩, hon.2, hruns.tenanted⟩
  induction hruns with
  | refl => exact ⟨.start clock σ, hσ⟩
  | @step commits s s' e hruns hs ih =>
    obtain ⟨hon, haligned⟩ := ih
    have hknown : T.Known (fun _ => False) s.clock s.db := ⟨haligned, fun ⟨_, hf⟩ => hf.elim⟩
    refine ⟨Timed.Watch.step (S.survives fun ⟨_, hf⟩ => hf.elim) hruns.locked hknown hon hs, ?_⟩
    rcases S.change hon hknown hs with ⟨_, hsame⟩ | ⟨p, call, _, hchange⟩
    · rwa [hsame]
    · exact hchange.aligned haligned

/-- While the target waits: it is there, everybody is known, and the account is
kept. -/
structure Segment (S : Scanner K) (T : Target K) (s0 : Relays K)
    (commits : List (RelayCommit K RelayCall)) (s : Relays K) : Prop where
  clock : T.since ≤ s.clock
  stored : s.db.lookup (.record T.key) = some T.record
  aligned : Aligned s.db
  watched : (S.watch T fun p => s0.clients p = none).On s commits
  untouched : ∀ c ∈ commits, touches c T.key = false
  ledger : Ledger T (fun c k => (s0.clients c.client).isNone && S.selects c k) s0.db s.db commits

theorem Segment.start (h : Reached S.iso S.code s0) (hclock : T.since = s0.clock)
    (hstored : s0.db.lookup (.record T.key) = some T.record) : Segment S T s0 [] s0 := by
  obtain ⟨⟨_, hon⟩, haligned, htenanted⟩ := before h T
  exact ⟨Nat.le_of_eq hclock, hstored, haligned, S.old hon htenanted fun _ hp => hp, nofun,
    .start T _ _⟩

theorem Segment.step (h : Segment S T s0 commits s) (hl : Timed.Locked s)
    {e : Option (Nat × RelayCall)} (hs : Timed.Step S.iso S.code (Passable T.key) s e s')
    (hnot : ∀ c ∈ Timed.committed e s.db s'.db, S.selects c T.key = false) :
    Segment S T s0 (commits ++ Timed.committed e s.db s'.db) s' := by
  have hknown : T.Known (fun p => s0.clients p = none) s.clock s.db :=
    ⟨h.aligned, fun _ => ⟨h.clock, h.stored⟩⟩
  have hon := Timed.Watch.step (S.survives fun _ _ _ hok => hok) hl hknown h.watched hs
  have hclock := Nat.le_trans h.clock hs.clock_le
  rcases S.change h.watched hknown hs with ⟨rfl, hsame⟩ | ⟨p, call, rfl, hchange⟩
  · have hnil : commits ++ Timed.committed none s.db s'.db = commits := append_nil _
    rw [hnil] at hon ⊢
    exact ⟨hclock, hsame ▸ h.stored, hsame ▸ h.aligned, hon, h.untouched, hsame ▸ h.ledger⟩
  · have hsel := hnot _ (mem_singleton_self _)
    have hstays := hchange.target_stays hsel h.stored h.clock
    refine ⟨hclock, hstays.trans h.stored, hchange.aligned h.aligned, hon, fun c hc => ?_,
      h.ledger.commit (hchange.ahead_subset h.clock) fun k hk => ?_⟩
    · rcases mem_append.mp hc with hc | hc
      · exact h.untouched c hc
      · cases mem_singleton.mp hc
        exact decide_eq_false (not_not.mpr hstays)
    · rw [Bool.and_eq_true] at hk
      exact hchange.selected_passed (Option.isNone_iff_eq_none.mp hk.1) hsel hk.2

theorem Segment.runs (h : Reached S.iso S.code s0) (hclock : T.since = s0.clock)
    (hstored : s0.db.lookup (.record T.key) = some T.record)
    (hruns : RunsPast S.iso S.code T.key s0 commits s)
    (hnot : ∀ c ∈ commits, S.selects c T.key = false) : Segment S T s0 commits s := by
  induction hruns with
  | refl => exact .start h hclock hstored
  | @step commits s s' e hruns hs ih =>
    obtain ⟨clock, σ, earlier, _, hbefore⟩ := h
    refine (ih fun c hc => hnot c (mem_append_left _ hc)).step ?_ hs
      fun c hc => hnot c (mem_append_right _ hc)
    exact (hbefore.trans (fun _ _ _ => trivial) hruns).locked

theorem Segment.limits_le (h : Segment S T s0 commits s) {scans : List (Nat × Nat)}
    (hnodup : (scans.map Prod.fst).Nodup) (hscans : ∀ x ∈ scans, s0.clients x.1 = none ∧
      ∃ lease, s.Returned x.1 (.claimDue x.2 lease) none) :
    (scans.map Prod.snd).sum ≤ (T.ahead s0.db).card := by
  have hpassed : ∀ x ∈ scans, x.2 ≤ T.passedBy x.1 commits := by
    intro x hx
    obtain ⟨hnew, lease, c, hc, hcall, hret⟩ := hscans x hx
    have hclient := h.watched.client x.1 c _ hc hret
    rw [hcall] at hclient
    rcases S.completes hclient hnew with ⟨c, hc, htouch⟩ | hle
    · rw [h.untouched c hc] at htouch
      cases htouch
    · exact hle
  have hsum := T.sum_passedBy_le (scans.map Prod.fst) hnodup commits
  rw [map_map] at hsum
  have htotal := h.ledger.total
  calc (scans.map Prod.snd).sum
      ≤ (scans.map ((fun p => T.passedBy p commits) ∘ Prod.fst)).sum := sum_le_sum hpassed
    _ ≤ (commits.map fun c => (T.passed c).card).sum := hsum
    _ ≤ (T.ahead s0.db).card := by omega

theorem aligned (h : Reached S.iso S.code s) {k : K} {r : Record}
    (hstored : s.db.lookup (.record k) = some r) (hs : r.state = .publishing) :
    r.leaseUntil = some r.nextAttemptAt := by
  -- any record that could wait will do
  let T : Target K := ⟨k, { r with state := .pending }, r.nextAttemptAt,
    ⟨State.noConfusion, State.noConfusion⟩, nofun, Nat.le_refl _⟩
  exact (before h T).2.1 k r hstored hs

theorem bypassBounded (S : Scanner K) {k : K} {r : Record} (h : Reached S.iso S.code s0)
    (hstored : s0.db.lookup (.record k) = some r) (hclaimable : Claimable r)
    (hripe : (r.state = .publishing → r.leaseUntil = some r.nextAttemptAt) →
      r.nextAttemptAt ≤ s0.clock)
    (hruns : RunsPast S.iso S.code k s0 commits s) : BypassBounded S.selects k s0 commits s := by
  have haligned := aligned h hstored
  let T : Target K := ⟨k, r, s0.clock, hclaimable, haligned, hripe haligned⟩
  have hsegment : (∀ c ∈ commits, S.selects c k = false) → Segment S T s0 commits s :=
    fun hnot => Segment.runs h rfl hstored hruns hnot
  constructor
  · intro hnot j
    have honce := (hsegment hnot).ledger.once j
    omega
  · intro scans hnodup hscans hsum
    by_contra hnone
    have hnot : ∀ c ∈ commits, S.selects c k = false := by
      intro c hc
      by_contra hsel
      exact hnone ⟨c, hc, by simpa using hsel⟩
    have hle := (hsegment hnot).limits_le hnodup hscans
    have hlt := T.card_ahead_lt hstored
    omega

end Scanner

end ReliableMessaging.Outbox
