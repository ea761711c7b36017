import Mathlib.Data.Finset.Card
import ReliableMessaging.Outbox.Mongo
import ReliableMessaging.Outbox.MySql
import ReliableMessaging.Outbox.Contract
import ReliableMessaging.TxLang.Timed

/-!
# The records ahead of one

A scan takes due records by their due time. Whoever waits while others are
taken waits for the records ahead of it: those that may be taken at all and
are due no later. The set never grows. A scan that passes over the waiting
record takes only records of the set, and puts each of them behind it; a
settlement puts its record behind the clock. So each record is passed by once,
and every place of a scan's limit is paid for by one of them.
-/

namespace ReliableMessaging.Outbox

open TxLang List

instance (r : Record) : Decidable (Claimable r) := inferInstanceAs (Decidable (_ ∧ _))

section

variable {K : Type} [DecidableEq K]

variable {k : K} {r r' : Record} {now n leaseUntil limit p : Nat} {α : Type}
variable {picks : List (K × Record)}

theorem mem_records_iff {σ : Table K} : (k, r) ∈ records σ ↔ σ.lookup (.record k) = some r := by
  refine ⟨mem_records, fun h => mem_filterMap.mpr ?_⟩
  exact ⟨⟨.record k, r⟩, AList.mem_lookup_iff.mp h, rfl⟩

/-- Leases end when the record is next due. -/
def Aligned (σ : Table K) : Prop :=
  ∀ k (r : Record), σ.lookup (.record k) = some r → r.state = .publishing →
    r.leaseUntil = some r.nextAttemptAt

/-- A record that is due and waits: since when, and as what. -/
structure Target (K : Type) where
  key : K
  record : Record
  since : Nat
  claimable : Claimable record
  aligned : record.state = .publishing → record.leaseUntil = some record.nextAttemptAt
  ripe : record.nextAttemptAt ≤ since

variable {T : Target K}

omit [DecidableEq K] in
theorem Target.due (T : Target K) (h : T.since ≤ now) :
    T.record.due now = true ∧ Mongo.dueFilter now T.record = true := by
  have hripe : T.record.nextAttemptAt ≤ now := Nat.le_trans T.ripe h
  have hclaimable := T.claimable
  cases hs : T.record.state with
  | pending => simp [Record.due, Mongo.dueFilter, hs, hripe]
  | retryWait => simp [Record.due, Mongo.dueFilter, hs, hripe]
  | publishing => simp [Record.due, Mongo.dueFilter, hs, T.aligned hs, hripe]
  | published => exact absurd hs hclaimable.1
  | quarantined => exact absurd hs hclaimable.2

/-- The records that a scan may take no later than the waiting one. -/
def Target.ahead (T : Target K) (σ : Table K) : Finset K :=
  (((records σ).filter fun x => x.1 ≠ T.key ∧ Claimable x.2 ∧
    x.2.nextAttemptAt ≤ T.record.nextAttemptAt).map Prod.fst).toFinset

theorem Target.mem_ahead {σ : Table K} :
    k ∈ T.ahead σ ↔ k ≠ T.key ∧ ∃ r : Record, σ.lookup (.record k) = some r ∧ Claimable r ∧
      r.nextAttemptAt ≤ T.record.nextAttemptAt := by
  simp only [Target.ahead, mem_toFinset, mem_map, mem_filter, decide_eq_true_eq, Prod.exists]
  constructor
  · rintro ⟨k', r, ⟨hmem, hne, hc, hle⟩, rfl⟩
    exact ⟨hne, r, mem_records hmem, hc, hle⟩
  · rintro ⟨hne, r, hr, hc, hle⟩
    exact ⟨k, r, ⟨mem_records_iff.mpr hr, hne, hc, hle⟩, rfl⟩

theorem Target.card_ahead_lt {σ : Table K} (h : σ.lookup (.record T.key) = some T.record) :
    (T.ahead σ).card < (records σ).length := by
  refine Nat.lt_of_le_of_lt (toFinset_card_le _) ?_
  rw [length_map]
  refine length_filter_lt_length_iff_exists.mpr ⟨_, mem_records_iff.mpr h, ?_⟩
  simp

/-! ## Taking the first of a sorted list -/

theorem pairwise_insertionSort (R : α → α → Prop) [DecidableRel R] (key : α → Nat)
    (hle : ∀ a b, R a b → key a ≤ key b) (hge : ∀ a b, ¬ R a b → key b ≤ key a) (l : List α) :
    (l.insertionSort R).Pairwise fun a b => key a ≤ key b := by
  have hinsert : ∀ a (m : List α), m.Pairwise (fun a b => key a ≤ key b) →
      (m.orderedInsert R a).Pairwise fun a b => key a ≤ key b := by
    intro a m
    induction m with
    | nil => exact fun _ => pairwise_singleton _ _
    | cons b m ih =>
      intro hm
      obtain ⟨hb, hm'⟩ := pairwise_cons.mp hm
      rw [List.orderedInsert]
      split
      next hab =>
        refine pairwise_cons.mpr ⟨fun c hc => ?_, hm⟩
        rcases mem_cons.mp hc with rfl | hc
        · exact hle a c hab
        · exact Nat.le_trans (hle a b hab) (hb c hc)
      next hab =>
        refine pairwise_cons.mpr ⟨fun c hc => ?_, ih hm'⟩
        rw [mem_orderedInsert] at hc
        rcases hc with rfl | hc
        · exact hge c b hab
        · exact hb c hc
  induction l with
  | nil => exact List.Pairwise.nil
  | cons a l ih => exact hinsert a _ ih

/-- Who is not among the first of a sorted list sees a full house, and nobody
there that comes later. -/
theorem take_of_not_mem {key : α → Nat} {l : List α} {x : α}
    (hl : l.Pairwise fun a b => key a ≤ key b) (hx : x ∈ l) (hnot : x ∉ l.take n) :
    (l.take n).length = n ∧ ∀ y ∈ l.take n, key y ≤ key x := by
  have hdrop : x ∈ l.drop n := by
    rw [← take_append_drop n l, mem_append] at hx
    exact hx.resolve_left hnot
  constructor
  · rw [length_take, Nat.min_eq_left]
    by_contra hlt
    rw [drop_eq_nil_of_le (by omega)] at hdrop
    cases hdrop
  · rw [← take_append_drop n l, pairwise_append] at hl
    exact fun y hy => hl.2.2 y hy x hdrop

/-! ## Changes -/

/-- What a scan makes of a record it selects: leased to the end given, or
quarantined for its content. -/
inductive Selection (leaseUntil : Nat) (r : Record) : Record → Prop
  | lease (token : String) (clock : Nat) : Selection leaseUntil r (r.claim token leaseUntil clock)
  | corrupt (code : String) (clock : Nat) :
      Selection leaseUntil r (r.settle (setQuarantined code) clock)

theorem Selection.ne (h : Selection leaseUntil r r') : r' ≠ r := by
  intro heq
  have hversion : r'.version = r.version + 1 := by
    cases h with
    | lease => rfl
    | corrupt => rfl
  rw [heq] at hversion
  omega

/-- A scan that read `now` has selected these records, due by then. -/
structure Selected (now leaseUntil : Nat) (picks : List (K × Record)) (σ σ' : Table K) : Prop where
  longer : now < leaseUntil
  nodup : (picks.map Prod.fst).Nodup
  stored : ∀ x ∈ picks, σ.lookup (.record x.1) = some x.2
  claimable : ∀ x ∈ picks, Claimable x.2
  ripe : ∀ x ∈ picks, x.2.nextAttemptAt ≤ now
  moved : ∀ x ∈ picks, ∃ r' : Record, σ'.lookup (.record x.1) = some r' ∧
    Selection leaseUntil x.2 r'
  others : ∀ row, (∀ x ∈ picks, row ≠ .record x.1) → σ'.lookup row = σ.lookup row

/-- A settlement at this time has ended a lease, which it found in force. -/
structure SettledAt (clock : Nat) (k : K) (r r' : Record) (σ σ' : Table K) : Prop where
  stored : σ.lookup (.record k) = some r
  leased : r.state = .publishing
  inForce : ∀ l, r.leaseUntil = some l → clock < l
  written : σ'.lookup (.record k) = some r'
  ended : r'.state ≠ .publishing
  later : Claimable r' → clock < r'.nextAttemptAt
  others : ∀ row, row ≠ .record k → σ'.lookup row = σ.lookup row

/-- The waiting record was selected, or the scan has used its whole limit on
records that were due no later. -/
def Target.Fair (T : Target K) (limit : Nat) (picks : List (K × Record)) : Prop :=
  T.key ∈ picks.map Prod.fst ∨
    picks.length = limit ∧ ∀ x ∈ picks, x.2.nextAttemptAt ≤ T.record.nextAttemptAt

theorem Target.fair_take (T : Target K) {R : K × Record → K × Record → Prop} [DecidableRel R]
    (hle : ∀ a b, R a b → a.2.nextAttemptAt ≤ b.2.nextAttemptAt)
    (hge : ∀ a b, ¬ R a b → b.2.nextAttemptAt ≤ a.2.nextAttemptAt) {due : Record → Bool}
    (hdue : due T.record = true) {σ : Table K}
    (hstored : σ.lookup (.record T.key) = some T.record) (limit : Nat) :
    T.Fair limit ((((records σ).filter fun x => due x.2).insertionSort R).take limit) := by
  have hmem : (T.key, T.record) ∈ ((records σ).filter fun x => due x.2).insertionSort R := by
    rw [mem_insertionSort, mem_filter]
    exact ⟨mem_records_iff.mpr hstored, hdue⟩
  have hsorted := pairwise_insertionSort R (fun x => x.2.nextAttemptAt) hle hge
    ((records σ).filter fun x => due x.2)
  by_cases hin : (T.key, T.record) ∈
      (((records σ).filter fun x => due x.2).insertionSort R).take limit
  · exact .inl (mem_map.mpr ⟨_, hin, rfl⟩)
  · exact .inr (take_of_not_mem hsorted hmem hin)

/-- What one commit does to the records, and which of them it selects (`sel`).
Scans that have `started` since the target waits treat it fairly. -/
inductive Change (T : Target K) (started : Prop) (sel : K → Bool) (clock : Nat) (σ σ' : Table K) :
    Prop
  | same (h : σ' = σ) (none : ∀ k, sel k = false)
  | select {now leaseUntil limit : Nat} {picks : List (K × Record)}
      (h : Selected now leaseUntil picks σ σ')
      (fair : started → T.since ≤ now ∧ T.Fair limit picks)
      (these : ∀ k, sel k = true ↔ k ∈ picks.map Prod.fst)
  | settle {k : K} {r r' : Record} (h : SettledAt clock k r r' σ σ') (none : ∀ k, sel k = false)

variable {started : Prop} {sel : K → Bool} {clock : Nat} {σ σ' : Table K}

theorem Selected.pick_of_changed (h : Selected now leaseUntil picks σ σ')
    (hk : (σ'.lookup (.record k) : Option Record) ≠ σ.lookup (.record k)) :
    k ∈ picks.map Prod.fst := by
  by_contra hnot
  refine hk (h.others _ fun x hx heq => hnot ?_)
  exact mem_map.mpr ⟨x, hx, (Row.record.inj heq).symm⟩

theorem Selected.changed (h : Selected now leaseUntil picks σ σ') (hk : k ∈ picks.map Prod.fst) :
    (σ'.lookup (.record k) : Option Record) ≠ σ.lookup (.record k) := by
  obtain ⟨x, hx, rfl⟩ := mem_map.mp hk
  obtain ⟨r', hr', hsel⟩ := h.moved x hx
  rw [hr', h.stored x hx]
  exact fun heq => hsel.ne (Option.some.inj heq)

theorem Change.aligned (h : Change T started sel clock σ σ') (ha : Aligned σ) : Aligned σ' := by
  intro k r' hr' hs
  cases h with
  | same h _ => exact ha k r' (h ▸ hr') hs
  | @select now leaseUntil limit picks h _ _ =>
    by_cases hpick : ∃ x ∈ picks, Row.record k = .record x.1
    · obtain ⟨x, hx, heq⟩ := hpick
      cases heq
      obtain ⟨r1, hr1, hsel⟩ := h.moved x hx
      cases hr'.symm.trans hr1
      cases hsel with
      | lease => rfl
      | corrupt => cases hs
    · rw [h.others _ fun x hx heq => hpick ⟨x, hx, heq⟩] at hr'
      exact ha k r' hr' hs
  | @settle k1 r r1 h _ =>
    by_cases hk : k = k1
    · subst hk
      cases hr'.symm.trans h.written
      exact absurd hs h.ended
    · rw [h.others _ fun heq => hk (Row.record.inj heq)] at hr'
      exact ha k r' hr' hs

theorem Change.ahead_subset (h : Change T started sel clock σ σ') (hclock : T.since ≤ clock) :
    T.ahead σ' ⊆ T.ahead σ := by
  intro k hk
  obtain ⟨hne, r', hr', hc, hle⟩ := Target.mem_ahead.mp hk
  cases h with
  | same h _ =>
    rw [h] at hk
    exact hk
  | @select now leaseUntil limit picks h _ _ =>
    by_cases hpick : ∃ x ∈ picks, Row.record k = .record x.1
    · obtain ⟨x, hx, heq⟩ := hpick
      cases heq
      obtain ⟨r1, hr1, hsel⟩ := h.moved x hx
      cases hr'.symm.trans hr1
      refine Target.mem_ahead.mpr ⟨hne, x.2, h.stored x hx, h.claimable x hx, ?_⟩
      have hripe := h.ripe x hx
      have hlonger := h.longer
      cases hsel with
      | lease =>
        have hend : leaseUntil ≤ T.record.nextAttemptAt := hle
        omega
      | corrupt => exact absurd rfl hc.2
    · rw [h.others _ fun x hx heq => hpick ⟨x, hx, heq⟩] at hr'
      exact Target.mem_ahead.mpr ⟨hne, r', hr', hc, hle⟩
  | @settle k1 r r1 h _ =>
    by_cases hk1 : k = k1
    · subst hk1
      cases hr'.symm.trans h.written
      have hlater := h.later hc
      have hripe := T.ripe
      omega
    · rw [h.others _ fun heq => hk1 (Row.record.inj heq)] at hr'
      exact Target.mem_ahead.mpr ⟨hne, r', hr', hc, hle⟩

/-- Whom a fair scan selects instead of the waiting record was ahead of it and
is so no more. -/
theorem Selected.passed (h : Selected now leaseUntil picks σ σ') (hnow : T.since ≤ now)
    (hfair : T.Fair limit picks) (hnot : T.key ∉ picks.map Prod.fst) (hk : k ∈ picks.map Prod.fst) :
    k ∈ T.ahead σ \ T.ahead σ' := by
  obtain ⟨x, hx, rfl⟩ := mem_map.mp hk
  obtain ⟨_, hle⟩ := hfair.resolve_left hnot
  have hne : x.1 ≠ T.key := fun heq => hnot (heq ▸ hk)
  rw [Finset.mem_sdiff, Target.mem_ahead, Target.mem_ahead]
  refine ⟨⟨hne, x.2, h.stored x hx, h.claimable x hx, hle x hx⟩, ?_⟩
  rintro ⟨_, r', hr', hc, hend⟩
  obtain ⟨r1, hr1, hsel⟩ := h.moved x hx
  cases hr'.symm.trans hr1
  have hlonger := h.longer
  have hripe := T.ripe
  cases hsel with
  | lease =>
    have hend' : leaseUntil ≤ T.record.nextAttemptAt := hend
    omega
  | corrupt => exact hc.2 rfl

theorem Selected.card_passed (h : Selected now leaseUntil picks σ σ') (hnow : T.since ≤ now)
    (hfair : T.Fair limit picks) (hnot : T.key ∉ picks.map Prod.fst) :
    limit ≤ (T.ahead σ \ T.ahead σ').card := by
  obtain ⟨hlength, _⟩ := hfair.resolve_left hnot
  calc limit = (picks.map Prod.fst).length := by rw [length_map, hlength]
    _ = (picks.map Prod.fst).toFinset.card := (toFinset_card_of_nodup h.nodup).symm
    _ ≤ _ := Finset.card_le_card fun k hk => h.passed hnow hfair hnot (mem_toFinset.mp hk)

theorem SettledAt.not_due (h : SettledAt clock k r r' σ σ')
    (htarget : σ.lookup (.record T.key) = some T.record) (hclock : T.since ≤ clock) :
    k ≠ T.key := by
  rintro rfl
  cases h.stored.symm.trans htarget
  have hin := h.inForce _ (T.aligned h.leased)
  have hripe := T.ripe
  omega

theorem Change.target_stays (h : Change T started sel clock σ σ') (hsel : sel T.key = false)
    (htarget : σ.lookup (.record T.key) = some T.record) (hclock : T.since ≤ clock) :
    σ'.lookup (.record T.key) = σ.lookup (.record T.key) := by
  cases h with
  | same h _ => rw [h]
  | @select now leaseUntil limit picks h _ these =>
    by_contra hne
    rw [(these T.key).mpr (h.pick_of_changed hne)] at hsel
    cases hsel
  | settle h _ => exact h.others _ fun heq => h.not_due htarget hclock (Row.record.inj heq).symm

/-- Whom a scan selects that has started since, and not the waiting record, it
has put behind that. -/
theorem Change.selected_passed (h : Change T started sel clock σ σ') (hstarted : started)
    (hsel : sel T.key = false) (hk : sel k = true) : k ∈ T.ahead σ \ T.ahead σ' := by
  cases h with
  | same _ none =>
    rw [none k] at hk
    cases hk
  | @select now leaseUntil limit picks h fair these =>
    obtain ⟨hnow, hfair⟩ := fair hstarted
    refine h.passed hnow hfair (fun hin => ?_) ((these k).mp hk)
    rw [(these T.key).mpr hin] at hsel
    cases hsel
  | settle _ none =>
    rw [none k] at hk
    cases hk

/-- What is known of the clock and the rows: leases end when their records are
next due; and, once somebody has `started` since the target waits, that it is
there and the clock is past that time. -/
structure Target.Known (T : Target K) (started : Nat → Prop) (clock : Nat) (σ : Table K) :
    Prop where
  aligned : Aligned σ
  waits : (∃ p, started p) → T.since ≤ clock ∧ σ.lookup (.record T.key) = some T.record

/-- No scan finds the row of `key` locked by another transaction. -/
def Passable (key : K) (busy : List (Row K)) (st : Stmt (Val K) Event) : Prop :=
  ∀ pick, st = .skipLocked pick → Row.record key ∉ busy

/-! ## The account of a run -/

variable {Call : Type}

abbrev RelayCommit (K Call : Type) : Type := Timed.Commit (Val K) Call

/-- The records that a commit has put behind the waiting one. -/
def Target.passed (T : Target K) (c : RelayCommit K Call) : Finset K :=
  T.ahead c.before \ T.ahead c.after

def Target.passedBy (T : Target K) (p : Nat) (commits : List (RelayCommit K Call)) : Nat :=
  ((commits.filter fun c => c.client = p).map fun c => (T.passed c).card).sum

def touches (c : RelayCommit K Call) (k : K) : Bool :=
  decide ((c.after.lookup (.record k) : Option Record) ≠ c.before.lookup (.record k))

/-- A client has come so far: it has used `n` of its limit on records ahead of
the waiting one, unless that one was touched. -/
def Target.Progress (T : Target K) (p n : Nat) (commits : List (RelayCommit K Call)) : Prop :=
  (∃ c ∈ commits, touches c T.key = true) ∨ n ≤ T.passedBy p commits

theorem Target.passedBy_append (p : Nat) (l m : List (RelayCommit K Call)) :
    T.passedBy p (l ++ m) = T.passedBy p l + T.passedBy p m := by
  simp [Target.passedBy]

theorem Target.Progress.append {commits : List (RelayCommit K Call)} (h : T.Progress p n commits)
    (more : List (RelayCommit K Call)) : T.Progress p n (commits ++ more) := by
  refine h.imp ?_ fun hle => ?_
  · rintro ⟨c, hc, ht⟩
    exact ⟨c, mem_append_left _ hc, ht⟩
  · rw [Target.passedBy_append]
    omega

theorem Target.Progress.select {commits : List (RelayCommit K Call)} (h : T.Progress p n commits)
    (hsel : Selected now leaseUntil picks σ σ') (hnow : T.since ≤ now) (hfair : T.Fair limit picks)
    (call : Call) : T.Progress p (n + limit) (commits ++ [⟨p, call, σ, σ'⟩]) := by
  by_cases hin : T.key ∈ picks.map Prod.fst
  · refine .inl ⟨_, mem_append_right _ mem_cons_self, ?_⟩
    exact decide_eq_true (hsel.changed hin)
  · refine h.imp ?_ fun hle => ?_
    · rintro ⟨c, hc, ht⟩
      exact ⟨c, mem_append_left _ hc, ht⟩
    · have hcard := hsel.card_passed hnow hfair hin
      have hone : T.passedBy p [(⟨p, call, σ, σ'⟩ : RelayCommit K Call)] =
          (T.ahead σ \ T.ahead σ').card := by
        simp [Target.passedBy, Target.passed]
      rw [Target.passedBy_append, hone]
      omega

/-- The account: what was passed, and who is still ahead; and each record was
chosen once, or is still ahead. -/
structure Ledger (T : Target K) (chosen : RelayCommit K Call → K → Bool) (σ0 σ : Table K)
    (commits : List (RelayCommit K Call)) : Prop where
  total : (commits.map fun c => (T.passed c).card).sum + (T.ahead σ).card ≤ (T.ahead σ0).card
  once : ∀ k, commits.countP (chosen · k) + (if k ∈ T.ahead σ then 1 else 0) ≤ 1

variable {chosen : RelayCommit K Call → K → Bool} {σ0 : Table K}
variable {commits : List (RelayCommit K Call)}

theorem Ledger.start (T : Target K) (chosen : RelayCommit K Call → K → Bool) (σ : Table K) :
    Ledger T chosen σ σ [] := by
  refine ⟨by simp, fun k => ?_⟩
  simp only [countP_nil]
  split <;> omega

theorem Ledger.commit (h : Ledger T chosen σ0 σ commits) {call : Call}
    (hsub : T.ahead σ' ⊆ T.ahead σ)
    (hchosen : ∀ k, chosen ⟨p, call, σ, σ'⟩ k = true → k ∈ T.ahead σ \ T.ahead σ') :
    Ledger T chosen σ0 σ' (commits ++ [⟨p, call, σ, σ'⟩]) := by
  constructor
  · have hsplit : (T.passed (⟨p, call, σ, σ'⟩ : RelayCommit K Call)).card + (T.ahead σ').card =
        (T.ahead σ).card := Finset.card_sdiff_add_card_eq_card hsub
    have htotal := h.total
    rw [map_append, map_singleton, sum_append, sum_singleton]
    omega
  · intro k
    have honce := h.once k
    rw [countP_append, countP_singleton]
    by_cases hc : chosen ⟨p, call, σ, σ'⟩ k = true
    · have hk := Finset.mem_sdiff.mp (hchosen k hc)
      rw [if_pos hc, if_neg hk.2]
      rw [if_pos hk.1] at honce
      omega
    · rw [if_neg hc]
      by_cases hk : k ∈ T.ahead σ'
      · rw [if_pos (hsub hk)] at honce
        rw [if_pos hk]
        omega
      · rw [if_neg hk]
        split at honce <;> omega

theorem Target.sum_passedBy_le (T : Target K) :
    ∀ (clients : List Nat), clients.Nodup → ∀ commits : List (RelayCommit K Call),
      (clients.map fun p => T.passedBy p commits).sum ≤
        (commits.map fun c => (T.passed c).card).sum
  | [], _, _ => Nat.zero_le _
  | p :: clients, hnodup, commits => by
    obtain ⟨hnot, hnodup⟩ := nodup_cons.mp hnodup
    -- the commits of the others, where the first client has none
    have hrest := T.sum_passedBy_le clients hnodup (commits.filter fun c => c.client ≠ p)
    have hsame : ∀ q ∈ clients,
        T.passedBy q (commits.filter fun c => c.client ≠ p) = T.passedBy q commits := by
      intro q hq
      have hne : q ≠ p := fun heq => hnot (heq ▸ hq)
      simp only [Target.passedBy, filter_filter]
      congr 2
      refine filter_congr fun c _ => ?_
      by_cases hc : c.client = q <;> simp [hc, hne]
    rw [map_congr_left hsame] at hrest
    have hsplit : ∀ l : List (RelayCommit K Call), (l.map fun c => (T.passed c).card).sum =
        T.passedBy p l + ((l.filter fun c => c.client ≠ p).map fun c => (T.passed c).card).sum := by
      intro l
      induction l with
      | nil => rfl
      | cons c l ih =>
        by_cases hc : c.client = p
        · simp only [Target.passedBy, map_cons, sum_cons, ih, filter_cons, hc,
            decide_true, if_true, ne_eq, not_true, decide_false, Bool.false_eq_true, if_false]
          omega
        · simp only [Target.passedBy, map_cons, sum_cons, ih, filter_cons, hc,
            decide_false, Bool.false_eq_true, if_false, ne_eq, not_false_eq_true, decide_true,
            if_true]
          omega
    rw [map_cons, sum_cons, hsplit commits]
    omega

end

end ReliableMessaging.Outbox
