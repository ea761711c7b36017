import ReliableMessaging.Outbox.Turns
import ReliableMessaging.TxLang.Phases

/-!
# Scans of the MySQL outbox, in time

`ClaimDue` is one transaction: it reads the clock, locks the first due rows
that nobody else holds, and moves each of them. Its phases are these
statements (`Phase`). What each phase knows of the rows survives because the
rows are locked: nobody moves a candidate between the scan and the commit.
-/

namespace ReliableMessaging.Outbox.MySql

open TxLang List Option

def relayCode (H : Sha256) : RelayCall → Prog (Val Id) Answer (Option Err)
  | .host script _ => nomatch script
  | .claimDue limit lease => returning (claimDue H limit lease)
  | .confirm c => returning (confirm c)
  | .retry c delay code => returning (retry c delay code)
  | .quarantine c code => returning (quarantine c code)

/-- Where `ClaimDue` stands: the clock reading, and the candidates it has
updated and those it has yet to. -/
inductive Phase
  | idle
  | begun
  | timed (now : Nat)
  | picked (now : Nat) (done todo : List (Id × Record))
  | committed
  | failed

/-- What `ClaimDue` sends in each phase. `lease` is in the database's precision. -/
def Phase.admits (limit lease : Nat) : Phase → Stmt (Val Id) Event → Prop
  | .idle, st => st = .begin
  | .begun, st => st = .now
  | .timed now, st => st = .skipLocked (dueRows now limit)
  | .picked now _ todo, st => st = .now ∨ st = .random ∨
      (∃ x rest set, todo = x :: rest ∧ (∀ r, Selection (now + lease) r (set r)) ∧
        st = .update (setRecord x.1 (·.version = x.2.version) set)) ∨
      todo = [] ∧ 0 < lease ∧ st = .commit
  | .committed, st => st = .rollback
  | .failed, st => st = .rollback

def Phase.next : Phase → (st : Stmt (Val Id) Event) → Option (st.Reply Answer) → Phase
  | .idle, .begin, some _ => .begun
  | .begun, .now, some (now : Nat) => .timed now
  | .timed now, .skipLocked _, some (rows : List (Sigma (Val Id))) =>
    .picked now [] (recordsOf rows)
  | .picked now done todo, .update _, some _ => .picked now (done ++ todo.take 1) todo.tail
  | .picked now done todo, .now, some _ => .picked now done todo
  | .picked now done todo, .random, some _ => .picked now done todo
  | .picked _ _ _, .commit, some _ => .committed
  | .committed, _, _ => .committed
  | _, _, _ => .failed

def scan (limit lease : Nat) : Protocol (Val Id) Answer Phase :=
  ⟨Phase.admits limit lease, Phase.next⟩

section Follows

variable {H : Sha256} {limit lease now : Nat} {done : List (Id × Record)}

theorem adheres_setCandidate {x : Id × Record} {rest : List (Id × Record)}
    {set : Nat → Record → Record} (hset : ∀ clock r, Selection (now + lease) r (set clock r)) :
    Adheres (scan limit lease) (· = .failed)
      (setCandidate x.1 x.2.version set : OutboxCode Answer Unit)
      (fun _ ph => ph = .picked now (done ++ [x]) rest) (.picked now done (x :: rest)) := by
  refine adheres_bind (adheres_send (.inl rfl) rfl fun clock => ?_)
  refine adheres_bind (adheres_send (.inr (.inr (.inl ?_))) rfl fun _ => adheres_pure rfl)
  exact ⟨x, rest, set clock, rfl, hset clock, rfl⟩

theorem adheres_claimRow (x : Id × Record) (rest : List (Id × Record)) :
    Adheres (scan limit lease) (· = .failed)
      (claimRow H (now + lease) x.1 x.2 : OutboxCode Answer (Option Claim))
      (fun _ ph => ph = .picked now (done ++ [x]) rest) (.picked now done (x :: rest)) := by
  unfold claimRow
  split
  · exact adheres_bind (adheres_mono (fun _ _ hph => adheres_pure hph)
      (adheres_setCandidate fun clock r => .corrupt _ clock))
  · refine adheres_bind (adheres_send (.inr (.inl rfl)) rfl fun entropy => ?_)
    exact adheres_bind (adheres_mono (fun _ _ hph => adheres_pure hph)
      (adheres_setCandidate fun clock r => .lease _ clock))

theorem adheres_claimRows (done todo : List (Id × Record)) :
    Adheres (scan limit lease) (· = .failed)
      (claimRows H (now + lease) todo : OutboxCode Answer (List Claim))
      (fun _ ph => ph = .picked now (done ++ todo) []) (.picked now done todo) := by
  induction todo generalizing done with
  | nil => exact adheres_pure (by rw [append_nil])
  | cons x rest ih =>
    refine adheres_bind (adheres_mono (fun _ ph hph => ?_) (adheres_claimRow x rest))
    rw [hph]
    refine adheres_bind (adheres_mono (fun _ ph' hph' => adheres_pure ?_) (ih _))
    rw [hph', append_assoc]
    rfl

/-- `ClaimDue` follows its protocol, and returns without an error only when it
has committed. -/
theorem follows_claimDue (limit lease : Int) :
    (returning (claimDue H limit lease)).Follows (scan limit.toNat (lease.toNat / 1000))
      (fun err ph => err = none → ph = .committed) .idle := by
  refine Prog.Follows.bind (follows_refuse_bind nofun fun hvalid => ?_)
  have hlease : 0 < lease.toNat / 1000 := by
    simp only [Bool.or_eq_false_iff, decide_eq_false_iff_not] at hvalid
    omega
  have hbody : Adheres (scan limit.toNat (lease.toNat / 1000)) (· = .failed)
      (do
        let now ← utcTimestamp
        let candidates : List (Sigma (Val Id)) ←
          send Err.driver (.skipLocked (dueRows now limit.toNat))
        let claims ← claimRows H (now + lease.toNat / 1000) (recordsOf candidates)
        let _ : Unit ← send Err.driver .commit
        pure claims : OutboxCode Answer (List Claim)) (fun _ ph => ph = .committed) .begun := by
    refine adheres_bind (adheres_send rfl rfl fun now => ?_)
    refine adheres_bind (adheres_send rfl rfl fun candidates => ?_)
    refine adheres_bind (adheres_mono (fun _ ph hph => ?_)
      (adheres_claimRows [] (recordsOf candidates)))
    rw [hph]
    refine adheres_bind (adheres_send (.inr (.inr (.inr ⟨rfl, hlease, rfl⟩))) rfl fun _ => ?_)
    exact adheres_pure rfl
  refine follows_withTx rfl nofun (Prog.Follows.mono ?_ hbody)
  rintro r ph ⟨hok, herr⟩
  cases r with
  | ok claims =>
    rw [hok claims rfl]
    exact ⟨rfl, fun _ _ => rfl⟩
  | error e =>
    rw [herr e rfl]
    exact ⟨rfl, fun _ => nofun⟩

end Follows

/-! ## What each phase knows -/

section Sound

variable (T : Target Id) (started : Prop) (p limit lease : Nat)

/-- The candidates of a scan: locked, as they were when it locked them, and
each one staged once its turn has come. -/
structure Picked (now : Nat) (done todo : List (Id × Record)) (t : Tx (Val Id)) (σ : Table Id) :
    Prop where
  fair : started → T.since ≤ now ∧ T.Fair limit (done ++ todo)
  nodup : ((done ++ todo).map Prod.fst).Nodup
  held : ∀ x ∈ done ++ todo, t.Holds (.record x.1)
  stored : ∀ x ∈ done ++ todo, σ.lookup (.record x.1) = some x.2
  claimable : ∀ x ∈ done ++ todo, Claimable x.2
  ripe : ∀ x ∈ done ++ todo, x.2.nextAttemptAt ≤ now
  fresh : ∀ x ∈ todo, t.writes.lookup (.record x.1) = none
  staged : ∀ x ∈ done, ∃ r' : Record, t.writes.lookup (.record x.1) = some r' ∧
    Selection (now + lease) x.2 r'
  only : ∀ row, (∀ x ∈ done, row ≠ .record x.1) → t.writes.lookup row = none

def Phase.Sound (tx : Option (Tx (Val Id))) (σ : Table Id)
    (commits : List (RelayCommit Id RelayCall)) : Phase → Prop
  | .idle => tx = none
  | .begun => ∃ t, tx = some t ∧ t.writes = ∅
  | .timed now => (∃ t, tx = some t ∧ t.writes = ∅) ∧ (started → T.since ≤ now)
  | .picked now done todo => ∃ t, tx = some t ∧ Picked T started limit lease now done todo t σ
  | .committed => started → T.Progress p limit commits
  | .failed => True

end Sound

section Steps

variable {T : Target Id} {started : Prop} {p limit lease : Nat}
variable {now clock : Nat} {done todo : List (Id × Record)} {t : Tx (Val Id)} {σ σ' : Table Id}
variable {tx : Option (Tx (Val Id))} {commits : List (RelayCommit Id RelayCall)} {ph : Phase}

theorem Picked.others (h : Picked T started limit lease now done todo t σ)
    (hheld : ∀ row, t.Holds row → σ'.lookup row = σ.lookup row) :
    Picked T started limit lease now done todo t σ' :=
  { h with stored := fun x hx => (hheld _ (h.held x hx)).trans (h.stored x hx) }

theorem Picked.selected (h : Picked T started limit lease now done [] t σ) (hlease : 0 < lease) :
    Selected now (now + lease) done σ (t.writes ∪ σ) where
  longer := Nat.lt_add_of_pos_right hlease
  nodup := by simpa using h.nodup
  stored := fun x hx => h.stored x (mem_append_left _ hx)
  claimable := fun x hx => h.claimable x (mem_append_left _ hx)
  ripe := fun x hx => h.ripe x (mem_append_left _ hx)
  moved := fun x hx => by
    obtain ⟨r', hr', hsel⟩ := h.staged x hx
    exact ⟨r', lookup_union_of_some hr', hsel⟩
  others := fun row hrow => lookup_union_of_none (h.only row hrow)

theorem Picked.update {x : Id × Record} {set : Record → Record}
    (h : Picked T started limit lease now done (x :: todo) t σ)
    (hset : ∀ r, Selection (now + lease) r (set r)) :
    Picked T started limit lease now (done ++ [x]) todo
      (t.stage (setRecord x.1 (·.version = x.2.version) set (t.writes ∪ σ))) σ := by
  have hall : done ++ [x] ++ todo = done ++ x :: todo := append_cons done x todo |>.symm
  have hx : x ∈ done ++ x :: todo := mem_append_right _ mem_cons_self
  have hsee : (t.writes ∪ σ).lookup (.record x.1) = some x.2 := by
    rw [lookup_union_of_none (h.fresh x mem_cons_self)]
    exact h.stored x hx
  have hself : (setRecord x.1 (·.version = x.2.version) set (t.writes ∪ σ)).lookup (.record x.1) =
      some (set x.2) := by
    rw [lookup_setRecord_record, hsee, bind_some, if_pos ⟨rfl, decide_eq_true rfl⟩]
  have hother : ∀ row, row ≠ .record x.1 →
      (t.stage (setRecord x.1 (·.version = x.2.version) set (t.writes ∪ σ))).writes.lookup row =
        t.writes.lookup row := by
    intro row hne
    rw [lookup_stage]
    rcases setRecord_cases x.1 (·.version = x.2.version) set (t.writes ∪ σ) with
      ⟨_, _, _, _, _, hnone⟩ | hnone
    · rw [hnone row hne, none_or]
    · rw [hnone row, none_or]
  -- the other candidates have other keys
  have hne : ∀ y ∈ done ++ todo, Row.record y.1 ≠ Row.record x.1 := by
    intro y hy heq
    have hnodup := h.nodup
    rw [map_append, map_cons, nodup_middle, nodup_cons, ← map_append]
      at hnodup
    exact hnodup.1 (Row.record.inj heq ▸ mem_map_of_mem hy)
  refine ⟨hall ▸ h.fair, hall ▸ h.nodup, fun y hy => (h.held y (hall ▸ hy)).stage _,
    hall ▸ h.stored, hall ▸ h.claimable, hall ▸ h.ripe, fun y hy => ?_, fun y hy => ?_,
    fun row hrow => ?_⟩
  · rw [hother _ (hne y (mem_append_right _ hy))]
    exact h.fresh y (mem_cons_of_mem _ hy)
  · rcases mem_append.mp hy with hold | hnew
    · rw [hother _ (hne y (mem_append_left _ hold))]
      exact h.staged y hold
    · cases mem_singleton.mp hnew
      refine ⟨set x.2, ?_, hset x.2⟩
      rw [lookup_stage, hself, some_or]
  · rw [hother row (hrow x (mem_append_right _ (mem_singleton_self x)))]
    exact h.only row fun y hy => hrow y (mem_append_left _ hy)

theorem recordsOf_map (l : List (Id × Record)) :
    recordsOf (l.map fun x => (⟨.record x.1, x.2⟩ : Sigma (Val Id))) = l := by
  induction l with
  | nil => rfl
  | cons x l ih =>
    rw [map_cons, recordsOf, filterMap_cons]
    exact congrArg (x :: ·) ih

theorem scanOrder_le (a b : Id × Record) (h : scanOrder a b) :
    a.2.nextAttemptAt ≤ b.2.nextAttemptAt := by
  rcases h with h | h
  · exact Nat.le_of_lt h
  · exact Nat.le_of_eq h.1

theorem scanOrder_ge (a b : Id × Record) (h : ¬ scanOrder a b) :
    b.2.nextAttemptAt ≤ a.2.nextAttemptAt := by
  unfold scanOrder at h
  omega

theorem fair_dueRows {busy : List (Row Id)} (hnow : T.since ≤ now)
    (htarget : σ.lookup (.record T.key) = some T.record) (hfree : Row.record T.key ∉ busy) :
    T.Fair limit (recordsOf (dueRows now limit (without σ busy))) := by
  rw [dueRows, recordsOf_map]
  refine T.fair_take scanOrder_le scanOrder_ge (T.due hnow).1 ?_ limit
  rw [lookup_without_of_not_mem hfree]
  exact htarget

theorem ripe_of_due {r : Record} (h : r.due now = true)
    (ha : r.state = .publishing → r.leaseUntil = some r.nextAttemptAt) :
    r.nextAttemptAt ≤ now := by
  simp only [Record.due, Bool.or_eq_true, Bool.and_eq_true, decide_eq_true_eq] at h
  rcases h with ⟨_, hle⟩ | ⟨hs, hlease⟩
  · exact hle
  · rw [ha hs] at hlease
    simpa using hlease

theorem Picked.skipLocked {busy : List (Row Id)} (hwrites : t.writes = ∅) (haligned : Aligned σ)
    (hfair : started → T.since ≤ now ∧
      T.Fair limit (recordsOf (dueRows now limit (without σ busy)))) :
    Picked T started limit lease now [] (recordsOf (dueRows now limit (without σ busy)))
      { t with excl := (dueRows now limit (without σ busy)).map Sigma.fst ++ t.excl } σ := by
  have hfound : ∀ x ∈ recordsOf (dueRows now limit (without σ busy)),
      σ.lookup (.record x.1) = some x.2 ∧ x.2.due now = true := by
    intro x hx
    obtain ⟨hfound, hdue⟩ := lookup_of_dueRows hx
    have hfree : Row.record x.1 ∉ busy := by
      intro hm
      rw [lookup_without_of_mem hm] at hfound
      cases hfound
    rw [lookup_without_of_not_mem hfree] at hfound
    exact ⟨hfound, hdue⟩
  have hnodup := dueRows_nodup now limit (without σ busy)
  refine ⟨hfair, ?_, fun x hx => ?_, fun x hx => (hfound x hx).1,
    fun x hx => claimable_of_due (hfound x hx).2,
    fun x hx => ripe_of_due (hfound x hx).2 (haligned _ _ (hfound x hx).1), fun x _ => ?_, nofun,
    fun row _ => ?_⟩
  · refine List.Nodup.of_map (f := Row.record) ?_
    rw [List.map_map]
    exact hnodup
  · exact .inr (mem_append_left _ ((recordsOf_sublist _).subset (mem_map_of_mem hx)))
  · rw [hwrites]
    exact AList.lookup_empty _
  · rw [hwrites]
    exact AList.lookup_empty _

theorem Phase.Sound.others (h : ph.Sound T started p limit lease tx σ commits)
    (hheld : ∀ row, held tx row → σ'.lookup row = σ.lookup row)
    (more : List (RelayCommit Id RelayCall)) :
    ph.Sound T started p limit lease tx σ' (commits ++ more) := by
  cases ph with
  | picked now done todo =>
    obtain ⟨t, rfl, hp⟩ := h
    exact ⟨t, rfl, hp.others hheld⟩
  | committed => exact fun hs => (h hs).append more
  | _ => exact h

/-- A client that was there before the target waited needs to know nothing of it. -/
theorem Phase.Sound.old (h : ph.Sound T False p limit lease tx σ commits) (hnot : ¬ started)
    (commits' : List (RelayCommit Id RelayCall)) :
    ph.Sound T started p limit lease tx σ commits' := by
  cases ph with
  | timed now => exact ⟨h.1, fun hs => absurd hs hnot⟩
  | picked now done todo =>
    obtain ⟨t, rfl, hp⟩ := h
    exact ⟨t, rfl, { hp with fair := fun hs => absurd hs hnot }⟩
  | committed => exact fun hs => absurd hs hnot
  | _ => exact h

end Steps

section Watch

variable {T : Target Id} {started : Nat → Prop} {limit lease p clock : Nat}
variable {busy : List (Row Id)} {st : Stmt (Val Id) Event} {r : Option (st.Reply Answer)}
variable {σ σ' : Table Id} {tx tx' : Option (Tx (Val Id))} {new : List (Entry (Val Id) Answer)}
variable {commits : List (RelayCommit Id RelayCall)} {ph : Phase}

theorem Phase.Sound.step (h : ph.Sound T (started p) p limit lease tx σ commits)
    (hadmits : ph.admits limit lease st) (hknown : T.Known started clock σ)
    (hpass : (∃ p, started p) → Passable T.key busy st)
    (hlocal : Local .readCommitted busy σ tx st r σ' tx' new)
    (hclock : Timed.ReadsClock clock σ σ' st r) (call : RelayCall) :
    (ph.next st r).Sound T (started p) p limit lease tx' σ'
      (commits ++ Timed.committed (if st.publishes then some (p, call) else none) σ σ') := by
  cases ph with
  | idle =>
    cases hadmits
    cases hlocal with
    | fault => trivial
    | begin => exact ⟨_, rfl, rfl⟩
  | begun =>
    cases hadmits
    obtain ⟨t, rfl, hwrites⟩ := h
    cases hlocal with
    | fault => trivial
    | now n =>
      cases hclock
      exact ⟨⟨t, rfl, hwrites⟩, fun hs => (hknown.waits ⟨p, hs⟩).1⟩
  | timed now =>
    cases hadmits
    obtain ⟨⟨t, rfl, hwrites⟩, hnow⟩ := h
    cases hlocal with
    | fault => trivial
    | skipLocked =>
      have hview : view .readCommitted σ (some t) = σ := by
        show t.writes ∪ σ = σ
        rw [hwrites]
        exact AList.empty_union
      rw [hview]
      refine ⟨_, rfl, Picked.skipLocked hwrites hknown.aligned fun hs => ⟨hnow hs, ?_⟩⟩
      exact fair_dueRows (hnow hs) (hknown.waits ⟨p, hs⟩).2 (hpass ⟨p, hs⟩ _ rfl)
  | picked now done todo =>
    obtain ⟨t, rfl, hpicked⟩ := h
    rcases hadmits with rfl | rfl | ⟨x, rest, set, rfl, hset, rfl⟩ | ⟨rfl, hlease, rfl⟩
    · cases hlocal with
      | fault => trivial
      | now => exact ⟨t, rfl, hpicked⟩
    · cases hlocal with
      | fault => trivial
      | random => exact ⟨t, rfl, hpicked⟩
    · cases hlocal with
      | fault => trivial
      | update => exact ⟨_, rfl, hpicked.update hset⟩
    · cases hlocal with
      | fault hcommit => exact absurd rfl hcommit
      | lost => trivial
      | commit =>
        intro hs
        obtain ⟨hnow, hfair⟩ := hpicked.fair hs
        rw [append_nil] at hfair
        have hprogress : T.Progress p 0 commits := .inr (Nat.zero_le _)
        have hnext := hprogress.select (hpicked.selected hlease) hnow hfair call
        rwa [Nat.zero_add] at hnext
  | committed =>
    cases hadmits
    exact fun hs => (h hs).append _
  | failed =>
    cases hadmits
    trivial

def watch (T : Target Id) (started : Nat → Prop) :
    Timed.Watch (Val Id) Answer RelayCall (Option Err) where
  client := fun p call q tx σ commits =>
    match call with
    | .claimDue limit lease => ∃ ph, q.Follows (scan limit.toNat (lease.toNat / 1000))
        (fun err ph' => err = none → ph' = .committed) ph ∧
        ph.Sound T (started p) p limit.toNat (lease.toNat / 1000) tx σ commits
    | _ => q.All IsSettlement
  doubt := fun p call t σ =>
    match call with
    | .claimDue limit lease => 0 < lease.toNat / 1000 ∧ ∃ now done,
        Picked T (started p) limit.toNat (lease.toNat / 1000) now done [] t σ
    | _ => False

theorem all_relayCode (H : Sha256) (call : RelayCall) (hcall : call.scans = false) :
    (relayCode H call).All IsSettlement := by
  cases call with
  | host script _ => cases script
  | claimDue => cases hcall
  | confirm c => exact returning_all (settleBy_all setPublished_ends)
  | retry c delay code =>
    refine returning_all (all_refuse_bind fun hvalid => settleBy_all (setRetryWait_ends ?_ code))
    simp only [Bool.or_eq_false_iff, decide_eq_false_iff_not] at hvalid
    omega
  | quarantine c code =>
    exact returning_all (all_bind all_refuse fun _ => settleBy_all (setQuarantined_ends code))

theorem watch_survives (H : Sha256) {allow : List (Row Id) → Stmt (Val Id) Event → Prop}
    (hallow : (∃ p, started p) → ∀ busy st, allow busy st → Passable T.key busy st) :
    (watch T started).Survives .readCommitted (relayCode H) allow (T.Known started) where
  spawn := by
    intro p call σ commits
    cases call with
    | host script _ => cases script
    | claimDue limit lease => exact ⟨.idle, follows_claimDue limit lease, rfl⟩
    | confirm c => exact all_relayCode H (.confirm c) rfl
    | retry c delay code => exact all_relayCode H (.retry c delay code) rfl
    | quarantine c code => exact all_relayCode H (.quarantine c code) rfl
  own := by
    intro p call st k tx σ commits clock busy r σ' tx' new hknown hclient hok hlocal hclock
    cases call with
    | claimDue limit lease =>
      obtain ⟨ph, ⟨hadmits, hnext⟩, hsound⟩ := hclient
      exact ⟨ph.next st r, hnext r, hsound.step hadmits hknown
        (fun hs => hallow hs busy st hok) hlocal hclock _⟩
    | _ => exact hclient.2 r
  others := by
    intro p call q tx σ σ' commits more hclient hheld
    cases call with
    | claimDue limit lease =>
      obtain ⟨ph, hfollows, hsound⟩ := hclient
      exact ⟨ph, hfollows, hsound.others hheld more⟩
    | _ => exact hclient
  lost := by
    intro p call k t σ commits hclient
    cases call with
    | claimDue limit lease =>
      obtain ⟨ph, ⟨hadmits, hnext⟩, hsound⟩ := hclient
      cases ph with
      | picked now done todo =>
        obtain ⟨t', ht, hpicked⟩ := hsound
        cases ht
        rcases hadmits with h | h | ⟨_, _, _, _, _, h⟩ | ⟨rfl, hlease, _⟩
        · cases h
        · cases h
        · cases h
        · exact ⟨⟨.failed, hnext none, trivial⟩, hlease, now, done, hpicked⟩
      | _ => cases hadmits
    | host script _ => cases script
    | _ =>
      obtain ⟨_, _, _, heq, _⟩ := hclient.1
      cases heq
  doubt := by
    intro p call t σ σ' hdoubt hheld
    cases call with
    | claimDue limit lease =>
      obtain ⟨hlease, now, done, hpicked⟩ := hdoubt
      exact ⟨hlease, now, done, hpicked.others hheld⟩
    | _ => exact hdoubt

def selects (c : RelayCommit Id RelayCall) (k : Id) : Bool := c.call.scans && touches c k

theorem selects_none {call : RelayCall} (h : call.scans = false ∨ σ' = σ) (k : Id) :
    selects ⟨p, call, σ, σ'⟩ k = false := by
  rcases h with h | rfl
  · simp [selects, h]
  · simp [selects, touches]

theorem Picked.change {now done t} {limit lease : Int}
    (h : Picked T (started p) limit.toNat (lease.toNat / 1000) now done [] t σ)
    (hlease : 0 < lease.toNat / 1000) :
    Change T (started p) (selects ⟨p, .claimDue limit lease, σ, t.writes ∪ σ⟩) clock σ
      (t.writes ∪ σ) := by
  have hfair := h.fair
  rw [append_nil] at hfair
  refine .select (h.selected hlease) hfair fun k => ?_
  rw [selects, Call.scans, Bool.true_and, touches, decide_eq_true_eq]
  exact ⟨(h.selected hlease).pick_of_changed, (h.selected hlease).changed⟩

variable {H : Sha256} {allow : List (Row Id) → Stmt (Val Id) Event → Prop}
variable {s s' : Relays Id} {e : Option (Nat × RelayCall)}

theorem change_of_step (hon : (watch T started).On s commits)
    (hs : Timed.Step .readCommitted (relayCode H) allow s e s') :
    e = none ∧ s'.db = s.db ∨ ∃ p call, e = some (p, call) ∧
      Change T (started p) (selects ⟨p, call, s.db, s'.db⟩) s.clock s.db s'.db := by
  rcases hs.inversion with hquiet | ⟨p, c, st, k, busy, r, tx, new, rfl, hp, hprog, hpub, hlocal,
    hclock⟩ | ⟨o, ho, rfl, hdb⟩
  · exact .inl hquiet
  · refine .inr ⟨p, c.call, rfl, ?_⟩
    have hclient := hon.client p c _ hp hprog
    obtain ⟨call, prog, tx0⟩ := c
    generalize s'.db = σ' at hlocal hclock ⊢
    cases call with
    | host script _ => cases script
    | claimDue limit lease =>
      obtain ⟨ph, ⟨hadmits, _⟩, hsound⟩ := hclient
      cases ph with
      | picked now done todo =>
        obtain ⟨t, ht, hpicked⟩ := hsound
        cases ht
        rcases hadmits with rfl | rfl | ⟨_, _, _, _, _, rfl⟩ | ⟨rfl, hlease, rfl⟩
        · cases hpub
        · cases hpub
        · cases hpub
        · cases hlocal with
          | lost => exact .same rfl (selects_none (.inr rfl))
          | fault => exact .same rfl (selects_none (.inr rfl))
          | commit => exact hpicked.change hlease
      | _ =>
        cases hadmits
        cases hpub
    | _ =>
      exact change_of_settlement (fun σ'' => selects ⟨p, _, s.db, σ''⟩) hclient.1 hlocal hclock
        (selects_none (.inl rfl)) fun _ => selects_none (.inl rfl)
  · refine .inr ⟨o.client, o.call, rfl, ?_⟩
    have hdoubt := hon.doubt o ho
    obtain ⟨p, call, t⟩ := o
    rw [hdb]
    cases call with
    | claimDue limit lease =>
      obtain ⟨hlease, now, done, hpicked⟩ := hdoubt
      exact hpicked.change hlease
    | _ => exact hdoubt.elim

end Watch

def scanner (H : Sha256) : Scanner Id where
  iso := .readCommitted
  code := relayCode H
  selects := selects
  watch := watch
  survives := watch_survives H
  change := fun hon _ hs => change_of_step hon hs
  old := by
    intro T started s commits hon htenanted hold
    constructor
    · intro p c q hp hq
      have hclient := hon.client p c q hp hq
      have hnot : ¬ started p := hold p (by rw [hp]; exact some_ne_none c)
      obtain ⟨call, prog, tx⟩ := c
      cases call with
      | claimDue limit lease =>
        obtain ⟨ph, hfollows, hsound⟩ := hclient
        exact ⟨ph, hfollows, hsound.old hnot []⟩
      | _ => exact hclient
    · intro o ho
      have hdoubt := hon.doubt o ho
      have hnot : ¬ started o.client := hold o.client (htenanted o ho)
      obtain ⟨p, call, t⟩ := o
      cases call with
      | claimDue limit lease =>
        obtain ⟨hlease, now, done, hpicked⟩ := hdoubt
        exact ⟨hlease, now, done, { hpicked with fair := fun hs => absurd hs hnot }⟩
      | _ => exact hdoubt
  completes := by
    intro T started p limit lease tx σ commits hclient hstarted
    obtain ⟨ph, hdone, hsound⟩ := hclient
    cases hdone rfl
    exact hsound hstarted

end ReliableMessaging.Outbox.MySql
