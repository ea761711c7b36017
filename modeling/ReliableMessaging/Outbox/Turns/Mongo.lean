import ReliableMessaging.Outbox.Turns.MySql

/-!
# Scans of the Mongo outbox, in time

Here `ClaimDue` is a loop of single statements. Each one takes the first
document that is due when it runs, so it needs no lock, and how far the scan
has come is how many it has taken. A corrupt document is taken like any other,
and then settled.
-/

namespace ReliableMessaging.Outbox.Mongo

open TxLang List

variable {B : Bson}

def relayCode (B : Bson) (H : Sha256) : RelayCall → Prog (Val (Id B)) Answer (Option Err)
  | .host script _ => nomatch script
  | .claimDue limit lease => (claimDue H limit lease).bind fun r => .ret r.2
  | .confirm c => returning (confirm c)
  | .retry c delay code => returning (retry c delay code)
  | .quarantine c code => returning (quarantine c code)

/-- Where `ClaimDue` stands: the documents it has taken, whether its next
statement is to take one, or that nothing was due. -/
inductive Phase
  | idle (n : Nat)
  | drawn (n : Nat)
  | drained
  | failed

def Phase.admits (B : Bson) (millis : Nat) : Phase → Stmt (Val (Id B)) Event → Prop
  | .idle _, st => st = .random ∨ IsSettlement st
  | .drawn _, st => 0 < millis ∧ ∃ token, st = .auto (takeDue token millis)
  | .drained, _ => False
  | .failed, _ => False

def Phase.next : Phase → (st : Stmt (Val (Id B)) Event) → Option (st.Reply Answer) → Phase
  | .idle n, .random, some _ => .drawn n
  | .idle n, .auto _, _ => .idle n
  | .drawn n, .auto _, some (reply : Nat × Table (Id B)) =>
    match taken reply.2 with
    | some _ => .idle (n + 1)
    | none => .drained
  | _, _, _ => .failed

def scan (B : Bson) (millis : Nat) : Protocol (Val (Id B)) Answer Phase :=
  ⟨Phase.admits B millis, Phase.next⟩

section Follows

variable {H : Sha256} {millis : Nat}

theorem quarantine_all (c : Claim) (code : String) :
    (quarantine c code : OutboxCode B Answer Unit).run.All IsSettlement :=
  all_bind all_refuse fun _ => settleBy_all (setQuarantined_ends code)

theorem follows_settlement {α : Type} {n : Nat} {q : Prog (Val (Id B)) Answer α}
    (h : q.All IsSettlement) :
    q.Follows (scan B millis) (fun _ ph => ph = .idle n) (.idle n) := by
  refine Prog.All.follows (fun st hst => ⟨Or.inr hst, fun r => ?_⟩) h
  obtain ⟨_, _, _, rfl, _⟩ := hst
  rfl

def Round.Ends (n : Nat) : Round → Phase → Prop
  | .stop none, ph => ph = .drained
  | .stop (some _), _ => True
  | .took _, ph => ph = .idle (n + 1)
  | .skipped, ph => ph = .idle (n + 1)

theorem follows_keepOrQuarantine (n : Nat) (token : String) (id : Id B) (r : Record) :
    (keepOrQuarantine H token id r).Follows (scan B millis) (Round.Ends n) (.idle (n + 1)) := by
  unfold keepOrQuarantine
  split
  · exact (rfl : Phase.idle (n + 1) = .idle (n + 1))
  · refine Prog.Follows.bind (Prog.Follows.mono (fun done ph hph => ?_)
      (follows_settlement (quarantine_all _ _)))
    cases done with
    | error e => trivial
    | ok _ => exact hph

theorem follows_claimRound (hmillis : 0 < millis) (n : Nat) :
    (claimRound H millis : Prog (Val (Id B)) Answer Round).Follows (scan B millis) (Round.Ends n)
      (.idle n) := by
  refine ⟨.inl rfl, fun entropy => ?_⟩
  cases entropy with
  | none => trivial
  | some entropy =>
    refine ⟨⟨hmillis, _, rfl⟩, fun reply => ?_⟩
    cases reply with
    | none => trivial
    | some reply =>
      obtain ⟨clock, rows⟩ := reply
      simp only [Prog.bind, scan, Phase.next]
      cases taken rows with
      | none => exact (rfl : Phase.drained = .drained)
      | some x => exact follows_keepOrQuarantine n _ x.1 x.2

theorem follows_claimLoop (hmillis : 0 < millis) (n m : Nat) (claims : List Claim) :
    (claimLoop H millis n claims : Prog (Val (Id B)) Answer (List Claim × Option Err)).Follows
      (scan B millis) (fun r ph => r.2 = none → ph = .idle (m + n) ∨ ph = .drained) (.idle m) := by
  induction n generalizing m claims with
  | zero => exact fun _ => .inl rfl
  | succ n ih =>
    refine Prog.Follows.bind (Prog.Follows.mono (fun round ph hround => ?_)
      (follows_claimRound hmillis m))
    have hnext : ∀ claims, (claimLoop H millis n claims).Follows (scan B millis)
        (fun r ph => r.2 = none → ph = .idle (m + (n + 1)) ∨ ph = .drained) (.idle (m + 1)) := by
      intro claims
      rw [show m + (n + 1) = m + 1 + n by omega]
      exact ih (m + 1) claims
    cases round with
    | stop err =>
      intro hnone
      subst hnone
      exact .inr hround
    | took c =>
      cases hround
      exact hnext _
    | skipped =>
      cases hround
      exact hnext _

/-- `ClaimDue` follows its protocol, and returns without an error only when it
has taken as many documents as it may, or found nothing due. -/
theorem follows_claimDue (limit lease : Int) :
    (relayCode B H (.claimDue limit lease)).Follows (scan B (lease.toNat / 1000000))
      (fun err ph => err = none → ph = .idle limit.toNat ∨ ph = .drained) (.idle 0) := by
  refine Prog.Follows.bind ?_
  unfold claimDue
  split
  · exact nofun
  next hvalid =>
    have hmillis : 0 < lease.toNat / 1000000 := by
      simp only [Bool.or_eq_true, decide_eq_true_eq] at hvalid
      omega
    refine Prog.Follows.mono (fun r ph hr => ?_) (follows_claimLoop hmillis limit.toNat 0 [])
    rwa [Nat.zero_add] at hr

end Follows

/-! ## What each phase knows -/

section Takes

variable {T : Target (Id B)} {now millis : Nat} {token : String} {σ : Table (Id B)}

theorem scanOrder_le (a b : Id B × Record) (h : scanOrder a b) :
    a.2.nextAttemptAt ≤ b.2.nextAttemptAt := by
  rcases h with h | h
  · exact Nat.le_of_lt h
  · exact Nat.le_of_eq h.1

theorem scanOrder_ge (a b : Id B × Record) (h : ¬ scanOrder a b) :
    b.2.nextAttemptAt ≤ a.2.nextAttemptAt := by
  unfold scanOrder at h
  omega

theorem ripe_of_dueFilter {r : Record} (h : dueFilter now r = true) : r.nextAttemptAt ≤ now := by
  simp only [dueFilter, Bool.and_eq_true, decide_eq_true_eq] at h
  exact h.1.2

theorem fair_firstDue {x : Id B × Record} (hnow : T.since ≤ now)
    (htarget : σ.lookup (.record T.key) = some T.record) (hfirst : firstDue now σ = some x) :
    T.Fair 1 [x] := by
  have hfair := T.fair_take scanOrder_le scanOrder_ge (T.due hnow).2 htarget 1
  unfold firstDue at hfirst
  rw [List.head?_eq_some_iff] at hfirst
  obtain ⟨rest, hrest⟩ := hfirst
  rwa [hrest] at hfair

theorem firstDue_ne_none (hnow : T.since ≤ now)
    (htarget : σ.lookup (.record T.key) = some T.record) : firstDue now σ ≠ none := by
  intro hnone
  unfold firstDue at hnone
  rw [List.head?_eq_none_iff] at hnone
  have hmem : (T.key, T.record) ∈
      ((records σ).filter fun x => dueFilter now x.2).insertionSort scanOrder := by
    rw [mem_insertionSort, mem_filter]
    exact ⟨mem_records_iff.mpr htarget, (T.due hnow).2⟩
  rw [hnone] at hmem
  cases hmem

theorem selected_takeDue (token : String) {x : Id B × Record} (hmillis : 0 < millis)
    (hfirst : firstDue now σ = some x) :
    Selected now (now + millis) [x] σ (takeDue token millis now σ ∪ σ) := by
  have htake : takeDue token millis now σ =
      AList.singleton (.record x.1) (x.2.claim token (now + millis) now) := by
    simp [takeDue, hfirst]
  have hmem := mem_of_head? hfirst
  rw [mem_insertionSort, mem_filter] at hmem
  rw [htake]
  refine ⟨Nat.lt_add_of_pos_right hmillis, nodup_singleton _, ?_, ?_, ?_, ?_, ?_⟩
  · rw [forall_mem_singleton]
    exact mem_records hmem.1
  · rw [forall_mem_singleton]
    exact claimable_of_dueFilter hmem.2
  · rw [forall_mem_singleton]
    exact ripe_of_dueFilter hmem.2
  · rw [forall_mem_singleton]
    exact ⟨_, lookup_union_of_some (lookup_singleton_self _ _), .lease token now⟩
  · intro row hrow
    exact lookup_union_of_none (lookup_singleton_ne _ (hrow x (mem_singleton_self x)))

theorem takeDue_of_none (hfirst : firstDue now σ = none) : takeDue token millis now σ = ∅ := by
  simp [takeDue, hfirst]

theorem taken_takeDue {x : Id B × Record} (hfirst : firstDue now σ = some x) :
    taken (takeDue token millis now σ) =
      some (x.1, x.2.claim token (now + millis) now) := by
  simp only [takeDue, hfirst]
  rfl

end Takes

section Watch

variable {T : Target (Id B)} {started : Nat → Prop} {limit millis p clock : Nat}
variable {busy : List (Row (Id B))} {st : Stmt (Val (Id B)) Event} {r : Option (st.Reply Answer)}
variable {σ σ' : Table (Id B)} {tx tx' : Option (Tx (Val (Id B)))}
variable {new : List (Entry (Val (Id B)) Answer)} {commits : List (RelayCommit (Id B) RelayCall)}
variable {ph : Phase}

/-- What is known in each phase: how far the scan has come. -/
def Phase.Sound (T : Target (Id B)) (started : Prop) (p : Nat)
    (commits : List (RelayCommit (Id B) RelayCall)) : Phase → Prop
  | .idle n => started → T.Progress p n commits
  | .drawn n => started → T.Progress p n commits
  | .drained => ¬ started
  | .failed => True

theorem Phase.Sound.append {started : Prop} (h : ph.Sound T started p commits)
    (more : List (RelayCommit (Id B) RelayCall)) : ph.Sound T started p (commits ++ more) := by
  cases ph with
  | idle n => exact fun hs => (h hs).append more
  | drawn n => exact fun hs => (h hs).append more
  | drained => exact h
  | failed => trivial

theorem Phase.Sound.step (h : ph.Sound T (started p) p commits)
    (hadmits : ph.admits B millis st) (hknown : T.Known started clock σ)
    (hlocal : Local .snapshot busy σ tx st r σ' tx' new)
    (hclock : Timed.ReadsClock clock σ σ' st r) (call : RelayCall) :
    (ph.next st r).Sound T (started p) p
      (commits ++ Timed.committed (if st.publishes then some (p, call) else none) σ σ') := by
  cases ph with
  | idle n =>
    rcases hadmits with rfl | ⟨_, _, _, rfl, _⟩
    · cases r with
      | none => trivial
      | some _ => exact fun hs => (h hs).append _
    · exact fun hs => (h hs).append _
  | drawn n =>
    obtain ⟨hmillis, token, rfl⟩ := hadmits
    cases hlocal with
    | fault => trivial
    | autoLost => trivial
    | auto clock' =>
      cases hclock
      show (match taken (takeDue token millis clock' σ) with
        | some _ => Phase.idle (n + 1)
        | none => .drained).Sound T (started p) p _
      cases hfirst : firstDue clock' σ with
      | none =>
        rw [takeDue_of_none hfirst]
        intro hs
        obtain ⟨hnow, htarget⟩ := hknown.waits ⟨p, hs⟩
        exact firstDue_ne_none hnow htarget hfirst
      | some x =>
        rw [taken_takeDue hfirst]
        intro hs
        obtain ⟨hnow, htarget⟩ := hknown.waits ⟨p, hs⟩
        exact (h hs).select (selected_takeDue _ hmillis hfirst) hnow
          (fair_firstDue hnow htarget hfirst) call
  | drained => exact hadmits.elim
  | failed => exact hadmits.elim

def watch (T : Target (Id B)) (started : Nat → Prop) :
    Timed.Watch (Val (Id B)) Answer RelayCall (Option Err) where
  client := fun p call q _ _ commits =>
    match call with
    | .claimDue limit lease => ∃ ph, q.Follows (scan B (lease.toNat / 1000000))
        (fun err ph' => err = none → ph' = .idle limit.toNat ∨ ph' = .drained) ph ∧
        ph.Sound T (started p) p commits
    | _ => q.All IsSettlement
  doubt := fun _ _ _ _ => False

theorem all_relayCode (H : Sha256) (call : RelayCall) (hcall : call.scans = false) :
    (relayCode B H call).All IsSettlement := by
  cases call with
  | host script _ => cases script
  | claimDue => cases hcall
  | confirm c => exact returning_all (settleBy_all setPublished_ends)
  | retry c delay code =>
    refine returning_all (all_refuse_bind fun hvalid => settleBy_all (setRetryWait_ends ?_ code))
    simp only [Bool.or_eq_false_iff, decide_eq_false_iff_not] at hvalid
    omega
  | quarantine c code => exact returning_all (quarantine_all c code)

theorem watch_survives (H : Sha256) (allow : List (Row (Id B)) → Stmt (Val (Id B)) Event → Prop) :
    (watch T started).Survives .snapshot (relayCode B H) allow (T.Known started) where
  spawn := by
    intro p call σ commits
    cases call with
    | host script _ => cases script
    | claimDue limit lease =>
      exact ⟨.idle 0, follows_claimDue limit lease, fun _ => .inr (Nat.zero_le _)⟩
    | confirm c => exact all_relayCode H (.confirm c) rfl
    | retry c delay code => exact all_relayCode H (.retry c delay code) rfl
    | quarantine c code => exact all_relayCode H (.quarantine c code) rfl
  own := by
    intro p call st k tx σ commits clock busy r σ' tx' new hknown hclient _ hlocal hclock
    cases call with
    | claimDue limit lease =>
      obtain ⟨ph, ⟨hadmits, hnext⟩, hsound⟩ := hclient
      exact ⟨ph.next st r, hnext r, hsound.step hadmits hknown hlocal hclock _⟩
    | _ => exact hclient.2 r
  others := by
    intro p call q tx σ σ' commits more hclient _
    cases call with
    | claimDue limit lease =>
      obtain ⟨ph, hfollows, hsound⟩ := hclient
      exact ⟨ph, hfollows, hsound.append more⟩
    | _ => exact hclient
  lost := by
    intro p call k t σ commits hclient
    cases call with
    | claimDue limit lease =>
      obtain ⟨ph, ⟨hadmits, _⟩, _⟩ := hclient
      cases ph with
      | idle n =>
        rcases hadmits with h | ⟨_, _, _, h, _⟩
        · cases h
        · cases h
      | drawn n =>
        obtain ⟨_, _, h⟩ := hadmits
        cases h
      | drained => exact hadmits.elim
      | failed => exact hadmits.elim
    | host script _ => cases script
    | _ =>
      obtain ⟨_, _, _, heq, _⟩ := hclient.1
      cases heq
  doubt := fun h _ => h.elim

def selects (c : RelayCommit (Id B) RelayCall) (k : Id B) : Bool :=
  c.call.scans && touches c k &&
    (c.after.lookup (.record k) : Option Record).any (·.state = .publishing)

theorem selects_same {call : RelayCall} (k : Id B) :
    selects ⟨p, call, σ, σ⟩ k = false := by
  simp [selects, touches]

theorem selects_settlement {call : RelayCall} {k' : Id B} {r r' : Record}
    (h : SettledAt clock k' r r' σ σ') (k : Id B) : selects ⟨p, call, σ, σ'⟩ k = false := by
  by_cases hk : k = k'
  · subst hk
    simp [selects, h.written, h.ended]
  · have hsame : (σ'.lookup (.record k) : Option Record) = σ.lookup (.record k) :=
      h.others _ fun heq => hk (Row.record.inj heq)
    simp [selects, touches, hsame]

theorem change_takeDue {token : String} {limit lease : Int} (hmillis : 0 < millis)
    (hknown : T.Known started clock σ) :
    Change T (started p) (selects ⟨p, .claimDue limit lease, σ, takeDue token millis clock σ ∪ σ⟩)
      clock σ (takeDue token millis clock σ ∪ σ) := by
  cases hfirst : firstDue clock σ with
  | none =>
    have hsame : takeDue token millis clock σ ∪ σ = σ := by
      rw [takeDue_of_none hfirst]
      exact AList.empty_union
    rw [hsame]
    exact .same rfl selects_same
  | some x =>
    have hsel := selected_takeDue token hmillis hfirst
    have hfair : started p → T.since ≤ clock ∧ T.Fair 1 [x] := by
      intro hs
      obtain ⟨hnow, htarget⟩ := hknown.waits ⟨p, hs⟩
      exact ⟨hnow, fair_firstDue hnow htarget hfirst⟩
    refine .select hsel hfair fun k => ?_
    have hleased : (takeDue token millis clock σ ∪ σ).lookup (.record x.1) =
        some (x.2.claim token (clock + millis) clock) := by
      simp only [takeDue, hfirst]
      exact lookup_union_of_some (lookup_singleton_self _ _)
    simp only [selects, Call.scans, Bool.true_and, touches, Bool.and_eq_true, decide_eq_true_eq]
    constructor
    · exact fun h => hsel.pick_of_changed h.1
    · intro hk
      refine ⟨hsel.changed hk, ?_⟩
      cases mem_singleton.mp hk
      rw [hleased]
      rfl

variable {H : Sha256} {allow : List (Row (Id B)) → Stmt (Val (Id B)) Event → Prop}
variable {s s' : Relays (Id B)} {e : Option (Nat × RelayCall)}

theorem change_of_step (hon : (watch T started).On s commits)
    (hknown : T.Known started s.clock s.db)
    (hs : Timed.Step .snapshot (relayCode B H) allow s e s') :
    e = none ∧ s'.db = s.db ∨ ∃ p call, e = some (p, call) ∧
      Change T (started p) (selects ⟨p, call, s.db, s'.db⟩) s.clock s.db s'.db := by
  rcases hs.inversion with hquiet | ⟨p, c, st, k, busy, r, tx, new, rfl, hp, hprog, hpub, hlocal,
    hclock⟩ | ⟨o, ho, _⟩
  · exact .inl hquiet
  · refine .inr ⟨p, c.call, rfl, ?_⟩
    have hclient := hon.client p c _ hp hprog
    obtain ⟨call, prog, tx0⟩ := c
    generalize s'.db = σ' at hlocal hclock ⊢
    cases call with
    | host script _ => cases script
    | claimDue limit lease =>
      obtain ⟨ph, ⟨hadmits, _⟩, _⟩ := hclient
      cases ph with
      | idle n =>
        rcases hadmits with rfl | hsettle
        · cases hpub
        · exact change_of_settlement (fun σ'' => selects ⟨p, _, s.db, σ''⟩) hsettle hlocal hclock
            selects_same selects_settlement
      | drawn n =>
        obtain ⟨hmillis, token, rfl⟩ := hadmits
        cases hlocal with
        | fault => exact .same rfl selects_same
        | auto clock' =>
          obtain rfl : clock' = s.clock := hclock
          exact change_takeDue hmillis hknown
        | autoLost =>
          rcases hclock with hsame | hdb
          · rw [hsame]
            exact .same rfl selects_same
          · rw [hdb]
            exact change_takeDue hmillis hknown
      | drained => exact hadmits.elim
      | failed => exact hadmits.elim
    | _ =>
      exact change_of_settlement (fun σ'' => selects ⟨p, _, s.db, σ''⟩) hclient.1 hlocal hclock
        selects_same selects_settlement
  · exact (hon.doubt o ho).elim

end Watch

def scanner (B : Bson) (H : Sha256) : Scanner (Id B) where
  iso := .snapshot
  code := relayCode B H
  selects := selects
  watch := watch
  survives := fun _ => watch_survives H _
  change := change_of_step
  old := by
    intro T started s commits hon _ hold
    refine ⟨fun p c q hp hq => ?_, fun o ho => (hon.doubt o ho).elim⟩
    have hclient := hon.client p c q hp hq
    have hnot : ¬ started p := hold p (by rw [hp]; exact Option.some_ne_none c)
    obtain ⟨call, prog, tx⟩ := c
    cases call with
    | claimDue limit lease =>
      obtain ⟨ph, hfollows, _⟩ := hclient
      refine ⟨ph, hfollows, ?_⟩
      cases ph with
      | idle n => exact fun hs => absurd hs hnot
      | drawn n => exact fun hs => absurd hs hnot
      | drained => exact hnot
      | failed => trivial
    | _ => exact hclient
  completes := by
    intro T started p limit lease tx σ commits hclient hstarted
    obtain ⟨ph, hdone, hsound⟩ := hclient
    rcases hdone rfl with rfl | rfl
    · exact hsound hstarted
    · exact absurd hstarted hsound

end ReliableMessaging.Outbox.Mongo
