import Mathlib.Algebra.Ring.Int.Parity
import ReliableMessaging.Outbox.Fencing

/-!
# The form of a record

Each operation of an outbox writes its own few columns, and the scans of the
two stores ask different ones. What makes the scans agree is a form that every
operation keeps: a lease is a state, a token, an end and a due time at once;
and the version counts everything that ever happened to the record, so that
what attempts and failures do not explain is confirmations and requeues.
-/

namespace ReliableMessaging.Outbox

open TxLang
open Relation (ReflTransGen)

/-! ## One record -/

/-- A record whose confirmations and requeues are `n` together. -/
structure Formed (n : Nat) (r : Record) : Prop where
  token : r.state = .publishing ↔ r.claimToken.isSome
  lease : r.state = .publishing ↔ r.leaseUntil.isSome
  due : r.state = .publishing → r.leaseUntil = some r.nextAttemptAt
  confirmed : r.state = .published → r.transportConfirmedAt.isSome
  version : r.version = r.attemptCount + r.failureCount + n
  odd : Odd n ↔ r.state = .published
  failures : r.failureCount ≤ r.attemptCount + if r.state = .quarantined then 1 else 0
  leased : r.state = .publishing → r.failureCount < r.attemptCount

namespace Formed

variable {n : Nat} {r r' : Record}

theorem of_fresh (h : Fresh r) : Formed 0 r where
  token := by simp [h.state, h.token]
  lease := by simp [h.state, h.lease]
  due := by simp [h.state]
  confirmed := by simp [h.state]
  version := by rw [h.version, h.attempts, h.failures]
  odd := by simp [h.state]
  failures := by simp [h.failures]
  leased := by simp [h.state]

theorem failures_le (h : Formed n r) (hc : Claimable r) : r.failureCount ≤ r.attemptCount := by
  have := h.failures
  rwa [if_neg hc.2] at this

theorem not_odd (h : Formed n r) (hs : r.state ≠ .published) : ¬ Odd n := mt h.odd.mp hs

theorem claims (h : Formed n r) (hstep : Claims r r') : Formed n r' := by
  have hversion := h.version
  cases hstep with
  | lease hc token leaseUntil clock =>
    have hle := h.failures_le hc
    refine ⟨by simp [Record.claim], by simp [Record.claim], fun _ => rfl, nofun, ?_, ?_, ?_, ?_⟩
    · simp only [Record.claim]
      omega
    · simp [Record.claim, h.not_odd hc.1]
    · simp only [Record.claim]
      omega
    · intro _
      simp only [Record.claim]
      omega
  | corrupt hc code clock =>
    have hle := h.failures_le hc
    refine ⟨by simp [Record.settle, setQuarantined], by simp [Record.settle, setQuarantined],
      nofun, nofun, ?_, ?_, ?_, nofun⟩
    · simp only [Record.settle, setQuarantined]
      omega
    · simp [Record.settle, setQuarantined, h.not_odd hc.1]
    · simp only [Record.settle, setQuarantined, if_true]
      omega

theorem fails (h : Formed n r) (hstep : Fails r r') : Formed n r' := by
  have hversion := h.version
  cases hstep with
  | retry hs delay code clock =>
    have hlt := h.leased hs
    refine ⟨by simp [Record.settle, setRetryWait], by simp [Record.settle, setRetryWait], nofun,
      nofun, ?_, ?_, ?_, nofun⟩
    · simp only [Record.settle, setRetryWait]
      omega
    · simp [Record.settle, setRetryWait, h.not_odd (by simp [hs])]
    · simp only [Record.settle, setRetryWait]
      omega
  | quarantine hs code clock =>
    exact h.claims (.corrupt ⟨by simp [hs], by simp [hs]⟩ code clock)

theorem confirms (h : Formed n r) (hstep : Confirms r r') : Formed (n + 1) r' := by
  have hversion := h.version
  cases hstep with
  | confirm hs clock =>
    have hlt := h.leased hs
    refine ⟨by simp [Record.settle, setPublished], by simp [Record.settle, setPublished], nofun,
      fun _ => rfl, ?_, ?_, ?_, nofun⟩
    · simp only [Record.settle, setPublished]
      omega
    · simp [Record.settle, setPublished, Nat.odd_add_one, h.not_odd (by simp [hs])]
    · simp only [Record.settle, setPublished]
      omega

theorem requeues (h : Formed n r) (hstep : Requeues r r') : Formed (n + 1) r' := by
  have hversion := h.version
  cases hstep with
  | requeue hs requestID version clock =>
    have hle := h.failures
    refine ⟨by simp, by simp, nofun, nofun, ?_, ?_, ?_, nofun⟩
    · simp only
      omega
    · simp [Nat.odd_add_one, h.odd.mpr hs]
    · simpa [hs] using hle

theorem scans (h : Formed n r) (now : Nat) :
    r.due now = decide ((r.state = .pending ∨ r.state = .retryWait ∨ r.state = .publishing) ∧
        r.nextAttemptAt ≤ now) ∧
      Mongo.dueFilter now r = r.due now := by
  have hlease : r.state = .publishing → r.leaseUntil = some r.nextAttemptAt := h.due
  cases hs : r.state with
  | publishing => simp [Record.due, Mongo.dueFilter, hs, hlease hs]
  | _ => simp [Record.due, Mongo.dueFilter, hs]

end Formed

/-! ## What a commit does to one record -/

theorem single_of_steps {α : Type} {S : α → α → Prop} (dead : ∀ a b c, S a b → ¬ S b c) {a b : α}
    (h : ReflTransGen S a b) : a = b ∨ S a b := by
  induction h with
  | refl => exact .inl rfl
  | tail _ hlast ih =>
    rcases ih with rfl | hfirst
    · exact .inr hlast
    · exact absurd hlast (dead _ _ _ hfirst)

theorem Confirms.dead (a b c : Record) (h : Confirms a b) : ¬ Confirms b c := by
  cases h with
  | confirm =>
    intro h'
    cases h' with
    | confirm hs => cases hs

theorem Requeues.dead (a b c : Record) (h : Requeues a b) : ¬ Requeues b c := by
  cases h with
  | requeue =>
    intro h'
    cases h' with
    | requeue hs => cases hs

section Calls

variable {Script : Type} {n : Nat} {r r' : Record}

/-- Whose commits confirm or requeue what they change. -/
def Call.credits : Call Script → Bool
  | .host _ _ => true
  | .confirm _ => true
  | _ => false

/-- A host requeues records, or leaves them. -/
def HostStep (S : Record → Record → Prop) : Prop := S = Requeues ∨ S = noStep

variable {S host : Record → Record → Prop}

/-- Steps that credit happen at most once, and advance the version. -/
theorem Formed.once (dead : ∀ a b c, S a b → ¬ S b c)
    (moves : ∀ a b, S a b → b.version = a.version + 1)
    (keeps : ∀ {m a b}, Formed m a → S a b → Formed (m + 1) b) (h : Formed n r)
    (hsteps : ReflTransGen S r r') : Formed (n + if r' ≠ r then 1 else 0) r' := by
  rcases single_of_steps dead hsteps with rfl | hstep
  · simpa using h
  · have hne : r' ≠ r := by
      rintro rfl
      have := moves _ _ hstep
      omega
    rw [if_pos hne]
    exact keeps h hstep

theorem Formed.always (keeps : ∀ {m a b}, Formed m a → S a b → Formed m b) (h : Formed n r)
    (hsteps : ReflTransGen S r r') : Formed n r' := by
  induction hsteps with
  | refl => exact h
  | tail _ hstep ih => exact keeps ih hstep

theorem Formed.call (hhost : HostStep host) (call : Call Script) (h : Formed n r)
    (hsteps : ReflTransGen (call.step host) r r') :
    Formed (n + if call.credits ∧ r' ≠ r then 1 else 0) r' := by
  cases call with
  | host steps commits =>
    simp only [Call.credits, true_and]
    rcases hhost with rfl | rfl
    · exact h.once Requeues.dead (fun a b hs => by cases hs; rfl) Formed.requeues hsteps
    · exact h.once (fun _ _ _ hs => hs.elim) (fun _ _ hs => hs.elim) (fun _ hs => hs.elim) hsteps
  | confirm c =>
    simp only [Call.credits, true_and]
    exact h.once Confirms.dead (fun a b hs => by cases hs; rfl) Formed.confirms hsteps
  | claimDue limit lease => simpa [Call.credits] using h.always Formed.claims hsteps
  | retry c delay code => simpa [Call.credits] using h.always Formed.fails hsteps
  | quarantine c code => simpa [Call.credits] using h.always Formed.fails hsteps

/-- A new record is left as it was appended by whoever would be credited for a change. -/
theorem Formed.call_fresh (hhost : HostStep host) (call : Call Script) (h : Fresh r)
    (hsteps : ReflTransGen (call.step host) r r') : Formed 0 r' := by
  have hstart := Formed.call hhost call (Formed.of_fresh h) hsteps
  by_cases hcredit : call.credits ∧ r' ≠ r
  · obtain ⟨hcredits, hne⟩ := hcredit
    have hstuck : ¬ ∃ x, call.step host r x := by
      rintro ⟨x, hx⟩
      have hstate := h.state
      cases call with
      | host steps commits =>
        rcases hhost with rfl | rfl
        · cases hx with
          | requeue hs => rw [hstate] at hs; cases hs
        · exact hx
      | confirm c =>
        cases hx with
        | confirm hs => rw [hstate] at hs; cases hs
      | _ => cases hcredits
    rcases hsteps.cases_head with heq | ⟨x, hx, _⟩
    · exact absurd heq.symm hne
    · exact absurd ⟨x, hx⟩ hstuck
  · rwa [if_neg hcredit] at hstart

end Calls

/-! ## Whole runs -/

section Runs

variable {K : Type} [DecidableEq K] {Script : Type}

/-- The commits that confirmed or requeued the record under a key. -/
def credits (k : K) (commits : List (Call Script × Table K × Table K)) : Nat :=
  commits.countP fun x => x.1.credits && (x.2.1.lookup (.record k)).isSome &&
    decide ((x.2.2.lookup (.record k) : Option Record) ≠ x.2.1.lookup (.record k))

/-- An outbox as appenders leave it, whatever the contents. -/
def AsAppended (σ : Table K) : Prop := ∀ k (r : Record), σ.lookup (.record k) = some r → Fresh r

/-- Every record has its form, and counts what was credited to it. -/
structure FormedBy (σ : Table K) (commits : List (Call Script × Table K × Table K)) : Prop where
  formed : ∀ k (r : Record), σ.lookup (.record k) = some r → Formed (credits k commits) r
  absent : ∀ k, σ.lookup (.record k) = none → credits k commits = 0

theorem credits_append (k : K) (commits : List (Call Script × Table K × Table K))
    (call : Call Script) (σ σ' : Table K) :
    credits k (commits ++ [(call, σ, σ')]) = credits k commits +
      if call.credits && (σ.lookup (.record k)).isSome &&
        decide ((σ'.lookup (.record k) : Option Record) ≠ σ.lookup (.record k)) then 1 else 0 := by
  rw [credits, List.countP_append, List.countP_singleton]
  rfl

variable {σ : Table K} {commits : List (Call Script × Table K × Table K)}

theorem FormedBy.start (h : AsAppended σ) :
    FormedBy σ ([] : List (Call Script × Table K × Table K)) :=
  ⟨fun k r hr => .of_fresh (h k r hr), fun _ _ => rfl⟩

theorem FormedBy.same (h : FormedBy σ commits) (call : Call Script) :
    FormedBy σ (commits ++ [(call, σ, σ)]) := by
  have hsame : ∀ k, credits k (commits ++ [(call, σ, σ)]) = credits k commits := by
    intro k
    simp [credits_append]
  exact ⟨fun k r hr => hsame k ▸ h.formed k r hr, fun k hk => (hsame k).trans (h.absent k hk)⟩

theorem FormedBy.commit {host : Record → Record → Prop} (hhost : HostStep host) {σ' : Table K}
    (h : FormedBy σ commits) {call : Call Script} (honward : Onward σ σ')
    (hp : Promised (call.step host) σ σ') : FormedBy σ' (commits ++ [(call, σ, σ')]) := by
  constructor
  · intro k r' hr'
    rw [credits_append]
    rcases hp k r' hr' with ⟨r, hr, hsteps⟩ | ⟨hnone, r, hfresh, hsteps⟩
    · have hformed := Formed.call hhost call (h.formed k r hr) hsteps
      rw [hr, hr']
      simpa using hformed
    · rw [hnone, h.absent k hnone]
      simpa using Formed.call_fresh hhost call hfresh hsteps
  · intro k hk
    cases hold : σ.lookup (.record k) with
    | none => simp [credits_append, h.absent k hold, hold]
    | some r =>
      obtain ⟨r', hr', _⟩ := honward k r hold
      rw [hk] at hr'
      cases hr'

end Runs

/-! ## Both stores -/

theorem MySql.guarantees (H : Sha256) :
    Guarantees (contract H MySql.parseID False) .readCommitted (MySql.code H) (fun _ _ _ => True)
      (fun _ _ => True) fun call => Promised (call.step Requeues) :=
  fun call _ _ _ => wp_owing_mono (fun _ _ _ h => h.2) (fun _ _ h => h)
    (MySql.wp_code call fun _ _ h => h)

theorem Mongo.guarantees (B : Mongo.Bson) (H : Sha256) :
    Guarantees (contract H (Mongo.parseID B) False) .snapshot (Mongo.code B H) (fun _ _ _ => True)
      (fun _ _ => True) fun call => Promised (call.step noStep) :=
  fun call _ _ _ => wp_owing_mono (fun _ _ _ h => h.2) (fun _ _ h => h)
    (Mongo.wp_code call fun _ _ h => h)

/-- A run of hosts and relays over MySQL, with its commits. -/
abbrev MySql.Run (H : Sha256) (s : Sys (Val MySql.Id) Answer (Call (List MySql.HostStep)))
    (commits : List (Call (List MySql.HostStep) × Table MySql.Id × Table MySql.Id)) : Prop :=
  Trace .readCommitted (MySql.code H) anyStep AsAppended s commits

/-- A run of hosts and relays over Mongo, with its commits. -/
abbrev Mongo.Run (B : Mongo.Bson) (H : Sha256)
    (s : Sys (Val (Mongo.Id B)) Answer (Call (List (Message × Option Nat))))
    (commits : List (Call (List (Message × Option Nat)) × Table (Mongo.Id B) × Table (Mongo.Id B))) :
    Prop :=
  Trace .snapshot (Mongo.code B H) anyStep AsAppended s commits

variable {H : Sha256}

theorem MySql.Run.formed {s : Sys (Val MySql.Id) Answer (Call (List MySql.HostStep))}
    {commits : List (Call (List MySql.HostStep) × Table MySql.Id × Table MySql.Id)}
    (h : MySql.Run H s commits) : FormedBy s.db commits :=
  Trace.invariant ((MySql.verified H).sound fun _ _ hs => hs.elim) (MySql.guarantees H)
    (fun _ hσ => .start hσ) (fun _ _ call hf => hf.same call)
    (fun _ _ _ _ hf ht hp => hf.commit (.inl rfl) ht.1 hp) h

theorem Mongo.Run.formed {B : Mongo.Bson}
    {s : Sys (Val (Mongo.Id B)) Answer (Call (List (Message × Option Nat)))}
    {commits : List (Call (List (Message × Option Nat)) × Table (Mongo.Id B) × Table (Mongo.Id B))}
    (h : Mongo.Run B H s commits) : FormedBy s.db commits :=
  Trace.invariant ((Mongo.verified B H).sound fun _ _ hs => hs.elim) (Mongo.guarantees B H)
    (fun _ hσ => .start hσ) (fun _ _ call hf => hf.same call)
    (fun _ _ _ _ hf ht hp => hf.commit (.inr rfl) ht.1 hp) h

/-- How a record of either outbox is represented, `n` being its successful
confirms and requeues: what its columns say of each other, and that the scans
of both stores ask for a state and a due time. -/
structure Representation (n : Nat) (r : Record) : Prop where
  token : r.state = .publishing ↔ r.claimToken.isSome
  lease : r.claimToken.isSome ↔ r.leaseUntil.isSome
  due : r.state = .publishing → r.leaseUntil = some r.nextAttemptAt
  confirmed : r.state = .published → r.transportConfirmedAt.isSome
  count : (r.version : Int) - r.attemptCount - r.failureCount = n
  parity : Odd ((r.version : Int) - r.attemptCount - r.failureCount) ↔ r.state = .published
  failures : r.failureCount ≤ r.attemptCount + 1
  mysqlScan : ∀ now, r.due now = true ↔
    (r.state = .pending ∨ r.state = .retryWait ∨ r.state = .publishing) ∧ r.nextAttemptAt ≤ now
  mongoScan : ∀ now, Mongo.dueFilter now r = true ↔
    (r.state = .pending ∨ r.state = .retryWait ∨ r.state = .publishing) ∧ r.nextAttemptAt ≤ now

theorem Formed.representation {n : Nat} {r : Record} (h : Formed n r) : Representation n r where
  token := h.token
  lease := h.token.symm.trans h.lease
  due := h.due
  confirmed := h.confirmed
  count := by
    have := h.version
    omega
  parity := by
    have hcount : (r.version : Int) - r.attemptCount - r.failureCount = n := by
      have := h.version
      omega
    rw [hcount, Int.odd_coe_nat, h.odd]
  failures := by
    have := h.failures
    split at this <;> omega
  mysqlScan := fun now => by rw [(h.scans now).1, decide_eq_true_eq]
  mongoScan := fun now => by rw [(h.scans now).2, (h.scans now).1, decide_eq_true_eq]

/-- **Records keep their form.** In every run of hosts and relays over the
MySQL or the Mongo outbox, every record is represented as it should be, with
its count of the commits that confirmed or requeued it. -/
theorem records_keep_their_form (H : Sha256) :
    (∀ s commits, MySql.Run H s commits → ∀ k (r : Record), s.db.lookup (.record k) = some r →
      Representation (credits k commits) r) ∧
    ∀ B s commits, Mongo.Run B H s commits → ∀ k (r : Record),
      s.db.lookup (.record k) = some r → Representation (credits k commits) r :=
  ⟨fun _ _ hrun k r hr => (hrun.formed.formed k r hr).representation,
    fun _ _ _ hrun k r hr => (hrun.formed.formed k r hr).representation⟩

set_option maxRecDepth 100000 in
/-- The record of a message that was appended, claimed and confirmed. -/
theorem records_keep_their_form_confirmed :
    ∃ s commits, MySql.Run default s commits ∧ ∃ r : Record,
      s.db.lookup (.record (MySql.Id.next 1)) = some r ∧ r.state = .published ∧
      Representation (credits (MySql.Id.next 1) commits) r := by
  have hinit : AsAppended (∅ : Table MySql.Id) := fun _ _ h => nomatch h
  obtain ⟨s, hr, _, _, hdb, _⟩ := reach_serve .readCommitted (MySql.code default)
    (fun _ _ => True) hinit Sample.calls (mayServe_true _ _ _ _ _ _)
  obtain ⟨commits, hrun⟩ := Reach.trace (hr.mono fun _ _ _ => trivial)
  have hstate : ((serve .readCommitted (MySql.code default) 0 Sample.calls ∅).1.lookup
      (.record (MySql.Id.next 1)) : Option Record).map (·.state) = some .published := by
    decide +kernel
  obtain ⟨r, hlookup, hpublished⟩ := Option.map_eq_some_iff.mp hstate
  rw [← hdb] at hlookup
  exact ⟨s, commits, hrun, r, hlookup, hpublished,
    (records_keep_their_form default).1 s commits hrun _ r hlookup⟩

end ReliableMessaging.Outbox
