import ReliableMessaging.Outbox.Record
import ReliableMessaging.TxLang.Runs

/-!
# What may happen to a record

The contract between the clients of an outbox, for both stores. Its heart is
`Next`: the content of a record never changes, and every change of anything
else advances its version. So a claim, which names a version, describes its
record until the record moves, and never again afterwards (`Claimed`); that
is the whole of the fence, and it needs neither a steady clock nor fresh
tokens.
-/

namespace ReliableMessaging.Outbox

open TxLang
open Relation (ReflTransGen)

/-- One record over time. -/
structure Next (r r' : Record) : Prop where
  input : r'.input = r.input
  fingerprint : r'.fingerprint = r.fingerprint
  moved : r' = r ∨ r.version < r'.version

theorem Next.refl (r : Record) : Next r r := ⟨rfl, rfl, .inl rfl⟩

theorem Next.trans {a b c : Record} (h : Next a b) (h' : Next b c) : Next a c := by
  refine ⟨h'.input.trans h.input, h'.fingerprint.trans h.fingerprint, ?_⟩
  rcases h'.moved with rfl | hbc
  · exact h.moved
  · rcases h.moved with rfl | hab
    · exact .inr hbc
    · exact .inr (Nat.lt_trans hab hbc)

theorem Next.identity {r r' : Record} (h : Next r r') : r'.identity = r.identity := by
  rw [Record.identity, h.input]
  rfl

theorem Next.version_le {r r' : Record} (h : Next r r') : r.version ≤ r'.version := by
  rcases h.moved with rfl | hlt
  · exact Nat.le_refl _
  · exact Nat.le_of_lt hlt

/-- A record with the content that `Append` wrote, and due when a lease of it
ends. -/
structure Intact (H : Sha256) (r : Record) : Prop where
  accepted : Message.accepted r.input = true
  fingerprint : r.fingerprint = H.sum (Message.preimage r.input)
  aligned : r.state = .publishing → r.leaseUntil = some r.nextAttemptAt

/-- Records are intact, and the index finds each of them. -/
structure Inv {K : Type} [DecidableEq K] (H : Sha256) (σ : Table K) : Prop where
  intact : ∀ k (r : Record), σ.lookup (.record k) = some r → Intact H r
  entry : ∀ k (r : Record), σ.lookup (.record k) = some r →
    σ.lookup (.identity r.identity) = some k

section

variable {K : Type} [DecidableEq K] (H : Sha256) (parse : String → Option K) (strict : Prop)

/-- The columns that a claim promises, while the record has its version. -/
structure Holder (c : Claim) (r : Record) : Prop where
  state : r.state = .publishing
  token : r.claimToken = some c.token
  lease : r.leaseUntil = some c.leaseUntil

/-- What a returned claim says of the table from then on. -/
def Claimed (c : Claim) (σ : Table K) : Prop :=
  ∃ k, ∃ r : Record, parse c.recordID = some k ∧ σ.lookup (.record k) = some r ∧
    r.input = c.message.input ∧ c.version ≤ r.version ∧ (r.version = c.version → Holder c r)

/-- A statement that settles a claim, at this clock reading: the record is the
claim's own and in time, and nothing else changes. -/
def Settles (c : Claim) (clock : Nat) (σ σ' : Table K) : Prop :=
  ∃ k, ∃ r r' : Record, parse c.recordID = some k ∧ σ.lookup (.record k) = some r ∧
    r.claimedBy c clock = true ∧ σ'.lookup (.record k) = some r' ∧ r'.version = c.version + 1 ∧
    r'.updatedAt = clock ∧ ∀ row, row ≠ .record k → σ'.lookup row = σ.lookup row

/-- A publisher confirmed the message under the claim that this record's last
change settled. -/
def Confirmed (own : List (Entry (Val K) Answer)) (k : K) (r : Record) : Prop :=
  ∃ c raw, Entry.called (.publish c) (some raw) ∈ own ∧ Outcome.ofRaw raw = .confirmed ∧
    parse c.recordID = some k ∧ c.version + 1 = r.version ∧ c.message.input = r.input

def Appended (m : Message) (σ : Table K) : Prop :=
  m.valid = true ∧ ∃ k, ∃ r : Record, σ.lookup (.record k) = some r ∧
    r.fingerprint = m.fingerprint H

/-- What may be asked of the world, and what a call may say it has returned. -/
def allow (c : Ctx (Val K) Answer) : Event → Prop
  | .claimed cl => Claimed parse cl c.db
  | .publish _ => True
  | .settled cl =>
    (∃ clock before after, Entry.committed before after ∈ c.log ∧
      Settles parse cl clock before after) ∧
    ∀ cl' ans, Entry.called (.settled cl') ans ∉ c.log
  | .appended m => Appended H m c.db

def Onward (σ σ' : Table K) : Prop :=
  ∀ k (r : Record), σ.lookup (.record k) = some r →
    ∃ r' : Record, σ'.lookup (.record k) = some r' ∧ Next r r'

/-- A record as `Append` writes it, whatever its content. -/
structure Fresh (r : Record) : Prop where
  state : r.state = .pending
  token : r.claimToken = none
  lease : r.leaseUntil = none
  version : r.version = 0
  attempts : r.attemptCount = 0
  failures : r.failureCount = 0

/-- Records make steps of `S`, and new ones start fresh. -/
def Promised (S : Record → Record → Prop) (σ σ' : Table K) : Prop :=
  ∀ k (r' : Record), σ'.lookup (.record k) = some r' →
    (∃ r : Record, σ.lookup (.record k) = some r ∧ ReflTransGen S r r') ∨
      σ.lookup (.record k) = none ∧ ∃ r, Fresh r ∧ ReflTransGen S r r'

/-- The contract of an outbox, for calls that change records by steps of `S`. -/
def pact (S : Record → Record → Prop) : Spec (Val K) Answer where
  Inv := fun σ => strict → Inv H σ
  Trans := fun σ σ' => Onward σ σ' ∧ (strict → Inv H σ')
  Earned := fun own σ σ' =>
    (strict → ∀ k (r : Record), σ'.lookup (.record k) = some r → r.state = .published →
      σ.lookup (.record k) = some r ∨ Confirmed parse own k r) ∧ Promised S σ σ'
  Allow := allow H parse
  keeps := fun _ ht => ht.2

abbrev contract : Spec (Val K) Answer := pact H parse strict fun _ _ => True

end

section Lasting

variable {K : Type} [DecidableEq K] {H : Sha256} {parse : String → Option K} {strict : Prop}
variable {S : Record → Record → Prop} {σ ν : Table K} {c : Claim} {m : Message}

theorem Onward.refl (σ : Table K) : Onward σ σ := fun _ r h => ⟨r, h, Next.refl r⟩

theorem Onward.trans {a b d : Table K} (h : Onward a b) (h' : Onward b d) : Onward a d := by
  intro k r hr
  obtain ⟨r1, hr1, hn1⟩ := h k r hr
  obtain ⟨r2, hr2, hn2⟩ := h' k r1 hr1
  exact ⟨r2, hr2, hn1.trans hn2⟩

theorem Later.onward (h : Later (pact H parse strict S) σ ν) : Onward σ ν := by
  induction h with
  | refl => exact Onward.refl σ
  | tail _ hs ih => exact ih.trans hs.1

theorem Claimed.onward (h : Claimed parse c σ) (ho : Onward σ ν) : Claimed parse c ν := by
  obtain ⟨k, r, hk, hr, hinput, hle, hholder⟩ := h
  obtain ⟨r', hr', hnext⟩ := ho k r hr
  refine ⟨k, r', hk, hr', hnext.input.trans hinput, Nat.le_trans hle hnext.version_le, fun hv => ?_⟩
  rcases hnext.moved with rfl | hlt
  · exact hholder hv
  · omega

theorem Appended.onward (h : Appended H m σ) (ho : Onward σ ν) : Appended H m ν := by
  obtain ⟨hv, k, r, hr, hprint⟩ := h
  obtain ⟨r', hr', hnext⟩ := ho k r hr
  exact ⟨hv, k, r', hr', hnext.fingerprint.trans hprint⟩

theorem Claimed.holder (h : Claimed parse c σ) {k : K} {r : Record} {clock : Nat}
    (hk : parse c.recordID = some k) (hr : σ.lookup (.record k) = some r)
    (hby : r.claimedBy c clock = true) : r.input = c.message.input ∧ clock < c.leaseUntil := by
  obtain ⟨k', r', hk', hr', hinput, _, hholder⟩ := h
  cases hk.symm.trans hk'
  cases hr.symm.trans hr'
  simp only [Record.claimedBy, Bool.and_eq_true, decide_eq_true_eq] at hby
  obtain ⟨⟨⟨_, hversion⟩, _⟩, htime⟩ := hby
  rw [(hholder hversion).lease] at htime
  simp only [Option.any_some, decide_eq_true_eq] at htime
  exact ⟨hinput, htime⟩

end Lasting

/-! ## What each kind of call does to a record -/

def Claimable (r : Record) : Prop := r.state ≠ .published ∧ r.state ≠ .quarantined

/-- `ClaimDue` leases a record, or quarantines one whose content is corrupt. -/
inductive Claims (r : Record) : Record → Prop
  | lease (h : Claimable r) (token : String) (leaseUntil clock : Nat) :
      Claims r (r.claim token leaseUntil clock)
  | corrupt (h : Claimable r) (code : String) (clock : Nat) :
      Claims r (r.settle (setQuarantined code) clock)

/-- `Confirm` ends a lease with the record published. -/
inductive Confirms (r : Record) : Record → Prop
  | confirm (h : r.state = .publishing) (clock : Nat) : Confirms r (r.settle setPublished clock)

/-- `Retry` and `Quarantine` end a lease without. -/
inductive Fails (r : Record) : Record → Prop
  | retry (h : r.state = .publishing) (delay : Nat) (code : String) (clock : Nat) :
      Fails r (r.settle (setRetryWait delay code) clock)
  | quarantine (h : r.state = .publishing) (code : String) (clock : Nat) :
      Fails r (r.settle (setQuarantined code) clock)

/-- `RequeueConfirmed` makes a published record wait again. -/
inductive Requeues (r : Record) : Record → Prop
  | requeue (h : r.state = .published) (requestID : String) (version clock : Nat) :
      Requeues r { r with
        state := .retryWait, nextAttemptAt := clock, claimToken := none, leaseUntil := none
        manualReplayRequestID := some requestID, manualReplayVersion := some version
        version := r.version + 1, updatedAt := clock }

theorem claimable_of_due {now : Nat} {r : Record} (h : r.due now = true) : Claimable r := by
  constructor <;> intro hs <;> simp [Record.due, hs] at h

theorem publishing_of_claimedBy {c : Claim} {clock : Nat} {r : Record}
    (h : r.claimedBy c clock = true) : r.state = .publishing := by
  simp only [Record.claimedBy, Bool.and_eq_true, decide_eq_true_eq] at h
  exact h.1.2

/-! ## Single changes -/

section Changes

variable {H : Sha256} {r : Record}

/-- Columns that a settlement may set: not the content, not the version, and a
state that a lease has ended in. -/
structure Columns (set : Nat → Record → Record) : Prop where
  input : ∀ clock r, (set clock r).input = r.input
  fingerprint : ∀ clock r, (set clock r).fingerprint = r.fingerprint
  state : ∀ clock r, (set clock r).state ≠ .publishing

theorem columns_setPublished : Columns setPublished :=
  ⟨fun _ _ => rfl, fun _ _ => rfl, fun _ _ => State.noConfusion⟩

theorem columns_setRetryWait (delay : Nat) (code : String) : Columns (setRetryWait delay code) :=
  ⟨fun _ _ => rfl, fun _ _ => rfl, fun _ _ => State.noConfusion⟩

theorem columns_setQuarantined (code : String) : Columns (setQuarantined code) :=
  ⟨fun _ _ => rfl, fun _ _ => rfl, fun _ _ => State.noConfusion⟩

theorem Columns.next {set : Nat → Record → Record} (h : Columns set) (clock : Nat) (r : Record) :
    Next r (r.settle set clock) :=
  ⟨h.input clock r, h.fingerprint clock r, .inr (Nat.lt_succ_self _)⟩

theorem Columns.intact {set : Nat → Record → Record} (h : Columns set) (clock : Nat)
    (hr : Intact H r) : Intact H (r.settle set clock) := by
  refine ⟨?_, ?_, fun hs => absurd hs (h.state clock r)⟩
  · rw [show (r.settle set clock).input = r.input from h.input clock r]
    exact hr.accepted
  · rw [show (r.settle set clock).input = r.input from h.input clock r,
      show (r.settle set clock).fingerprint = r.fingerprint from h.fingerprint clock r]
    exact hr.fingerprint

theorem next_claim (token : String) (leaseUntil clock : Nat) (r : Record) :
    Next r (r.claim token leaseUntil clock) :=
  ⟨rfl, rfl, .inr (Nat.lt_succ_self _)⟩

theorem Intact.claim (hr : Intact H r) (token : String) (leaseUntil clock : Nat) :
    Intact H (r.claim token leaseUntil clock) :=
  ⟨hr.accepted, hr.fingerprint, fun _ => rfl⟩

theorem message_input {m : Message} (h : r.message H = some m) : m.input = r.input := by
  unfold Record.message at h
  split at h
  next m' hnew =>
    split at h
    · cases h
      exact (Message.valid_of_new hnew).2
    · cases h
  · cases h

theorem intact_of_message {m : Message} (hv : m.valid = true) (due clock : Nat) :
    Intact H { input := m.input, fingerprint := m.fingerprint H, nextAttemptAt := due
               createdAt := clock, updatedAt := clock } :=
  ⟨Message.accepted_of_valid hv, rfl, fun hs => nomatch hs⟩

end Changes

end ReliableMessaging.Outbox
