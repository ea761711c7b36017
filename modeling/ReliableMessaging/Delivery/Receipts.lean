import Mathlib.Data.List.Pairwise
import ReliableMessaging.Delivery.Clients

/-!
# What becomes of a message that waits for its receipt

`Act.apply` is what a settlement is meant to do to the message it names. Both
clients do exactly that (`Client.settle_ok`), so a transaction leaves the table
alone, adds a row or applies one act to one row (`step_cases`). Everything
else is about single rows: what `apply` keeps, a run keeps.
-/

namespace ReliableMessaging.Delivery

open List

open Loops (bind_ok refuseIf_ok)

/-! ## Acts -/

/-- What an act does to its message; an act that does not fit the message's stage does nothing. -/
def Act.apply (e : Engine) (r : Row) : Act → Row
  | .published wait =>
    if r.stage.open = false then r
    else if r.requiresReceipt then
      { r with stage := .awaitingReceipt, attempts := r.attempts + 1, publishedAt := some e.now,
               confirmedAt := none, availableAt := e.later wait, errorCode := "" }
    else
      { r with stage := .confirmed, publishedAt := some e.now, confirmedAt := some e.now,
               availableAt := e.later wait, errorCode := "" }
  | .confirm =>
    if r.requiresReceipt then
      { r with stage := .confirmed, confirmedAt := some e.now, errorCode := "" }
    else r
  | .retry delay code =>
    if r.stage.open = false then r
    else { r with attempts := r.attempts + 1, availableAt := e.later delay, errorCode := code }
  | .hold code =>
    if r.stage = .confirmed then r else { r with stage := .held, errorCode := code }
  | .rearmAck =>
    if r.requiresReceipt = true ∨ r.stage = .held then r
    else { r with stage := .staged, availableAt := e.now, confirmedAt := none, errorCode := "" }

/-- A message is confirmed when it has a time of confirmation, and waits only for a receipt that
it asked for. -/
structure Row.Sound (r : Row) : Prop where
  confirmed : r.confirmedAt.isSome ↔ r.stage = .confirmed
  waiting : r.requiresReceipt = false → r.stage ≠ .awaitingReceipt

section

variable {e : Engine} {a : Act} {r : Row}

@[simp] theorem Act.apply_toMessage : (a.apply e r).toMessage = r.toMessage := by
  cases a <;> grind [Act.apply]

theorem Act.apply_sound (h : r.Sound) : (a.apply e r).Sound := by
  obtain ⟨hconfirmed, hwaiting⟩ := h
  cases a <;> constructor <;> grind [Act.apply]

/-- Only a receipt confirms a message that asked for one, or takes it out of `held`. -/
theorem Act.apply_receipt (hr : r.requiresReceipt = true) :
    (r.stage ≠ .confirmed → (a.apply e r).stage = .confirmed → a = .confirm) ∧
    (r.stage = .held → (a.apply e r).stage ≠ .held → a = .confirm) ∧
    (r.stage = .confirmed → (a.apply e r).stage = .confirmed) := by
  cases a <;> grind [Act.apply, Stage.open]

/-- A message without a receipt is not confirmed by one, and a hold on it is final. -/
theorem Act.apply_free (hr : r.requiresReceipt = false) :
    (a = .confirm → a.apply e r = r) ∧ (r.stage = .held → (a.apply e r).stage = .held) := by
  cases a <;> grind [Act.apply, Stage.open]

theorem Act.apply_attempts :
    (a.apply e r).attempts = r.attempts + (a.isRetry && r.stage.open).toNat +
      if r.requiresReceipt then (a.isPublished && r.stage.open).toNat else 0 := by
  cases a <;> grind [Act.apply, Act.isRetry, Act.isPublished]

end

/-! ## The clients -/

section

variable {fold : String → String} {t t' : Table} {id : Identity} {hash : String} {r : Row}

/-- The primary key. -/
def Keyed (fold : String → String) (t : Table) : Prop :=
  t.Pairwise fun a b => same fold a.identity b.identity = false

/-- The row that an identity and a hash name. -/
structure Found (fold : String → String) (t : Table) (id : Identity) (hash : String) (r : Row) :
    Prop where
  mem : r ∈ t
  named : same fold id r.identity = true
  hash : r.bodySha256 = hash

theorem same_trans {a b c : Identity} (hab : same fold a b = true) (hac : same fold a c = true) :
    same fold b c = true := by
  simp only [same, Bool.and_eq_true, decide_eq_true_eq] at *
  grind

theorem same_comm (a b : Identity) : same fold a b = same fold b a := by
  simp [same, eq_comm]

instance : Std.Symm fun a b : Row => same fold a.identity b.identity = false where
  symm a b h := (same_comm b.identity a.identity).trans h

theorem Keyed.eq_of_same (hk : Keyed fold t) {a b : Row} (ha : a ∈ t) (hb : b ∈ t)
    (h : same fold a.identity b.identity = true) : a = b := by
  by_contra hne
  rw [hk.forall ha hb hne] at h
  cases h

/-- Where `a` is applied to the row named by `id`. -/
def settled (fold : String → String) (e : Engine) (id : Identity) (a : Act) (t : Table) : Table :=
  t.map fun r => if same fold id r.identity then a.apply e r else r

theorem Found.settled_eq (hk : Keyed fold t) (h : Found fold t id hash r) {e : Engine} {a : Act}
    (set : Row → Row) (hset : set r = a.apply e r) :
    (t.map fun r => if same fold id r.identity then set r else r) = settled fold e id a t := by
  refine map_congr_left fun n hn => ?_
  split
  next hsame =>
    have hn : n = r := hk.eq_of_same hn h.mem (same_trans hsame h.named)
    rw [hn, hset]
  next => rfl

theorem Found.update (hk : Keyed fold t) (h : Found fold t id hash r) {e : Engine} {a : Act}
    {set : Row → Row} (hupdate : e.update fold t id set = .ok t') (hset : set r = a.apply e r) :
    t' = settled fold e id a t := by
  unfold Engine.update at hupdate
  split at hupdate
  · cases hupdate
  · cases hupdate
    exact h.settled_eq hk set hset

theorem Found.unchanged (hk : Keyed fold t) (h : Found fold t id hash r) {e : Engine} {a : Act}
    (hset : r = a.apply e r) : t = settled fold e id a t := by
  have hself := h.settled_eq hk (fun r => r) hset
  simpa using hself

theorem Outbox.locked_ok {tx : Bool} {e : Engine} {l : Outbox.Locked}
    (h : Outbox.locked fold tx e t id hash = .ok l) :
    ∃ r, Found fold t id hash r ∧ l.requiresReceipt = r.requiresReceipt ∧ l.stage = r.stage := by
  obtain ⟨_, -, h⟩ := bind_ok h
  obtain ⟨rows, hrows, h⟩ := bind_ok h
  unfold Engine.selectLocked at hrows
  split at hrows
  · cases hrows
  · cases hrows
    split at h
    next => cases h
    next r rest hfilter =>
      obtain ⟨_, hhash, h⟩ := bind_ok h
      cases h
      have hmem : r ∈ t.filter fun r => same fold id r.identity := hfilter ▸ mem_cons_self
      rw [mem_filter] at hmem
      exact ⟨r, ⟨hmem.1, hmem.2, not_not.mp (refuseIf_ok hhash)⟩, rfl, rfl⟩

theorem Durable.locked_ok {tx : Bool} {e : Engine} {row : Row}
    (h : Durable.locked fold tx e t id hash = .ok row) : Found fold t id hash row := by
  obtain ⟨_, -, h⟩ := bind_ok h
  obtain ⟨_, -, h⟩ := bind_ok h
  obtain ⟨rows, hrows, h⟩ := bind_ok h
  unfold Engine.selectLocked at hrows
  split at hrows
  · cases hrows
  · cases hrows
    split at h
    next => cases h
    next r hfilter =>
      obtain ⟨_, hhash, h⟩ := bind_ok h
      cases h
      have hmem : row ∈ t.filter fun r => same fold id r.identity := hfilter ▸ mem_singleton_self _
      rw [mem_filter] at hmem
      exact ⟨hmem.1, hmem.2, not_not.mp (refuseIf_ok hhash)⟩
    next => cases h

theorem Stage.not_open {s : Stage} : s.open = false ↔ s = .confirmed ∨ s = .held := by
  cases s <;> simp [Stage.open]

theorem Found.guarded (hk : Keyed fold t) (hr : Found fold t id hash r) {e : Engine} {a : Act}
    {c : Prop} [Decidable c] {set : Row → Row}
    (h : (if c then pure t else e.update fold t id set) = .ok t') (hskip : c → r = a.apply e r)
    (hset : ¬ c → set r = a.apply e r) : t' = settled fold e id a t := by
  split at h
  next hc =>
    cases h
    exact hr.unchanged hk (hskip hc)
  next hc => exact hr.update hk h (hset hc)

theorem Outbox.settle_ok (hk : Keyed fold t) {tx : Bool} {e : Engine} {a : Act}
    (h : Client.settle .go fold tx e t id hash a = .ok t') :
    ∃ r, Found fold t id hash r ∧ t' = settled fold e id a t := by
  cases a with
  | published wait =>
    obtain ⟨_, -, h⟩ := bind_ok h
    obtain ⟨l, hl, h⟩ := bind_ok h
    obtain ⟨r, hr, hrequires, hstage⟩ := locked_ok hl
    rw [hrequires, hstage] at h
    refine ⟨r, hr, hr.guarded hk h ?_ ?_⟩
    · intro hclosed
      simp [Act.apply, Stage.not_open.mpr hclosed]
    · intro hopen
      rw [← Stage.not_open] at hopen
      cases hreceipt : r.requiresReceipt <;> simp [Act.apply, hopen, hreceipt]
  | confirm =>
    obtain ⟨l, hl, h⟩ := bind_ok h
    obtain ⟨r, hr, hrequires, -⟩ := locked_ok hl
    obtain ⟨_, hfree, h⟩ := bind_ok h
    have hfree := refuseIf_ok hfree
    rw [hrequires] at hfree
    exact ⟨r, hr, hr.update hk h (by simp [Act.apply, hfree])⟩
  | retry delay code =>
    obtain ⟨_, -, h⟩ := bind_ok h
    obtain ⟨l, hl, h⟩ := bind_ok h
    obtain ⟨r, hr, -, hstage⟩ := locked_ok hl
    rw [hstage] at h
    refine ⟨r, hr, hr.guarded hk h ?_ ?_⟩
    · intro hclosed
      simp [Act.apply, Stage.not_open.mpr hclosed]
    · intro hopen
      rw [← Stage.not_open] at hopen
      simp [Act.apply, hopen]
  | hold code =>
    obtain ⟨l, hl, h⟩ := bind_ok h
    obtain ⟨r, hr, -, hstage⟩ := locked_ok hl
    rw [hstage] at h
    refine ⟨r, hr, hr.guarded hk h ?_ ?_⟩ <;> intro hconfirmed <;> simp [Act.apply, hconfirmed]
  | rearmAck =>
    obtain ⟨l, hl, h⟩ := bind_ok h
    obtain ⟨r, hr, hrequires, hstage⟩ := locked_ok hl
    obtain ⟨_, hreceipt, h⟩ := bind_ok h
    have hreceipt := refuseIf_ok hreceipt
    rw [hrequires] at hreceipt
    rw [hstage] at h
    refine ⟨r, hr, hr.guarded hk h ?_ ?_⟩ <;> intro hheld <;> simp [Act.apply, hreceipt, hheld]

theorem Durable.settle_ok (hk : Keyed fold t) {tx : Bool} {e : Engine} {a : Act}
    (h : Client.settle .python fold tx e t id hash a = .ok t') :
    ∃ r, Found fold t id hash r ∧ t' = settled fold e id a t := by
  cases a with
  | published wait =>
    obtain ⟨_, -, h⟩ := bind_ok h
    obtain ⟨r, hl, h⟩ := bind_ok h
    have hr := locked_ok hl
    refine ⟨r, hr, hr.guarded hk h ?_ ?_⟩
    · intro hclosed
      simp [Act.apply, Stage.not_open.mpr hclosed]
    · intro hopen
      rw [← Stage.not_open] at hopen
      cases hreceipt : r.requiresReceipt <;> simp [Act.apply, hopen, hreceipt]
  | confirm =>
    obtain ⟨r, hl, h⟩ := bind_ok h
    have hr := locked_ok hl
    obtain ⟨_, hfree, h⟩ := bind_ok h
    have hfree := refuseIf_ok hfree
    exact ⟨r, hr, hr.update hk h (by simp [Act.apply, hfree])⟩
  | retry delay code =>
    obtain ⟨_, -, h⟩ := bind_ok h
    obtain ⟨r, hl, h⟩ := bind_ok h
    have hr := locked_ok hl
    refine ⟨r, hr, hr.guarded hk h ?_ ?_⟩
    · intro hclosed
      simp [Act.apply, Stage.not_open.mpr hclosed]
    · intro hopen
      rw [← Stage.not_open] at hopen
      simp [Act.apply, hopen]
  | hold code =>
    obtain ⟨r, hl, h⟩ := bind_ok h
    have hr := locked_ok hl
    refine ⟨r, hr, hr.guarded hk h ?_ ?_⟩ <;> intro hconfirmed <;> simp [Act.apply, hconfirmed]
  | rearmAck =>
    obtain ⟨r, hl, h⟩ := bind_ok h
    have hr := locked_ok hl
    obtain ⟨_, hreceipt, h⟩ := bind_ok h
    have hreceipt := refuseIf_ok hreceipt
    refine ⟨r, hr, hr.guarded hk h ?_ ?_⟩ <;> intro hheld <;> simp [Act.apply, hreceipt, hheld]

theorem Client.settle_ok (hk : Keyed fold t) {c : Client} {tx : Bool} {e : Engine} {a : Act}
    (h : c.settle fold tx e t id hash a = .ok t') :
    ∃ r, Found fold t id hash r ∧ t' = settled fold e id a t := by
  cases c with
  | go => exact Outbox.settle_ok hk h
  | python => exact Durable.settle_ok hk h

end

end ReliableMessaging.Delivery
