import Mathlib.Data.List.Induction
import ReliableMessaging.Delivery.Receipts

/-!
# Serial histories of the receipt outbox

A message keeps its place and its columns from its insertion on, so a run is
known message by message: each transaction applies at most one act to it
(`record_step`). The order of an aggregate is the one statement about several
messages; it rests on the fact that a receipt is never taken back.
-/

namespace ReliableMessaging.Delivery

open List Option

open Loops (bind_ok)

section

variable {fold : String → String} {t : Table} {x : Transaction} {id : Identity} {r : Row}

def record (t : Table) (id : Identity) : Option Row := t.find? fun r => r.identity = id

/-- The act that a committed transaction applied to a message. -/
def Transaction.act (fold : String → String) (t : Table) (x : Transaction) (id : Identity) :
    Option Act :=
  match x.call with
  | .settle _ named _ a =>
    if x.commits = true ∧ x.reply fold t = .done ∧ same fold named id = true then some a else none
  | _ => none

/-- How many committed calls of a kind found a message open, in a run that begins with `t`. -/
def callsFrom (fold : String → String) (id : Identity) (kind : Act → Bool) :
    Table → List Transaction → Nat
  | _, [] => 0
  | t, x :: xs =>
    (((x.act fold t id).any kind) && (record t id).any (·.stage.open)).toNat +
      callsFrom fold id kind (x.step fold t) xs

/-- Whether a transaction is a receipt for the message: its hash, and an identity that `fold` holds
equal to the message's own. -/
def Transaction.Confirms (fold : String → String) (x : Transaction) (m : Message) : Prop :=
  ∃ c named, x.call = .settle c named m.bodySha256 .confirm ∧ same fold named m.identity = true

/-- Texts are equal to themselves only. -/
def binary (s : String) : String := s

/-- The call names no identity that differs from a stored one it compares equal to. -/
def Transaction.Exact (fold : String → String) (t : Table) (x : Transaction) : Prop :=
  ∀ c named hash a, x.call = .settle c named hash a →
    ∀ r ∈ t, same fold named r.identity = true → named = r.identity

/-! ## One transaction -/

variable {e : Engine} {m : Message} {availableAt : Nat} {c : Client} {a : Act}

theorem insert_ok {t' : Table} (h : e.insert fold t m availableAt = .ok t') :
    (∀ r ∈ t, same fold m.identity r.identity = false) ∧ t' = t ++ [{ m with availableAt }] := by
  unfold Engine.insert at h
  split at h
  · cases h
  next hfree =>
    cases h
    rw [Bool.not_eq_true, Bool.or_eq_false_iff, List.any_eq_false] at hfree
    exact ⟨fun r hr => Bool.not_eq_true _ ▸ hfree.2 r hr, rfl⟩

theorem pending_perform {limit : Int} (hcall : x.call = .pending c limit) :
    (x.perform fold t).1 = t := by
  unfold Transaction.perform
  rw [hcall]
  cases c <;> dsimp only <;> split <;> rfl

theorem settle_perform {named : Identity} {hash : String}
    (hcall : x.call = .settle c named hash a) :
    x.perform fold t =
      Transaction.perform.written t (c.settle fold x.tx x.engine t named hash a) := by
  unfold Transaction.perform
  rw [hcall]

theorem insert_perform (hcall : x.call = .insert m availableAt) :
    x.perform fold t = Transaction.perform.written t (x.engine.insert fold t m availableAt) := by
  unfold Transaction.perform
  rw [hcall]

/-- All that a transaction can do to the table. -/
theorem step_cases (hk : Keyed fold t) (x : Transaction) :
    ((∀ id, x.act fold t id = none) ∧ x.step fold t = t) ∨
    (∃ (m : Message) (availableAt : Nat), (∀ id, x.act fold t id = none) ∧
      (∀ r ∈ t, same fold m.identity r.identity = false) ∧
      x.step fold t = t ++ [{ m with availableAt }]) ∨
    (∃ c named hash a r, x.call = .settle c named hash a ∧ Found fold t named hash r ∧
      (∀ id, x.act fold t id = if same fold named id then some a else none) ∧
      x.step fold t = settled fold x.engine named a t) := by
  by_cases hcommits : x.commits = true
  swap
  · refine .inl ⟨fun id => ?_, if_neg hcommits⟩
    unfold Transaction.act
    split <;> simp [hcommits]
  have hstep : x.step fold t = (x.perform fold t).1 := if_pos hcommits
  cases hcall : x.call with
  | insert m availableAt =>
    have hact : ∀ id, x.act fold t id = none := fun id => by simp [Transaction.act, hcall]
    rw [hstep, insert_perform hcall]
    cases hinsert : x.engine.insert fold t m availableAt with
    | error f => exact .inl ⟨hact, rfl⟩
    | ok t' =>
      obtain ⟨hfree, rfl⟩ := insert_ok hinsert
      exact .inr (.inl ⟨m, availableAt, hact, hfree, rfl⟩)
  | pending c limit =>
    refine .inl ⟨fun id => by simp [Transaction.act, hcall], ?_⟩
    rw [hstep, pending_perform hcall]
  | settle c named hash a =>
    have hreply : x.reply fold t = (x.perform fold t).2 := rfl
    have hact : ∀ id, x.act fold t id =
        if x.reply fold t = .done ∧ same fold named id = true then some a else none := fun id => by
      simp [Transaction.act, hcall, hcommits]
    rw [settle_perform hcall] at hreply hstep
    cases hsettle : c.settle fold x.tx x.engine t named hash a with
    | error f =>
      rw [hsettle] at hreply hstep
      refine .inl ⟨fun id => ?_, hstep⟩
      rw [hact, hreply, if_neg]
      rintro ⟨hdone, -⟩
      cases hdone
    | ok t' =>
      rw [hsettle] at hreply hstep
      obtain ⟨r, hr, rfl⟩ := Client.settle_ok hk hsettle
      refine .inr (.inr ⟨c, named, hash, a, r, rfl, hr, fun id => ?_, hstep⟩)
      rw [hact, hreply]
      simp [Transaction.perform.written]

/-! ## One message -/

def Transaction.effect (fold : String → String) (t : Table) (x : Transaction) (r : Row) : Row :=
  (x.act fold t r.identity).elim r (·.apply x.engine r)

@[simp] theorem effect_toMessage : (x.effect fold t r).toMessage = r.toMessage := by
  unfold Transaction.effect
  cases x.act fold t r.identity with
  | none => rfl
  | some a => exact Act.apply_toMessage

theorem map_effect (hact : ∀ id, x.act fold t id = none) : t.map (x.effect fold t) = t := by
  have heffect : x.effect fold t = fun r => r := funext fun r => by
    rw [Transaction.effect, hact, elim_none]
  rw [heffect, List.map_id']

theorem step_rows (hk : Keyed fold t) (x : Transaction) :
    x.step fold t = t.map (x.effect fold t) ∨
    ∃ (m : Message) (availableAt : Nat), (∀ r ∈ t, same fold m.identity r.identity = false) ∧
      x.step fold t = t.map (x.effect fold t) ++ [{ m with availableAt }] := by
  rcases step_cases hk x with ⟨hact, hstep⟩ | ⟨m, at', hact, hfree, hstep⟩ |
    ⟨c, named, hash, a, r, -, -, hact, hstep⟩
  · exact .inl (hstep.trans (map_effect hact).symm)
  · refine .inr ⟨m, at', hfree, ?_⟩
    rw [map_effect hact, hstep]
  · refine .inl (hstep.trans (map_congr_left fun n _ => ?_))
    unfold Transaction.effect
    rw [hact]
    split <;> rfl

theorem act_named (hk : Keyed fold t) (hr : r ∈ t) (hact : x.act fold t r.identity = some a) :
    ∃ c named, x.call = .settle c named r.bodySha256 a ∧ same fold named r.identity = true := by
  rcases step_cases hk x with ⟨hnone, -⟩ | ⟨m, at', hnone, -⟩ |
    ⟨c, named, hash, a', r', hcall, hfound, hsome, -⟩
  · rw [hnone] at hact
    cases hact
  · rw [hnone] at hact
    cases hact
  · rw [hsome] at hact
    split at hact
    next hsame =>
      cases hact
      have heq : r' = r := hk.eq_of_same hfound.mem hr (same_trans hfound.named hsame)
      subst heq
      exact ⟨c, named, hfound.hash ▸ hcall, hsame⟩
    next => cases hact

theorem Keyed.step (hk : Keyed fold t) (x : Transaction) : Keyed fold (x.step fold t) := by
  have hmap : Keyed fold (t.map (x.effect fold t)) := by
    rw [Keyed, pairwise_map]
    simp only [effect_toMessage]
    exact hk
  rcases step_rows hk x with hstep | ⟨m, at', hfree, hstep⟩
  · rwa [hstep]
  · rw [hstep, Keyed, pairwise_append]
    refine ⟨hmap, pairwise_singleton _ _, fun a ha b hb => ?_⟩
    obtain ⟨r, hr, rfl⟩ := mem_map.mp ha
    cases mem_singleton.mp hb
    rw [same_comm, effect_toMessage]
    exact hfree r hr

theorem record_some (h : record t id = some r) : r ∈ t ∧ r.identity = id :=
  ⟨mem_of_find?_eq_some h, by simpa using List.find?_some h⟩

theorem record_map (f : Row → Row) (hf : ∀ r, (f r).toMessage = r.toMessage) :
    record (t.map f) id = (record t id).map f := by
  simp [record, Function.comp_def, hf]

theorem record_step (hk : Keyed fold t) (h : record t id = some r) :
    record (x.step fold t) id = some (x.effect fold t r) := by
  have hmap : record (t.map (x.effect fold t)) id = some (x.effect fold t r) := by
    rw [record_map _ fun r => effect_toMessage, h, map_some]
  rcases step_rows hk x with hstep | ⟨m, at', -, hstep⟩
  · rwa [hstep]
  · rw [hstep, record, List.find?_append, ← record, hmap, some_or]

theorem record_step_new (hk : Keyed fold t) (h : record t id = none) :
    record (x.step fold t) id = none ∨
      ∃ r, record (x.step fold t) id = some r ∧ r.attempts = 0 ∧ r.Sound := by
  have hmap : record (t.map (x.effect fold t)) id = none := by
    rw [record_map _ fun r => effect_toMessage, h, map_none]
  rcases step_rows hk x with hstep | ⟨m, at', -, hstep⟩
  · exact .inl (hstep ▸ hmap)
  · rw [hstep, record, List.find?_append, ← record, hmap, none_or, List.find?_singleton]
    split
    · exact .inr ⟨_, rfl, rfl, ⟨by simp, by simp⟩⟩
    · exact .inl rfl

/-! ## Runs -/

theorem run_append (xs later : List Transaction) :
    run fold (xs ++ later) = later.foldl (Transaction.step fold) (run fold xs) :=
  foldl_append

theorem keyed_run (xs : List Transaction) : Keyed fold (run fold xs) := by
  induction xs using List.reverseRecOn with
  | nil => exact List.Pairwise.nil
  | append_singleton xs x ih => exact run_append xs [x] ▸ ih.step x

theorem sound_run (xs : List Transaction) (h : record (run fold xs) id = some r) : r.Sound := by
  induction xs using List.reverseRecOn generalizing r with
  | nil => cases h
  | append_singleton xs x ih =>
    rw [run_append] at h
    cases hbefore : record (run fold xs) id with
    | none =>
      rcases record_step_new (x := x) (keyed_run xs) hbefore with hnone | ⟨r', hr', -, hsound⟩
      · cases hnone.symm.trans h
      · cases hr'.symm.trans h
        exact hsound
    | some r0 =>
      cases (record_step (keyed_run xs) hbefore).symm.trans h
      unfold Transaction.effect
      cases x.act fold (run fold xs) r0.identity with
      | none => exact ih hbefore
      | some a => exact Act.apply_sound (ih hbefore)

/-- What a message keeps for good. -/
structure Row.Later (r r' : Row) : Prop where
  message : r'.toMessage = r.toMessage
  confirmed : r.requiresReceipt = true → r.stage = .confirmed → r'.stage = .confirmed
  held : r.requiresReceipt = false → r.stage = .held → r'.stage = .held

theorem Row.Later.trans {a b c : Row} (hab : a.Later b) (hbc : b.Later c) : a.Later c where
  message := hbc.message.trans hab.message
  confirmed hreceipt ha := hbc.confirmed (hab.message ▸ hreceipt) (hab.confirmed hreceipt ha)
  held hfree ha := hbc.held (hab.message ▸ hfree) (hab.held hfree ha)

theorem effect_later (x : Transaction) (t : Table) (r : Row) : r.Later (x.effect fold t r) := by
  refine ⟨effect_toMessage, ?_, ?_⟩ <;> unfold Transaction.effect <;>
    cases x.act fold t r.identity with
    | none => exact fun _ h => h
    | some a => ?_
  · exact fun hreceipt => (Act.apply_receipt hreceipt).2.2
  · exact fun hfree => (Act.apply_free hfree).2

theorem rows_later (later : List Transaction) (hk : Keyed fold t) :
    ∃ (f : Row → Row) (new : Table), later.foldl (Transaction.step fold) t = t.map f ++ new ∧
      ∀ r : Row, r.Later (f r) := by
  induction later generalizing t with
  | nil => exact ⟨fun r => r, [], by simp, fun r => ⟨rfl, fun _ h => h, fun _ h => h⟩⟩
  | cons x later ih =>
    obtain ⟨f, new, hrest, hf⟩ := ih (hk.step x)
    have heffect : ∀ r : Row, r.Later (f (x.effect fold t r)) := fun r =>
      (effect_later x t r).trans (hf _)
    rw [foldl_cons, hrest]
    rcases step_rows hk x with hstep | ⟨m, at', -, hstep⟩
    · refine ⟨fun r => f (x.effect fold t r), new, ?_, heffect⟩
      rw [hstep, List.map_map]
      rfl
    · refine ⟨fun r => f (x.effect fold t r), f { m with availableAt := at' } :: new, ?_, heffect⟩
      simp [hstep, Function.comp_def]

theorem record_later (later : List Transaction) (hk : Keyed fold t) (h : record t id = some r) :
    ∃ r', record (later.foldl (Transaction.step fold) t) id = some r' ∧ r.Later r' := by
  obtain ⟨f, new, hrows, hf⟩ := rows_later later hk
  refine ⟨f r, ?_, hf r⟩
  rw [hrows, record, List.find?_append, ← record, record_map f fun r => (hf r).message, h]
  rfl

theorem effect_attempts (x : Transaction) (h : record t id = some r) :
    (x.effect fold t r).attempts = r.attempts +
      ((x.act fold t id).any Act.isRetry && (record t id).any (·.stage.open)).toNat +
      if r.requiresReceipt then
        ((x.act fold t id).any Act.isPublished && (record t id).any (·.stage.open)).toNat
      else 0 := by
  rw [h, Transaction.effect, (record_some h).2]
  cases x.act fold t id with
  | none => simp
  | some a => exact Act.apply_attempts

theorem attempts_from (xs : List Transaction) (hk : Keyed fold t) {r r' : Row}
    (h : record t id = some r) (h' : record (xs.foldl (Transaction.step fold) t) id = some r') :
    r'.attempts = r.attempts + callsFrom fold id Act.isRetry t xs +
      if r'.requiresReceipt then callsFrom fold id Act.isPublished t xs else 0 := by
  induction xs generalizing t r with
  | nil =>
    cases h.symm.trans h'
    simp [callsFrom]
  | cons x xs ih =>
    have hstep := record_step (x := x) hk h
    obtain ⟨r'', hr'', hlater⟩ := record_later xs (hk.step x) hstep
    cases hr''.symm.trans h'
    rw [ih (hk.step x) hstep h', effect_attempts x h, hlater.message, effect_toMessage]
    simp only [callsFrom]
    split <;> omega

theorem attempts_new (xs : List Transaction) (hk : Keyed fold t) (h : record t id = none)
    (h' : record (xs.foldl (Transaction.step fold) t) id = some r) :
    r.attempts = callsFrom fold id Act.isRetry t xs +
      if r.requiresReceipt then callsFrom fold id Act.isPublished t xs else 0 := by
  induction xs generalizing t with
  | nil => cases h.symm.trans h'
  | cons x xs ih =>
    simp only [callsFrom, h, any_none, Bool.and_false, Bool.toNat_false, zero_add]
    rcases record_step_new (x := x) hk h with hnone | ⟨r0, hr0, hattempts, -⟩
    · exact ih (hk.step x) hnone h'
    · rw [attempts_from xs (hk.step x) hr0 h', hattempts, zero_add]

/-! ## The order of an aggregate -/

/-- The ordered messages of an aggregate, in the order of their insertion. -/
def members (fold : String → String) (m : Message) (t : Table) : List Row :=
  t.filter fun r => r.ordered && aggregate fold r.toMessage = aggregate fold m

/-- Every ordered message of the aggregate asks for a receipt, and came with a larger number than
those before it. -/
structure InOrder (fold : String → String) (m : Message) (t : Table) : Prop where
  receipts : ∀ r ∈ members fold m t, r.requiresReceipt = true
  increasing : ((members fold m t).map (·.aggregateSequence)).Pairwise (· < ·)

theorem mem_members :
    r ∈ members fold m t ↔
      r ∈ t ∧ r.ordered = true ∧ aggregate fold r.toMessage = aggregate fold m := by
  simp [members, mem_filter]

theorem selectPending_due {limit : Nat} {rows : List Row}
    (h : e.selectPending fold t limit = .ok rows) (hr : r ∈ rows) :
    r ∈ t ∧ due fold e.now t r = true := by
  unfold Engine.selectPending at h
  split at h
  · cases h
  · cases h
    exact mem_filter.mp ((mem_insertionSort _).mp (mem_of_mem_take hr))

theorem reply_due (h : m ∈ (x.reply fold t).messages) :
    ∃ r ∈ t, r.toMessage = m ∧ due fold x.engine.now t r = true := by
  cases hcall : x.call with
  | insert new availableAt =>
    rw [Transaction.reply, insert_perform hcall] at h
    cases hinsert : x.engine.insert fold t new availableAt <;> rw [hinsert] at h <;> cases h
  | settle c named hash a =>
    rw [Transaction.reply, settle_perform hcall] at h
    cases hsettle : c.settle fold x.tx x.engine t named hash a <;> rw [hsettle] at h <;> cases h
  | pending c limit =>
    unfold Transaction.reply Transaction.perform at h
    rw [hcall] at h
    cases c with
    | go =>
      dsimp only at h
      split at h
      next l hl =>
        obtain ⟨_, -, hl⟩ := bind_ok hl
        obtain ⟨rows, hrows, hl⟩ := bind_ok hl
        cases hl
        obtain ⟨record, hrecord, rfl⟩ := mem_map.mp h
        obtain ⟨r, hr, rfl⟩ := mem_map.mp hrecord
        obtain ⟨hmem, hdue⟩ := selectPending_due hrows hr
        exact ⟨r, hmem, rfl, hdue⟩
      next => cases h
    | python =>
      dsimp only at h
      split at h
      next l hl =>
        obtain ⟨_, -, hl⟩ := bind_ok hl
        obtain ⟨_, -, hrows⟩ := bind_ok hl
        obtain ⟨r, hr, rfl⟩ := mem_map.mp h
        obtain ⟨hmem, hdue⟩ := selectPending_due hrows hr
        exact ⟨r, hmem, rfl, hdue⟩
      next => cases h

/-- Every older message of its aggregate is confirmed when an ordered message is due. -/
theorem due_older {now : Nat} {older : Row} (h : due fold now t r = true) (hr : r.ordered = true)
    (holder : older ∈ members fold r.toMessage t)
    (hseq : older.aggregateSequence < r.aggregateSequence) : older.stage = .confirmed := by
  obtain ⟨hmem, hordered, haggregate⟩ := mem_members.mp holder
  by_contra hstage
  have hblocked : blocked fold t r = true :=
    any_eq_true.mpr ⟨older, hmem, by simp [haggregate, hordered, hstage, hseq]⟩
  simp [due, hr, hblocked] at h

/-- The messages of an aggregate come out in their order. -/
theorem order_kept {m' : Message} {x y : Transaction} {later : List Transaction} (hk : Keyed fold t)
    (hin : InOrder fold m (later.foldl (Transaction.step fold) t))
    (hm : m ∈ (x.reply fold t).messages) (hordered : m.ordered = true)
    (hm' : m' ∈ (y.reply fold (later.foldl (Transaction.step fold) t)).messages)
    (hordered' : m'.ordered = true) (hsame : aggregate fold m' = aggregate fold m) :
    m.aggregateSequence ≤ m'.aggregateSequence := by
  obtain ⟨r, hr, rfl, hdue⟩ := reply_due hm
  obtain ⟨r', hr', rfl, hdue'⟩ := reply_due hm'
  obtain ⟨f, new, hrows, hf⟩ := rows_later later hk
  by_contra hlt
  rw [Nat.not_le] at hlt
  have hreceipt : r'.requiresReceipt = true :=
    hin.receipts r' (mem_members.mpr ⟨hr', hordered', hsame⟩)
  rw [hrows] at hr'
  rcases mem_append.mp hr' with hold | hnew
  · -- it was there before, so it was confirmed, and still is
    obtain ⟨old, hmem, rfl⟩ := mem_map.mp hold
    have hmessage := (hf old).message
    have hconfirmed : old.stage = .confirmed := by
      refine due_older hdue hordered (mem_members.mpr ⟨hmem, ?_, ?_⟩) ?_ <;> rw [← hmessage]
      exacts [hordered', hsame, hlt]
    have hstill := (hf old).confirmed (hmessage ▸ hreceipt) hconfirmed
    simp [due, hstill, Stage.open] at hdue'
  · -- it came later, with a larger number
    have hincreasing := hin.increasing
    rw [hrows, members, filter_append, map_append, pairwise_append] at hincreasing
    have hlast := hincreasing.2.2 (f r).aggregateSequence ?_ r'.aggregateSequence ?_
    · rw [(hf r).message] at hlast
      omega
    · refine mem_map_of_mem (mem_members.mpr ⟨mem_map_of_mem hr, ?_, ?_⟩)
      · rw [(hf r).message, hordered]
      · rw [(hf r).message]
    · exact mem_map_of_mem (mem_members.mpr ⟨hnew, hordered', hsame⟩)

/-! ## All of it -/

theorem effect_moves (hk : Keyed fold t) (hr : r ∈ t) (x : Transaction) :
    (r.requiresReceipt = true →
      (r.stage ≠ .confirmed → (x.effect fold t r).stage = .confirmed →
        x.Confirms fold r.toMessage) ∧
      (r.stage = .held → (x.effect fold t r).stage ≠ .held → x.Confirms fold r.toMessage)) ∧
    (r.requiresReceipt = false →
      ∀ c named hash, x.call = .settle c named hash .confirm → x.effect fold t r = r) := by
  have heffect : x.effect fold t r = (x.act fold t r.identity).elim r (·.apply x.engine r) := rfl
  cases hact : x.act fold t r.identity with
  | none =>
    rw [hact, elim_none] at heffect
    rw [heffect]
    exact ⟨fun _ => ⟨fun h h' => absurd h' h, fun h h' => absurd h h'⟩, fun _ _ _ _ _ => rfl⟩
  | some a =>
    obtain ⟨c, named, hcall, hsame⟩ := act_named hk hr hact
    rw [hact, elim_some] at heffect
    rw [heffect]
    refine ⟨fun hreceipt => ?_, fun hfree c' named' hash' hcall' => ?_⟩
    · obtain ⟨hconfirmed, hheld, -⟩ := Act.apply_receipt (e := x.engine) (a := a) hreceipt
      exact ⟨fun h h' => ⟨c, named, hconfirmed h h' ▸ hcall, hsame⟩,
        fun h h' => ⟨c, named, hheld h h' ▸ hcall, hsame⟩⟩
    · cases hcall.symm.trans hcall'
      exact (Act.apply_free hfree).1 rfl

/-- A receipt that names what is stored names it exactly. -/
theorem Transaction.Exact.confirms (h : x.Exact fold t) (hr : r ∈ t)
    (hx : x.Confirms fold r.toMessage) : x.Confirms binary r.toMessage := by
  obtain ⟨c, named, hcall, hsame⟩ := hx
  refine ⟨c, named, hcall, ?_⟩
  rw [h c named _ _ hcall r hr hsame]
  simp [same]

/-- **The life of a message in a serial run, and the order of an aggregate.** Under any collation
`fold`, a message that asks for a receipt is confirmed by a `Confirm` with its hash and an identity
that `fold` holds equal to its own, which is its own one if the call is `Exact`. -/
theorem receipt_outbox_run (fold : String → String) (xs : List Transaction) :
    (∀ id r, record (run fold xs) id = some r →
      (r.confirmedAt.isSome = true ↔ r.stage = .confirmed) ∧
      (r.requiresReceipt = false → r.stage ≠ .awaitingReceipt) ∧
      r.attempts = callsFrom fold id Act.isRetry [] xs +
        (if r.requiresReceipt then callsFrom fold id Act.isPublished [] xs else 0) ∧
      ∀ x later, ∃ next last,
        record (run fold (xs ++ [x])) id = some next ∧
        record (run fold (xs ++ x :: later)) id = some last ∧
        (r.requiresReceipt = true →
          (r.stage ≠ .confirmed → next.stage = .confirmed → x.Confirms fold r.toMessage) ∧
          (r.stage = .held → next.stage ≠ .held → x.Confirms fold r.toMessage) ∧
          (r.stage = .confirmed → last.stage = .confirmed)) ∧
        (x.Exact fold (run fold xs) → x.Confirms fold r.toMessage → x.Confirms binary r.toMessage) ∧
        (r.requiresReceipt = false →
          (∀ c named hash, x.call = .settle c named hash .confirm → next = r) ∧
          (r.stage = .held → last.stage = .held))) ∧
    (∀ (x : Transaction) later (y : Transaction) m m',
      m ∈ (x.reply fold (run fold xs)).messages → m.ordered = true →
      InOrder fold m (run fold (xs ++ x :: later)) →
      m' ∈ (y.reply fold (run fold (xs ++ x :: later))).messages → m'.ordered = true →
      aggregate fold m' = aggregate fold m → m.aggregateSequence ≤ m'.aggregateSequence) := by
  have hk : Keyed fold (run fold xs) := keyed_run xs
  refine ⟨fun id r hr => ?_, fun x later y m m' hm hordered hin hm' hordered' hsame => ?_⟩
  · have hsound := sound_run xs hr
    refine ⟨hsound.confirmed, hsound.waiting, attempts_new xs List.Pairwise.nil rfl hr, ?_⟩
    intro x later
    obtain ⟨last, hlast, hlater⟩ := record_later (x :: later) hk hr
    obtain ⟨hreceipt, hfree⟩ := effect_moves hk (record_some hr).1 x
    refine ⟨x.effect fold (run fold xs) r, last, ?_, run_append xs _ ▸ hlast, ?_, ?_, ?_⟩
    · exact run_append xs [x] ▸ record_step hk hr
    · intro h
      exact ⟨(hreceipt h).1, (hreceipt h).2, hlater.confirmed h⟩
    · intro hexact
      exact hexact.confirms (record_some hr).1
    · intro h
      exact ⟨hfree h, hlater.held h⟩
  · rw [run_append] at hin hm'
    exact order_kept hk hin hm hordered hm' hordered' hsame

end

/-- Two messages of one aggregate: the second is due once the first has its receipt. -/
def command (id : String) (sequence : Nat) : Message where
  identity := ⟨"qs-server", "qs-ai", id⟩
  bodySha256 := "hash"
  body := [1]
  wire := [2]
  topic := "qs.ai.commands.v1"
  aggregateKey := "original"
  aggregateSequence := sequence
  ordered := true
  requiresReceipt := true

def stagings : List Transaction :=
  [⟨.insert (command "first" 1) 0, true, { now := 0 }, true⟩,
   ⟨.insert (command "second" 2) 0, true, { now := 0 }, true⟩,
   ⟨.settle .go (command "first" 1).identity "hash" (.retry 1 "publish_unknown"), true,
     { now := 0 }, true⟩]

def scan (client : Client) : Transaction := ⟨.pending client 20, true, { now := 2000000 }, true⟩

def receipt (client : Client) (id : String) : Transaction :=
  ⟨.settle client (command id 1).identity "hash" .confirm, true, { now := 2000000 }, true⟩

/-- The collations of the reference schema: blanks at the end of a text do not count. -/
def padSpace (s : String) : String :=
  String.ofList (s.toList.reverse.dropWhile (· = ' ')).reverse

set_option maxRecDepth 100000 in
theorem record_stagings : record (run padSpace stagings) (command "first" 1).identity = some
    { command "first" 1 with
      attempts := 1, availableAt := 1000000, errorCode := "publish_unknown" } := by
  decide +kernel

set_option maxRecDepth 100000 in
theorem receipt_outbox_run_commands :
    (∃ r, record (run padSpace stagings) (command "first" 1).identity = some r ∧
      r.attempts = callsFrom padSpace r.identity Act.isRetry [] stagings +
        callsFrom padSpace r.identity Act.isPublished [] stagings ∧
      ∃ next, record (run padSpace (stagings ++ [receipt .python "first"])) r.identity = some next ∧
        next.stage = .confirmed ∧ (receipt .python "first").Confirms binary r.toMessage) ∧
    (command "first" 1).aggregateSequence ≤ (command "second" 2).aggregateSequence := by
  obtain ⟨hrecords, horder⟩ := receipt_outbox_run padSpace stagings
  refine ⟨?_, horder (scan .go) [receipt .python "first"] (scan .python) _ _ (by decide +kernel) rfl
    ⟨by decide +kernel, by decide +kernel⟩ (by decide +kernel) rfl rfl⟩
  obtain ⟨-, -, hattempts, hlater⟩ := hrecords _ _ record_stagings
  obtain ⟨next, last, hnext, -, hreceipt, hexact, -⟩ := hlater (receipt .python "first") []
  have hconfirmed : next.stage = .confirmed := by
    have hstage : (record (run padSpace (stagings ++ [receipt .python "first"]))
        (command "first" 1).identity).map (·.stage) = some .confirmed := by decide +kernel
    rw [hnext] at hstage
    exact Option.some.inj hstage
  refine ⟨_, record_stagings, hattempts, next, hnext, hconfirmed, hexact ?_ ?_⟩
  · rintro c named hash a ⟨⟩
    decide +kernel
  · exact (hreceipt rfl).1 nofun hconfirmed

set_option maxRecDepth 100000 in
/-- **A receipt for another identity.** The message `first` waits for its receipt, and a `Confirm`
of either client that names `first` with a blank behind it confirms it. -/
theorem padded_identity_confirms : ∃ r,
    record (run padSpace stagings) (command "first" 1).identity = some r ∧
    r.requiresReceipt = true ∧ r.stage ≠ .confirmed ∧ ∀ client, ∃ next,
    record (run padSpace (stagings ++ [receipt client "first "])) r.identity = some next ∧
    next.stage = .confirmed ∧ ¬ (receipt client "first ").Confirms binary r.toMessage := by
  refine ⟨_, record_stagings, rfl, nofun, fun client => ?_⟩
  obtain ⟨next, hnext, hstage⟩ : ∃ next, record (run padSpace (stagings ++
      [receipt client "first "])) (command "first" 1).identity = some next ∧
      next.stage = .confirmed := by
    refine map_eq_some_iff.mp ?_
    cases client <;> decide +kernel
  refine ⟨next, hnext, hstage, ?_⟩
  rintro ⟨c, named, hcall, hsame⟩
  cases hcall
  exact absurd hsame (by decide +kernel)

end ReliableMessaging.Delivery
