import ReliableMessaging.Python.System
import ReliableMessaging.Stores.Finals

/-!
# What a capability is good for

An `Execution` that a caller holds is a capability: its token was drawn when
the execution was reserved. Five operations take one, and each adapter checks
it in its own way: by the filter of an update, by the digest of the plan that
is read back, or by the references that the plan yields. A caller can also
build a value of its own, with a real token and another plan.
-/

namespace ReliableMessaging

open Transaction TxLang Option

namespace MySql

variable {H : Sha256} {σ ν : Tables} {e : Execution} {ref : Reference} {planned : Prop}

def Changes (k : Bytes) (σ ν : Tables) : Prop :=
  ν.lookup (.execution k) ≠ σ.lookup (.execution k) ∨
    ∃ b, ν.lookup (.witness k b) ≠ σ.lookup (.witness k b)

/-- Whatever execution changes is that of a capability in `held`, and every
such capability has the stored token and, where `planned`, the stored plan. -/
def Authorized (H : Sha256) (held : Execution → Prop) (planned : Prop) (σ ν : Tables) : Prop :=
  ∀ k, Changes k σ ν → ∃ x : ExecutionRow, σ.lookup (.execution k) = some x ∧
    (∃ e, held e ∧ e.key H = k) ∧
    ∀ e, held e → e.key H = k →
      x.token = e.token ∧ (planned → x.plan.digest H = e.plan.digest H)

theorem authorized_of_one {x : ExecutionRow}
    (hx : σ.lookup (.execution (e.key H)) = some x) (hrest : ∀ k, Changes k σ ν → k = e.key H)
    (htoken : x.token = e.token) (hplan : planned → x.plan.digest H = e.plan.digest H) :
    Authorized H (· = e) planned σ ν := by
  intro k hk
  cases hrest k hk
  refine ⟨x, hx, ⟨e, rfl, rfl⟩, ?_⟩
  rintro _ rfl _
  exact ⟨htoken, hplan⟩

theorem authorized_refl {held : Execution → Prop} :
    Authorized H held planned σ σ := by
  rintro k (hne | ⟨b, hne⟩)
  · exact absurd rfl hne
  · exact absurd rfl hne

variable {k k' b : Bytes} {x' : ExecutionRow} {w : WitnessRow}

theorem SetsExecution.changes {x : ExecutionRow} (h : SetsExecution k x x' σ ν)
    (hk : Changes k' σ ν) : k' = k := by
  by_contra hne
  rcases hk with hx | ⟨b, hw⟩
  · exact hx (h.rest _ fun heq => hne (Row.execution.inj heq))
  · exact hw (h.rest _ Row.noConfusion)

theorem SetsWitness.changes {w' : WitnessRow} (h : SetsWitness k b w w' σ ν) (hk : Changes k' σ ν) :
    k' = k := by
  by_contra hne
  rcases hk with hx | ⟨b', hw⟩
  · exact hx (h.rest _ Row.noConfusion)
  · exact hw (h.rest _ fun heq => hne (Row.witness.inj heq).1)

theorem EndsExecution.changes {x : ExecutionRow} (h : EndsExecution k x x' σ ν)
    (hk : Changes k' σ ν) : k' = k := by
  by_contra hne
  rcases hk with hx | ⟨b, hw⟩
  · exact hx (h.rest _ (fun heq => hne (Row.execution.inj heq)) fun _ => Row.noConfusion)
  · exact hw (h.rest _ Row.noConfusion fun _ heq => hne (Row.witness.inj heq).1)

theorem Inv.reference_digest (hi : Inv H σ) {x : ExecutionRow}
    (hx : σ.lookup (.execution k) = some x) (hw : σ.lookup (.witness k b) = some w) :
    w.reference.planDigest = x.plan.digest H := by
  obtain ⟨x', hx', br, hbr, rfl⟩ := hi.witness k b w hw
  cases hx.symm.trans hx'
  obtain ⟨w', hw', href, _⟩ := (hi.execution k x hx).witness br hbr
  cases hw.symm.trans hw'
  rw [href]
  rfl

theorem Finds.digest {b : Bytes} {x : ExecutionRow} {w : WitnessRow} (hi : Inv H σ)
    (h : Finds (e.key H) b ref σ x w) (hmem : ref ∈ e.references H) :
    x.plan.digest H = e.plan.digest H := by
  obtain ⟨br, _, rfl⟩ := Execution.mem_references hmem
  rw [← hi.reference_digest h.execution h.witness, h.reference]
  rfl

theorem BeginsPrepare.authorized (h : BeginsPrepare H e σ ν) :
    Authorized H (· = e) planned σ ν := by
  obtain ⟨x, hsets, htoken, hplan, _⟩ := h
  exact authorized_of_one hsets.before (fun _ => hsets.changes) htoken fun _ => by rw [hplan]

/-- `Abort` looks at the token and the number of branches. -/
theorem Aborts.authorized {store : Store} (h : Aborts H store e σ ν)
    (hplan : ∀ x, Abortable H store e σ x → planned → x.plan.digest H = e.plan.digest H) :
    Authorized H (· = e) planned σ ν := by
  obtain ⟨x, hends, hable⟩ := h
  exact authorized_of_one hends.before (fun _ => hends.changes) hable.token (hplan x hable)

theorem RecordsHalf.authorized {r : HalfReceipt} (hi : Inv H σ) (h : RecordsHalf H e ref r σ ν) :
    Authorized H (· = e) planned σ ν := by
  obtain ⟨x, w, now, hsets, hfinds, hmem, htoken, _⟩ := h
  exact authorized_of_one hfinds.execution (fun _ => hsets.changes) htoken fun _ =>
    hfinds.digest hi hmem

theorem RecordsFinal.authorized {f : FinalOutcome} {code : String} (hi : Inv H σ)
    (h : RecordsFinal H e ref f code σ ν) : Authorized H (· = e) planned σ ν := by
  obtain ⟨x, w, now, hsets, hfinds, hmem, htoken, _⟩ := h
  exact authorized_of_one hfinds.execution (fun _ => hsets.changes) htoken fun _ =>
    hfinds.digest hi hmem

theorem Hosts.authorized {steps : List HostStep} (h : Hosts H steps σ ν) :
    Authorized H (fun e => ∃ s, .bind s e ∈ steps) planned σ ν := by
  intro k hk
  rcases h.key k with ⟨hx, hw⟩ | ⟨s, e, x, g, st, hmem, he⟩
  · rcases hk with hne | ⟨b, hne⟩
    · exact absurd hx hne
    · exact absurd (hw b) hne
  · refine ⟨x, he.before, ⟨e, ⟨s, hmem⟩, he.key⟩, ?_⟩
    rintro e' ⟨s', hmem'⟩ rfl
    obtain ⟨x', hx', htoken, hplan⟩ := h.bound s' e' hmem'
    cases he.before.symm.trans hx'
    exact ⟨htoken, fun _ => by rw [hplan]⟩

/-- The capabilities that a call is given, if it takes any. -/
def Op.held : Op → Option (Execution → Prop)
  | .beginPrepare _ e => some (· = e)
  | .abortOnce _ e => some (· = e)
  | .recordHalf _ e _ _ => some (· = e)
  | .recordFinal _ e _ _ _ => some (· = e)
  | .rootTransaction steps _ => some fun e => ∃ s, .bind s e ∈ steps
  | _ => none

/-- An abort with another plan that the updates do not tell from the stored one: the row is
prepared and has the token, and its plan has as many branches. -/
def Mistaken (H : Sha256) (store : Store) (e : Execution) (σ : Tables) : Prop :=
  ∃ x, Abortable H store e σ x ∧ x.plan.digest H ≠ e.plan.digest H

/-- An `Abort` of a form that the store accepts, with another plan. -/
def Op.Forged (H : Sha256) (σ : Tables) : Op → Prop
  | .abortOnce store e => e.valid = true ∧ Mistaken H store e σ
  | _ => False

theorem Abortable.digest {store : Store} {x : ExecutionRow} (h : Abortable H store e σ x)
    (hnot : ¬ Mistaken H store e σ) : x.plan.digest H = e.plan.digest H := by
  by_contra hne
  exact hnot ⟨x, h, hne⟩

theorem authorized_of_effect {op : Op} {held : Execution → Prop} (hi : Inv H σ)
    (hop : op.held = some held) (h : effect H op σ ν) :
    Authorized H held (¬ op.Forged H σ) σ ν := by
  cases op <;> cases hop
  case beginPrepare => exact BeginsPrepare.authorized h
  case abortOnce =>
    exact h.2.authorized fun _ hx hnot => hx.digest fun hmistaken => hnot ⟨h.1, hmistaken⟩
  case recordHalf => exact RecordsHalf.authorized hi h
  case recordFinal => exact RecordsFinal.authorized hi h.2
  case rootTransaction => exact Hosts.authorized h

/-! ### A mistaken abort, alone -/

section Alone

variable {t : Tx Val} {u : World Noted} {store : Store} {x : ExecutionRow}

variable {Q : Nat → Tables → Option (Tx Val) → Prop} {k : Bytes}

theorem alone_update {rows : Tables → Tables}
    (h : Q (rows (t.writes ∪ σ)).keys.length σ (some (t.stage (rows (t.writes ∪ σ))))) :
    Alone .readCommitted u (update rows : Code Err Val Noted Nat) Q σ (some t) :=
  alone_bind (alone_send rfl (alone_pure h))

theorem alone_setExecution {cond : ExecutionRow → Bool} {set : ExecutionRow → ExecutionRow}
    (hempty : t.writes = ∅) (hx : σ.lookup (.execution k) = some x) (hcond : cond x = true)
    (hQ : ∀ t' : Tx Val, (t'.writes ∪ σ).lookup (.execution k) = some (set x) →
      (∀ b, (t'.writes ∪ σ).lookup (.witness k b) = σ.lookup (.witness k b)) → Q 1 σ (some t')) :
    Alone .readCommitted u (update (setExecution k cond set) : Code Err Val Noted Nat) Q σ
      (some t) := by
  have hview : t.writes ∪ σ = σ := by rw [hempty, AList.empty_union]
  have hrow : (setExecution k cond set σ).lookup (.execution k) = some (set x) := by
    rw [lookup_setExecution_execution, hx, bind_some, if_pos ⟨rfl, hcond⟩]
  have hone : (setExecution k cond set σ).keys.length = 1 :=
    setExecution_one (List.length_pos_of_mem (mem_keys_iff_lookup.mpr ⟨_, hrow⟩)).ne'
  refine alone_update ?_
  rw [hview, hone]
  refine hQ _ (lookup_stage_union_of_some hrow) fun b => ?_
  rw [lookup_stage_union_of_none (lookup_setExecution_other fun _ => Row.noConfusion), hview]

theorem alone_setWitnesses [H.CollisionFree] {set : WitnessRow → WitnessRow} {x' : ExecutionRow}
    (hi : Inv H σ) (hx : σ.lookup (.execution k) = some x) (hprepared : x.state = .prepared)
    (hx' : (t.writes ∪ σ).lookup (.execution k) = some x')
    (hrows : ∀ b, (t.writes ∪ σ).lookup (.witness k b) = σ.lookup (.witness k b))
    (hQ : ∀ t' : Tx Val, (t'.writes ∪ σ).lookup (.execution k) = some x' →
      Q x.plan.input.branches.length σ (some t')) :
    Alone .readCommitted u (update (setWitnesses k (fun _ w => w.state = .prepared) set) :
      Code Err Val Noted Nat) Q σ (some t) := by
  refine alone_update ?_
  rw [hi.length_setWitnesses hx hprepared hrows]
  refine hQ _ ?_
  rw [lookup_stage_union_of_none (lookup_setWitnesses_other fun _ _ => Row.noConfusion), hx']

/-- The row that an abort leaves. -/
def ExecutionRow.afterAbort (x : ExecutionRow) : ExecutionRow :=
  { x with state := .aborted, guardVersion := x.guardVersion + 1 }

theorem alone_abort [H.CollisionFree] (hi : Inv H σ) (hvalid : e.valid = true)
    (h : Abortable H store e σ x) :
    Alone .readCommitted u (abortOnce H store e : Code Err Val Noted Bool)
      (fun _ ν _ => ν.lookup (.execution (e.key H)) = some x.afterAbort) σ none := by
  refine alone_bind (alone_refuse (by simp [hvalid, h.owner]) (alone_withTx ?_))
  refine alone_bind (alone_bindingIn h.admitted rfl fun t hempty => alone_bind (alone_pure ?_))
  refine alone_bind (alone_setExecution hempty h.stored (by simp [h.prepared, h.token])
    fun t1 hrow hrows => ?_)
  refine alone_bind (alone_setWitnesses hi h.stored h.prepared hrow hrows fun t2 hrow2 => ?_)
  refine alone_bind (alone_refuse (by simp [h.branches]) (alone_bind (alone_send rfl ?_)))
  exact alone_pure hrow2

end Alone

/-- What a forged abort leaves is not authorized. -/
theorem not_authorized {store : Store} {x : ExecutionRow} (h : Abortable H store e σ x)
    (hne : x.plan.digest H ≠ e.plan.digest H)
    (hν : ν.lookup (.execution (e.key H)) = some x.afterAbort) :
    ¬ Authorized H (· = e) True σ ν := by
  intro hauthorized
  have hchanges : Changes (e.key H) σ ν := by
    refine .inl fun heq => ?_
    rw [hν, h.stored] at heq
    have hstate := congrArg ExecutionRow.state (Option.some.inj heq)
    rw [h.prepared] at hstate
    cases hstate
  obtain ⟨x', hx', _, hall⟩ := hauthorized _ hchanges
  cases h.stored.symm.trans hx'
  exact hne ((hall e rfl rfl).2 trivial)

end MySql

namespace Python

open MySql (Tables Inv Authorized Mistaken Abortable ExecutionRow Noted Val)

variable {H : Sha256} {σ ν : Tables} {s : SharedSystem}

/-- The capabilities that a call is given, if it takes any. -/
def Op.held : Op → Option (Execution → Prop)
  | .beginPrepare _ e => some (· = e.val)
  | .abortOnce _ e => some (· = e.val)
  | .recordHalf _ e _ _ => some (· = e.val)
  | .recordFinal _ e _ _ _ => some (· = e.val)
  | .rootTransaction _ _ steps _ => some fun e => ∃ s, .bind s e ∈ steps.val
  | _ => none

def Op.Forged (H : Sha256) (σ : Tables) : Op → Prop
  | .abortOnce s e => owned e.val = true ∧ Mistaken H s.binding e.val σ
  | _ => False

theorem authorized_of_effect {op : Op} {held : Execution → Prop} (hi : Inv H σ)
    (hop : op.held = some held) (h : effect H op σ ν) :
    Authorized H held (¬ op.Forged H σ) σ ν := by
  cases op <;> cases hop
  case beginPrepare => exact MySql.BeginsPrepare.authorized h
  case abortOnce =>
    exact h.2.authorized fun _ hx hnot => hx.digest fun hmistaken => hnot ⟨h.1, hmistaken⟩
  case recordHalf => exact MySql.RecordsHalf.authorized hi h
  case recordFinal => exact MySql.RecordsFinal.authorized hi h
  case rootTransaction => exact MySql.Hosts.authorized h

/-- The capabilities that a call of either store is given. -/
def Either.held : Either → Option (Execution → Prop)
  | .inl op => op.held
  | .inr op => op.held

def Either.Forged (H : Sha256) (σ : Tables) : Either → Prop
  | .inl op => op.Forged H σ
  | .inr op => op.Forged H σ

variable {op : Either}

theorem Shared.authorized [H.CollisionFree] (h : Shared H s) {held : Execution → Prop}
    (hop : Either.held op = some held) {σ' : Tables} (hleave : s.MayLeave .readCommitted op σ') :
    Authorized H held (¬ Either.Forged H s.db op) s.db σ' := by
  rcases h.mayLeave hleave with rfl | he
  · exact MySql.authorized_refl
  cases op with
  | inl op => exact MySql.authorized_of_effect h.inv hop he
  | inr op => exact authorized_of_effect h.inv hop he

theorem alone_bindingIn {u : World Noted} {t : Tx Val} {store : Store}
    {Q : Unit → Tables → Option (Tx Val) → Prop} (h : MySql.Admitted store σ)
    (hempty : t.writes = ∅) (hQ : ∀ t', t'.writes = ∅ → Q () σ (some t')) :
    Alone .readCommitted u (bindingIn store false : Code Err Val Noted Unit) Q σ (some t) := by
  obtain ⟨b, hb, hadmits⟩ := h
  refine alone_bind (alone_lock ((MySql.lookup_view hempty _).trans hb) ?_)
  refine alone_bind (alone_found rfl (alone_bind (alone_refuse (by simp [hadmits.store]) ?_)))
  refine alone_bind (alone_refuse rfl (alone_refuse (by simp [hadmits.schema]) (hQ _ ?_)))
  rw [MySql.writes_acquire, hempty]

theorem alone_abort [H.CollisionFree] {u : World Noted} {store : MySQLTransactionStore}
    {e : Capability} {x : ExecutionRow} (hi : Inv H σ) (howned : owned e.val = true)
    (h : Abortable H store.binding e.val σ x) :
    Alone .readCommitted u (abortOnce H store e.val : Code Err Val Noted Bool)
      (fun _ ν _ => ν.lookup (.execution (e.val.key H)) = some x.afterAbort) σ none := by
  have hcount : (e.val.references H).length = x.plan.input.branches.length := by
    rw [Execution.references_eq (formed_of_constructed e.property), List.length_map, h.branches]
  refine alone_bind (alone_refuse (by simp [howned, h.owner]) (alone_withTx ?_))
  refine alone_bind (alone_bindingIn h.admitted rfl fun t hempty => alone_bind ?_)
  refine alone_bind (alone_pure (alone_bind ?_))
  refine MySql.alone_setExecution hempty h.stored (by simp [h.prepared, h.token])
    fun t1 hrow hrows => ?_
  refine alone_bind (MySql.alone_setWitnesses hi h.stored h.prepared hrow hrows
    fun t2 hrow2 => ?_)
  refine alone_bind (alone_refuse (by simp [hcount]) (alone_pure ?_))
  exact alone_bind (alone_send rfl (alone_pure hrow2))

/-- A forged abort comes to its end in an idle store, and aborts the execution of another plan. -/
theorem Shared.forged [H.CollisionFree] (h : Shared H s) {held : Execution → Prop}
    (hop : Either.held op = some held) (hforged : Either.Forged H s.db op) (hidle : s.Idle)
    {p : Nat} (hp : s.procs p = none) :
    ∃ s', Runs .readCommitted (eitherProgram H) s s' ∧
      ¬ Authorized H held True s.db s'.db := by
  cases op with
  | inl op =>
    cases op with
    | abortOnce store e =>
      cases hop
      obtain ⟨hvalid, x, hable, hne⟩ := hforged
      have hcode : eitherProgram H (.inl (.abortOnce store e)) =
        ignore (MySql.abortOnce H store e).run := rfl
      obtain ⟨s', _, _, hruns, hrow⟩ := Alone.runs hcode
        (MySql.alone_abort (u := ⟨0, 1, fun _ => some ()⟩) h.inv hvalid hable) hidle hp
      exact ⟨s', hruns, MySql.not_authorized hable hne hrow⟩
    | _ => exact hforged.elim
  | inr op =>
    cases op with
    | abortOnce store e =>
      cases hop
      obtain ⟨howned, x, hable, hne⟩ := hforged
      have hcode : eitherProgram H (.inr (.abortOnce store e)) =
        ignore (abortOnce H store e.val).run := rfl
      obtain ⟨s', _, _, hruns, hrow⟩ := Alone.runs hcode
        (alone_abort (u := ⟨0, 1, fun _ => some ()⟩) h.inv howned hable) hidle hp
      exact ⟨s', hruns, MySql.not_authorized hable hne hrow⟩
    | _ => exact hforged.elim

end Python

namespace Mongo

variable {H : Sha256} {σ ν : Collections} {e : Execution} {s : StoreSystem}

/-- Whatever document changes is that of a capability in `held`, and every such
capability has the stored token and the stored plan. -/
def Authorized (H : Sha256) (held : Execution → Prop) (σ ν : Collections) : Prop :=
  ∀ id, ν.lookup (.execution id) ≠ σ.lookup (.execution id) →
    ∃ d : ExecutionDoc, σ.lookup (.execution id) = some d ∧ (∃ e, held e ∧ e.key H = id) ∧
      ∀ e, held e → e.key H = id →
        d.token = e.token ∧ d.plan.digest H = e.plan.digest H

variable {d : ExecutionDoc} {quiet : Prop} {op : Op}

theorem Permits.exact {id : Bytes} (h : Permits H e d) (hd : d.Intact H id) :
    d.token = e.token ∧ d.plan.digest H = e.plan.digest H :=
  ⟨h.token, hd.digest.symm.trans h.digest⟩

theorem SetsDoc.authorized {d' : ExecutionDoc} (hi : Inv H σ) (h : SetsDoc (e.key H) d d' σ ν)
    (hp : Permits H e d) : Authorized H (· = e) σ ν := by
  intro id hid
  have hkey : id = e.key H := by
    by_contra hne
    exact hid (h.rest _ fun heq => hne (Row.execution.inj heq))
  subst hkey
  refine ⟨d, h.before, ⟨e, rfl, rfl⟩, ?_⟩
  rintro _ rfl _
  exact hp.exact (hi _ d h.before)

theorem Hosts.authorized {steps : List HostStep} (hi : Inv H σ) (h : Hosts H quiet steps σ ν) :
    Authorized H (fun e => ∃ s, .bind s e ∈ steps) σ ν := by
  intro id hid
  rcases h.execution id with hsame | ⟨s, e, d, d', hmem, _, he⟩
  · exact absurd hsame hid
  · refine ⟨d, he.before, ⟨e, ⟨s, hmem⟩, he.key⟩, ?_⟩
    rintro e' ⟨s', hmem'⟩ rfl
    obtain ⟨d1, hd1, hp⟩ := h.bound s' e' hmem'
    cases he.before.symm.trans hd1
    exact hp.exact (hi _ d he.before)

/-- The capabilities that a call is given, if it takes any. -/
def Op.held : Op → Option (Execution → Prop)
  | .beginPrepare _ e => some (· = e)
  | .abortOnce _ e => some (· = e)
  | .recordHalf _ e _ _ => some (· = e)
  | .recordFinal _ e _ _ _ => some (· = e)
  | .rootTransaction steps _ => some fun e => ∃ s, .bind s e ∈ steps
  | _ => none

theorem authorized_of_effect {held : Execution → Prop} (hi : Inv H σ) (hop : op.held = some held)
    (h : effect H quiet op σ ν) : Authorized H held σ ν := by
  cases op <;> cases hop
  case beginPrepare =>
    obtain ⟨d, hsets, hp, _⟩ := h
    exact hsets.authorized hi hp
  case abortOnce =>
    obtain ⟨d, hsets, hp, _⟩ := h
    exact hsets.authorized hi hp
  case recordHalf =>
    obtain ⟨d, i, w, now, haudits, hp, _⟩ := h
    exact haudits.sets.authorized hi hp
  case recordFinal =>
    obtain ⟨d, i, w, now, haudits, hp, _⟩ := h
    exact haudits.sets.authorized hi hp
  case rootTransaction => exact Hosts.authorized hi h

theorem Served.authorized (h : Served H s) {held : Execution → Prop} (hop : op.held = some held)
    {σ' : Collections} (hleave : s.MayLeave .snapshot op σ') : Authorized H held s.db σ' := by
  rcases h.mayLeave hleave with rfl | he
  · intro id hne
    exact absurd rfl hne
  · exact authorized_of_effect h.inv hop he

end Mongo

namespace Stores

open Python (Shared SharedSystem Either)

/-- Capabilities are exact. In every state that a MySQL store with clients of
both languages reaches, and in every state that a Mongo store reaches, whatever
a call with capabilities may leave changes executions of its capabilities only,
and those have the stored token and, unless the call is a forged `Abort` of a
MySQL store, the digest of the stored plan. A forged one runs from any idle
state to rows where the digest of the aborted execution is another. -/
theorem capabilities_are_exact (H : Sha256) [H.CollisionFree] :
    (∀ s : SharedSystem, Shared H s → ∀ op held, Either.held op = some held →
      (∀ σ', s.MayLeave .readCommitted op σ' →
        MySql.Authorized H held (¬ Either.Forged H s.db op) s.db σ') ∧
      (Either.Forged H s.db op → s.Idle → ∀ p, s.procs p = none →
        ∃ s', Runs .readCommitted (Python.eitherProgram H) s s' ∧
          ¬ MySql.Authorized H held True s.db s'.db)) ∧
    ∀ s : Mongo.StoreSystem, Mongo.Served H s → ∀ op : Mongo.Op, ∀ held, op.held = some held →
      ∀ σ', s.MayLeave .snapshot op σ' → Mongo.Authorized H held s.db σ' :=
  ⟨fun _ h _ _ hop => ⟨fun _ hleave => h.authorized hop hleave,
      fun hforged hidle _ hp => h.forged hop hforged hidle hp⟩,
    fun _ h _ _ hop _ hleave => h.authorized hop hleave⟩

namespace Sample

open MySql (Tables ExecutionRow Noted)
open MySql.Sample (clockAt installed installed_spec)
open Transaction.Sample (store options plan execution)

def issued : World Noted × Either :=
  (clockAt 1, .inl (.reserve store (requestFor (plan "1" "k")) (plan "1" "k") options))

def started : Either := .inl (.beginPrepare store (execution "1" "k" 1))

@[irreducible]
def before : Tables := (serve .readCommitted (Python.eitherProgram default) 0 [issued] installed).1

@[irreducible]
def atCommit : After MySql.Val Noted (Prog MySql.Val Noted Unit) :=
  pause .readCommitted (clockAt 2) 5 (Python.eitherProgram default started) before none

def forged : Execution := execution "1" "j" 1

def aborts : List Either :=
  [.inl (.abortOnce store forged),
    .inr (.abortOnce ⟨store, .readCommitted⟩ ⟨forged, by decide +kernel⟩)]

def row (σ : Tables) : Option ExecutionRow := σ.lookup (.execution (forged.key default))

end Sample

open Sample

set_option maxRecDepth 100000 in
theorem started_at_commit :
    atCommit.value.atCommit = true ∧
      (row before).map (·.prepareStarted) = some false ∧
      (row atCommit.db).map (·.prepareStarted) = some false ∧
      (atCommit.tx.map fun t => (row (t.writes ∪ atCommit.db)).map
        (·.prepareStarted)) = some (some true) := by
  decide +kernel

set_option maxRecDepth 100000 in
theorem forged_aborts : ∀ op ∈ aborts,
    ((row before).map fun x => (x.state, decide (x.token = forged.token),
        decide (x.plan.digest default = forged.plan.digest default))) =
      some (.prepared, true, false) ∧
    (row (solo .readCommitted (MySql.Sample.clockAt 2) (Python.eitherProgram default op)
      before none).db).map (·.state) = some .aborted := by
  decide +kernel

set_option maxRecDepth 100000 in
theorem before_rows :
    before.lookup (.binding "o") = some (⟨"d", "E", 1⟩ : MySql.BindingRow) ∧
      (row before).map (·.plan.input.branches.length) = some 1 ∧
      forged.valid = true ∧ forged.plan.input.branches.length = 1 := by
  decide +kernel

/-- The forged value is of the form that the Go store accepts. -/
theorem forged_before : Either.Forged default before
    (.inl (.abortOnce Transaction.Sample.store forged)) := by
  obtain ⟨hbinding, hbranches, hvalid, hone⟩ := before_rows
  obtain ⟨x, hx, hlength⟩ := map_eq_some_iff.mp hbranches
  obtain ⟨x', hx', hfields⟩ := map_eq_some_iff.mp
    (forged_aborts _ (List.mem_cons_self ..)).1
  cases hx.symm.trans hx'
  simp only [Prod.mk.injEq, decide_eq_true_eq, decide_eq_false_iff_not] at hfields
  exact ⟨hvalid, x, ⟨rfl, ⟨_, hbinding, rfl, rfl, nofun⟩, hx, hfields.2.1, hfields.1,
    hlength.trans hone.symm⟩, hfields.2.2⟩

/-- The holder's own preparation changes its execution; so does an abort with a forged value, and
that is not authorized. -/
theorem capabilities_are_exact_started : ∃ s0 s : SharedSystem, Shared default s0 ∧
    Runs .readCommitted (Python.eitherProgram default) s0 s ∧
    (∃ σ', s.MayLeave .readCommitted started σ' ∧
      MySql.Changes (forged.key default) s.db σ' ∧
      ∃ x, row s.db = some x ∧ x.token = (execution "1" "k" 1).token ∧
        x.plan.digest default = (execution "1" "k" 1).plan.digest default) ∧
    ∃ s', Runs .readCommitted (Python.eitherProgram default) s0 s' ∧
      ¬ MySql.Authorized default (· = forged) True s0.db s'.db := by
  obtain ⟨s0, hr, hidle, hfree, hdb, _⟩ := reach_serve .readCommitted
    (Python.eitherProgram default) (fun _ _ => True) MySql.Sample.installed_spec [issued]
    (mayServe_true _ _ _ _ _ _)
  replace hdb : s0.db = before := by
    delta before
    exact hdb
  obtain ⟨hcommit, _, hold, hnew⟩ := started_at_commit
  obtain ⟨t, htx, hrow⟩ := map_eq_some_iff.mp hnew
  have hpause : pause .readCommitted (MySql.Sample.clockAt 2) 5
      (Python.eitherProgram default started) s0.db none = atCommit := by
    rw [hdb]
    delta atCommit
    rfl
  obtain ⟨s, hruns, hdb', hleave⟩ := mayLeave_pause .readCommitted (Python.eitherProgram default)
    (MySql.Sample.clockAt 2) started 5 (t := t) hidle (hfree 1 (Nat.le_refl 1))
    (by rw [hpause]; exact htx) (by rw [hpause]; exact hcommit)
  rw [hpause] at hdb'
  have hs0 : Shared default s0 := hr.mono fun _ _ _ => trivial
  have hs : Shared default s := Reach.runs hs0 hruns
  have hchanges : MySql.Changes (forged.key default) s.db (t.writes ∪ s.db) := by
    refine .inl fun heq => ?_
    rw [hdb'] at heq
    rw [row, heq] at hrow
    exact absurd (hold.symm.trans hrow) (by decide)
  obtain ⟨x, hx, _, hall⟩ := ((capabilities_are_exact default).1 s hs started _ rfl).1 _
    hleave _ hchanges
  obtain ⟨htoken, hplan⟩ := hall _ rfl (by decide +kernel)
  have hforged := forged_before
  rw [← hdb] at hforged
  exact ⟨s0, s, hs0, hruns, ⟨_, hleave, hchanges, x, hx, htoken, hplan not_false⟩,
    ((capabilities_are_exact default).1 s0 hs0 _ _ rfl).2 hforged hidle 1 (hfree 1 (Nat.le_refl 1))⟩

/-- **An abort with another plan.** A value with the key and the token of a
reservation, but another plan, aborts the reserved execution. -/
theorem abort_accepts_another_plan : aborts.Forall fun op => ∃ s s' : SharedSystem,
    Shared default s ∧ Runs .readCommitted (Python.eitherProgram default) s s' ∧
    s'.db = (solo .readCommitted (MySql.Sample.clockAt 2) (Python.eitherProgram default op)
      s.db none).db ∧
    ∃ x x', row s.db = some x ∧ row s'.db = some x' ∧ x.state = .prepared ∧
      x'.state = .aborted ∧ x.token = forged.token ∧
      x.plan.digest default ≠ forged.plan.digest default := by
  refine List.forall_iff_forall_mem.mpr fun op hop => ?_
  obtain ⟨s, s', hs, hruns, hdb, hdb'⟩ := reach_runs_serve .readCommitted
    (Python.eitherProgram default) MySql.Sample.installed_spec [issued]
    [(MySql.Sample.clockAt 2, op)]
  rw [← hdb, serve_one] at hdb'
  replace hdb : s.db = before := by
    delta before
    exact hdb
  obtain ⟨hrow, hrow'⟩ := forged_aborts op hop
  rw [← hdb] at hrow hrow'
  rw [← hdb'] at hrow'
  obtain ⟨x, hx, hfields⟩ := map_eq_some_iff.mp hrow
  obtain ⟨x', hx', haborted⟩ := map_eq_some_iff.mp hrow'
  simp only [Prod.mk.injEq, decide_eq_true_eq, decide_eq_false_iff_not] at hfields
  exact ⟨s, s', hs, hruns, hdb', x, x', hx, hx', hfields.1, haborted, hfields.2⟩

end Stores

end ReliableMessaging
