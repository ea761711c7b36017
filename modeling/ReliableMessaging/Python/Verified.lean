import ReliableMessaging.MySql.Verified.Host
import ReliableMessaging.MySql.Verified.Receipt
import ReliableMessaging.Python.Store

/-!
# The Python store keeps the contract

The operations of the Python store under the contract of the transaction
tables, beside those of the Go store. Each goes through the same states of its
open transaction (`Starting`, `Aborting`, `Reserving`, `Advancing`, `BoundRow`),
so what is proved of these is used as it stands. Two things are new. A session
commits also where nothing is staged. And the rows that plain reads see may be
old: rows that were committed once (`Reads.Old`), under the transaction's own
writes. An ended execution has ended for good, so evidence of an abort is good
on either isolation level; and what a transaction has written itself it always
reads.
-/

namespace ReliableMessaging.Python

open Transaction TxLang MySql List

open Relation (ReflTransGen)

variable {Ev : Type} {Ans : Ev → Type}
variable {H : Sha256} {Allow : Ctx Val Ans → Ev → Prop} {A G : Tables → Tables → Prop}
variable {α : Type} {c : Ctx Val Ans} {t : Tx Val} {e : Execution} {ref : Reference} {v : Reads}
variable {s : MySQLTransactionStore}

theorem formed_of_constructed (h : constructed e = true) : e.Formed := by
  simp only [constructed, Bool.and_eq_true, decide_eq_true_eq] at h
  obtain ⟨⟨⟨hplan, hpos⟩, hmax⟩, hepoch⟩ := h
  exact ⟨hplan, ⟨hpos, hmax⟩, hepoch⟩

/-! ## Plain reads -/

theorem reads_select : (v.select : Code Err Val Ans _).run.All fun st => st.reads = true := by
  unfold Reads.select
  split
  · exact all_pure
  · exact all_bind (all_send rfl) fun _ => all_pure

variable {level : Level} {reads capability writer : Bool} {active key : Bytes} {r : Request}
variable {refs : List Reference} {σ : Tables} {Q : Tables × Reads → Ctx Val Ans → Prop}
variable {binding : Store} {body : Reads → Code Err Val Ans α} {p : Transaction.FrozenPlan}
variable {o : ReserveOptions}

theorem reads_firstReads :
    (firstReads level reads : Code Err Val Ans _).run.All fun st => st.reads = true := by
  cases reads
  · exact all_pure
  · exact all_bind reads_select fun _ => all_pure

theorem reads_load :
    (load H v active capability : Code Err Val Ans _).run.All fun st => st.reads = true :=
  all_bind reads_select fun _ => all_bind all_lift fun _ => all_pure

theorem reads_loadAll {keys : List Bytes} :
    (loadAll H v keys : Code Err Val Ans _).run.All fun st => st.reads = true := by
  induction keys generalizing v with
  | nil => exact all_pure
  | cons key keys ih => exact all_bind reads_load fun _ => all_bind ih fun _ => all_pure

theorem reads_lookupIn :
    (lookupIn H v r false : Code Err Val Ans _).run.All fun st => st.reads = true := by
  refine all_bind (all_bind reads_select fun _ => all_pure) fun read => ?_
  split
  · exact all_pure
  · exact all_bind all_refuse fun _ => all_bind all_refuse fun _ => all_bind reads_load fun _ =>
      all_bind all_lift fun _ => all_pure

theorem reads_checkWitnesses :
    (checkWitnesses H v refs : Code Err Val Ans _).run.All fun st => st.reads = true := by
  induction refs generalizing v with
  | nil => exact all_pure
  | cons ref refs ih =>
    refine all_bind (all_bind reads_select fun _ => all_pure) fun _ => all_found fun _ _ => ?_
    exact all_bind all_refuse fun _ => ih

/-- What plain reads see was committed once. -/
def Reads.Old (H : Sha256) (v : Reads) (σ : Tables) : Prop :=
  ∀ db, v.seen = some db → Inv H db ∧ ReflTransGen (Trans H) db σ

theorem Reads.Old.later {ν : Tables} (h : v.Old H σ) (hl : ReflTransGen (Trans H) σ ν) :
    v.Old H ν :=
  fun db hdb => ⟨(h db hdb).1, (h db hdb).2.trans hl⟩

theorem wpc_select_old (ht : c.tx = some t) (hempty : ∀ r, t.writes.lookup r = none)
    (hi : Inv H c.db) (hold : v.Old H c.db)
    (h : ∀ db v' σ, Env (pact H G Allow) A (some t) c.db σ → Inv H σ → Inv H db →
      ReflTransGen (Trans H) db σ → v'.Old H σ → Q (db, v') ⟨σ, some t, c.log⟩) :
    wpc (pact H G Allow) .readCommitted A v.select Q c := by
  obtain ⟨db0, tx, log⟩ := c
  subst ht
  unfold Reads.select
  split
  next db _ hseen =>
    obtain ⟨hidb, hlater⟩ := hold db hseen
    exact wpc_pure (h db v db0 (Env.refl _ _) hi hidb hlater hold)
  · refine wpc_bind (wpc_selectRows fun σ henv hi' => wpc_pure ?_)
    rw [show view .readCommitted σ (some t) = t.writes ∪ σ from rfl, union_of_empty hempty]
    refine h σ _ σ henv hi' hi' .refl fun db hdb => ?_
    cases hdb
    exact ⟨hi', .refl⟩

theorem wpc_select_own {r : Row} {x : Val r} (ht : c.tx = some t) (hi : Inv H c.db)
    (hstaged : t.writes.lookup r = some x) (hseen : ∀ db, v.seen = some db → db.lookup r = some x)
    (h : ∀ db v' σ, Env (pact H G Allow) A (some t) c.db σ → Inv H σ → db.lookup r = some x →
      Q (db, v') ⟨σ, some t, c.log⟩) :
    wpc (pact H G Allow) .readCommitted A v.select Q c := by
  obtain ⟨db0, tx, log⟩ := c
  subst ht
  unfold Reads.select
  split
  next db _ hdb =>
    exact wpc_pure (h db v db0 (Env.refl _ _) hi (hseen db hdb))
  · refine wpc_bind (wpc_selectRows fun σ henv hi' => wpc_pure ?_)
    exact h _ _ σ henv hi' (lookup_union_of_some hstaged)

theorem loadFrom_eq_ok {db : Tables} {res : Reservation}
    (h : loadFrom H db active capability = .ok res) :
    ∃ row : ExecutionRow, db.lookup (.execution active) = some row ∧
      res.execution.plan = row.plan ∧ res.execution.key H = active ∧ res.state = row.state := by
  unfold loadFrom at h
  split at h
  · cases h
  next row hrow =>
    split at h
    · cases h
    · split at h
      · cases h
      next hkey =>
        cases h
        refine ⟨row, hrow, ?_, ?_, rfl⟩
        · cases capability <;> rfl
        · cases capability <;> exact not_not.mp hkey

theorem wpc_load_own {Q : Reservation × Reads → Ctx Val Ans → Prop} {x : ExecutionRow}
    (ht : c.tx = some t) (hi : Inv H c.db) (hstaged : t.writes.lookup (.execution key) = some x)
    (hseen : ∀ db, v.seen = some db → db.lookup (.execution key) = some x)
    (h : ∀ res v' σ, Env (pact H G Allow) A (some t) c.db σ → Inv H σ →
      res.execution.plan = x.plan → Q (res, v') ⟨σ, some t, c.log⟩) :
    wpc (pact H G Allow) .readCommitted A (load H v key capability) Q c := by
  refine wpc_bind (wpc_select_own ht hi hstaged hseen fun db v' σ henv hi' hdb => ?_)
  refine wpc_bind (wpc_lift fun res hres => wpc_pure ?_)
  obtain ⟨row, hrow, hplan, _, _⟩ := loadFrom_eq_ok hres
  cases hdb.symm.trans hrow
  exact h res v' σ henv hi' hplan

/-! ## Sessions -/

theorem wpc_bindingIn {Q : Unit → Ctx Val Ans → Prop} (ht : c.tx = some t)
    (hw : t.writes.lookup (.binding binding.owner) = none)
    (h : ∀ σ (b : BindingRow), Env (pact H G Allow) A (some t) c.db σ → Inv H σ →
      σ.lookup (.binding binding.owner) = some b → Admits binding b writer →
      Q () ⟨σ, some (t.acquire (.binding binding.owner) .share), c.log⟩) :
    wpc (pact H G Allow) .readCommitted A (bindingIn binding writer) Q c := by
  refine wpc_lock_found ht fun σ b henv hi hb => wpc_bind (wpc_refuse fun hstore => ?_)
  refine wpc_bind (wpc_refuse fun hepoch => wpc_refuse fun hschema => ?_)
  simp only [Bool.and_eq_false_iff, decide_eq_false_iff_not, ne_eq, not_not] at hstore hepoch hschema
  exact h σ b henv hi ((lookup_union_of_none hw).symm.trans hb)
    ⟨hstore, hschema, fun hwriter => hepoch.resolve_left (by simp [hwriter])⟩

/-- A session: its body starts with nothing staged and the binding row held,
and what it leaves staged is committed. -/
theorem wp_session {Q : Except Err α → Ctx Val Ans → Prop} (hnone : c.tx = none)
    (herr : ∀ e σ log, Q (.error e) ⟨σ, none, log⟩)
    (h : ∀ σ t (b : BindingRow), Later (pact H G Allow) c.db σ → Inv H σ →
      (∀ r, t.writes.lookup r = none) → t.Holds (.binding s.binding.owner) →
      σ.lookup (.binding s.binding.owner) = some b → Admits s.binding b writer →
      wpc (pact H G Allow) .readCommitted A (body { level := s.sessions }) (fun a c' => ∃ t',
      c'.tx = some t' ∧ ∀ σ', Env (pact H G Allow) A (some t') c'.db σ' → Inv H σ' →
      Trans H σ' (t'.writes ∪ σ') ∧ G σ' (t'.writes ∪ σ') ∧ ∀ ν,
      Later (pact H G Allow) (t'.writes ∪ σ') ν → Inv H ν →
      Q (.ok a) ⟨ν, none, c'.log ++ [.committed σ' (t'.writes ∪ σ')]⟩) ⟨σ, some t, c.log⟩) :
    wp (pact H G Allow) .readCommitted A (session s writer body).run Q c := by
  refine wp_withTx hnone herr fun σ0 henv0 _ => ?_
  refine wpc_bind (wpc_bindingIn rfl (AList.lookup_empty _) fun σ b henv hi hb hlive => ?_)
  refine wpc_bind (wpc_mono ?_ (h σ _ b (henv0.later.trans henv.later) hi
    (fun r => AList.lookup_empty r) (holds_acquire _ _ _) hb hlive))
  rintro a c' ⟨t', ht', hcommit⟩
  refine wpc_bind (wpc_commitTx ht' (fun σ' henv' hi' => ?_)
    fun σ' henv' hi' => wpc_pure fun ν hν hiν => ?_)
  · exact ⟨(hcommit σ' henv' hi').1, (hcommit σ' henv' hi').2.1⟩
  · exact (hcommit σ' henv' hi').2.2 ν hν.later hiν

theorem wp_session_reads {Q : Except Err α → Ctx Val Ans → Prop} (hnone : c.tx = none)
    (hG : ∀ σ, G σ σ) (herr : ∀ e σ log, Q (.error e) ⟨σ, none, log⟩)
    (hbody : ∀ v, (body v).run.All fun st => st.reads = true)
    (h : ∀ a σ log, Q (.ok a) ⟨σ, none, log⟩) :
    wp (pact H G Allow) .readCommitted A (session s writer body).run Q c := by
  refine wp_session hnone herr fun σ t _ _ hi hempty _ _ _ => ?_
  refine wpc_reads (hbody _) hi fun a σ1 _ _ => ⟨t, rfl, fun σ2 _ _ => ?_⟩
  rw [union_of_empty hempty]
  refine ⟨?_, hG σ2, fun ν _ _ => h a ν _⟩
  have htrans := trans_of_empty (H := H) (σ := σ2) hempty
  rwa [union_of_empty hempty] at htrans

/-! ## Lookup and evidence -/

theorem wp_lookup (hnone : c.tx = none) (hG : ∀ σ, G σ σ) :
    wp (pact H G Allow) .readCommitted A (lookup H s r).run (fun _ c' => c'.tx = none) c :=
  wp_refuse_bind hnone fun _ => wp_session_reads hnone hG (fun _ _ _ => rfl)
    (fun _ => all_bind reads_lookupIn fun _ => all_pure) fun _ _ _ => rfl

theorem decided_of_evidence (hi : Inv H σ) {st : State}
    (h : evidenceOf H ref σ = some ⟨ref, st, st⟩) : Decided H ref st σ := by
  unfold evidenceOf at h
  split at h
  next x w hx hw =>
    simp only [Option.some.injEq, Evidence.mk.injEq] at h
    obtain ⟨hwr, rfl, _⟩ := h
    exact decided_of_witness hi hx hw hwr
  · cases h

theorem wp_evidence (hnone : c.tx = none) (hG : ∀ σ, G σ σ) :
    wp (pact H G Allow) .readCommitted A (evidence H s ref).run (fun r c' => c'.tx = none ∧
      ∀ st, st ≠ .prepared → r = .ok (some ⟨ref, st, st⟩) → Decided H ref st c'.db) c := by
  refine wp_refuse_bind ⟨hnone, nofun⟩ fun _ => ?_
  refine wp_session hnone (fun _ _ _ => ⟨rfl, nofun⟩) fun σ t _ _ hi hempty _ _ _ => ?_
  refine wpc_bind (wpc_bind (wpc_select_old rfl hempty hi nofun
    fun db v' σ1 _ _ hidb hlater _ => wpc_pure (wpc_pure ?_)))
  refine ⟨t, rfl, fun σ2 henv2 _ => ⟨trans_of_empty hempty, ?_, fun ν hν _ => ⟨rfl, ?_⟩⟩⟩
  · rw [union_of_empty hempty]
    exact hG σ2
  · intro st hst heq
    rw [union_of_empty hempty] at hν
    exact (decided_of_evidence hidb (Except.ok.inj heq)).later hst
      (hlater.trans (henv2.later.trans hν))

/-! ## Begin, abort and reconcile -/

theorem wp_beginPrepare [H.CollisionFree] (hnone : c.tx = none) (he : constructed e = true)
    (hG : ∀ σ ν, BeginsPrepare H e σ ν → G σ ν) :
    wp (pact H G Allow) .readCommitted A (beginPrepare H s e).run (fun r c' => c'.tx = none ∧
      ∀ u, r = .ok u → ∃ before after, c'.log = c.log ++ [.committed before after] ∧
        Starts H e before after ∧ Later (pact H G Allow) after c'.db) c := by
  have hformed := formed_of_constructed he
  refine wp_refuse_bind ⟨hnone, nofun⟩ fun hguard => ?_
  simp only [Bool.or_eq_false_iff, decide_eq_false_iff_not, ne_eq, not_not] at hguard
  obtain ⟨⟨_, howner⟩, hepoch⟩ := hguard
  refine wp_session hnone (fun _ _ _ => ⟨rfl, nofun⟩) fun σ1 t b _ _ hempty hheld hb hlive => ?_
  refine wpc_starting rfl hempty hheld hb (hlive.epoch rfl) hformed howner hepoch
    fun σ2 t' row hi2 hst2 => ?_
  refine wpc_bind (wpc_load_own rfl hi2 hst2.staged nofun fun res v' σ3 henv3 hi3 hplan => ?_)
  refine wpc_refuse fun hdigest => ⟨t', rfl, fun σ4 henv4 _ => ?_⟩
  have hst3 := hst2.env henv3
  have hsame : row.plan = e.plan := by
    refine Transaction.FrozenPlan.digest_inj (H := H) (hi3.execution _ row hst3.stored).plan
      hformed.plan ?_
    rw [← not_not.mp (of_decide_eq_false hdigest), hplan]
  have hst4 := hst3.env henv4
  refine ⟨hst4.trans, hG _ _ (hst4.begins hsame), fun ν hν _ => ⟨rfl, fun u _ => ?_⟩⟩
  exact ⟨σ4, _, rfl, ⟨row, hst4.stored, hst4.notStarted, hsame, lookup_union_of_some hst4.staged⟩,
    hν⟩

/-- A plan that was stored has branches, so the references that are as many are those of branches. -/
theorem length_of_references (hp : p.valid = true)
    (h : p.input.branches.length = (e.references H).length) :
    p.input.branches.length = e.plan.input.branches.length := by
  by_cases hformed : e.Formed
  · rw [h, Execution.references_eq hformed, length_map]
  · have hnil : e.references H = [] :=
      eq_nil_iff_forall_not_mem.mpr fun _ hr => hformed (Execution.formed_of_mem hr)
    have hsome := p.accepted_of_valid hp
    rw [hnil] at h
    simp [Transaction.planAccepted, eq_nil_of_length_eq_zero h] at hsome

theorem wp_abort [H.CollisionFree] {expired : Bool} (hnone : c.tx = none)
    (hG : ∀ σ ν, ν = σ ∨ owned e = true ∧ Aborts H s.binding e σ ν → G σ ν) :
    wp (pact H G Allow) .readCommitted A (abort H s e expired).run (fun r c' => c'.tx = none ∧
      (r = .ok true → AbortedAt H e c'.db)) c := by
  refine wp_refuse_bind ⟨hnone, nofun⟩ fun hform => ?_
  simp only [Bool.or_eq_false_iff, Bool.not_eq_false', decide_eq_false_iff_not, ne_eq,
    not_not] at hform
  refine wp_session hnone (fun _ _ _ => ⟨rfl, nofun⟩) fun σ1 t _ _ _ hempty hheld hb hadmits => ?_
  refine wpc_bind (wpc_clockIf fun σ2 now henv2 => ?_)
  refine wpc_abortingRow rfl hempty ((Entered.of_admits hheld hb hadmits).env henv2)
    (fun σ3 t3 hempty3 => ?_) fun σ3 t3 row _ hrow hwits => ?_
  · refine wpc_ite (fun _ => wpc_pure ⟨t3, rfl, fun σ4 _ _ => ⟨trans_of_empty hempty3, ?_, ?_⟩⟩)
      fun h => absurd Nat.zero_ne_one h
    · exact hG _ _ (.inl (union_of_empty hempty3))
    · exact fun ν _ _ => ⟨rfl, nofun⟩
  refine wpc_ite (fun h => absurd rfl h) fun _ => ?_
  refine wpc_bind (wpc_aborting rfl hrow hwits fun σ4 t4 hi4 hab => ?_)
  refine wpc_bind (wpc_refuse fun hcount => wpc_pure ⟨t4, rfl, fun σ5 henv5 hi5 => ?_⟩)
  have hab5 := hab.env hi4 hi5 henv5
  have hbranches := length_of_references (hi4.execution _ row hab.stored).plan
    (by simpa using hcount)
  refine ⟨hab5.trans, hG _ _ (.inr ⟨hform.2, hab5.aborts hform.1 hbranches⟩),
    fun ν hν _ => ⟨rfl, fun _ => ?_⟩⟩
  obtain ⟨row', hrow', hlater⟩ := later_execution hν hab5.ends.after
  exact ⟨row', hrow', hlater.ended State.noConfusion⟩

theorem wp_reconcileLoop [H.CollisionFree] {es : List Execution} {n : Nat} (hnone : c.tx = none)
    (hG : ∀ e σ ν, ν = σ ∨ Aborts H s.binding e σ ν → G σ ν) :
    wp (pact H G Allow) .readCommitted A (reconcileLoop H s es n).run
      (fun _ c' => c'.tx = none) c := by
  induction es generalizing c n with
  | nil => exact hnone
  | cons e es ih =>
    refine wp_code_bind (wp_mono ?_ (wp_abort hnone fun σ ν h => hG e σ ν (h.imp_right And.right)))
    rintro r c' ⟨hnone', _⟩
    exact ⟨fun _ _ => hnone', fun _ _ => ih hnone'⟩

theorem wp_reconcileOnce [H.CollisionFree]
    {order : List (Bytes × ExecutionRow) → List (Bytes × ExecutionRow)} {limit : Nat}
    (hnone : c.tx = none) (hG : ∀ σ ν, (ν = σ ∨ ∃ e, Aborts H s.binding e σ ν) → G σ ν) :
    wp (pact H G Allow) .readCommitted A (reconcileOnce H s order limit).run
      (fun _ c' => c'.tx = none) c := by
  refine wp_refuse_bind hnone fun _ => wp_code_bind ?_
  refine wp_session_reads hnone (fun σ => hG σ σ (.inl rfl)) (fun _ _ _ => ⟨fun _ _ => rfl, nofun⟩)
    (fun v => ?_) fun es σ log => ⟨nofun, fun _ _ => ?_⟩
  · exact all_bind (all_bind (all_send rfl) fun _ => all_pure) fun _ =>
      all_bind reads_select fun _ => reads_loadAll
  · exact wp_reconcileLoop rfl fun e σ ν h => hG σ ν (h.imp_right fun h => ⟨e, h⟩)

/-! ## Reserve -/

theorem wpc_new {fence : Nat} {Q : Execution → Ctx Val Ans → Prop}
    (h : ∀ σ token lease, Env (pact H G Allow) A c.tx c.db σ → Q ⟨p, fence, s.binding.writerEpoch,
      token, lease⟩ ⟨σ, c.tx, c.log⟩) :
    wpc (pact H G Allow) .readCommitted A (new s p fence o) Q c := by
  refine wpc_bind (wpc_utcTimestamp fun σ1 now henv1 _ => ?_)
  exact wpc_bind (wpc_random fun σ2 n henv2 _ => wpc_pure (h σ2 _ _ (henv1.trans henv2)))

theorem insertsWitnesses_insertWitnesses :
    InsertsWitnesses H key (insertWitnesses H key : List Reference → Code Err Val Ans Unit) :=
  ⟨rfl, Json.pythonEscape, .duplicateKey, fun _ _ => rfl⟩

theorem wp_reserveNew [H.CollisionFree] (hnone : c.tx = none) (hreq : requestFor p = r)
    (howner : r.owner = s.binding.owner) (hG : ∀ e σ ν, Issued H e σ ν → G σ ν) :
    wp (pact H G Allow) .readCommitted A (reserveNew H s r p o).run
      (fun _ c' => c'.tx = none) c := by
  refine wp_session hnone (fun _ _ _ => rfl) fun σ1 t b _ _ hempty hheld hb hlive => ?_
  refine wpc_bind (wpc_new fun σ2 token lease henv2 => ?_)
  refine wpc_bind (wpc_insertRow rfl (fun _ _ _ _ => wpc_bind (wpc_refuse nofun))
    fun σ3 henv3 _ habsent => wpc_bind (wpc_refuse fun _ => ?_))
  rw [lookup_union_of_none (hempty _)] at habsent
  generalize he : (⟨p, 1, s.binding.writerEpoch, token, lease⟩ : Execution) = e
  have hep : requestFor e.plan = r := by
    rw [← he]
    exact hreq
  have heo : e.plan.input.owner = s.binding.owner := (congrArg Request.owner hep).trans howner
  have hb3 : σ3.lookup (.binding s.binding.owner) = some b := by
    rw [henv3.held hheld, henv2.held hheld]
    exact hb
  refine wpc_bind (wpc_reserving insertsWitnesses_insertWitnesses rfl hempty hheld hb3 (hlive.epoch rfl)
    habsent hep heo (by rw [← he]) (by rw [← he]) fun σ4 t4 _ hres => wpc_pure ?_)
  refine ⟨t4, rfl, fun σ5 henv5 _ => ⟨(hres.env henv5).trans, ?_, fun _ _ _ => rfl⟩⟩
  exact hG e _ _ (hres.env henv5).issued

theorem wp_reserve [H.CollisionFree] (hnone : c.tx = none)
    (hG : ∀ σ ν, (ν = σ ∨ ∃ e, Issued H e σ ν) → G σ ν) :
    wp (pact H G Allow) .readCommitted A (reserve H s r p o).run
      (fun _ c' => c'.tx = none) c := by
  refine wp_refuse_bind hnone fun _ => wp_lift_bind (fun _ _ => hnone) fun _ hmatch => ?_
  refine wp_refuse_bind hnone fun howner => wp_tryCatch ?_
  refine wp_mono ?_ (wp_reserveNew hnone (Request.match_eq_ok hmatch).2
    (not_not.mp (of_decide_eq_false howner)) fun e σ ν h => hG σ ν (.inr ⟨e, h⟩))
  intro res c' hnone'
  refine ⟨fun _ _ => hnone', fun err _ => ?_⟩
  by_cases hdup : err = .duplicateKey
  · rw [if_pos hdup]
    refine wp_code_bind (wp_mono ?_ (wp_lookup hnone' fun σ => hG σ σ (.inl rfl)))
    intro res c'' hnone''
    refine ⟨fun _ _ => hnone'', fun o _ => ?_⟩
    cases o <;> exact hnone''
  · rw [if_neg hdup]
    exact hnone'

/-! ## Retry and replan -/

theorem wpc_lookupIn_locked {Q : Option Reservation × Reads → Ctx Val Ans → Prop}
    (ht : c.tx = some t) (hempty : ∀ r, t.writes.lookup r = none) (hold : v.Old H c.db)
    (hmiss : ∀ σ t', Q (none, v) ⟨σ, some t', c.log⟩)
    (hhit : ∀ σ (q : RequestRow) (row : ExecutionRow) res v',
      Env (pact H G Allow) A (some t) c.db σ → Inv H σ → σ.lookup (.request (r.keyDigest H)) =
      some q → q.request = r → σ.lookup (.execution q.activeExecution) = some row →
      res.execution.plan = row.plan → res.execution.key H = q.activeExecution → v'.Old H σ →
      Q (some res, v') ⟨σ, some (t.acquire (.request (r.keyDigest H)) .update), c.log⟩) :
    wpc (pact H G Allow) .readCommitted A (lookupIn H v r true) Q c := by
  refine wpc_bind (wpc_bind (wpc_lock ht (fun σ1 _ _ _ => wpc_pure (wpc_pure (hmiss σ1 t)))
    fun σ1 q henv1 hi1 hq => wpc_pure ?_))
  refine wpc_bind (wpc_refuse fun hid => wpc_bind (wpc_refuse fun hhash => wpc_bind (wpc_bind ?_)))
  refine wpc_select_old rfl hempty hi1 (hold.later henv1.later)
    fun db v' σ2 henv2 hi2 _ hlater hold' => ?_
  refine wpc_bind (wpc_lift fun res hres => wpc_pure (wpc_bind (wpc_lift fun _ _ => wpc_pure ?_)))
  obtain ⟨x, hx, hplan, hkey, _⟩ := loadFrom_eq_ok hres
  obtain ⟨row, hrow, hl⟩ := later_execution hlater hx
  have hq1 : σ1.lookup (.request (r.keyDigest H)) = some q :=
    (lookup_union_of_none (hempty _)).symm.trans hq
  have hreq : q.request = r := by
    simp only [Bool.or_eq_false_iff, decide_eq_false_iff_not, ne_eq, not_not] at hid hhash
    obtain ⟨⟨ho, hs⟩, hk⟩ := hid
    cases r
    simp only [RequestRow.request, Request.mk.injEq]
    exact ⟨ho, hs, hk, hhash⟩
  refine hhit σ2 q row res v' (henv1.trans henv2.of_acquire) hi2
    ((henv2.held (holds_acquire _ _ _)).trans hq1) hreq hrow ?_ hkey hold'
  rw [hplan, hl.columns]

theorem wpc_oldEvidence {Q : List (Option Evidence) → Ctx Val Ans → Prop} (ht : c.tx = some t)
    (hempty : ∀ r, t.writes.lookup r = none) (hi : Inv H c.db) (hold : v.Old H c.db)
    (h : ∀ old σ, Env (pact H G Allow) A (some t) c.db σ → Inv H σ →
      (∀ ref ev, (ref, some ev) ∈ refs.zip old → ev.executionState ≠ .prepared →
      ∃ row : ExecutionRow, σ.lookup (.execution (ref.executionKey H)) = some row ∧
      row.state = ev.executionState) → Q old ⟨σ, some t, c.log⟩) :
    wpc (pact H G Allow) .readCommitted A (oldEvidence H v refs) Q c := by
  induction refs generalizing c v Q with
  | nil =>
    obtain ⟨db, tx, log⟩ := c
    subst ht
    exact wpc_pure (h [] db (Env.refl _ _) hi nofun)
  | cons ref refs ih =>
    refine wpc_bind (wpc_bind (wpc_select_old ht hempty hi hold
      fun db v' σ1 henv1 hi1 _ hlater hold1 => wpc_pure ?_))
    refine wpc_bind (ih rfl hi1 hold1 fun old σ2 henv2 hi2 hrest => wpc_pure ?_)
    refine h _ σ2 (henv1.trans henv2) hi2 fun ref' ev hmem hended => ?_
    rcases mem_cons.mp hmem with heq | hmem
    · obtain ⟨rfl, hev⟩ := Prod.mk.inj heq
      unfold evidenceOf at hev
      split at hev
      next x w hx _ =>
        cases hev
        obtain ⟨row, hrow, hl⟩ := later_execution (hlater.trans henv2.later) hx
        exact ⟨row, hrow, hl.ended hended⟩
      · cases hev
    · exact hrest ref' ev hmem hended

theorem aborted_of_decideLocal {evidence : List (Option Evidence)}
    (h : decideLocal refs evidence = .aborted) :
    ∃ ref ev, (ref, some ev) ∈ refs.zip evidence ∧ ev.executionState = .aborted := by
  unfold decideLocal at h
  split at h
  · cases h
  next ref refs =>
    split at h
    · cases h
    rename_i hlen
    split at h
    · cases h
    dsimp only at h
    split at h
    · cases h
    split at h
    next hall =>
      cases evidence with
      | nil => simp at hlen
      | cons ev evidence =>
        rw [zipWith_cons_cons, all_cons, Bool.and_eq_true, decide_eq_true_eq] at hall
        have hfirst := hall.1
        cases ev with
        | none => cases hfirst
        | some ev =>
          refine ⟨ref, ev, mem_cons_self, ?_⟩
          simp only [resolve] at hfirst
          split at hfirst
          · cases hfirst
          split at hfirst
          · cases hfirst
          split at hfirst
          next hstates =>
            simp only [Bool.and_eq_true, decide_eq_true_eq] at hstates
            exact hstates.1
          · cases hfirst
    · cases h

theorem validateAdvance_eq_ok {previous : Execution} {candidate : Transaction.FrozenPlan}
    {evidence : List (Option Evidence)} {replan : Bool}
    (h : validateAdvance H previous candidate evidence replan = .ok ()) :
    previous.fence < maxFence ∧ (requestFor previous.plan).match candidate = .ok () ∧
      decideLocal (previous.references H) evidence = .aborted ∧
      (candidate.digest H = previous.plan.digest H ∨
        candidate.input.operationID ≠ previous.plan.input.operationID) := by
  unfold validateAdvance at h
  split at h
  · cases h
  rename_i hfence
  split at h
  · cases h
  rename_i hmatch
  split at h
  · cases h
  rename_i haborted
  refine ⟨Nat.lt_of_not_le hfence, hmatch, not_not.mp haborted, ?_⟩
  split at h
  · split at h
    · cases h
    next hop =>
      exact .inr hop
  · split at h
    · cases h
    next hdigest =>
      exact .inl (not_not.mp hdigest)

theorem wp_advance [H.CollisionFree] {previous : Execution} {replan : Bool} (hnone : c.tx = none)
    (hprev : constructed previous = true) (hG : ∀ e σ ν, Issued H e σ ν → G σ ν) :
    wp (pact H G Allow) .readCommitted A (advance H s previous p o replan).run
      (fun _ c' => c'.tx = none) c := by
  have hformed := formed_of_constructed hprev
  refine wp_refuse_bind hnone fun _ => wp_refuse_bind hnone fun howner => ?_
  refine wp_session hnone (fun _ _ _ => rfl) fun σ1 t b _ _ hempty hheld hb hlive => ?_
  refine wpc_bind (wpc_lookupIn_locked rfl hempty nofun (fun _ _ => wpc_bind wpc_throw)
    fun σ2 q row res v2 henv2 hi2 hq hqr hrow hplan hkey hold2 => ?_)
  refine wpc_bind (wpc_found fun current hcurrent => wpc_bind (wpc_refuse fun hcur => ?_))
  cases hcurrent
  simp only [Bool.or_eq_false_iff, decide_eq_false_iff_not, ne_eq, not_not] at hcur howner
  -- the active execution is the one the caller names
  have hactive : q.activeExecution = previous.key H := hkey.symm.trans hcur.1
  have hold : row.plan = previous.plan := by
    refine Transaction.FrozenPlan.digest_inj (H := H) (hi2.execution _ row hrow).plan
      hformed.plan ?_
    rw [← hplan]
    exact hcur.2
  obtain ⟨_, hop, _, hfence⟩ :=
    hi2.row_of_key (e := previous) (hactive ▸ hrow) hformed.plan hformed.fence.2
  refine wpc_bind (wpc_oldEvidence rfl hempty hi2 hold2 fun old σ3 henv3 hi3 hended => ?_)
  refine wpc_bind (wpc_lift fun _ hvalidate => ?_)
  obtain ⟨hmax, hmatch, hdecided, hkind⟩ := validateAdvance_eq_ok hvalidate
  obtain ⟨hpv, hreq⟩ := Request.match_eq_ok hmatch
  -- and its evidence says that it is aborted
  obtain ⟨row3, hrow3, hl3⟩ := later_execution henv3.later hrow
  have haborted : row3.state = .aborted := by
    obtain ⟨ref, ev, hmem, hst⟩ := aborted_of_decideLocal hdecided
    obtain ⟨br, _, rfl⟩ := Execution.mem_references (of_mem_zip hmem).1
    obtain ⟨x, hx, hxs⟩ := hended _ ev hmem (by rw [hst]; exact State.noConfusion)
    rw [show (previous.plan.referenceOf H previous.fence previous.writerEpoch br).executionKey H =
      previous.key H from rfl, ← hactive] at hx
    cases hx.symm.trans hrow3
    exact hxs.trans hst
  refine wpc_bind (wpc_new fun σ4 token lease henv4 => ?_)
  generalize he : (⟨p, previous.fence + 1, s.binding.writerEpoch, token, lease⟩ : Execution) = e
  have hep : e.plan = p := by rw [← he]
  have hef : e.fence = previous.fence + 1 := by rw [← he]
  have hee : e.writerEpoch = s.binding.writerEpoch := by rw [← he]
  have hpo : e.plan.input.owner = s.binding.owner := by
    rw [hep]
    exact (congrArg Request.owner hreq).trans howner
  have hheld2 : (t.acquire (.request ((requestFor previous.plan).keyDigest H)) .update).Holds
      (.binding e.plan.input.owner) := by
    rw [hpo]
    exact hheld.acquire _ _
  have hlive2 : Live σ2 e.plan.input.owner e.writerEpoch := by
    refine ⟨b, ?_, hee ▸ hlive.epoch rfl⟩
    rw [hpo, henv2.held hheld]
    exact hb
  have hreqHeld : (t.acquire (.request ((requestFor previous.plan).keyDigest H)) .update).Holds
      (.request ((requestFor e.plan).keyDigest H)) := by
    rw [hep, hreq]
    exact holds_acquire _ _ _
  have hsucc3 : Succeeds H False e q row3 σ3 := by
    have hcols := hl3.columns
    refine ⟨?_, hqr.trans (by rw [hep, hreq]), hrow3, haborted, by rw [hef, hcols, hfence], ?_⟩
    · rw [henv3.held hreqHeld, hep, hreq]
      exact hq
    · rw [hep, hcols]
      refine hkind.imp (fun hdigest => ?_) fun hne => ⟨not_false, fun heq => hne (heq.trans hop)⟩
      exact (Transaction.FrozenPlan.digest_inj hpv hformed.plan hdigest).trans hold.symm
  obtain ⟨row4, hsucc4⟩ := hsucc3.env hreqHeld henv4
  refine wpc_advancing rfl insertsWitnesses_insertWitnesses (hep ▸ hreq) rfl hempty
    ⟨by omega, by omega⟩ (hee ▸ s.binding.epoch_required) hheld2
    ((hlive2.env hheld2 henv3).env hheld2 henv4) (holds_acquire _ _ _) hsucc4
    fun σ5 t5 n row5 hadv => wpc_pure ⟨t5, rfl, fun σ6 henv6 _ => ?_⟩
  obtain ⟨row6, hadv6⟩ := hadv.env henv6
  exact ⟨hadv6.trans, hG e _ _ hadv6.issued, fun _ _ _ => rfl⟩

/-! ## Guards and hosts -/

theorem wpc_guardBind [H.CollisionFree] {Q : Guard × Reads → Ctx Val Ans → Prop}
    (hconstructed : constructed e = true) (ht : c.tx = some t) (hi : Inv H c.db)
    (hok : HostOk c.db t)
    (h : ∀ v' σ t' row g, Inv H σ → BoundRow H e σ t t' row g → row.plan = e.plan →
      Q (⟨e, false⟩, v') ⟨σ, some t', c.log⟩) :
    wpc (pact H G Allow) .readCommitted A (bind H binding v e) Q c := by
  have hformed := formed_of_constructed hconstructed
  refine wpc_bind (wpc_refuse fun _ => wpc_bind (wpc_refuse fun hguard => ?_))
  simp only [Bool.or_eq_false_iff, decide_eq_false_iff_not, ne_eq, not_not] at hguard
  refine wpc_bind (wpc_bindingIn ht (hok.binding _) fun σ1 b henv1 hi1 hb hlive => ?_)
  have hok1 : HostOk σ1 (t.acquire (.binding binding.owner) .share) :=
    (hok.env hi hi1 henv1).more rfl fun r hr => hr.acquire _ _
  refine wpc_bind (wpc_utcTimestamp fun σ2 now henv2 hi2 => ?_)
  refine wpc_bind (wpc_bind (wpc_bumpGuard rfl hi2 (hok1.env hi1 hi2 henv2) (holds_acquire _ _ _)
    ((henv2.held (holds_acquire _ _ _)).trans hb) (hlive.epoch rfl) hformed hguard.1 hguard.2
    (fun σ rows hn => wpc_pure (wpc_bind (wpc_refuse fun h => ?_)))
    fun σ3 rows row g hi3 hbind _ hset => wpc_pure (wpc_bind (wpc_refuse fun _ => ?_))))
  · simp [hn] at h
  -- the row that the update wrote is the one that the next read sees
  refine wpc_bind (wpc_load_own (x := { row with guardVersion := g }) rfl hi3 ?_ (fun db hdb => ?_)
    fun res v4 σ4 henv4 hi4 hplan => wpc_bind (wpc_refuse fun hdigest => ?_))
  · rw [lookup_stage, hset, Option.some_or]
  · obtain ⟨old, _, rfl⟩ := Option.map_eq_some_iff.mp hdb
    exact lookup_union_of_some hset
  have hbind4 := hbind.env hi3 hi4 henv4
  have hsame : row.plan = e.plan := by
    have hstored := hi4.execution _ _ hbind4.touched.stored
    refine Transaction.FrozenPlan.digest_inj (H := H) hstored.plan hformed.plan ?_
    rw [← show res.execution.plan = row.plan from hplan]
    exact not_not.mp (of_decide_eq_false hdigest)
  refine wpc_bind (wpc_reads reads_checkWitnesses hi4 fun v5 σ5 henv5 hi5 => wpc_pure ?_)
  have hbind5 := hbind4.env hi4 hi5 henv5
  exact h v5 σ5 _ row g hi5 { hbind5 with } hsame

variable {announce : Execution → Code Err Val Ans Unit} {script : List HostStep}

theorem runsScript_hostSteps [H.CollisionFree] (hann : Announces H G Allow A announce) :
    RunsScript H G Allow A (fun e => constructed e = true) (hostSteps H announce) where
  nil := fun _ _ => rfl
  bind := by
    intro v binding e steps guards c t Q hmay ht hi hok h
    refine wpc_bind (wpc_guardBind hmay ht hi hok fun v1 σ1 t1 row g hi1 hbind hplan => ?_)
    refine wpc_bind (wpc_mono ?_ (hann e σ1 t1 row g _ hi1 hbind.touched hplan))
    rintro _ ⟨db, tx, log⟩ ⟨rfl, hi2, henv2⟩
    exact h v1 db t1 row g log hi2 (hbind.env hi1 hi2 henv2) hplan
  commitWitness := by
    intro v i steps guards c t Q ht hi hok hbound h
    refine wpc_bind (wpc_found fun g hg => ?_)
    exact wpc_bind (wpc_commitWitness ht hi hok (hbound g (mem_of_getElem? hg))
      fun σ1 t1 x v hi1 hok1 hother hx hx' => h g σ1 t1 x v hg hi1 hok1 hother hx hx')

theorem wp_rootTransaction [H.CollisionFree] {commits : Bool}
    (hann : Announces H G Allow A announce)
    (hmay : ∀ s e, .bind s e ∈ script → constructed e = true) (hnone : c.tx = none)
    (hG : ∀ σ ν, Hosts H script σ ν → G σ ν) :
    wp (pact H G Allow) .readCommitted A
      (rootTransaction H announce level reads script commits).run (fun _ c' => c'.tx = none) c := by
  refine wp_withTx hnone (fun _ _ _ => rfl) fun σ1 _ hi1 => ?_
  refine wpc_bind (wpc_reads reads_firstReads hi1 fun v σ2 _ hi2 => ?_)
  exact wpc_mono (fun _ _ _ _ _ _ => rfl) ((runsScript_hostSteps hann).wpc_root v hmay hG rfl hi2
    fun r => AList.lookup_empty r)

/-! ## Receipts -/

theorem wp_receipt {fn : Bytes → Bytes → State → WitnessRow → Code Err Val Ans Unit}
    {Q : Except Err Unit → Ctx Val Ans → Prop} (hnone : c.tx = none) (hearly : ∀ r, Q (.error r) c)
    (herr : ∀ r σ log, Q (.error r) ⟨σ, none, log⟩)
    (h : ∀ σ t (x : ExecutionRow) (w : WitnessRow), ref ∈ e.references H →
      x.token = e.token → (∀ r, t.writes.lookup r = none) →
      MySql.Checked s.binding σ t (e.key H) (branchKey H ref.branchID) ref x w →
      wpc (pact H G Allow) .readCommitted A
        (fn (e.key H) (branchKey H ref.branchID) x.state w)
        (fun a c' => ∃ t', c'.tx = some t' ∧
          ∀ σ', Env (pact H G Allow) A (some t') c'.db σ' → Inv H σ' →
            Trans H σ' (t'.writes ∪ σ') ∧ G σ' (t'.writes ∪ σ') ∧
            ∀ ν, Later (pact H G Allow) (t'.writes ∪ σ') ν → Inv H ν →
              Q (.ok a) ⟨ν, none, c'.log ++ [.committed σ' (t'.writes ∪ σ')]⟩)
        ⟨σ, some t, c.log⟩) :
    wp (pact H G Allow) .readCommitted A (receipt H s e ref fn).run Q c := by
  refine wp_refuse_bind (hearly _) fun hguard => ?_
  simp only [Bool.or_eq_false_iff, Bool.not_eq_false', contains_iff_mem] at hguard
  refine wp_session hnone herr fun σ1 t _ _ _ hempty hheld hb hadmits => ?_
  refine wpc_lock_found rfl fun σ2 x henv2 _ hx => wpc_bind (wpc_refuse fun htoken => ?_)
  refine wpc_lock_found rfl fun σ3 w henv3 _ hw => wpc_bind (wpc_refuse fun hchecked => ?_)
  simp only [Bool.or_eq_false_iff, decide_eq_false_iff_not, ne_eq, not_not] at hchecked htoken
  exact h σ3 _ x w hguard.1.2 htoken hempty (checked_of_locks hempty
    ((Entered.of_admits hheld hb hadmits).env henv2) hx henv3 hw hchecked.1 hchecked.2)

theorem wp_recordHalf {h : HalfReceipt} (hnone : c.tx = none) (hvalid : h.valid = true)
    (hG : ∀ σ ν, RecordsHalf H e ref h σ ν → G σ ν) :
    wp (pact H G Allow) .readCommitted A (recordHalf H s e ref h).run
      (fun r c' => c'.tx = none ∧ ∀ u, r = .ok u → ∃ before after,
        c'.log = c.log ++ [.committed before after] ∧ HalfRecorded H ref h after) c := by
  refine wp_receipt hnone (fun _ => ⟨hnone, nofun⟩) (fun _ _ _ => ⟨rfl, nofun⟩)
    fun σ1 t x w hmem htoken hempty hc => ?_
  refine wpc_bind (wpc_refuse fun hprepared => wpc_bind (wpc_refuse fun hkept => ?_))
  refine wpc_bind (wpc_utcTimestamp fun σ3 now henv3 _ => ?_)
  simp only [Bool.or_eq_false_iff, Bool.and_eq_false_iff, decide_eq_false_iff_not, ne_eq,
    not_not] at hprepared hkept
  refine wpc_bind (wpc_setWitness rfl hempty (hc.env henv3) fun σ4 t' n hc4 hsets => wpc_pure ?_)
  refine ⟨t', rfl, fun σ5 henv5 _ => ?_⟩
  have hset := hsets _ (hc4.env henv5).witness
  refine ⟨hset.trans rfl rfl, hG _ _ ?_, fun _ _ _ => ⟨rfl, fun _ _ => ?_⟩⟩
  · exact ⟨x, w, now, hset, (hc4.env henv5).toFinds, hmem, htoken, hprepared, hvalid, hkept.1.2,
      hkept.2, or_assoc.mp hkept.1.1⟩
  · obtain ⟨br, _, rfl⟩ := Execution.mem_references hmem
    exact ⟨σ5, _, rfl, _, hset.after, hc.reference, rfl, rfl, rfl, rfl⟩

theorem wp_recordFinal {f : FinalOutcome} {code : String} (hnone : c.tx = none)
    (hG : ∀ σ ν, RecordsFinal H e ref f code σ ν → G σ ν) :
    wp (pact H G Allow) .readCommitted A (recordFinal H s e ref f code).run
      (fun _ c' => c'.tx = none) c := by
  refine wp_refuse_bind hnone fun hvalid => ?_
  refine wp_receipt hnone (fun _ => hnone) (fun _ _ _ => rfl)
    fun σ1 t x w hmem htoken hempty hc => ?_
  refine wpc_bind (wpc_refuse fun hkept => wpc_bind (wpc_refuse fun hfits => ?_))
  refine wpc_bind (wpc_utcTimestamp fun σ3 now henv3 _ => ?_)
  simp only [Bool.or_eq_false_iff, Bool.and_eq_false_iff, decide_eq_false_iff_not, ne_eq,
    not_not] at hvalid hkept hfits
  have hended : x.state ≠ .prepared := by
    intro hst
    rw [hst] at hfits
    exact hfits.1.1.elim State.noConfusion State.noConfusion
  refine wpc_bind (wpc_setWitness rfl hempty (hc.env henv3) fun σ4 t' n hc4 hsets => wpc_pure ?_)
  refine ⟨t', rfl, fun σ5 henv5 _ => ?_⟩
  have hset := hsets _ (hc4.env henv5).witness
  refine ⟨hset.trans rfl rfl, hG _ _ ?_, fun _ _ _ => rfl⟩
  exact ⟨x, w, now, hset, (hc4.env henv5).toFinds, hmem, htoken, hended, hvalid.1,
    fun hf => hfits.1.2.resolve_left (not_not.mpr hf),
    fun hf => hfits.2.resolve_left (not_not.mpr hf), or_assoc.mp hkept⟩

theorem wp_recordRecoveryFinal {outcome : FinalOutcome} (hnone : c.tx = none)
    (hG : ∀ σ ν, RecordsRecovery H ref outcome σ ν → G σ ν) :
    wp (pact H G Allow) .readCommitted A (recordRecoveryFinal H s ref outcome).run
      (fun _ c' => c'.tx = none) c := by
  refine wp_lift_bind (fun _ _ => hnone) fun state hstate => wp_refuse_bind hnone fun _ => ?_
  refine wp_session hnone (fun _ _ _ => rfl) fun σ1 t _ _ _ hempty hheld hb hadmits => ?_
  refine wpc_lock_found rfl fun σ2 x henv2 _ hx => wpc_bind (wpc_refuse fun hexact => ?_)
  refine wpc_lock_found rfl fun σ3 w henv3 _ hw => wpc_bind (wpc_refuse fun hchecked => ?_)
  simp only [Bool.or_eq_false_iff, Bool.and_eq_false_iff, decide_eq_false_iff_not, ne_eq,
    not_not] at hexact hchecked
  obtain ⟨_, rfl⟩ := hexact
  obtain ⟨⟨href, hsame⟩, hkept⟩ := hchecked
  refine wpc_ite (fun _ => wpc_pure ⟨_, rfl, fun σ4 _ _ => ?_⟩) fun hnew => ?_
  · exact ⟨trans_of_empty hempty, hG _ _ (.inl (union_of_empty hempty)), fun _ _ _ => rfl⟩
  refine wpc_bind (wpc_utcTimestamp fun σ4 now henv4 _ => ?_)
  have hc := checked_of_locks hempty ((Entered.of_admits hheld hb hadmits).env henv2) hx henv3 hw
    href hsame
  refine wpc_bind (wpc_setWitness rfl hempty (hc.env henv4) fun σ5 t' n hc5 hsets => wpc_pure ?_)
  refine ⟨t', rfl, fun σ6 henv6 _ => ?_⟩
  have hset := hsets _ (hc5.env henv6).witness
  refine ⟨hset.trans rfl rfl, hG _ _ (.inr ?_), fun _ _ _ => rfl⟩
  exact ⟨x, w, now, hset, (hc5.env henv6).toFinds, hstate, hkept.resolve_right hnew⟩

end ReliableMessaging.Python
