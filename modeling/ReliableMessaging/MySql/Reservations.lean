import ReliableMessaging.MySql.System
import ReliableMessaging.TxLang.Shape

/-!
# Reservations

Any number of callers may ask for one request at the same time. One of them
issues an execution and gets its token; the others are shown the active
execution, or are told that the stored input is another. What each call
answers is compared here with the rows at its beginning and at its end
(`Answers`).
-/

namespace ReliableMessaging.MySql

open Transaction TxLang List Sample

variable {H : Sha256} {s : Store} {r : Request}

/-! ## A losing call changes no row -/

/-- The answers of a call that has lost: someone else's execution, or the
message that the stored input is another. -/
def Losing : Except Err Reservation → Prop
  | .ok got => got.acquired = false
  | .error err => err = .inputConflict

/-- A statement that stays inside the transaction. -/
def Inside (st : Stmt Val Returned) : Prop := st.publishes = false ∧ st.asks = false

/-- A statement that tells no caller of a loss. -/
def NoLoss (st : Stmt Val Returned) : Prop :=
  ∀ op res, st = .call (.returned op res) → ¬ Losing res

theorem noLoss_of_asks {st : Stmt Val Returned} (h : st.asks = false) : NoLoss st := by
  rintro _ _ rfl
  cases h

section Programs

theorem inside_insert {rows : Tables} : Inside (.insert rows) := ⟨rfl, rfl⟩

theorem all_insert {row : Row} {v : Val row} :
    (insert row v : Code Err Val Noted Bool).run.All Inside :=
  all_send inside_insert

theorem all_rollback :
    (send .driver .rollback : Code Err Val Noted Unit).run.All Inside :=
  all_send ⟨rfl, rfl⟩

theorem all_commit : (commit : Code Err Val Noted Unit).run.All fun st => st.asks = false :=
  all_send rfl

theorem all_select : (select : Code Err Val Noted Tables).run.All Inside := all_send ⟨rfl, rfl⟩

theorem all_bindingIn {writer : Bool} :
    (bindingIn s writer : Code Err Val Noted Unit).run.All Inside :=
  all_bind (all_send ⟨rfl, rfl⟩) fun _ => all_found fun _ _ =>
    all_bind all_refuse fun _ => all_refuse

theorem all_lookupIn : (lookupIn H r false : Code Err Val Noted Reservation).run.All Inside := by
  refine all_bind (all_bind all_select fun _ => all_pure) fun _ => all_found fun _ _ => ?_
  refine all_bind all_refuse fun _ => all_bind all_refuse fun _ => all_bind all_select fun _ => ?_
  exact all_found fun _ _ => all_bind all_lift fun _ => all_bind all_lift fun _ => all_pure

theorem all_lookup : (lookup H s r : Code Err Val Noted Reservation).run.All Inside :=
  all_bind all_refuse fun _ => all_withTx ⟨rfl, rfl⟩ ⟨rfl, rfl⟩
    (all_bind all_bindingIn fun _ => all_mapErr all_lookupIn)

variable {p : FrozenPlan} {o : ReserveOptions}

theorem all_newExecution {fence : Nat} :
    (newExecution s p fence o : Code Err Val Noted Execution).run.All Inside := by
  refine all_bind (all_send ⟨rfl, rfl⟩) fun _ => ?_
  exact all_bind (all_bind (all_send ⟨rfl, rfl⟩) fun _ => all_pure) fun _ => all_pure

theorem all_insertWitnesses {key : Bytes} {refs : List Reference} :
    (insertWitnesses H key refs : Code Err Val Noted Unit).run.All Inside := by
  induction refs with
  | nil => trivial
  | cons ref refs ih =>
    exact all_bind all_lift fun _ => all_bind all_insert fun _ => all_bind all_refuse fun _ => ih

theorem all_insertExecution {e : Execution} :
    (insertExecution H r e : Code Err Val Noted Unit).run.All Inside :=
  all_bind all_lift fun _ => all_bind all_insert fun _ =>
    all_bind all_refuse fun _ => all_insertWitnesses

/-- What the reserving transaction may still do after its commit: it has won,
or it does not know. -/
theorem reserve_endsAfter :
    (reserve H s r p o : Code Err Val Noted Reservation).run.EndsAfter fun res => ¬ Losing res := by
  have hquiet : ∀ st, Inside st → st.publishes = false := fun _ h => h.1
  refine endsAfter_quiet_bind all_refuse fun _ => endsAfter_quiet_bind all_lift fun _ => ?_
  refine endsAfter_bind (endsAfter_withTx ?_) fun won => ?_
  · refine endsAfter_quiet_bind (all_bindingIn.mono hquiet) fun _ => ?_
    refine endsAfter_quiet_bind (all_newExecution.mono hquiet) fun e => ?_
    refine endsAfter_quiet_bind (all_insert.mono hquiet) fun fresh => ?_
    cases fresh with
    | false => exact .of_all (all_bind (all_rollback.mono hquiet) fun _ => all_pure)
    | true =>
      refine endsAfter_quiet_bind (all_insertExecution.mono hquiet) fun _ => ?_
      refine ⟨fun _ reply => ?_, fun reply => ?_⟩
      · cases reply with
        | none => exact ⟨fun err heq => by cases heq; exact nofun, nofun⟩
        | some _ =>
          refine ⟨nofun, fun won heq => ?_⟩
          cases heq
          exact nofun
      · cases reply <;> trivial
  · cases won with
    | some got => trivial
    | none => exact .of_all (all_lookup.mono hquiet)

theorem reserve_all :
    (reserve H s r p o : Code Err Val Noted Reservation).run.All fun st => st.asks = false := by
  have hin : ∀ st, Inside st → st.asks = false := fun _ h => h.2
  refine all_bind all_refuse fun _ => all_bind all_lift fun _ => all_bind ?_ fun won => ?_
  · refine all_withTx rfl rfl (all_bind (all_bindingIn.mono hin) fun _ => ?_)
    refine all_bind (all_newExecution.mono hin) fun e =>
      all_bind (all_insert.mono hin) fun fresh => ?_
    refine all_ite (all_bind (all_insertExecution.mono hin) fun _ => ?_) ?_
    · exact all_bind all_commit fun _ => all_pure
    · exact all_bind (all_rollback.mono hin) fun _ => all_pure
  · cases won with
    | some got => trivial
    | none => exact all_lookup.mono hin

/-- A call never answers with a loss once it has tried to commit. -/
theorem answering_allAfter {op : Op} {x : Code Err Val Noted Reservation}
    (hx : x.run.All fun st => st.asks = false)
    (hends : x.run.EndsAfter fun res => ¬ Losing res) : (answering op x).AllAfter NoLoss := by
  refine Prog.AllAfter.bind (hx.mono fun _ h => noLoss_of_asks h)
    (hends.mono fun res hres => ⟨?_, fun _ => trivial⟩)
    fun _ => ⟨nofun, fun _ => trivial⟩
  intro op' res' heq
  cases heq
  exact hres

end Programs

/-! ## One call, from its beginning to its answer -/

/-- The request of a `Reserve` or a `Lookup`. -/
def Op.request : Op → Option Request
  | .reserve _ r _ _ => some r
  | .lookup _ r => some r
  | _ => none

/-- Errors of a `Reserve` or a `Lookup` that has not come as far as the stored
request: the database or the binding fails it, or the plan that a `Reserve`
offers is not one for its request or cannot be stored. -/
def Op.Refused (err : Err) : Op → Prop
  | .reserve _ r p _ => Unstored err ∨ r.match p = .error err
  | .lookup _ _ => Unreached err
  | _ => False

/-- The operation starts as call `n` at `s1`, and at `s2` it answers. -/
structure Answers (H : Sha256) (op : Op) (n : Nat) (s1 s2 : StoreSystem)
    (res : Except Err Reservation) : Prop where
  served : Served H s1
  unused : s1.procs n = none
  runs : Runs .readCommitted (program H) (s1.spawned (program H) n op) s2
  answer : ∃ s3 ans, Step .readCommitted (program H) s2 s3 ∧
    s3.log = s2.log ++ [(n, .called (.returned op res) ans)]

variable {op : Op} {n : Nat} {s1 s2 : StoreSystem} {res : Except Err Reservation}

theorem Answers.started (h : Answers H op n s1 s2 res) :
    Served H (s1.spawned (program H) n op) :=
  Reach.step h.served (.spawn n op h.unused) trivial

/-- What is proved of the operation's program from the rows it starts at, its
answer satisfies. -/
theorem Answers.allowed [H.CollisionFree] {Allow : Ctx Val Noted → Returned → Prop}
    (h : Answers H op n s1 s2 res)
    (hwp : wp (contract H Allow) .readCommitted (fun _ _ => True) (program H op) (fun _ _ => True)
      ⟨s1.db, none, []⟩) : ∃ c : Ctx Val Noted, c.db = s2.db ∧ Allow c (.returned op res) := by
  obtain ⟨s3, ans, hstep, hlog⟩ := h.answer
  have hstart : (s1.spawned (program H) n op).procs n = some ⟨op, program H op, none⟩ :=
    Function.update_self _ _ _
  have hempty : logOf n s1.log = [] := (Reach.good (sound H) h.served).fresh n h.unused
  have htracked : Tracked (clients H) .readCommitted (fun _ _ _ => True) (fun _ _ _ => True) Allow
      (s1.spawned (program H) n op) n ⟨op, program H op, none⟩ := by
    unfold Tracked
    rw [show (s1.spawned (program H) n op).log = s1.log from rfl, hempty]
    exact hwp
  obtain ⟨pr, hp, _, ht⟩ := Runs.tracks (sound H) h.started hstart htracked h.runs.anyBy
  exact ⟨_, rfl, ht.called (h.started.runs h.runs).inv hstep hp hlog⟩

/-- What an operation answers alone, it answers in an idle system. -/
theorem answers_of_solo {x : Code Err Val Noted Reservation} (hcode : program H op = answering op x)
    (hs : Served H s1) (hidle : s1.Idle) (hp : s1.procs n = none) (w : World Noted)
    (htx : (solo .readCommitted w x.run s1.db none).tx.isNone = true)
    (hres : (solo .readCommitted w x.run s1.db none).value = res) :
    ∃ s2, Answers H op n s1 s2 res ∧ s2.db = (solo .readCommitted w x.run s1.db none).db := by
  have hany : FreeBetween .readCommitted (program H) (fun _ _ _ => True) anyStep :=
    fun _ _ _ _ _ => trivial
  have hquiet := (hidle.spawned (program H) n op).quiet n
  have hstart : (s1.spawned (program H) n op).procs n = some ⟨op, answering op x, none⟩ := by
    rw [← hcode]
    exact Function.update_self _ _ _
  have hrun := runs_solo hany w hquiet hstart nofun fun _ _ _ => trivial
  rw [show (s1.spawned (program H) n op).db = s1.db from rfl,
    Option.isNone_iff_eq_none.mp htx] at hrun
  generalize solo .readCommitted w x.run s1.db none = r at hrun hres
  subst hres
  have hask : ((s1.spawned (program H) n op).put n ⟨op, ignore (ask (.returned op r.value)), none⟩
      r.db r.log).procs n = some ⟨op, .step (.call (.returned op r.value)) fun _ => .ret (),
        none⟩ :=
    Function.update_self _ _ _
  have hstep := step_exec .readCommitted (program H) w (hquiet.put _ r.db r.log) hask nofun
  exact ⟨_, ⟨hs, hp, hrun.runs, _, _, hstep, rfl⟩, rfl⟩

/-- The stored input is another when a `Lookup` starts, or when a `Reserve` ends. -/
def Op.Conflicting (H : Sha256) (r : Request) (σ ν : Tables) : Op → Prop
  | .reserve _ _ _ _ => Conflicts H r ν
  | _ => Conflicts H r σ

/-- What a `Reserve` or a `Lookup` of a request may answer that starts at `σ`. -/
def repliesFrom (H : Sha256) (r : Request) (σ : Tables) (c : Ctx Val Noted) : Returned → Prop
  | .returned op res => (∀ got, res = .ok got → Current H r got σ c.db ∧
      (got.acquired = false → got.execution.token = 0)) ∧
    ∀ err, res = .error err → op.Conflicting H r σ c.db → err = .inputConflict ∨ op.Refused err

variable {σ ν : Tables} {got : Reservation} {i : Nat}

theorem wp_replies [H.CollisionFree] (hi : Inv H σ) (hr : op.request = some r) :
    wp (contract H (repliesFrom H r σ)) .readCommitted (fun _ _ => True) (program H op)
      (fun _ _ => True) ⟨σ, none, []⟩ := by
  cases op with
  | reserve s r' p o =>
    cases hr
    refine wp_answering (wp_reserve rfl fun _ _ _ _ _ => trivial) ?_
    rintro res c' σ' ⟨_, hres, herr⟩ henv _
    refine ⟨fun got heq => ?_, fun err heq => herr err heq σ' henv.later⟩
    obtain ⟨hcurrent, hacquired⟩ := hres got heq
    refine ⟨hcurrent.later henv.later, fun hnot => ?_⟩
    rcases hacquired with ⟨hyes, _⟩ | ⟨_, htoken⟩
    · exact absurd (hyes.symm.trans hnot) nofun
    · exact htoken
  | lookup s r' =>
    cases hr
    by_cases hc : Conflicts H r σ
    · refine wp_answering (wp_lookup_conflict rfl hi hc) ?_
      rintro res c' σ' ⟨_, err, rfl, herr⟩ _ _
      refine ⟨nofun, fun err' heq _ => ?_⟩
      cases heq
      exact herr
    · refine wp_answering (wp_lookup rfl) ?_
      rintro res c' σ' ⟨_, hres⟩ henv _
      refine ⟨fun got heq => ?_, fun _ _ h => absurd h hc⟩
      exact ⟨(hres got heq).later henv.later, fun _ => (hres got heq).token⟩
  | _ => cases hr

/-! ## The active execution -/

/-- The fence of a request moves by one at a time, so between a state before
which it was at most `f` and one at which it is at least `f` it was `f`. -/
theorem Served.moment [H.CollisionFree] (h : Served H s1)
    (hruns : Runs .readCommitted (program H) s1 s2) {rk : Bytes} {f : Nat} (hpos : 0 < f)
    (hbefore : ∀ q a, ActiveAt s1.db rk q a → a.fence ≤ f)
    (hafter : ∃ q a, ActiveAt s2.db rk q a ∧ f ≤ a.fence) :
    ∃ s q a, Runs .readCommitted (program H) s1 s ∧ Runs .readCommitted (program H) s s2 ∧
      ActiveAt s.db rk q a ∧ a.fence = f := by
  induction hruns with
  | refl =>
    obtain ⟨q, a, ha, hle⟩ := hafter
    exact ⟨s1, q, a, .refl, .refl, ha, Nat.le_antisymm (hbefore q a ha) hle⟩
  | @tail s s' hruns hs ih =>
    by_cases hthere : ∃ q a, ActiveAt s.db rk q a ∧ f ≤ a.fence
    · obtain ⟨m, q, a, hm, hm', ha, hf⟩ := ih hthere
      exact ⟨m, q, a, hm, hm'.tail hs, ha, hf⟩
    · have hreach := h.runs hruns
      obtain ⟨q, a, ha, hle⟩ := hafter
      refine ⟨s', q, a, hruns.tail hs, .refl, ha, ?_⟩
      rcases hreach.step hs with heq | ⟨htrans, _⟩
      · exact absurd ⟨q, a, heq ▸ ha, hle⟩ hthere
      · rcases htrans.active_from hreach.inv ha with hone | ⟨q0, a0, ha0, hnext⟩
        · omega
        · have hlt : ¬ f ≤ a0.fence := fun hle0 => hthere ⟨q0, a0, ha0, hle0⟩
          omega

theorem Inv.plan_of_fence (hi : Inv H σ) {k k' : Bytes} {x x' : ExecutionRow}
    (hx : σ.lookup (.execution k) = some x) (hx' : σ.lookup (.execution k') = some x')
    (hrk : x.requestKey = x'.requestKey) (hf : x.fence = x'.fence) : x.plan = x'.plan := by
  cases hi.perFence k k' x x' hx hx' hrk hf
  cases hx.symm.trans hx'
  rfl

theorem Current.moment [H.CollisionFree] (h : Answers H op n s1 s2 res)
    (hc : Current H r got s1.db s2.db) :
    ∃ s q a, Runs .readCommitted (program H) (s1.spawned (program H) n op) s ∧
      Runs .readCommitted (program H) s s2 ∧ ActiveAt s.db (r.keyDigest H) q a ∧
      a.plan = got.execution.plan ∧ a.fence = got.execution.fence := by
  have hi2 : Inv H s2.db := (h.started.runs h.runs).inv
  obtain ⟨k, x, hx, hrk, hplan, hfence⟩ := hc.stored
  have hpos : 0 < got.execution.fence := hfence ▸ (hi2.execution k x hx).fence.1
  obtain ⟨s, q, a, hs, hs', ha, hf⟩ := h.started.moment h.runs hpos hc.notBefore hc.notAfter
  refine ⟨s, q, a, hs, hs', ha, ?_, hf⟩
  have hreach := h.started.runs hs
  obtain ⟨a', ha', hown⟩ := hreach.inv.active ha.request
  cases ha.execution.symm.trans ha'.execution
  obtain ⟨x', hx', hlater⟩ := later_execution (Reach.later (sound H) hreach hs'.anyBy) ha.execution
  have hsame := hlater.columns
  have heq := hi2.plan_of_fence hx' hx (by rw [hsame, hrk]; exact hown)
    (by rw [hsame, hfence]; exact hf)
  rw [hsame] at heq
  exact heq.trans hplan

/-- Until a request is advanced, that is its first plan. -/
theorem Current.first (hi : Inv H ν) (hc : Current H r got σ ν) {q : RequestRow} {a : ExecutionRow}
    (ha : ActiveAt ν (r.keyDigest H) q a) (hone : a.fence = 1) : got.execution.plan = a.plan := by
  obtain ⟨k, x, hx, hrk, hplan, hfence⟩ := hc.stored
  obtain ⟨q', a', ha', hle⟩ := hc.notAfter
  cases ha.request.symm.trans ha'.request
  cases ha.execution.symm.trans ha'.execution
  obtain ⟨a'', ha'', hown⟩ := hi.active ha.request
  cases ha.execution.symm.trans ha''.execution
  have hpos := (hi.execution k x hx).fence.1
  rw [← hplan]
  exact hi.plan_of_fence hx ha.execution (hrk.trans hown.symm) (by omega)

/-! ## Tokens -/

/-- Requests with the same owner, scope and key. -/
def SameRequest (r r' : Request) : Prop :=
  r.owner = r'.owner ∧ r.scope = r'.scope ∧ r.key = r'.key

theorem SameRequest.keyDigest {r r' : Request} (h : SameRequest r r') :
    r.keyDigest H = r'.keyDigest H := by
  obtain ⟨ho, hs, hk⟩ := h
  rw [Request.keyDigest, Request.keyDigest, Request.preimage, Request.preimage, ho, hs, hk]

/-- The entry of the log with this number returns a token. -/
def Granted (log : List (Nat × Entry Val Noted)) (i : Nat) (got : Reservation) : Prop :=
  got.execution.token ≠ 0 ∧
    ∃ n op ans, log[i]? = some (n, .called (.returned op (.ok got)) ans)

/-- The reservation with a token in this entry. -/
def grantedAt (log : List (Nat × Entry Val Noted)) (i : Nat) : Option Reservation :=
  match log[i]? with
  | some (_, .called (.returned _ (.ok got)) _) =>
    if got.execution.token = 0 then none else some got
  | _ => none

theorem grantedAt_spec {log : List (Nat × Entry Val Noted)} (h : grantedAt log i = some got) :
    Granted log i got := by
  unfold grantedAt at h
  split at h
  next n op found ans hentry =>
    split at h
    · cases h
    · cases h
      exact ⟨‹_›, n, op, ans, hentry⟩
  · cases h

theorem Issued.not_again {e e' : Execution} {σ' ν' τ : Tables} (hi : Inv H τ) (h : Issued H e σ ν)
    (h' : Issued H e' σ' ν') (hbetween : Later (clients H) ν σ') (hlater : Later (clients H) ν' τ)
    (hr : SameRequest (requestFor e.plan) (requestFor e'.plan)) (hf : e.fence = e'.fence) :
    False := by
  obtain ⟨x, hx, hxlater⟩ := later_execution hbetween h.row
  obtain ⟨y, hy, hylater⟩ := later_execution hlater (h'.old hx)
  obtain ⟨y', hy', hylater'⟩ := later_execution hlater h'.row
  have hcols := (hxlater.trans hylater).columns
  have hcols' := hylater'.columns
  have hkey : e.key H = e'.key H := by
    refine hi.perFence _ _ y y' hy hy' ?_ ?_
    · rw [hcols, hcols']
      exact hr.keyDigest
    · rw [hcols, hcols']
      exact hf
  rw [hkey] at hx
  exact absurd (h'.fresh.symm.trans hx) nofun

variable {s : StoreSystem}

/-- An answer that returns a token follows the one commit of its own call. -/
theorem Served.granted [H.CollisionFree] (h : Served H s) {n : Nat} {op : Op}
    {ans : Option (Noted (.returned op (.ok got)))}
    (hlog : s.log[i]? = some (n, .called (.returned op (.ok got)) ans))
    (htoken : got.execution.token ≠ 0) : got.acquired = true ∧ ∃ before after,
      logOf n (s.log.take i) = [.committed before after] ∧ Issued H got.execution before after := by
  obtain ⟨hi, hget⟩ := List.getElem?_eq_some_iff.mp hlog
  have hsplit : s.log = s.log.take i ++ (n, .called (.returned op (.ok got)) ans) ::
      s.log.drop (i + 1) := by
    rw [← hget, ← drop_eq_getElem_cons hi, take_append_drop]
  obtain ⟨σ, tx, _, hallow⟩ := (Reach.history (sound H) h).allowed hsplit
  rcases hallow got rfl with hacquired | ⟨_, hzero⟩
  · exact hacquired
  · exact absurd hzero htoken

theorem Served.granted_once [H.CollisionFree] (h : Served H s) {j : Nat} {got' : Reservation}
    (hij : i < j) (hi : Granted s.log i got) (hj : Granted s.log j got')
    (hr : SameRequest (requestFor got.execution.plan) (requestFor got'.execution.plan))
    (hf : got.execution.fence = got'.execution.fence) : False := by
  obtain ⟨htoken, n, op, ans, hlog⟩ := hi
  obtain ⟨htoken', n', op', ans', hlog'⟩ := hj
  obtain ⟨_, a, b, hown, hissued⟩ := h.granted hlog htoken
  obtain ⟨_, a', b', hown', hissued'⟩ := h.granted hlog' htoken'
  have hmem : (n, Entry.committed a b) ∈ s.log :=
    mem_of_mem_take (mem_logOf.mp (hown ▸ mem_cons_self))
  have hmem' : (n', Entry.committed a' b') ∈ s.log :=
    mem_of_mem_take (mem_logOf.mp (hown' ▸ mem_cons_self))
  have hhistory := Reach.history (sound H) h
  by_cases hn : n = n'
  · -- the first answer would stand in the log of the second call before its commit
    subst hn
    have hfirst : (n, Entry.called (.returned op (.ok got)) ans) ∈ s.log.take j := by
      refine mem_of_getElem? (i := i) ?_
      rw [List.getElem?_take_of_lt hij]
      exact hlog
    have hentry := mem_logOf.mpr hfirst
    rw [hown'] at hentry
    cases mem_singleton.mp hentry
  · have hne : (n, (Entry.committed a b : Entry Val Noted)) ≠ (n', .committed a' b') :=
      fun heq => hn (congrArg Prod.fst heq)
    obtain ⟨pre, post, hsplit⟩ := append_of_mem hmem
    obtain ⟨pre', post', hsplit'⟩ := append_of_mem hmem'
    rcases pair_sublist hmem hmem' hne with hsub | hsub
    · exact hissued.not_again h.inv hissued' (hhistory.committed_order hsub)
        (hhistory.committed_at hsplit').2 hr hf
    · exact hissued'.not_again h.inv hissued (hhistory.committed_order hsub)
        (hhistory.committed_at hsplit).2 ⟨hr.1.symm, hr.2.1.symm, hr.2.2.symm⟩ hf.symm

/-- Reservations are idempotent and keep the capability secret.

A token is returned with an acquired reservation, and by one answer only for
each request and fence. Every answer of a `Reserve` or `Lookup` carries the
plan that was active at some moment of the call, which is the first one until
the request is advanced, and has no token unless it is acquired. Where another
input is stored no call succeeds, and it fails with `inputConflict` if it comes as
far as the stored request. And no step of a losing call changes a row or leaves a
commit in doubt. -/
theorem reservations_are_idempotent (H : Sha256) [H.CollisionFree] :
    (∀ s, Served H s → ∀ i got, Granted s.log i got → got.acquired = true ∧
      ∀ j got', Granted s.log j got' →
        SameRequest (requestFor got.execution.plan) (requestFor got'.execution.plan) →
        got.execution.fence = got'.execution.fence → i = j) ∧
    ∀ op r n s1 s2 res, op.request = some r → Answers H op n s1 s2 res →
      (∀ got, res = .ok got → (got.acquired = false → got.execution.token = 0) ∧
        (∃ s q a, Runs .readCommitted (program H) (s1.spawned (program H) n op) s ∧
          Runs .readCommitted (program H) s s2 ∧ ActiveAt s.db (r.keyDigest H) q a ∧
          a.plan = got.execution.plan ∧ a.fence = got.execution.fence) ∧
        ∀ q a, ActiveAt s2.db (r.keyDigest H) q a → a.fence = 1 → got.execution.plan = a.plan) ∧
      (Conflicts H r s2.db → ∀ got, res ≠ .ok got) ∧
      (∀ err, res = .error err → op.Conflicting H r s1.db s2.db →
        err = .inputConflict ∨ op.Refused err) ∧
      (Losing res → ∀ s s', Runs .readCommitted (program H) (s1.spawned (program H) n op) s →
        Step .readCommitted (program H) s s' → Runs .readCommitted (program H) s' s2 →
        s'.procs n ≠ s.procs n → s'.db = s.db ∧ s'.orphans = s.orphans) := by
  refine ⟨fun s hs i got hgot => ⟨?_, fun j got' hgot' hr hf => ?_⟩,
    fun op r n s1 s2 res hr h => ?_⟩
  · obtain ⟨htoken, n, op, ans, hlog⟩ := hgot
    exact (hs.granted hlog htoken).1
  · rcases Nat.lt_trichotomy i j with hlt | heq | hlt
    · exact (hs.granted_once hlt hgot hgot' hr hf).elim
    · exact heq
    · exact (hs.granted_once hlt hgot' hgot ⟨hr.1.symm, hr.2.1.symm, hr.2.2.symm⟩ hf.symm).elim
  · obtain ⟨c, hdb, hreplies, hconflict⟩ := h.allowed (wp_replies h.served.inv hr)
    rw [hdb] at hreplies hconflict
    have hi2 : Inv H s2.db := (h.started.runs h.runs).inv
    refine ⟨fun got heq => ?_, fun hc got heq => ?_, hconflict,
      fun hlosing s s' hbefore hstep hafter => ?_⟩
    · obtain ⟨hcurrent, htoken⟩ := hreplies got heq
      exact ⟨htoken, hcurrent.moment h, fun q a => hcurrent.first hi2⟩
    · exact (hreplies got heq).1.not_conflicts hi2 hc
    · obtain ⟨s3, ans, hanswer, hlog⟩ := h.answer
      have hstart : (s1.spawned (program H) n op).procs n = some ⟨op, program H op, none⟩ :=
        Function.update_self _ _ _
      refine Runs.unpublished (P := NoLoss) hstart ?_ (fun hno => hno op res rfl hlosing) hbefore
        hstep hafter (Step.asking hanswer hlog)
      cases op with
      | reserve => exact answering_allAfter reserve_all reserve_endsAfter
      | lookup =>
        exact answering_allAfter (all_lookup.mono fun _ h => h.2)
          (.of_all (all_lookup.mono fun _ h => h.1))
      | _ => cases hr

namespace Sample

/-- The reserved request with another input. -/
def other : Request := { requestFor (plan "x" "k") with inputHash := .replicate 32 1 }

def again : Code Err Val Noted Reservation :=
  reserve default store (requestFor (plan "y" "k")) (plan "y" "k") options

def misled : Code Err Val Noted Reservation := lookup default store other

/-- What a later call does alone. -/
def later (x : Code Err Val Noted Reservation) (σ : Tables) :
    After Val Noted (Except Err Reservation) :=
  solo .readCommitted (clockAt 2) x.run σ none

/-- What the second caller is told. -/
def lost : Reservation := ⟨{ execution "x" "k" 1 with token := 0 }, false, .prepared⟩

end Sample

set_option maxRecDepth 100000 in
/-- A request is reserved, and one answer has the token. A second `Reserve` is
told the first plan, without it; with another input the request is refused. -/
theorem reservations_are_idempotent_granted :
    ∃ s got, Served default s ∧ Granted s.log 1 got ∧ got.acquired = true ∧
      (∀ j got', Granted s.log j got' →
        SameRequest (requestFor got.execution.plan) (requestFor got'.execution.plan) →
        got.execution.fence = got'.execution.fence → 1 = j) ∧
      (∃ s2, Answers default (reserved "y" "k").2 1 s s2 (.ok lost) ∧ Losing (.ok lost) ∧
        lost.execution.token = 0) ∧
      ∃ s2 res, Answers default (.lookup store other) 1 s s2 res ∧ res = .error .inputConflict ∧
        Conflicts default other s2.db ∧ ∀ got, res ≠ .ok got := by
  obtain ⟨s, hr, hidle, hfree, hdb, hlog⟩ := reach_serve .readCommitted (program default)
    (fun _ _ => True) installed_spec [reserved "x" "k"] (mayServe_true _ _ _ _ _ _)
  have hs : Served default s := hr.mono fun _ _ _ => trivial
  have hp := hfree 1 (Nat.le_refl 1)
  have hran : (grantedAt s.log 1).isSome = true := by
    rw [hlog]
    decide +kernel
  have hagain : (later again s.db).tx.isNone = true ∧ (later again s.db).value = .ok lost := by
    rw [hdb]
    decide +kernel
  have hmisled : (later misled s.db).tx.isNone = true ∧
      (later misled s.db).value = .error .inputConflict ∧
      ∃ q ∈ ((later misled s.db).db.lookup (.request (other.keyDigest default)) : Option RequestRow),
        q.owner = other.owner ∧ q.scope = other.scope ∧ q.idempotencyKey = other.key ∧
        q.inputHash ≠ other.inputHash := by
    rw [hdb]
    decide +kernel
  obtain ⟨got, hgot⟩ := Option.isSome_iff_exists.mp hran
  have hgranted := grantedAt_spec hgot
  obtain ⟨hacquired, hone⟩ := (reservations_are_idempotent default).1 s hs 1 got hgranted
  refine ⟨s, got, hs, hgranted, hacquired, hone, ?_, ?_⟩
  · have hcode : program default (reserved "y" "k").2 = answering (reserved "y" "k").2 again := rfl
    obtain ⟨s2, hanswers, _⟩ := answers_of_solo hcode hs hidle hp (clockAt 2) hagain.1
      hagain.2
    have hlost := (reservations_are_idempotent default).2 _ _ _ _ _ _ rfl hanswers
    exact ⟨s2, hanswers, rfl, (hlost.1 lost rfl).1 rfl⟩
  · have hcode : program default (.lookup store other) = answering (.lookup store other) misled := rfl
    obtain ⟨s2, hanswers, hdb2⟩ := answers_of_solo hcode hs hidle hp (clockAt 2) hmisled.1
      hmisled.2.1
    have hconflicts : Conflicts default other s2.db := hdb2 ▸ hmisled.2.2
    have hrefused := (reservations_are_idempotent default).2 _ _ _ _ _ _ rfl hanswers
    exact ⟨s2, _, hanswers, rfl, hconflicts, hrefused.2.1 hconflicts⟩

end ReliableMessaging.MySql
