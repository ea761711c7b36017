import ReliableMessaging.Outbox.Verified.MySql
import ReliableMessaging.Outbox.Verified.Mongo
import ReliableMessaging.TxLang.Sequential

/-!
# Claims are fenced

Any number of hosts and relays over one outbox, MySQL's or Mongo's, from any
rows whatever. A settlement is any call with any claim: nobody is trusted to
settle only what `ClaimDue` gave them.
-/

namespace ReliableMessaging.Outbox

open TxLang List

/-- The calls on an outbox; `Script` is what a host may do in a transaction. -/
inductive Call (Script : Type)
  | host (script : Script) (commits : Bool)
  | claimDue (limit lease : Int)
  | confirm (c : Claim)
  | retry (c : Claim) (delay : Int) (code : String)
  | quarantine (c : Claim) (code : String)

def Call.settles {Script : Type} : Call Script → Option Claim
  | .host _ _ => none
  | .claimDue _ _ => none
  | .confirm c => some c
  | .retry c _ _ => some c
  | .quarantine c _ => some c

/-- Run, and say what it has come to if it returned without an error. -/
def say {K α : Type} (x : Prog (Val K) Answer (Except Err α)) (evs : α → List Event) :
    Prog (Val K) Answer Unit :=
  x.bind fun
    | .ok a => markAll (evs a)
    | .error _ => .ret ()

def MySql.code (H : Sha256) : Call (List MySql.HostStep) → Prog (Val MySql.Id) Answer Unit
  | .host steps commits => say (hostTransaction H steps commits).run (·.map .appended)
  | .claimDue limit lease => say (claimDue H limit lease).run (·.map .claimed)
  | .confirm c => say (confirm c).run fun _ => [.settled c]
  | .retry c delay code => say (retry c delay code).run fun _ => [.settled c]
  | .quarantine c code => say (quarantine c code).run fun _ => [.settled c]

/-- The calls over Mongo; `ClaimDue` may return claims and an error. -/
def Mongo.code (B : Mongo.Bson) (H : Sha256) :
    Call (List (Message × Option Nat)) → Prog (Val (Mongo.Id B)) Answer Unit
  | .host steps commits => say (hostTransaction H steps commits).run (·.map .appended)
  | .claimDue limit lease => (claimDue H limit lease).bind fun r => markAll (r.1.map .claimed)
  | .confirm c => say (confirm c).run fun _ => [.settled c]
  | .retry c delay code => say (retry c delay code).run fun _ => [.settled c]
  | .quarantine c code => say (quarantine c code).run fun _ => [.settled c]

def anyRows {K : Type} (_ : Table K) : Prop := True

def MySql.Reachable (H : Sha256)
    (s : Sys (Val MySql.Id) Answer (Call (List MySql.HostStep))) : Prop :=
  Reach .readCommitted (MySql.code H) anyStep anyRows s

/-- What any run over Mongo reaches, from any documents. -/
def Mongo.Reachable (B : Mongo.Bson) (H : Sha256)
    (s : Sys (Val (Mongo.Id B)) Answer (Call (List (Message × Option Nat)))) : Prop :=
  Reach .snapshot (Mongo.code B H) anyStep anyRows s

/-! ## Every call keeps the contract -/

section Calls

variable {K : Type} [DecidableEq K] {H : Sha256} {parse : String → Option K} {strict : Prop}
variable {S : Record → Record → Prop} {A : Table K → Table K → Prop} {iso : Isolation}
variable {c : Ctx (Val K) Answer}

/-- What may be said for as long as it holds of the rows. -/
def Stands (H : Sha256) (parse : String → Option K) : Event → Table K → Prop
  | .claimed cl, σ => Claimed parse cl σ
  | .appended m, σ => Appended H m σ
  | .publish _, _ => True
  | .settled _, _ => False

theorem Stands.allow {ev : Event} (h : Stands H parse ev c.db) : allow H parse c ev := by
  cases ev with
  | claimed cl => exact h
  | appended m => exact h
  | publish cl => trivial
  | settled cl => exact h.elim

theorem Stands.onward {ev : Event} {σ ν : Table K} (h : Stands H parse ev σ) (ho : Onward σ ν) :
    Stands H parse ev ν := by
  cases ev with
  | claimed cl => exact Claimed.onward h ho
  | appended m => exact Appended.onward h ho
  | publish cl => trivial
  | settled cl => exact h.elim

theorem wp_marks {evs : List Event} (h : ∀ ev ∈ evs, Stands H parse ev c.db) :
    wp (pact H parse strict S) iso A (markAll evs) (fun _ _ => True) c :=
  wp_markAll (P := Stands H parse) (fun _ _ hev => hev.allow) (fun _ _ _ hev => hev.onward) h

theorem wp_say {α : Type} {x : Prog (Val K) Answer (Except Err α)} {evs : α → List Event}
    (h : wp (pact H parse strict S) iso A x
      (fun r c' => ∀ a, r = .ok a → ∀ ev ∈ evs a, Stands H parse ev c'.db) c) :
    wp (pact H parse strict S) iso A (say x evs) (fun _ _ => True) c := by
  refine wp_bind (wp_mono (fun r c' hr => ?_) h)
  cases r with
  | error e => trivial
  | ok a => exact wp_marks (hr a rfl)

/-- A settlement says so when it has settled its claim, and once. -/
theorem wp_saySettled {cl : Claim} {set : Nat → Record → Record} (hset : Columns set)
    (hstep : ∀ clock r, r.claimedBy cl clock = true → S r (r.settle set clock))
    (hnone : c.tx = none) (hlog : c.log = []) :
    wp (pact H parse False S) iso A (say (settleBy parse cl set).run fun _ => [.settled cl])
      (fun _ _ => True) c := by
  refine wp_bind (wp_mono ?_ (wp_settleBy hset hnone hstep fun hs => hs.elim))
  rintro r c' ⟨_, hcalled, hsettled⟩
  cases r with
  | error e => trivial
  | ok _ =>
    refine wp_ask _ fun σ _ _ => ⟨⟨hsettled rfl, fun cl' ans hmem => ?_⟩, fun _ => trivial⟩
    have hold := hcalled _ ans hmem
    rw [hlog] at hold
    cases hold

theorem wp_say_refuse {b : Bool} {e : Err} {x : Code Err (Val K) Answer Unit}
    {evs : Unit → List Event}
    (h : wp (pact H parse strict S) iso A (say x.run evs) (fun _ _ => True) c) :
    wp (pact H parse strict S) iso A (say (refuse b e >>= fun _ => x).run evs)
      (fun _ _ => True) c := by
  cases b with
  | true => trivial
  | false => exact h

end Calls

def Call.step {Script : Type} (host : Record → Record → Prop) :
    Call Script → Record → Record → Prop
  | .host _ _ => host
  | .claimDue _ _ => Claims
  | .confirm _ => Confirms
  | .retry _ _ _ => Fails
  | .quarantine _ _ => Fails

theorem MySql.wp_code {H : Sha256} {S : Record → Record → Prop}
    {A : Table MySql.Id → Table MySql.Id → Prop} {σ : Table MySql.Id}
    (call : Call (List MySql.HostStep)) (hS : ∀ r r', call.step Requeues r r' → S r r') :
    wp (pact H MySql.parseID False S) .readCommitted A (MySql.code H call) (fun _ _ => True)
      ⟨σ, none, []⟩ := by
  cases call with
  | host steps commits =>
    refine wp_say (wp_mono (fun r c' hr ms hms ev hev => ?_) (MySql.wp_hostTransaction hS rfl))
    obtain ⟨m, hm, rfl⟩ := mem_map.mp hev
    exact hr ms hms m hm
  | claimDue limit lease =>
    refine wp_say (wp_mono (fun r c' hr claims hclaims ev hev => ?_) (MySql.wp_claimDue hS rfl))
    obtain ⟨cl, hcl, rfl⟩ := mem_map.mp hev
    exact hr claims hclaims cl hcl
  | confirm c =>
    exact wp_saySettled columns_setPublished
      (fun _ _ hby => hS _ _ (.confirm (publishing_of_claimedBy hby) _)) rfl rfl
  | retry c delay code =>
    exact wp_say_refuse (wp_saySettled (columns_setRetryWait _ _)
      (fun _ _ hby => hS _ _ (.retry (publishing_of_claimedBy hby) _ _ _)) rfl rfl)
  | quarantine c code =>
    exact wp_say_refuse (wp_saySettled (columns_setQuarantined _)
      (fun _ _ hby => hS _ _ (.quarantine (publishing_of_claimedBy hby) _ _)) rfl rfl)

def noStep (_ _ : Record) : Prop := False

theorem Mongo.wp_code {B : Mongo.Bson} {H : Sha256} {S : Record → Record → Prop}
    {A : Table (Mongo.Id B) → Table (Mongo.Id B) → Prop} {σ : Table (Mongo.Id B)}
    (call : Call (List (Message × Option Nat))) (hS : ∀ r r', call.step noStep r r' → S r r') :
    wp (pact H (Mongo.parseID B) False S) .snapshot A (Mongo.code B H call)
      (fun _ _ => True) ⟨σ, none, []⟩ := by
  cases call with
  | host steps commits =>
    refine wp_say (wp_mono (fun r c' hr ms hms ev hev => ?_) (Mongo.wp_hostTransaction rfl))
    obtain ⟨m, hm, rfl⟩ := mem_map.mp hev
    exact hr ms hms m hm
  | claimDue limit lease =>
    refine wp_bind (wp_mono (fun r c' hr => wp_marks fun ev hev => ?_) (Mongo.wp_claimDue hS rfl))
    obtain ⟨cl, hcl, rfl⟩ := mem_map.mp hev
    exact hr cl hcl
  | confirm c =>
    exact wp_saySettled columns_setPublished
      (fun _ _ hby => hS _ _ (.confirm (publishing_of_claimedBy hby) _)) rfl rfl
  | retry c delay code =>
    exact wp_say_refuse (wp_saySettled (columns_setRetryWait _ _)
      (fun _ _ hby => hS _ _ (.retry (publishing_of_claimedBy hby) _ _ _)) rfl rfl)
  | quarantine c code =>
    exact wp_say_refuse (wp_saySettled (columns_setQuarantined _)
      (fun _ _ hby => hS _ _ (.quarantine (publishing_of_claimedBy hby) _ _)) rfl rfl)

theorem MySql.verified (H : Sha256) :
    Verified (contract H MySql.parseID False) .readCommitted (MySql.code H) (fun _ _ _ => True)
      (fun _ _ => True) :=
  fun call _ _ _ => MySql.wp_code call fun _ _ _ => trivial

theorem Mongo.verified (B : Mongo.Bson) (H : Sha256) :
    Verified (contract H (Mongo.parseID B) False) .snapshot (Mongo.code B H) (fun _ _ _ => True)
      (fun _ _ => True) :=
  fun call _ _ _ => Mongo.wp_code call fun _ _ _ => trivial

/-! ## The fence -/

section Fence

variable {K : Type} [DecidableEq K]

/-- A claim that may still be settled, by what the log says and at this time:
no later claim of its record was returned, none was settled with it, and its
lease has not ended. -/
structure InForce (parse : String → Option K) (c : Claim) (clock : Nat)
    (log : List (Nat × Entry (Val K) Answer)) : Prop where
  latest : ∀ p c' ans, (p, Entry.called (.claimed c') ans) ∈ log →
    parse c'.recordID = parse c.recordID → c'.version ≤ c.version
  unsettled : ∀ p ans, (p, Entry.called (.settled c) ans) ∉ log
  inTime : ∀ p ans, (p, Entry.called (.claimed c) ans) ∈ log → clock < c.leaseUntil

/-- Two entries say that a settlement with one claim succeeded. -/
def SettledTwice (a b : Nat × Entry (Val K) Answer) : Prop :=
  ∃ c ans ans', a.2 = .called (.settled c) ans ∧ b.2 = .called (.settled c) ans'

/-- The fence, in one state of a system: no claim was settled twice; what was
settled was settled by one statement while the claim was in force; and the
next statement of a settlement changes nothing, unless the claim is in force
now, and then it changes that one record. -/
structure Fenced {Script : Type} (iso : Isolation) (parse : String → Option K)
    (s : Sys (Val K) Answer (Call Script)) : Prop where
  once : s.log.Pairwise fun a b => ¬ SettledTwice a b
  settled : ∀ p c ans, (p, Entry.called (.settled c) ans) ∈ s.log →
    ∃ pre before after post clock, s.log = pre ++ (p, .committed before after) :: post ∧
      Settles parse c clock before after ∧ InForce parse c clock pre
  stale : ∀ p pr c, s.procs p = some pr → pr.call.settles = some c → ∀ σ, s.Leaves iso p σ →
    σ = s.db ∨ ∃ clock, Settles parse c clock s.db σ ∧ InForce parse c clock s.log

variable {H : Sha256} {parse : String → Option K} {σ ν : Table K}
variable {log : List (Nat × Entry (Val K) Answer)} {c : Claim} {clock : Nat} {p q : Nat}

/-- A record that was settled has left its claim behind. -/
def Behind (parse : String → Option K) (c : Claim) (σ : Table K) : Prop :=
  ∃ k, ∃ r : Record, parse c.recordID = some k ∧ σ.lookup (.record k) = some r ∧
    c.version < r.version

theorem Behind.onward (h : Behind parse c σ) (ho : Onward σ ν) : Behind parse c ν := by
  obtain ⟨k, r, hk, hr, hlt⟩ := h
  obtain ⟨r', hr', hnext⟩ := ho k r hr
  exact ⟨k, r', hk, hr', Nat.lt_of_lt_of_le hlt hnext.version_le⟩

theorem Settles.behind (h : Settles parse c clock σ ν) : Behind parse c ν := by
  obtain ⟨k, r, r', hk, _, _, hr', hversion, _⟩ := h
  exact ⟨k, r', hk, hr', by omega⟩

theorem Settles.not_behind (h : Settles parse c clock σ ν) : ¬ Behind parse c σ := by
  rintro ⟨k', r', hk', hr', hlt⟩
  obtain ⟨k, r, _, hk, hr, hby, _⟩ := h
  cases hk.symm.trans hk'
  cases hr.symm.trans hr'
  rw [version_of_claimedBy hby] at hlt
  exact absurd hlt (Nat.lt_irrefl _)

theorem claimed_of_history (h : History (contract H parse False) σ log) {ans : Option Unit}
    (hmem : (p, Entry.called (.claimed c) ans) ∈ log) : Claimed parse c σ := by
  have hlast := h.lasting (P := fun ev σ => ∀ c, ev = .claimed c → Claimed parse c σ) ?_ ?_
  · exact hlast p _ ans hmem c rfl
  · rintro ctx ev _ ha c rfl
    exact ha
  · rintro ev a b hP ht c rfl
    exact (hP c rfl).onward ht.1

theorem settled_commit (h : History (contract H parse False) σ log) {ans : Option Unit}
    (hmem : (p, Entry.called (.settled c) ans) ∈ log) :
    ∃ clock before after, (p, Entry.committed before after) ∈ log ∧
      Settles parse c clock before after := by
  obtain ⟨pre, post, rfl⟩ := append_of_mem hmem
  obtain ⟨_, _, _, ⟨clock, before, after, hcommit, hsettles⟩, _⟩ := h.allowed rfl
  exact ⟨clock, before, after, mem_append_left _ (mem_logOf.mp hcommit), hsettles⟩

theorem settled_behind (h : History (contract H parse False) σ log) {ans : Option Unit}
    (hmem : (p, Entry.called (.settled c) ans) ∈ log) : Behind parse c σ := by
  obtain ⟨_, before, after, hcommit, hsettles⟩ := settled_commit h hmem
  obtain ⟨pre, post, hsplit⟩ := append_of_mem hcommit
  exact hsettles.behind.onward (Later.onward (h.committed_at hsplit).2)

theorem settled_same_call (h : History (contract H parse False) σ log) {ans ans' : Option Unit}
    (hp : (p, Entry.called (.settled c) ans) ∈ log)
    (hq : (q, Entry.called (.settled c) ans') ∈ log) : p = q := by
  obtain ⟨_, a, b, hcommit, hsettles⟩ := settled_commit h hp
  obtain ⟨_, a', b', hcommit', hsettles'⟩ := settled_commit h hq
  by_contra hne
  -- whichever commit came first, the other found the claim behind
  rcases pair_sublist hcommit hcommit' fun heq => hne (congrArg Prod.fst heq) with hsub | hsub
  · exact hsettles'.not_behind (hsettles.behind.onward (Later.onward (h.committed_order hsub)))
  · exact hsettles.not_behind (hsettles'.behind.onward (Later.onward (h.committed_order hsub)))

theorem settled_once (h : History (contract H parse False) σ log) :
    log.Pairwise fun a b => ¬ SettledTwice a b := by
  refine pairwise_iff_forall_sublist.mpr fun {a b} hsub htwice => ?_
  obtain ⟨pre, post, hsplit, ha⟩ := split_of_pair hsub
  obtain ⟨q, en⟩ := a
  obtain ⟨p, en'⟩ := b
  obtain ⟨c, ans, ans', rfl, rfl⟩ := htwice
  have hfirst : (q, Entry.called (.settled c) ans) ∈ log := by
    rw [hsplit]
    exact mem_append_left _ ha
  have hsecond : (p, Entry.called (.settled c) ans') ∈ log := by
    rw [hsplit]
    exact mem_append_right _ mem_cons_self
  have hsame : q = p := settled_same_call h hfirst hsecond
  subst hsame
  obtain ⟨_, _, _, _, hfresh⟩ := h.allowed hsplit
  exact hfresh c ans (mem_logOf.mpr ha)

theorem Settles.inForce (hs : Settles parse c clock σ ν)
    (h : History (contract H parse False) σ log) : InForce parse c clock log where
  latest := by
    intro p c' ans hmem hsame
    obtain ⟨k', r', hk', hr', _, hle, _⟩ := claimed_of_history h hmem
    obtain ⟨k, r, _, hk, hr, hby, _⟩ := hs
    rw [hsame, hk] at hk'
    cases hk'
    cases hr.symm.trans hr'
    rw [← version_of_claimedBy hby]
    exact hle
  unsettled := fun p ans hmem => hs.not_behind (settled_behind h hmem)
  inTime := by
    intro p ans hmem
    obtain ⟨k, r, _, hk, hr, hby, _⟩ := hs
    exact ((claimed_of_history h hmem).holder hk hr hby).2

/-- The statements of a settlement: its one update, and what it says. -/
def Settling (parse : String → Option K) (c : Claim) : Stmt (Val K) Event → Prop
  | .auto f => ∃ k set, parse c.recordID = some k ∧ f = fun clock =>
      setRecord k (Record.claimedBy c clock) (Record.settle set clock)
  | .call _ => True
  | _ => False

theorem all_settleBy (c : Claim) (set : Nat → Record → Record) :
    (settleBy parse c set : Code Err (Val K) Answer Unit).run.All (Settling parse c) := by
  refine all_found fun k hk => all_bind all_refuse fun _ => ?_
  exact all_bind (all_send ⟨k, set, hk, rfl⟩) fun _ => all_refuse

theorem all_markAll (c : Claim) (evs : List Event) :
    (markAll evs : Prog (Val K) Answer Unit).All (Settling parse c) := by
  induction evs with
  | nil => trivial
  | cons ev rest ih => exact ⟨trivial, fun _ => ih⟩

theorem all_say {x : Code Err (Val K) Answer Unit} {evs : Unit → List Event}
    (h : x.run.All (Settling parse c)) : (say x.run evs).All (Settling parse c) := by
  refine h.bind fun r => ?_
  cases r with
  | error e => trivial
  | ok a => exact all_markAll c _

theorem all_own {p : Prog (Val K) Answer Unit} (h : p.All (Settling parse c)) :
    p.All fun st => ∀ c', some c = some c' → Settling parse c' st := by
  refine Prog.All.mono (fun st hst c' hc => ?_) h
  cases hc
  exact hst

theorem Settling.leaves {iso : Isolation} {busy : List (Row K)} {tx tx' : Option (Tx (Val K))}
    {st : Stmt (Val K) Event} {r : Option (st.Reply Answer)}
    {new : List (Entry (Val K) Answer)} (h : Settling parse c st)
    (hl : Local iso busy σ tx st r ν tx' new) : ν = σ ∨ ∃ clock, Settles parse c clock σ ν := by
  have hauto : ∀ {k : K} {set : Nat → Record → Record} (clock : Nat),
      parse c.recordID = some k →
      setRecord k (Record.claimedBy c clock) (Record.settle set clock) σ ∪ σ = σ ∨
        ∃ clock', Settles parse c clock' σ
          (setRecord k (Record.claimedBy c clock) (Record.settle set clock) σ ∪ σ) := by
    intro k set clock hk
    rcases settles_or_none set hk clock σ with hsettles | hnone
    · exact .inr ⟨clock, hsettles⟩
    · rw [eq_empty_of_lookup hnone]
      exact .inl AList.empty_union
  cases hl with
  | auto clock =>
    obtain ⟨k, set, hk, rfl⟩ := h
    exact hauto clock hk
  | autoLost clock =>
    obtain ⟨k, set, hk, rfl⟩ := h
    exact hauto clock hk
  | commit => exact h.elim
  | _ => exact .inl rfl

/-- A system whose calls keep the contract, and whose settlements are the
conditional update, is fenced. -/
theorem fenced_of_reach {Script : Type} {iso : Isolation}
    {code : Call Script → Prog (Val K) Answer Unit} {s : Sys (Val K) Answer (Call Script)}
    (hv : Verified (contract H parse False) iso code (fun _ _ _ => True) (fun _ _ => True))
    (hcode : ∀ call, (code call).All fun st => ∀ c, call.settles = some c → Settling parse c st)
    (h : Reach iso code anyStep anyRows s) : Fenced iso parse s := by
  have hh : History (contract H parse False) s.db s.log :=
    h.history (hv.sound fun _ _ hs => hs.elim)
  refine ⟨settled_once hh, fun p c ans hmem => ?_, fun p pr c hp hc σ hleaves => ?_⟩
  · obtain ⟨clock, before, after, hcommit, hsettles⟩ := settled_commit hh hmem
    obtain ⟨pre, post, hsplit⟩ := append_of_mem hcommit
    exact ⟨pre, before, after, post, clock, hsplit, hsettles,
      hsettles.inForce (hh.committed_at hsplit).1⟩
  · obtain ⟨pr', hp', st, k, busy, r, tx, new, hprog, hl⟩ := hleaves
    cases hp.symm.trans hp'
    have hall := h.all hcode p pr hp
    rw [hprog] at hall
    refine (hall.1 c hc).leaves hl |>.imp_right ?_
    rintro ⟨clock, hsettles⟩
    exact ⟨clock, hsettles, hsettles.inForce hh⟩

end Fence

theorem MySql.settling (H : Sha256) (call : Call (List MySql.HostStep)) :
    (MySql.code H call).All fun st =>
      ∀ c, call.settles = some c → Settling MySql.parseID c st := by
  cases call with
  | host => exact Prog.all_of_forall (fun _ _ hc => nomatch hc) _
  | claimDue => exact Prog.all_of_forall (fun _ _ hc => nomatch hc) _
  | confirm c => exact all_own (all_say (all_settleBy c _))
  | retry c delay code => exact all_own (all_say (all_bind all_refuse fun _ => all_settleBy c _))
  | quarantine c code => exact all_own (all_say (all_bind all_refuse fun _ => all_settleBy c _))

theorem Mongo.settling (B : Mongo.Bson) (H : Sha256) (call : Call (List (Message × Option Nat))) :
    (Mongo.code B H call).All fun st =>
      ∀ c, call.settles = some c → Settling (Mongo.parseID B) c st := by
  cases call with
  | host => exact Prog.all_of_forall (fun _ _ hc => nomatch hc) _
  | claimDue => exact Prog.all_of_forall (fun _ _ hc => nomatch hc) _
  | confirm c => exact all_own (all_say (all_settleBy c _))
  | retry c delay code => exact all_own (all_say (all_bind all_refuse fun _ => all_settleBy c _))
  | quarantine c code => exact all_own (all_say (all_bind all_refuse fun _ => all_settleBy c _))

/-- **Claims are fenced.** In every state that any run of hosts and relays
over the MySQL or the Mongo outbox reaches. -/
theorem claims_are_fenced (H : Sha256) :
    (∀ s, MySql.Reachable H s → Fenced .readCommitted MySql.parseID s) ∧
      ∀ B s, Mongo.Reachable B H s → Fenced .snapshot (Mongo.parseID B) s :=
  ⟨fun _ hs => fenced_of_reach (MySql.verified H) (MySql.settling H) hs,
    fun B _ hs => fenced_of_reach (Mongo.verified B H) (Mongo.settling B H) hs⟩

namespace Sample

/-! A message that is appended, claimed and confirmed, with a second try. -/

def message : Message :=
  (Message.new { producer := "p", id := "m", destination := "t", eventType := "e",
                 schemaVersion := "1", scope := "s", contentType := "c",
                 occurredAt := "2026-01-01T00:00:00Z", payload := [1] }).getD .zero

def world (clock : Nat) : World Answer where
  clock := clock
  random := 1
  answer
    | .claimed _ => some ()
    | .publish _ => some 1
    | .settled _ => some ()
    | .appended _ => some ()

def claim : Claim := ⟨"2", tokenText 1, 1, 1, 0, 15, message⟩

def calls : List (World Answer × Call (List MySql.HostStep)) :=
  [(world 1, .host [.append message (some 3)] true), (world 5, .claimDue 10 10000),
    (world 7, .confirm claim), (world 8, .confirm claim)]

def settlements {K : Type} (log : List (Nat × Entry (Val K) Answer)) : List (Nat × Claim) :=
  log.filterMap fun
    | (p, .called (.settled c) _) => some (p, c)
    | _ => none

end Sample

set_option maxRecDepth 100000 in
/-- Of two settlements with one claim, the first one succeeds. -/
theorem claims_are_fenced_confirmed :
    ∃ s, MySql.Reachable default s ∧ Fenced .readCommitted MySql.parseID s ∧
      Sample.settlements s.log = [(2, Sample.claim)] := by
  obtain ⟨s, hr, _, _, _, hlog⟩ := reach_serve .readCommitted (MySql.code default)
    (fun _ _ => True) (show anyRows (∅ : Table MySql.Id) from trivial) Sample.calls
    (mayServe_true _ _ _ _ _ _)
  have hreach : MySql.Reachable default s := hr.mono fun _ _ _ => trivial
  refine ⟨s, hreach, (claims_are_fenced default).1 s hreach, ?_⟩
  rw [hlog]
  decide +kernel

end ReliableMessaging.Outbox
