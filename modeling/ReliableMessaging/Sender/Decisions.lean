import ReliableMessaging.Sender.System

/-!
# Broker decisions agree with the database

The sender after its local executor, the sender's abort path and the checker
all decide from evidence they read at different times, while hosts commit and
aborts run. Whoever asks the broker to end a half message has the decision
from rows that no longer change, so all of them say the same.
-/

namespace ReliableMessaging.Sender

open Transaction TxLang MySql Sample

variable {H : Sha256} {s s' : System} {ref : Reference} {st : State} {σ : Tables}

/-- The final decision an entry of the log asks of the broker. -/
def decisionOf : Entry Val Answer → Option (Reference × Decision)
  | .called (.finalize ref d) _ => some (ref, d)
  | .called (.resolution ref d) _ => some (ref, d)
  | _ => none

/-- The execution of a reference and its witness are both in this state. -/
def Durable (H : Sha256) (ref : Reference) (st : State) (σ : Tables) : Prop :=
  ∃ (row : ExecutionRow) (w : WitnessRow),
    σ.lookup (.execution (ref.executionKey H)) = some row ∧ row.state = st ∧
    σ.lookup (.witness (ref.executionKey H) (branchKey H ref.branchID)) = some w ∧
    w.reference = ref ∧ w.state = st

/-- The rows of the execution of a reference leave its outcome open: there are
none, or they are prepared, whatever has become of the lease. -/
def Undecided (H : Sha256) (ref : Reference) (σ : Tables) : Prop :=
  ∀ row : ExecutionRow, σ.lookup (.execution (ref.executionKey H)) = some row →
    row.state = .prepared

variable {d : Decision} {p : Nat} {en : Entry Val Answer}

theorem Decision.state_ne_prepared (h : d.state = some st) : st ≠ .prepared := by
  cases d <;> cases h <;> exact State.noConfusion

theorem Decided.durable (hi : Inv H σ) (h : Decided H ref st σ) : Durable H ref st σ := by
  obtain ⟨row, hrow, hstate, br, hbr, href⟩ := h
  obtain ⟨w, hw, hwref, hwstate⟩ := (hi.execution _ row hrow).witness br hbr
  have hid : ref.branchID = br.id := by rw [← href]; rfl
  refine ⟨row, w, hrow, hstate, ?_, hwref.trans href, hwstate.trans hstate⟩
  rw [hid]
  exact hw

theorem Reachable.history [H.CollisionFree] (hr : Reachable H s) : History (protocol H) s.db
    s.log :=
  Reach.history (sound H) hr

theorem Reachable.inv [H.CollisionFree] (hr : Reachable H s) : Inv H s.db :=
  Reach.inv (sound H) hr

theorem Reachable.later [H.CollisionFree] (hr : Reachable H s)
    (hruns : Runs .readCommitted (code H) s s') :
    Later (protocol H) s.db s'.db :=
  Reach.later (sound H) hr hruns.anyBy

theorem Reachable.runs (hr : Reachable H s) (hruns : Runs .readCommitted (code H) s s') :
    Reachable H s' :=
  Reach.runs hr hruns

theorem Reachable.step (hr : Reachable H s) (hs : Step .readCommitted (code H) s s') :
    Reachable H s' :=
  hr.runs (.single hs)

theorem History.decided {log : List (Nat × Entry Val Answer)} (h : History (protocol H) σ log)
    (hmem : (p, en) ∈ log) (hen : decisionOf en = some (ref, d)) (hd : d.state = some st) :
    Decided H ref st σ := by
  have hlast := h.lasting
    (P := fun ev σ => ∀ ref d st, decisionOf (.called ev none) = some (ref, d) →
      d.state = some st → Decided H ref st σ)
    (fun c ev _ hallow ref d st hen hd => ?_)
    (fun ev a b hP htrans ref d st hen hd =>
      Decided.later (hP ref d st hen hd) (Decision.state_ne_prepared hd)
        (Relation.ReflTransGen.single htrans : Later (protocol H) a b))
  · cases en with
    | committed => cases hen
    | called ev ans =>
      refine hlast p ev ans hmem ref d st ?_ hd
      cases ev <;> exact hen
  · cases ev <;> cases hen
    · exact hallow st hd
    · exact hallow st hd

theorem Reachable.decided [H.CollisionFree] (hr : Reachable H s) (hmem : (p, en) ∈ s.log)
    (hen : decisionOf en = some (ref, d)) (hd : d.state = some st) : Decided H ref st s.db :=
  History.decided hr.history hmem hen hd

/-- A decision at the moment it is asked: asking moves no rows. -/
theorem Reachable.decided_at [H.CollisionFree] (hr : Reachable H s)
    (hs : Step .readCommitted (code H) s s') (hlog : s'.log = s.log ++ [(p, en)])
    (hen : decisionOf en = some (ref, d)) (hd : d.state = some st) : Decided H ref st s.db := by
  have hmem : (p, en) ∈ s'.log := by
    rw [hlog]
    exact List.mem_append_right _ List.mem_cons_self
  have hafter := (hr.step hs).decided hmem hen hd
  cases en with
  | committed => cases hen
  | called ev ans => rwa [hs.called_db hlog] at hafter

theorem Decided.agree {ref' : Reference} {st' : State} (h : Decided H ref st σ)
    (h' : Decided H ref' st' σ) (hkey : ref.executionKey H = ref'.executionKey H) : st = st' := by
  obtain ⟨row, hrow, hst, _⟩ := h
  obtain ⟨row', hrow', hst', _⟩ := h'
  rw [hkey] at hrow
  cases hrow.symm.trans hrow'
  exact hst.symm.trans hst'

theorem Decided.not_undecided (h : Decided H ref st σ) (hst : st ≠ .prepared) :
    ¬ Undecided H ref σ := by
  obtain ⟨row, hrow, hstate, _⟩ := h
  intro hu
  exact hst (hstate.symm.trans (hu row hrow))

theorem Decision.known (h : d ≠ .unknown) : ∃ st, d.state = some st := by
  cases d with
  | unknown => exact absurd rfl h
  | commit => exact ⟨_, rfl⟩
  | rollback => exact ⟨_, rfl⟩

theorem Decision.state_inj {d' : Decision} (h : d.state = some st) (h' : d'.state = some st) :
    d = d' := by
  cases d <;> cases d' <;> first | rfl | (rw [← h'] at h; cases h)

/-- **Broker decisions agree with the database.** Whenever a component asks
the broker to commit or roll back the half message of a reference, the
execution of the reference and its witness are durably in that state at that
moment, and in every later state; so no two components ask for opposite
decisions on branches of one execution, and an execution that is missing or
prepared, with its lease expired or not, yields no decision. -/
theorem broker_decisions_agree [H.CollisionFree] (hr : Reachable H s) :
    (∀ s' p en ref d st, Step .readCommitted (code H) s s' → s'.log = s.log ++ [(p, en)] →
      decisionOf en = some (ref, d) → d.state = some st → Durable H ref st s.db) ∧
    (∀ p en ref d st, (p, en) ∈ s.log → decisionOf en = some (ref, d) → d.state = some st →
      ∀ s', Runs .readCommitted (code H) s s' → Durable H ref st s'.db) ∧
    (∀ p q en en' ref ref' d d', (p, en) ∈ s.log → (q, en') ∈ s.log →
      decisionOf en = some (ref, d) → decisionOf en' = some (ref', d') →
      ref.executionKey H = ref'.executionKey H → d ≠ .unknown → d' ≠ .unknown → d = d') ∧
    ∀ s' p en ref d, Step .readCommitted (code H) s s' → s'.log = s.log ++ [(p, en)] →
      decisionOf en = some (ref, d) → Undecided H ref s.db → d = .unknown := by
  refine ⟨?_, ?_, ?_, ?_⟩
  · intro s' p en ref d st hs hlog hen hd
    exact Decided.durable hr.inv (hr.decided_at hs hlog hen hd)
  · intro p en ref d st hmem hen hd s' hruns
    have hr' := hr.runs hruns
    exact Decided.durable hr'.inv (hr'.decided (hruns.log_grows.subset hmem) hen hd)
  · intro p q en en' ref ref' d d' hmem hmem' hen hen' hkey hd hd'
    obtain ⟨st, hst⟩ := Decision.known hd
    obtain ⟨st', hst'⟩ := Decision.known hd'
    have hsame := Decided.agree (hr.decided hmem hen hst) (hr.decided hmem' hen' hst') hkey
    subst hsame
    exact Decision.state_inj hst hst'
  · intro s' p en ref d hs hlog hen hu
    by_contra hd
    obtain ⟨st, hst⟩ := Decision.known hd
    exact Decided.not_undecided (hr.decided_at hs hlog hen hst) (Decision.state_ne_prepared hst) hu

set_option maxRecDepth 100000 in
/-- A checker that asks for a commit, after a host has committed. -/
theorem broker_decisions_agree_committed :
    ∃ s, Reachable default s ∧
      (∃ x ∈ s.log, decisionOf x.2 = some (reference "x" "k" 1, .commit)) ∧
      Durable default (reference "x" "k" 1) .committed s.db := by
  obtain ⟨s, hr, _, _, hlog⟩ := reachable_served default installed_spec
    [reserve "x" "k", commitRoot (execution "x" "k" 1), check (reference "x" "k" 1)]
  have hasked : ∃ x ∈ s.log, decisionOf x.2 = some (reference "x" "k" 1, .commit) := by
    rw [hlog]
    decide +kernel
  obtain ⟨x, hmem, hx⟩ := hasked
  exact ⟨s, hr, ⟨x, hmem, hx⟩,
    (broker_decisions_agree hr).2.1 x.1 x.2 _ _ _ hmem hx rfl s .refl⟩

end ReliableMessaging.Sender
