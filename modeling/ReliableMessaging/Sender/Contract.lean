import ReliableMessaging.MySql.Verified.Host
import ReliableMessaging.MySql.Verified.Receipt
import ReliableMessaging.Sender.Execute

/-!
# What may be asked of the world, and when

`allow` is the contract between the protocol's clients and everything outside
the store:

- a half message is sent only by the call whose commit started the
  preparation, and once for each branch;
- the business runs only in that call, once, after every branch was prepared
  and its receipt recorded;
- a half message is ended, or a checker answered, only with a decision that
  the committed rows already carry.
-/

namespace ReliableMessaging.Sender

open Transaction TxLang MySql

variable {Ev : Type} {Ans : Ev → Type}

/-- The stored execution under this key has exactly this plan. -/
def Stored (H : Sha256) (e : Execution) (σ : Tables) : Prop :=
  ∃ row : ExecutionRow, σ.lookup (.execution (e.key H)) = some row ∧ row.plan = e.plan

/-- This call's own commit started the preparation of this execution. -/
def StartedIn (H : Sha256) (e : Execution) (log : List (Entry Val Answer)) : Prop :=
  ∃ before after, Entry.committed before after ∈ log ∧ Starts H e before after

/-- An answer to a half message with which the business may run. -/
def Prepared.good (p : Prepared) : Bool :=
  p.receipt.valid && p.receipt.outcome = .prepared && p.handle && !p.failed

/-- The half message of this reference was prepared, and the receipt recorded. -/
def PreparedIn (ref : Reference) (log : List (Entry Val Answer)) : Prop :=
  ∃ wire p ans, Entry.called (.prepare ref wire) (some p) ∈ log ∧ p.good = true ∧
    Entry.called (.recorded ref p.receipt) ans ∈ log

def allow (H : Sha256) (c : Ctx Val Answer) : Event → Prop
  | .bound e => ∃ t, ∃ row : ExecutionRow, c.tx = some t ∧ t.Holds (.execution (e.key H)) ∧
      c.db.lookup (.execution (e.key H)) = some row ∧ row.state = .prepared ∧ row.plan = e.plan
  | .cancelled => True
  | .prepare ref _ => ∃ e : Execution, e.Formed ∧ StartedIn H e c.log ∧
      ref ∈ e.references H ∧ ∀ ref' wire ans, Entry.called (.prepare ref' wire) ans ∈ c.log →
        ref'.branchID ≠ ref.branchID
  | .recorded ref h => ∃ before after, Entry.committed before after ∈ c.log ∧
      HalfRecorded H ref h after
  | .runLocal e => e.Formed ∧ StartedIn H e c.log ∧
      (∀ e' ans, Entry.called (.runLocal e') ans ∉ c.log) ∧
      ∀ ref ∈ e.references H, PreparedIn ref c.log
  | .finalize ref d => ∀ st, d.state = some st → Decided H ref st c.db
  | .resolution ref d => ∀ st, d.state = some st → Decided H ref st c.db

/-! ## Facts that last -/

section Lasting

variable {H : Sha256} {Allow : Ctx Val Ans → Ev → Prop} {e : Execution} {ref : Reference}
variable {st : State} {σ ν : Tables}

theorem Stored.later (h : Stored H e σ) (hl : Later (contract H Allow) σ ν) : Stored H e ν := by
  obtain ⟨row, hrow, hplan⟩ := h
  obtain ⟨row', hrow', hlater⟩ := later_execution hl hrow
  refine ⟨row', hrow', ?_⟩
  rw [hlater.columns]
  exact hplan

theorem decided_of_stored [H.CollisionFree] (hi : Inv H σ) (hf : e.Formed) (hs : Stored H e σ)
    {row : ExecutionRow} (hrow : σ.lookup (.execution (e.key H)) = some row)
    (hst : row.state = st) : ∀ ref ∈ e.references H, Decided H ref st σ := by
  intro ref href
  obtain ⟨row', hrow', hsame⟩ := hs
  cases hrow.symm.trans hrow'
  obtain ⟨br, hbr, rfl⟩ := Execution.mem_references href
  obtain ⟨_, _, hre, hrf⟩ := hi.row_of_key hrow hf.plan hf.fence.2
  refine ⟨row, hrow, hst, br, ?_, ?_⟩
  · rw [hsame]
    exact hbr
  · rw [hsame, hre, hrf]

end Lasting

end ReliableMessaging.Sender
