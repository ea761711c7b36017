import ReliableMessaging.TxLang.Rows
import ReliableMessaging.TxLang.Soundness

/-!
# Inside a snapshot

What a transaction of the snapshot engine may conclude about the committed rows
from what it reads in its own past: a row that it has written is still what its
snapshot says (`Tx.Unmoved`), since its write was refused otherwise and is held
since. Of a row that it has only read it knows nothing.
-/

namespace TxLang

variable {Row Ev : Type} [DecidableEq Row] {Val : Row → Type} {Ans : Ev → Type}
variable {Γ : Spec Val Ans} {A : Db Val → Db Val → Prop} {t : Tx Val} {σ σ' rows : Db Val}
variable {r : Row}

/-- The committed rows agree with the snapshot wherever the transaction writes,
and it writes only what it holds. -/
structure Tx.Unmoved (t : Tx Val) (σ : Db Val) : Prop where
  same : ∀ r ∈ t.excl, σ.lookup r = t.snap.lookup r
  owned : t.Owned

theorem unmoved_start : Tx.Unmoved { snap := σ } σ :=
  ⟨nofun, fun _ _ => AList.lookup_empty _⟩

theorem Tx.Unmoved.env (h : t.Unmoved σ) (henv : Env Γ A (some t) σ σ') : t.Unmoved σ' :=
  ⟨fun r hr => (henv.held (Or.inr hr)).trans (h.same r hr), h.owned⟩

theorem Tx.Unmoved.stage (h : t.Unmoved σ) (hw : Writable .snapshot σ t rows) :
    (t.stage rows).Unmoved σ := by
  refine ⟨fun r hr => ?_, h.owned.stage rows⟩
  rcases List.mem_append.mp hr with hr | hr
  · rcases hw rfl r hr with hheld | hsame
    · exact h.same r hheld
    · exact hsame
  · exact h.same r hr

theorem Tx.Unmoved.lookup {v : Val r} (h : t.Unmoved σ) (hv : t.writes.lookup r = some v) :
    σ.lookup r = t.snap.lookup r := by
  by_cases hr : r ∈ t.excl
  · exact h.same r hr
  · exact absurd ((h.owned r hr).symm.trans hv) nofun

theorem Tx.Unmoved.writable (h : t.Unmoved σ) (hw : Writable .snapshot σ t rows)
    (hr : r ∈ rows.keys) : σ.lookup r = t.snap.lookup r :=
  (h.stage hw).same r (List.mem_append_left _ hr)

theorem publish_of_silent (h : ∀ r, t.writes.lookup r = none) : t.writes ∪ σ = σ := by
  rw [eq_empty_of_lookup h, AList.empty_union]

end TxLang
