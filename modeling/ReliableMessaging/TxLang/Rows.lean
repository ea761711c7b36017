import ReliableMessaging.TxLang.Prog

/-!
# Rows that a statement writes

`amend` is the rows an `UPDATE … SET … WHERE …` writes: a function from each
row to its new value, or to nothing where the condition fails. `single` is one
row. Both are known by their lookups, and nothing later unfolds them.
-/

namespace TxLang

open List Option

variable {Row : Type} [DecidableEq Row] {Val : Row → Type}

omit [DecidableEq Row] in
theorem keys_filterMap_sublist (f : (r : Row) → Val r → Option (Val r)) (l : List (Sigma Val)) :
    (l.filterMap fun s => (f s.1 s.2).map (Sigma.mk s.1)).keys.Sublist l.keys := by
  induction l with
  | nil => exact List.Sublist.slnil
  | cons s l ih =>
    rw [filterMap_cons]
    cases f s.1 s.2 with
    | none => exact ih.cons _
    | some v => exact ih.cons_cons _

/-- The new values of the rows that `f` changes. -/
def amend (f : (r : Row) → Val r → Option (Val r)) (σ : Db Val) : Db Val where
  entries := σ.entries.filterMap fun s => (f s.1 s.2).map (Sigma.mk s.1)
  nodupKeys := List.Nodup.sublist (keys_filterMap_sublist f σ.entries) σ.nodupKeys

theorem dlookup_filterMap (f : (r : Row) → Val r → Option (Val r)) (r : Row) :
    ∀ {l : List (Sigma Val)}, l.NodupKeys →
      (l.filterMap fun s => (f s.1 s.2).map (Sigma.mk s.1)).dlookup r = (l.dlookup r).bind (f r)
  | [], _ => rfl
  | ⟨q, v⟩ :: l, h => by
    have hnot : q ∉ l.keys := (nodupKeys_cons.mp h).1
    have ih := dlookup_filterMap f r (nodupKeys_cons.mp h).2
    rw [filterMap_cons]
    by_cases hq : r = q
    · subst hq
      rw [dlookup_cons_eq]
      cases hf : f r v with
      | none =>
        have hl : l.dlookup r = none := dlookup_eq_none.mpr hnot
        simp only [hf, map_none, bind_some]
        rw [ih, hl, bind_none]
      | some w =>
        simp only [hf, map_some, bind_some]
        exact dlookup_cons_eq _ _ _
    · rw [dlookup_cons_ne _ _ hq]
      cases f q v with
      | none => exact ih
      | some w =>
        simp only [map_some]
        rw [dlookup_cons_ne _ _ hq]
        exact ih

@[simp] theorem lookup_amend (f : (r : Row) → Val r → Option (Val r)) (σ : Db Val) (r : Row) :
    (amend f σ).lookup r = (σ.lookup r).bind (f r) :=
  dlookup_filterMap f r σ.nodupKeys

@[simp] theorem lookup_singleton_self (r : Row) (v : Val r) :
    (AList.singleton r v).lookup r = some v := by
  rw [← AList.insert_empty]
  exact AList.lookup_insert _

theorem lookup_singleton_ne {r q : Row} (v : Val r) (h : q ≠ r) :
    (AList.singleton r v).lookup q = none := by
  rw [← AList.insert_empty, AList.lookup_insert_ne h]
  exact AList.lookup_empty q

theorem mem_keys_iff_lookup {σ : Db Val} {r : Row} : r ∈ σ.keys ↔ ∃ v, σ.lookup r = some v := by
  rw [← AList.mem_keys, ← AList.lookup_isSome, isSome_iff_exists]

theorem keys_eq_nil_iff {σ : Db Val} : σ.keys = [] ↔ ∀ r, σ.lookup r = none := by
  rw [eq_nil_iff_forall_not_mem]
  refine forall_congr' fun r => ?_
  rw [← AList.mem_keys, AList.lookup_eq_none]

theorem eq_empty_of_lookup {σ : Db Val} (h : ∀ r, σ.lookup r = none) : σ = ∅ :=
  AList.ext (map_eq_nil_iff.mp (keys_eq_nil_iff.mpr h))

end TxLang
