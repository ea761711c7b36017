import Mathlib.Data.List.Induction
import Mathlib.Data.List.Perm.Basic
import Mathlib.Data.List.Perm.Subperm
import Mathlib.Data.List.Sort

/-!
# Maps that are iterated in no order

A map as a program meets it: a list of entries, one a key, whose order means
nothing (`Same`). What a program writes of a map it writes in the order of the
keys (`listing`), and that listing determines the map (`listing_eq_iff`). Built
up entry by entry, a map keeps the last value of a key (`ofList`).
-/

namespace ReliableMessaging

open List

/-- A map, in the order in which an iteration meets its entries. -/
structure Map (κ ν : Type) where
  entries : List (κ × ν)
  distinct : (entries.map Prod.fst).Nodup

namespace Map

variable {κ ν : Type}

def empty : Map κ ν := ⟨[], nodup_nil⟩

def Same (m m' : Map κ ν) : Prop := m.entries.Perm m'.entries

theorem ext_entries {m m' : Map κ ν} (h : m.entries = m'.entries) : m = m' := by
  cases m
  cases m'
  cases h
  rfl

theorem entries_nodup (m : Map κ ν) : m.entries.Nodup := m.distinct.of_map

/-- The same map with keys and values renamed, no two keys alike. -/
def rename {κ' ν' : Type} (f : κ → κ') (hf : Function.Injective f) (g : ν → ν') (m : Map κ ν) :
    Map κ' ν' where
  entries := m.entries.map fun e => (f e.1, g e.2)
  distinct := by
    have hkeys : (m.entries.map fun e => (f e.1, g e.2)).map Prod.fst =
        (m.entries.map Prod.fst).map f := by
      simp [Function.comp_def]
    rw [hkeys]
    exact m.distinct.map hf

/-! ## Looking up -/

section Lookup

variable [DecidableEq κ]

def get? (m : Map κ ν) (key : κ) : Option ν := m.entries.lookup key

theorem lookup_eq_some {entries : List (κ × ν)} (h : (entries.map Prod.fst).Nodup) {key : κ}
    {value : ν} : entries.lookup key = some value ↔ (key, value) ∈ entries := by
  induction entries with
  | nil => simp
  | cons e entries ih =>
    obtain ⟨k, v⟩ := e
    obtain ⟨hnew, hrest⟩ := nodup_cons.mp h
    by_cases hkey : key = k
    · subst hkey
      have hother : (key, value) ∉ entries := fun h => hnew (mem_map.mpr ⟨_, h, rfl⟩)
      simp [hother, eq_comm]
    · have hhead : (key, value) ≠ (k, v) := fun h => hkey (congrArg Prod.fst h)
      rw [lookup_cons, beq_false_of_ne hkey, mem_cons, or_iff_right hhead]
      exact ih hrest

theorem get?_eq_some {m : Map κ ν} {key : κ} {value : ν} :
    m.get? key = some value ↔ (key, value) ∈ m.entries :=
  lookup_eq_some m.distinct

theorem same_iff {m m' : Map κ ν} : m.Same m' ↔ ∀ key, m.get? key = m'.get? key := by
  constructor
  · intro h key
    ext value
    rw [get?_eq_some, get?_eq_some, h.mem_iff]
  · intro h
    refine (perm_ext_iff_of_nodup m.entries_nodup m'.entries_nodup).mpr fun e => ?_
    rw [← get?_eq_some, ← get?_eq_some, h]

def get [Inhabited ν] (m : Map κ ν) (key : κ) : ν := (m.get? key).getD default

end Lookup

/-! ## Listing -/

section Listing

variable [LE κ] [DecidableLE κ]

def sortedKeys (m : Map κ ν) : List κ :=
  (m.entries.map Prod.fst).mergeSort fun a b => decide (a ≤ b)

theorem sortedKeys_congr [Std.IsLinearOrder κ] {m m' : Map κ ν} (h : m.Same m') :
    m.sortedKeys = m'.sortedKeys := by
  have hsorted : ∀ keys : List κ,
      (keys.mergeSort fun a b => decide (a ≤ b)).Pairwise fun a b => a ≤ b := by
    intro keys
    refine (pairwise_mergeSort ?_ ?_ keys).imp of_decide_eq_true
    · intro a b c hab hbc
      exact decide_eq_true (Std.le_trans (of_decide_eq_true hab) (of_decide_eq_true hbc))
    · intro a b
      simpa using Std.le_total
  refine List.Perm.eq_of_pairwise (fun a b _ _ hab hba => Std.le_antisymm hab hba) (hsorted _)
    (hsorted _) ?_
  exact ((mergeSort_perm _ _).trans (h.map _)).trans (mergeSort_perm _ _).symm

variable [DecidableEq κ] [Inhabited ν]

def listing (m : Map κ ν) : List (κ × ν) := m.sortedKeys.map fun key => (key, m.get key)

theorem listing_perm (m : Map κ ν) : m.listing.Perm m.entries := by
  have hkeys : m.sortedKeys.Perm (m.entries.map Prod.fst) := mergeSort_perm _ _
  have hself : (m.entries.map Prod.fst).map (fun key => (key, m.get key)) = m.entries := by
    rw [map_map]
    refine (map_congr_left fun e he => ?_).trans (map_id _)
    simp [get, get?_eq_some.mpr he]
  exact (hkeys.map _).trans (.of_eq hself)

@[simp] theorem listing_empty : (empty : Map κ ν).listing = [] := (listing_perm empty).eq_nil

theorem listing_eq_iff [Std.IsLinearOrder κ] {m m' : Map κ ν} :
    m.listing = m'.listing ↔ m.Same m' := by
  constructor
  · intro h
    exact m.listing_perm.symm.trans (h ▸ m'.listing_perm)
  · intro h
    have hget : m.get = m'.get := funext fun key => by rw [get, get, same_iff.mp h key]
    rw [listing, listing, sortedKeys_congr h, hget]

end Listing

/-! ## Building up -/

section Building

variable [DecidableEq κ]

def insert (m : Map κ ν) (key : κ) (value : ν) : Map κ ν where
  entries := m.entries.filter (fun e => e.1 ≠ key) ++ [(key, value)]
  distinct := by
    rw [map_append, map_singleton]
    refine (nodup_append.mpr ⟨?_, nodup_singleton _, ?_⟩)
    · exact m.distinct.sublist (filter_sublist.map _)
    · rintro a ha b hb rfl
      obtain ⟨e, he, rfl⟩ := mem_map.mp ha
      simp only [mem_filter, decide_eq_true_eq] at he
      exact he.2 (mem_singleton.mp hb)

/-- Of several entries for a key the last one counts. -/
def ofList (entries : List (κ × ν)) : Map κ ν :=
  entries.foldl (fun m e => m.insert e.1 e.2) empty

theorem ofList_append_singleton (entries : List (κ × ν)) (e : κ × ν) :
    ofList (entries ++ [e]) = (ofList entries).insert e.1 e.2 := by
  rw [ofList, foldl_append]
  rfl

theorem ofList_sublist (entries : List (κ × ν)) : (ofList entries).entries.Sublist entries := by
  induction entries using List.reverseRecOn with
  | nil => exact List.Sublist.refl _
  | append_singleton entries e ih =>
    rw [ofList_append_singleton]
    exact (filter_sublist.trans ih).append (List.Sublist.refl _)

theorem ofList_of_distinct {entries : List (κ × ν)} (h : (entries.map Prod.fst).Nodup) :
    (ofList entries).entries = entries := by
  induction entries using List.reverseRecOn with
  | nil => rfl
  | append_singleton entries e ih =>
    rw [map_append, nodup_append] at h
    obtain ⟨hfirst, -, hne⟩ := h
    rw [ofList_append_singleton]
    simp only [insert, ih hfirst]
    rw [filter_eq_self.mpr fun e' he' => ?_]
    simpa using hne e'.1 (mem_map_of_mem he') e.1 (by simp)

end Building

end Map

end ReliableMessaging
