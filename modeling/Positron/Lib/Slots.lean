import Mathlib.Algebra.Order.BigOperators.Group.List
import Mathlib.Data.List.Nodup
import Mathlib.Data.List.Range
import Mathlib.Tactic.Linarith

/-! Tables of slots, each empty or holding an entry: sums over the entries, and the list of the
slots that are free. -/

namespace Slots
open List Option

variable {ρ : Type}
variable {table : List (Option ρ)}

/-- The entry in a slot, if the slot is occupied. -/
def entry (table : List (Option ρ)) (i : Nat) : Option ρ := table[i]?.join

/-- The sum of a weight over all entries. -/
def tally (weight : ρ → Nat) (table : List (Option ρ)) : Nat :=
  (table.map fun slot => slot.elim 0 weight).sum

theorem entry_eq_some_iff {i : Nat} {r : ρ} : entry table i = some r ↔ table[i]? = some (some r) := by
  unfold entry
  rw [join_eq_some_iff]

theorem lt_of_entry {i : Nat} {r : ρ} (h : entry table i = some r) : i < table.length := by
  obtain ⟨hlt, _⟩ := List.getElem?_eq_some_iff.mp (entry_eq_some_iff.mp h)
  exact hlt

theorem entry_eq_none_of_empty {i : Nat} (h : table[i]? = some none) : entry table i = none := by
  unfold entry
  rw [h]
  rfl

theorem entry_set_self {i : Nat} (h : i < table.length) (o : Option ρ) : entry (table.set i o) i = o := by
  unfold entry
  rw [getElem?_set_self h]
  cases o <;> rfl

theorem entry_set_ne {i j : Nat} (h : i ≠ j) (o : Option ρ) : entry (table.set i o) j = entry table j := by
  unfold entry
  rw [getElem?_set_ne h]

theorem entry_set {i j : Nat} (h : i < table.length) (o : Option ρ) :
    entry (table.set i o) j = if i = j then o else entry table j := by
  split
  · rename_i hij
    rw [← hij, entry_set_self h]
  · rename_i hij
    exact entry_set_ne hij o

section Tally

variable {w w' : ρ → Nat} {table : List (Option ρ)} {i : Nat} {r : ρ}

theorem tally_set (w : ρ → Nat) (h : i < table.length) (o : Option ρ) :
    tally w (table.set i o) + (entry table i).elim 0 w = tally w table + o.elim 0 w := by
  induction table generalizing i with
  | nil => exact absurd h (Nat.not_lt_zero i)
  | cons slot table ih =>
    cases i with
    | zero =>
      simp only [tally, entry, set_cons_zero, map_cons, sum_cons, getElem?_cons_zero, join_some]
      omega
    | succ i =>
      have hrest := ih (Nat.lt_of_succ_lt_succ h)
      simp only [tally, entry, set_cons_succ, map_cons, sum_cons, getElem?_cons_succ] at hrest ⊢
      omega

theorem tally_set_some (w : ρ → Nat) (h : entry table i = some r) (o : Option ρ) :
    tally w (table.set i o) + w r = tally w table + o.elim 0 w := by
  have hset := tally_set w (lt_of_entry h) o
  rw [h] at hset
  exact hset

theorem tally_set_empty (w : ρ → Nat) (h : table[i]? = some none) (r : ρ) :
    tally w (table.set i (some r)) = tally w table + w r := by
  obtain ⟨hlt, _⟩ := List.getElem?_eq_some_iff.mp h
  have hset := tally_set w hlt (some r)
  rw [entry_eq_none_of_empty h] at hset
  exact hset

theorem tally_cons (w : ρ → Nat) (slot : Option ρ) (table : List (Option ρ)) :
    tally w (slot :: table) = slot.elim 0 w + tally w table := by
  simp only [tally, map_cons, sum_cons]

theorem tally_le (h : ∀ i r, entry table i = some r → w r ≤ w' r) : tally w table ≤ tally w' table := by
  induction table with
  | nil => exact Nat.le_refl _
  | cons slot table ih =>
    have hrest := ih fun i r hr => h (i + 1) r hr
    cases slot with
    | none => exact Nat.add_le_add_left hrest _
    | some r => exact Nat.add_le_add (h 0 r rfl) hrest

theorem tally_add (w w' : ρ → Nat) (table : List (Option ρ)) :
    tally (fun r => w r + w' r) table = tally w table + tally w' table := by
  induction table with
  | nil => rfl
  | cons slot table ih =>
    rw [tally_cons, tally_cons, tally_cons]
    cases slot with
    | none => simp only [elim_none]; omega
    | some r => simp only [elim_some]; omega

theorem tally_zero (table : List (Option ρ)) : tally (fun _ => 0) table = 0 := by
  induction table with
  | nil => rfl
  | cons slot table ih =>
    rw [tally_cons, ih]
    cases slot <;> rfl

/-- Sums over the entries and over a list of weights can be exchanged. -/
theorem tally_sum {ι : Type} (f : ι → ρ → Nat) (indices : List ι) (table : List (Option ρ)) :
    tally (fun r => (indices.map fun i => f i r).sum) table = (indices.map fun i => tally (f i) table).sum := by
  induction indices with
  | nil => exact tally_zero table
  | cons i indices ih =>
    simp only [map_cons, sum_cons]
    rw [tally_add, ih]

theorem le_tally (w : ρ → Nat) (h : entry table i = some r) : w r ≤ tally w table := by
  have hset := tally_set_some w h none
  simp only [elim_none] at hset
  omega

theorem tally_eq_zero (h : ∀ i r, entry table i = some r → w r = 0) : tally w table = 0 := by
  induction table with
  | nil => rfl
  | cons slot table ih =>
    rw [tally_cons, ih fun i r hr => h (i + 1) r hr]
    cases slot with
    | none => rfl
    | some r => exact h 0 r rfl

theorem exists_of_tally_pos (h : 0 < tally w table) : ∃ i r, entry table i = some r ∧ 0 < w r := by
  by_contra hnone
  have hzero : tally w table = 0 := by
    apply tally_eq_zero
    intro i r hr
    by_contra hw
    exact hnone ⟨i, r, hr, Nat.pos_of_ne_zero hw⟩
  omega

theorem entry_replicate_none (n i : Nat) : entry (List.replicate n (none : Option ρ)) i = none := by
  unfold entry
  rw [getElem?_replicate]
  split <;> rfl

theorem tally_replicate_none (w : ρ → Nat) (n : Nat) : tally w (List.replicate n none) = 0 := by
  apply tally_eq_zero
  intro i r hr
  rw [entry_replicate_none] at hr
  cases hr

end Tally

/-- The free list names every empty slot once. -/
structure Partitioned (table : List (Option ρ)) (free : List Nat) : Prop where
  nodup : free.Nodup
  mem_iff : ∀ i, i ∈ free ↔ table[i]? = some none

namespace Partitioned

variable {table : List (Option ρ)} {free : List Nat} {i : Nat} {r : ρ}

theorem initial (n : Nat) : Partitioned (List.replicate n (none : Option ρ)) (List.range n) where
  nodup := nodup_range
  mem_iff i := by
    rw [getElem?_replicate]
    split <;> simp [*]

theorem take (h : Partitioned table (i :: free)) (r : ρ) : Partitioned (table.set i (some r)) free where
  nodup := (nodup_cons.mp h.nodup).2
  mem_iff j := by
    have hi : table[i]? = some none := (h.mem_iff i).mp mem_cons_self
    obtain ⟨hlt, _⟩ := List.getElem?_eq_some_iff.mp hi
    by_cases hij : i = j
    · subst hij
      rw [getElem?_set_self hlt]
      simp [(nodup_cons.mp h.nodup).1]
    · rw [getElem?_set_ne hij, ← h.mem_iff, mem_cons]
      exact ⟨Or.inr, fun hj => hj.resolve_left (Ne.symm hij)⟩

theorem give (h : Partitioned table free) (hi : entry table i = some r) :
    Partitioned (table.set i none) (i :: free) where
  nodup := by
    refine nodup_cons.mpr ⟨fun hmem => ?_, h.nodup⟩
    rw [h.mem_iff, entry_eq_some_iff.mp hi] at hmem
    cases hmem
  mem_iff j := by
    by_cases hij : i = j
    · subst hij
      rw [getElem?_set_self (lt_of_entry hi)]
      simp
    · rw [getElem?_set_ne hij, ← h.mem_iff, mem_cons]
      exact ⟨fun hj => hj.resolve_left (Ne.symm hij), Or.inr⟩

theorem rewrite (h : Partitioned table free) (hi : entry table i = some r) (q : ρ) :
    Partitioned (table.set i (some q)) free where
  nodup := h.nodup
  mem_iff j := by
    by_cases hij : i = j
    · subst hij
      rw [h.mem_iff, getElem?_set_self (lt_of_entry hi), entry_eq_some_iff.mp hi]
      simp
    · rw [getElem?_set_ne hij, ← h.mem_iff]

theorem length_add_tally (h : Partitioned table free) :
    free.length + tally (fun _ => 1) table = table.length := by
  have hcount : ∀ table : List (Option ρ),
      table.countP Option.isNone + tally (fun _ => 1) table = table.length := by
    intro table
    induction table with
    | nil => rfl
    | cons slot table ih =>
      rw [tally_cons, countP_cons, length_cons]
      cases slot with
      | none => simp only [isNone_none, elim_none, if_true]; omega
      | some r => simp only [isNone_some, elim_some, Bool.false_eq_true, if_false]; omega
  have hperm : free.Perm ((List.range table.length).filter fun i => (entry table i).isNone) := by
    refine (perm_ext_iff_of_nodup h.nodup (nodup_range.filter _)).mpr fun i => ?_
    rw [h.mem_iff, mem_filter, mem_range, List.getElem?_eq_some_iff]
    constructor
    · rintro ⟨hlt, hi⟩
      refine ⟨hlt, ?_⟩
      rw [entry_eq_none_of_empty (List.getElem?_eq_some_iff.mpr ⟨hlt, hi⟩)]
      rfl
    · rintro ⟨hlt, hi⟩
      refine ⟨hlt, ?_⟩
      unfold entry at hi
      rw [getElem?_eq_getElem hlt] at hi
      exact isNone_iff_eq_none.mp hi
  have hfilter : ((List.range table.length).filter fun i => (entry table i).isNone).length =
      table.countP Option.isNone := by
    rw [← countP_eq_length_filter]
    have hmap : (List.range table.length).map (entry table) = table := by
      apply ext_getElem (by simp)
      intro i hi _
      rw [length_map, length_range] at hi
      simp [entry, getElem?_eq_getElem hi]
    conv_rhs => rw [← hmap, countP_map]
    rfl
  rw [hperm.length_eq, hfilter, hcount]

end Partitioned

end Slots
