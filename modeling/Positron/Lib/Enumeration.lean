import Mathlib.Tactic.Linarith

/-! Types given by a complete list of their values, and the loops that visit the values in the
order of that list and stop at the first failure. -/

namespace Enumeration

/-- A type whose values can be listed. -/
class Listed (ι : Type) where
  all : List ι
  mem_all : ∀ i, i ∈ all

open Listed List

variable {ι α ε : Type}

instance decidableForall [Listed ι] {P : ι → Prop} [DecidablePred P] : Decidable (∀ i, P i) :=
  decidable_of_iff (∀ i ∈ all (ι := ι), P i) ⟨fun h i => h i (mem_all i), fun h i _ => h i⟩

def visit [Listed ι] (check : ι → Except ε PUnit) : Except ε PUnit := forM (all (ι := ι)) check

variable {check : ι → Except ε PUnit} {e : ε} {f : ι → Option α}

theorem forM_eq_ok_iff (values : List ι) : forM values check = .ok ⟨⟩ ↔ ∀ i ∈ values, check i = .ok ⟨⟩ := by
  induction values with
  | nil => exact ⟨fun _ _ h => absurd h not_mem_nil, fun _ => rfl⟩
  | cons i values ih =>
    rw [forM_cons, forall_mem_cons]
    cases hi : check i with
    | ok _ => exact ⟨fun h => ⟨rfl, ih.mp h⟩, fun h => ih.mpr h.2⟩
    | error e => exact ⟨fun h => (nomatch h), fun h => (nomatch h.1)⟩

theorem visit_eq_ok_iff [Listed ι] : visit check = .ok ⟨⟩ ↔ ∀ i, check i = .ok ⟨⟩ := by
  unfold visit
  rw [forM_eq_ok_iff]
  exact ⟨fun h i => h i (mem_all i), fun h i _ => h i⟩

/-- The table of the results of `f`, if every value has one. -/
def gather [Listed ι] (f : ι → Option α) : Option (ι → α) :=
  if h : ∀ i, (f i).isSome then some fun i => (f i).get (h i) else none

theorem gather_eq_some_iff [Listed ι] {table : ι → α} : gather f = some table ↔ ∀ i, f i = some (table i) := by
  unfold gather
  split
  · rw [Option.some_inj, funext_iff]
    apply forall_congr'
    intro i
    rw [← Option.some_inj, Option.some_get]
  · rename_i h
    refine ⟨fun hnone => (nomatch hnone), fun hsome => absurd (fun i => ?_) h⟩
    rw [hsome i, Option.isSome_some]

theorem gather_eq_none_iff [Listed ι] : gather f = none ↔ ∃ i, f i = none := by
  unfold gather
  split
  · rename_i h
    refine ⟨fun hsome => (nomatch hsome), ?_⟩
    rintro ⟨i, hi⟩
    have hsome := h i
    rw [hi] at hsome
    cases hsome
  · rename_i h
    refine ⟨fun _ => ?_, fun _ => rfl⟩
    rw [not_forall] at h
    obtain ⟨i, hi⟩ := h
    exact ⟨i, Option.not_isSome_iff_eq_none.mp hi⟩

section Collect

variable [DecidableEq ι]

/-- Fills a table with the results of `f`, entry by entry. -/
def collectFrom {m : Type → Type} [Monad m] (f : ι → m α) (values : List ι) (table : ι → α) : m (ι → α) :=
  values.foldlM (fun filled i => do return Function.update filled i (← f i)) table

def collect {m : Type → Type} [Monad m] [Listed ι] (f : ι → m α) (table : ι → α) : m (ι → α) :=
  collectFrom f all table

variable {f : ι → Except ε α} {table filled : ι → α} {values : List ι} {e : ε}

theorem collectFrom_ok (h : collectFrom f values table = .ok filled) (i : ι) :
    (i ∈ values ∧ f i = .ok (filled i)) ∨ (i ∉ values ∧ filled i = table i) := by
  induction values generalizing table with
  | nil =>
    cases h
    exact .inr ⟨not_mem_nil, rfl⟩
  | cons j values ih =>
    unfold collectFrom at h
    rw [foldlM_cons] at h
    cases hj : f j with
    | error e =>
      rw [hj] at h
      cases h
    | ok a =>
      rw [hj] at h
      rcases ih h with ⟨hmem, hval⟩ | ⟨hmem, hval⟩
      · exact .inl ⟨mem_cons_of_mem _ hmem, hval⟩
      · by_cases heq : i = j
        · subst heq
          rw [Function.update_self] at hval
          exact .inl ⟨mem_cons_self, by rw [hval, hj]⟩
        · rw [Function.update_of_ne heq] at hval
          refine .inr ⟨?_, hval⟩
          rw [mem_cons, not_or]
          exact ⟨heq, hmem⟩

theorem collectFrom_error {table : ι → α}
    (h : collectFrom f values table = .error e) : ∃ i ∈ values, f i = .error e := by
  induction values generalizing table with
  | nil => cases h
  | cons j values ih =>
    unfold collectFrom at h
    rw [foldlM_cons] at h
    cases hj : f j with
    | error e' =>
      rw [hj] at h
      cases h
      exact ⟨j, mem_cons_self, hj⟩
    | ok a =>
      rw [hj] at h
      obtain ⟨i, hi, herror⟩ := ih h
      exact ⟨i, mem_cons_of_mem _ hi, herror⟩

variable [Listed ι]

theorem collect_ok (h : collect f table = .ok filled) (i : ι) : f i = .ok (filled i) := by
  rcases collectFrom_ok h i with ⟨_, hval⟩ | ⟨hmem, _⟩
  · exact hval
  · exact absurd (mem_all i) hmem

theorem collect_error {table : ι → α} (h : collect f table = .error e) : ∃ i, f i = .error e := by
  obtain ⟨i, _, hi⟩ := collectFrom_error h
  exact ⟨i, hi⟩

theorem collect_eq_ok (h : ∀ i, f i = .ok (filled i)) : collect f table = .ok filled := by
  cases hcollect : collect f table with
  | error e =>
    obtain ⟨i, hi⟩ := collect_error hcollect
    rw [h i] at hi
    cases hi
  | ok filled' =>
    congr 1
    funext i
    have hi := collect_ok hcollect i
    rw [h i] at hi
    exact (Except.ok.inj hi).symm

end Collect

end Enumeration
