import Mathlib.Tactic.Linarith

/-! Lists in the order of a key, and their parts between two bounds. -/

namespace Keyed
open List

variable {α γ : Type} [LinearOrder γ] {key : α → γ} {xs ys : List α} {low middle high : γ}

def Ascending (key : α → γ) (xs : List α) : Prop := xs.Pairwise fun a b => key a < key b

/-- The elements behind a bound, up to another one. -/
def between (key : α → γ) (xs : List α) (low high : γ) : List α :=
  xs.filter fun x => decide (low < key x ∧ key x ≤ high)

theorem mem_between {x : α} : x ∈ between key xs low high ↔ x ∈ xs ∧ low < key x ∧ key x ≤ high := by
  rw [between, mem_filter, decide_eq_true_eq]

theorem Ascending.between (h : Ascending key xs) : Ascending key (between key xs low high) := Pairwise.filter _ h

theorem between_of_le (h : high ≤ low) : between key xs low high = [] := by
  apply filter_eq_nil_iff.mpr
  intro x _ hin
  obtain ⟨hlow, hhigh⟩ := of_decide_eq_true hin
  exact absurd (le_trans hhigh h) (not_le.mpr hlow)

theorem between_congr {low' high' : γ} (h : ∀ x ∈ xs, (low < key x ∧ key x ≤ high) ↔ (low' < key x ∧ key x ≤ high')) :
    between key xs low high = between key xs low' high' :=
  filter_congr fun x hx => decide_eq_decide.mpr (h x hx)

/-- What comes later in a list stands behind the bound, so it adds nothing. -/
theorem between_append_of_lt (h : ∀ y ∈ ys, high < key y) :
    between key (xs ++ ys) low high = between key xs low high := by
  have hnone : between key ys low high = [] := by
    apply filter_eq_nil_iff.mpr
    intro y hy hin
    exact absurd (of_decide_eq_true hin).2 (not_le.mpr (h y hy))
  rw [between, filter_append]
  exact (congrArg _ hnone).trans (append_nil _)

/-- An ascending list is cut at a bound in the middle. -/
theorem between_split (hsorted : Ascending key xs) (hlow : ∀ x ∈ xs, middle < key x → low < key x)
    (hhigh : middle ≤ high) : between key xs low high = between key xs low middle ++ between key xs middle high := by
  unfold between
  induction xs with
  | nil => rfl
  | cons x xs ih =>
    obtain ⟨hfirst, hrest⟩ := pairwise_cons.mp hsorted
    have ih := ih hrest fun y hy => hlow y (mem_cons_of_mem _ hy)
    by_cases hmiddle : key x ≤ middle
    · have hskip : ¬ (middle < key x ∧ key x ≤ high) := fun h => absurd h.1 (not_lt.mpr hmiddle)
      have hle := le_trans hmiddle hhigh
      rw [filter_cons, filter_cons, filter_cons_of_neg (by simpa using hskip), ih]
      by_cases hin : low < key x
      · simp [hin, hmiddle, hle]
      · simp [hin]
    · -- From here on nothing stands up to the middle.
      have hbehind : ∀ y ∈ x :: xs, middle < key y := by
        intro y hy
        rcases mem_cons.mp hy with rfl | hy
        · exact not_le.mp hmiddle
        · exact lt_trans (not_le.mp hmiddle) (hfirst y hy)
      have hnone : (x :: xs).filter (fun y => decide (low < key y ∧ key y ≤ middle)) = [] := by
        apply filter_eq_nil_iff.mpr
        intro y hy hin
        exact absurd (of_decide_eq_true hin).2 (not_le.mpr (hbehind y hy))
      rw [hnone, nil_append]
      exact filter_congr fun y hy => by simp [hbehind y hy, hlow y hy (hbehind y hy)]

/-- Up to an element of its beginning, a list holds nothing that its beginning does not. -/
theorem filter_take_le (hsorted : Ascending key xs) {n : Nat} {x : α} (hx : x ∈ xs.take n) :
    (xs.take n).filter (fun y => decide (key y ≤ key x)) = xs.filter fun y => decide (key y ≤ key x) := by
  have hnone : (xs.drop n).filter (fun y => decide (key y ≤ key x)) = [] := by
    apply filter_eq_nil_iff.mpr
    intro y hy hle
    unfold Ascending at hsorted
    rw [← take_append_drop n xs] at hsorted
    exact absurd (of_decide_eq_true hle) (not_le.mpr ((pairwise_append.mp hsorted).2.2 x hx y hy))
  conv_rhs => rw [← take_append_drop n xs]
  rw [filter_append, hnone, append_nil]

theorem filter_between_le (hmiddle : middle ≤ high) :
    (between key xs low high).filter (fun x => decide (key x ≤ middle)) = between key xs low middle := by
  unfold between
  rw [filter_filter]
  apply filter_congr
  intro x _
  by_cases hx : key x ≤ middle
  · simp [hx, le_trans hx hmiddle]
  · simp [hx]

theorem filter_le_last (h : Ascending key xs) {last : α} (hlast : xs.getLast? = some last) :
    (xs.filter fun x => decide (key x ≤ key last)) = xs := by
  apply filter_eq_self.mpr
  intro x hx
  obtain ⟨before, rfl⟩ := getLast?_eq_some_iff.mp hlast
  apply decide_eq_true
  rcases mem_append.mp hx with hx | hx
  · exact le_of_lt ((pairwise_append.mp h).2.2 x hx last mem_cons_self)
  · rw [mem_singleton.mp hx]

end Keyed
