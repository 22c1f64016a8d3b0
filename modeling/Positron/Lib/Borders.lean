import Mathlib.Data.List.Basic

/-! The longest first part of a pattern that ends a text, and how it moves when the text grows by one
symbol. A border of the pattern is the longest first part that ends a tail of the pattern itself. -/

namespace Borders
open List

variable {α : Type} {pattern text : List α} {c : α} {j k : Nat}

structure Longest (pattern text : List α) (k : Nat) : Prop where
  le : k ≤ pattern.length
  suffix : pattern.take k <:+ text
  longest : ∀ j ≤ pattern.length, pattern.take j <:+ text → j ≤ k

/-- `k` symbols end the text, and no longer part of the pattern can be continued by `c`. -/
structure Reaches (pattern text : List α) (c : α) (k : Nat) : Prop where
  le : k ≤ pattern.length
  suffix : pattern.take k <:+ text
  longest : ∀ j, pattern[j]? = some c → pattern.take j <:+ text → j ≤ k

theorem longest_nil (pattern : List α) : Longest pattern [] 0 := by
  refine ⟨Nat.zero_le _, suffix_rfl, ?_⟩
  intro j hj hsuffix
  have hle := hsuffix.length_le
  rw [length_take, length_nil] at hle
  omega

theorem Longest.le_text (h : Longest pattern text k) : k ≤ text.length := by
  have hle := h.suffix.length_le
  have hk := h.le
  rw [length_take] at hle
  omega

theorem take_succ_suffix_concat_iff (hj : j < pattern.length) :
    pattern.take (j + 1) <:+ text ++ [c] ↔ pattern[j]? = some c ∧ pattern.take j <:+ text := by
  rw [take_add_one, getElem?_eq_getElem hj, Option.toList_some, suffix_concat_iff, Option.some_inj]
  constructor
  · rintro (hnil | ⟨rest, hrest, hsuffix⟩)
    · exact absurd hnil (append_ne_nil_of_right_ne_nil _ (cons_ne_nil _ _))
    · obtain ⟨rfl, hc⟩ := append_inj' hrest rfl
      exact ⟨by simpa using hc, hsuffix⟩
  · rintro ⟨rfl, hsuffix⟩
    exact .inr ⟨_, rfl, hsuffix⟩

theorem Longest.reaches (h : Longest pattern text k) (c : α) : Reaches pattern text c k := by
  refine ⟨h.le, h.suffix, ?_⟩
  intro j hj hsuffix
  obtain ⟨hlt, -⟩ := List.getElem?_eq_some_iff.mp hj
  exact h.longest j (Nat.le_of_lt hlt) hsuffix

theorem Reaches.grows (h : Reaches pattern text c k) (hc : pattern[k]? = some c) :
    Longest pattern (text ++ [c]) (k + 1) := by
  obtain ⟨hlt, -⟩ := List.getElem?_eq_some_iff.mp hc
  refine ⟨hlt, (take_succ_suffix_concat_iff hlt).mpr ⟨hc, h.suffix⟩, ?_⟩
  intro j hj hsuffix
  cases j with
  | zero => exact Nat.zero_le _
  | succ j =>
    obtain ⟨hnext, hsuffix⟩ := (take_succ_suffix_concat_iff hj).mp hsuffix
    exact Nat.succ_le_succ (h.longest j hnext hsuffix)

theorem Reaches.resets (h : Reaches pattern text c 0) (hc : pattern[0]? ≠ some c) :
    Longest pattern (text ++ [c]) 0 := by
  refine ⟨h.le, nil_suffix, ?_⟩
  intro j hj hsuffix
  cases j with
  | zero => exact Nat.le_refl _
  | succ j =>
    obtain ⟨hnext, hsuffix⟩ := (take_succ_suffix_concat_iff hj).mp hsuffix
    obtain rfl := Nat.le_zero.mp (h.longest j hnext hsuffix)
    exact absurd hnext hc

/-- A shorter part that ends the same text ends the longer part, and its tail. -/
theorem suffix_tail_of_lt (hk : k ≤ pattern.length) (hjk : j < k) (hj : pattern.take j <:+ text)
    (hsuffix : pattern.take k <:+ text) : pattern.take j <:+ (pattern.take k).tail := by
  refine suffix_of_suffix_length_le hj ((tail_suffix _).trans hsuffix) ?_
  rw [length_take, length_tail, length_take]
  omega

/-- Where the pattern does not go on with `c`, the border of what was reached takes its place. -/
theorem Reaches.fallBack {f : Nat} (h : Reaches pattern text c k) (hc : pattern[k]? ≠ some c)
    (hf : Longest pattern (pattern.take k).tail f) : Reaches pattern text c f := by
  refine ⟨hf.le, hf.suffix.trans ((tail_suffix _).trans h.suffix), ?_⟩
  intro j hj hsuffix
  obtain ⟨hlt, -⟩ := List.getElem?_eq_some_iff.mp hj
  have hne : j ≠ k := fun heq => hc (heq ▸ hj)
  have hjk := Nat.lt_of_le_of_ne (h.longest j hj hsuffix) hne
  exact hf.longest j (Nat.le_of_lt hlt) (suffix_tail_of_lt h.le hjk hsuffix h.suffix)

theorem Longest.eq_length_iff (h : Longest pattern text k) : k = pattern.length ↔ pattern <:+ text := by
  constructor
  · rintro rfl
    simpa using h.suffix
  · intro hsuffix
    exact Nat.le_antisymm h.le (h.longest _ (Nat.le_refl _) (by simpa using hsuffix))

end Borders
