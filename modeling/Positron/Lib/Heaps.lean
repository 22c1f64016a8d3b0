import Mathlib.Logic.Equiv.Basic

/-! Heaps in numbered places, the greatest at the top: what one move of a sift keeps, and where it may stop. -/

namespace Heaps

universe u
variable {α : Type u} {R : α → α → Prop} {f : Nat → α} {low hole last c : Nat}

def Child (i j : Nat) : Prop := j = 2 * i + 1 ∨ j = 2 * i + 2

/-- From `low` on, no child is above its parent. -/
def Ordered (R : α → α → Prop) (f : Nat → α) (low last : Nat) : Prop :=
  ∀ i j, Child i j → low ≤ i → j < last → R (f j) (f i)

/-- The same apart from the children of the hole, which are not above the parent of the hole. -/
structure Sifting (R : α → α → Prop) (f : Nat → α) (low hole last : Nat) : Prop where
  except : ∀ i j, Child i j → low ≤ i → j < last → i ≠ hole → R (f j) (f i)
  grand : ∀ i j, Child i hole → Child hole j → low ≤ i → j < last → R (f j) (f i)

theorem Sifting.finish (h : Sifting R f low hole last) (hstop : ∀ j, Child hole j → j < last → R (f j) (f hole)) :
    Ordered R f low last := by
  intro i j hchild hlow hlt
  by_cases hi : i = hole
  · rw [hi] at hchild ⊢
    exact hstop j hchild hlt
  · exact h.except i j hchild hlow hlt hi

/-- The hole moves to the greatest of its children. -/
theorem Sifting.move (h : Sifting R f low hole last) (hchild : Child hole c) (hlt : c < last)
    (habove : R (f hole) (f c))
    (hgreatest : ∀ j, Child hole j → j < last → R (f j) (f c)) : Sifting R (f ∘ Equiv.swap hole c) low c last := by
  have hswap : ∀ i, (f ∘ Equiv.swap hole c) i = if i = hole then f c else if i = c then f hole else f i := by
    intro i
    rw [Function.comp, Equiv.swap_apply_def]
    split_ifs <;> rfl
  constructor
  · intro i j hij hlow hj hi
    rw [hswap, hswap]
    grind [h.except i j, h.grand i c, hgreatest j, Child]
  · intro i j hi hj hlow hjlt
    rw [hswap, hswap]
    grind [h.except c j, Child]

/-- The top of a heap is above everything in it. -/
theorem Ordered.top (hrefl : ∀ a, R a a) (htrans : ∀ {a b c}, R a b → R b c → R a c) (h : Ordered R f 0 last) :
    ∀ j < last, R (f j) (f 0) := by
  intro j
  induction j using Nat.strongRecOn with
  | ind j ih =>
    intro hlt
    rcases Nat.eq_zero_or_pos j with rfl | hpos
    · exact hrefl _
    · have hparent := h ((j - 1) / 2) j (by unfold Child; omega) (Nat.zero_le _) hlt
      exact htrans hparent (ih _ (by omega) (by omega))

theorem Ordered.sifting (h : Ordered R f (hole + 1) last) : Sifting R f hole hole last :=
  ⟨fun i j hij hlow hj hi => h i j hij (by omega) hj, fun i j hi _ hlow _ => by unfold Child at hi; omega⟩

/-- The top is exchanged for the last place, which leaves the heap. -/
theorem Ordered.sifting_swap (h : Ordered R f 0 (last + 1)) : Sifting R (f ∘ Equiv.swap 0 last) 0 0 last := by
  refine ⟨fun i j hij hlow hj hi => ?_, fun i _ hi => by unfold Child at hi; omega⟩
  have hlower : i < j := by unfold Child at hij; omega
  rw [Function.comp, Function.comp, Equiv.swap_apply_of_ne_of_ne (by omega) (by omega),
    Equiv.swap_apply_of_ne_of_ne hi (by omega)]
  exact h i j hij hlow (by omega)

end Heaps
