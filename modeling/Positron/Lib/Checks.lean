import Mathlib.Tactic.Linarith

/-! Guards of computations that may fail, and the inversion of their sequences. -/

namespace Checks

universe u v
variable {ε : Type u} {α β : Type v}
variable {f : α → Except ε β}

/-- Passes if the condition holds. -/
def demand (c : Prop) [Decidable c] (e : ε) : Except ε PUnit := if c then .ok ⟨⟩ else .error e

/-- The value, if there is one. -/
def orFail (o : Option α) (e : ε) : Except ε α :=
  match o with
  | some a => .ok a
  | none => .error e

variable {c : Prop} {e : ε} {o : Option α} {a : α} {b : β} {xs : List α}

theorem demand_eq_ok_iff [Decidable c] {u : PUnit} : demand c e = .ok u ↔ c := by
  unfold demand
  split
  · rename_i hc
    exact ⟨fun _ => hc, fun _ => rfl⟩
  · rename_i hc
    exact ⟨fun h => (nomatch h), fun h => absurd h hc⟩

theorem demand_eq_error_iff [Decidable c] {e e' : ε} : demand c e = .error e' ↔ ¬ c ∧ e' = e := by
  unfold demand
  split
  · rename_i hc
    exact ⟨fun h => (nomatch h), fun h => absurd hc h.1⟩
  · rename_i hc
    exact ⟨fun h => ⟨hc, (Except.error.inj h).symm⟩, fun h => by rw [h.2]⟩

theorem ite_eq_ok_iff [Decidable c] {x : α} : (if c then .ok a else .error e) = Except.ok x ↔ c ∧ x = a := by
  split
  · rename_i hc
    exact ⟨fun h => ⟨hc, (Except.ok.inj h).symm⟩, fun h => by rw [h.2]⟩
  · rename_i hc
    exact ⟨fun h => (nomatch h), fun h => absurd h.1 hc⟩

theorem unless_ok [Decidable c] {x : Except ε α} (h : (if c then .error e else x) = .ok a) : ¬ c ∧ x = .ok a := by
  split at h
  · cases h
  · exact ⟨by assumption, h⟩

theorem orFail_eq_ok_iff : orFail o e = .ok a ↔ o = some a := by
  cases o with
  | none => exact ⟨fun h => (nomatch h), fun h => (nomatch h)⟩
  | some b => exact ⟨fun h => congrArg some (Except.ok.inj h), fun h => congrArg _ (Option.some.inj h)⟩

theorem orFail_eq_error_iff {e e' : ε} : orFail o e = .error e' ↔ o = none ∧ e' = e := by
  cases o with
  | none => exact ⟨fun h => ⟨rfl, (Except.error.inj h).symm⟩, fun h => congrArg _ h.2.symm⟩
  | some b => exact ⟨fun h => (nomatch h), fun h => (nomatch h.1)⟩

theorem orFail_some_bind (a : α) (e : ε) (f : α → Except ε β) : (orFail (some a) e >>= f) = f a := rfl

theorem bind_eq_of_ok {x : Except ε α} (h : x = .ok a) (f : α → Except ε β) : (x >>= f) = f a := by
  rw [h]
  rfl

theorem demand_bind [Decidable c] (hc : c) (e : ε) (f : PUnit → Except ε β) : (demand c e >>= f) = f ⟨⟩ :=
  bind_eq_of_ok (demand_eq_ok_iff.mpr hc) f

theorem bind_eq_ok_iff {x : Except ε α} : (x >>= f) = .ok b ↔ ∃ a, x = .ok a ∧ f a = .ok b := by
  cases x with
  | error e => exact ⟨fun h => (nomatch h), fun ⟨_, h, _⟩ => (nomatch h)⟩
  | ok a =>
    refine ⟨fun h => ⟨a, rfl, h⟩, ?_⟩
    rintro ⟨_, ha, hf⟩
    cases ha
    exact hf

theorem bind_ok {x : Except ε α} (h : (x >>= f) = .ok b) : ∃ a, x = .ok a ∧ f a = .ok b :=
  bind_eq_ok_iff.mp h

theorem bind_eq_error_iff {x : Except ε α} :
    (x >>= f) = .error e ↔ x = .error e ∨ ∃ a, x = .ok a ∧ f a = .error e := by
  cases x with
  | error e' =>
    refine ⟨fun h => Or.inl (by cases h; rfl), ?_⟩
    rintro (h | ⟨_, h, _⟩)
    · cases h
      rfl
    · cases h
  | ok a =>
    refine ⟨fun h => Or.inr ⟨a, rfl, h⟩, ?_⟩
    rintro (h | ⟨_, ha, hf⟩)
    · cases h
    · cases ha
      exact hf

/-- A fold keeps an invariant that speaks about the elements folded so far. -/
theorem foldlM_invariant {f : β → α → Except ε β} (Inv : List α → β → Prop)
    (hstep : ∀ done a b b', Inv done b → f b a = .ok b' → Inv (done ++ [a]) b') {xs done : List α} {b c : β}
    (hInv : Inv done b) (h : xs.foldlM f b = .ok c) : Inv (done ++ xs) c := by
  induction xs generalizing done b with
  | nil =>
    cases h
    rwa [List.append_nil]
  | cons a xs ih =>
    obtain ⟨b', hfirst, hrest⟩ := bind_ok h
    rw [List.append_cons]
    exact ih (hstep done a b b' hInv hfirst) hrest

theorem foldlM_keeps {f : β → α → Except ε β} (Inv : β → Prop)
    (hstep : ∀ a b b', Inv b → f b a = .ok b' → Inv b') {b c : β} (hInv : Inv b)
    (h : xs.foldlM f b = .ok c) : Inv c := by
  induction xs generalizing b with
  | nil =>
    cases h
    exact hInv
  | cons a xs ih =>
    obtain ⟨b', hfirst, hrest⟩ := bind_ok h
    exact ih (hstep a b b' hInv hfirst) hrest

/-- A fold that counts the bytes of every element counts the bytes of all of them. -/
theorem foldlM_counts {γ : Type u} {add : Nat → α → Except ε Nat} {layout : α → List γ} {P : α → Prop}
    {total found : Nat}
    (hone : ∀ a ∈ xs, ∀ total found, add total a = .ok found → P a ∧ total + (layout a).length = found)
    (h : xs.foldlM add total = .ok found) : (∀ a ∈ xs, P a) ∧ total + (xs.flatMap layout).length = found := by
  induction xs generalizing total with
  | nil =>
    cases h
    exact ⟨fun a ha => absurd ha List.not_mem_nil, rfl⟩
  | cons a xs ih =>
    obtain ⟨hone, hrest⟩ := List.forall_mem_cons.mp hone
    obtain ⟨middle, hfirst, h⟩ := bind_ok h
    obtain ⟨ha, hlen⟩ := hone total middle hfirst
    obtain ⟨hxs, hlens⟩ := ih hrest h
    rw [List.flatMap_cons, List.length_append]
    exact ⟨List.forall_mem_cons.mpr ⟨ha, hxs⟩, by omega⟩

theorem mapM_eq_ok {ys : List β} (h : xs.mapM f = .ok ys) :
    ys.length = xs.length ∧ ∀ (i : Nat) x, xs[i]? = some x → ∃ y, ys[i]? = some y ∧ f x = .ok y := by
  induction xs generalizing ys with
  | nil =>
    cases h
    exact ⟨rfl, fun i x hx => by simp at hx⟩
  | cons x xs ih =>
    rw [List.mapM_cons] at h
    obtain ⟨y, hy, h⟩ := bind_ok h
    obtain ⟨rest, hrest, h⟩ := bind_ok h
    cases h
    obtain ⟨hlen, hents⟩ := ih hrest
    refine ⟨congrArg (· + 1) hlen, fun i x' hx' => ?_⟩
    cases i with
    | zero =>
      cases hx'
      exact ⟨y, rfl, hy⟩
    | succ i =>
      exact hents i x' hx'

section Sums

variable {ε ε' : Type u} {α : Type v} {size : α → Except ε Nat} {size' : α → Except ε' Nat} {e : ε}
  {limit total found : Nat} {xs ys : List α}

/-- The sizes of the elements on top of a total. -/
def addUp (size : α → Except ε Nat) : Nat → List α → Except ε Nat
  | total, [] => .ok total
  | total, x :: xs => do addUp size (total + (← size x)) xs

/-- The same with every running total held against a limit. -/
def addUpWithin (size : α → Except ε Nat) (limit : Nat) (e : ε) : Nat → List α → Except ε Nat
  | total, [] => .ok total
  | total, x :: xs => do
    let bytes ← size x
    if limit < total + bytes then .error e else addUpWithin size limit e (total + bytes) xs

theorem le_addUp (h : addUp size total xs = .ok found) : total ≤ found := by
  induction xs generalizing total with
  | nil =>
    cases h
    exact le_rfl
  | cons x xs ih =>
    obtain ⟨bytes, -, hafter⟩ := bind_ok h
    exact (Nat.le_add_right total bytes).trans (ih hafter)

theorem addUpWithin_iff (htotal : total ≤ limit) :
    addUpWithin size limit e total xs = .ok found ↔ addUp size total xs = .ok found ∧ found ≤ limit := by
  induction xs generalizing total with
  | nil => exact ⟨fun h => ⟨h, by cases h; exact htotal⟩, And.left⟩
  | cons x xs ih =>
    rw [addUpWithin, addUp]
    constructor
    · intro h
      obtain ⟨bytes, hbytes, h⟩ := bind_ok h
      obtain ⟨hle, h⟩ := unless_ok h
      rw [bind_eq_of_ok hbytes]
      exact (ih (by omega)).mp h
    · rintro ⟨h, hle⟩
      obtain ⟨bytes, hbytes, h⟩ := bind_ok h
      have hsum := (le_addUp h).trans hle
      rw [bind_eq_of_ok hbytes, if_neg (by omega)]
      exact (ih hsum).mpr ⟨h, hle⟩

theorem addUp_transfer (hsize : ∀ x ∈ xs, ∀ bytes ≤ limit, size x = .ok bytes → size' x = .ok bytes)
    (hle : found ≤ limit) (h : addUp size total xs = .ok found) : addUp size' total xs = .ok found := by
  induction xs generalizing total with
  | nil => exact congrArg _ (Except.ok.inj h)
  | cons x xs ih =>
    obtain ⟨hfirst, hsize⟩ := List.forall_mem_cons.mp hsize
    obtain ⟨bytes, hbytes, h⟩ := bind_ok h
    have hsum := le_addUp h
    rw [addUp, bind_eq_of_ok (hfirst bytes (by omega) hbytes)]
    exact ih hsize h

theorem addUpWithin_ok (h : addUpWithin size limit e total xs = .ok found) : ∀ x ∈ xs, ∃ bytes, size x = .ok bytes := by
  induction xs generalizing total with
  | nil => exact fun x hmem => absurd hmem List.not_mem_nil
  | cons x xs ih =>
    obtain ⟨bytes, hbytes, h⟩ := bind_ok h
    exact List.forall_mem_cons.mpr ⟨⟨bytes, hbytes⟩, ih (unless_ok h).2⟩

/-- A list that keeps to another one element by element, each of them no greater, has no greater sum. -/
theorem addUp_kept (hkept : ∀ (i : Nat) y, ys[i]? = some y →
      ∃ x, xs[i]? = some x ∧ ∀ bytes, size x = .ok bytes → ∃ bytes' ≤ bytes, size y = .ok bytes')
    {total' : Nat} (htotal : total' ≤ total) (h : addUp size total xs = .ok found) :
    ∃ found' ≤ found, addUp size total' ys = .ok found' := by
  induction ys generalizing xs total total' with
  | nil => exact ⟨_, htotal.trans (le_addUp h), rfl⟩
  | cons y ys ih =>
    obtain ⟨x, hx, hfirst⟩ := hkept 0 y rfl
    cases xs with
    | nil => cases hx
    | cons head xs =>
      cases hx
      obtain ⟨bytes, hbytes, h⟩ := bind_ok h
      obtain ⟨bytes', hle, hbytes'⟩ := hfirst bytes hbytes
      rw [addUp, bind_eq_of_ok hbytes']
      exact ih (fun i => hkept (i + 1)) (Nat.add_le_add htotal hle) h

end Sums

end Checks
