import Mathlib.Logic.Function.Iterate
import Mathlib.Tactic.Linarith

/-! Runs of a machine whose step may refuse an event, with the rules that carry a fact from one
step to a whole run. -/

namespace Runs

universe u v
variable {σ : Type u} {ε : Type v} {step : σ → ε → Option σ}
variable {events : List ε}

/-- The state after a list of events, if each of them is accepted in its turn. -/
def run (step : σ → ε → Option σ) : σ → List ε → Option σ
  | s, [] => some s
  | s, e :: events => (step s e).bind fun s' => run step s' events

/-- Every event of the run meets a condition on the state it arrives in. -/
def EveryStep (step : σ → ε → Option σ) (P : σ → ε → Prop) : σ → List ε → Prop
  | _, [] => True
  | s, e :: events => P s e ∧ ∀ s', step s e = some s' → EveryStep step P s' events

variable {P : σ → ε → Prop} {e : ε}

theorem everyStep_cons_iff {s s' : σ} (h : step s e = some s') :
    EveryStep step P s (e :: events) ↔ P s e ∧ EveryStep step P s' events := by
  constructor
  · rintro ⟨hP, hsteps⟩
    exact ⟨hP, hsteps s' h⟩
  · rintro ⟨hP, hsteps⟩
    refine ⟨hP, ?_⟩
    intro s'' hs''
    rw [h] at hs''
    cases hs''
    exact hsteps

theorem everyStep_of_forall (h : ∀ e ∈ events, ∀ s, P s e) (s : σ) : EveryStep step P s events := by
  induction events generalizing s with
  | nil => exact trivial
  | cons e events ih =>
    refine ⟨h e List.mem_cons_self s, fun s' _ => ih ?_ s'⟩
    exact fun later hlater => h later (List.mem_cons_of_mem _ hlater)

instance decidableEveryStep {P : σ → ε → Prop} [∀ s e, Decidable (P s e)] :
    (s : σ) → (events : List ε) → Decidable (EveryStep step P s events)
  | _, [] => isTrue trivial
  | s, e :: events =>
    match h : step s e with
    | none => decidable_of_iff (P s e)
        ⟨fun hP => ⟨hP, fun _ hs => nomatch h.symm.trans hs⟩, fun hsteps => hsteps.1⟩
    | some s' =>
      have := decidableEveryStep (P := P) s' events
      decidable_of_iff (P s e ∧ EveryStep step P s' events) (everyStep_cons_iff h).symm

theorem run_cons {s t : σ} (h : run step s (e :: events) = some t) :
    ∃ s', step s e = some s' ∧ run step s' events = some t :=
  Option.bind_eq_some_iff.mp h

variable {s t : σ}

/-- A fact that every accepted step preserves, where the step meets its condition, holds at the
end of every run whose steps all meet it. -/
theorem run_invariant (Inv : σ → Prop) (P : σ → ε → Prop)
    (hstep : ∀ s e s', Inv s → P s e → step s e = some s' → Inv s') (hs : Inv s)
    (hsteps : EveryStep step P s events) (hrun : run step s events = some t) : Inv t := by
  induction events generalizing s with
  | nil =>
    cases hrun
    exact hs
  | cons e events ih =>
    obtain ⟨s', hs', hrest⟩ := run_cons hrun
    exact ih (hstep s e s' hs hsteps.1 hs') (hsteps.2 s' hs') hrest

/-- When a lasting failure appears in exactly the steps that miss their condition, a run is free
of it if and only if every step meets the condition. -/
theorem run_free_iff (Inv Bad : σ → Prop) (Q : ε → Prop) (P : σ → ε → Prop)
    (hinv : ∀ s e s', Inv s → Q e → step s e = some s' → Inv s')
    (hlast : ∀ s e s', Bad s → step s e = some s' → Bad s')
    (hexact : ∀ s e s', Inv s → Q e → ¬ Bad s → step s e = some s' → (P s e ↔ ¬ Bad s')) (hs : Inv s)
    (hfree : ¬ Bad s) (hevents : ∀ e ∈ events, Q e) (hrun : run step s events = some t) :
    ¬ Bad t ↔ EveryStep step P s events := by
  have hlasting : ∀ {s t : σ} {events : List ε}, Bad s → run step s events = some t → Bad t := by
    intro s t events hbad hrun
    induction events generalizing s with
    | nil =>
      cases hrun
      exact hbad
    | cons e events ih =>
      obtain ⟨s', hs', hrest⟩ := run_cons hrun
      exact ih (hlast s e s' hbad hs') hrest
  induction events generalizing s with
  | nil =>
    cases hrun
    exact ⟨fun _ => trivial, fun _ => hfree⟩
  | cons e events ih =>
    obtain ⟨s', hs', hrest⟩ := run_cons hrun
    have he := hevents e List.mem_cons_self
    have hinv' := hinv s e s' hs he hs'
    have hiff := hexact s e s' hs he hfree hs'
    have hlater : ∀ e ∈ events, Q e := fun e he => hevents e (List.mem_cons_of_mem _ he)
    constructor
    · intro ht
      have hfree' : ¬ Bad s' := fun hbad => ht (hlasting hbad hrest)
      refine ⟨hiff.mpr hfree', ?_⟩
      intro s'' hs''
      rw [hs'] at hs''
      cases hs''
      exact (ih hinv' hfree' hlater hrest).mp ht
    · rintro ⟨hP, hsteps⟩
      exact (ih hinv' (hiff.mp hP) hlater hrest).mpr (hsteps s' hs')

theorem EveryStep.and {Q : σ → ε → Prop} (hP : EveryStep step P s events) (hQ : EveryStep step Q s events) :
    EveryStep step (fun s e => P s e ∧ Q s e) s events := by
  induction events generalizing s with
  | nil => exact trivial
  | cons e events ih => exact ⟨⟨hP.1, hQ.1⟩, fun s' hs' => ih (hP.2 s' hs') (hQ.2 s' hs')⟩

/-- Where a step that meets its condition has a property and keeps the invariant, every step of a run whose steps meet
their condition has the property. -/
theorem everyStep_of_invariant (Inv : σ → Prop) {P Q : σ → ε → Prop}
    (hstep : ∀ s e s', Inv s → Q s e → step s e = some s' → P s e ∧ Inv s') (hs : Inv s)
    (hrun : run step s events = some t) (hsteps : EveryStep step Q s events) : EveryStep step P s events := by
  induction events generalizing s with
  | nil => exact trivial
  | cons e events ih =>
    obtain ⟨s', hs', hrest⟩ := run_cons hrun
    rw [everyStep_cons_iff hs'] at hsteps ⊢
    obtain ⟨hP, hinv⟩ := hstep s e s' hs hsteps.1 hs'
    exact ⟨hP, ih hinv hrest hsteps.2⟩

section Reordering

variable {α β : Type} {act : List α → σ → β} {apart : α → α → Prop}

/-- The first list has `a` before `b`, and the second one `b` before `a`. -/
def Opposed (xs ys : List α) (a b : α) : Prop := [a, b].Sublist xs ∧ [b, a].Sublist ys

theorem Opposed.symm {xs ys : List α} {a b : α} (h : Opposed xs ys a b) : Opposed ys xs b a := ⟨h.2, h.1⟩

/-- Two orders of the same elements act alike when any two elements that they have in opposite orders may be
swapped where they stand side by side. -/
theorem act_of_perm (hcons : ∀ a xs ys, (∀ s, act xs s = act ys s) → ∀ s, act (a :: xs) s = act (a :: ys) s)
    (hswap : ∀ a b rest s, apart a b → act (a :: b :: rest) s = act (b :: a :: rest) s) {xs ys : List α}
    (hperm : xs.Perm ys) (h : ∀ a b, Opposed xs ys a b → apart a b) (s : σ) : act xs s = act ys s := by
  -- an element crosses all that stand before it
  have hfront : ∀ (front rest : List α) (b : α), (∀ a ∈ front, apart a b) →
      ∀ s, act (front ++ b :: rest) s = act (b :: (front ++ rest)) s := by
    intro front rest b hfront
    induction front with
    | nil => exact fun _ => rfl
    | cons a front ih =>
      intro s
      obtain ⟨hhead, htail⟩ := List.forall_mem_cons.mp hfront
      exact (hcons a _ _ (ih htail) s).trans (hswap a b _ s hhead)
  induction ys generalizing xs s with
  | nil => rw [hperm.eq_nil]
  | cons b ys ih =>
    obtain ⟨front, rest, rfl⟩ := List.append_of_mem (hperm.mem_iff.mpr List.mem_cons_self)
    have hrest : (front ++ rest).Perm ys := (List.perm_middle.symm.trans hperm).cons_inv
    have hkept : (front ++ rest).Sublist (front ++ b :: rest) := (List.sublist_cons_self b rest).append_left front
    refine (hfront front rest b (fun a ha => h a b ⟨?_, ?_⟩) s).trans (hcons b _ _ (fun s => ?_) s)
    · exact (List.singleton_sublist.mpr ha).append (List.singleton_sublist.mpr List.mem_cons_self)
    · exact (List.singleton_sublist.mpr (hrest.mem_iff.mp (List.mem_append_left _ ha))).cons_cons b
    · exact ih hrest (fun a c hopposed => h a c ⟨hopposed.1.trans hkept, hopposed.2.cons b⟩) s

end Reordering

section Settling

/-- Work that every round makes less of is done after as many rounds, and stays done. -/
theorem iterate_settles {f : σ → σ} (Inv : σ → Prop) (work : σ → Nat)
    (hstep : ∀ s, Inv s → Inv (f s) ∧ (work (f s) < work s ∨ work (f s) = 0)) {rounds : Nat} (hs : Inv s)
    (hrounds : work s ≤ rounds) : Inv (f^[rounds] s) ∧ work (f^[rounds] s) = 0 := by
  induction rounds generalizing s with
  | zero => exact ⟨hs, Nat.le_zero.mp hrounds⟩
  | succ rounds ih =>
    obtain ⟨hinv, hwork⟩ := hstep s hs
    rw [Function.iterate_succ_apply]
    exact ih hinv (by omega)

end Settling

end Runs
