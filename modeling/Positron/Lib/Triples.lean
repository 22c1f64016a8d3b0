import Mathlib.Tactic.Linarith

/-! Pre- and postconditions for computations that change a state and may fail, keeping what they
changed. A triple has one postcondition for the result and one for the failure. -/

namespace Triples

universe u
variable {σ ε α β : Type u}

/-- A result with `Q` or a failure with `E`. -/
def Ends (Q : α → σ → Prop) (E : ε → σ → Prop) : EStateM.Result ε σ α → Prop
  | .ok a s => Q a s
  | .error e s => E e s

variable {r : EStateM.Result ε σ α}

theorem Ends.weaken {Q Q' : α → σ → Prop} {E E' : ε → σ → Prop}
    (h : Ends Q E r) (hQ : ∀ a s, Q a s → Q' a s) (hE : ∀ e s, E e s → E' e s) : Ends Q' E' r := by
  cases r with
  | ok a s => exact hQ a s h
  | error e s => exact hE e s h

theorem Ends.returned {Q : α → σ → Prop} (h : Ends Q (fun _ _ => False) r) : ∃ a s, r = .ok a s ∧ Q a s := by
  cases r with
  | ok a s => exact ⟨a, s, rfl, h⟩
  | error e s => exact h.elim

/-- From a state with `P`, the computation ends with `Q` or fails with `E`. -/
def Triple (P : σ → Prop) (m : EStateM ε σ α) (Q : α → σ → Prop) (E : ε → σ → Prop) : Prop :=
  ∀ s, P s → Ends Q E (m.run s)

/-- The outcome of a computation as a value. -/
def attempt (m : EStateM ε σ α) : EStateM ε σ (Except ε α) := fun s =>
  match m.run s with
  | .ok a s' => .ok (.ok a) s'
  | .error e s' => .ok (.error e) s'

def require (c : Prop) [Decidable c] (e : ε) : EStateM ε σ PUnit := if c then pure ⟨⟩ else throw e

namespace Triple

variable {P P' : σ → Prop} {Q Q' : α → σ → Prop} {R : β → σ → Prop} {E E' : ε → σ → Prop}
variable {m : EStateM ε σ α}

theorem ends {s : σ} (h : Triple P m Q E) (hs : P s) : Ends Q E (m.run s) := h s hs

theorem returns {a : α} (h : ∀ s, P s → Q a s) : Triple P (pure a) Q E := h

variable {e : ε} {c : Prop}

theorem fails (h : ∀ s, P s → E e s) : Triple P (throw e) Q E := h

theorem bind {f : α → EStateM ε σ β} (hm : Triple P m Q E) (hf : ∀ a, Triple (Q a) (f a) R E) :
    Triple P (m >>= f) R E := by
  intro s hs
  have hfirst := hm s hs
  rw [EStateM.run_bind]
  cases hrun : m.run s with
  | ok a s' =>
    rw [hrun] at hfirst
    exact hf a s' hfirst
  | error e s' =>
    rw [hrun] at hfirst
    exact hfirst

theorem weaken (h : Triple P' m Q' E') (hP : ∀ s, P s → P' s) (hQ : ∀ a s, Q' a s → Q a s)
    (hE : ∀ e s, E' e s → E e s) : Triple P m Q E :=
  fun s hs => (h s (hP s hs)).weaken hQ hE

theorem reads {Q : σ → σ → Prop} (h : ∀ s, P s → Q s s) : Triple P (get : EStateM ε σ σ) Q E := h

theorem changes {Q : PUnit → σ → Prop} {f : σ → σ} (h : ∀ s, P s → Q ⟨⟩ (f s)) :
    Triple P (modify f : EStateM ε σ PUnit) Q E := h

theorem requires [Decidable c] {Q : PUnit → σ → Prop}
    (hyes : c → ∀ s, P s → Q ⟨⟩ s) (hno : ¬ c → ∀ s, P s → E e s) : Triple P (require c e) Q E := by
  unfold require
  split
  · rename_i hc
    exact returns (hyes hc)
  · rename_i hc
    exact fails (hno hc)

theorem lifts {x : Except ε α} (hok : ∀ a, x = .ok a → ∀ s, P s → Q a s)
    (herror : ∀ e, x = .error e → ∀ s, P s → E e s) : Triple P (ofExcept x) Q E := by
  cases x with
  | ok a => exact returns (hok a rfl)
  | error e => exact fails (herror e rfl)

theorem attempts {Q : Except ε α → σ → Prop} (h : Triple P m (fun a => Q (.ok a)) fun e => Q (.error e)) :
    Triple P (attempt m) Q E := by
  intro s hs
  have hends := h s hs
  change Ends Q E (match m.run s with
    | .ok a s' => .ok (.ok a) s'
    | .error e s' => .ok (.error e) s')
  cases hrun : m.run s with
  | ok a s' =>
    rw [hrun] at hends
    exact hends
  | error e s' =>
    rw [hrun] at hends
    exact hends

theorem maps {f : α → β} (h : Triple P m (fun a => R (f a)) E) : Triple P (f <$> m) R E := by
  exact bind h fun a => returns fun _ hs => hs

theorem discards {S : σ → Prop} (h : Triple P m (fun _ => S) E) : Triple P (discard m) (fun _ => S) E := maps h

/-- A fact that does not depend on the state becomes a hypothesis. -/
theorem assuming {φ : Prop} (h : φ → Triple P m Q E) : Triple (fun s => P s ∧ φ) m Q E := fun s hs => h hs.2 s hs.1

theorem choosing {ι : Type u} {F : ι → σ → Prop} (h : ∀ i, Triple (F i) m Q E) :
    Triple (fun s => ∃ i, F i s) m Q E := fun s ⟨i, hs⟩ => h i s hs

theorem ite [Decidable c] {m m' : EStateM ε σ α} (hyes : c → Triple P m Q E)
    (hno : ¬ c → Triple P m' Q E) : Triple P (if c then m else m') Q E := by
  split
  · rename_i hc
    exact hyes hc
  · rename_i hc
    exact hno hc

section KnownState

variable {s : σ}

/-- The rules of a walk from one known state: each takes the next statement off the computation. -/
theorem bind_get {f : σ → EStateM ε σ β} (h : Triple (· = s) (f s) R E) : Triple (· = s) (get >>= f) R E := by
  rintro _ rfl
  exact h _ rfl

variable {f : PUnit → EStateM ε σ β} {e : ε} {a : β} {s' : σ}

theorem bind_modify {g : σ → σ} (h : Triple (· = g s) (f ⟨⟩) R E) : Triple (· = s) (modify g >>= f) R E := by
  rintro _ rfl
  exact h _ rfl

theorem bind_lift {x : Except ε α} {f : α → EStateM ε σ β} (hok : ∀ a, x = .ok a → Triple (· = s) (f a) R E)
    (herror : ∀ e, x = .error e → E e s) : Triple (· = s) (ofExcept x >>= f) R E := by
  rintro _ rfl
  cases x with
  | ok a => exact hok a rfl _ rfl
  | error e => exact herror e rfl

theorem bind_require {c : Prop} [Decidable c]
    (hyes : c → Triple (· = s) (f ⟨⟩) R E) (hno : ¬ c → E e s) : Triple (· = s) (require c e >>= f) R E := by
  apply bind (Q := fun _ s' => s' = s ∧ c)
  · exact requires (fun hc _ hs => ⟨hs, hc⟩) fun hc _ hs => hs ▸ hno hc
  · exact fun _ => assuming hyes

theorem pure_known (h : R a s) : Triple (· = s) (pure a) R E := returns fun _ hs => hs ▸ h

theorem throw_known (h : E e s) : Triple (· = s) (throw e) R E := fails fun _ hs => hs ▸ h

theorem of_run {m : EStateM ε σ β} (hrun : m.run s = .ok a s') (h : R a s') : Triple (· = s) m R E := by
  rintro _ rfl
  rw [hrun]
  exact h

theorem bind_run {m : EStateM ε σ α} {f : α → EStateM ε σ β} {a : α}
    (hrun : m.run s = .ok a s') (h : Triple (· = s') (f a) R E) : Triple (· = s) (m >>= f) R E :=
  bind (of_run (R := fun b t => b = a ∧ t = s') hrun ⟨rfl, rfl⟩) fun _ t ht => ht.1 ▸ h t ht.2

end KnownState

end Triple

/-- Every outcome is related to the state it started from. -/
def Within (R : σ → σ → Prop) (m : EStateM ε σ α) : Prop :=
  ∀ s, Ends (fun _ s' => R s s') (fun _ s' => R s s') (m.run s)

namespace Within

variable {R : σ → σ → Prop}
variable {m : EStateM ε σ α}

theorem keeps {P : σ → Prop} (h : Within R m) (hP : ∀ s s', R s s' → P s → P s') : Triple P m (fun _ => P) fun _ => P :=
  fun s hs => (h s).weaken (fun _ s' hR => hP s s' hR hs) fun _ s' hR => hP s s' hR hs

theorem changes {f : σ → σ} (h : ∀ s, R s (f s)) : Within R (modify f : EStateM ε σ PUnit) := h

theorem attempts (h : Within R m) : Within R (attempt m) :=
  fun s => Triple.attempts (P := (· = s)) (fun _ hs => hs ▸ h s) s rfl

theorem ite {c : Prop} [Decidable c] {m m' : EStateM ε σ α} (hyes : Within R m) (hno : Within R m') :
    Within R (if c then m else m') := by
  split
  · exact hyes
  · exact hno

theorem bind [IsTrans σ R] {f : α → EStateM ε σ β} (hm : Within R m) (hf : ∀ a, Within R (f a)) :
    Within R (m >>= f) := by
  intro s
  have hfirst := hm s
  rw [EStateM.run_bind]
  cases hrun : m.run s with
  | ok a s' =>
    rw [hrun] at hfirst
    exact (hf a s').weaken (fun _ _ hR => IsTrans.trans _ _ _ hfirst hR)
      fun _ _ hR => IsTrans.trans _ _ _ hfirst hR
  | error e s' =>
    rw [hrun] at hfirst
    exact hfirst

variable [Std.Refl R]

theorem returns (a : α) : Within R (pure a : EStateM ε σ α) := fun s => Std.Refl.refl s

theorem fails (e : ε) : Within R (throw e : EStateM ε σ α) := fun s => Std.Refl.refl s

theorem reads : Within R (get : EStateM ε σ σ) := fun s => Std.Refl.refl s

theorem lifts (x : Except ε α) : Within R (ofExcept x : EStateM ε σ α) := by
  cases x with
  | ok a => exact returns a
  | error e => exact fails e

theorem requires (c : Prop) [Decidable c] (e : ε) : Within R (require c e : EStateM ε σ PUnit) :=
  ite (returns _) (fails e)

end Within

end Triples
