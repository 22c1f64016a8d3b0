import Positron.Clock.Anchor
import Positron.Lib.Runs

/-! Concurrent time mints. A call is four critical sections: it samples the elapsed counter, reads the anchor it
expects, reconciles under the acceptance and safety locks, and advances the baseline of its scope. It returns
`OutOfRange` exactly where a section finds that a later sample has overtaken its own. -/

namespace Positron.Clock
open MachineInt Runs RetentionTimeAuthority

/-- Where a call stands between two of its sections. -/
inductive Phase where
  | sampled (scope : SegmentScope) (request : ScopeRequest) (elapsed : U64)
  | expecting (scope : SegmentScope) (durable : Option IngestTime) (expected : UnixNanoseconds)
      (elapsed : U64)
  | reconciled (scope : SegmentScope) (request : ScopeRequest) (elapsed : U64)
  | returned (result : ClockResult (Option IngestTime))

/-- The shared authority, the latest elapsed reading, and the calls made so far. -/
structure System where
  authority : RetentionTimeAuthority
  now : Nat
  calls : Nat → Option Phase

inductive Section where
  | sample (call : Nat) (scope : SegmentScope) (request : ScopeRequest) (elapsed : U64)
  | readExpected (call : Nat)
  | reconcile (call : Nat) (wall : UnixNanoseconds)
  | advanceBaseline (call : Nat)

namespace System

def establish (epoch : UnixNanoseconds) (policy : LifecycleClockPolicy) : System where
  authority := establishWithSource epoch policy
  now := 0
  calls := fun _ => none

def moveTo (s : System) (call : Nat) (phase : Phase) : System :=
  { s with calls := Function.update s.calls call (some phase) }

/-- A call that reconciles goes on to its scope, or returns the failure. -/
def reconcileFor (s : System) (call : Nat) (scope : SegmentScope) (request : ScopeRequest)
    (anchor : UnixNanoseconds) (elapsed : U64) (wall : UnixNanoseconds) : System :=
  let reconciled := s.authority.reconcile anchor elapsed (.ok wall)
  let s := { s with authority := reconciled.2 }
  match reconciled.1 with
  | .error failure => s.moveTo call (.returned (.error failure))
  | .ok () => s.moveTo call (.reconciled scope request elapsed)

/-- One critical section. It is refused where the call is not at that section. -/
def step (s : System) : Section → Option System
  | .sample call scope request elapsed =>
    if (s.calls call).isNone ∧ s.now ≤ elapsed.1 then
      some ({ s with now := elapsed.1 }.moveTo call (.sampled scope request elapsed))
    else none
  | .readExpected call =>
    match s.calls call with
    | some (.sampled scope (.ingest durable) elapsed) =>
      match s.authority.expectedAnchor elapsed with
      | .error failure => some (s.moveTo call (.returned (.error failure)))
      | .ok expected => some (s.moveTo call (.expecting scope durable expected elapsed))
    | _ => none
  | .reconcile call wall =>
    match s.calls call with
    | some (.sampled scope (.recover durable) elapsed) =>
      some (s.reconcileFor call scope (.recover durable) durable elapsed wall)
    | some (.expecting scope durable expected elapsed) =>
      some (s.reconcileFor call scope (.ingest durable) expected elapsed wall)
    | _ => none
  | .advanceBaseline call =>
    match s.calls call with
    | some (.reconciled scope (.ingest durable) elapsed) =>
      let minted := s.authority.ingestTimeBaseline scope durable elapsed
      some ({ s with authority := minted.2 }.moveTo call (.returned (minted.1.map some)))
    | some (.reconciled scope (.recover durable) elapsed) =>
      let recovered := s.authority.recoverScopeBaseline scope durable elapsed
      some ({ s with authority := recovered.2 }.moveTo call (.returned (recovered.1.map fun _ => none)))
    | _ => none

end System

theorem ok_ne_error {α : Type} (x : α) (f : LifecycleClockFailure) : (.ok x : ClockResult α) ≠ .error f := by
  intro h
  cases h

/-- A window of instants, and a bound on the elapsed time, that leave the checked arithmetic of the
clock room on both sides: every instant the run can compute from them fits the type. -/
structure Margin where
  low : Int
  high : Int
  elapsed : Nat
  lowFits : -2 ^ 63 ≤ low
  highFits : high + elapsed < 2 ^ 63
  spanFits : high + elapsed - low < 2 ^ 63
  nonempty : low ≤ high

/-- The years 1897 to 2116, and a process that runs for 73 years. -/
def Margin.centuries : Margin where
  low := -2 ^ 61
  high := 2 ^ 62
  elapsed := 2 ^ 61 - 1
  lowFits := by decide
  highFits := by decide
  spanFits := by decide
  nonempty := by decide

def Phase.sample : Phase → Option (SegmentScope × U64)
  | .sampled scope _ elapsed => some (scope, elapsed)
  | .expecting scope _ _ elapsed => some (scope, elapsed)
  | .reconciled scope _ elapsed => some (scope, elapsed)
  | .returned _ => none

/-- The sample is not older than the baseline it is applied to, and a new scope finds room. -/
def ScopeFits (a : RetentionTimeAuthority) (scope : SegmentScope) (elapsed : U64) : Prop :=
  match a.scopes.lookup scope with
  | some b => b.elapsedAtStart.1 ≤ elapsed.1
  | none => a.scopes.entries.length < maxTenantQuotas

/-- What a section needs of the state it finds: no call with a later sample has moved the anchor,
or the baseline of the scope, in the meantime. -/
def Fits (s : System) : Section → Prop
  | .sample _ _ _ _ => True
  | .readExpected call => ∀ phase ∈ s.calls call, ∀ p ∈ phase.sample,
      s.authority.safety.anchorElapsed.1 ≤ p.2.1
  | .reconcile call _ => ∀ phase ∈ s.calls call, ∀ p ∈ phase.sample,
      s.authority.safety.anchorElapsed.1 ≤ p.2.1 ∧ s.authority.safety.revision.1 + 1 < 2 ^ 64
  | .advanceBaseline call => ∀ phase ∈ s.calls call, ∀ p ∈ phase.sample,
      ScopeFits s.authority p.1 p.2

instance decidableScopeFits (a : RetentionTimeAuthority) (scope : SegmentScope) (elapsed : U64) :
    Decidable (ScopeFits a scope elapsed) :=
  match h : a.scopes.lookup scope with
  | some b => decidable_of_iff (b.elapsedAtStart.1 ≤ elapsed.1) (by rw [ScopeFits, h])
  | none => decidable_of_iff (a.scopes.entries.length < maxTenantQuotas) (by rw [ScopeFits, h])

instance decidableFits (s : System) : (e : Section) → Decidable (Fits s e)
  | .sample _ _ _ _ => isTrue trivial
  | .readExpected call => inferInstanceAs (Decidable (∀ phase ∈ s.calls call, ∀ p ∈ phase.sample,
      s.authority.safety.anchorElapsed.1 ≤ p.2.1))
  | .reconcile call _ => inferInstanceAs (Decidable (∀ phase ∈ s.calls call, ∀ p ∈ phase.sample,
      s.authority.safety.anchorElapsed.1 ≤ p.2.1 ∧ s.authority.safety.revision.1 + 1 < 2 ^ 64))
  | .advanceBaseline call => inferInstanceAs (Decidable (∀ phase ∈ s.calls call,
      ∀ p ∈ phase.sample, ScopeFits s.authority p.1 p.2))

def Spurious (s : System) : Prop := ∃ call, s.calls call = some (.returned (.error .outOfRange))

namespace Margin

variable (m : Margin)
variable {a : RetentionTimeAuthority} {elapsed : U64} {now : Nat}

def Far (v : UnixNanoseconds) : Prop := m.low ≤ v.1 ∧ v.1 ≤ m.high

def RequestFar : ScopeRequest → Prop
  | .ingest durable => ∀ t ∈ durable, m.Far t
  | .recover durable => m.Far durable

/-- The durable instants, the wall readings and the elapsed readings of the run. -/
def SectionFar : Section → Prop
  | .sample _ _ request elapsed => m.RequestFar request ∧ elapsed.1 ≤ m.elapsed
  | .reconcile _ wall => m.Far wall
  | _ => True

instance decidableFar (v : UnixNanoseconds) : Decidable (m.Far v) :=
  inferInstanceAs (Decidable (m.low ≤ v.1 ∧ v.1 ≤ m.high))

instance decidableRequestFar : (request : ScopeRequest) → Decidable (m.RequestFar request)
  | .ingest durable => inferInstanceAs (Decidable (∀ t ∈ durable, m.Far t))
  | .recover durable => inferInstanceAs (Decidable (m.Far durable))

instance decidableSectionFar : (e : Section) → Decidable (m.SectionFar e)
  | .sample _ _ request elapsed =>
    inferInstanceAs (Decidable (m.RequestFar request ∧ elapsed.1 ≤ m.elapsed))
  | .reconcile _ wall => inferInstanceAs (Decidable (m.Far wall))
  | .readExpected _ => inferInstanceAs (Decidable True)
  | .advanceBaseline _ => inferInstanceAs (Decidable True)

def Paced (instant : UnixNanoseconds) (start : U64) : Prop :=
  m.low ≤ instant.1 ∧ instant.1 ≤ m.high + start.1

def PhaseTame (now : Nat) : Phase → Prop
  | .sampled _ request elapsed => elapsed.1 ≤ now ∧ m.RequestFar request
  | .expecting _ durable expected elapsed =>
    elapsed.1 ≤ now ∧ m.Paced expected elapsed ∧ m.RequestFar (.ingest durable)
  | .reconciled _ request elapsed => elapsed.1 ≤ now ∧ m.RequestFar request
  | .returned _ => True

/-- The clock of a run whose instants are far from the limits. -/
structure TameClock (now : Nat) (a : RetentionTimeAuthority) : Prop where
  epoch : m.Far a.epoch
  correction : a.safety.wallClockCorrectionNanoseconds.1 = 0
  anchor : m.Paced a.safety.anchor a.safety.anchorElapsed
  anchorElapsed : a.safety.anchorElapsed.1 ≤ now
  baselines : ∀ scope b, a.scopes.lookup scope = some b →
    m.Paced b.instant b.elapsedAtStart ∧ b.elapsedAtStart.1 ≤ now

structure Tame (s : System) : Prop where
  now : s.now ≤ m.elapsed
  clock : m.TameClock s.now s.authority
  phases : ∀ call phase, s.calls call = some phase → m.PhaseTame s.now phase

variable {m}

theorem TameClock.later {now now' : Nat} (h : m.TameClock now a) (hle : now ≤ now') : m.TameClock now' a where
  epoch := h.epoch
  correction := h.correction
  anchor := h.anchor
  anchorElapsed := h.anchorElapsed.trans hle
  baselines := fun scope b hb => ⟨(h.baselines scope b hb).1, (h.baselines scope b hb).2.trans hle⟩

theorem PhaseTame.later {now now' : Nat} {phase : Phase} (h : m.PhaseTame now phase)
    (hle : now ≤ now') : m.PhaseTame now' phase := by
  cases phase with
  | sampled scope request elapsed => exact ⟨h.1.trans hle, h.2⟩
  | expecting scope durable expected elapsed => exact ⟨h.1.trans hle, h.2⟩
  | reconciled scope request elapsed => exact ⟨h.1.trans hle, h.2⟩
  | returned result => trivial

theorem Paced.advance {instant : UnixNanoseconds} {start elapsed : U64} (h : m.Paced instant start)
    (hle : start.1 ≤ elapsed.1) (hfar : elapsed.1 ≤ m.elapsed) :
    ∃ moved, advanceFrom instant start elapsed = .ok moved ∧ m.Paced moved elapsed := by
  obtain ⟨hlow, hhigh⟩ := h
  have hfits := m.highFits
  have hspan := m.spanFits
  have hdelta : elapsed.1 - start.1 < 2 ^ 63 := by omega
  have hrange : instant.1 + elapsed.1 - start.1 < 2 ^ 63 := by omega
  obtain ⟨moved, hmoved, hval⟩ := advanceFrom_of_le hle hdelta hrange
  refine ⟨moved, hmoved, ?_, ?_⟩
  · omega
  · omega

theorem Paced.max {x y : UnixNanoseconds} (hx : m.Paced x elapsed) (hy : m.Paced y elapsed) :
    m.Paced (max x y) elapsed := by
  rcases le_total x y with h | h
  · rwa [max_eq_right h]
  · rwa [max_eq_left h]

theorem Far.paced {v : UnixNanoseconds} (h : m.Far v) (elapsed : U64) : m.Paced v elapsed := by
  obtain ⟨hlow, hhigh⟩ := h
  exact ⟨hlow, by omega⟩

theorem TameClock.reconcile_result (h : m.TameClock now a) (hnow : now ≤ m.elapsed) {x wall : UnixNanoseconds}
    (helapsed : elapsed.1 ≤ now) (hx : m.Paced x elapsed) (hwall : m.Far wall) : (a.reconcile x elapsed (.ok wall)).1 =
      if a.safety.anchorElapsed.1 ≤ elapsed.1 ∧ a.safety.revision.1 + 1 < 2 ^ 64 then .ok ()
      else .error .outOfRange := by
  unfold RetentionTimeAuthority.reconcile reconcileWhileAcceptanceHeld
  by_cases hle : a.safety.anchorElapsed.1 ≤ elapsed.1
  · obtain ⟨advanced, hadv, hpaced⟩ := h.anchor.advance hle (helapsed.trans hnow)
    obtain ⟨hlow, hhigh⟩ := hpaced.max hx
    obtain ⟨hwlow, hwhigh⟩ := hwall
    have hspan := m.spanFits
    rw [advanceGlobal, hadv]
    dsimp only
    by_cases hrev : a.safety.revision.1 + 1 < 2 ^ 64
    · have hadd : a.safety.revision.checkedAdd ⟨1, by decide⟩ =
          some ⟨a.safety.revision.1 + 1, hrev⟩ := Unsigned.checkedAdd_eq_some_iff.mpr rfl
      rw [hadd, if_pos ⟨hle, hrev⟩]
      dsimp only
      split
      · have hsub : I64.checkedSub wall (max advanced x) =
            some ⟨wall.1 - (max advanced x).1, by omega⟩ := I64.checkedSub_eq_some_iff.mpr rfl
        have hcorrected : I64.checkedAdd wall a.safety.wallClockCorrectionNanoseconds = some wall := by
          rw [I64.checkedAdd_eq_some_iff, h.correction]
          omega
        simp only [observeWall, hsub, hcorrected]
      · rfl
    · have hadd : a.safety.revision.checkedAdd ⟨1, by decide⟩ = none :=
        Unsigned.checkedAdd_eq_none_iff.mpr (by simpa using hrev)
      rw [hadd, if_neg (fun hboth => hrev hboth.2)]
  · rw [advanceGlobal, advanceFrom_of_lt (by omega), if_neg (fun hboth => hle hboth.1)]

theorem TameClock.reconcile (h : m.TameClock now a) (hnow : now ≤ m.elapsed) {x : UnixNanoseconds}
    (helapsed : elapsed.1 ≤ now) (hx : m.Paced x elapsed) (wall : ClockResult UnixNanoseconds) :
    m.TameClock now (a.reconcile x elapsed wall).2 := by
  unfold RetentionTimeAuthority.reconcile
  by_cases hle : a.safety.anchorElapsed.1 ≤ elapsed.1
  · obtain ⟨advanced, hadv, hpaced⟩ := h.anchor.advance hle (helapsed.trans hnow)
    obtain ⟨safety, hsafety, hanchor, hanchorElapsed, _, hcorr⟩ :=
      reconcile_moves (a := a) hadv x wall
    rw [hsafety]
    constructor
    · exact h.epoch
    · rw [hcorr]
      exact h.correction
    · rw [hanchor, hanchorElapsed]
      exact hpaced.max hx
    · rw [hanchorElapsed]
      exact helapsed
    · exact h.baselines
  · rw [reconcile_stops (a := a) (advanceFrom_of_lt (by omega))]
    exact h

theorem TameClock.setBaseline (h : m.TameClock now a) (scope : SegmentScope) {b : ScopeBaseline}
    (hb : m.Paced b.instant b.elapsedAtStart) (hstart : b.elapsedAtStart.1 ≤ now) :
    m.TameClock now (a.setBaseline scope b) where
  epoch := h.epoch
  correction := h.correction
  anchor := h.anchor
  anchorElapsed := h.anchorElapsed
  baselines := by
    intro s b' hb'
    by_cases hs : s = scope
    · subst hs
      rw [RetentionTimeAuthority.setBaseline, AList.lookup_insert] at hb'
      cases hb'
      exact ⟨hb, hstart⟩
    · rw [RetentionTimeAuthority.setBaseline, AList.lookup_insert_ne hs] at hb'
      exact h.baselines s b' hb'

/-- A section that turns a full table away, and goes by the baseline of a scope that the table holds. -/
theorem TameClock.scope {α : Type} (h : m.TameClock now a) {scope : SegmentScope}
    {known : ScopeBaseline → ClockResult α × RetentionTimeAuthority} {fresh : ClockResult α × RetentionTimeAuthority}
    (hknown : ∀ b, a.scopes.lookup scope = some b → m.TameClock now (known b).2 ∧
      (b.elapsedAtStart.1 ≤ elapsed.1 ↔ (known b).1 ≠ .error .outOfRange))
    (hfresh : m.TameClock now fresh.2 ∧ fresh.1 ≠ .error .outOfRange) {r : ClockResult α × RetentionTimeAuthority}
    (hr : r = if a.scopeTableFull scope then (.error .outOfRange, a)
      else match a.scopes.lookup scope with | some b => known b | none => fresh) :
    m.TameClock now r.2 ∧ (ScopeFits a scope elapsed ↔ r.1 ≠ .error .outOfRange) := by
  unfold scopeTableFull at hr
  unfold ScopeFits
  cases hb : a.scopes.lookup scope with
  | some b =>
    rw [hb] at hr
    exact hr ▸ hknown b hb
  | none =>
    rw [hb] at hr
    by_cases hroom : a.scopes.entries.length < maxTenantQuotas
    · rw [if_neg (by simpa using hroom)] at hr
      exact hr ▸ ⟨hfresh.1, iff_of_true hroom hfresh.2⟩
    · rw [if_pos (by simpa using hroom)] at hr
      exact hr ▸ ⟨h, iff_of_false hroom fun hne => hne rfl⟩

theorem TameClock.ingestTimeBaseline (h : m.TameClock now a) (hnow : now ≤ m.elapsed) (scope : SegmentScope)
    {durable : Option IngestTime} (hdur : m.RequestFar (.ingest durable)) (helapsed : elapsed.1 ≤ now) :
    m.TameClock now (a.ingestTimeBaseline scope durable elapsed).2 ∧ (ScopeFits a scope elapsed ↔
        (a.ingestTimeBaseline scope durable elapsed).1 ≠ .error .outOfRange) := by
  have hfar := helapsed.trans hnow
  have hinstant : m.Paced (durable.getD a.epoch) (Unsigned.zero 64) := by
    cases durable with
    | none => exact h.epoch.paced _
    | some t => exact Far.paced (hdur t rfl) _
  refine h.scope (fun b hb => ⟨h, ?_⟩) ⟨h.setBaseline scope hinstant (Nat.zero_le _), ?_⟩ rfl
  · by_cases hle : b.elapsedAtStart.1 ≤ elapsed.1
    · obtain ⟨moved, hmoved, _⟩ := (h.baselines scope b hb).1.advance hle hfar
      exact iff_of_true hle fun hbad => ok_ne_error moved _ (hmoved.symm.trans hbad)
    · exact iff_of_false hle fun hne => hne (advanceFrom_of_lt (Nat.lt_of_not_le hle))
  · obtain ⟨moved, hmoved, _⟩ := hinstant.advance (Nat.zero_le elapsed.1) hfar
    simp only [Clock.advance, hmoved]
    exact ok_ne_error moved _

theorem TameClock.recoverScopeBaseline (h : m.TameClock now a) (hnow : now ≤ m.elapsed) (scope : SegmentScope)
    {durable : IngestTime} (hdur : m.Far durable) (helapsed : elapsed.1 ≤ now) :
    m.TameClock now (a.recoverScopeBaseline scope durable elapsed).2 ∧ (ScopeFits a scope elapsed ↔
        (a.recoverScopeBaseline scope durable elapsed).1 ≠ .error .outOfRange) := by
  refine h.scope (fun b hb => ?_) ⟨h.setBaseline scope (hdur.paced _) (Nat.zero_le _), ok_ne_error () _⟩ rfl
  by_cases hle : b.elapsedAtStart.1 ≤ elapsed.1
  · obtain ⟨moved, hmoved, hpaced⟩ := (h.baselines scope b hb).1.advance hle (helapsed.trans hnow)
    simp only [Clock.advance, hmoved]
    exact ⟨h.setBaseline scope (hpaced.max (hdur.paced elapsed)) helapsed, iff_of_true hle (ok_ne_error _ _)⟩
  · simp only [Clock.advance, advanceFrom_of_lt (Nat.lt_of_not_le hle)]
    exact ⟨h, iff_of_false hle fun hne => hne rfl⟩

end Margin

namespace System

variable {call : Nat} {s s' : System}

@[simp] theorem moveTo_self (s : System) (call : Nat) (phase : Phase) :
    (s.moveTo call phase).calls call = some phase := Function.update_self _ _ _

theorem moveTo_of_ne (s : System) {call other : Nat} (h : other ≠ call) (phase : Phase) :
    (s.moveTo call phase).calls other = s.calls other := Function.update_of_ne h _ _

variable {phase : Phase} {e : Section} {request : ScopeRequest}

theorem sample_forall {s : System} (hcall : s.calls call = some phase) {p : SegmentScope × U64}
    (hp : phase.sample = some p) {P : SegmentScope × U64 → Prop} :
    (∀ phase ∈ s.calls call, ∀ p ∈ phase.sample, P p) ↔ P p := by
  constructor
  · intro h
    exact h phase hcall p hp
  · intro h phase' hphase' p' hp'
    rw [hcall] at hphase'
    cases hphase'
    rw [hp] at hp'
    cases hp'
    exact h

theorem step_calls (h : s.step e = some s') :
    ∃ call phase, (∀ result, s.calls call ≠ some (.returned result)) ∧
      s'.calls = Function.update s.calls call (some phase) := by
  cases e with
  | sample call scope request elapsed =>
    simp only [step] at h
    split at h
    · rename_i hfresh
      cases h
      exact ⟨call, _, by simp [Option.isNone_iff_eq_none.mp hfresh.1], rfl⟩
    · cases h
  | readExpected call =>
    simp only [step] at h
    split at h
    · rename_i hcall
      refine ⟨call, ?_⟩
      split at h
      · cases h
        exact ⟨_, by simp [hcall], rfl⟩
      · cases h
        exact ⟨_, by simp [hcall], rfl⟩
    · cases h
  | reconcile call wall =>
    simp only [step] at h
    split at h
    · rename_i hcall
      cases h
      unfold reconcileFor
      dsimp only
      refine ⟨call, ?_⟩
      split
      · exact ⟨_, by simp [hcall], rfl⟩
      · exact ⟨_, by simp [hcall], rfl⟩
    · rename_i hcall
      cases h
      unfold reconcileFor
      dsimp only
      refine ⟨call, ?_⟩
      split
      · exact ⟨_, by simp [hcall], rfl⟩
      · exact ⟨_, by simp [hcall], rfl⟩
    · cases h
  | advanceBaseline call =>
    simp only [step] at h
    split at h
    · rename_i hcall
      cases h
      exact ⟨call, _, by simp [hcall], rfl⟩
    · rename_i hcall
      cases h
      exact ⟨call, _, by simp [hcall], rfl⟩
    · cases h

theorem spurious_lasts (hbad : Spurious s) (h : s.step e = some s') : Spurious s' := by
  obtain ⟨failed, hfailed⟩ := hbad
  obtain ⟨call, phase, hrunning, hcalls⟩ := step_calls h
  refine ⟨failed, ?_⟩
  have hne : failed ≠ call := by
    rintro rfl
    exact hrunning _ hfailed
  rw [hcalls, Function.update_of_ne hne]
  exact hfailed

variable {m : Margin}

/-- A section moves one call: it makes the system spurious exactly when that call returns so. -/
theorem exact_moveTo {s : System} (h : m.Tame s) (hphase : m.PhaseTame s.now phase) {P : Prop}
    (hP : P ↔ phase ≠ .returned (.error .outOfRange)) :
    m.Tame (s.moveTo call phase) ∧ (¬ Spurious s → (P ↔ ¬ Spurious (s.moveTo call phase))) := by
  constructor
  · refine ⟨h.now, h.clock, fun other p hp => ?_⟩
    by_cases hother : other = call
    · subst hother
      rw [moveTo_self] at hp
      cases hp
      exact hphase
    · rw [moveTo_of_ne s hother] at hp
      exact h.phases other p hp
  · intro hfree
    rw [hP]
    apply not_congr
    constructor
    · rintro rfl
      exact ⟨call, moveTo_self _ _ _⟩
    · rintro ⟨other, hother⟩
      by_cases hsame : other = call
      · subst hsame
        rw [moveTo_self] at hother
        exact Option.some.inj hother
      · rw [moveTo_of_ne s hsame] at hother
        exact absurd ⟨other, hother⟩ hfree

theorem tame_authority {s : System} (h : m.Tame s) {a : RetentionTimeAuthority}
    (ha : m.TameClock s.now a) : m.Tame { s with authority := a } :=
  ⟨h.now, ha, h.phases⟩

theorem exact_sample {scope : SegmentScope} {elapsed : U64} (htame : m.Tame s)
    (hfar : m.SectionFar (.sample call scope request elapsed))
    (h : s.step (.sample call scope request elapsed) = some s') :
    m.Tame s' ∧ (¬ Spurious s → (Fits s (.sample call scope request elapsed) ↔ ¬ Spurious s')) := by
  simp only [step] at h
  split at h
  · rename_i hfresh
    cases h
    have hlater : m.Tame { s with now := elapsed.1 } :=
      ⟨hfar.2, htame.clock.later hfresh.2, fun c p hp => (htame.phases c p hp).later hfresh.2⟩
    refine exact_moveTo hlater ?_ (iff_of_true trivial fun hphase => by cases hphase)
    exact ⟨Nat.le_refl _, hfar.1⟩
  · cases h

theorem exact_readExpected (htame : m.Tame s) (h : s.step (.readExpected call) = some s') :
    m.Tame s' ∧ (¬ Spurious s → (Fits s (.readExpected call) ↔ ¬ Spurious s')) := by
  simp only [step] at h
  split at h
  · rename_i scope durable elapsed hcall
    obtain ⟨helapsed, hdur⟩ := htame.phases call _ hcall
    have hfits : Fits s (.readExpected call) ↔
        s.authority.safety.anchorElapsed.1 ≤ elapsed.1 := sample_forall hcall rfl
    rw [hfits]
    by_cases hle : s.authority.safety.anchorElapsed.1 ≤ elapsed.1
    · obtain ⟨expected, hexp, hpaced⟩ :=
        htame.clock.anchor.advance hle (helapsed.trans htame.now)
      rw [expectedAnchor, advanceGlobal, hexp] at h
      cases h
      refine exact_moveTo htame ?_ (iff_of_true hle fun hphase => by cases hphase)
      exact ⟨helapsed, hpaced, hdur⟩
    · rw [expectedAnchor, advanceGlobal, advanceFrom_of_lt (Nat.lt_of_not_le hle)] at h
      cases h
      refine exact_moveTo htame ?_ (iff_of_false hle fun hne => hne rfl)
      trivial
  · cases h

theorem exact_reconcileFor {s : System} {scope : SegmentScope}
    {anchor wall : UnixNanoseconds} {elapsed : U64} (htame : m.Tame s) (helapsed : elapsed.1 ≤ s.now)
    (hanchor : m.Paced anchor elapsed) (hreq : m.RequestFar request) (hwall : m.Far wall) :
    m.Tame (s.reconcileFor call scope request anchor elapsed wall) ∧ (¬ Spurious s →
        (s.authority.safety.anchorElapsed.1 ≤ elapsed.1 ∧ s.authority.safety.revision.1 + 1 < 2 ^ 64 ↔
          ¬ Spurious (s.reconcileFor call scope request anchor elapsed wall))) := by
  have hresult := htame.clock.reconcile_result htame.now helapsed hanchor hwall
  have hclock := htame.clock.reconcile htame.now helapsed hanchor (.ok wall)
  have htame' := tame_authority htame hclock
  unfold reconcileFor
  dsimp only
  rw [hresult]
  split
  · rename_i failure hfail
    split at hfail
    · cases hfail
    · rename_i hmisses
      cases hfail
      refine exact_moveTo htame' ?_ (iff_of_false hmisses fun hne => hne rfl)
      trivial
  · rename_i hok
    split at hok
    · rename_i hfits
      refine exact_moveTo htame' ?_ (iff_of_true hfits fun hphase => by cases hphase)
      exact ⟨helapsed, hreq⟩
    · cases hok

theorem exact_reconcile {wall : UnixNanoseconds} (htame : m.Tame s) (hwall : m.Far wall)
    (h : s.step (.reconcile call wall) = some s') :
    m.Tame s' ∧ (¬ Spurious s → (Fits s (.reconcile call wall) ↔ ¬ Spurious s')) := by
  simp only [step] at h
  split at h
  · rename_i scope durable elapsed hcall
    obtain ⟨helapsed, hdur⟩ := htame.phases call _ hcall
    cases h
    have hfits : Fits s (.reconcile call wall) ↔ s.authority.safety.anchorElapsed.1 ≤ elapsed.1 ∧
        s.authority.safety.revision.1 + 1 < 2 ^ 64 := sample_forall hcall rfl
    rw [hfits]
    exact exact_reconcileFor htame helapsed (Margin.Far.paced hdur elapsed) hdur hwall
  · rename_i scope durable expected elapsed hcall
    obtain ⟨helapsed, hpaced, hdur⟩ := htame.phases call _ hcall
    cases h
    have hfits : Fits s (.reconcile call wall) ↔ s.authority.safety.anchorElapsed.1 ≤ elapsed.1 ∧
        s.authority.safety.revision.1 + 1 < 2 ^ 64 := sample_forall hcall rfl
    rw [hfits]
    exact exact_reconcileFor htame helapsed hpaced hdur hwall
  · cases h

theorem returned_map_iff {α : Type} {r : ClockResult α} {g : α → Option IngestTime} :
    r ≠ .error .outOfRange ↔ Phase.returned (r.map g) ≠ .returned (.error .outOfRange) := by
  cases r with
  | ok x => exact ⟨fun _ h => (by cases h), fun _ => ok_ne_error x _⟩
  | error f =>
    constructor
    · intro h hphase
      cases hphase
      exact h rfl
    · intro h hf
      cases hf
      exact h rfl

theorem exact_advanceBaseline (htame : m.Tame s) (h : s.step (.advanceBaseline call) = some s') :
    m.Tame s' ∧ (¬ Spurious s → (Fits s (.advanceBaseline call) ↔ ¬ Spurious s')) := by
  simp only [step] at h
  split at h
  · rename_i scope durable elapsed hcall
    obtain ⟨helapsed, hdur⟩ := htame.phases call _ hcall
    obtain ⟨hclock, hexact⟩ := htame.clock.ingestTimeBaseline htame.now scope hdur helapsed
    have hfits : Fits s (.advanceBaseline call) ↔ ScopeFits s.authority scope elapsed :=
      sample_forall hcall rfl
    cases h
    refine exact_moveTo (tame_authority htame hclock) ?_ ((hfits.trans hexact).trans returned_map_iff)
    trivial
  · rename_i scope durable elapsed hcall
    obtain ⟨helapsed, hdur⟩ := htame.phases call _ hcall
    obtain ⟨hclock, hexact⟩ := htame.clock.recoverScopeBaseline htame.now scope hdur helapsed
    have hfits : Fits s (.advanceBaseline call) ↔ ScopeFits s.authority scope elapsed :=
      sample_forall hcall rfl
    cases h
    refine exact_moveTo (tame_authority htame hclock) ?_ ((hfits.trans hexact).trans returned_map_iff)
    trivial
  · cases h

theorem exact_step (htame : m.Tame s) (hfar : m.SectionFar e) (h : s.step e = some s') :
    m.Tame s' ∧ (¬ Spurious s → (Fits s e ↔ ¬ Spurious s')) := by
  cases e with
  | sample call scope request elapsed => exact exact_sample htame hfar h
  | readExpected call => exact exact_readExpected htame h
  | reconcile call wall => exact exact_reconcile htame hfar h
  | advanceBaseline call => exact exact_advanceBaseline htame h

theorem tame_establish {epoch : UnixNanoseconds} (hepoch : m.Far epoch)
    (policy : LifecycleClockPolicy) : m.Tame (establish epoch policy) where
  now := Nat.zero_le _
  clock :=
    { epoch := hepoch
      correction := rfl
      anchor := Margin.Far.paced hepoch _
      anchorElapsed := Nat.le_refl _
      baselines := fun _ _ hb => (by cases hb) }
  phases := fun _ _ hp => (by cases hp)

end System

/-- In every interleaving of the sections of any number of calls, no call returns `OutOfRange` if
and only if every section fits the state it finds. -/
theorem no_spurious_out_of_range_iff (m : Margin) (epoch : UnixNanoseconds) (hepoch : m.Far epoch)
    (policy : LifecycleClockPolicy) (sections : List Section) (hfar : ∀ e ∈ sections, m.SectionFar e)
    (s : System) (hrun : run System.step (System.establish epoch policy) sections = some s) :
    (∀ call, s.calls call ≠ some (.returned (.error .outOfRange))) ↔
      EveryStep System.step Fits (System.establish epoch policy) sections := by
  have hfree : ¬ Spurious (System.establish epoch policy) := by
    rintro ⟨call, hcall⟩
    cases hcall
  have hiff := run_free_iff m.Tame Spurious m.SectionFar Fits
    (fun s e s' htame he hs => (System.exact_step htame he hs).1)
    (fun s e s' hbad hs => System.spurious_lasts hbad hs)
    (fun s e s' htame he hfree hs => (System.exact_step htame he hs).2 hfree)
    (System.tame_establish hepoch policy) hfree hfar hrun
  rw [← hiff]
  exact ⟨fun h ⟨call, hcall⟩ => h call hcall, fun h call hcall => h ⟨call, hcall⟩⟩

def orderedSections : List Section :=
  [.sample 0 SegmentScope.sample (.recover (I64.ofBits 4000)) (Unsigned.wrap 64 5),
    .reconcile 0 (I64.ofBits 1005),
    .sample 1 SegmentScope.sample (.ingest none) (Unsigned.wrap 64 10),
    .readExpected 1, .advanceBaseline 0, .reconcile 1 (I64.ofBits 1010), .advanceBaseline 1]

theorem orderedSections_return : ∃ s,
    run System.step (System.establish (I64.ofBits 1000) .default) orderedSections = some s ∧
    (∀ call, s.calls call ≠ some (.returned (.error .outOfRange))) ∧
    s.calls 1 = some (.returned (.ok (some (I64.ofBits 4010)))) := by
  refine ⟨_, rfl, ?_, rfl⟩
  exact (no_spurious_out_of_range_iff .centuries (I64.ofBits 1000) (by decide) .default
    orderedSections (by decide) _ rfl).mpr (by decide)

def overtakenSections : List Section :=
  [.sample 0 SegmentScope.sample (.ingest none) (Unsigned.wrap 64 5),
    .sample 1 SegmentScope.sample (.ingest none) (Unsigned.wrap 64 10),
    .readExpected 1, .reconcile 1 (I64.ofBits 1010), .readExpected 0]

theorem overtaken_mint_returns_out_of_range :
    ¬ ∀ (m : Margin) (epoch : UnixNanoseconds) (policy : LifecycleClockPolicy)
      (sections : List Section) (s : System), m.Far epoch → (∀ e ∈ sections, m.SectionFar e) →
      run System.step (System.establish epoch policy) sections = some s →
      ∀ call, s.calls call ≠ some (.returned (.error .outOfRange)) := by
  intro h
  exact h .centuries (I64.ofBits 1000) .default overtakenSections _ (by decide) (by decide) rfl 0 rfl

end Positron.Clock
