import Positron.Clock.SteadyClock

/-! Dropping a staged candidate, among any number of them. A drop takes the anchor back only when the candidate finds
its own revision, and it then takes back what other parties have recovered since the candidate was staged. -/

namespace Positron.Clock
open MachineInt RetentionTimeAuthority Runs

/-- An observation with its readings of the two clocks. -/
abbrev Observation := SegmentScope × ScopeRequest × ClockResult U64 × ClockResult UnixNanoseconds

/-- What an observation does to the authority, whoever makes it. -/
def RetentionTimeAuthority.observe (a : RetentionTimeAuthority) : Observation → RetentionTimeAuthority
  | (scope, .ingest durable, elapsed, wall) => (a.ingestTime scope durable elapsed wall).2
  | (scope, .recover durable, elapsed, wall) => (a.recoverScope scope durable elapsed wall).2

theorem observe_before (a : RetentionTimeAuthority) (observation : Observation) :
    a.safety.Before (a.observe observation).safety := by
  obtain ⟨scope, durable | durable, f | elapsed, wall⟩ := observation
  · exact .refl _
  · obtain ⟨safety, -, hbefore, ⟨f, h⟩ | h⟩ := a.ingestTime_cases scope elapsed wall durable <;>
      rw [RetentionTimeAuthority.observe, h]
    · exact hbefore
    · rwa [ingestTimeBaseline_safety]
  · exact .refl _
  · obtain ⟨safety, -, hbefore, ⟨f, h⟩ | h⟩ := a.recoverScope_cases scope elapsed wall durable <;>
      rw [RetentionTimeAuthority.observe, h]
    · exact hbefore
    · rwa [recoverScopeBaseline_safety]

theorem observeAll_before (observations : List Observation) (a : RetentionTimeAuthority) :
    a.safety.Before (observations.foldl observe a).safety := by
  induction observations generalizing a with
  | nil => exact .refl _
  | cons observation observations ih =>
    have hfirst := observe_before a observation
    have hrest := ih (a.observe observation)
    exact ⟨hfirst.revision.trans hrest.revision, hfirst.anchor.trans hrest.anchor⟩

/-- Whoever observes and whatever the two clocks read, the anchor never moves back. -/
theorem observations_keep_anchor (observations : List Observation) (a : RetentionTimeAuthority) (now : U64) :
    safeAnchorAt a now ≤ safeAnchorAt (observations.foldl observe a) now := by
  have hlevel := (observeAll_before observations a).anchor
  unfold safeAnchorAt
  omega

/-- The safe anchor brought back to elapsed time zero. -/
def LifecycleClockSafety.level (safety : LifecycleClockSafety) : Int := safety.anchor.1 - safety.anchorElapsed.1

/-- A process under watch. For each candidate, the levels to which other parties have brought the anchor since the
candidate was staged. -/
structure Watched where
  process : Process
  others : Nat → List Int

namespace Watched

abbrev Event := Call × ClockResult U64 × ClockResult UnixNanoseconds

def start (a : RetentionTimeAuthority) : Watched := ⟨⟨a, ∅⟩, fun _ => []⟩

def level (w : Watched) : Int := w.process.authority.safety.level

/-- What a candidate has to remember of a call: an observation that it did not make itself. -/
def remembers (candidate : Nat) : Call → Bool
  | .ingestTime _ _ | .recoverScope _ _ => true
  | .stagedIngestTime own _ _ | .stagedDestructiveIngestTime own _ _ => decide (own ≠ candidate)
  | _ => false

def step (w : Watched) (event : Event) : Option Watched :=
  let process := (w.process.step event.1 event.2.1 event.2.2).2
  some ⟨process, fun candidate =>
    if remembers candidate event.1 then process.authority.safety.level :: w.others candidate
    else match event.1 with
      | .stageCatalogAnchor staged => if staged = candidate then [] else w.others candidate
      | _ => w.others candidate⟩

variable (w : Watched) (candidate : Nat) (staged : StagedCatalogAnchor)

/-- The drop leaves the anchor where every other party has brought it since the stage, or the clock uncertain. -/
def DropKeeps : Prop :=
  (w.process.authority.abandonCatalogAnchor staged).safety.state = .clockUncertain ∨
    ∀ level ∈ w.others candidate, level ≤ (w.process.authority.abandonCatalogAnchor staged).safety.level

/-- A candidate that finds its revision finds the anchor no further than it was when it was staged. -/
def DropsInPlace : Prop :=
  staged.candidateRevision = some w.process.authority.safety.revision → w.level ≤ staged.checkpoint.level

/-- Candidates are dropped in place, and no durable anchor is installed. -/
def InPlace (w : Watched) (event : Event) : Prop :=
  match event.1 with
  | .abandon candidate => ∀ staged ∈ w.process.staged.lookup candidate, w.DropsInPlace staged
  | .recoverCatalogAnchor _ => False
  | _ => True

instance : Decidable (w.DropKeeps candidate staged) := inferInstanceAs (Decidable (_ ∨ _))

instance : Decidable (w.DropsInPlace staged) := inferInstanceAs (Decidable (_ → _))

instance (w : Watched) : (event : Event) → Decidable (w.InPlace event)
  | (.abandon candidate, _) =>
    inferInstanceAs (Decidable (∀ staged ∈ w.process.staged.lookup candidate, w.DropsInPlace staged))
  | (.recoverCatalogAnchor _, _) => inferInstanceAs (Decidable False)
  | (.ingestTime _ _, _) | (.recoverScope _ _, _) | (.stageCatalogAnchor _, _) | (.stagedIngestTime _ _ _, _)
  | (.stagedDestructiveIngestTime _ _ _, _) | (.commit _, _) => inferInstanceAs (Decidable True)

/-- The anchor has never gone back, and only the other parties have brought it beyond a checkpoint. -/
structure Kept (w : Watched) (candidate : Nat) (staged : StagedCatalogAnchor) : Prop where
  checkpoint : staged.checkpoint.level ≤ w.level
  others : ∀ level ∈ w.others candidate, level ≤ w.level
  reached : w.level ≤ staged.checkpoint.level ∨ ∃ level ∈ w.others candidate, w.level ≤ level

def AllKept (w : Watched) : Prop :=
  ∀ candidate staged, w.process.staged.lookup candidate = some staged → w.Kept candidate staged

end Watched

section Levels

variable (a : RetentionTimeAuthority) (scope : SegmentScope)

theorem reconcileCurrent_level (elapsed : U64) (wall : ClockResult UnixNanoseconds) :
    (a.reconcileCurrent elapsed wall).2.safety.level = a.safety.level := by
  unfold reconcileCurrent expectedAnchor
  cases hexpected : advanceGlobal a.safety elapsed with
  | error f => rfl
  | ok expected =>
    obtain ⟨safety, hsafety, hanchor, helapsed, -⟩ := reconcile_moves hexpected expected wall
    obtain ⟨hle, -, hadvanced⟩ := advanceFrom_eq_ok_iff.mp hexpected
    dsimp only [reconcile]
    rw [hsafety]
    unfold LifecycleClockSafety.level
    dsimp only
    rw [hanchor, helapsed, max_self]
    omega

/-- The observation of a candidate moves the anchor with the time alone. -/
theorem ingestTime_level (durable : Option IngestTime) (elapsed : ClockResult U64)
    (wall : ClockResult UnixNanoseconds) :
    (a.ingestTime scope durable elapsed wall).2.safety.level = a.safety.level := by
  cases elapsed with
  | error f => rfl
  | ok elapsed =>
    have hlevel := reconcileCurrent_level a elapsed wall
    obtain ⟨safety, hsafety, -, ⟨f, h⟩ | h⟩ := a.ingestTime_cases scope elapsed wall durable <;>
      rw [hsafety] at hlevel <;> rw [h]
    · exact hlevel
    · rw [ingestTimeBaseline_safety]
      exact hlevel

theorem recoverScope_level (durable : IngestTime) (elapsed : ClockResult U64) (wall : ClockResult UnixNanoseconds) :
    a.safety.level ≤ (a.recoverScope scope durable elapsed wall).2.safety.level :=
  (observe_before a (scope, .recover durable, elapsed, wall)).anchor

variable {a} {staged : StagedCatalogAnchor}

/-- A drop that does not find its own revision takes nothing back. -/
theorem abandon_level (h : staged.candidateRevision ≠ some a.safety.revision) :
    (a.abandonCatalogAnchor staged).safety.level = a.safety.level ∧
      ((a.abandonCatalogAnchor staged).safety.state = .clockUncertain ∨ a.abandonCatalogAnchor staged = a) := by
  unfold abandonCatalogAnchor
  cases hrevision : staged.candidateRevision with
  | none => exact ⟨rfl, .inr rfl⟩
  | some revision =>
    dsimp only
    have hmoved : a.safety.revision ≠ revision := fun heq => h (hrevision.trans (congrArg some heq.symm))
    rw [if_neg hmoved]
    exact ⟨rfl, .inl rfl⟩

/-- One that finds it restores the checkpoint, on a clock that is no more certain than before. -/
theorem abandon_restores (h : staged.candidateRevision = some a.safety.revision) :
    (a.abandonCatalogAnchor staged).safety.level = staged.checkpoint.level ∧
      ((a.abandonCatalogAnchor staged).safety.state = .clockUncertain ↔
        a.safety.state = .clockUncertain ∨ staged.checkpoint.state = .clockUncertain) := by
  unfold abandonCatalogAnchor
  rw [h]
  dsimp only
  rw [if_pos rfl]
  split
  · rename_i huncertain
    exact ⟨rfl, iff_of_true rfl (.inl huncertain)⟩
  · rename_i hcertain
    exact ⟨rfl, (or_iff_right hcertain).symm⟩

end Levels

namespace Watched

variable {w w' : Watched} {candidate : Nat} {staged staged' : StagedCatalogAnchor}

theorem Kept.same (h : w.Kept candidate staged) (hlevel : w'.level = w.level)
    (hothers : w'.others candidate = w.others candidate) (hcheckpoint : staged'.checkpoint = staged.checkpoint) :
    w'.Kept candidate staged' := by
  obtain ⟨hcheck, hall, hreached⟩ := h
  rw [← hcheckpoint, ← hlevel] at hcheck hreached
  rw [← hlevel, ← hothers] at hall
  rw [← hothers] at hreached
  exact ⟨hcheck, hall, hreached⟩

theorem Kept.observed (h : w.Kept candidate staged) (hlevel : w.level ≤ w'.level)
    (hothers : w'.others candidate = w'.level :: w.others candidate) : w'.Kept candidate staged := by
  refine ⟨h.checkpoint.trans hlevel, ?_, .inr ⟨w'.level, ?_, le_refl _⟩⟩
  · rw [hothers]
    exact List.forall_mem_cons.mpr ⟨le_refl _, fun level hmem => (h.others level hmem).trans hlevel⟩
  · rw [hothers]
    exact List.mem_cons_self

/-- A drop in place leaves the anchor where it is. -/
theorem Kept.dropped (h : w.Kept candidate staged) (hplace : w.DropsInPlace staged) :
    (w.process.authority.abandonCatalogAnchor staged).safety.level = w.level := by
  by_cases hrevision : staged.candidateRevision = some w.process.authority.safety.revision
  · rw [(abandon_restores hrevision).1]
    exact le_antisymm h.checkpoint (hplace hrevision)
  · exact (abandon_level hrevision).1

/-- A candidate remembers nothing of its own observation, and the others do. -/
theorem own_allKept (h : w.AllKept) {own : Nat} (hown : w.process.staged.lookup own = some staged)
    (hstaged : w'.process.staged = w.process.staged.insert own staged') (hlevel : w'.level = w.level)
    (hcheckpoint : staged'.checkpoint = staged.checkpoint) (hothers : ∀ candidate, w'.others candidate =
      if decide (own ≠ candidate) then w'.level :: w.others candidate else w.others candidate) : w'.AllKept := by
  intro candidate found hfound
  rw [hstaged] at hfound
  by_cases hsame : candidate = own
  · subst hsame
    cases (AList.lookup_insert w.process.staged).symm.trans hfound
    exact (h candidate staged hown).same hlevel ((hothers candidate).trans (if_neg (by simp))) hcheckpoint
  · have hother : w.process.staged.lookup candidate = some found := (AList.lookup_insert_ne hsame).symm.trans hfound
    exact (h candidate found hother).observed hlevel.ge
      ((hothers candidate).trans (if_pos (decide_eq_true (Ne.symm hsame))))

theorem unknown_allKept (h : w.AllKept) {own : Nat} (hown : w.process.staged.lookup own = none)
    (hprocess : w'.process = w.process) (hothers : ∀ candidate, w'.others candidate =
      if decide (own ≠ candidate) then w'.level :: w.others candidate else w.others candidate) : w'.AllKept := by
  intro candidate staged hstaged
  rw [hprocess] at hstaged
  have hne : own ≠ candidate := by
    rintro rfl
    cases hown.symm.trans hstaged
  have hlevel : w.level = w'.level := by rw [level, level, hprocess]
  exact (h candidate staged hstaged).observed hlevel.le ((hothers candidate).trans (if_pos (decide_eq_true hne)))

theorem step_allKept {event : Event} (h : w.AllKept) (hplace : w.InPlace event) (hstep : w.step event = some w') :
    w'.AllKept := by
  obtain ⟨call, elapsed, wall⟩ := event
  cases hstep
  cases call with
  | ingestTime scope durable =>
    intro candidate staged hstaged
    exact (h candidate staged hstaged).observed (ingestTime_level ..).ge rfl
  | recoverScope scope durable =>
    intro candidate staged hstaged
    exact (h candidate staged hstaged).observed (recoverScope_level ..) rfl
  | recoverCatalogAnchor objects => cases hplace
  | stageCatalogAnchor fresh =>
    intro candidate staged hstaged
    by_cases hfresh : candidate = fresh
    · subst hfresh
      cases (AList.lookup_insert w.process.staged).symm.trans hstaged
      have hnone : ∀ level ∈ (if candidate = candidate then [] else w.others candidate), level ≤ w.level := by simp
      exact ⟨le_refl _, hnone, .inl (le_refl _)⟩
    · have hother := (AList.lookup_insert_ne hfresh).symm.trans hstaged
      exact (h candidate staged hother).same rfl (if_neg (Ne.symm hfresh)) rfl
  | stagedIngestTime own scope durable =>
    dsimp only [Process.step]
    cases hown : w.process.staged.lookup own with
    | none => exact unknown_allKept h hown rfl fun candidate => rfl
    | some found =>
      refine own_allKept h hown rfl ?_ rfl fun candidate => rfl
      exact ingestTime_level ..
  | stagedDestructiveIngestTime own scope durable =>
    dsimp only [Process.step]
    cases hown : w.process.staged.lookup own with
    | none => exact unknown_allKept h hown rfl fun candidate => rfl
    | some found =>
      refine own_allKept h hown rfl ?_ rfl fun candidate => rfl
      exact (congrArg (·.safety.level) (destructiveIngestTime_snd ..)).trans (ingestTime_level ..)
  | commit own =>
    intro candidate staged hstaged
    by_cases hsame : candidate = own
    · subst hsame
      cases (AList.lookup_erase _ w.process.staged).symm.trans hstaged
    · exact (h candidate staged ((AList.lookup_erase_ne hsame).symm.trans hstaged)).same rfl rfl rfl
  | abandon own =>
    dsimp only [Process.step]
    cases hown : w.process.staged.lookup own with
    | none =>
      intro candidate staged hstaged
      exact (h candidate staged hstaged).same rfl rfl rfl
    | some found =>
      intro candidate staged hstaged
      have hlevel := (h own found hown).dropped (hplace found hown)
      by_cases hsame : candidate = own
      · subst hsame
        cases (AList.lookup_erase _ w.process.staged).symm.trans hstaged
      · exact (h candidate staged ((AList.lookup_erase_ne hsame).symm.trans hstaged)).same hlevel rfl rfl

end Watched

/-- In a run that drops its candidates in place, the next drop keeps what the other parties have observed, or leaves
the clock uncertain, exactly when it is in place or the clock or the checkpoint is uncertain already. -/
theorem abandoned_candidate_keeps_observations (a : RetentionTimeAuthority) {events : List Watched.Event} {w : Watched}
    (hplace : EveryStep Watched.step Watched.InPlace (.start a) events)
    (hrun : run Watched.step (.start a) events = some w)
    {candidate : Nat} {staged : StagedCatalogAnchor} (h : w.process.staged.lookup candidate = some staged) :
    w.DropKeeps candidate staged ↔ w.DropsInPlace staged ∨ w.process.authority.safety.state = .clockUncertain ∨
      staged.checkpoint.state = .clockUncertain := by
  have hempty : (Watched.start a).AllKept := fun candidate staged hstaged => by cases hstaged
  have hkept : w.Kept candidate staged := run_invariant Watched.AllKept Watched.InPlace
    (fun _ _ _ hw hevent hstep => Watched.step_allKept hw hevent hstep) hempty hplace hrun candidate staged h
  unfold Watched.DropKeeps Watched.DropsInPlace
  by_cases hrevision : staged.candidateRevision = some w.process.authority.safety.revision
  · obtain ⟨hlevel, hstate⟩ := abandon_restores hrevision
    rw [hlevel, hstate, or_comm]
    refine or_congr_left ⟨fun hothers _ => ?_, fun hin level hmem => (hkept.others level hmem).trans (hin hrevision)⟩
    rcases hkept.reached with hreached | ⟨level, hmem, hreached⟩
    · exact hreached
    · exact hreached.trans (hothers level hmem)
  · obtain ⟨hlevel, hstate⟩ := abandon_level hrevision
    refine iff_of_true (.inr fun level hmem => ?_) (.inl fun hfound => absurd hfound hrevision)
    rw [hlevel]
    exact hkept.others level hmem

/-- Calls while both clocks stand at zero. -/
def atOnce (calls : List Call) : List Watched.Event :=
  calls.map fun call => (call, .ok (Unsigned.zero 64), .ok I64.zero)

def oneSecond : IngestTime := I64.ofBits 1000000000

/-- Two ways to lose the recovery of another party, which has brought the anchor a second ahead. The candidate observes
behind it. Or the drop of another candidate has given the revision back, and the recovery takes up the number that the
candidate holds. -/
theorem earlier_recovery_erased :
    (∃ w staged, run Watched.step (.start (establishWithSource I64.zero .default)) (atOnce
        [.stageCatalogAnchor 0, .recoverScope .sample oneSecond, .stagedIngestTime 0 .sample none]) = some w ∧
      w.process.staged.lookup 0 = some staged ∧ ¬ w.DropKeeps 0 staged) ∧
    ∃ w staged, run Watched.step (.start (establishWithSource I64.zero .default)) (atOnce
        [.stageCatalogAnchor 0, .stageCatalogAnchor 1, .stagedIngestTime 1 .sample none,
          .stagedIngestTime 0 .sample none, .abandon 0, .recoverScope .sample oneSecond]) = some w ∧
      w.process.staged.lookup 1 = some staged ∧ ¬ w.DropKeeps 1 staged :=
  ⟨⟨_, _, rfl, rfl, by decide⟩, _, _, rfl, rfl, by decide⟩

/-- The second candidate is dropped in place, behind the recovery. -/
def twoCandidates : List Watched.Event := atOnce
  [.stageCatalogAnchor 0, .stagedIngestTime 0 .sample none, .recoverScope .sample oneSecond, .stageCatalogAnchor 1,
    .stagedDestructiveIngestTime 1 .sample none, .abandon 1]

theorem two_candidates_keep_recovery : ∃ w staged,
    run Watched.step (.start (establishWithSource I64.zero .default)) twoCandidates = some w ∧
      w.process.staged.lookup 0 = some staged ∧ w.others 0 ≠ [] ∧ w.DropKeeps 0 staged := by
  have hrun : run Watched.step (.start (establishWithSource I64.zero .default)) twoCandidates = some _ := rfl
  refine ⟨_, _, hrun, rfl, by decide, ?_⟩
  exact (abandoned_candidate_keeps_observations _ (by decide) hrun rfl).mpr (.inl (by decide))

end Positron.Clock
