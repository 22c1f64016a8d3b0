import Mathlib.Data.List.Induction
import Positron.Lease.Codec
import Positron.Lib.Checks

/-! The retention of one scope: the pass that retires whole segments, and what the preview of a shorter retention says
about it. -/

namespace Positron.Ledger
open MachineInt Checks Lease ByteCodec List

inductive SegmentState where
  | active
  | sealed
  | retired
deriving DecidableEq

structure SegmentMetadata where
  id : SegmentId
  state : SegmentState
  basePosition : CommitPosition
deriving DecidableEq

structure SegmentBlock extends CommittedBlock where
  segment : SegmentId
  position : CommitPosition

/-- What the catalog and the storage hold for one scope. Segment identities are unique. -/
structure ScopeState where
  scope : SegmentScope
  catalogIdentity : CatalogGenerationId
  catalogGeneration : U64
  retentionSeconds : U64
  metadata : List SegmentMetadata
  blocks : List SegmentBlock
  leases : List LeaseRecord
  isProtected : SegmentId → Bool
  distinct : (metadata.map SegmentMetadata.id).Nodup

def SegmentBlock.instant (block : SegmentBlock) : LedgerResult UnixNanoseconds :=
  match block.blockRetention with
  | .complete time => .ok time
  | .empty | .unavailable => reject .unsupportedFormat

/-- The later of an instant and what was seen before it. -/
def laterOf {α : Type} [Max α] (latest : Option α) (value : α) : α :=
  match latest with
  | none => value
  | some previous => max previous value

def latestOf (blocks : List SegmentBlock) : LedgerResult (Option UnixNanoseconds) :=
  blocks.foldlM (fun latest block => do
    let instant ← block.instant
    return some (laterOf latest instant)) none

/-- A sealed segment is retired when it is empty, or when all of it is past the cutoff. Its base position
then carries the last position it held. -/
def retireSegment (cutoff : UnixNanoseconds) (blocks : List SegmentBlock) (candidate : SegmentMetadata) :
    LedgerResult SegmentMetadata :=
  let held := blocks.filter fun block => block.segment = candidate.id
  if candidate.state ≠ .sealed then .ok candidate
  else if held.isEmpty then .ok { candidate with state := .retired }
  else do
    let latest ← latestOf held
    if latest.all (cutoff.1 < ·.1) then return candidate
    else return { candidate with
      state := .retired
      basePosition := (held.map (·.position)).foldl (some <| laterOf · ·) none |>.getD candidate.basePosition }

def retireSegments (cutoff : UnixNanoseconds) (blocks : List SegmentBlock) :
    List SegmentMetadata → LedgerResult (List SegmentMetadata × List SegmentId)
  | [] => .ok ([], [])
  | candidate :: metadata => do
    let updated ← retireSegment cutoff blocks candidate
    let (rest, retired) ← retireSegments cutoff blocks metadata
    return (updated :: rest, if updated.state = candidate.state then retired else candidate.id :: retired)

structure RetentionImpactTimeRange where
  earliest : UnixNanoseconds
  latest : UnixNanoseconds

inductive RetentionReclamationEstimate where
  | none
  | at (time : UnixNanoseconds)
  | blockedByDurableLease (time : UnixNanoseconds)
  | blockedByInProcessSnapshot
deriving DecidableEq

structure RetentionImpactPreview where
  scope : SegmentScope
  catalogIdentity : CatalogGenerationId
  catalogGeneration : U64
  evaluatedAt : UnixNanoseconds
  affectedTimeRange : Option RetentionImpactTimeRange
  approximateAffectedBytes : U64
  approximateImmediatelyReclaimableBytes : U64
  deferredActiveSegmentBytes : U64
  deferredMixedSealedSegmentBytes : U64
  earliestReclamation : RetentionReclamationEstimate

def nanosPerSecond : Nat := 1000000000

def secondsToNanos (seconds : U64) : LedgerResult I64 :=
  orFail ((Unsigned.ofNat? 64 (seconds.1 * nanosPerSecond)).bind I64.ofU64?) (.new .limitExceeded)

def retentionCutoff (proposed : U64) (evaluatedAt : UnixNanoseconds) : LedgerResult UnixNanoseconds := do
  let duration ← secondsToNanos proposed
  orFail (evaluatedAt.checkedSub duration) (.new .limitExceeded)

def segmentStates (metadata : List SegmentMetadata) : SegmentId → Option SegmentState :=
  metadata.foldl (fun states segment => Function.update states segment.id (some segment.state)) fun _ => none

def latestBySegment (blocks : List SegmentBlock) : LedgerResult (SegmentId → Option UnixNanoseconds) :=
  blocks.foldlM (fun latest block => do
    let instant ← block.instant
    return Function.update latest block.segment (some (laterOf (latest block.segment) instant))) fun _ => none

/-- The totals of the preview while it goes over the blocks. -/
structure RetentionImpact where
  affected : U64 := .zero 64
  reclaimable : U64 := .zero 64
  deferred : U64 := .zero 64
  mixedSealed : U64 := .zero 64
  range : Option RetentionImpactTimeRange := none
  affectedSealed : List SegmentId := []

def addBytes (total bytes : U64) : LedgerResult U64 := orFail (total.checkedAdd bytes) (.new .limitExceeded)

def wholeSegmentEligible (cutoff : UnixNanoseconds) (latest : Option UnixNanoseconds) :
    SegmentState → LedgerResult Bool
  | .sealed => .ok (latest.any (· ≤ cutoff))
  | .active => .ok false
  | .retired => reject .integrityCorruption

def impactOfBlock (cutoff : UnixNanoseconds) (states : SegmentId → Option SegmentState)
    (latest : SegmentId → Option UnixNanoseconds) (impact : RetentionImpact) (block : SegmentBlock) :
    LedgerResult RetentionImpact := do
  let instant ← block.instant
  let state ← orFail (states block.segment) (.new .integrityCorruption)
  let whole ← wholeSegmentEligible cutoff (latest block.segment) state
  if cutoff.1 < instant.1 then return impact
  else
    let bytes ← orFail (Unsigned.ofNat? 64 block.payload.length) (.new .limitExceeded)
    let affected ← addBytes impact.affected bytes
    let range := match impact.range with
      | some previous => ⟨min previous.earliest instant, max previous.latest instant⟩
      | none => ⟨instant, instant⟩
    let impact := { impact with affected := affected, range := some range }
    match state with
    | .sealed =>
      if whole then
        let reclaimable ← addBytes impact.reclaimable bytes
        return { impact with
          reclaimable := reclaimable
          affectedSealed := if block.segment ∈ impact.affectedSealed then impact.affectedSealed
            else impact.affectedSealed ++ [block.segment] }
      else
        let mixedSealed ← addBytes impact.mixedSealed bytes
        return { impact with mixedSealed := mixedSealed }
    | .active =>
      let deferred ← addBytes impact.deferred bytes
      return { impact with deferred := deferred }
    | .retired => reject .integrityCorruption

/-- The latest expiry of the leases that still hold a segment. -/
def reclamationLeaseExpiry (leases : List LeaseRecord) (scope : SegmentScope) (now : U64) (segment : SegmentId) :
    Option U64 :=
  leases.foldl (fun latest record =>
    if record.scope ≠ scope ∨ record.expiry ≤ now ∨ record.blocks.all (·.segment ≠ segment) then latest
    else some (laterOf latest record.expiry)) none

/-- The fold over the segments as it is written: a segment without a lease drops what came before it. -/
def latestLeaseExpiry (leases : List LeaseRecord) (scope : SegmentScope) (now : U64)
    (segments : List SegmentId) : Option U64 :=
  segments.foldl (fun latest segment =>
    (reclamationLeaseExpiry leases scope now segment).map (laterOf latest)) none

def earliestReclamation (leases : List LeaseRecord) (scope : SegmentScope) (isProtected : SegmentId → Bool)
    (evaluatedAt : UnixNanoseconds) (now reclaimable : U64) (segments : List SegmentId) :
    LedgerResult RetentionReclamationEstimate :=
  if reclaimable.1 = 0 then .ok .none
  else if segments.any isProtected then .ok .blockedByInProcessSnapshot
  else
    match latestLeaseExpiry leases scope now segments with
    | some expiry => .blockedByDurableLease <$> secondsToNanos expiry
    | none => .ok (.at evaluatedAt)

def wholeSeconds (time : UnixNanoseconds) : LedgerResult U64 :=
  orFail ((I64.ofInt? (time.1.tdiv nanosPerSecond)).bind I64.toU64?) (.new .limitExceeded)

def inspectRetentionImpactAt (s : ScopeState) (proposed : U64) (evaluatedAt : UnixNanoseconds) :
    LedgerResult RetentionImpactPreview :=
  if s.retentionSeconds ≤ proposed then reject .invalidInput
  else do
    let cutoff ← retentionCutoff proposed evaluatedAt
    let latest ← latestBySegment s.blocks
    let impact ← s.blocks.foldlM (impactOfBlock cutoff (segmentStates s.metadata) latest) {}
    let now ← wholeSeconds evaluatedAt
    let earliest ← earliestReclamation s.leases s.scope s.isProtected evaluatedAt now impact.reclaimable
      impact.affectedSealed
    return ⟨s.scope, s.catalogIdentity, s.catalogGeneration, evaluatedAt, impact.range, impact.affected,
      impact.reclaimable, impact.deferred, impact.mixedSealed, earliest⟩

theorem le_laterOf {α : Type} [LinearOrder α] (latest : Option α) (value : α) :
    value ≤ laterOf latest value ∧ ∀ previous ∈ latest, previous ≤ laterOf latest value := by
  cases latest with
  | none => exact ⟨le_refl value, fun previous hmem => by cases hmem⟩
  | some previous =>
    refine ⟨le_max_right previous value, ?_⟩
    intro v hv
    cases hv
    exact le_max_left previous value

section Latest

variable {blocks : List SegmentBlock} {latest : SegmentId → Option UnixNanoseconds}

/-- The map of the preview holds, for each segment, what the pass finds in the segment's own blocks. -/
theorem latestOf_filter (h : latestBySegment blocks = .ok latest) (id : SegmentId) :
    latestOf (blocks.filter fun block => block.segment = id) = .ok (latest id) := by
  unfold latestBySegment at h
  unfold latestOf
  have hstart : (none : Option UnixNanoseconds) = (fun _ : SegmentId => none) id := rfl
  rw [hstart]
  generalize (fun _ : SegmentId => none) = start at h ⊢
  induction blocks generalizing start with
  | nil =>
    cases h
    rfl
  | cons block blocks ih =>
    obtain ⟨next, hnext, h⟩ := bind_ok h
    obtain ⟨instant, hinstant, hnext⟩ := bind_ok hnext
    cases hnext
    have hrest := ih _ h
    by_cases hid : block.segment = id
    · subst hid
      rw [filter_cons_of_pos (by simp), foldlM_cons, bind_eq_of_ok hinstant]
      rw [Function.update_self] at hrest
      exact hrest
    · rw [filter_cons_of_neg (by simp [hid])]
      rw [Function.update_of_ne (Ne.symm hid)] at hrest
      exact hrest

theorem latestOf_le {held : List SegmentBlock} {last : Option UnixNanoseconds} (h : latestOf held = .ok last) :
    ∀ block ∈ held, ∃ instant, block.instant = .ok instant ∧ ∃ m ∈ last, instant ≤ m := by
  unfold latestOf at h
  suffices hall : (∀ v ∈ (none : Option UnixNanoseconds), ∃ m ∈ last, v ≤ m) ∧
      ∀ block ∈ held, ∃ instant, block.instant = .ok instant ∧ ∃ m ∈ last, instant ≤ m from hall.2
  generalize (none : Option UnixNanoseconds) = start at h ⊢
  induction held generalizing start with
  | nil =>
    cases h
    exact ⟨fun v hv => ⟨v, hv, le_refl v⟩, fun block hmem => absurd hmem not_mem_nil⟩
  | cons block held ih =>
    obtain ⟨next, hnext, h⟩ := bind_ok h
    obtain ⟨instant, hinstant, hnext⟩ := bind_ok hnext
    cases hnext
    obtain ⟨hnow, hrest⟩ := ih _ h
    obtain ⟨m, hm, hle⟩ := hnow _ rfl
    have hlater := le_laterOf start instant
    refine ⟨fun v hv => ⟨m, hm, (hlater.2 v hv).trans hle⟩, fun other hmem => ?_⟩
    rcases mem_cons.mp hmem with rfl | hmem
    · exact ⟨instant, hinstant, m, hm, hlater.1.trans hle⟩
    · exact hrest other hmem

theorem latest_of_mem (h : latestBySegment blocks = .ok latest) {block : SegmentBlock} (hmem : block ∈ blocks) :
    ∃ instant m, block.instant = .ok instant ∧ latest block.segment = some m ∧ instant ≤ m := by
  obtain ⟨instant, hinstant, m, hm, hle⟩ := latestOf_le (latestOf_filter h block.segment) block
    (mem_filter.mpr ⟨hmem, by simp⟩)
  exact ⟨instant, m, hinstant, hm, hle⟩

end Latest

section Pass

variable {blocks : List SegmentBlock} {latest : SegmentId → Option UnixNanoseconds}
  (hlatest : latestBySegment blocks = .ok latest) (cutoff : UnixNanoseconds)
include hlatest

theorem retireSegment_ok (candidate : SegmentMetadata) :
    ∃ updated, retireSegment cutoff blocks candidate = .ok updated ∧ (updated.state = candidate.state ↔
        ¬ (candidate.state = .sealed ∧ ∀ m ∈ latest candidate.id, m ≤ cutoff)) := by
  have hheld := latestOf_filter hlatest candidate.id
  unfold retireSegment
  by_cases hstate : candidate.state = .sealed
  swap
  · rw [if_pos hstate]
    exact ⟨candidate, rfl, fun _ h => hstate h.1, fun _ => rfl⟩
  rw [if_neg (not_not.mpr hstate), hstate]
  split
  · rename_i hempty
    rw [isEmpty_iff.mp hempty] at hheld
    refine ⟨_, rfl, (fun h => by cases h), fun h => absurd ⟨rfl, fun m hm => ?_⟩ h⟩
    rw [← Except.ok.inj hheld] at hm
    cases hm
  · rename_i hne
    obtain ⟨block, hblock⟩ := exists_mem_of_ne_nil _ fun h => hne (isEmpty_iff.mpr h)
    obtain ⟨_, _, m, hm, _⟩ := latestOf_le hheld block hblock
    rw [bind_eq_of_ok hheld, hm]
    simp only [Option.all_some, Option.mem_def, Option.some.injEq, forall_eq', true_and]
    split
    · rename_i hlate
      refine ⟨_, rfl, fun _ hle => ?_, fun _ => hstate⟩
      exact absurd hle (not_le.mpr (of_decide_eq_true hlate))
    · rename_i hearly
      refine ⟨_, rfl, (fun h => by cases h), fun h => absurd ?_ h⟩
      exact not_lt.mp fun hlt => hearly (decide_eq_true hlt)

theorem retireSegments_ok (metadata : List SegmentMetadata) :
    ∃ updated retired, retireSegments cutoff blocks metadata = .ok (updated, retired) ∧
      ∀ id, id ∈ retired ↔ ∃ candidate ∈ metadata, candidate.id = id ∧ candidate.state = .sealed ∧
        ∀ m ∈ latest id, m ≤ cutoff := by
  induction metadata with
  | nil => exact ⟨[], [], rfl, fun id => ⟨fun h => absurd h not_mem_nil, fun h => by simp at h⟩⟩
  | cons candidate metadata ih =>
    obtain ⟨updated, hupdated, hsame⟩ := retireSegment_ok hlatest cutoff candidate
    obtain ⟨rest, retired, hrest, hretired⟩ := ih
    rw [retireSegments, bind_eq_of_ok hupdated, bind_eq_of_ok hrest]
    refine ⟨_, _, rfl, fun id => ?_⟩
    simp only [mem_cons, exists_eq_or_imp, ← hretired id]
    split
    · rename_i hstate
      have hkept := hsame.mp hstate
      refine ⟨Or.inr, fun h => h.resolve_left ?_⟩
      rintro ⟨rfl, hchanged⟩
      exact hkept hchanged
    · rename_i hstate
      have hchanged := not_not.mp fun h => hstate (hsame.mpr h)
      rw [mem_cons]
      refine or_congr_left ⟨?_, fun h => h.1.symm⟩
      rintro rfl
      exact ⟨rfl, hchanged⟩

end Pass

section Totals

theorem segmentStates_eq_some_iff {metadata : List SegmentMetadata}
    (hdist : (metadata.map SegmentMetadata.id).Nodup) {id : SegmentId} {state : SegmentState} :
    segmentStates metadata id = some state ↔ ∃ candidate ∈ metadata, candidate.id = id ∧ candidate.state = state := by
  have hfold : ∀ start : SegmentId → Option SegmentState,
      metadata.foldl (fun (states : SegmentId → Option SegmentState) segment =>
        Function.update states segment.id (some segment.state)) start id = some state ↔
        (start id = some state ∧ id ∉ metadata.map SegmentMetadata.id) ∨
          ∃ candidate ∈ metadata, candidate.id = id ∧ candidate.state = state := by
    induction metadata with
    | nil => simp
    | cons candidate metadata ih =>
      intro start
      obtain ⟨hfresh, hdist⟩ := nodup_cons.mp hdist
      rw [foldl_cons, ih hdist]
      by_cases hid : id = candidate.id
      · subst hid
        simp [hfresh]
      · simp [hid, Ne.symm hid]
  have h := hfold fun _ => none
  simp only [reduceCtorEq, false_and, false_or] at h
  exact h

variable {cutoff : UnixNanoseconds} {states : SegmentId → Option SegmentState}
  {latest : SegmentId → Option UnixNanoseconds}

def reclaimedBytes (retired : List SegmentId) (block : SegmentBlock) : Nat :=
  if block.segment ∈ retired then block.payload.length else 0

theorem sum_reclaimedBytes (retired : List SegmentId) (blocks : List SegmentBlock) :
    (blocks.map (reclaimedBytes retired)).sum =
      ((blocks.filter fun block => block.segment ∈ retired).map fun block => block.payload.length).sum := by
  induction blocks with
  | nil => rfl
  | cons block blocks ih =>
    rw [map_cons, sum_cons, ih, reclaimedBytes]
    by_cases hmem : block.segment ∈ retired
    · simp [hmem]
    · simp [hmem]

def RetentionImpact.Balanced (impact : RetentionImpact) : Prop :=
  impact.affected.1 = impact.reclaimable.1 + impact.deferred.1 + impact.mixedSealed.1

theorem addBytes_ok {total bytes sum : U64} (h : addBytes total bytes = .ok sum) : sum.1 = total.1 + bytes.1 :=
  Unsigned.checkedAdd_eq_some_iff.mp (orFail_eq_ok_iff.mp h)

/-- One block adds its bytes to the total and to one of its parts: to the reclaimable one when its
segment will be retired. -/
theorem impactOfBlock_ok {retired : List SegmentId} {impact impact' : RetentionImpact} {block : SegmentBlock}
    (hretired : block.segment ∈ retired ↔ states block.segment = some .sealed ∧
      ∃ m ∈ latest block.segment, m ≤ cutoff)
    (hlatest : ∀ instant, block.instant = .ok instant → ∃ m ∈ latest block.segment, instant ≤ m)
    (h : impactOfBlock cutoff states latest impact block = .ok impact') :
    impact'.reclaimable.1 = impact.reclaimable.1 + reclaimedBytes retired block ∧
      (impact.Balanced → impact'.Balanced) := by
  obtain ⟨instant, hinstant, h⟩ := bind_ok h
  obtain ⟨state, hstate, h⟩ := bind_ok h
  obtain ⟨whole, hwhole, h⟩ := bind_ok h
  obtain ⟨m, hm, hle⟩ := hlatest instant hinstant
  rw [orFail_eq_ok_iff.mp hstate, hm] at hretired
  rw [hm] at hwhole
  simp only [Option.some.injEq, Option.mem_def, exists_eq_left'] at hretired
  unfold reclaimedBytes RetentionImpact.Balanced
  split at h
  · rename_i hlate
    cases h
    rw [if_neg fun hmem => absurd (hle.trans (hretired.mp hmem).2) (not_le.mpr hlate)]
    exact ⟨rfl, id⟩
  obtain ⟨bytes, hbytes, h⟩ := bind_ok h
  have hbytes := Unsigned.ofNat?_eq_some_iff.mp (orFail_eq_ok_iff.mp hbytes)
  obtain ⟨affected, haffected, h⟩ := bind_ok h
  have haffected := addBytes_ok haffected
  cases state with
  | active =>
    obtain ⟨deferred, hdeferred, h⟩ := bind_ok h
    have hdeferred := addBytes_ok hdeferred
    cases h
    rw [if_neg fun hmem => by cases (hretired.mp hmem).1]
    exact ⟨rfl, fun hbalanced => by dsimp only at hdeferred ⊢; omega⟩
  | «sealed» =>
    cases hwhole
    dsimp only at h
    split at h
    · rename_i hearly
      obtain ⟨reclaimable, hreclaimable, h⟩ := bind_ok h
      have hreclaimable := addBytes_ok hreclaimable
      cases h
      rw [if_pos (hretired.mpr ⟨rfl, of_decide_eq_true hearly⟩)]
      dsimp only at hreclaimable ⊢
      exact ⟨by omega, fun hbalanced => by omega⟩
    · rename_i hlate
      obtain ⟨mixed, hmixed, h⟩ := bind_ok h
      have hmixed := addBytes_ok hmixed
      cases h
      rw [if_neg fun hmem => hlate (decide_eq_true (hretired.mp hmem).2)]
      exact ⟨rfl, fun hbalanced => by dsimp only at hmixed ⊢; omega⟩
  | retired => cases h

theorem impactOfBlocks_ok {retired : List SegmentId} {impact impact' : RetentionImpact} {blocks : List SegmentBlock}
    (hretired : ∀ block ∈ blocks, (block.segment ∈ retired ↔ states block.segment = some .sealed ∧
      ∃ m ∈ latest block.segment, m ≤ cutoff))
    (hlatest : ∀ block ∈ blocks, ∀ instant, block.instant = .ok instant →
      ∃ m ∈ latest block.segment, instant ≤ m)
    (h : blocks.foldlM (impactOfBlock cutoff states latest) impact = .ok impact') :
    impact'.reclaimable.1 = impact.reclaimable.1 + (blocks.map (reclaimedBytes retired)).sum ∧
      (impact.Balanced → impact'.Balanced) := by
  induction blocks generalizing impact with
  | nil =>
    cases h
    exact ⟨rfl, id⟩
  | cons block blocks ih =>
    obtain ⟨next, hnext, h⟩ := bind_ok h
    obtain ⟨hblock, hretired⟩ := forall_mem_cons.mp hretired
    obtain ⟨hblockLatest, hlatest⟩ := forall_mem_cons.mp hlatest
    obtain ⟨hnow, hbalanced⟩ := impactOfBlock_ok hblock hblockLatest hnext
    obtain ⟨hrest, hbalanced'⟩ := ih hretired hlatest h
    rw [map_cons, sum_cons]
    exact ⟨by omega, fun h => hbalanced' (hbalanced h)⟩

end Totals

/-- The preview splits the affected bytes into the parts it names, and its reclaimable part is what the
pass with the same cutoff takes out of segments that hold blocks. -/
theorem preview_predicts_retention (s : ScopeState) (proposed : U64) (evaluatedAt : UnixNanoseconds)
    (preview : RetentionImpactPreview) (h : inspectRetentionImpactAt s proposed evaluatedAt = .ok preview) :
    preview.approximateAffectedBytes.1 = preview.approximateImmediatelyReclaimableBytes.1 +
      preview.deferredActiveSegmentBytes.1 + preview.deferredMixedSealedSegmentBytes.1 ∧
    ∃ cutoff updated retired, retentionCutoff proposed evaluatedAt = .ok cutoff ∧
      retireSegments cutoff s.blocks s.metadata = .ok (updated, retired) ∧
      preview.approximateImmediatelyReclaimableBytes.1 =
        ((s.blocks.filter fun block => block.segment ∈ retired).map fun block => block.payload.length).sum := by
  unfold inspectRetentionImpactAt at h
  split at h
  · cases h
  obtain ⟨cutoff, hcutoff, h⟩ := bind_ok h
  obtain ⟨latest, hlatest, h⟩ := bind_ok h
  obtain ⟨impact, himpact, h⟩ := bind_ok h
  obtain ⟨_, _, h⟩ := bind_ok h
  obtain ⟨_, _, h⟩ := bind_ok h
  cases h
  obtain ⟨updated, retired, hpass, hretired⟩ := retireSegments_ok hlatest cutoff s.metadata
  have hblocks : ∀ block ∈ s.blocks, (block.segment ∈ retired ↔
      segmentStates s.metadata block.segment = some .sealed ∧ ∃ m ∈ latest block.segment, m ≤ cutoff) := by
    intro block hmem
    obtain ⟨_, m, _, hm, _⟩ := latest_of_mem hlatest hmem
    rw [hretired, segmentStates_eq_some_iff s.distinct, hm]
    simp only [Option.mem_def, Option.some.injEq, forall_eq', exists_eq_left']
    constructor
    · rintro ⟨candidate, hcand, hid, hstate, hle⟩
      exact ⟨⟨candidate, hcand, hid, hstate⟩, hle⟩
    · rintro ⟨⟨candidate, hcand, hid, hstate⟩, hle⟩
      exact ⟨candidate, hcand, hid, hstate, hle⟩
  have hle : ∀ block ∈ s.blocks, ∀ instant, block.instant = .ok instant →
      ∃ m ∈ latest block.segment, instant ≤ m := by
    intro block hmem instant hinstant
    obtain ⟨instant', m, hinstant', hm, hle⟩ := latest_of_mem hlatest hmem
    cases hinstant.symm.trans hinstant'
    exact ⟨m, hm, hle⟩
  obtain ⟨hreclaimable, hbalanced⟩ := impactOfBlocks_ok hblocks hle himpact
  refine ⟨hbalanced rfl, cutoff, updated, retired, hcutoff, hpass, hreclaimable.trans ?_⟩
  rw [sum_reclaimedBytes]
  exact Nat.zero_add _

def firstSegment : SegmentId := ⟨⟨⟨List.replicate 16 1, rfl⟩, rfl⟩⟩

def secondSegment : SegmentId := ⟨⟨⟨List.replicate 16 2, rfl⟩, rfl⟩⟩

def sampleLease (segment : SegmentId) : LeaseRecord where
  identity := ⟨firstSegment.id⟩
  scope := .sample
  catalogIdentity := zeroBytes 32
  catalogGeneration := .zero 64
  frontier := .zero 64
  observedAt := .wrap 64 900
  expiry := .wrap 64 2000
  resumeCount := .zero 64
  repeatedBatchCount := .zero 64
  lastResumeSequence := none
  lastResumePriorDigest := noDigest
  usage := .none
  blocks := [⟨⟨segment.id⟩, .zero 64, segment⟩]

/-- Two sealed segments with one old block each; the first is leased. -/
def leasedBeforeUnleased : ScopeState where
  scope := .sample
  catalogIdentity := zeroBytes 32
  catalogGeneration := .zero 64
  retentionSeconds := .wrap 64 100
  metadata := [⟨firstSegment, .sealed, .zero 64⟩, ⟨secondSegment, .sealed, .zero 64⟩]
  blocks := [⟨⟨[1], .complete .zero⟩, firstSegment, .wrap 64 1⟩, ⟨⟨[1], .complete .zero⟩, secondSegment, .wrap 64 2⟩]
  leases := [sampleLease firstSegment]
  isProtected := fun _ => false
  distinct := by decide

def sampleTime : UnixNanoseconds := .ofBits (1000 * nanosPerSecond)

theorem sample_predicted : ∃ preview cutoff updated retired,
    inspectRetentionImpactAt leasedBeforeUnleased (.wrap 64 10) sampleTime = .ok preview ∧
    retireSegments cutoff leasedBeforeUnleased.blocks leasedBeforeUnleased.metadata = .ok (updated, retired) ∧
    preview.approximateImmediatelyReclaimableBytes.1 = ((leasedBeforeUnleased.blocks.filter fun block =>
      block.segment ∈ retired).map fun block => block.payload.length).sum := by
  have hok : (inspectRetentionImpactAt leasedBeforeUnleased (.wrap 64 10) sampleTime).toBool := rfl
  cases hpreview : inspectRetentionImpactAt leasedBeforeUnleased (.wrap 64 10) sampleTime with
  | error failure =>
    rw [hpreview] at hok
    cases hok
  | ok preview =>
    obtain ⟨-, cutoff, updated, retired, -, hpass, hbytes⟩ := preview_predicts_retention _ _ _ _ hpreview
    exact ⟨preview, cutoff, updated, retired, rfl, hpass, hbytes⟩

section Leases

variable (leases : List LeaseRecord) (scope : SegmentScope) (now : U64)

/-- An unexpired lease of the scope refers to the segment and ends at the expiry. -/
def HeldUntil (segment : SegmentId) (expiry : U64) : Prop :=
  ∃ record ∈ leases, record.scope = scope ∧ now < record.expiry ∧
    (∃ block ∈ record.blocks, block.segment = segment) ∧ record.expiry = expiry

theorem laterOf_eq {α : Type} [LinearOrder α] (latest : Option α) (value : α) :
    laterOf latest value = value ∨ ∃ previous ∈ latest, laterOf latest value = previous := by
  cases latest with
  | none => exact .inl rfl
  | some previous => exact (max_choice previous value).symm.imp id fun h => ⟨previous, rfl, h⟩

theorem reclamationLeaseExpiry_spec (segment : SegmentId) :
    (∀ found ∈ reclamationLeaseExpiry leases scope now segment, HeldUntil leases scope now segment found) ∧
      ∀ expiry, HeldUntil leases scope now segment expiry →
        ∃ found ∈ reclamationLeaseExpiry leases scope now segment, expiry ≤ found := by
  unfold reclamationLeaseExpiry
  induction leases using List.reverseRecOn with
  | nil => exact ⟨(fun found h => by cases h), fun expiry h => by simp [HeldUntil] at h⟩
  | append_singleton leases record ih =>
    rw [foldl_append, foldl_cons, foldl_nil]
    generalize leases.foldl _ none = before at ih ⊢
    have hsplit : ∀ expiry, HeldUntil (leases ++ [record]) scope now segment expiry ↔
        HeldUntil leases scope now segment expiry ∨ HeldUntil [record] scope now segment expiry := by
      intro expiry
      simp only [HeldUntil, mem_append, or_and_right, exists_or]
    have hone : ∀ expiry, HeldUntil [record] scope now segment expiry ↔
        ¬ (record.scope ≠ scope ∨ record.expiry ≤ now ∨ record.blocks.all (·.segment ≠ segment)) ∧
          record.expiry = expiry := by
      simp [HeldUntil, not_or, and_assoc]
    simp only [hsplit, hone]
    split
    · rename_i hskip
      simp only [hskip, not_true_eq_false, false_and, or_false]
      exact ih
    · rename_i hheld
      have hlater := le_laterOf before record.expiry
      refine ⟨fun found hfound => ?_, fun expiry h => ⟨_, rfl, ?_⟩⟩
      · cases hfound
        rcases laterOf_eq before record.expiry with heq | ⟨previous, hprev, heq⟩
        · exact .inr ⟨hheld, heq.symm⟩
        · rw [heq]
          exact .inl (ih.1 previous hprev)
      · rcases h with h | ⟨_, rfl⟩
        · obtain ⟨found, hfound, hle⟩ := ih.2 expiry h
          exact hle.trans (hlater.2 found hfound)
        · exact hlater.1

/-- The fold ends with the bound of its values exactly when one of them reaches it and no later element
is without a value. -/
theorem foldl_map_laterOf_iff {α β : Type} [LinearOrder β] {f : α → Option β} {xs : List α} {m : β}
    (hle : ∀ x ∈ xs, ∀ v ∈ f x, v ≤ m) : ∀ {latest : Option β}, (∀ v ∈ latest, v ≤ m) →
      (xs.foldl (fun latest x => (f x).map (laterOf latest)) latest = some m ↔
        (latest = some m ∧ ∀ y ∈ xs, f y ≠ none) ∨
          ∃ front x back, xs = front ++ x :: back ∧ f x = some m ∧ ∀ y ∈ back, f y ≠ none) := by
  induction xs with
  | nil => simp
  | cons x xs ih =>
    intro latest hlatest
    obtain ⟨hx, hxs⟩ := forall_mem_cons.mp hle
    have hsplit : (∃ front y back, x :: xs = front ++ y :: back ∧ f y = some m ∧ ∀ z ∈ back, f z ≠ none) ↔
        (f x = some m ∧ ∀ z ∈ xs, f z ≠ none) ∨
          ∃ front y back, xs = front ++ y :: back ∧ f y = some m ∧ ∀ z ∈ back, f z ≠ none := by
      constructor
      · rintro ⟨front, y, back, heq, hy, hback⟩
        rcases cons_eq_append_iff.mp heq with ⟨rfl, hhead⟩ | ⟨rest, rfl, htail⟩
        · cases hhead
          exact .inl ⟨hy, hback⟩
        · exact .inr ⟨rest, y, back, htail, hy, hback⟩
      · rintro (⟨hy, hback⟩ | ⟨front, y, back, rfl, hy, hback⟩)
        · exact ⟨[], x, xs, rfl, hy, hback⟩
        · exact ⟨x :: front, y, back, rfl, hy, hback⟩
    have hnext : (∀ v ∈ (f x).map (laterOf latest), v ≤ m) ∧
        ((f x).map (laterOf latest) = some m ↔ f x = some m ∨ latest = some m ∧ f x ≠ none) := by
      cases hval : f x with
      | none => simp
      | some value =>
        have hvalLe := hx value hval
        cases latest with
        | none => simp [laterOf, hvalLe]
        | some previous =>
          have hprevLe := hlatest previous rfl
          have hmax : max previous value = m ↔ value = m ∨ previous = m := by
            refine ⟨fun h => ?_, ?_⟩
            · rcases max_choice previous value with hmax | hmax
              · exact .inr (hmax ▸ h)
              · exact .inl (hmax ▸ h)
            · rintro (rfl | rfl)
              · exact max_eq_right hprevLe
              · exact max_eq_left hvalLe
          simp [laterOf, hvalLe, hprevLe, hmax]
    rw [foldl_cons, ih hxs hnext.1, hsplit, hnext.2, forall_mem_cons, or_and_right, and_assoc, or_assoc,
      or_left_comm]

theorem secondsToNanos_eq_ok_iff {seconds : U64} {time : I64} :
    secondsToNanos seconds = .ok time ↔ time.1 = seconds.1 * nanosPerSecond := by
  unfold secondsToNanos
  rw [orFail_eq_ok_iff, Option.bind_eq_some_iff]
  constructor
  · rintro ⟨nanos, hnanos, htime⟩
    rw [← Nat.cast_mul, ← Unsigned.ofNat?_eq_some_iff.mp hnanos]
    exact I64.ofInt?_eq_some_iff.mp htime
  · intro h
    refine ⟨⟨seconds.1 * nanosPerSecond, by omega⟩, Unsigned.ofNat?_eq_some_iff.mpr rfl, ?_⟩
    exact I64.ofInt?_eq_some_iff.mpr (h.trans (Nat.cast_mul _ _).symm)

/-- The estimate names the latest expiry of the leases that hold an eligible segment exactly when there are
bytes to reclaim, the expiry is an instant, and every segment after some segment held that long is held too. -/
theorem earliest_reclamation_respects_leases_iff (isProtected : SegmentId → Bool) (evaluatedAt : UnixNanoseconds)
    (reclaimable expiry : U64) {segments : List SegmentId}
    (hunprotected : ∀ segment ∈ segments, isProtected segment = false)
    (hlatest : IsGreatest {e | ∃ segment ∈ segments, HeldUntil leases scope now segment e} expiry) :
    (∃ time : UnixNanoseconds, time.1 = expiry.1 * nanosPerSecond ∧
      earliestReclamation leases scope isProtected evaluatedAt now reclaimable segments =
        .ok (.blockedByDurableLease time)) ↔
      reclaimable.1 ≠ 0 ∧ expiry.1 * nanosPerSecond < 2 ^ 63 ∧
        ∃ front segment back, segments = front ++ segment :: back ∧
          HeldUntil leases scope now segment expiry ∧ ∀ later ∈ back, ∃ e, HeldUntil leases scope now later e := by
  have hspec := reclamationLeaseExpiry_spec leases scope now
  have hfound : ∀ segment ∈ segments, reclamationLeaseExpiry leases scope now segment = some expiry ↔
      HeldUntil leases scope now segment expiry := by
    intro segment hmem
    refine ⟨fun h => (hspec segment).1 expiry h, fun h => ?_⟩
    obtain ⟨found, hfound, hle⟩ := (hspec segment).2 expiry h
    have hge := hlatest.2 ⟨segment, hmem, (hspec segment).1 found hfound⟩
    rw [le_antisymm hle hge]
    exact hfound
  have hheld : ∀ segment, reclamationLeaseExpiry leases scope now segment ≠ none ↔
      ∃ e, HeldUntil leases scope now segment e := by
    intro segment
    rw [Option.ne_none_iff_exists']
    refine ⟨Exists.imp (hspec segment).1, ?_⟩
    rintro ⟨e, he⟩
    obtain ⟨found, hfound, _⟩ := (hspec segment).2 e he
    exact ⟨found, hfound⟩
  have hfold := (foldl_map_laterOf_iff (fun segment hmem found hfound =>
    hlatest.2 ⟨segment, hmem, (hspec segment).1 found hfound⟩) fun v (hv : v ∈ none) => by cases hv).trans
      (or_iff_right fun h => by cases h.1)
  have hreached : latestLeaseExpiry leases scope now segments = some expiry ↔
      ∃ front segment back, segments = front ++ segment :: back ∧
        HeldUntil leases scope now segment expiry ∧ ∀ later ∈ back, ∃ e, HeldUntil leases scope now later e := by
    refine hfold.trans (exists_congr fun front => exists_congr fun segment => exists_congr fun back =>
      and_congr_right fun heq => ?_)
    rw [hfound segment (by rw [heq]; simp)]
    exact and_congr_right fun _ => forall₂_congr fun later _ => hheld later
  have hany : segments.any isProtected = false :=
    any_eq_false.mpr fun segment hmem => Bool.eq_false_iff.mp (hunprotected segment hmem)
  rw [← hreached]
  unfold earliestReclamation
  rw [hany]
  constructor
  · rintro ⟨time, htime, h⟩
    split at h
    · cases h
    rename_i hbytes
    cases hexpiry : latestLeaseExpiry leases scope now segments with
    | none =>
      rw [hexpiry] at h
      cases h
    | some found =>
      rw [hexpiry] at h
      dsimp only at h
      cases hnanos : secondsToNanos found with
      | error failure =>
        rw [hnanos] at h
        cases h
      | ok nanos =>
        rw [hnanos] at h
        cases h
        have hval := secondsToNanos_eq_ok_iff.mp hnanos
        unfold nanosPerSecond at htime hval ⊢
        exact ⟨hbytes, by omega, congrArg some (Subtype.ext (by omega))⟩
  · rintro ⟨hbytes, hfits, hexpiry⟩
    obtain ⟨time, htime⟩ : ∃ time : I64, time.1 = expiry.1 * nanosPerSecond :=
      ⟨⟨expiry.1 * nanosPerSecond, by omega⟩, rfl⟩
    refine ⟨time, htime, ?_⟩
    rw [if_neg hbytes, hexpiry]
    dsimp only
    rw [secondsToNanos_eq_ok_iff.mpr htime]
    rfl

theorem sampleLease_heldUntil :
    HeldUntil [sampleLease firstSegment] .sample (.wrap 64 1000) firstSegment (.wrap 64 2000) :=
  ⟨_, mem_singleton_self _, rfl, by decide, ⟨_, mem_singleton_self _, rfl⟩, rfl⟩

theorem lease_after_unleased_counts : ∃ time : UnixNanoseconds, time.1 = (2000 : Nat) * nanosPerSecond ∧
      earliestReclamation [sampleLease firstSegment] .sample (fun _ => false) sampleTime (.wrap 64 1000)
        (.wrap 64 2) [secondSegment, firstSegment] = .ok (.blockedByDurableLease time) := by
  refine (earliest_reclamation_respects_leases_iff _ _ _ _ _ _ (.wrap 64 2000) (fun _ _ => rfl)
    ⟨⟨firstSegment, by decide, sampleLease_heldUntil⟩, ?_⟩).mpr
    ⟨by decide, by decide, [secondSegment], firstSegment, [], rfl, sampleLease_heldUntil, by simp⟩
  rintro e ⟨segment, _, record, hrec, _, _, _, rfl⟩
  rw [mem_singleton.mp hrec]
  exact le_refl _

/-- With an unleased segment behind the leased one, the preview promises what the lease forbids. -/
theorem unleased_segment_hides_lease :
    (RetentionImpactPreview.earliestReclamation <$> inspectRetentionImpactAt leasedBeforeUnleased (.wrap 64 10)
      sampleTime) = .ok (.at sampleTime) ∧ wholeSeconds sampleTime = .ok (.wrap 64 1000) ∧
      HeldUntil leasedBeforeUnleased.leases .sample (.wrap 64 1000) firstSegment (.wrap 64 2000) :=
  ⟨rfl, rfl, sampleLease_heldUntil⟩

end Leases

end Positron.Ledger
