import Mathlib.Data.List.AList
import Positron.Domain

/-! The retention time authority and its durable anchor: a global safe anchor reconciled with the wall clock, and one
baseline for each scope that only elapsed time moves. A failing call keeps whatever it had already written, so every
operation returns its result and the state. What a call does to one scope is said once, by `Touch`. -/

namespace Positron.Clock
open MachineInt ByteCodec

variable {start elapsed : U64} {instant : UnixNanoseconds}

inductive LifecycleClockFailure where
  | unavailable
  | outOfRange
  | clockUncertain
deriving DecidableEq

inductive LifecycleClockState where
  | certain
  | clockUncertain
deriving DecidableEq

structure LifecycleClockPolicy where
  maximumReconciliationOffsetNanoseconds : U64
  nonzero : maximumReconciliationOffsetNanoseconds.1 ≠ 0

def LifecycleClockPolicy.default : LifecycleClockPolicy := ⟨⟨300000000000, by decide⟩, by decide⟩

structure LifecycleClockSafety where
  anchor : UnixNanoseconds
  anchorElapsed : U64
  state : LifecycleClockState
  lastWallClock : Option UnixNanoseconds
  observedOffsetNanoseconds : Option I64
  wallClockCorrectionNanoseconds : I64
  revision : U64
deriving DecidableEq

structure ScopeBaseline where
  instant : UnixNanoseconds
  elapsedAtStart : U64
deriving DecidableEq

/-- The authority with its two guarded tables. `source` tells whether a wall clock is attached. -/
structure RetentionTimeAuthority where
  epoch : UnixNanoseconds
  destructiveRetention : Bool
  source : Bool
  policy : LifecycleClockPolicy
  safety : LifecycleClockSafety
  scopes : AList (fun _ : SegmentScope => ScopeBaseline)

abbrev ClockResult (α : Type) := Except LifecycleClockFailure α

def withParts (epoch : UnixNanoseconds) (destructiveRetention source : Bool)
    (policy : LifecycleClockPolicy) : RetentionTimeAuthority where
  epoch := epoch
  destructiveRetention := destructiveRetention
  source := source
  policy := policy
  safety :=
    { anchor := epoch
      anchorElapsed := Unsigned.zero 64
      state := .certain
      lastWallClock := some epoch
      observedOffsetNanoseconds := some I64.zero
      wallClockCorrectionNanoseconds := I64.zero
      revision := Unsigned.zero 64 }
  scopes := ∅

def establishWithSource (epoch : UnixNanoseconds) (policy : LifecycleClockPolicy) :
    RetentionTimeAuthority := withParts epoch true true policy

/-- An instant moved forward by the time elapsed since `start`. -/
def advanceFrom (instant : UnixNanoseconds) (start elapsed : U64) : ClockResult UnixNanoseconds :=
  match ((elapsed.checkedSub start).bind I64.ofU64?).bind (I64.checkedAdd instant) with
  | some moved => .ok moved
  | none => .error .outOfRange

variable (safety : LifecycleClockSafety)

def advanceGlobal (elapsed : U64) : ClockResult UnixNanoseconds :=
  advanceFrom safety.anchor safety.anchorElapsed elapsed

def advance (baseline : ScopeBaseline) (elapsed : U64) : ClockResult UnixNanoseconds :=
  advanceFrom baseline.instant baseline.elapsedAtStart elapsed

theorem advanceFrom_eq_ok_iff {instant moved : UnixNanoseconds} :
    advanceFrom instant start elapsed = .ok moved ↔ start.1 ≤ elapsed.1 ∧ elapsed.1 - start.1 < 2 ^ 63 ∧
        moved.1 = instant.1 + (elapsed.1 - start.1 : Nat) := by
  unfold advanceFrom
  constructor
  · intro h
    split at h
    · rename_i found hfound
      cases h
      obtain ⟨delta, hdelta, hadd⟩ := Option.bind_eq_some_iff.mp hfound
      obtain ⟨diff, hsub, htry⟩ := Option.bind_eq_some_iff.mp hdelta
      rw [Unsigned.checkedSub_eq_some_iff] at hsub
      rw [I64.ofU64?_eq_some_iff] at htry
      rw [I64.checkedAdd_eq_some_iff] at hadd
      omega
    · cases h
  · rintro ⟨hle, hsmall, hmoved⟩
    have hsub : elapsed.checkedSub start = some ⟨elapsed.1 - start.1, by have := elapsed.2; omega⟩ :=
      Unsigned.checkedSub_eq_some_iff.mpr ⟨hle, rfl⟩
    have htry : I64.ofU64? ⟨elapsed.1 - start.1, by have := elapsed.2; omega⟩ =
        some ⟨(elapsed.1 - start.1 : Nat), by omega⟩ := I64.ofU64?_eq_some_iff.mpr rfl
    have hadd : I64.checkedAdd instant ⟨(elapsed.1 - start.1 : Nat), by omega⟩ = some moved :=
      I64.checkedAdd_eq_some_iff.mpr hmoved
    rw [hsub, Option.bind_some, htry, Option.bind_some, hadd]

variable {f : LifecycleClockFailure}

theorem advanceFrom_error (h : advanceFrom instant start elapsed = .error f) : f = .outOfRange := by
  unfold advanceFrom at h
  split at h
  · cases h
  · cases h
    rfl

theorem advanceFrom_of_le (hle : start.1 ≤ elapsed.1) (hdelta : elapsed.1 - start.1 < 2 ^ 63)
    (hhigh : instant.1 + elapsed.1 - start.1 < 2 ^ 63) :
    ∃ moved, advanceFrom instant start elapsed = .ok moved ∧ moved.1 = instant.1 + elapsed.1 - start.1 := by
  refine ⟨⟨instant.1 + elapsed.1 - start.1, by omega⟩, ?_, rfl⟩
  refine advanceFrom_eq_ok_iff.mpr ⟨hle, hdelta, ?_⟩
  dsimp only
  omega

theorem advanceFrom_of_lt (hlt : elapsed.1 < start.1) : advanceFrom instant start elapsed = .error .outOfRange := by
  cases h : advanceFrom instant start elapsed with
  | ok moved =>
    obtain ⟨hle, _⟩ := advanceFrom_eq_ok_iff.mp h
    omega
  | error f => rw [advanceFrom_error h]

/-- A baseline that can no longer be advanced stays so: elapsed time only grows. -/
theorem advance_error_mono {b : ScopeBaseline} {e e' : U64} (h : advance b e = .error f)
    (hstart : b.elapsedAtStart.1 ≤ e.1) (hle : e.1 ≤ e'.1) : ∃ f', advance b e' = .error f' := by
  cases hadv : advance b e' with
  | error f' => exact ⟨f', rfl⟩
  | ok moved =>
    obtain ⟨_, hsmall, hmoved⟩ := advanceFrom_eq_ok_iff.mp hadv
    have hlow := b.instant.2
    have hok : advance b e = .ok ⟨b.instant.1 + (e.1 - b.elapsedAtStart.1 : Nat), by omega⟩ :=
      advanceFrom_eq_ok_iff.mpr ⟨hstart, by omega, rfl⟩
    rw [hok] at h
    cases h

variable (a : RetentionTimeAuthority) (scope : SegmentScope)

namespace RetentionTimeAuthority

/-- The comparison with the wall clock, after the anchor and the revision have moved. -/
def observeWall (policy : LifecycleClockPolicy) (safety : LifecycleClockSafety)
    (wall : ClockResult UnixNanoseconds) : ClockResult Unit × LifecycleClockSafety :=
  match wall with
  | .error failure => (.error failure, safety)
  | .ok wall =>
    match I64.checkedSub wall safety.anchor with
    | none => (.error .outOfRange, safety)
    | some offset =>
      match I64.checkedAdd wall safety.wallClockCorrectionNanoseconds with
      | none => (.error .outOfRange, safety)
      | some adjustedWall =>
        (.ok (),
          { safety with
            lastWallClock := some wall
            observedOffsetNanoseconds := some offset
            state :=
              if I64.absDiff adjustedWall safety.anchor >
                  policy.maximumReconciliationOffsetNanoseconds.1 then .clockUncertain
              else .certain })

def reconcileWhileAcceptanceHeld (durableOrExpected : UnixNanoseconds)
    (elapsed : U64) (wall : ClockResult UnixNanoseconds) :
    ClockResult Unit × RetentionTimeAuthority :=
  match advanceGlobal a.safety elapsed with
  | .error failure => (.error failure, a)
  | .ok advanced =>
    let moved := { a.safety with anchor := max advanced durableOrExpected, anchorElapsed := elapsed }
    match moved.revision.checkedAdd ⟨1, one_lt_word⟩ with
    -- the anchor has already been written when the revision turns out to be exhausted
    | none => (.error .outOfRange, { a with safety := moved })
    | some revision =>
      let moved := { moved with revision := revision }
      if a.source then
        let observed := observeWall a.policy moved wall
        (observed.1, { a with safety := observed.2 })
      else (.ok (), { a with safety := moved })

/-- The first section of `reconcile_current`: what the anchor is expected to be by now. -/
def expectedAnchor (elapsed : U64) : ClockResult UnixNanoseconds :=
  advanceGlobal a.safety elapsed

def reconcile (durableOrExpected : UnixNanoseconds) (elapsed : U64)
    (wall : ClockResult UnixNanoseconds) : ClockResult Unit × RetentionTimeAuthority :=
  a.reconcileWhileAcceptanceHeld durableOrExpected elapsed wall

def reconcileCurrent (elapsed : U64)
    (wall : ClockResult UnixNanoseconds) : ClockResult Unit × RetentionTimeAuthority :=
  match a.expectedAnchor elapsed with
  | .error failure => (.error failure, a)
  | .ok expected => a.reconcile expected elapsed wall

def setBaseline (baseline : ScopeBaseline) : RetentionTimeAuthority :=
  { a with scopes := a.scopes.insert scope baseline }

/-- The scope table has no room for a scope it does not hold. -/
def scopeTableFull : Bool :=
  (a.scopes.lookup scope).isNone && decide (maxTenantQuotas ≤ a.scopes.entries.length)

def recoverScopeBaseline (durable : IngestTime) (elapsed : U64) : ClockResult Unit × RetentionTimeAuthority :=
  if a.scopeTableFull scope then (.error .outOfRange, a)
  else
    match a.scopes.lookup scope with
    | some baseline =>
      match advance baseline elapsed with
      | .error failure => (.error failure, a)
      | .ok current => (.ok (), a.setBaseline scope ⟨max current durable, elapsed⟩)
    | none => (.ok (), a.setBaseline scope ⟨durable, Unsigned.zero 64⟩)

/-- `ingest_time` once the anchor has been reconciled. A new baseline stays in the table even
when it cannot be advanced. -/
def ingestTimeBaseline (durable : Option IngestTime) (elapsed : U64) :
    ClockResult IngestTime × RetentionTimeAuthority :=
  if a.scopeTableFull scope then (.error .outOfRange, a)
  else
    match a.scopes.lookup scope with
    | some baseline => (advance baseline elapsed, a)
    | none =>
      let baseline : ScopeBaseline := ⟨durable.getD a.epoch, Unsigned.zero 64⟩
      (advance baseline elapsed, a.setBaseline scope baseline)

def recoverScope (durable : IngestTime) (elapsed : ClockResult U64) (wall : ClockResult UnixNanoseconds) :
    ClockResult Unit × RetentionTimeAuthority :=
  match elapsed with
  | .error failure => (.error failure, a)
  | .ok elapsed =>
    match a.reconcile durable elapsed wall with
    | (.error failure, a) => (.error failure, a)
    | (.ok (), a) => a.recoverScopeBaseline scope durable elapsed

def ingestTime (durable : Option IngestTime) (elapsed : ClockResult U64) (wall : ClockResult UnixNanoseconds) :
    ClockResult IngestTime × RetentionTimeAuthority :=
  match elapsed with
  | .error failure => (.error failure, a)
  | .ok elapsed =>
    match a.reconcileCurrent elapsed wall with
    | (.error failure, a) => (.error failure, a)
    | (.ok (), a) => a.ingestTimeBaseline scope durable elapsed

def authorizesDestructiveRetention : Bool :=
  a.destructiveRetention && decide (a.safety.state = .certain)

def destructiveIngestTime
    (durable : Option IngestTime) (elapsed : ClockResult U64) (wall : ClockResult UnixNanoseconds) :
    ClockResult IngestTime × RetentionTimeAuthority :=
  match a.ingestTime scope durable elapsed wall with
  | (.error failure, a) => (.error failure, a)
  | (.ok ingest, a) =>
    if a.authorizesDestructiveRetention then (.ok ingest, a) else (.error .clockUncertain, a)

end RetentionTimeAuthority

/-- `PLIFCLK1`. -/
def clockAnchorMagic : Bytes := [0x50, 0x4C, 0x49, 0x46, 0x43, 0x4C, 0x4B, 0x31]

def clockAnchorV1Bytes : Nat := 36
def clockAnchorBytes : Nat := 44

def encodeOptionalI64 : Option I64 → Bytes
  | some v => 1 :: i64Bytes v
  | none => 0 :: i64Bytes I64.zero

def encodeState : LifecycleClockState → UInt8
  | .certain => 0
  | .clockUncertain => 1

def encodeCatalogAnchor : Bytes :=
  clockAnchorMagic ++ ([2, encodeState safety.state] ++ (i64Bytes safety.anchor ++
    (encodeOptionalI64 safety.lastWallClock ++ (encodeOptionalI64 safety.observedOffsetNanoseconds ++
      i64Bytes safety.wallClockCorrectionNanoseconds))))

def readI64 (bytes : Bytes) (start : Nat) : ClockResult I64 :=
  match slice? bytes start (start + 8) with
  | some value => .ok (toI64 value)
  | none => .error .outOfRange

def readState (bytes : Bytes) (start : Nat) : ClockResult LifecycleClockState :=
  match bytes[start]? with
  | some 0 => .ok .certain
  | some 1 => .ok .clockUncertain
  | _ => .error .outOfRange

def readOptionalI64 (bytes : Bytes) (start : Nat) : ClockResult (Option I64) :=
  match bytes[start]? with
  | some 0 => .ok none
  | some 1 => (readI64 bytes (start + 1)).map some
  | _ => .error .outOfRange

def readVersion (bytes : Bytes) : ClockResult UInt8 :=
  match bytes[8]? with
  | none => .error .outOfRange
  | some version =>
    if version = 1 ∧ bytes.length = clockAnchorV1Bytes ∨
        version = 2 ∧ bytes.length = clockAnchorBytes then .ok version
    else .error .outOfRange

def decodeCatalogAnchor (bytes : Bytes) : ClockResult (Option LifecycleClockSafety) :=
  if clockAnchorMagic.isPrefixOf bytes then do
    let version ← readVersion bytes
    let state ← readState bytes 9
    let anchor ← readI64 bytes 10
    let lastWallClock ← readOptionalI64 bytes 18
    let observedOffset ← readOptionalI64 bytes 27
    let correction ← if version = 1 then .ok I64.zero else readI64 bytes clockAnchorV1Bytes
    return some
      { anchor := anchor
        anchorElapsed := Unsigned.zero 64
        state := state
        lastWallClock := lastWallClock
        observedOffsetNanoseconds := observedOffset
        wallClockCorrectionNanoseconds := correction
        revision := Unsigned.zero 64 }
  else .ok none

/-- The anchor of a catalog snapshot: malformed and duplicate anchors are refused. -/
def findCatalogAnchor : List Bytes → Option LifecycleClockSafety → ClockResult (Option LifecycleClockSafety)
  | [], found => .ok found
  | bytes :: objects, found =>
    match decodeCatalogAnchor bytes with
    | .error failure => .error failure
    | .ok none => findCatalogAnchor objects found
    | .ok (some candidate) =>
      if found.isSome then .error .outOfRange else findCatalogAnchor objects (some candidate)

def durableFields : LifecycleClockSafety :=
  { safety with anchorElapsed := Unsigned.zero 64, revision := Unsigned.zero 64 }

@[simp] theorem clockAnchorMagic_length : clockAnchorMagic.length = 8 := rfl

@[simp] theorem encodeOptionalI64_length (v : Option I64) : (encodeOptionalI64 v).length = 9 := by
  cases v <;> simp [encodeOptionalI64]

theorem encodeCatalogAnchor_length : (encodeCatalogAnchor safety).length = clockAnchorBytes := by
  simp [encodeCatalogAnchor, clockAnchorBytes]

variable {x y : Bytes} {start : Nat}

theorem readI64_skip (hx : x.length ≤ start) : readI64 (x ++ y) start = readI64 y (start - x.length) := by
  unfold readI64
  have hstop : start + 8 - x.length = start - x.length + 8 := by omega
  rw [slice?_append_right hx (by omega), hstop]

theorem readI64_here (v : I64) (y : Bytes) : readI64 (i64Bytes v ++ y) 0 = .ok v := by
  exact congrArg Except.ok (toI64_i64Bytes v)

theorem readOptionalI64_skip (hx : x.length ≤ start) :
    readOptionalI64 (x ++ y) start = readOptionalI64 y (start - x.length) := by
  unfold readOptionalI64
  have hnext : start + 1 - x.length = start - x.length + 1 := by omega
  rw [List.getElem?_append_right hx, readI64_skip (by omega), hnext]

theorem readOptionalI64_here (v : Option I64) (y : Bytes) :
    readOptionalI64 (encodeOptionalI64 v ++ y) 0 = .ok v := by
  cases v with
  | none => rfl
  | some v =>
    have hread : readI64 ([1] ++ (i64Bytes v ++ y)) 1 = .ok v := by
      rw [readI64_skip (by simp)]
      exact readI64_here v y
    exact congrArg (Except.map some) hread

theorem readState_header (state : LifecycleClockState) (y : Bytes) :
    readState (clockAnchorMagic ++ ([2, encodeState state] ++ y)) 9 = .ok state := by
  cases state <;> rfl

theorem decode_encodeCatalogAnchor :
    decodeCatalogAnchor (encodeCatalogAnchor safety) = .ok (some (durableFields safety)) := by
  have hmagic : clockAnchorMagic.isPrefixOf (encodeCatalogAnchor safety) := by
    simp [encodeCatalogAnchor]
  have hver : readVersion (encodeCatalogAnchor safety) = .ok 2 := by
    unfold readVersion
    rw [encodeCatalogAnchor_length]
    rfl
  have hstate : readState (encodeCatalogAnchor safety) 9 = .ok safety.state := readState_header _ _
  have hanchor : readI64 (encodeCatalogAnchor safety) 10 = .ok safety.anchor := by
    exact readI64_here _ _
  have hwall : readOptionalI64 (encodeCatalogAnchor safety) 18 = .ok safety.lastWallClock := by
    unfold encodeCatalogAnchor
    rw [readOptionalI64_skip (by simp), readOptionalI64_skip (by simp), readOptionalI64_skip (by simp)]
    exact readOptionalI64_here _ _
  have hoffset : readOptionalI64 (encodeCatalogAnchor safety) 27 = .ok safety.observedOffsetNanoseconds := by
    unfold encodeCatalogAnchor
    rw [readOptionalI64_skip (by simp), readOptionalI64_skip (by simp),
      readOptionalI64_skip (by simp), readOptionalI64_skip (by simp)]
    simp only [i64Bytes_length, encodeOptionalI64_length]
    exact readOptionalI64_here _ _
  have hcorr : readI64 (encodeCatalogAnchor safety) clockAnchorV1Bytes =
      .ok safety.wallClockCorrectionNanoseconds := by
    unfold encodeCatalogAnchor clockAnchorV1Bytes
    rw [readI64_skip (by simp), readI64_skip (by simp), readI64_skip (by simp),
      readI64_skip (by simp), readI64_skip (by simp)]
    simp only [i64Bytes_length, encodeOptionalI64_length]
    have hlast := readI64_here safety.wallClockCorrectionNanoseconds []
    exact hlast
  unfold decodeCatalogAnchor
  rw [hver, hstate, hanchor, hwall, hoffset]
  simp only [hcorr]
  rfl

/-- A checkpoint of the safety state, and what the candidate has observed since. -/
structure StagedCatalogAnchor where
  checkpoint : LifecycleClockSafety
  candidateRevision : Option U64
  candidateAnchor : Option UnixNanoseconds
deriving DecidableEq

namespace RetentionTimeAuthority

/-- The durable record replaces the anchor before the wall clock is compared with it. -/
def installAnchor (record : LifecycleClockSafety) (elapsed : U64) : ClockResult Unit × RetentionTimeAuthority :=
  let installed :=
    { a.safety with
      anchor := record.anchor
      anchorElapsed := elapsed
      lastWallClock := record.lastWallClock
      observedOffsetNanoseconds := record.observedOffsetNanoseconds
      wallClockCorrectionNanoseconds := record.wallClockCorrectionNanoseconds
      state := record.state }
  match installed.revision.checkedAdd ⟨1, one_lt_word⟩ with
  | none => (.error .outOfRange, { a with safety := installed })
  | some revision => (.ok (), { a with safety := { installed with revision := revision } })

def recoverCatalogAnchor (objects : List Bytes) (elapsed : ClockResult U64) (wall : ClockResult UnixNanoseconds) :
    ClockResult Unit × RetentionTimeAuthority :=
  match findCatalogAnchor objects none with
  | .error failure => (.error failure, a)
  | .ok none => (.ok (), a)
  | .ok (some record) =>
    match elapsed with
    | .error failure => (.error failure, a)
    | .ok elapsed =>
      match a.installAnchor record elapsed with
      | (.error failure, a) => (.error failure, a)
      | (.ok (), a) => a.reconcileWhileAcceptanceHeld record.anchor elapsed wall

def catalogAnchorRecord (observed : IngestTime) : Bytes :=
  encodeCatalogAnchor { a.safety with anchor := max a.safety.anchor observed }

def stageCatalogAnchor : StagedCatalogAnchor where
  checkpoint := a.safety
  candidateRevision := none
  candidateAnchor := none

def abandonCatalogAnchor (staged : StagedCatalogAnchor) : RetentionTimeAuthority :=
  match staged.candidateRevision with
  | none => a
  | some candidateRevision =>
    if a.safety.revision = candidateRevision then
      if a.safety.state = .clockUncertain then
        { a with safety := { staged.checkpoint with state := .clockUncertain } }
      else { a with safety := staged.checkpoint }
    -- another observation may be on its way to a committed anchor
    else
      { a with
        safety :=
          { a.safety with
            state := .clockUncertain
            revision := a.safety.revision.saturatingAdd ⟨1, one_lt_word⟩ } }

end RetentionTimeAuthority

namespace StagedCatalogAnchor

def observed (staged : StagedCatalogAnchor) (before after : RetentionTimeAuthority) :
    StagedCatalogAnchor :=
  let candidateRevision :=
    if after.safety.revision ≠ before.safety.revision then some after.safety.revision
    else staged.candidateRevision
  { staged with
    candidateRevision := candidateRevision
    candidateAnchor := if candidateRevision.isSome then some after.safety.anchor else staged.candidateAnchor }

def ingestTime (staged : StagedCatalogAnchor) (a : RetentionTimeAuthority) (scope : SegmentScope)
    (durable : Option IngestTime) (elapsed : ClockResult U64) (wall : ClockResult UnixNanoseconds) :
    ClockResult IngestTime × StagedCatalogAnchor × RetentionTimeAuthority :=
  let (result, after) := a.ingestTime scope durable elapsed wall
  (result, staged.observed a after, after)

def destructiveIngestTime (staged : StagedCatalogAnchor) (a : RetentionTimeAuthority)
    (scope : SegmentScope) (durable : Option IngestTime) (elapsed : ClockResult U64)
    (wall : ClockResult UnixNanoseconds) :
    ClockResult IngestTime × StagedCatalogAnchor × RetentionTimeAuthority :=
  let (result, after) := a.destructiveIngestTime scope durable elapsed wall
  (result, staged.observed a after, after)

end StagedCatalogAnchor

inductive Call where
  | ingestTime (scope : SegmentScope) (durable : Option IngestTime)
  | recoverScope (scope : SegmentScope) (durable : IngestTime)
  | recoverCatalogAnchor (objects : List Bytes)
  | stageCatalogAnchor (candidate : Nat)
  | stagedIngestTime (candidate : Nat) (scope : SegmentScope) (durable : Option IngestTime)
  | stagedDestructiveIngestTime (candidate : Nat) (scope : SegmentScope)
      (durable : Option IngestTime)
  | commit (candidate : Nat)
  | abandon (candidate : Nat)

structure Process where
  authority : RetentionTimeAuthority
  staged : AList (fun _ : Nat => StagedCatalogAnchor)

abbrev Outcome := Option (SegmentScope × ClockResult (Option IngestTime))

namespace Process

def establish (epoch : UnixNanoseconds) (policy : LifecycleClockPolicy) : Process where
  authority := establishWithSource epoch policy
  staged := ∅

def baseline (c : Process) (scope : SegmentScope) : Option ScopeBaseline :=
  c.authority.scopes.lookup scope

/-- One call with the elapsed and wall readings it makes. For a destructive mint the outcome
is the one of the inner `ingest_time`. -/
def step (c : Process) (call : Call) (elapsed : ClockResult U64)
    (wall : ClockResult UnixNanoseconds) : Outcome × Process :=
  match call with
  | .ingestTime scope durable =>
    let minted := c.authority.ingestTime scope durable elapsed wall
    (some (scope, minted.1.map some), { c with authority := minted.2 })
  | .recoverScope scope durable =>
    let recovered := c.authority.recoverScope scope durable elapsed wall
    (some (scope, recovered.1.map fun _ => none), { c with authority := recovered.2 })
  | .recoverCatalogAnchor objects =>
    (none, { c with authority := (c.authority.recoverCatalogAnchor objects elapsed wall).2 })
  | .stageCatalogAnchor candidate =>
    (none, { c with staged := c.staged.insert candidate c.authority.stageCatalogAnchor })
  | .stagedIngestTime candidate scope durable =>
    match c.staged.lookup candidate with
    | none => (none, c)
    | some staged =>
      let minted := staged.ingestTime c.authority scope durable elapsed wall
      (some (scope, minted.1.map some), ⟨minted.2.2, c.staged.insert candidate minted.2.1⟩)
  | .stagedDestructiveIngestTime candidate scope durable =>
    match c.staged.lookup candidate with
    | none => (none, c)
    | some staged =>
      let minted := staged.destructiveIngestTime c.authority scope durable elapsed wall
      (some (scope, (c.authority.ingestTime scope durable elapsed wall).1.map some),
        ⟨minted.2.2, c.staged.insert candidate minted.2.1⟩)
  | .commit candidate => (none, { c with staged := c.staged.erase candidate })
  | .abandon candidate =>
    match c.staged.lookup candidate with
    | none => (none, c)
    | some staged =>
      (none, ⟨c.authority.abandonCatalogAnchor staged, c.staged.erase candidate⟩)

/-- The outcomes of a schedule of calls, each with its elapsed reading. `walls i` is the wall
reading of call `i`. -/
def outcomes (c : Process) : List (Call × ClockResult U64) → (Nat → ClockResult UnixNanoseconds) →
    List Outcome
  | [], _ => []
  | (call, elapsed) :: schedule, walls =>
    let stepped := c.step call elapsed (walls 0)
    stepped.1 :: outcomes stepped.2 schedule fun i => walls (i + 1)

/-- The process that call `i` of the schedule finds. -/
def before (c : Process) : List (Call × ClockResult U64) → (Nat → ClockResult UnixNanoseconds) → Nat → Process
  | (call, elapsed) :: schedule, walls, i + 1 =>
    before (c.step call elapsed (walls 0)).2 schedule (fun i => walls (i + 1)) i
  | _, _, _ => c

end Process

def ElapsedFrom : Nat → List (Call × ClockResult U64) → Prop
  | _, [] => True
  | floor, (_, .ok elapsed) :: schedule => floor ≤ elapsed.1 ∧ ElapsedFrom elapsed.1 schedule
  | floor, (_, .error _) :: schedule => ElapsedFrom floor schedule

instance decidableElapsedFrom : (floor : Nat) → (schedule : List (Call × ClockResult U64)) →
    Decidable (ElapsedFrom floor schedule)
  | _, [] => inferInstanceAs (Decidable True)
  | floor, (_, .ok elapsed) :: schedule =>
    have := decidableElapsedFrom elapsed.1 schedule
    inferInstanceAs (Decidable (floor ≤ elapsed.1 ∧ ElapsedFrom elapsed.1 schedule))
  | floor, (_, .error _) :: schedule => decidableElapsedFrom floor schedule

inductive ScopeRequest where
  | ingest (durable : Option IngestTime)
  | recover (durable : IngestTime)

/-- What a request can do to the baseline of its scope, and what it answers. -/
inductive Touch (epoch : UnixNanoseconds) (elapsed : U64) :
    ScopeRequest → Option ScopeBaseline → ClockResult (Option IngestTime) → Option ScopeBaseline → Prop
  | refused (request : ScopeRequest) (b : Option ScopeBaseline) (f : LifecycleClockFailure) :
      Touch epoch elapsed request b (.error f) b
  | minted (durable : Option IngestTime) (b : ScopeBaseline) :
      Touch epoch elapsed (.ingest durable) (some b) ((advance b elapsed).map some) (some b)
  | opened (durable : Option IngestTime) :
      Touch epoch elapsed (.ingest durable) none
        ((advance ⟨durable.getD epoch, Unsigned.zero 64⟩ elapsed).map some)
        (some ⟨durable.getD epoch, Unsigned.zero 64⟩)
  | rebased (durable : IngestTime) (b : ScopeBaseline) (current : UnixNanoseconds)
      (h : advance b elapsed = .ok current) :
      Touch epoch elapsed (.recover durable) (some b) (.ok none) (some ⟨max current durable, elapsed⟩)
  | installed (durable : IngestTime) :
      Touch epoch elapsed (.recover durable) none (.ok none) (some ⟨durable, Unsigned.zero 64⟩)

/-- The revision and the anchor, brought to one elapsed time, do not fall. -/
structure LifecycleClockSafety.Before (safety safety' : LifecycleClockSafety) : Prop where
  revision : safety.revision.1 ≤ safety'.revision.1
  anchor : safety.anchor.1 - safety.anchorElapsed.1 ≤ safety'.anchor.1 - safety'.anchorElapsed.1

theorem LifecycleClockSafety.Before.refl : safety.Before safety := ⟨le_refl _, le_refl _⟩

namespace RetentionTimeAuthority

variable {a : RetentionTimeAuthority} {wall : ClockResult UnixNanoseconds} {elapsed : U64}

theorem reconcile_stops {durable : UnixNanoseconds}
    {f : LifecycleClockFailure} (h : advanceGlobal a.safety elapsed = .error f) :
    a.reconcileWhileAcceptanceHeld durable elapsed wall = (.error f, a) := by
  unfold reconcileWhileAcceptanceHeld
  rw [h]

theorem observeWall_keeps (policy : LifecycleClockPolicy) (safety : LifecycleClockSafety)
    (wall : ClockResult UnixNanoseconds) :
    (observeWall policy safety wall).2.anchor = safety.anchor ∧
      (observeWall policy safety wall).2.anchorElapsed = safety.anchorElapsed ∧
      (observeWall policy safety wall).2.revision = safety.revision ∧
      (observeWall policy safety wall).2.wallClockCorrectionNanoseconds = safety.wallClockCorrectionNanoseconds := by
  unfold observeWall
  split
  · exact ⟨rfl, rfl, rfl, rfl⟩
  · split
    · exact ⟨rfl, rfl, rfl, rfl⟩
    · split <;> exact ⟨rfl, rfl, rfl, rfl⟩

/-- Whatever the wall clock says, the anchor moves along elapsed time and no further than the
durable instant. -/
theorem reconcile_moves {advanced : UnixNanoseconds} (h : advanceGlobal a.safety elapsed = .ok advanced)
    (durable : UnixNanoseconds) (wall : ClockResult UnixNanoseconds) :
    ∃ safety, (a.reconcileWhileAcceptanceHeld durable elapsed wall).2 = { a with safety := safety } ∧
      safety.anchor = max advanced durable ∧ safety.anchorElapsed = elapsed ∧
      safety.revision = (a.safety.revision.checkedAdd ⟨1, by decide⟩).getD a.safety.revision ∧
      safety.wallClockCorrectionNanoseconds = a.safety.wallClockCorrectionNanoseconds := by
  unfold reconcileWhileAcceptanceHeld
  rw [h]
  dsimp only
  cases hrev : a.safety.revision.checkedAdd ⟨1, by decide⟩ with
  | none => exact ⟨_, rfl, rfl, rfl, rfl, rfl⟩
  | some revision =>
    dsimp only
    split
    · obtain ⟨hanchor, helapsed, hrevision, hcorr⟩ := observeWall_keeps a.policy
        { a.safety with
          anchor := max advanced durable, anchorElapsed := elapsed, revision := revision } wall
      exact ⟨_, rfl, hanchor, helapsed, hrevision, hcorr⟩
    · exact ⟨_, rfl, rfl, rfl, rfl, rfl⟩

variable (a : RetentionTimeAuthority)

theorem reconcile_frame (durable : UnixNanoseconds) (elapsed : U64) (wall : ClockResult UnixNanoseconds) :
    ∃ safety, (a.reconcileWhileAcceptanceHeld durable elapsed wall).2 = { a with safety := safety } ∧
      a.safety.Before safety := by
  cases h : advanceGlobal a.safety elapsed with
  | error f =>
    rw [reconcile_stops h]
    exact ⟨a.safety, rfl, .refl _⟩
  | ok advanced =>
    obtain ⟨safety, hsafety, hanchor, helapsed, hrevision, -⟩ := reconcile_moves h durable wall
    obtain ⟨hle, -, hadvanced⟩ := advanceFrom_eq_ok_iff.mp h
    refine ⟨safety, hsafety, ?_, ?_⟩
    · rw [hrevision]
      cases hadd : a.safety.revision.checkedAdd ⟨1, by decide⟩ with
      | none => exact le_refl _
      | some revision =>
        rw [Unsigned.checkedAdd_eq_some_iff] at hadd
        exact hadd ▸ Nat.le_add_right _ _
    · rw [hanchor, helapsed, I64.val_max]
      omega

theorem reconcileCurrent_frame (elapsed : U64) (wall : ClockResult UnixNanoseconds) :
    ∃ safety, (a.reconcileCurrent elapsed wall).2 = { a with safety := safety } ∧ a.safety.Before safety := by
  unfold reconcileCurrent
  split
  · exact ⟨a.safety, rfl, .refl _⟩
  · exact reconcile_frame a _ elapsed wall

variable (scope : SegmentScope)

theorem ingestTimeBaseline_touch (durable : Option IngestTime) (elapsed : U64) :
    Touch a.epoch elapsed (.ingest durable) (a.scopes.lookup scope)
      ((a.ingestTimeBaseline scope durable elapsed).1.map some)
      ((a.ingestTimeBaseline scope durable elapsed).2.scopes.lookup scope) := by
  unfold ingestTimeBaseline
  split
  · exact Touch.refused _ _ _
  · cases hb : a.scopes.lookup scope with
    | some b =>
      rw [hb]
      exact Touch.minted durable b
    | none =>
      simp only [setBaseline, AList.lookup_insert]
      exact Touch.opened durable

theorem recoverScopeBaseline_touch (durable : IngestTime) (elapsed : U64) :
    Touch a.epoch elapsed (.recover durable) (a.scopes.lookup scope)
      ((a.recoverScopeBaseline scope durable elapsed).1.map fun _ => none)
      ((a.recoverScopeBaseline scope durable elapsed).2.scopes.lookup scope) := by
  unfold recoverScopeBaseline
  split
  · exact Touch.refused _ _ _
  · cases hb : a.scopes.lookup scope with
    | some b =>
      dsimp only
      cases hadv : advance b elapsed with
      | error f =>
        rw [hb]
        exact Touch.refused _ _ _
      | ok current =>
        simp only [setBaseline, AList.lookup_insert]
        exact Touch.rebased durable b current hadv
    | none =>
      simp only [setBaseline, AList.lookup_insert]
      exact Touch.installed durable

theorem ingestTimeBaseline_safety (durable : Option IngestTime) (elapsed : U64) :
    (a.ingestTimeBaseline scope durable elapsed).2.safety = a.safety := by
  unfold ingestTimeBaseline
  split
  · rfl
  · split <;> rfl

theorem recoverScopeBaseline_safety (durable : IngestTime) (elapsed : U64) :
    (a.recoverScopeBaseline scope durable elapsed).2.safety = a.safety := by
  unfold recoverScopeBaseline
  split
  · rfl
  · split
    · split <;> rfl
    · rfl

variable (elapsed : U64) (wall : ClockResult UnixNanoseconds)

/-- The call fails in the reconciliation or goes on with the baseline. -/
theorem ingestTime_cases (durable : Option IngestTime) :
    ∃ safety, (a.reconcileCurrent elapsed wall).2 = { a with safety := safety } ∧ a.safety.Before safety ∧
      ((∃ f, a.ingestTime scope durable (.ok elapsed) wall = (.error f, { a with safety := safety })) ∨
        a.ingestTime scope durable (.ok elapsed) wall =
          { a with safety := safety }.ingestTimeBaseline scope durable elapsed) := by
  obtain ⟨safety, hsafety, hbefore⟩ := reconcileCurrent_frame a elapsed wall
  refine ⟨safety, hsafety, hbefore, ?_⟩
  unfold ingestTime
  dsimp only
  split
  · rename_i f a' hrec
    rw [hrec] at hsafety
    subst hsafety
    exact .inl ⟨f, rfl⟩
  · rename_i a' hrec
    rw [hrec] at hsafety
    subst hsafety
    exact .inr rfl

theorem recoverScope_cases (durable : IngestTime) :
    ∃ safety, (a.reconcile durable elapsed wall).2 = { a with safety := safety } ∧ a.safety.Before safety ∧
      ((∃ f, a.recoverScope scope durable (.ok elapsed) wall = (.error f, { a with safety := safety })) ∨
        a.recoverScope scope durable (.ok elapsed) wall =
          { a with safety := safety }.recoverScopeBaseline scope durable elapsed) := by
  obtain ⟨safety, hsafety, hbefore⟩ := reconcile_frame a durable elapsed wall
  refine ⟨safety, hsafety, hbefore, ?_⟩
  unfold recoverScope reconcile
  dsimp only
  split
  · rename_i f a' hrec
    rw [hrec] at hsafety
    subst hsafety
    exact .inl ⟨f, rfl⟩
  · rename_i a' hrec
    rw [hrec] at hsafety
    subst hsafety
    exact .inr rfl

theorem ingestTime_touch (durable : Option IngestTime) :
    Touch a.epoch elapsed (.ingest durable) (a.scopes.lookup scope)
      ((a.ingestTime scope durable (.ok elapsed) wall).1.map some)
      ((a.ingestTime scope durable (.ok elapsed) wall).2.scopes.lookup scope) := by
  obtain ⟨safety, -, -, ⟨f, h⟩ | h⟩ := a.ingestTime_cases scope elapsed wall durable <;> rw [h]
  · exact Touch.refused _ _ _
  · exact ingestTimeBaseline_touch { a with safety := safety } scope durable elapsed

theorem recoverScope_touch (durable : IngestTime) :
    Touch a.epoch elapsed (.recover durable) (a.scopes.lookup scope)
      ((a.recoverScope scope durable (.ok elapsed) wall).1.map fun _ => none)
      ((a.recoverScope scope durable (.ok elapsed) wall).2.scopes.lookup scope) := by
  obtain ⟨safety, -, -, ⟨f, h⟩ | h⟩ := a.recoverScope_cases scope elapsed wall durable <;> rw [h]
  · exact Touch.refused _ _ _
  · exact recoverScopeBaseline_touch { a with safety := safety } scope durable elapsed

/-- Everything a request on one scope leaves alone, the anchor apart. -/
structure Frame (scope : SegmentScope) (a a' : RetentionTimeAuthority) : Prop where
  epoch : a'.epoch = a.epoch
  source : a'.source = a.source
  policy : a'.policy = a.policy
  others : ∀ s, s ≠ scope → a'.scopes.lookup s = a.scopes.lookup s

variable {a scope} in
theorem Frame.of_safety {safety : LifecycleClockSafety} {a' : RetentionTimeAuthority}
    (h : Frame scope { a with safety := safety } a') : Frame scope a a' := ⟨h.epoch, h.source, h.policy, h.others⟩

theorem Frame.setBaseline (b : ScopeBaseline) : Frame scope a (a.setBaseline scope b) :=
  ⟨rfl, rfl, rfl, fun _ hs => AList.lookup_insert_ne hs⟩

theorem ingestTimeBaseline_frame (durable : Option IngestTime) (elapsed : U64) :
    Frame scope a (a.ingestTimeBaseline scope durable elapsed).2 := by
  unfold ingestTimeBaseline
  split
  · exact ⟨rfl, rfl, rfl, fun _ _ => rfl⟩
  · split
    · exact ⟨rfl, rfl, rfl, fun _ _ => rfl⟩
    · exact Frame.setBaseline a scope _

theorem recoverScopeBaseline_frame (durable : IngestTime) (elapsed : U64) :
    Frame scope a (a.recoverScopeBaseline scope durable elapsed).2 := by
  unfold recoverScopeBaseline
  split
  · exact ⟨rfl, rfl, rfl, fun _ _ => rfl⟩
  · split
    · split
      · exact ⟨rfl, rfl, rfl, fun _ _ => rfl⟩
      · exact Frame.setBaseline a scope _
    · exact Frame.setBaseline a scope _

theorem ingestTime_frame (durable : Option IngestTime) (elapsed : ClockResult U64) :
    Frame scope a (a.ingestTime scope durable elapsed wall).2 := by
  cases elapsed with
  | error f => exact ⟨rfl, rfl, rfl, fun _ _ => rfl⟩
  | ok elapsed =>
    obtain ⟨safety, -, -, ⟨f, h⟩ | h⟩ := a.ingestTime_cases scope elapsed wall durable <;> rw [h]
    · exact ⟨rfl, rfl, rfl, fun _ _ => rfl⟩
    · exact .of_safety (ingestTimeBaseline_frame { a with safety := safety } scope durable elapsed)

theorem recoverScope_frame (durable : IngestTime) (elapsed : ClockResult U64) :
    Frame scope a (a.recoverScope scope durable elapsed wall).2 := by
  cases elapsed with
  | error f => exact ⟨rfl, rfl, rfl, fun _ _ => rfl⟩
  | ok elapsed =>
    obtain ⟨safety, -, -, ⟨f, h⟩ | h⟩ := a.recoverScope_cases scope elapsed wall durable <;> rw [h]
    · exact ⟨rfl, rfl, rfl, fun _ _ => rfl⟩
    · exact .of_safety (recoverScopeBaseline_frame { a with safety := safety } scope durable elapsed)

theorem recoverCatalogAnchor_frame (objects : List Bytes) (elapsed : ClockResult U64) :
    ∃ safety, (a.recoverCatalogAnchor objects elapsed wall).2 = { a with safety := safety } := by
  unfold recoverCatalogAnchor
  split
  · exact ⟨a.safety, rfl⟩
  · exact ⟨a.safety, rfl⟩
  · split
    · exact ⟨a.safety, rfl⟩
    · unfold installAnchor
      dsimp only
      split
      · rename_i hinstalled
        split at hinstalled
        · cases hinstalled
          exact ⟨_, rfl⟩
        · cases hinstalled
      · rename_i hinstalled
        split at hinstalled
        · cases hinstalled
        · cases hinstalled
          obtain ⟨safety, hsafety, -⟩ := reconcile_frame { a with safety := _ } _ _ wall
          exact ⟨safety, hsafety⟩

theorem abandonCatalogAnchor_frame (staged : StagedCatalogAnchor) :
    ∃ safety, a.abandonCatalogAnchor staged = { a with safety := safety } := by
  unfold abandonCatalogAnchor
  split
  · exact ⟨a.safety, rfl⟩
  · split
    · split
      · exact ⟨_, rfl⟩
      · exact ⟨_, rfl⟩
    · exact ⟨_, rfl⟩

theorem destructiveIngestTime_snd (durable : Option IngestTime) (elapsed : ClockResult U64) :
    (a.destructiveIngestTime scope durable elapsed wall).2 = (a.ingestTime scope durable elapsed wall).2 := by
  unfold destructiveIngestTime
  split
  · rename_i h
    rw [h]
  · rename_i h
    split <;> rw [h]

end RetentionTimeAuthority

end Positron.Clock
