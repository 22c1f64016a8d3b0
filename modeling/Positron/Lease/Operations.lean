import Positron.Lease.Publication

/-! The lease operations of one ledger: creation, resume, usage, release and the retry of pending releases. Each
takes what its surroundings decide: the answers of the catalog, fresh identities and the grants of the
resource governor. -/

namespace Positron.Lease
open MachineInt Triples ByteCodec

/-- The decisions of the surroundings during one operation. A refresh that fails names its code;
`snapshot` is the verdict on the blocks that the lease pins. -/
structure Surroundings where
  freshIdentity : LedgerResult SnapshotLeaseId
  retryRefresh : Option LedgerFailureCode
  retry : PublicationOutcome
  refresh : Option LedgerFailureCode
  prune : PublicationOutcome
  normalizeRefresh : Option LedgerFailureCode
  normalize : PublicationOutcome
  snapshot : LedgerResult Unit
  reserved : Bool
  resized : Bool
  restored : Bool
  publish : PublicationOutcome
  reconcileRefresh : Option LedgerFailureCode
  recheckRefresh : Option LedgerFailureCode

structure LeaseWindow where
  observed : U64
  expiry : U64

structure SnapshotLeaseGrant where
  identity : SnapshotLeaseId
  expiry : U64
  resumeCount : U64
  repeatedBatchCount : U64
  usage : SnapshotLeaseUsage

def leaseClaim (encodedBytes : Nat) : LedgerResult U64 :=
  match (Unsigned.ofNat? 64 encodedBytes).bind fun bytes => bytes.checkedAdd ⟨64, by decide⟩ with
  | some memory => .ok memory
  | none => reject .limitExceeded

variable (record : LeaseRecord) (l : LeaseState) (identity : SnapshotLeaseId)

namespace LeaseState

def setReservation (granted : Option U64) : LeaseState :=
  { l with reservations := Function.update l.reservations identity granted }

def setBaseline (original : Option U64) : LeaseState :=
  { l with baselines := Function.update l.baselines identity original }

def setMarker (marker : Option LeaseResumeMarker) :
    LeaseState := { l with resumeMarkers := Function.update l.resumeMarkers identity marker }

def forget : LeaseState :=
  ((l.setReservation identity none).setBaseline identity none).setMarker identity none

def removeReservations (identities : List SnapshotLeaseId) : LeaseState :=
  { identities.foldl forget l with pending := l.pending.removeAll identities }

end LeaseState

def modifyLeases (f : LeaseState → LeaseState) : LeaseM Unit :=
  modify fun w => { w with leases := f w.leases }

def requireHealthy : LeaseM Unit := do
  let w ← get
  require (w.leases.poisoned = false) (.new .recoveryRequired)

def releasable (scope : SegmentScope) (pending : List SnapshotLeaseId) (recorded : List LeaseRecord) :
    List SnapshotLeaseId :=
  (recorded.filter fun record => decide (record.scope = scope ∧ record.identity ∈ pending)).map (·.identity)

variable (now : U64) (env : Surroundings)

def retryPendingReleases : LeaseM Unit := do
  let w ← get
  let pending := w.leases.pending.identities
  if pending = [] then return ()
  else do
    refreshState env.retryRefresh
    let basis ← pin
    let recorded ← ofExcept (records basis.objects)
    let remove := releasable w.scope pending recorded
    if remove ≠ [] then discard (publishMany basis remove [] env.retry)
    modifyLeases fun l => { pending.foldl LeaseState.forget l with pending := .new }

/-! A reservation transaction remembers the amounts from before it until its outcome is known. -/

def beginTransaction : LeaseM U64 := do
  let w ← get
  match (w.leases.baselines identity).or (w.leases.reservations identity) with
  | none => fail .integrityCorruption
  | some original => do
    modifyLeases fun l => l.setBaseline identity (some original)
    return original

def endTransaction : LeaseM Unit :=
  modifyLeases fun l => l.setBaseline identity none

def resizeReservation (amounts : U64) (admitted : Bool) (refusal : LedgerFailureCode) : LeaseM Unit := do
  let w ← get
  match w.leases.reservations identity with
  | none => fail .integrityCorruption
  | some granted =>
    if granted = amounts then return ()
    else if admitted then modifyLeases fun l => l.setReservation identity (some amounts)
    else fail refusal

/-- `transaction.resize`, with the cancellation of a transaction whose resize is refused. -/
def resizeOrCancel (amounts : U64) (env : Surroundings) : LeaseM Unit := do
  match ← attempt (resizeReservation identity amounts env.resized .resourceAdmissionRefused) with
  | .ok _ => return ()
  | .error failure => do
    endTransaction identity
    throw failure

def rollbackTransaction (original : U64) (env : Surroundings) : LeaseM Unit := do
  resizeReservation identity original env.restored .recoveryRequired
  endTransaction identity

def registerAllPending (identities : List SnapshotLeaseId) : LeaseM Unit := do
  let w ← get
  let registered := w.leases.pending.registerAll identities
  modifyLeases fun l => { l with pending := registered.2 }
  ofExcept registered.1

def registerPending : LeaseM Unit := registerAllPending [identity]

def withdrawPending (identities : List SnapshotLeaseId) : LeaseM Unit :=
  modifyLeases fun l => { l with pending := l.pending.removeAll identities }

def registerLeaseReservation (granted : U64) (expired : List SnapshotLeaseId) : LeaseM Unit := do
  registerAllPending expired
  registerPending identity
  let w ← get
  if (w.leases.reservations identity).isSome then do
    modifyLeases fun l => l.setReservation identity none
    withdrawPending (identity :: expired)
    fail .integrityCorruption
  else modifyLeases fun l => l.setReservation identity (some granted)

/-- The active leases of the scope must be valid, and fewer than the ceiling. -/
def admitCreation (scope : SegmentScope) (recorded : List LeaseRecord)
    (expired : List SnapshotLeaseId) (now : U64) : LedgerResult Unit := do
  let active := recorded.filter fun record => decide (record.scope = scope ∧ record.identity ∉ expired)
  active.forM fun record => validateActiveLease record now
  if maxSnapshotLeases ≤ active.length then reject .limitExceeded

def createSnapshotLeaseInternal (window : LeaseWindow) (expected : Option CatalogGenerationId)
    (env : Surroundings) : LeaseM SnapshotLeaseGrant := do
  requireHealthy
  require (validLeaseInterval window.observed window.expiry) (.new .invalidInput)
  retryPendingReleases env
  let w ← get
  let now := max w.leases.lastSnapshotLeaseTime window.observed
  require (validLeaseInterval now window.expiry) (.new .invalidInput)
  refreshState env.refresh
  let basis ← pin
  require (∀ identity ∈ expected, identity = basis.identity) (.new .staleGeneration)
  let recorded ← ofExcept (records basis.objects)
  let expired := expiredInScope recorded w.scope now
  ofExcept (admitCreation w.scope recorded expired now)
  let identity ← ofExcept env.freshIdentity
  ofExcept env.snapshot
  let encoded ← encodeRecord
    { identity := identity, scope := w.scope, catalogIdentity := basis.identity,
      catalogGeneration := basis.number, frontier := w.leases.frontier, observedAt := now,
      expiry := window.expiry, resumeCount := Unsigned.zero 64,
      repeatedBatchCount := Unsigned.zero 64, lastResumeSequence := none,
      lastResumePriorDigest := noDigest, usage := .none, blocks := w.leases.blocks }
  let amounts ← ofExcept (leaseClaim encoded.length)
  require (env.reserved) (.new .resourceAdmissionRefused)
  registerLeaseReservation identity amounts expired
  match ← attempt (publishMany basis expired [encoded] env.publish) with
  | .error failure => do
    if failure.completion ≠ .commitAmbiguous then do
      modifyLeases fun l => l.setReservation identity none
      withdrawPending (identity :: expired)
    throw failure
  | .ok _ => do
    modifyLeases fun l =>
      let l := l.removeReservations expired
      { l with pending := l.pending.remove identity, lastSnapshotLeaseTime := now }
    return ⟨identity, window.expiry, Unsigned.zero 64, Unsigned.zero 64, .none⟩

def findRecord (scope : SegmentScope) (recorded : List LeaseRecord) : Option LeaseRecord :=
  recorded.find? fun record => decide (record.identity = identity ∧ record.scope = scope)

def requireRecord (found : Option LeaseRecord) : LeaseM LeaseRecord :=
  match found with
  | some record => return record
  | none => fail .snapshotExpired

def acquireAttempt : LeaseM Unit := do
  let w ← get
  require (identity ∉ w.leases.attempts) (.new .concurrentWriter)
  require (w.leases.attempts.length < maxSnapshotLeases) (.new .limitExceeded)
  modifyLeases fun l => { l with attempts := identity :: l.attempts }

def dropAttempt : LeaseM Unit :=
  modifyLeases fun l => { l with attempts := l.attempts.erase identity }

/-- Publishes the end of the expired leases, as a resume does before it looks for its own. -/
def pruneExpired (basis : Generation) (expired : List SnapshotLeaseId) (env : Surroundings) :
    LeaseM Generation := do
  registerAllPending expired
  match ← attempt (publishManyInner basis basis.identity expired [] false env.prune) with
  | .ok snapshot => do
    modifyLeases fun l => l.removeReservations expired
    return snapshot
  | .error failure => do
    if failure.completion ≠ .commitAmbiguous then withdrawPending expired
    throw failure

def pruneIfExpired (basis : Generation) (expired : List SnapshotLeaseId) (env : Surroundings) :
    LeaseM (Option Generation) :=
  if expired = [] then pure none else some <$> pruneExpired basis expired env

def normalizeLegacyLease : LeaseM LeaseRecord := do
  let normalized := { record with observedAt := now }
  let encoded ← encodeRecord normalized
  let amounts ← ofExcept (leaseClaim encoded.length)
  require (env.reserved) (.new .resourceAdmissionRefused)
  refreshState env.normalizeRefresh
  let basis ← pin
  discard (publishMany basis [record.identity] [encoded] env.normalize)
  let w ← get
  modifyLeases fun l => (l.setReservation record.identity (some amounts)).setBaseline record.identity none
  require ((w.leases.reservations record.identity).isSome) (.new .integrityCorruption)
  return normalized

/-- Records of the first version have no observation time. -/
def normalizeIfLegacy : LeaseM LeaseRecord :=
  if record.observedAt.1 = 0 then normalizeLegacyLease record now env else pure record

def nextMarker (previous : LeaseResumeMarker) (sequence : U64) (priorDigest : FixedBytes 32) :
    LedgerResult (U64 × U64) :=
  if 0 < previous.attempts.1 ∧ (sequence < previous.sequence ∨
      (sequence = previous.sequence ∧ priorDigest ≠ previous.priorDigest)) then
    reject .staleResumeMarker
  else
    let repeated := decide (0 < previous.attempts.1 ∧ previous.sequence = sequence ∧
      previous.priorDigest = priorDigest)
    match previous.attempts.checkedAdd ⟨1, one_lt_word⟩,
      previous.repeats.checkedAdd (if repeated then ⟨1, one_lt_word⟩ else Unsigned.zero 64) with
    | some resumeCount, some repeatedBatchCount => .ok (resumeCount, repeatedBatchCount)
    | _, _ => reject .limitExceeded

def MatchesExpected (expected : Option (CatalogGenerationId × U64)) (basis : Generation) : Prop :=
  ∀ pinned ∈ expected, basis.identity = pinned.1 ∧ basis.number = pinned.2

instance (expected : Option (CatalogGenerationId × U64)) (basis : Generation) :
    Decidable (MatchesExpected expected basis) :=
  inferInstanceAs (Decidable (∀ pinned ∈ expected, _))

/-- The durable part of a marked resume. `pruned` is the generation without the expired leases, if
there were any. -/
def markResume (sequence : U64) (priorDigest : FixedBytes 32)
    (expected : Option (CatalogGenerationId × U64)) (pruned : Option Generation) (env : Surroundings) :
    LeaseM (U64 × U64) := do
  let identity := record.identity
  let previous := resumeMarkerFor record
  modifyLeases fun l => l.setMarker identity (some previous)
  let (resumeCount, repeatedBatchCount) ← ofExcept (nextMarker previous sequence priorDigest)
  let updated := { record with
    resumeCount := resumeCount
    repeatedBatchCount := repeatedBatchCount
    lastResumeSequence := some sequence
    lastResumePriorDigest := priorDigest }
  let encoded ← encodeRecord updated
  let amounts ← ofExcept (leaseClaim encoded.length)
  let current ← pin
  let markerBasis := pruned.getD current
  require (pruned.isSome ∨ MatchesExpected expected markerBasis) (.new .staleGeneration)
  let original ← beginTransaction identity
  resizeOrCancel identity amounts env
  match ← attempt (publishManyWithExpectedCatalog markerBasis markerBasis.identity [identity] [encoded]
      env.publish) with
  | .error failure => do
    if failure.completion = .commitAmbiguous then modifyLeases fun l => l.setMarker identity none
    else rollbackTransaction identity original env
    throw failure
  | .ok _ => do
    modifyLeases fun l => l.setMarker identity (some (resumeMarkerFor updated))
    endTransaction identity
    return (resumeCount, repeatedBatchCount)

def resumeBody (marker : Option (U64 × FixedBytes 32))
    (expected : Option (CatalogGenerationId × U64)) (env : Surroundings) :
    LeaseM SnapshotLeaseGrant := do
  refreshState env.refresh
  let basis ← pin
  require (MatchesExpected expected basis) (.new .staleGeneration)
  let recorded ← ofExcept (records basis.objects)
  let w ← get
  let expired := expiredInScope recorded w.scope now
  let pruned ← pruneIfExpired basis expired env
  modifyLeases fun l => { l with lastSnapshotLeaseTime := now }
  let record ← requireRecord
    (findRecord identity w.scope (recorded.filter fun record => decide (record.identity ∉ expired)))
  ofExcept (validateActiveLease record now)
  let w ← get
  require ((w.leases.reservations identity).isSome) (.new .integrityCorruption)
  let record ← normalizeIfLegacy record now env
  ofExcept env.snapshot
  match marker with
  | none =>
    return ⟨identity, record.expiry, record.resumeCount, record.repeatedBatchCount, record.usage⟩
  | some (sequence, priorDigest) => do
    let (resumeCount, repeatedBatchCount) ← markResume record sequence priorDigest expected pruned env
    return ⟨identity, record.expiry, resumeCount, repeatedBatchCount, record.usage⟩

/-- A marked resume holds an attempt, which its grant keeps and a failure drops. -/
def resumeSnapshotLeaseMarked (now : LedgerResult U64)
    (marker : Option (U64 × FixedBytes 32)) (expected : Option (CatalogGenerationId × U64))
    (env : Surroundings) : LeaseM SnapshotLeaseGrant := do
  let now ← ofExcept now
  requireHealthy
  retryPendingReleases env
  let w ← get
  let now := if w.retentionTime then max w.leases.lastSnapshotLeaseTime now else now
  require (w.leases.lastSnapshotLeaseTime ≤ now) (.new .invalidInput)
  if marker.isSome then do
    acquireAttempt identity
    match ← attempt (resumeBody identity now marker expected env) with
    | .ok grant => return grant
    | .error failure => do
      dropAttempt identity
      throw failure
  else resumeBody identity now marker expected env

def releaseSnapshotLease : LeaseM Unit := do
  requireHealthy
  registerPending identity
  retryPendingReleases env

def cacheMarker : LeaseM Unit :=
  modifyLeases fun l => l.setMarker record.identity (some (resumeMarkerFor record))

def activeRecord (basis : Generation) : LeaseM LeaseRecord := do
  let recorded ← ofExcept (records basis.objects)
  let w ← get
  let record ← requireRecord (findRecord identity w.scope recorded)
  require (now < record.expiry) (.new .snapshotExpired)
  ofExcept (validateActiveLease record now)
  require ((w.leases.reservations identity).isSome) (.new .integrityCorruption)
  return record

def snapshotLeaseUsage (now : LedgerResult U64) (env : Surroundings) : LeaseM SnapshotLeaseUsage := do
  let now ← ofExcept now
  requireHealthy
  retryPendingReleases env
  let w ← get
  let now := if w.retentionTime then max w.leases.lastSnapshotLeaseTime now else now
  require (w.leases.lastSnapshotLeaseTime ≤ now) (.new .invalidInput)
  refreshState env.refresh
  let basis ← pin
  let record ← activeRecord identity now basis
  return record.usage

/-- The first lease record of the identity, with its bytes. Later objects are not decoded. -/
def findEncoded (scope : SegmentScope) : List Bytes → LedgerResult (Option (Bytes × LeaseRecord))
  | [] => .ok none
  | bytes :: objects => do
    let found ← decode bytes
    match found with
    | some record =>
      if record.identity = identity ∧ record.scope = scope then return some (bytes, record)
      else findEncoded scope objects
    | none => findEncoded scope objects

def isUpdate (found updated : LeaseRecord) (expectedEncoded : Bytes) : LedgerResult Bool :=
  if found.usage = updated.usage then do
    let encoded ← encode found
    return decide (encoded = expectedEncoded)
  else return false

/-- What became of an update whose publication was ambiguous. -/
def reconcileAmbiguousUsage (previous updated : LeaseRecord) (expectedEncoded : Bytes)
    (env : Surroundings) : LeaseM SnapshotLeaseUsage := do
  refreshState env.reconcileRefresh
  let snapshot ← pin
  let w ← get
  let observed ← ofExcept (findEncoded previous.identity w.scope snapshot.objects)
  match observed with
  | some (_, record) =>
    if ← ofExcept (isUpdate record updated expectedEncoded) then do
      cacheMarker record
      return record.usage
    else if record.usage = previous.usage then do
      cacheMarker record
      throw (.ambiguous .storageUnavailable)
    else do
      modifyLeases fun l => l.setMarker previous.identity none
      throw (.ambiguous .storageUnavailable)
  | none => do
    modifyLeases fun l => l.setMarker previous.identity none
    throw (.ambiguous .storageUnavailable)

/-- Whether the update may be tried again: the record still has the usage from before it. -/
def usageUnchanged (mayRetry : Bool) (previous : LeaseRecord) (env : Surroundings) : LeaseM Bool := do
  if !mayRetry then return false
  else match ← attempt (refreshState env.recheckRefresh) with
  | .error _ => return false
  | .ok _ => do
    let basis ← pin
    let w ← get
    match records basis.objects with
    | .error _ => return false
    | .ok recorded =>
      let unchanged (candidate : LeaseRecord) : Bool := decide (candidate.identity =
        previous.identity ∧ candidate.scope = w.scope ∧ candidate.usage = previous.usage)
      return recorded.any unchanged

inductive UsageStep where
  | recorded (usage : SnapshotLeaseUsage)
  | again

/-- The usage to record: an attempt must find the counters it started from. -/
def chargedUsage (attempt : Option (U64 × SnapshotLeaseUsage))
    (delta : SnapshotLeaseUsage) : LedgerResult SnapshotLeaseUsage :=
  match attempt with
  | none => record.usage.merge delta
  | some (resumeCount, previous) =>
    if record.resumeCount ≠ resumeCount then reject .concurrentWriter
    else do
      let charged ← previous.merge delta
      if record.usage = charged ∨ record.usage = previous then return charged
      else reject .concurrentWriter

/-- Settles a usage that is durable already. The transaction that was left open by an ambiguous
publication is committed for an attempt and rolled back otherwise. -/
def settleUsage (isAttempt : Bool) (env : Surroundings) : LeaseM Unit := do
  if isAttempt then cacheMarker record
  let w ← get
  if (w.leases.baselines record.identity).isSome then do
    let original ← beginTransaction record.identity
    if isAttempt then endTransaction record.identity
    else rollbackTransaction record.identity original env

def updateUsage (basis : Generation) (record : LeaseRecord) (usage : SnapshotLeaseUsage)
    (mayRetry : Bool) (env : Surroundings) : LeaseM UsageStep := do
  let identity := record.identity
  let updated := { record with usage := usage }
  let encoded ← encodeRecord updated
  let amounts ← ofExcept (leaseClaim encoded.length)
  let original ← beginTransaction identity
  resizeOrCancel identity amounts env
  match ← attempt (publishMany basis [identity] [encoded] env.publish) with
  | .ok _ => do
    endTransaction identity
    cacheMarker updated
    return .recorded usage
  | .error failure =>
    if failure.completion = .commitAmbiguous then
      match ← attempt (reconcileAmbiguousUsage record updated encoded env) with
      | .ok reconciled => do
        endTransaction identity
        return .recorded reconciled
      | .error failure => do
        if ← usageUnchanged mayRetry record env then return .again
        else do
          rollbackTransaction identity original env
          throw failure
    else do
      rollbackTransaction identity original env
      throw failure

def recordUsageOnce (attempt : Option (U64 × SnapshotLeaseUsage))
    (delta : SnapshotLeaseUsage) (mayRetry : Bool) (env : Surroundings) : LeaseM UsageStep := do
  requireHealthy
  let w ← get
  require (attempt.isSome ∨ identity ∉ w.leases.attempts) (.new .concurrentWriter)
  retryPendingReleases env
  refreshState env.refresh
  let basis ← pin
  let w ← get
  let record ← activeRecord identity w.leases.lastSnapshotLeaseTime basis
  let usage ← ofExcept (chargedUsage record attempt delta)
  if usage = record.usage then do
    settleUsage record attempt.isSome env
    return .recorded usage
  else updateUsage basis record usage mayRetry env

/-- One more try after an ambiguous publication that turns out not to have taken effect. -/
def recordSnapshotLeaseUsage (attempt : Option (U64 × SnapshotLeaseUsage)) (delta : SnapshotLeaseUsage)
    (env retryEnv : Surroundings) : LeaseM SnapshotLeaseUsage := do
  match ← recordUsageOnce identity attempt delta true env with
  | .recorded usage => return usage
  | .again =>
    match ← recordUsageOnce identity attempt delta false retryEnv with
    | .recorded usage => return usage
    | .again => fail .storageUnavailable

end Positron.Lease
