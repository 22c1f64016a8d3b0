import Positron.Governor.Grants
import Positron.Lib.Runs

/-! The tenants of a running governor, its calls, and everything its users hold: reservations, staged quota
updates and pending enrollments. An operation is one call of the library, complete in itself. -/

namespace Positron.Governor
open MachineInt Checks Enumeration

structure TenantFairness where
  ordinary : List PoolCapacities
  shared : List ResourceAmounts
  pools : List RecoveryPoolCapacities

variable (inner : GovernorInner)

def deriveTenantFairness (quotas : List TenantQuota) : Except GovernorFailure TenantFairness := do
  let weight ← totalWeight quotas
  let ordinary ← ordinaryCapacities quotas inner.poolCapacities weight
  validateSystemRecoveryProgress quotas inner.recoveryPoolCapacities
  let shared ← amountCapacities quotas inner.recoverySharedCapacity weight
  let pools ← recoveryFairCapacities quotas inner.recoveryPoolCapacities weight
  discard (systemRecoveryCapacities inner.recoveryPoolCapacities pools)
  validateProgress quotas ordinary inner.maximumOutstanding
  return ⟨ordinary, shared, pools⟩

def validateTenantQuota (weight : U16) (limits : ResourceAmounts) : Except GovernorFailure Unit :=
  demand (weight.1 ≠ 0 ∧ limits.allPositive ∧ limits.isAtMost inner.ordinaryCeiling) .invalidConfiguration

/-- The topology with one quota replaced, as it stands when the update is staged. -/
def stageTenantQuotaUpdate (s : AccountingState) (tenant : TenantId)
    (weight : U16) (limits : ResourceAmounts) : Except GovernorFailure TenantQuotaSuccessor := do
  let tenantIndex ← orFail (s.tenantQuotas.findIdx? fun quota => decide (quota.tenant = tenant))
    .invalidConfiguration
  let quota ← TenantQuota.new tenant weight limits
  let successor := s.tenantQuotas.set tenantIndex quota
  let fairness ← deriveTenantFairness inner successor
  let recoverySystem ← systemRecoveryCapacities inner.recoveryPoolCapacities fairness.pools
  demand (tenantIndex < s.tenantLimits.length) .internalFenced
  return ⟨successor, fairness.ordinary, fairness.shared, fairness.pools, recoverySystem,
    s.tenantLimits.set tenantIndex limits⟩

def publishSuccessor (successor : TenantQuotaSuccessor) (s : GovernorState) : GovernorState :=
  { s with toTenantQuotaSuccessor := successor }

def enrollTenantQuota (s : AccountingState) (tenant : TenantId)
    (weight : U16) (limits : ResourceAmounts) (pending : Bool) :
    Except GovernorFailure AccountingState := do
  demand (pending = false ∨ s.pendingTenant = none) (.governorContended s.diskPressure)
  demand (¬ ∃ quota ∈ s.tenantQuotas, quota.tenant = tenant) .invalidConfiguration
  demand (s.tenantQuotas.length < s.tenantLimits.length) .invalidConfiguration
  let quota ← TenantQuota.new tenant weight limits
  let successor := s.tenantQuotas ++ [quota]
  let fairness ← deriveTenantFairness inner successor
  let recoverySystem ← systemRecoveryCapacities inner.recoveryPoolCapacities fairness.pools
  validateProgress successor fairness.ordinary inner.maximumOutstanding
  return { s with
    tenantLimits := s.tenantLimits.set s.tenantQuotas.length limits
    tenantQuotas := successor
    tenantFairCapacities := fairness.ordinary
    recoveryTenantSharedFair := fairness.shared
    recoveryTenantPoolFair := fairness.pools
    recoverySystemPoolCapacities := recoverySystem
    pendingTenant := if pending then some tenant else s.pendingTenant }

variable (tenant : TenantId) (s : GovernorState)

def activateTenantQuota : GovernorState :=
  { s with pendingTenant := if s.pendingTenant = some tenant then none else s.pendingTenant }

/-- Removes the tenant whose enrollment is pending, if it is still the last one. The shares of the
others stay as they are. -/
def rollbackTenantQuota : GovernorState :=
  if s.pendingTenant = some tenant ∧ (s.tenantQuotas.getLast?.map (·.tenant)) = some tenant then
    { s with
      tenantQuotas := s.tenantQuotas.dropLast
      tenantFairCapacities := s.tenantFairCapacities.dropLast
      recoveryTenantSharedFair := s.recoveryTenantSharedFair.dropLast
      recoveryTenantPoolFair := s.recoveryTenantPoolFair.dropLast
      pendingTenant := none
      tenantLimits := s.tenantLimits.set (s.tenantQuotas.length - 1) .zero }
  else s

structure GovernorSetupInput where
  authority : Nat
  bootstrapOverhead : ResourceAmounts
  totalCeiling : ResourceAmounts
  ordinaryCeiling : ResourceAmounts
  policy : GovernorPolicy
  cardinality : InventoryCardinalityLimits
  poolCapacities : PoolCapacities
  recoveryPoolCapacities : RecoveryPoolCapacities
  diskThresholds : DiskPressureThresholds
  initialDisk : U64

def limitTable (entries : Nat) (quotas : List TenantQuota) : List ResourceAmounts :=
  (List.range entries).map fun index => (quotas[index]?.map (·.limits)).getD .zero

def configure (input : GovernorSetupInput) : Except GovernorFailure (GovernorInner × GovernorState) := do
  let quotas := input.policy.tenantQuotas
  let tenants := input.cardinality.tenantQuotas
  let slots := input.cardinality.outstandingReservations
  let maximumOutstanding := Unsigned.wrap 32 slots
  let weight ← totalWeight quotas
  let tenantFair ← ordinaryCapacities quotas input.poolCapacities weight
  let protectedSum ← orFail input.recoveryPoolCapacities.protectedSum .invalidConfiguration
  let recoverySharedCapacity ← orFail (input.totalCeiling.checkedSub protectedSum) .invalidConfiguration
  let sharedFair ← amountCapacities quotas recoverySharedCapacity weight
  validateSystemRecoveryProgress quotas input.recoveryPoolCapacities
  let poolFair ← recoveryFairCapacities quotas input.recoveryPoolCapacities weight
  let systemCapacities ← systemRecoveryCapacities input.recoveryPoolCapacities poolFair
  validateProgress quotas tenantFair maximumOutstanding
  demand (input.ordinaryCeiling.isAtMost input.totalCeiling) .invalidConfiguration
  let inner : GovernorInner := {
    authority := input.authority
    bootstrapOverhead := input.bootstrapOverhead
    totalCeiling := input.totalCeiling
    ordinaryCeiling := input.ordinaryCeiling
    principalQuota := input.policy.principalQuota
    maximumOutstanding := maximumOutstanding
    poolCapacities := input.poolCapacities
    recoveryPoolCapacities := input.recoveryPoolCapacities
    recoverySharedCapacity := recoverySharedCapacity
    diskThresholds := input.diskThresholds }
  return (inner, {
    tenantQuotas := quotas
    tenantFairCapacities := tenantFair
    recoveryTenantSharedFair := sharedFair
    recoveryTenantPoolFair := poolFair
    recoverySystemPoolCapacities := systemCapacities
    tenantLimits := limitTable tenants quotas
    pendingTenant := none
    rejectionCounts := fun _ => Unsigned.zero 64
    grantRecords := List.replicate slots none
    freeSlots := List.range slots
    nextOperationGeneration := Unsigned.wrap 64 1
    totalUsage := .zero
    recoveryUsage := .zero
    ordinaryTenantUsage := List.replicate tenants .zero
    recoveryTenantUsage := List.replicate tenants .zero
    recoveryPoolUsage := .zero
    recoverySystemPoolUsage := .zero
    recoveryTenantPoolUsage := List.replicate tenants .zero
    poolUsage := .zero
    ordinaryTenantPoolUsage := List.replicate tenants .zero
    tenantOutstanding := List.replicate tenants (Unsigned.zero 32)
    outstanding := Unsigned.zero 32
    diskPressure := input.diskThresholds.initial input.initialDisk
    usableDiskBytes := input.initialDisk
    pressureTransitionCount := Unsigned.zero 64
    lifecycle := .opened
    outstandingOrdinary := Unsigned.zero 32
    outstandingRecovery := Unsigned.zero 32
    outstandingUninterruptible := Unsigned.zero 32
    classCounts := fun _ => Unsigned.zero 32
    slotSignals := List.replicate slots .free
    pendingWords := List.replicate ((slots + 63) / 64) 0
    hasPendingReleases := false
    pendingFence := false })

def establish (sizes : BootstrapSizes) (authority : Nat) (inventory : ResourceInventory)
    (policy : GovernorPolicy) (recoveryPools : RecoveryPoolCapacities) :
    Except GovernorFailure (GovernorInner × GovernorState) := do
  demand (policy.tenantQuotas.length ≤ inventory.cardinality.tenantQuotas) .policyCardinalityExceeded
  let overhead ← bootstrapOverhead sizes inventory.cardinality
  let workCeiling ← orFail (inventory.effective.checkedSub overhead) (.bootstrapInventoryUnavailable overhead)
  let ordinaryCeiling ← orFail (workCeiling.checkedSub inventory.recoveryReserve)
    (.bootstrapInventoryUnavailable overhead)
  demand ordinaryCeiling.allPositive (.bootstrapInventoryUnavailable overhead)
  demand (∀ quota ∈ policy.tenantQuotas, quota.limits.isAtMost ordinaryCeiling) .invalidConfiguration
  let poolCapacities ← policy.pools.derive ordinaryCeiling
  let protectedRecovery ← orFail recoveryPools.protectedSum .invalidConfiguration
  demand (protectedRecovery.isAtMost inventory.recoveryReserve) .invalidConfiguration
  configure ⟨authority, overhead, workCeiling, ordinaryCeiling, policy, inventory.cardinality,
    poolCapacities, recoveryPools, inventory.diskThresholds, inventory.initialDisk⟩

def rejectionSum (counts : AdmissionFailureCode → U64) : Option U64 :=
  (Listed.all : List AdmissionFailureCode).foldlM (fun total code => total.checkedAdd (counts code))
    (Unsigned.zero 64)

/-- Counts a refusal. Contention is counted elsewhere; a full count fences. -/
def recordRefusal (failure : AdmissionFailure) (s : GovernorState) : GovernorState :=
  if failure.code = .governorContended then s
  else
    match (rejectionSum s.rejectionCounts).bind (·.checkedAdd (Unsigned.wrap 64 1)),
        (s.rejectionCounts failure.code).checkedAdd (Unsigned.wrap 64 1) with
    | some _, some count =>
      { s with rejectionCounts := Function.update s.rejectionCounts failure.code count }
    | _, _ => s.fence

def admitUnderLock (body : Admission ResourceReservation) (s : GovernorState) :
    Except AdmissionFailure ResourceReservation × GovernorState :=
  match body.run (lock s) with
  | .ok reservation s' => (.ok reservation, s')
  | .error failure s' => (.error failure, recordRefusal failure s')

def reserveOrdinary (claim : WorkClaim) (s : GovernorState) :
    Except AdmissionFailure ResourceReservation × GovernorState :=
  admitUnderLock (reserveOrdinaryLocked inner claim) s

def reserveRecovery (claim : RecoveryWorkClaim) (s : GovernorState) :
    Except AdmissionFailure ResourceReservation × GovernorState :=
  admitUnderLock (reserveRecoveryLocked inner claim) s

def recordResizeRefusal (failure : ResizeFailure) (s : GovernorState) : GovernorState :=
  match failure.admissionFailure with
  | some refusal => recordRefusal refusal s
  | none => s

/-- A replacement under the lock. A handle that does not fit its own charge is refused without it. -/
def resize (request : ResizeRequest) (s : GovernorState) : Except ResizeFailure ResizeCommit × GovernorState :=
  match resizeLocked inner request with
  | none => (.error (retainedResize request.identity.workClass s.diskPressure), s)
  | some body =>
    match body.run (lock s) with
    | .ok commit s' => (.ok commit, s')
    | .error failure s' => (.error failure, recordResizeRefusal failure s')

def tryRelease (reservation : ResourceReservation) (s : GovernorState) : ReleaseStatus × GovernorState :=
  tryReleaseLocked reservation (lock s)

def markDropPending (slot : Nat) (s : GovernorState) : GovernorState :=
  { s with toDropLedger := s.toDropLedger.markDropPending slot }

def markForeignRelease : GovernorState :=
  { s with toDropLedger := s.toDropLedger.markFence }

/-- A snapshot is refused, and the governor fenced, when the refusals do not add up. -/
def snapshotFrom : Except GovernorFailure Unit × GovernorState :=
  match rejectionSum s.rejectionCounts with
  | some _ => (.ok ⟨⟩, s)
  | none => (.error .internalFenced, { s with toDropLedger := s.toDropLedger.markFence })

def inspect : Except GovernorFailure Unit × GovernorState := snapshotFrom (lock s)

def beginShutdown : Except GovernorFailure Unit × GovernorState :=
  let s := lock s
  match s.lifecycle with
  | .opened => snapshotFrom { s with lifecycle := .shuttingDown }
  | .shuttingDown => snapshotFrom s
  | .fenced => (.error .internalFenced, s)

def applyDiskObservation (usableBytes : U64) (s : GovernorState) :
    Except GovernorFailure DiskPressureState × GovernorState :=
  let s := lock s
  if s.lifecycle = .fenced then (.error .internalFenced, s)
  else
    let pressure := inner.diskThresholds.transition s.diskPressure usableBytes
    let s := { s with usableDiskBytes := usableBytes }
    if pressure = s.diskPressure then (.ok pressure, s)
    else
      match s.pressureTransitionCount.checkedAdd (Unsigned.wrap 64 1) with
      | none => (.error .internalFenced, s.fence)
      | some count =>
        (.ok pressure, { s with pressureTransitionCount := count, diskPressure := pressure })

structure StagedTenantQuotaUpdate where
  tenant : TenantId
  weight : U16
  limits : ResourceAmounts
  successor : TenantQuotaSuccessor

def prepareTenantQuotaUpdate (weight : U16) (limits : ResourceAmounts) (s : GovernorState) :
    Except GovernorFailure StagedTenantQuotaUpdate × GovernorState :=
  match validateTenantQuota inner weight limits with
  | .error failure => (.error failure, s)
  | .ok _ =>
    let s := lock s
    match stageTenantQuotaUpdate inner s tenant weight limits with
    | .error failure => (.error failure, s)
    | .ok successor => (.ok ⟨tenant, weight, limits, successor⟩, s)

def publish (update : StagedTenantQuotaUpdate) (s : GovernorState) : GovernorState :=
  publishSuccessor update.successor (lock s)

def enroll (weight : U16) (limits : ResourceAmounts)
    (pending : Bool) (s : GovernorState) : Except GovernorFailure Unit × GovernorState :=
  match validateTenantQuota inner weight limits with
  | .error failure => (.error failure, s)
  | .ok _ =>
    let s := lock s
    match enrollTenantQuota inner s tenant weight limits pending with
    | .error failure => (.error failure, s)
    | .ok accounting => (.ok ⟨⟩, { s with toAccountingState := accounting })

def rollback : GovernorState := rollbackTenantQuota tenant (lock s)

/-- Where a reservation is: with its holder, handed over without the governor, or dropped. -/
inductive Custody where
  | held
  | transferred
  | gone
deriving DecidableEq

structure Handle where
  reservation : ResourceReservation
  custody : Custody

structure Enrollment where
  tenant : TenantId
  active : Bool
  dropped : Bool

structure World where
  governor : GovernorState
  handles : List Handle
  updates : List (Option StagedTenantQuotaUpdate)
  enrollments : List Enrollment

inductive Operation where
  | reserve (claim : WorkClaim)
  | reserveRecovery (claim : RecoveryWorkClaim)
  | tryResize (handle : Nat) (amounts : ResourceAmounts) (preserveExisting : Bool)
  | cancel (handle : Nat)
  | transfer (handle : Nat)
  | reclaim (handle : Nat)
  | drop (handle : Nat)
  | foreignRelease
  | observeDisk (usableBytes : U64)
  | beginShutdown
  | inspect
  | stageUpdate (tenant : TenantId) (weight : U16) (limits : ResourceAmounts)
  | publishUpdate (update : Nat)
  | register (tenant : TenantId) (weight : U16) (limits : ResourceAmounts)
  | prepareEnrollment (tenant : TenantId) (weight : U16) (limits : ResourceAmounts)
  | activate (enrollment : Nat)
  | abandon (enrollment : Nat)

inductive Outcome where
  | admitted (handle : Nat)
  | refused (failure : AdmissionFailure)
  | resized (outcome : ResizeOutcome)
  | resizeRefused (failure : ResizeFailure)
  | released (result : Except GovernorFailure ReleaseOutcome)
  | done
  | failed (failure : GovernorFailure)

variable (w : World) (handle : Nat)

namespace World

def withHandle (reservation : ResourceReservation) (custody : Custody) : World :=
  { w with handles := w.handles.set handle ⟨reservation, custody⟩ }

def inCustody (custody : Custody) : Option ResourceReservation :=
  (w.handles[handle]?.filter fun h => decide (h.custody = custody)).map (·.reservation)

end World

def receive (result : Except AdmissionFailure ResourceReservation × GovernorState) : Outcome × World :=
  match result.1 with
  | .ok reservation => (.admitted w.handles.length,
      { w with governor := result.2, handles := w.handles ++ [⟨reservation, .held⟩] })
  | .error failure => (.refused failure, { w with governor := result.2 })

def resizeReservation (reservation : ResourceReservation) (amounts : ResourceAmounts) (preserveExisting : Bool) :
    Outcome × World :=
  let cls := reservation.identity.workClass
  let pressure := w.governor.diskPressure
  if reservation.active = false then (.resizeRefused (.inactive cls pressure), w)
  else if amounts.isEmpty then (.resizeRefused (.invalid cls pressure), w)
  else
    let (result, s) := resize inner ⟨reservation.slot, reservation.owner, reservation.identity,
      reservation.amounts, amounts, preserveExisting⟩ w.governor
    let w := { w with governor := s }
    match result with
    | .ok commit => (.resized commit.outcome,
        w.withHandle handle { reservation with owner := commit.owner, amounts := amounts } .held)
    | .error failure =>
      if failure.disposition = .cancelledBeforeLimit then (.resizeRefused failure,
        w.withHandle handle { reservation with active := false, amounts := .zero } .held)
      else (.resizeRefused failure, w)

def cancelReservation (reservation : ResourceReservation) : Outcome × World :=
  if reservation.active = false then (.released (.ok .alreadyInactive), w)
  else
    let (status, s) := tryRelease reservation w.governor
    let w := { w with governor := s }
    (.released status.result,
      if status.applied then w.withHandle handle { reservation with active := false } .held else w)

/-- A dropped reservation marks its slot, unless it has nothing to release. -/
def dropReservation (reservation : ResourceReservation) : World :=
  let s := if reservation.active then markDropPending reservation.slot w.governor else w.governor
  { w with governor := s }.withHandle handle { reservation with active := false } .gone

def reported {α : Type} (result : Except GovernorFailure α × GovernorState) : Outcome × World :=
  match result.1 with
  | .ok _ => (.done, { w with governor := result.2 })
  | .error failure => (.failed failure, { w with governor := result.2 })

/-- One call. An operation on something its user does not hold is none. -/
def perform : Operation → Option (Outcome × World)
  | .reserve claim => some (receive w (reserveOrdinary inner claim w.governor))
  | .reserveRecovery claim => some (receive w (reserveRecovery inner claim w.governor))
  | .tryResize handle amounts preserveExisting =>
    (w.inCustody handle .held).map fun reservation =>
      resizeReservation inner w handle reservation amounts preserveExisting
  | .cancel handle => (w.inCustody handle .held).map fun reservation => cancelReservation w handle reservation
  -- handing over does not ask whether there is anything to hand over
  | .transfer handle => (w.inCustody handle .held).map fun reservation =>
      (.done, w.withHandle handle { reservation with active := true } .transferred)
  | .reclaim handle => (w.inCustody handle .transferred).map fun reservation =>
      (.done, w.withHandle handle { reservation with active := true } .held)
  | .drop handle => ((w.inCustody handle .held).or (w.inCustody handle .transferred)).map fun reservation =>
      (.done, dropReservation w handle reservation)
  | .foreignRelease => some (.done, { w with governor := markForeignRelease w.governor })
  | .observeDisk usableBytes => some (reported w (applyDiskObservation inner usableBytes w.governor))
  | .beginShutdown => some (reported w (beginShutdown w.governor))
  | .inspect => some (reported w (inspect w.governor))
  | .stageUpdate tenant weight limits =>
    match prepareTenantQuotaUpdate inner tenant weight limits w.governor with
    | (.ok update, s) => some (.done, { w with governor := s, updates := w.updates ++ [some update] })
    | (.error failure, s) => some (.failed failure, { w with governor := s })
  | .publishUpdate update => (w.updates[update]?.join).map fun staged =>
      (.done, { w with governor := publish staged w.governor, updates := w.updates.set update none })
  | .register tenant weight limits =>
    some (reported w (enroll inner tenant weight limits false w.governor))
  | .prepareEnrollment tenant weight limits =>
    match enroll inner tenant weight limits true w.governor with
    | (.ok _, s) => some (.done, { w with governor := s, enrollments := w.enrollments ++ [⟨tenant, false, false⟩] })
    | (.error failure, s) => some (.failed failure, { w with governor := s })
  | .activate enrollment => (w.enrollments[enrollment]?.filter (!·.dropped)).map fun pending =>
      (.done, { w with governor := activateTenantQuota pending.tenant w.governor
                       enrollments := w.enrollments.set enrollment { pending with active := true } })
  | .abandon enrollment => (w.enrollments[enrollment]?.filter (!·.dropped)).map fun pending =>
      (.done, { w with governor := if pending.active then w.governor else rollback pending.tenant w.governor
                       enrollments := w.enrollments.set enrollment { pending with dropped := true } })

def step (op : Operation) : Option World := (perform inner w op).map (·.2)

def World.initial : World := ⟨s, [], [], []⟩

end Positron.Governor
