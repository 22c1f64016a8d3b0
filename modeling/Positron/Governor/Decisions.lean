import Positron.Governor.Pools

/-! What a governor is established from, with the fair share of each tenant in every pool. The grant ledger with one
record for each reservation that holds a slot. Refusals and the planning of charges: how a request is split
between the pools, and which limit refuses it otherwise. The plan of a recovery charge is complete. -/

namespace Positron.Governor
open MachineInt Enumeration Checks ResourceAmounts Unsigned OrdinaryPool

/-- One tenant's ceiling beneath the global ceiling, and its weight in every fair share. -/
structure TenantQuota where
  tenant : TenantId
  weight : U16
  limits : ResourceAmounts
  weight_pos : 0 < weight.1
  limits_pos : limits.allPositive
deriving DecidableEq

def TenantQuota.new (tenant : TenantId) (weight : U16) (limits : ResourceAmounts) :
    Except GovernorFailure TenantQuota :=
  if h : 0 < weight.1 ∧ limits.allPositive then .ok ⟨tenant, weight, limits, h.1, h.2⟩
  else .error .invalidConfiguration

structure PrincipalQuota where
  maximumOperations : U32
  perOperationLimits : ResourceAmounts
  aggregateLimits : ResourceAmounts
  valid : 0 < maximumOperations.1 ∧ ¬ perOperationLimits.isEmpty ∧ ¬ aggregateLimits.isEmpty ∧
    perOperationLimits.isAtMost aggregateLimits

structure OrdinaryPoolPolicy where
  security : ResourceAmounts
  ingest : ResourceAmounts
  query : ResourceAmounts
  maintenance : ResourceAmounts
  positive : security.allPositive ∧ ingest.allPositive ∧ query.allPositive ∧ maintenance.allPositive
  ordered : ingest.isAtMost security ∧ query.isAtMost ingest
  strict : ¬ ingest.isAtMost query

/-- The pools of an ordinary capacity. What the classes do not hold is shared. -/
def OrdinaryPoolPolicy.derive (policy : OrdinaryPoolPolicy) (ordinary : ResourceAmounts) :
    Except GovernorFailure PoolCapacities := do
  let protectedParts ← orFail (do
    let amounts ← policy.security.checkedAdd policy.ingest
    let amounts ← amounts.checkedAdd policy.query
    amounts.checkedAdd policy.maintenance) .invalidConfiguration
  let shared ← orFail (ordinary.checkedSub protectedParts) .invalidConfiguration
  demand shared.allPositive .invalidConfiguration
  return ⟨fun
    | .shared => shared
    | .securityLifecycle => policy.security
    | .ingest => policy.ingest
    | .interactiveQueryTail => policy.query
    | .ordinaryMaintenanceBackup => policy.maintenance⟩

/-- The tenants of the instance, each with one quota, and the headroom of the classes. -/
structure GovernorPolicy where
  tenantQuotas : List TenantQuota
  pools : OrdinaryPoolPolicy
  principalQuota : Option PrincipalQuota
  bounded : 0 < tenantQuotas.length ∧ tenantQuotas.length ≤ maxTenantQuotas
  distinct : (tenantQuotas.map (·.tenant)).Nodup

def maxOutstandingReservations : Nat := 2 ^ 16 - 1

structure InventoryCardinalityLimits where
  tenantQuotas : Nat
  outstandingReservations : Nat
  tenants_bounded : 0 < tenantQuotas ∧ tenantQuotas ≤ maxTenantQuotas
  outstanding_bounded : 0 < outstandingReservations ∧ outstandingReservations ≤ maxOutstandingReservations

/-- Usable-byte thresholds of disk pressure, with hysteresis. -/
structure DiskPressureThresholds where
  hardEnter : U64
  hardExit : U64
  softEnter : U64
  softExit : U64
  ordered : hardEnter.1 < hardExit.1 ∧ hardExit.1 ≤ softEnter.1 ∧ softEnter.1 < softExit.1

namespace DiskPressureThresholds

def initial (thresholds : DiskPressureThresholds) (usableBytes : U64) : DiskPressureState :=
  if usableBytes.1 ≤ thresholds.hardEnter.1 then .hardPressure
  else if usableBytes.1 ≤ thresholds.softEnter.1 then .softPressure
  else .healthy

def transition (thresholds : DiskPressureThresholds) (current : DiskPressureState)
    (usableBytes : U64) : DiskPressureState :=
  match current with
  | .healthy => thresholds.initial usableBytes
  | .softPressure =>
    if usableBytes.1 ≤ thresholds.hardEnter.1 then .hardPressure
    else if thresholds.softExit.1 ≤ usableBytes.1 then .healthy
    else .softPressure
  | .hardPressure =>
    if thresholds.softExit.1 ≤ usableBytes.1 then .healthy
    else if thresholds.hardExit.1 ≤ usableBytes.1 then .softPressure
    else .hardPressure

end DiskPressureThresholds

structure ResourceInventory where
  detected : ResourceAmounts
  operator : ResourceAmounts
  recoveryReserve : ResourceAmounts
  cardinality : InventoryCardinalityLimits
  diskThresholds : DiskPressureThresholds
  initialDisk : U64
  positive : operator.allPositive ∧ recoveryReserve.allPositive ∧ (detected.minimum operator).allPositive
  reserve_fits : ∀ d, recoveryReserve.value d < (detected.minimum operator).value d
  disk_fits : recoveryReserve.value .diskHeadroomBytes ≤ diskThresholds.hardEnter.1 ∧
    diskThresholds.softExit.1 ≤ detected.value .diskHeadroomBytes ∧
    initialDisk.1 ≤ detected.value .diskHeadroomBytes

def ResourceInventory.effective (inventory : ResourceInventory) : ResourceAmounts :=
  inventory.detected.minimum inventory.operator

/-- The bytes retained by the governor itself: a fixed root, a payload for each tenant entry and
for each ledger slot. They depend on the build. -/
structure BootstrapSizes where
  root : Nat
  tenant : Nat
  slot : Nat
  word : Nat

def retainedPrimaryDataVolumeFileDescriptors : U64 := Unsigned.wrap 64 2

def bootstrapOverhead (sizes : BootstrapSizes) (limits : InventoryCardinalityLimits) :
    Except GovernorFailure ResourceAmounts := do
  let words := (limits.outstandingReservations + 63) / 64
  let memoryBytes ← orFail (Unsigned.ofNat? 64 (sizes.root + limits.tenantQuotas * sizes.tenant +
    limits.outstandingReservations * sizes.slot + words * sizes.word)) .invalidConfiguration
  return (zero.withAmount .memoryBytes memoryBytes).withAmount .fileDescriptors
    retainedPrimaryDataVolumeFileDescriptors

def TenantQuota.wideWeight (quota : TenantQuota) : U64 :=
  ⟨quota.weight.1, Nat.lt_of_lt_of_le quota.weight.2 (by decide)⟩

variable (cls : WorkClass) (pressure : DiskPressureState) (quotas : List TenantQuota)

def totalWeight : Except GovernorFailure U64 :=
  orFail ((quotas.foldlM (fun (total : U64) quota => total.checkedAdd quota.wideWeight)
    (Unsigned.zero 64)).filter fun weight => decide (0 < weight.1)) .invalidConfiguration

def ordinaryCapacities (pools : PoolCapacities) (totalWeight : U64) : Except GovernorFailure (List PoolCapacities) :=
  quotas.mapM fun quota =>
    orFail (pools.fairShare quota.weight totalWeight) .invalidConfiguration

def amountCapacities (total : ResourceAmounts) (totalWeight : U64) : Except GovernorFailure (List ResourceAmounts) :=
  quotas.mapM fun quota =>
    orFail (weightedAmounts total quota.weight totalWeight) .invalidConfiguration

variable (pools : RecoveryPoolCapacities) (kind : RecoveryWorkKind)

/-- What the tenants share of one recovery pool. Where the system works too, one unit of every
dimension stays out of their reach. -/
def recoveryTenantCapacity : Except GovernorFailure ResourceAmounts :=
  if kind.permitsTenantScope && kind.permitsSystemScope then
    orFail ((pools.get kind).checkedSub (.uniform (Unsigned.wrap 64 1)))
      (.systemRecoveryProgressUnavailable kind .memoryBytes)
  else if kind.permitsTenantScope then .ok (pools.get kind)
  else .ok .zero

def recoveryShare (quota : TenantQuota) (pools : RecoveryPoolCapacities) (totalWeight : U64)
    (kind : RecoveryWorkKind) : Except GovernorFailure ResourceAmounts := do
  let tenantCapacity ← recoveryTenantCapacity pools kind
  let share ← orFail (weightedAmounts tenantCapacity quota.weight totalWeight) .invalidConfiguration
  visit fun d => demand (kind.permitsTenantScope → share.value d ≠ 0)
    (.tenantProgressUnavailable quota.tenant .durabilityRecovery d)
  return share

def recoveryFairCapacities (totalWeight : U64) : Except GovernorFailure (List RecoveryPoolCapacities) :=
  quotas.mapM fun quota => do
    let values ← collect (recoveryShare quota pools totalWeight) fun _ => .zero
    return ⟨values⟩

def validateSystemRecoveryProgress : Except GovernorFailure Unit :=
  visit fun kind : RecoveryWorkKind =>
    if kind.permitsSystemScope then
      visit fun d => demand
        ((if kind.permitsTenantScope then quotas.length + 1 else 1) ≤ (pools.get kind).value d)
        (.systemRecoveryProgressUnavailable kind d)
    else .ok ⟨⟩

def reservedFloors (tenantFloors : List RecoveryPoolCapacities) : Option ResourceAmounts :=
  if kind.permitsSystemScope && kind.permitsTenantScope then
    tenantFloors.foldlM (fun reserved floors => reserved.checkedAdd (floors.get kind)) .zero
  else some .zero

def systemRecoveryCapacity (tenantFloors : List RecoveryPoolCapacities) (kind : RecoveryWorkKind) :
    Except GovernorFailure ResourceAmounts := do
  let reserved ← orFail (reservedFloors kind tenantFloors) .invalidConfiguration
  let capacity ← orFail ((pools.get kind).checkedSub reserved) .invalidConfiguration
  visit fun d => demand (kind.permitsSystemScope → capacity.value d ≠ 0)
    (.systemRecoveryProgressUnavailable kind d)
  return capacity

def systemRecoveryCapacities (tenantFloors : List RecoveryPoolCapacities) :
    Except GovernorFailure RecoveryPoolCapacities := do
  let values ← collect (systemRecoveryCapacity pools tenantFloors) fun _ => .zero
  return ⟨values⟩

def workClassCount : Nat := 5

def validateClassProgress (quota : TenantQuota) (poolShare : PoolCapacities) (cls : WorkClass) :
    Except GovernorFailure Unit := do
  let classPool ← orFail (forClass cls) .invalidConfiguration
  visit fun d => do
    let accessible ← orFail (((poolShare.get .shared).get d).checkedAdd ((poolShare.get classPool).get d))
      .invalidConfiguration
    demand (accessible.1 ≠ 0) (.tenantProgressUnavailable quota.tenant cls d)

/-- One slot for each tenant and each class, and a share of every class for each tenant. -/
def validateProgress (fair : List PoolCapacities) (maximumOutstanding : U32) : Except GovernorFailure Unit := do
  let required ← orFail (Unsigned.ofNat? 32 (quotas.length + workClassCount)) .invalidConfiguration
  demand (required.1 ≤ maximumOutstanding.1)
    (.insufficientOutstandingProgress maximumOutstanding.1 required.1)
  quotas.zipIdx.forM fun (quota, index) => do
    let poolShare ← orFail fair[index]? .invalidConfiguration
    [WorkClass.securityLifecycle, .ingest, .interactiveQueryTail,
      .ordinaryMaintenanceBackup].forM (validateClassProgress quota poolShare)

inductive ChargeAttribution where
  | ordinary (tenantIndex : Nat)
  | recovery (tenantIndex : Option Nat)
deriving DecidableEq

def ChargeAttribution.tenantIndex : ChargeAttribution → Option Nat
  | .ordinary tenantIndex => some tenantIndex
  | .recovery tenantIndex => tenantIndex

structure ChargeOwner where
  attribution : ChargeAttribution
  pools : Option PoolCharge
  recoveryPools : Option RecoveryPoolCharge
deriving DecidableEq

inductive ReservationIdentity where
  | ordinary (tenant : TenantId) (principal : Option PrincipalId) (kind : WorkKind)
  | recovery (scope : RecoveryScope) (kind : RecoveryWorkKind)
deriving DecidableEq

inductive GrantKind where
  | ordinary (kind : WorkKind)
  | recovery (kind : RecoveryWorkKind)
deriving DecidableEq

namespace GrantKind

def workClass : GrantKind → WorkClass
  | .ordinary kind => kind.workClass
  | .recovery _ => .durabilityRecovery

def isOrdinary : GrantKind → Bool
  | .ordinary _ => true
  | .recovery _ => false

def ordinaryKind : GrantKind → Option WorkKind
  | .ordinary kind => some kind
  | .recovery _ => none

def recoveryKind : GrantKind → Option RecoveryWorkKind
  | .ordinary _ => none
  | .recovery kind => some kind

def isUninterruptible (kind : GrantKind) : Bool :=
  kind.recoveryKind.any (·.retainsCapacityOnResizeFailure)

end GrantKind

def ReservationIdentity.grantKind : ReservationIdentity → GrantKind
  | .ordinary _ _ kind => .ordinary kind
  | .recovery _ kind => .recovery kind

def ReservationIdentity.workClass (identity : ReservationIdentity) : WorkClass :=
  identity.grantKind.workClass

/-- A released root stays in its slot until its children are gone. -/
inductive OperationRecord where
  | root (generation : U64) (acceptingChildren : Bool) (childCount : U16)
  | child (rootSlot : Nat) (generation : U64)
deriving DecidableEq

def systemTenantIndex : U16 := Unsigned.maxValue 16

structure GrantRecord where
  amounts : ResourceAmounts
  shared : ResourceAmounts
  storedIndex : U16
  tenant : Option TenantId
  principal : Option PrincipalId
  kind : GrantKind
  operation : Option OperationRecord
deriving DecidableEq

variable (requested : ResourceAmounts) (record : GrantRecord)

namespace GrantRecord

def new (owner : ChargeOwner) (identity : ReservationIdentity) (amounts : ResourceAmounts)
    (operation : Option OperationRecord) : Option GrantRecord :=
  match owner.attribution, identity with
  | .ordinary tenantIndex, .ordinary tenant principal kind => do
    let storedIndex ← Unsigned.ofNat? 16 tenantIndex
    let pools ← owner.pools
    return ⟨amounts, pools.shared, storedIndex, some tenant, principal, .ordinary kind, operation⟩
  | .recovery tenantIndex, .recovery _ kind => do
    let storedIndex ← match tenantIndex with
      | some index => Unsigned.ofNat? 16 index
      | none => some systemTenantIndex
    let pools ← owner.recoveryPools
    return ⟨amounts, pools.shared, storedIndex, none, none, .recovery kind, operation⟩
  | _, _ => none

def tenantIndex : Option Nat :=
  if record.storedIndex = systemTenantIndex then none else some record.storedIndex.1

def isOperationRoot : Bool :=
  match record.operation with
  | some (.root ..) => true
  | _ => false

def rootToken (authority slot : Nat) : Option OperationToken :=
  match record.operation with
  | some (.root generation _ _) => do
    let tenant ← record.tenant
    let principal ← record.principal
    let kind ← record.kind.ordinaryKind
    return ⟨authority, slot, generation, tenant, principal, kind⟩
  | _ => none

def releasedRoot : Option GrantRecord :=
  match record.operation with
  | some (.root generation _ childCount) =>
    some { record with
      amounts := .zero, shared := .zero, operation := some (.root generation false childCount) }
  | _ => none

def incrementRootChild : Option GrantRecord :=
  match record.operation with
  | some (.root generation true childCount) => do
    let childCount ← childCount.checkedAdd (Unsigned.wrap 16 1)
    return { record with operation := some (.root generation true childCount) }
  | _ => none

/-- The root without one of its children, and whether it goes with it. -/
def decrementRootChild : Option (GrantRecord × Bool) :=
  match record.operation with
  | some (.root generation acceptingChildren childCount) => do
    let remaining ← childCount.checkedSub (Unsigned.wrap 16 1)
    return ({ record with operation := some (.root generation acceptingChildren remaining) },
      !acceptingChildren && decide (remaining.1 = 0))
  | _ => none

def owner : Option ChargeOwner := do
  let protectedPart ← record.amounts.checkedSub record.shared
  match record.kind with
  | .ordinary kind => do
    let classPool ← forClass kind.workClass
    let tenantIndex ← record.tenantIndex
    return ⟨.ordinary tenantIndex, some ⟨classPool, record.shared, protectedPart⟩, none⟩
  | .recovery kind =>
    return ⟨.recovery record.tenantIndex, none, some ⟨kind, record.shared, protectedPart⟩⟩

def replaced (owner : ChargeOwner) (identity : ReservationIdentity)
    (amounts : ResourceAmounts) : Option GrantRecord := do
  let replacement ← GrantRecord.new owner identity amounts record.operation
  if replacement.kind = record.kind ∧ replacement.storedIndex = record.storedIndex ∧
      replacement.tenant = record.tenant ∧ replacement.principal = record.principal then
    some replacement
  else none

end GrantRecord

inductive SlotSignal where
  | free
  | active
  | releasePending
deriving DecidableEq

/-- The part of the ledger that dropped reservations write to without the accounting lock. -/
structure DropLedger where
  slotSignals : List SlotSignal
  pendingWords : List (BitVec 64)
  hasPendingReleases : Bool
  pendingFence : Bool

structure TenantQuotaSuccessor where
  tenantQuotas : List TenantQuota
  tenantFairCapacities : List PoolCapacities
  recoveryTenantSharedFair : List ResourceAmounts
  recoveryTenantPoolFair : List RecoveryPoolCapacities
  recoverySystemPoolCapacities : RecoveryPoolCapacities
  tenantLimits : List ResourceAmounts

structure AccountingState extends TenantQuotaSuccessor where
  pendingTenant : Option TenantId
  rejectionCounts : AdmissionFailureCode → U64
  grantRecords : List (Option GrantRecord)
  freeSlots : List Nat
  nextOperationGeneration : U64
  totalUsage : ResourceAmounts
  recoveryUsage : ResourceAmounts
  ordinaryTenantUsage : List ResourceAmounts
  recoveryTenantUsage : List ResourceAmounts
  recoveryPoolUsage : RecoveryPoolUsage
  recoverySystemPoolUsage : RecoveryPoolUsage
  recoveryTenantPoolUsage : List RecoveryPoolUsage
  poolUsage : PoolCapacities
  ordinaryTenantPoolUsage : List PoolCapacities
  tenantOutstanding : List U32
  outstanding : U32
  diskPressure : DiskPressureState
  usableDiskBytes : U64
  pressureTransitionCount : U64
  lifecycle : GovernorLifecycle
  outstandingOrdinary : U32
  outstandingRecovery : U32
  outstandingUninterruptible : U32
  classCounts : WorkClass → U32

structure GovernorState extends AccountingState, DropLedger

instance : CoeOut AccountingState TenantQuotaSuccessor := ⟨AccountingState.toTenantQuotaSuccessor⟩

instance : CoeOut GovernorState AccountingState := ⟨GovernorState.toAccountingState⟩

structure GovernorInner where
  authority : Nat
  bootstrapOverhead : ResourceAmounts
  totalCeiling : ResourceAmounts
  ordinaryCeiling : ResourceAmounts
  principalQuota : Option PrincipalQuota
  maximumOutstanding : U32
  poolCapacities : PoolCapacities
  recoveryPoolCapacities : RecoveryPoolCapacities
  recoverySharedCapacity : ResourceAmounts
  diskThresholds : DiskPressureThresholds

def internalFailureAtPressure : AdmissionFailure :=
  ⟨.internalFenced, .never, .internal, cls, pressure, .none⟩

def shutdownFailure : AdmissionFailure :=
  ⟨.shuttingDown, .never, .policy, cls, pressure, .none⟩

def refuseExceeded (code : AdmissionFailureCode) (scope : LimitingScope) (cls : WorkClass)
    (inUse requested allowed : ResourceAmounts) (pressure : DiskPressureState) :
    Except AdmissionFailure Unit :=
  visit fun d => demand (inUse.value d + requested.value d ≤ allowed.value d)
    ⟨code, .afterCapacityRelease, scope, cls, pressure,
      ⟨some d, allowed.value d, inUse.value d, requested.value d⟩⟩

def refuseTenantRecoverySharedFairShare (ordinaryInUse recoverySharedInUse requested allowed : ResourceAmounts)
    (pressure : DiskPressureState) : Except AdmissionFailure Unit := do
  let combinedInUse ← orFail (ordinaryInUse.checkedAdd recoverySharedInUse)
    (internalFailureAtPressure cls pressure)
  refuseExceeded .tenantFairShareExceeded .tenantFairShare cls combinedInUse requested allowed pressure

def refuseLiveDiskGrowth (inUse requested : ResourceAmounts) (usableBytes : U64)
    (pressure : DiskPressureState) : Except AdmissionFailure Unit :=
  demand (requested.value .diskHeadroomBytes = 0 ∨
      inUse.value .diskHeadroomBytes + requested.value .diskHeadroomBytes ≤ usableBytes.1)
    ⟨.capacityExhausted, .afterPressureTransition, .global, cls, pressure,
      ⟨some .diskHeadroomBytes, usableBytes.1, inUse.value .diskHeadroomBytes,
        requested.value .diskHeadroomBytes⟩⟩

structure OrdinaryCapacity where
  ordinaryUsage : ResourceAmounts
  recoverySharedUsage : ResourceAmounts
  ordinaryCeiling : ResourceAmounts
  totalCeiling : ResourceAmounts
  pressure : DiskPressureState

def refuseOrdinaryCapacity (capacity : OrdinaryCapacity) : Except AdmissionFailure Unit :=
  visit fun d => do
    let candidate := capacity.ordinaryUsage.value d + requested.value d
    demand (candidate ≤ capacity.totalCeiling.value d)
      ⟨.capacityExhausted, .afterCapacityRelease, .global, cls, capacity.pressure,
        ⟨some d, capacity.totalCeiling.value d, capacity.ordinaryUsage.value d, requested.value d⟩⟩
    let ordinaryAvailable ← orFail
      ((capacity.ordinaryCeiling.get d).checkedSub (capacity.recoverySharedUsage.get d))
      (internalFailureAtPressure cls capacity.pressure)
    let occupied := 0 < capacity.recoverySharedUsage.value d
    demand (candidate ≤ ordinaryAvailable.1)
      ⟨if occupied then .capacityOccupiedByRecovery else .protectedCapacityUnavailable,
        .afterCapacityRelease, if occupied then .recoveryOccupancy else .protectedReserve, cls,
        capacity.pressure,
        ⟨some d, ordinaryAvailable.1, capacity.ordinaryUsage.value d, requested.value d⟩⟩

structure PoolAdmission where
  globalCapacity : PoolCapacities
  globalUsage : PoolCapacities
  tenantCapacity : PoolCapacities
  tenantUsage : PoolCapacities

def pressureFailure (cls : WorkClass) (requested : ResourceAmounts) : AdmissionFailure :=
  ⟨.diskPressureAdmissionRefused, .afterPressureTransition, .policy, cls, pressure,
    ⟨some .diskHeadroomBytes, 0, 0, requested.value .diskHeadroomBytes⟩⟩

/-- Whether work of the class may draw on the shared pool under the disk pressure. -/
def pressureEligibility (cls : WorkClass) (amounts : ResourceAmounts) : Except AdmissionFailure Bool :=
  match pressure, cls with
  | .healthy, _ => .ok true
  | .softPressure, .securityLifecycle => .ok true
  | .softPressure, .ingest => .ok true
  | .softPressure, .interactiveQueryTail => .ok false
  | .softPressure, .ordinaryMaintenanceBackup =>
    if amounts.value .diskHeadroomBytes = 0 then .ok false
    else .error (pressureFailure pressure cls amounts)
  | .softPressure, .durabilityRecovery => .error (pressureFailure pressure cls amounts)
  | .hardPressure, _ =>
    if cls = .ingest ∨ 0 < amounts.value .diskHeadroomBytes then
      .error (pressureFailure pressure cls amounts)
    else match cls with
      | .securityLifecycle => .ok true
      | .interactiveQueryTail | .ordinaryMaintenanceBackup => .ok false
      | .ingest | .durabilityRecovery => .error (pressureFailure pressure cls amounts)

def available (capacity usage : PoolCapacities) (pool : OrdinaryPool) (d : ResourceDimension) :
    Option U64 := ((capacity.get pool).get d).checkedSub ((usage.get pool).get d)

def poolFailure (code : AdmissionFailureCode) (scope : LimitingScope) (cls : WorkClass)
    (d : ResourceDimension) (capacity usage : PoolCapacities) (classPool : OrdinaryPool)
    (requested : Nat) (pressure : DiskPressureState) : AdmissionFailure :=
  match ((capacity.get .shared).get d).checkedAdd ((capacity.get classPool).get d),
    ((usage.get .shared).get d).checkedAdd ((usage.get classPool).get d) with
  | some allowed, some inUse => ⟨code, .afterCapacityRelease, scope, cls, pressure,
      ⟨some d, allowed.1, inUse.1, requested⟩⟩
  | _, _ => internalFailureAtPressure cls pressure

def planPoolDimension (classPool : OrdinaryPool) (requested : ResourceAmounts)
    (admission : PoolAdmission) (pressure : DiskPressureState) (sharedEligible : Bool)
    (d : ResourceDimension) : Except AdmissionFailure (U64 × U64) := do
  let internal := internalFailureAtPressure cls pressure
  let globalShared ← orFail (available admission.globalCapacity admission.globalUsage .shared d) internal
  let tenantShared ← orFail (available admission.tenantCapacity admission.tenantUsage .shared d) internal
  let shared : U64 := if sharedEligible then min (min (requested.get d) globalShared) tenantShared
    else Unsigned.zero 64
  let remainder : U64 := ⟨(requested.get d).1 - shared.1, by have := (requested.get d).2; omega⟩
  let globalClass ← orFail (available admission.globalCapacity admission.globalUsage classPool d) internal
  demand (remainder.1 ≤ globalClass.1)
    (if sharedEligible then poolFailure .classCapacityUnavailable .classHeadroom cls d
      admission.globalCapacity admission.globalUsage classPool (requested.value d) pressure
    else pressureFailure pressure cls requested)
  let tenantClass ← orFail (available admission.tenantCapacity admission.tenantUsage classPool d) internal
  demand (remainder.1 ≤ tenantClass.1)
    (if sharedEligible then poolFailure .tenantFairShareExceeded .tenantFairShare cls d
      admission.tenantCapacity admission.tenantUsage classPool (requested.value d) pressure
    else pressureFailure pressure cls requested)
  return (shared, remainder)

def planPoolCharge (admission : PoolAdmission)
    (pressure : DiskPressureState) (sharedEligible : Bool) : Except AdmissionFailure PoolCharge := do
  let classPool ← orFail (forClass cls) (internalFailureAtPressure cls pressure)
  let parts ← collect (planPoolDimension cls classPool requested admission pressure sharedEligible)
    fun _ => (Unsigned.zero 64, Unsigned.zero 64)
  return ⟨classPool, ⟨fun d => (parts d).1⟩, ⟨fun d => (parts d).2⟩⟩

inductive RecoveryPoolLimit where
  | global (dimension : ResourceDimension)
  | scope (dimension : ResourceDimension)
  | internal
deriving DecidableEq

structure RecoveryPoolView where
  sharedCapacity : ResourceAmounts
  protectedCapacity : ResourceAmounts
  usage : RecoveryPoolUsage
  sharedOccupiedByOrdinary : ResourceAmounts

namespace RecoveryPoolView

def sharedAvailable (view : RecoveryPoolView) (d : ResourceDimension) : Option U64 := do
  let available ← (view.sharedCapacity.get d).checkedSub (view.usage.shared.get d)
  available.checkedSub (view.sharedOccupiedByOrdinary.get d)

def protectedAvailable (view : RecoveryPoolView) (kind : RecoveryWorkKind) (d : ResourceDimension) :
    Option U64 :=
  (view.protectedCapacity.get d).checkedSub ((view.usage.protectedPart kind).get d)

end RecoveryPoolView

def requiredShared (requested protectedAvailable : U64) : Option U64 :=
  if protectedAvailable.1 < requested.1 then requested.checkedSub protectedAvailable
  else some (Unsigned.zero 64)

def planRecoveryDimension (globalView scopeView : RecoveryPoolView) (d : ResourceDimension) :
    Except RecoveryPoolLimit (U64 × U64) := do
  let sharedAvailable ← orFail (globalView.sharedAvailable d) .internal
  let scopeSharedAvailable ← orFail (scopeView.sharedAvailable d) .internal
  let protectedAvailable ← orFail (globalView.protectedAvailable kind d) .internal
  let scopeProtectedAvailable ← orFail (scopeView.protectedAvailable kind d) .internal
  let globalAvailable ← orFail (sharedAvailable.checkedAdd protectedAvailable) .internal
  let scopeAvailable ← orFail (scopeSharedAvailable.checkedAdd scopeProtectedAvailable) .internal
  demand ((requested.get d).1 ≤ globalAvailable.1) (.global d)
  demand ((requested.get d).1 ≤ scopeAvailable.1) (.scope d)
  let globalRequired ← orFail (requiredShared (requested.get d) protectedAvailable) .internal
  let scopeRequired ← orFail (requiredShared (requested.get d) scopeProtectedAvailable) .internal
  let upperShared := min (min (requested.get d) sharedAvailable) scopeSharedAvailable
  demand (globalRequired.1 ≤ upperShared.1) (.global d)
  demand (scopeRequired.1 ≤ upperShared.1) (.scope d)
  let remainder ← orFail ((requested.get d).checkedSub upperShared) .internal
  return (upperShared, remainder)

def planRecoveryCharge (globalView scopeView : RecoveryPoolView) : Except RecoveryPoolLimit RecoveryPoolCharge := do
  let parts ← collect (planRecoveryDimension kind requested globalView scopeView)
    fun _ => (Unsigned.zero 64, Unsigned.zero 64)
  return ⟨kind, ⟨fun d => (parts d).1⟩, ⟨fun d => (parts d).2⟩⟩

def recoveryPoolFailure (limit : RecoveryPoolLimit) (tenant : Bool) (kind : RecoveryWorkKind)
    (requested : ResourceAmounts) (globalView scopeView : RecoveryPoolView)
    (pressure : DiskPressureState) : AdmissionFailure :=
  let cls := WorkClass.durabilityRecovery
  let report (view : RecoveryPoolView) (d : ResourceDimension) (code : AdmissionFailureCode)
      (scope : LimitingScope) : AdmissionFailure :=
    match (view.sharedCapacity.get d).checkedAdd (view.protectedCapacity.get d),
      (do let usage ← (view.usage.shared.get d).checkedAdd (view.sharedOccupiedByOrdinary.get d)
          usage.checkedAdd ((view.usage.protectedPart kind).get d)) with
    | some allowed, some inUse => ⟨code, .afterCapacityRelease, scope, cls, pressure,
        ⟨some d, allowed.1, inUse.1, requested.value d⟩⟩
    | _, _ => internalFailureAtPressure cls pressure
  match limit with
  | .internal => internalFailureAtPressure cls pressure
  | .global d => report globalView d .recoveryReserveExhausted .recoveryReserve
  | .scope d => if tenant then report scopeView d .tenantFairShareExceeded .tenantFairShare
    else report scopeView d .protectedCapacityUnavailable .protectedReserve

section Refusals

variable {cls : WorkClass} {pressure : DiskPressureState}
variable {ordinaryInUse recoverySharedInUse requested allowed : ResourceAmounts} {capacity : OrdinaryCapacity}
  {code : AdmissionFailureCode} {scope : LimitingScope}

theorem refuseExceeded_eq_ok_iff {inUse requested allowed : ResourceAmounts} :
    refuseExceeded code scope cls inUse requested allowed pressure = .ok ⟨⟩ ↔
      ∀ d, inUse.value d + requested.value d ≤ allowed.value d := by
  unfold refuseExceeded
  rw [visit_eq_ok_iff]
  exact forall_congr' fun d => demand_eq_ok_iff

theorem refuseTenantRecoverySharedFairShare_ok
    (h : refuseTenantRecoverySharedFairShare cls ordinaryInUse recoverySharedInUse requested allowed
      pressure = .ok ⟨⟩) (d : ResourceDimension) :
    ordinaryInUse.value d + recoverySharedInUse.value d + requested.value d ≤ allowed.value d := by
  obtain ⟨combined, hcombined, hrefuse⟩ := bind_ok h
  have hsum := checkedAdd_eq_some_iff.mp (orFail_eq_ok_iff.mp hcombined) d
  rw [← hsum]
  exact refuseExceeded_eq_ok_iff.mp hrefuse d

theorem refuseTenantRecoverySharedFairShare_eq_ok
    (h : ∀ d, ordinaryInUse.value d + recoverySharedInUse.value d + requested.value d ≤ allowed.value d) :
    refuseTenantRecoverySharedFairShare cls ordinaryInUse recoverySharedInUse requested allowed pressure =
      .ok ⟨⟩ := by
  obtain ⟨combined, hcombined⟩ := checkedAdd_of_lt fun d =>
    Nat.lt_of_le_of_lt (Nat.le_of_add_right_le (h d)) (allowed.value_lt d)
  unfold refuseTenantRecoverySharedFairShare
  rw [hcombined]
  refine refuseExceeded_eq_ok_iff.mpr fun d => ?_
  rw [checkedAdd_eq_some_iff.mp hcombined d]
  exact h d

theorem refuseOrdinaryCapacity_ok {requested : ResourceAmounts}
    (h : refuseOrdinaryCapacity cls requested capacity = .ok ⟨⟩) (d : ResourceDimension) :
    capacity.ordinaryUsage.value d + requested.value d ≤ capacity.totalCeiling.value d ∧
      capacity.ordinaryUsage.value d + requested.value d + capacity.recoverySharedUsage.value d ≤
        capacity.ordinaryCeiling.value d := by
  obtain ⟨_, htotal, hrest⟩ := bind_ok (visit_eq_ok_iff.mp h d)
  obtain ⟨available, havail, hord⟩ := bind_ok hrest
  have hle := demand_eq_ok_iff.mp hord
  obtain ⟨hshared, hval⟩ := checkedSub_eq_some_iff.mp (orFail_eq_ok_iff.mp havail)
  refine ⟨demand_eq_ok_iff.mp htotal, ?_⟩
  simp only [value] at hle ⊢
  omega

theorem refuseOrdinaryCapacity_eq_ok {requested : ResourceAmounts}
    (htotal : ∀ d, capacity.ordinaryUsage.value d + requested.value d ≤ capacity.totalCeiling.value d)
    (hord : ∀ d, capacity.ordinaryUsage.value d + requested.value d +
      capacity.recoverySharedUsage.value d ≤ capacity.ordinaryCeiling.value d) :
    refuseOrdinaryCapacity cls requested capacity = .ok ⟨⟩ := by
  refine visit_eq_ok_iff.mpr fun d => bind_eq_ok_iff.mpr ⟨⟨⟩, demand_eq_ok_iff.mpr (htotal d), ?_⟩
  have hd := hord d
  simp only [value] at hd
  obtain ⟨available, hsub, hval⟩ := checkedSub_of_le (Nat.le_of_add_left_le hd)
  refine bind_eq_ok_iff.mpr ⟨available, orFail_eq_ok_iff.mpr hsub, demand_eq_ok_iff.mpr ?_⟩
  simp only [value]
  omega

end Refusals

section PoolPlans

variable {cls : WorkClass} {pressure : DiskPressureState}
  {requested : ResourceAmounts} {admission : PoolAdmission} {sharedEligible : Bool}
variable {capacity usage : PoolCapacities} {classPool : OrdinaryPool}
  {p : OrdinaryPool} {d : ResourceDimension} {charge : PoolCharge}

theorem available_eq_some {amount : U64}
    (h : available capacity usage p d = some amount) : amount.1 + usage.value p d = capacity.value p d := by
  obtain ⟨hle, hval⟩ := checkedSub_eq_some_iff.mp h
  simp only [PoolCapacities.value, value]
  omega

theorem available_of_le (h : usage.value p d ≤ capacity.value p d) :
    ∃ amount, available capacity usage p d = some amount :=
  (checkedSub_of_le h).imp fun _ => And.left

def PoolFits (capacity usage : PoolCapacities) (charge : PoolCharge) : Prop :=
  ∀ p d, (p = .shared ∨ p = charge.classPool) →
    usage.value p d + charge.capacities.value p d ≤ capacity.value p d

theorem PoolFits.of_parts (hne : charge.classPool ≠ .shared)
    (h : ∀ d, charge.shared.value d + usage.value .shared d ≤ capacity.value .shared d ∧
      charge.protectedPart.value d + usage.value charge.classPool d ≤ capacity.value charge.classPool d) :
    PoolFits capacity usage charge := by
  intro p d hp
  rw [PoolCharge.value_capacities]
  rcases hp with rfl | rfl
  · rw [if_neg hne.symm]
    exact (Nat.add_comm _ _).trans_le (h d).1
  · rw [if_pos rfl]
    exact (Nat.add_comm _ _).trans_le (h d).2

theorem forClass_ne_shared (h : forClass cls = some p) : p ≠ .shared := by
  rintro rfl
  cases cls <;> cases h

theorem planPoolCharge_ok (h : planPoolCharge cls requested admission pressure sharedEligible = .ok charge) :
    forClass cls = some charge.classPool ∧
      (∀ d, charge.shared.value d + charge.protectedPart.value d = requested.value d) ∧
      PoolFits admission.globalCapacity admission.globalUsage charge ∧
      PoolFits admission.tenantCapacity admission.tenantUsage charge := by
  obtain ⟨classPool, hclass, hrest⟩ := bind_ok h
  obtain ⟨parts, hparts, hcharge⟩ := bind_ok hrest
  cases hcharge
  have hclass := orFail_eq_ok_iff.mp hclass
  have hne := forClass_ne_shared hclass
  have hd : ∀ d, (parts d).1.1 + (parts d).2.1 = requested.value d ∧
      ((parts d).1.1 + admission.globalUsage.value .shared d ≤ admission.globalCapacity.value .shared d ∧
        (parts d).2.1 + admission.globalUsage.value classPool d ≤
          admission.globalCapacity.value classPool d) ∧
      (parts d).1.1 + admission.tenantUsage.value .shared d ≤ admission.tenantCapacity.value .shared d ∧
        (parts d).2.1 + admission.tenantUsage.value classPool d ≤
          admission.tenantCapacity.value classPool d := by
    intro d
    have hplan := collect_ok hparts d
    obtain ⟨globalShared, hglobShared, hplan⟩ := bind_ok hplan
    obtain ⟨tenantShared, htenantShared, hplan⟩ := bind_ok hplan
    obtain ⟨globalClass, hglobClass, hplan⟩ := bind_ok hplan
    obtain ⟨_, hglob, hplan⟩ := bind_ok hplan
    obtain ⟨tenantClass, htenantClass, hplan⟩ := bind_ok hplan
    obtain ⟨_, htenant, hplan⟩ := bind_ok hplan
    have h₁ := available_eq_some (orFail_eq_ok_iff.mp hglobShared)
    have h₂ := available_eq_some (orFail_eq_ok_iff.mp htenantShared)
    have h₃ := available_eq_some (orFail_eq_ok_iff.mp hglobClass)
    have h₄ := available_eq_some (orFail_eq_ok_iff.mp htenantClass)
    have hresult := Except.ok.inj hplan
    have hglob : (parts d).2.1 ≤ globalClass.1 := by
      rw [← hresult]
      exact demand_eq_ok_iff.mp hglob
    have htenant : (parts d).2.1 ≤ tenantClass.1 := by
      rw [← hresult]
      exact demand_eq_ok_iff.mp htenant
    have hrem : (parts d).2.1 = (requested.get d).1 - (parts d).1.1 := by rw [← hresult]
    -- the shared part is at most each of the amounts it is the minimum of
    have hshared : (parts d).1.1 ≤ min (min (requested.get d).1 globalShared.1) tenantShared.1 := by
      rw [← hresult]
      split
      · rw [val_min, val_min]
      · exact Nat.zero_le _
    simp only [value]
    omega
  exact ⟨hclass, fun d => (hd d).1, .of_parts hne fun d => (hd d).2.1, .of_parts hne fun d => (hd d).2.2⟩

structure PoolsCovered (capacity usage : PoolCapacities) (classPool : OrdinaryPool) : Prop where
  shared : ∀ d, usage.value .shared d ≤ capacity.value .shared d
  ofClass : ∀ d, usage.value classPool d ≤ capacity.value classPool d

/-- A request that fits the unused part of the class pool can always be planned. -/
theorem planPoolCharge_of_room (hclass : forClass cls = some classPool)
    (hglob : PoolsCovered admission.globalCapacity admission.globalUsage classPool)
    (htenant : PoolsCovered admission.tenantCapacity admission.tenantUsage classPool)
    (hglobRoom : ∀ d, admission.globalUsage.value classPool d + requested.value d ≤
      admission.globalCapacity.value classPool d)
    (htenantRoom : ∀ d, admission.tenantUsage.value classPool d + requested.value d ≤
      admission.tenantCapacity.value classPool d) :
    ∃ charge, planPoolCharge cls requested admission pressure sharedEligible = .ok charge := by
  have hplan : ∀ d, ∃ parts, planPoolDimension cls classPool requested admission pressure
      sharedEligible d = .ok parts := by
    intro d
    obtain ⟨globalShared, hglobShared⟩ := available_of_le (hglob.shared d)
    obtain ⟨tenantShared, htenantShared⟩ := available_of_le (htenant.shared d)
    obtain ⟨globalClass, hglobClass⟩ := available_of_le (hglob.ofClass d)
    obtain ⟨tenantClass, htenantClass⟩ := available_of_le (htenant.ofClass d)
    have h₁ := available_eq_some hglobClass
    have h₂ := available_eq_some htenantClass
    have hroom₁ := hglobRoom d
    have hroom₂ := htenantRoom d
    have hle : ∀ x : Nat, (requested.get d).1 - x ≤ globalClass.1 ∧
        (requested.get d).1 - x ≤ tenantClass.1 := by
      simp only [value] at hroom₁ hroom₂
      omega
    unfold planPoolDimension
    simp only [hglobShared, htenantShared, hglobClass, htenantClass, orFail_some_bind]
    apply Exists.intro
    rw [bind_eq_ok_iff]
    refine ⟨⟨⟩, demand_eq_ok_iff.mpr (hle _).1, ?_⟩
    rw [bind_eq_ok_iff]
    exact ⟨⟨⟩, demand_eq_ok_iff.mpr (hle _).2, rfl⟩
  choose parts hparts using hplan
  unfold planPoolCharge
  rw [hclass]
  refine ⟨_, bind_eq_ok_iff.mpr ⟨classPool, rfl, bind_eq_ok_iff.mpr ⟨parts, ?_, rfl⟩⟩⟩
  exact collect_eq_ok hparts

end PoolPlans

section RecoveryPlans

variable {kind : RecoveryWorkKind} {requested : ResourceAmounts} {globalView scopeView : RecoveryPoolView}

variable {view : RecoveryPoolView} {d : ResourceDimension}

def RecoveryPoolView.Fits (view : RecoveryPoolView) (charge : RecoveryPoolCharge) : Prop :=
  ∀ d, view.usage.shared.value d + view.sharedOccupiedByOrdinary.value d + charge.shared.value d ≤
      view.sharedCapacity.value d ∧
    (view.usage.protectedPart charge.kind).value d + charge.protectedPart.value d ≤
      view.protectedCapacity.value d

variable {amount : U64} {charge : RecoveryPoolCharge}

theorem sharedAvailable_eq_some (h : view.sharedAvailable d = some amount) :
    amount.1 + view.sharedOccupiedByOrdinary.value d + view.usage.shared.value d = view.sharedCapacity.value d := by
  obtain ⟨available, havail, hrest⟩ := Option.bind_eq_some_iff.mp h
  obtain ⟨hle, hval⟩ := checkedSub_eq_some_iff.mp havail
  obtain ⟨hle', hval'⟩ := checkedSub_eq_some_iff.mp hrest
  simp only [value]
  omega

theorem protectedAvailable_eq_some (h : view.protectedAvailable kind d = some amount) :
    amount.1 + (view.usage.protectedPart kind).value d = view.protectedCapacity.value d := by
  obtain ⟨hle, hval⟩ := checkedSub_eq_some_iff.mp h
  simp only [value]
  omega

theorem requiredShared_eq (requested protectedAvailable : U64) :
    ∃ required, requiredShared requested protectedAvailable = some required ∧
      required.1 = requested.1 - protectedAvailable.1 := by
  unfold requiredShared
  split
  · rename_i hlt
    exact checkedSub_of_le hlt.le
  · refine ⟨_, rfl, ?_⟩
    simp only [Unsigned.zero]
    omega

/-- The four amounts one dimension of a recovery plan compares. -/
structure RecoveryAvailable (kind : RecoveryWorkKind) (globalView scopeView : RecoveryPoolView)
    (d : ResourceDimension) where
  shared : U64
  scopeShared : U64
  protectedPart : U64
  scopeProtected : U64
  shared_eq : globalView.sharedAvailable d = some shared
  scopeShared_eq : scopeView.sharedAvailable d = some scopeShared
  protected_eq : globalView.protectedAvailable kind d = some protectedPart
  scopeProtected_eq : scopeView.protectedAvailable kind d = some scopeProtected

theorem planRecoveryDimension_ok {parts : U64 × U64}
    (h : planRecoveryDimension kind requested globalView scopeView d = .ok parts) :
    ∃ a : RecoveryAvailable kind globalView scopeView d,
      parts.1.1 = min (min (requested.get d).1 a.shared.1) a.scopeShared.1 ∧
      parts.1.1 + parts.2.1 = (requested.get d).1 ∧
      parts.2.1 ≤ a.protectedPart.1 ∧ parts.2.1 ≤ a.scopeProtected.1 ∧
      a.shared.1 + a.protectedPart.1 < 2 ^ 64 ∧ a.scopeShared.1 + a.scopeProtected.1 < 2 ^ 64 := by
  obtain ⟨shared, hshared, h⟩ := bind_ok h
  obtain ⟨scopeShared, hscopeShared, h⟩ := bind_ok h
  obtain ⟨protectedPart, hprot, h⟩ := bind_ok h
  obtain ⟨scopeProtected, hscopeProt, h⟩ := bind_ok h
  obtain ⟨globalAvailable, hsum, h⟩ := bind_ok h
  obtain ⟨scopeAvailable, hscopeSum, h⟩ := bind_ok h
  obtain ⟨_, _, h⟩ := bind_ok h
  obtain ⟨_, _, h⟩ := bind_ok h
  obtain ⟨globalRequired, hglobReq, h⟩ := bind_ok h
  obtain ⟨scopeRequired, hscopeReq, h⟩ := bind_ok h
  obtain ⟨_, hglob, h⟩ := bind_ok h
  obtain ⟨_, hscope, h⟩ := bind_ok h
  obtain ⟨remainder, hrem, h⟩ := bind_ok h
  obtain ⟨required, hreq, hreqVal⟩ := requiredShared_eq (requested.get d) protectedPart
  obtain ⟨required', hreq', hreqVal'⟩ := requiredShared_eq (requested.get d) scopeProtected
  rw [hreq] at hglobReq
  rw [hreq'] at hscopeReq
  cases hglobReq
  cases hscopeReq
  have hglob := demand_eq_ok_iff.mp hglob
  have hscope := demand_eq_ok_iff.mp hscope
  obtain ⟨hle, hval⟩ := checkedSub_eq_some_iff.mp (orFail_eq_ok_iff.mp hrem)
  cases h
  rw [val_min, val_min] at hglob hscope hle hval
  have hsumVal := checkedAdd_eq_some_iff.mp (orFail_eq_ok_iff.mp hsum)
  have hscopeSumVal := checkedAdd_eq_some_iff.mp (orFail_eq_ok_iff.mp hscopeSum)
  have hsumWord := globalAvailable.2
  have hscopeSumWord := scopeAvailable.2
  refine ⟨⟨shared, scopeShared, protectedPart, scopeProtected, orFail_eq_ok_iff.mp hshared,
    orFail_eq_ok_iff.mp hscopeShared, orFail_eq_ok_iff.mp hprot,
    orFail_eq_ok_iff.mp hscopeProt⟩, ?_⟩
  dsimp only
  rw [val_min, val_min]
  omega

theorem planRecoveryCharge_ok (h : planRecoveryCharge kind requested globalView scopeView = .ok charge) :
    charge.kind = kind ∧ (∀ d, charge.shared.value d + charge.protectedPart.value d = requested.value d) ∧
      globalView.Fits charge ∧ scopeView.Fits charge := by
  obtain ⟨parts, hparts, hcharge⟩ := bind_ok h
  cases hcharge
  have hd := fun d => planRecoveryDimension_ok (collect_ok hparts d)
  refine ⟨rfl, fun d => ?_, fun d => ?_, fun d => ?_⟩
  · obtain ⟨_, _, hsum, _⟩ := hd d
    exact hsum
  · obtain ⟨a, hshared, _, hprot, _⟩ := hd d
    have h₁ := sharedAvailable_eq_some a.shared_eq
    have h₂ := protectedAvailable_eq_some a.protected_eq
    simp only [value] at *
    omega
  · obtain ⟨a, hshared, _, _, hprot, _⟩ := hd d
    have h₁ := sharedAvailable_eq_some a.scopeShared_eq
    have h₂ := protectedAvailable_eq_some a.scopeProtected_eq
    simp only [value] at *
    omega

end RecoveryPlans

/-- A shared and a protected part that the pools of a view have room for. -/
def RecoveryPoolView.HasRoom (view : RecoveryPoolView) (kind : RecoveryWorkKind) (d : ResourceDimension)
    (shared protectedPart : Nat) : Prop :=
  view.usage.shared.value d + view.sharedOccupiedByOrdinary.value d + shared ≤ view.sharedCapacity.value d ∧
    (view.usage.protectedPart kind).value d + protectedPart ≤ view.protectedCapacity.value d

/-- What the two pools of a view have left is counted in one word. -/
def RecoveryPoolView.Countable (view : RecoveryPoolView) (kind : RecoveryWorkKind)
    (d : ResourceDimension) : Prop :=
  view.sharedCapacity.value d - (view.usage.shared.value d + view.sharedOccupiedByOrdinary.value d) +
    (view.protectedCapacity.value d - (view.usage.protectedPart kind).value d) < 2 ^ 64

def Splits (kind : RecoveryWorkKind) (requested : ResourceAmounts) (globalView scopeView : RecoveryPoolView)
    (d : ResourceDimension) (shared protectedPart : Nat) : Prop :=
  shared + protectedPart = requested.value d ∧ globalView.HasRoom kind d shared protectedPart ∧
    scopeView.HasRoom kind d shared protectedPart

variable {kind : RecoveryWorkKind} {requested : ResourceAmounts} {view globalView scopeView : RecoveryPoolView}
  {d : ResourceDimension}

theorem RecoveryPoolView.HasRoom.available {shared protectedPart : Nat}
    (h : view.HasRoom kind d shared protectedPart) (hcount : view.Countable kind d) :
    ∃ sharedLeft protectedLeft sum : U64, view.sharedAvailable d = some sharedLeft ∧
      view.protectedAvailable kind d = some protectedLeft ∧ sharedLeft.checkedAdd protectedLeft = some sum ∧
      shared ≤ sharedLeft.1 ∧ protectedPart ≤ protectedLeft.1 := by
  obtain ⟨hshared, hprot⟩ := h
  simp only [RecoveryPoolView.Countable, value] at hshared hprot hcount
  obtain ⟨unused, hunused, hunusedVal⟩ :=
    checkedSub_of_le (a := view.sharedCapacity.get d) (b := view.usage.shared.get d) (by omega)
  obtain ⟨sharedLeft, hsharedLeft, hsharedVal⟩ :=
    checkedSub_of_le (a := unused) (b := view.sharedOccupiedByOrdinary.get d) (by omega)
  obtain ⟨protectedLeft, hprotLeft, hprotVal⟩ := checkedSub_of_le
    (a := view.protectedCapacity.get d) (b := (view.usage.protectedPart kind).get d) (by omega)
  refine ⟨sharedLeft, protectedLeft, ⟨sharedLeft.1 + protectedLeft.1, by omega⟩, ?_, hprotLeft,
    checkedAdd_eq_some_iff.mpr rfl, by omega, by omega⟩
  rw [RecoveryPoolView.sharedAvailable, hunused]
  exact hsharedLeft

theorem planRecoveryDimension_of_splits {shared protectedPart : Nat} (hcount : globalView.Countable kind d)
    (hscopeCount : scopeView.Countable kind d)
    (h : Splits kind requested globalView scopeView d shared protectedPart) :
    ∃ parts, planRecoveryDimension kind requested globalView scopeView d = .ok parts := by
  obtain ⟨hparts, hroom, hscopeRoom⟩ := h
  obtain ⟨sharedLeft, protectedLeft, sum, hshared, hprot, hsum, hle, hle'⟩ := hroom.available hcount
  obtain ⟨scopeShared, scopeProtected, scopeSum, hscopeShared, hscopeProt, hscopeSum, hscopeLe, hscopeLe'⟩ :=
    hscopeRoom.available hscopeCount
  obtain ⟨required, hreq, hreqVal⟩ := requiredShared_eq (requested.get d) protectedLeft
  obtain ⟨scopeRequired, hscopeReq, hscopeVal⟩ := requiredShared_eq (requested.get d) scopeProtected
  have hsumVal := checkedAdd_eq_some_iff.mp hsum
  have hscopeSumVal := checkedAdd_eq_some_iff.mp hscopeSum
  have hupper := val_min (min (requested.get d) sharedLeft) scopeShared
  rw [val_min (requested.get d)] at hupper
  rw [value] at hparts
  obtain ⟨remainder, hrem, -⟩ := checkedSub_of_le
    (a := requested.get d) (b := min (min (requested.get d) sharedLeft) scopeShared) (by omega)
  refine ⟨(min (min (requested.get d) sharedLeft) scopeShared, remainder), ?_⟩
  unfold planRecoveryDimension
  rw [hshared, orFail_some_bind, hscopeShared, orFail_some_bind, hprot, orFail_some_bind, hscopeProt,
    orFail_some_bind, hsum, orFail_some_bind, hscopeSum, orFail_some_bind, demand_bind (by omega),
    demand_bind (by omega), hreq, orFail_some_bind, hscopeReq, orFail_some_bind, demand_bind (by omega),
    demand_bind (by omega), hrem, orFail_some_bind]
  rfl

/-- A plan splits each dimension, and no split of a dimension has a larger shared part. -/
theorem planRecoveryCharge_splits {charge : RecoveryPoolCharge}
    (h : planRecoveryCharge kind requested globalView scopeView = .ok charge) (d : ResourceDimension) :
    globalView.Countable kind d ∧ scopeView.Countable kind d ∧
      Splits kind requested globalView scopeView d (charge.shared.value d) (charge.protectedPart.value d) ∧
      ∀ shared protectedPart, Splits kind requested globalView scopeView d shared protectedPart →
        shared ≤ charge.shared.value d := by
  obtain ⟨parts, hparts, hcharge⟩ := bind_ok h
  cases hcharge
  obtain ⟨a, hshared, hsum, hprot, hscopeProt, hcount, hscopeCount⟩ := planRecoveryDimension_ok (collect_ok hparts d)
  have hglobShared := sharedAvailable_eq_some a.shared_eq
  have hglobProt := protectedAvailable_eq_some a.protected_eq
  have hscopeShared := sharedAvailable_eq_some a.scopeShared_eq
  have hscopeProt' := protectedAvailable_eq_some a.scopeProtected_eq
  simp only [RecoveryPoolView.Countable, Splits, RecoveryPoolView.HasRoom, value] at *
  refine ⟨by omega, by omega, by omega, ?_⟩
  rintro shared protectedPart ⟨hsplit, hroom, hscopeRoom⟩
  omega

theorem exists_planRecoveryCharge_iff :
    (∃ charge, planRecoveryCharge kind requested globalView scopeView = .ok charge) ↔
    ∀ d, globalView.Countable kind d ∧ scopeView.Countable kind d ∧
      ∃ shared protectedPart, Splits kind requested globalView scopeView d shared protectedPart := by
  constructor
  · rintro ⟨charge, h⟩ d
    obtain ⟨hcount, hscopeCount, hsplits, -⟩ := planRecoveryCharge_splits h d
    exact ⟨hcount, hscopeCount, _, _, hsplits⟩
  · intro h
    cases hcollect : planRecoveryCharge kind requested globalView scopeView with
    | ok charge => exact ⟨charge, rfl⟩
    | error limit =>
      obtain hparts | ⟨parts, -, hcharge⟩ := bind_eq_error_iff.mp hcollect
      · obtain ⟨d, hd⟩ := collect_error hparts
        obtain ⟨hcount, hscopeCount, shared, protectedPart, hsplits⟩ := h d
        obtain ⟨parts, hdone⟩ := planRecoveryDimension_of_splits hcount hscopeCount hsplits
        rw [hdone] at hd
        cases hd
      · cases hcharge

/-- A plan is found exactly where every dimension of the request can be split and the sums can be counted,
and no split of a dimension has a larger shared part than the one found. -/
theorem recovery_plan_complete (kind : RecoveryWorkKind) (requested : ResourceAmounts)
    (globalView scopeView : RecoveryPoolView) :
    ((∃ charge, planRecoveryCharge kind requested globalView scopeView = .ok charge) ↔
      ∀ d, globalView.Countable kind d ∧ scopeView.Countable kind d ∧
        ∃ shared protectedPart, Splits kind requested globalView scopeView d shared protectedPart) ∧
    ∀ charge, planRecoveryCharge kind requested globalView scopeView = .ok charge → charge.kind = kind ∧ ∀ d,
        Splits kind requested globalView scopeView d (charge.shared.value d) (charge.protectedPart.value d) ∧
        ∀ shared protectedPart, Splits kind requested globalView scopeView d shared protectedPart →
          shared ≤ charge.shared.value d := by
  refine ⟨exists_planRecoveryCharge_iff, fun charge h => ⟨(planRecoveryCharge_ok h).1, fun d => ?_⟩⟩
  obtain ⟨-, -, hsplits, hmost⟩ := planRecoveryCharge_splits h d
  exact ⟨hsplits, hmost⟩

/-- Two pools of half a word each, nothing in use. -/
def halfWords : RecoveryPoolView where
  sharedCapacity := ⟨fun _ => Unsigned.wrap 64 (2 ^ 63)⟩
  protectedCapacity := ⟨fun _ => Unsigned.wrap 64 (2 ^ 63)⟩
  usage := RecoveryPoolUsage.zero
  sharedOccupiedByOrdinary := zero

def oneEach : ResourceAmounts := ⟨fun _ => Unsigned.wrap 64 1⟩

/-- One of everything fits, but what is left in the pools cannot be counted. -/
theorem one_each_not_planned :
    ¬ ((∃ charge, planRecoveryCharge .purge oneEach halfWords halfWords = .ok charge) ↔
      ∀ d, ∃ shared protectedPart, Splits .purge oneEach halfWords halfWords d shared protectedPart) := by
  intro h
  have hroom : ∀ d, halfWords.HasRoom .purge d 1 0 := fun d => ⟨Nat.le_of_ble_eq_true rfl, Nat.zero_le _⟩
  obtain ⟨charge, hcharge⟩ := h.mpr fun d => ⟨1, 0, rfl, hroom d, hroom d⟩
  cases hcharge

end Positron.Governor
