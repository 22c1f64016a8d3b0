import Positron.Governor.Decisions
import Positron.Lib.Triples

/-! Admission of ordinary and of recovery work: the checks in their order, the plan of the charge and its commit. A
check that only corruption can fail fences the governor. Release of a grant, at once or by whoever takes the lock
next, and its replacement, which cancels the grant when it is refused, unless its holder or its kind of work keeps
it. -/

namespace Positron.Governor
open MachineInt Enumeration Checks Triples

abbrev Admission := EStateM AdmissionFailure GovernorState

def GovernorState.fence (s : GovernorState) : GovernorState := { s with lifecycle := .fenced }

/-- Fences the governor and fails with a report of the fenced state. -/
def fenced {ε α : Type} (report : GovernorState → ε) : EStateM ε GovernorState α := do
  modify GovernorState.fence
  let s ← get
  throw (report s)

def orFence {ε α : Type} (report : GovernorState → ε) (o : Option α) : EStateM ε GovernorState α :=
  match o with
  | some a => pure a
  | none => fenced report

variable (cls : WorkClass)

def internalAt (s : GovernorState) : AdmissionFailure :=
  internalFailureAtPressure cls s.diskPressure

def fencing {α : Type} (x : Except AdmissionFailure α) : Admission α :=
  match x with
  | .ok a => pure a
  | .error failure => do
    modify fun s => if failure.code = .internalFenced then s.fence else s
    throw failure

structure ResourceReservation where
  slot : Nat
  owner : ChargeOwner
  identity : ReservationIdentity
  amounts : ResourceAmounts
  operation : Option OperationToken
  active : Bool
deriving DecidableEq

variable (s : AccountingState)

/-- A tenant whose enrollment is pending is not registered yet. -/
def tenantIndexOf (tenant : TenantId) (cls : WorkClass) : Except AdmissionFailure Nat :=
  orFail (s.tenantQuotas.findIdx? fun quota =>
      decide (quota.tenant = tenant ∧ s.pendingTenant ≠ some tenant))
    ⟨.unregisteredTenant, .afterExternalCorrection, .tenant, cls, s.diskPressure, .none⟩

/-- The classes other than `cls` that hold nothing. -/
def missingClasses (cls : WorkClass) : Nat :=
  (Listed.all.filter fun c => decide (c ≠ cls ∧ (s.classCounts c).1 = 0)).length

variable (tenantIndex : Option Nat)

/-- The entries of the tenant table, other than that of the claim, that hold nothing. -/
def missingTenants : Nat :=
  (s.tenantOutstanding.zipIdx.filter fun entry =>
    decide (some entry.2 ≠ tenantIndex ∧ entry.1.1 = 0)).length

variable (inner : GovernorInner)

/-- Every idle class and every idle tenant entry keeps a slot back. -/
def requireHealthyAndSlot (s : AccountingState) (cls : WorkClass)
    (tenantIndex : Option Nat) : Except AdmissionFailure U32 := do
  demand (s.lifecycle ≠ .fenced) (internalFailureAtPressure cls s.diskPressure)
  let candidate ← orFail (s.outstanding.checkedAdd (Unsigned.wrap 32 1))
    (internalFailureAtPressure cls s.diskPressure)
  demand (candidate.1 + (missingClasses s cls + missingTenants s tenantIndex) ≤ inner.maximumOutstanding.1)
    ⟨.outstandingReservationLimit, .afterCapacityRelease, .outstandingReservations, cls,
      s.diskPressure, ⟨none, inner.maximumOutstanding.1, s.outstanding.1, 1⟩⟩
  return candidate

def invalidOperationFailure (cls : WorkClass) : AdmissionFailure :=
  ⟨.principalQuotaExceeded, .afterCapacityRelease, .operation, cls, s.diskPressure, ⟨none, 0, 0, 1⟩⟩

variable (slot : Nat)

def AccountingState.record : Option GrantRecord :=
  s.grantRecords[slot]?.join

def GrantRecord.acceptsChildren (record : GrantRecord) (generation : U64) : Bool :=
  match record.operation with
  | some (.root rootGeneration true _) => decide (rootGeneration = generation)
  | _ => false

def issuedBy (tenantIndex : Nat) (cls : WorkClass) (token : OperationToken) (record : GrantRecord) : Bool :=
  decide (token.authority = inner.authority ∧ record.tenantIndex = some tenantIndex ∧
    record.tenant = some token.tenant ∧ record.principal = some token.principal ∧
    record.kind.workClass = cls) && record.acceptsChildren token.generation

def validateOperationChild (s : AccountingState) (tenantIndex : Nat)
    (operation : Option OperationToken) (cls : WorkClass) : Except AdmissionFailure Unit :=
  match operation with
  | none => .ok ⟨⟩
  | some token => demand
    ((s.record token.rootSlot).any (issuedBy inner tenantIndex cls token))
    (invalidOperationFailure s cls)

/-- The roots a principal holds and the sum of its grants, without one slot. -/
def principalUsageExcluding (tenantIndex : Nat) (principal : PrincipalId)
    (excluded : Option Nat) (cls : WorkClass) : Except AdmissionFailure (Nat × ResourceAmounts) :=
  s.grantRecords.zipIdx.foldlM (fun held entry =>
    match entry.1 with
    | none => .ok held
    | some record =>
      if some entry.2 = excluded ∨ record.tenantIndex ≠ some tenantIndex ∨
          record.principal ≠ some principal then .ok held
      else do
        let usage ← orFail (held.2.checkedAdd record.amounts) (internalFailureAtPressure cls s.diskPressure)
        return (if record.isOperationRoot then held.1 + 1 else held.1, usage)) (0, .zero)

def belongsTo (token : OperationToken) (slot : Nat) (record : GrantRecord) : Bool :=
  match record.operation with
  | some (.root generation _ _) => decide (slot = token.rootSlot ∧ generation = token.generation)
  | some (.child rootSlot generation) =>
    decide (rootSlot = token.rootSlot ∧ generation = token.generation)
  | none => false

def operationUsage (token : OperationToken) (excluded : Option Nat)
    (cls : WorkClass) : Except AdmissionFailure ResourceAmounts :=
  s.grantRecords.zipIdx.foldlM (fun usage entry =>
    match entry.1 with
    | none => .ok usage
    | some record =>
      if some entry.2 = excluded ∨ belongsTo token entry.2 record = false then .ok usage
      else orFail (usage.checkedAdd record.amounts) (internalFailureAtPressure cls s.diskPressure))
    .zero

def operationUsageOf (operation : Option OperationToken) (excluded : Option Nat)
    (cls : WorkClass) : Except AdmissionFailure ResourceAmounts :=
  match operation with
  | some token => operationUsage s token excluded cls
  | none => .ok .zero

def refusePrincipalCeilings (quota : PrincipalQuota) (s : AccountingState) (cls : WorkClass)
    (operationUsage usage requested : ResourceAmounts) : Except AdmissionFailure Unit := do
  refuseExceeded .principalQuotaExceeded .operation cls operationUsage requested
    quota.perOperationLimits s.diskPressure
  refuseExceeded .principalQuotaExceeded .principal cls usage requested quota.aggregateLimits s.diskPressure

def refusePrincipalLimit (s : AccountingState) (tenantIndex : Nat)
    (principal : Option PrincipalId) (operation : Option OperationToken) (cls : WorkClass)
    (requested : ResourceAmounts) : Except AdmissionFailure Unit :=
  match principal, inner.principalQuota with
  | some principal, some quota => do
    let (inUse, usage) ← principalUsageExcluding s tenantIndex principal none cls
    demand (operation.isSome ∨ inUse < quota.maximumOperations.1)
      ⟨.principalQuotaExceeded, .afterCapacityRelease, .principal, cls, s.diskPressure,
        ⟨none, quota.maximumOperations.1, inUse, 1⟩⟩
    let operationUsage ← operationUsageOf s operation none cls
    refusePrincipalCeilings quota s cls operationUsage usage requested
  | _, _ => .ok ⟨⟩

/-- Takes the next free slot for the record. A slot that is not what the free list says is lost. -/
def activateSlot (record : GrantRecord) : Admission (Option Nat) := fun s =>
  match s.freeSlots with
  | [] => .ok none s
  | slot :: freeSlots =>
    if s.grantRecords[slot]? = some none ∧ s.slotSignals[slot]? = some .free then
      .ok (some slot) { s with
        freeSlots := freeSlots
        grantRecords := s.grantRecords.set slot (some record)
        slotSignals := s.slotSignals.set slot .active }
    else .ok none { s with freeSlots := freeSlots }

def operationRecordForClaim (operation : Option OperationToken) (principal : Option PrincipalId)
    (cls : WorkClass) : Admission (Option OperationRecord) :=
  match operation, principal with
  | some token, _ => return some (.child token.rootSlot token.generation)
  | none, none => return none
  | none, some _ => do
    let s ← get
    let next ← orFence (internalAt cls) (s.nextOperationGeneration.checkedAdd (Unsigned.wrap 64 1))
    modify fun s => { s with nextOperationGeneration := next }
    return some (.root s.nextOperationGeneration true (Unsigned.zero 16))

def countChild (operation : Option OperationToken) (cls : WorkClass) : Admission PUnit :=
  match operation with
  | none => return ⟨⟩
  | some token => do
    let s ← get
    let root ← orFence (internalAt cls) (s.record token.rootSlot)
    let updated ← orFence (internalAt cls) root.incrementRootChild
    modify fun s => { s with grantRecords := s.grantRecords.set token.rootSlot (some updated) }

structure OrdinaryCommit where
  tenantIndex : Nat
  cls : WorkClass
  totalCandidate : ResourceAmounts
  tenantCandidate : ResourceAmounts
  poolCandidate : PoolCapacities
  tenantPoolCandidate : PoolCapacities
  outstanding : U32
  ordinaryCount : U32
  classCount : U32
  tenantCount : U32

def commitOrdinary (commit : OrdinaryCommit) (s : GovernorState) : GovernorState :=
  { s with
    ordinaryTenantUsage := s.ordinaryTenantUsage.set commit.tenantIndex commit.tenantCandidate
    ordinaryTenantPoolUsage :=
      s.ordinaryTenantPoolUsage.set commit.tenantIndex commit.tenantPoolCandidate
    classCounts := Function.update s.classCounts commit.cls commit.classCount
    tenantOutstanding := s.tenantOutstanding.set commit.tenantIndex commit.tenantCount
    totalUsage := commit.totalCandidate
    poolUsage := commit.poolCandidate
    outstanding := commit.outstanding
    outstandingOrdinary := commit.ordinaryCount }

def grantOrdinary (claim : WorkClaim) (owner : ChargeOwner)
    (commit : OrdinaryCommit) : Admission ResourceReservation := do
  let cls := claim.kind.workClass
  let identity : ReservationIdentity := .ordinary claim.tenant claim.principal claim.kind
  let operationRecord ← operationRecordForClaim claim.operation claim.principal cls
  let record ← orFence (internalAt cls) (GrantRecord.new owner identity claim.amounts operationRecord)
  let activated ← activateSlot record
  let slot ← orFence (internalAt cls) activated
  countChild claim.operation cls
  modify (commitOrdinary commit)
  return ⟨slot, owner, identity, claim.amounts, record.rootToken inner.authority slot, true⟩

def reserveOrdinaryLocked (claim : WorkClaim) : Admission ResourceReservation := do
  let cls := claim.kind.workClass
  let s ← get
  require (s.lifecycle ≠ .shuttingDown) (shutdownFailure cls s.diskPressure)
  let tenantIndex ← ofExcept (tenantIndexOf s claim.tenant cls)
  let outstanding ← ofExcept (requireHealthyAndSlot inner s cls (some tenantIndex))
  ofExcept (validateOperationChild inner s tenantIndex claim.operation cls)
  ofExcept (refusePrincipalLimit inner s tenantIndex claim.principal claim.operation cls claim.amounts)
  let sharedEligible ← ofExcept (pressureEligibility s.diskPressure cls claim.amounts)
  ofExcept (refuseLiveDiskGrowth cls s.totalUsage claim.amounts s.usableDiskBytes s.diskPressure)
  let ordinaryUsage ← orFence (internalAt cls) (s.totalUsage.checkedSub s.recoveryUsage)
  ofExcept (refuseOrdinaryCapacity cls claim.amounts
    ⟨ordinaryUsage, s.recoveryPoolUsage.shared, inner.ordinaryCeiling, inner.totalCeiling, s.diskPressure⟩)
  let totalCandidate ← orFence (internalAt cls) (s.totalUsage.checkedAdd claim.amounts)
  let tenantUsage ← orFence (internalAt cls) s.ordinaryTenantUsage[tenantIndex]?
  let tenantLimit ← orFence (internalAt cls) s.tenantLimits[tenantIndex]?
  ofExcept (refuseExceeded .tenantQuotaExceeded .tenant cls tenantUsage claim.amounts tenantLimit
    s.diskPressure)
  let recoverySharedUsage ← orFence (internalAt cls) (s.recoveryTenantPoolUsage[tenantIndex]?.map (·.shared))
  let recoverySharedLimit ← orFence (internalAt cls) s.recoveryTenantSharedFair[tenantIndex]?
  fencing (refuseTenantRecoverySharedFairShare cls tenantUsage recoverySharedUsage claim.amounts
    recoverySharedLimit s.diskPressure)
  let tenantCandidate ← orFence (internalAt cls) (tenantUsage.checkedAdd claim.amounts)
  let tenantPoolUsage ← orFence (internalAt cls) s.ordinaryTenantPoolUsage[tenantIndex]?
  let tenantFairCapacity ← orFence (internalAt cls) s.tenantFairCapacities[tenantIndex]?
  let pools ← fencing (planPoolCharge cls claim.amounts
    ⟨inner.poolCapacities, s.poolUsage, tenantFairCapacity, tenantPoolUsage⟩ s.diskPressure
    sharedEligible)
  let poolCandidate ← orFence (internalAt cls) (s.poolUsage.checkedAdd pools.capacities)
  let tenantPoolCandidate ← orFence (internalAt cls) (tenantPoolUsage.checkedAdd pools.capacities)
  let ordinaryCount ← orFence (internalAt cls) (s.outstandingOrdinary.checkedAdd (Unsigned.wrap 32 1))
  let classCount ← orFence (internalAt cls) ((s.classCounts cls).checkedAdd (Unsigned.wrap 32 1))
  let tenantCount ← orFence (internalAt cls) (s.tenantOutstanding[tenantIndex]? >>= fun count =>
    count.checkedAdd (Unsigned.wrap 32 1))
  -- the tables were found to hold the tenant above, so every write of the commit meets its entry
  grantOrdinary inner claim ⟨.ordinary tenantIndex, some pools, none⟩ ⟨tenantIndex, cls,
    totalCandidate, tenantCandidate, poolCandidate, tenantPoolCandidate, outstanding, ordinaryCount,
    classCount, tenantCount⟩

def setTenant {α : Type} (table : List α) (tenantIndex : Option Nat) (value : Option α) : List α :=
  match tenantIndex, value with
  | some index, some value => table.set index value
  | _, _ => table

def scopeUsage : Option RecoveryPoolUsage :=
  match tenantIndex with
  | some index => s.recoveryTenantPoolUsage[index]?
  | none => some s.recoverySystemPoolUsage

def recoveryScopeView (s : AccountingState) (tenantIndex : Option Nat)
    (kind : RecoveryWorkKind) (ordinaryUsage : ResourceAmounts) (usage : RecoveryPoolUsage) :
    Option RecoveryPoolView :=
  match tenantIndex with
  | some index => do
    let shared ← s.recoveryTenantSharedFair[index]?
    let pools ← s.recoveryTenantPoolFair[index]?
    let ordinary ← s.ordinaryTenantUsage[index]?
    return ⟨shared, pools.get kind, usage, ordinary⟩
  | none => some ⟨inner.recoverySharedCapacity, s.recoverySystemPoolCapacities.get kind, usage,
      ordinaryUsage⟩

def recoveryGlobalView (kind : RecoveryWorkKind)
    (ordinaryUsage : ResourceAmounts) (usage : RecoveryPoolUsage) : RecoveryPoolView :=
  ⟨inner.recoverySharedCapacity, inner.recoveryPoolCapacities.get kind, usage, ordinaryUsage⟩

def planRecovery (kind : RecoveryWorkKind) (requested : ResourceAmounts)
    (globalView scopeView : RecoveryPoolView) (tenant : Bool) (pressure : DiskPressureState) :
    Except AdmissionFailure RecoveryPoolCharge :=
  match planRecoveryCharge kind requested globalView scopeView with
  | .ok charge => .ok charge
  | .error limit =>
    .error (recoveryPoolFailure limit tenant kind requested globalView scopeView pressure)

def recoveryTenantCandidate (amounts : ResourceAmounts) : Admission (Option ResourceAmounts) :=
  let cls := WorkClass.durabilityRecovery
  match tenantIndex with
  | none => return none
  | some index => do
    let s ← get
    let usage ← orFence (internalAt cls) s.recoveryTenantUsage[index]?
    let candidate ← orFence (internalAt cls) (usage.checkedAdd amounts)
    let ordinaryUsage ← orFence (internalAt cls) s.ordinaryTenantUsage[index]?
    let quota ← orFence (internalAt cls) s.tenantQuotas[index]?
    let combinedUsage ← orFence (internalAt cls) (ordinaryUsage.checkedAdd usage)
    ofExcept (refuseExceeded .tenantQuotaExceeded .tenant cls combinedUsage amounts quota.limits
      s.diskPressure)
    return some candidate

structure RecoveryCommit where
  tenantIndex : Option Nat
  totalCandidate : ResourceAmounts
  recoveryCandidate : ResourceAmounts
  tenantCandidate : Option ResourceAmounts
  poolCandidate : RecoveryPoolUsage
  scopeCandidate : RecoveryPoolUsage
  outstanding : U32
  recoveryCount : U32
  classCount : U32
  tenantCount : Option U32
  uninterruptibleCount : Option U32

def commitRecovery (commit : RecoveryCommit) (s : GovernorState) : GovernorState :=
  { s with
    recoveryTenantUsage :=
      setTenant s.recoveryTenantUsage commit.tenantIndex commit.tenantCandidate
    recoveryTenantPoolUsage :=
      setTenant s.recoveryTenantPoolUsage commit.tenantIndex (some commit.scopeCandidate)
    recoverySystemPoolUsage :=
      if commit.tenantIndex.isNone then commit.scopeCandidate else s.recoverySystemPoolUsage
    totalUsage := commit.totalCandidate
    recoveryUsage := commit.recoveryCandidate
    recoveryPoolUsage := commit.poolCandidate
    outstanding := commit.outstanding
    outstandingRecovery := commit.recoveryCount
    classCounts := Function.update s.classCounts .durabilityRecovery commit.classCount
    tenantOutstanding := setTenant s.tenantOutstanding commit.tenantIndex commit.tenantCount
    outstandingUninterruptible := commit.uninterruptibleCount.getD s.outstandingUninterruptible }

def recoveryTenantIndex (scope : RecoveryScope) : Except AdmissionFailure (Option Nat) :=
  match scope with
  | .system => .ok none
  | .tenant tenant => some <$> tenantIndexOf s tenant .durabilityRecovery

def countTenant : Admission (Option U32) :=
  match tenantIndex with
  | none => return none
  | some index => some <$> orFence (internalAt .durabilityRecovery) (s.tenantOutstanding[index]? >>= fun count =>
      count.checkedAdd (Unsigned.wrap 32 1))

def countUninterruptible (kind : RecoveryWorkKind) : Admission (Option U32) :=
  if kind.retainsCapacityOnResizeFailure then
    some <$> orFence (internalAt .durabilityRecovery)
      (s.outstandingUninterruptible.checkedAdd (Unsigned.wrap 32 1))
  else return none

def grantRecovery (claim : RecoveryWorkClaim) (owner : ChargeOwner) (commit : RecoveryCommit) :
    Admission ResourceReservation := do
  let cls := WorkClass.durabilityRecovery
  let identity : ReservationIdentity := .recovery claim.scope claim.kind
  let record ← orFence (internalAt cls) (GrantRecord.new owner identity claim.amounts none)
  let activated ← activateSlot record
  let slot ← orFence (internalAt cls) activated
  modify (commitRecovery commit)
  return ⟨slot, owner, identity, claim.amounts, none, true⟩

def reserveRecoveryLocked (claim : RecoveryWorkClaim) : Admission ResourceReservation := do
  let cls := WorkClass.durabilityRecovery
  let s ← get
  let internal := internalFailureAtPressure cls s.diskPressure
  require (s.lifecycle ≠ .shuttingDown ∨ claim.kind.retainsCapacityOnResizeFailure)
    (shutdownFailure cls s.diskPressure)
  let tenantIndex ← ofExcept (recoveryTenantIndex s claim.scope)
  let outstanding ← ofExcept (requireHealthyAndSlot inner s cls tenantIndex)
  ofExcept (refuseLiveDiskGrowth cls s.totalUsage claim.amounts s.usableDiskBytes s.diskPressure)
  ofExcept (refuseExceeded .recoveryReserveExhausted .recoveryReserve cls s.totalUsage claim.amounts
    inner.totalCeiling s.diskPressure)
  let totalCandidate ← orFence (internalAt cls) (s.totalUsage.checkedAdd claim.amounts)
  let recoveryCandidate ← orFence (internalAt cls) (s.recoveryUsage.checkedAdd claim.amounts)
  let ordinaryUsage ← orFence (internalAt cls) (s.totalUsage.checkedSub s.recoveryUsage)
  let tenantCandidate ← recoveryTenantCandidate tenantIndex claim.amounts
  let usage ← ofExcept (orFail (scopeUsage s tenantIndex) internal)
  let scopeView ← ofExcept (orFail (recoveryScopeView inner s tenantIndex
    claim.kind ordinaryUsage usage) internal)
  let globalView := recoveryGlobalView inner claim.kind ordinaryUsage s.recoveryPoolUsage
  let pools ← fencing (planRecovery claim.kind claim.amounts globalView scopeView tenantIndex.isSome
    s.diskPressure)
  let poolCandidate ← ofExcept (orFail (s.recoveryPoolUsage.checkedAdd pools) internal)
  let scopeCandidate ← ofExcept (orFail (usage.checkedAdd pools) internal)
  let recoveryCount ← orFence (internalAt cls) (s.outstandingRecovery.checkedAdd (Unsigned.wrap 32 1))
  let uninterruptibleCount ← countUninterruptible s claim.kind
  let classCount ← orFence (internalAt cls) ((s.classCounts cls).checkedAdd (Unsigned.wrap 32 1))
  let tenantCount ← countTenant s tenantIndex
  grantRecovery claim ⟨.recovery tenantIndex, none, some pools⟩ ⟨tenantIndex, totalCandidate,
    recoveryCandidate, tenantCandidate, poolCandidate, scopeCandidate, outstanding, recoveryCount,
    classCount, tenantCount, uninterruptibleCount⟩

/-- A release under the accounting lock. Whatever stops it has fenced the governor. -/
abbrev Releasing := EStateM PUnit GovernorState

def stopped (_ : GovernorState) : PUnit := ⟨⟩

def discount (counted : Bool) (count : U32) : Releasing (Option U32) :=
  if counted then some <$> orFence stopped (count.checkedSub (Unsigned.wrap 32 1)) else return none

def discountTenant : Releasing (Option U32) :=
  match tenantIndex with
  | none => return none
  | some index => do
    let s ← get
    some <$> orFence stopped (s.tenantOutstanding[index]? >>= fun count =>
      count.checkedSub (Unsigned.wrap 32 1))

def releaseOrdinaryUsage (tenantIndex : Nat) (pools : Option PoolCharge)
    (amounts : ResourceAmounts) : Releasing PUnit := do
  let s ← get
  let charge ← orFence stopped pools
  let tenantCandidate ← orFence stopped (s.ordinaryTenantUsage[tenantIndex]? >>= fun usage =>
    usage.checkedSub amounts)
  let tenantPoolCandidate ← orFence stopped (s.ordinaryTenantPoolUsage[tenantIndex]? >>= fun usage =>
    usage.checkedSub charge.capacities)
  let poolCandidate ← orFence stopped (s.poolUsage.checkedSub charge.capacities)
  modify fun s => { s with
    ordinaryTenantUsage := s.ordinaryTenantUsage.set tenantIndex tenantCandidate
    ordinaryTenantPoolUsage := s.ordinaryTenantPoolUsage.set tenantIndex tenantPoolCandidate
    poolUsage := poolCandidate }

def releaseScopeUsage (charge : RecoveryPoolCharge) (amounts : ResourceAmounts) : Releasing PUnit := do
  let s ← get
  match tenantIndex with
  | some index => do
    let tenantCandidate ← orFence stopped (s.recoveryTenantUsage[index]? >>= fun usage =>
      usage.checkedSub amounts)
    modify fun s => { s with recoveryTenantUsage := s.recoveryTenantUsage.set index tenantCandidate }
    let scopeCandidate ← orFence stopped (s.recoveryTenantPoolUsage[index]? >>= fun usage =>
      usage.checkedSub charge)
    modify fun s => { s with
      recoveryTenantPoolUsage := s.recoveryTenantPoolUsage.set index scopeCandidate }
  | none => do
    let scopeCandidate ← orFence stopped (s.recoverySystemPoolUsage.checkedSub charge)
    modify fun s => { s with recoverySystemPoolUsage := scopeCandidate }

def releaseRecoveryUsage (pools : Option RecoveryPoolCharge) (amounts : ResourceAmounts) : Releasing PUnit := do
  let s ← get
  let charge ← orFence stopped pools
  let recoveryCandidate ← orFence stopped (s.recoveryUsage.checkedSub amounts)
  let poolCandidate ← orFence stopped (s.recoveryPoolUsage.checkedSub charge)
  releaseScopeUsage tenantIndex charge amounts
  modify fun s => { s with recoveryUsage := recoveryCandidate, recoveryPoolUsage := poolCandidate }

def releaseUsage (owner : ChargeOwner) (amounts : ResourceAmounts) : Releasing PUnit :=
  match owner.attribution with
  | .ordinary tenantIndex => releaseOrdinaryUsage tenantIndex owner.pools amounts
  | .recovery tenantIndex => releaseRecoveryUsage tenantIndex owner.recoveryPools amounts

def releaseComponents (owner : ChargeOwner) (cls : WorkClass) (ordinary : Bool)
    (recoveryKind : Option RecoveryWorkKind) (amounts : ResourceAmounts) :
    Releasing (Except GovernorFailure ReleaseOutcome) := do
  let s ← get
  let totalCandidate ← orFence stopped (s.totalUsage.checkedSub amounts)
  let outstandingCandidate ← orFence stopped (s.outstanding.checkedSub (Unsigned.wrap 32 1))
  let classCandidate ← orFence stopped ((s.classCounts cls).checkedSub (Unsigned.wrap 32 1))
  let ordinaryCandidate ← discount ordinary s.outstandingOrdinary
  let recoveryCandidate ← discount (!ordinary) s.outstandingRecovery
  let uninterruptibleCandidate ←
    discount (recoveryKind.any (·.retainsCapacityOnResizeFailure)) s.outstandingUninterruptible
  let tenantCandidate ← discountTenant owner.attribution.tenantIndex
  releaseUsage owner amounts
  modify fun s => { s with
    totalUsage := totalCandidate
    outstanding := outstandingCandidate
    classCounts := Function.update s.classCounts cls classCandidate
    outstandingOrdinary := ordinaryCandidate.getD s.outstandingOrdinary
    outstandingRecovery := recoveryCandidate.getD s.outstandingRecovery
    outstandingUninterruptible := uninterruptibleCandidate.getD s.outstandingUninterruptible
    tenantOutstanding :=
      setTenant s.tenantOutstanding owner.attribution.tenantIndex tenantCandidate }
  let released ← get
  return if released.lifecycle = .fenced then .error .internalFenced else .ok .released

def finishSlot {ε : Type} : EStateM ε GovernorState Bool := fun s =>
  match s.grantRecords[slot]?, s.slotSignals[slot]? with
  | some (some _), some signal =>
    if signal = .free then .ok false s
    else
      let taken := { s with grantRecords := s.grantRecords.set slot none }
      if s.freeSlots.length = s.grantRecords.length then .ok false taken
      else .ok true { taken with
        slotSignals := s.slotSignals.set slot .free, freeSlots := slot :: s.freeSlots }
  | _, _ => .ok false s

section SlotSettlement

variable {ε : Type} (report : GovernorState → ε)

def finishOrFence (slot : Nat) : EStateM ε GovernorState PUnit := do
  let finished ← finishSlot slot
  orFence report (if finished then some ⟨⟩ else none)

def writeRecord (record : GrantRecord) : EStateM ε GovernorState PUnit :=
  modify fun s => { s with grantRecords := s.grantRecords.set slot (some record) }

def rootOf (rootSlot : Nat) (generation : U64) : Option GrantRecord :=
  (s.record rootSlot).filter fun root =>
    match root.operation with
    | some (.root rootGeneration _ _) => decide (rootGeneration = generation)
    | _ => false

/-- Gives up the slot of a released grant. A root with children keeps its slot; the last child of
a released root takes the root with it. -/
def settleSlot (slot : Nat) (record : GrantRecord) : EStateM ε GovernorState PUnit :=
  match record.operation with
  | none => finishOrFence report slot
  | some (.root _ _ childCount) =>
    if childCount.1 = 0 then finishOrFence report slot
    else do
      let released ← orFence report record.releasedRoot
      writeRecord slot released
  | some (.child rootSlot generation) => do
    let s ← get
    let root ← orFence report (rootOf s rootSlot generation)
    let updated ← orFence report root.decrementRootChild
    finishOrFence report slot
    if updated.2 then finishOrFence report rootSlot else writeRecord rootSlot updated.1

end SlotSettlement

def releaseSlotLocked : Releasing (Except GovernorFailure ReleaseOutcome) := do
  let s ← get
  let record ← orFence stopped (s.record slot)
  let owner ← orFence stopped record.owner
  let result ← releaseComponents owner record.kind.workClass record.kind.isOrdinary
    record.kind.recoveryKind record.amounts
  settleSlot stopped slot record
  return result

structure ReleaseStatus where
  applied : Bool
  result : Except GovernorFailure ReleaseOutcome

/-- The release of a grant by its holder. A handle that does not fit its slot fences. -/
def tryReleaseLocked (reservation : ResourceReservation) (s : GovernorState) :
    ReleaseStatus × GovernorState :=
  let identity := reservation.identity
  match s.record reservation.slot with
  | none =>
    match (releaseComponents reservation.owner identity.workClass identity.grantKind.isOrdinary
        identity.grantKind.recoveryKind reservation.amounts).run s with
    | .ok _ s' => (⟨true, .error .internalFenced⟩, s'.fence)
    | .error _ s' => (⟨false, .error .internalFenced⟩, s'.fence)
  | some record =>
    let charged := if identity.grantKind.isOrdinary then reservation.owner.pools.isSome
      else reservation.owner.recoveryPools.isSome
    if record.amounts = reservation.amounts ∧ charged then
      match (releaseSlotLocked reservation.slot).run s with
      | .ok result s' => (⟨true, result⟩, s')
      | .error _ s' => (⟨false, .error .internalFenced⟩, s')
    else (⟨false, .error .internalFenced⟩, s.fence)

variable (ledger : DropLedger)

namespace DropLedger

/-- The mark of a dropped reservation: the signal of its slot, the bit of its slot, the hint. -/
def markSignal : Option DropLedger :=
  if ledger.slotSignals[slot]? = some .active then
    some { ledger with slotSignals := ledger.slotSignals.set slot .releasePending }
  else none

def markBit : Option DropLedger :=
  ledger.pendingWords[slot / 64]?.map fun word =>
    { ledger with pendingWords := ledger.pendingWords.set (slot / 64) (word ||| .twoPow 64 (slot % 64)) }

def markHint : DropLedger := { ledger with hasPendingReleases := true }

def markFence : DropLedger := { ledger with pendingFence := true }

def markDropPending : DropLedger :=
  match ledger.markSignal slot with
  | none => ledger.markFence
  | some signalled =>
    match signalled.markBit slot with
    | none => signalled.markFence
    | some marked => marked.markHint

end DropLedger

def setBits (word : BitVec 64) : List Nat := (List.range 64).filter word.getLsbD

def drainSlot (s : GovernorState) (slot : Nat) : GovernorState :=
  if s.slotSignals[slot]? = some .releasePending then
    match (releaseSlotLocked slot).run s with
    | .ok _ s' => s'
    | .error _ s' => s'.fence
  else s.fence

def drainWord (s : GovernorState) (wordIndex : Nat) : GovernorState :=
  match s.pendingWords[wordIndex]? with
  | none => s
  | some word =>
    (setBits word).foldl (fun s bit => drainSlot s (wordIndex * 64 + bit))
      { s with pendingWords := s.pendingWords.set wordIndex 0 }

def drainPending (s : GovernorState) : GovernorState :=
  let mustScan := s.hasPendingReleases || s.pendingFence
  let s := { s with hasPendingReleases := false }
  if mustScan then (List.range s.pendingWords.length).foldl drainWord s else s

def takeFence (s : GovernorState) : GovernorState :=
  if s.pendingFence then { s.fence with pendingFence := false } else s

/-- What the holder of the accounting lock does first. -/
def lock (s : GovernorState) : GovernorState := takeFence (drainPending s)

structure ResizeOutcome where
  released : ResourceAmounts
  added : ResourceAmounts
deriving DecidableEq

inductive ResizeFailureCode where
  | invalidRequest
  | inactiveReservation
  | admissionRefused
  | internalFenced
deriving DecidableEq

inductive ExistingCapacityDisposition where
  | cancelledBeforeLimit
  | capacityRetained
  | noActiveCapacity
deriving DecidableEq

structure ResizeFailure where
  code : ResizeFailureCode
  admissionCode : Option AdmissionFailureCode
  retry : AdmissionRetry
  scope : LimitingScope
  pressure : DiskPressureState
  workClass : WorkClass
  disposition : ExistingCapacityDisposition
  limit : DecisionLimit
deriving DecidableEq

namespace ResizeFailure

def invalid (pressure : DiskPressureState) : ResizeFailure :=
  ⟨.invalidRequest, none, .never, .policy, pressure, cls, .capacityRetained, .none⟩

def inactive (pressure : DiskPressureState) : ResizeFailure :=
  ⟨.inactiveReservation, none, .never, .internal, pressure, cls, .noActiveCapacity, .none⟩

def admission (failure : AdmissionFailure) (disposition : ExistingCapacityDisposition) :
    ResizeFailure :=
  ⟨if failure.code = .internalFenced then .internalFenced else .admissionRefused, some failure.code,
    failure.retry, failure.scope, failure.pressure, failure.workClass, disposition, failure.limit⟩

def admissionFailure (failure : ResizeFailure) : Option AdmissionFailure :=
  failure.admissionCode.map fun code =>
    ⟨code, failure.retry, failure.scope, failure.workClass, failure.pressure, failure.limit⟩

end ResizeFailure

structure ResizeRequest where
  slot : Nat
  owner : ChargeOwner
  identity : ReservationIdentity
  old : ResourceAmounts
  new : ResourceAmounts
  preserveExisting : Bool

structure ResizeCommit where
  owner : ChargeOwner
  outcome : ResizeOutcome

abbrev Resizing := EStateM ResizeFailure GovernorState

def resizeOutcome (old new : ResourceAmounts) : ResizeOutcome :=
  ⟨old.excessOver new, new.excessOver old⟩

def retainedResize (pressure : DiskPressureState) : ResizeFailure :=
  .admission (internalFailureAtPressure cls pressure) .capacityRetained

def retainedAt (s : GovernorState) : ResizeFailure :=
  retainedResize cls s.diskPressure

def replaceSlotRecord (owner : ChargeOwner) (identity : ReservationIdentity)
    (amounts : ResourceAmounts) : Resizing Bool := fun s =>
  if s.slotSignals[slot]? = some .active then
    match (s.record slot).bind fun current => current.replaced owner identity amounts with
    | some replacement =>
      .ok true { s with grantRecords := s.grantRecords.set slot (some replacement) }
    | none => .ok false s
  else .ok false s

def operationOf (s : AccountingState) (slot : Nat) : Option OperationToken := do
  let record ← s.record slot
  match record.operation with
  | some (.root ..) => record.rootToken inner.authority slot
  | some (.child rootSlot generation) => do
    let root ← s.record rootSlot
    (root.rootToken inner.authority rootSlot).filter fun token => decide (token.generation = generation)
  | none => none

def refusePrincipalResizeLimit (s : AccountingState) (tenantIndex : Nat)
    (principal : Option PrincipalId) (excluded : Nat) (cls : WorkClass) (requested : ResourceAmounts) :
    Except AdmissionFailure Unit :=
  match principal, inner.principalQuota with
  | some principal, some quota => do
    let (_, usage) ← principalUsageExcluding s tenantIndex principal (some excluded) cls
    let operationUsage ← operationUsageOf s (operationOf inner s excluded) (some excluded) cls
    refusePrincipalCeilings quota s cls operationUsage usage requested
  | _, _ => .ok ⟨⟩

structure OrdinaryResizeView where
  totalWithout : ResourceAmounts
  tenantWithout : ResourceAmounts
  poolWithout : PoolCapacities
  tenantPoolWithout : PoolCapacities

structure TenantResizeLimits where
  recoverySharedUsage : ResourceAmounts
  tenantLimit : ResourceAmounts
  recoverySharedLimit : ResourceAmounts
  tenantCapacity : PoolCapacities

def tenantResizeLimits (tenantIndex : Nat) : Option TenantResizeLimits := do
  let recoveryUsage ← s.recoveryTenantPoolUsage[tenantIndex]?
  let tenantLimit ← s.tenantLimits[tenantIndex]?
  let recoverySharedLimit ← s.recoveryTenantSharedFair[tenantIndex]?
  let tenantCapacity ← s.tenantFairCapacities[tenantIndex]?
  return ⟨recoveryUsage.shared, tenantLimit, recoverySharedLimit, tenantCapacity⟩

def planOrdinaryResize (s : AccountingState) (cls : WorkClass)
    (new : ResourceAmounts) (view : OrdinaryResizeView) (limits : TenantResizeLimits) :
    Except AdmissionFailure PoolCharge := do
  demand (s.lifecycle ≠ .shuttingDown) (shutdownFailure cls s.diskPressure)
  let ordinaryWithout ← orFail (view.totalWithout.checkedSub s.recoveryUsage)
    (internalFailureAtPressure cls s.diskPressure)
  refuseOrdinaryCapacity cls new
    ⟨ordinaryWithout, s.recoveryPoolUsage.shared, inner.ordinaryCeiling, inner.totalCeiling, s.diskPressure⟩
  refuseExceeded .tenantQuotaExceeded .tenant cls view.tenantWithout new limits.tenantLimit s.diskPressure
  refuseTenantRecoverySharedFairShare cls view.tenantWithout limits.recoverySharedUsage new
    limits.recoverySharedLimit s.diskPressure
  let shared ← pressureEligibility s.diskPressure cls new
  planPoolCharge cls new
    ⟨inner.poolCapacities, view.poolWithout, limits.tenantCapacity, view.tenantPoolWithout⟩
    s.diskPressure shared

def refuseDiskGrowth (cls : WorkClass) (totalWithout old new : ResourceAmounts) : Except AdmissionFailure Unit :=
  if old.value .diskHeadroomBytes < new.value .diskHeadroomBytes then
    refuseLiveDiskGrowth cls totalWithout new s.usableDiskBytes s.diskPressure
  else .ok ⟨⟩

def ReservationIdentity.principal : ReservationIdentity → Option PrincipalId
  | .ordinary _ principal _ => principal
  | .recovery _ _ => none

def planOrdinaryGrowth (s : AccountingState) (request : ResizeRequest)
    (tenantIndex : Nat) (cls : WorkClass) (view : OrdinaryResizeView) :
    Except AdmissionFailure PoolCharge := do
  refusePrincipalResizeLimit inner s tenantIndex request.identity.principal request.slot cls request.new
  refuseDiskGrowth s cls view.totalWithout request.old request.new
  let limits ← orFail (tenantResizeLimits s tenantIndex) (internalFailureAtPressure cls s.diskPressure)
  planOrdinaryResize inner s cls request.new view limits

/-- A shrinking grant keeps its pools; a growing one is planned anew. -/
def planOrdinaryReplacement (s : AccountingState) (request : ResizeRequest)
    (oldPools : PoolCharge) (tenantIndex : Nat) (cls : WorkClass) (view : OrdinaryResizeView) :
    Except ResizeFailure PoolCharge :=
  if request.new.isAtMost request.old then
    orFail (oldPools.shrinkTo request.new) (retainedResize cls s.diskPressure)
  else
    match planOrdinaryGrowth inner s request tenantIndex cls view with
    | .ok charge => .ok charge
    | .error failure => .error (.admission failure
        (if request.preserveExisting then .capacityRetained else .cancelledBeforeLimit))

variable (request : ResizeRequest)

def cancelOrdinary (tenantIndex : Nat) (cls : WorkClass) (view : OrdinaryResizeView) : Resizing PUnit := do
  let s ← get
  let outstanding ← orFence (retainedAt cls) (s.outstanding.checkedSub (Unsigned.wrap 32 1))
  let ordinary ← orFence (retainedAt cls) (s.outstandingOrdinary.checkedSub (Unsigned.wrap 32 1))
  let tenantCount ← orFence (retainedAt cls) (s.tenantOutstanding[tenantIndex]? >>= fun count =>
    count.checkedSub (Unsigned.wrap 32 1))
  let classCount ← orFence (retainedAt cls) ((s.classCounts cls).checkedSub (Unsigned.wrap 32 1))
  modify (commitOrdinary ⟨tenantIndex, cls, view.totalWithout, view.tenantWithout, view.poolWithout,
    view.tenantPoolWithout, outstanding, ordinary, classCount, tenantCount⟩)
  let s ← get
  let record ← orFence (retainedAt cls) (s.record request.slot)
  settleSlot (retainedAt cls) request.slot record

def commitReplacement (owner : ChargeOwner) (cls : WorkClass) : Resizing ResizeCommit := do
  let replaced ← replaceSlotRecord request.slot owner request.identity request.new
  orFence (retainedAt cls) (if replaced then some ⟨⟩ else none)
  return ⟨owner, resizeOutcome request.old request.new⟩

def replaceOrdinary (tenantIndex : Nat) (cls : WorkClass)
    (view : OrdinaryResizeView) (newPools : PoolCharge) : Resizing ResizeCommit := do
  let totalCandidate ← orFence (retainedAt cls) (view.totalWithout.checkedAdd request.new)
  let tenantCandidate ← orFence (retainedAt cls) (view.tenantWithout.checkedAdd request.new)
  let poolCandidate ← orFence (retainedAt cls) (view.poolWithout.checkedAdd newPools.capacities)
  let tenantPoolCandidate ← orFence (retainedAt cls) (view.tenantPoolWithout.checkedAdd newPools.capacities)
  modify fun s => { s with
    ordinaryTenantUsage := s.ordinaryTenantUsage.set tenantIndex tenantCandidate
    ordinaryTenantPoolUsage := s.ordinaryTenantPoolUsage.set tenantIndex tenantPoolCandidate
    totalUsage := totalCandidate
    poolUsage := poolCandidate }
  commitReplacement request ⟨request.owner.attribution, some newPools, none⟩ cls

/-- A refused replacement: the grant is cancelled, or kept and corruption fenced. -/
def disposeRefused (failure : ResizeFailure) (preserveExisting : Bool) (cancel : Resizing PUnit) :
    Resizing PUnit :=
  if failure.code = .admissionRefused ∧ preserveExisting = false then cancel
  else modify fun s => if failure.code = .internalFenced then s.fence else s

def settleRefusal (failure : ResizeFailure) (preserveExisting : Bool) (cancel : Resizing PUnit) :
    Resizing ResizeCommit := do
  disposeRefused failure preserveExisting cancel
  throw failure

def resizeOrdinaryLocked (tenantIndex : Nat) (cls : WorkClass) : Resizing ResizeCommit := do
  let s ← get
  require (s.lifecycle ≠ .fenced) (retainedResize cls s.diskPressure)
  let oldPools ← orFence (retainedAt cls) request.owner.pools
  let totalWithout ← orFence (retainedAt cls) (s.totalUsage.checkedSub request.old)
  let tenantWithout ← orFence (retainedAt cls) (s.ordinaryTenantUsage[tenantIndex]? >>= fun usage =>
    usage.checkedSub request.old)
  let poolWithout ← orFence (retainedAt cls) (s.poolUsage.checkedSub oldPools.capacities)
  let tenantPoolWithout ← orFence (retainedAt cls) (s.ordinaryTenantPoolUsage[tenantIndex]? >>=
    fun usage => usage.checkedSub oldPools.capacities)
  let view : OrdinaryResizeView := ⟨totalWithout, tenantWithout, poolWithout, tenantPoolWithout⟩
  match planOrdinaryReplacement inner s request oldPools tenantIndex cls view with
  | .ok newPools => replaceOrdinary request tenantIndex cls view newPools
  | .error failure =>
    settleRefusal failure request.preserveExisting (cancelOrdinary request tenantIndex cls view)

structure RecoveryResizeView where
  totalWithout : ResourceAmounts
  recoveryWithout : ResourceAmounts
  ordinaryUsage : ResourceAmounts
  poolWithout : RecoveryPoolUsage
  scopeWithout : RecoveryPoolUsage
  tenantWithout : Option ResourceAmounts

/-- The quota bounds the ordinary and the recovery work of a tenant together. -/
def refuseCombinedQuota (tenantWithout : Option ResourceAmounts) (new : ResourceAmounts) :
    Except AdmissionFailure Unit :=
  let cls := WorkClass.durabilityRecovery
  match tenantIndex, tenantWithout with
  | some index, some recoveryWithout => do
    let internal := internalFailureAtPressure cls s.diskPressure
    let ordinary ← orFail s.ordinaryTenantUsage[index]? internal
    let quota ← orFail s.tenantQuotas[index]? internal
    let combinedWithout ← orFail (ordinary.checkedAdd recoveryWithout) internal
    refuseExceeded .tenantQuotaExceeded .tenant cls combinedWithout new quota.limits s.diskPressure
  | _, _ => .ok ⟨⟩

def planRecoveryReplacement (s : AccountingState) (request : ResizeRequest)
    (tenantIndex : Option Nat) (kind : RecoveryWorkKind) (view : RecoveryResizeView) :
    Except AdmissionFailure RecoveryPoolCharge := do
  let cls := WorkClass.durabilityRecovery
  demand (s.lifecycle ≠ .shuttingDown ∨ kind.retainsCapacityOnResizeFailure ∨
    request.new.isAtMost request.old) (shutdownFailure cls s.diskPressure)
  refuseDiskGrowth s cls view.totalWithout request.old request.new
  refuseCombinedQuota s tenantIndex view.tenantWithout request.new
  let scopeView ← orFail (recoveryScopeView inner s tenantIndex kind view.ordinaryUsage view.scopeWithout)
    (internalFailureAtPressure cls s.diskPressure)
  let charge ← planRecovery kind request.new
    (recoveryGlobalView inner kind view.ordinaryUsage view.poolWithout) scopeView tenantIndex.isSome
    s.diskPressure
  refuseExceeded .recoveryReserveExhausted .recoveryReserve cls view.totalWithout request.new
    inner.totalCeiling s.diskPressure
  return charge

def tenantUsageWithout (old : ResourceAmounts) : Option (Option ResourceAmounts) :=
  match tenantIndex with
  | none => some none
  | some index => some <$> (s.recoveryTenantUsage[index]? >>= fun usage => usage.checkedSub old)

def tenantUsageWith (without : Option ResourceAmounts) (new : ResourceAmounts) :
    Option (Option ResourceAmounts) :=
  match without with
  | none => some none
  | some usage => some <$> usage.checkedAdd new

def tenantCountWithout : Option (Option U32) :=
  match tenantIndex with
  | none => some none
  | some index => some <$> (s.tenantOutstanding[index]? >>= fun count =>
      count.checkedSub (Unsigned.wrap 32 1))

def cancelRecovery (tenantIndex : Option Nat) (view : RecoveryResizeView) : Resizing PUnit := do
  let report := retainedAt .durabilityRecovery
  let s ← get
  let outstanding ← orFence report (s.outstanding.checkedSub (Unsigned.wrap 32 1))
  let recoveryCount ← orFence report (s.outstandingRecovery.checkedSub (Unsigned.wrap 32 1))
  let tenantCount ← orFence report (tenantCountWithout s tenantIndex)
  let classCount ← orFence report ((s.classCounts .durabilityRecovery).checkedSub (Unsigned.wrap 32 1))
  modify (commitRecovery ⟨tenantIndex, view.totalWithout, view.recoveryWithout, view.tenantWithout,
    view.poolWithout, view.scopeWithout, outstanding, recoveryCount, classCount, tenantCount, none⟩)
  finishOrFence report request.slot

def replaceRecovery (tenantIndex : Option Nat) (view : RecoveryResizeView)
    (recoveryCandidate : ResourceAmounts) (tenantCandidate : Option ResourceAmounts)
    (newPools : RecoveryPoolCharge) : Resizing ResizeCommit := do
  let report := retainedAt .durabilityRecovery
  let totalCandidate ← orFence report (view.totalWithout.checkedAdd request.new)
  let poolCandidate ← orFence report (view.poolWithout.checkedAdd newPools)
  let scopeCandidate ← orFence report (view.scopeWithout.checkedAdd newPools)
  modify fun s => { s with
    totalUsage := totalCandidate
    recoveryUsage := recoveryCandidate
    recoveryPoolUsage := poolCandidate
    recoveryTenantUsage := setTenant s.recoveryTenantUsage tenantIndex tenantCandidate
    recoveryTenantPoolUsage := setTenant s.recoveryTenantPoolUsage tenantIndex (some scopeCandidate)
    recoverySystemPoolUsage :=
      if tenantIndex.isNone then scopeCandidate else s.recoverySystemPoolUsage }
  commitReplacement request ⟨.recovery tenantIndex, none, some newPools⟩ .durabilityRecovery

/-- A refused replacement of recovery work. Corruption met while planning does not fence here. -/
def settleRecoveryRefusal (failure : AdmissionFailure) (retain : Bool) (cancel : Resizing PUnit) :
    Resizing ResizeCommit := do
  let disposal : Resizing PUnit := if retain then pure ⟨⟩ else cancel
  disposal
  throw (.admission failure (if retain then .capacityRetained else .cancelledBeforeLimit))

def resizeRecoveryLocked (tenantIndex : Option Nat) (kind : RecoveryWorkKind) : Resizing ResizeCommit := do
  let report := retainedAt .durabilityRecovery
  let s ← get
  require (s.lifecycle ≠ .fenced) (report s)
  let oldPools ← orFence report request.owner.recoveryPools
  let totalWithout ← orFence report (s.totalUsage.checkedSub request.old)
  let recoveryWithout ← orFence report (s.recoveryUsage.checkedSub request.old)
  let ordinaryUsage ← orFence report (totalWithout.checkedSub recoveryWithout)
  let recoveryCandidate ← orFence report (recoveryWithout.checkedAdd request.new)
  let poolWithout ← orFence report (s.recoveryPoolUsage.checkedSub oldPools)
  let scopeWithout ← orFence report (scopeUsage s tenantIndex >>= fun usage =>
    usage.checkedSub oldPools)
  let tenantWithout ← orFence report (tenantUsageWithout s tenantIndex request.old)
  let tenantCandidate ← orFence report (tenantUsageWith tenantWithout request.new)
  let view : RecoveryResizeView :=
    ⟨totalWithout, recoveryWithout, ordinaryUsage, poolWithout, scopeWithout, tenantWithout⟩
  match planRecoveryReplacement inner s request tenantIndex kind view with
  | .ok newPools =>
    replaceRecovery request tenantIndex view recoveryCandidate tenantCandidate newPools
  | .error failure =>
    settleRecoveryRefusal failure (request.preserveExisting || kind.retainsCapacityOnResizeFailure)
      (cancelRecovery request tenantIndex view)

/-- The replacement of a grant by the rules of its work. A handle whose identity and charge do not
agree is refused before the lock is taken. -/
def resizeLocked : Option (Resizing ResizeCommit) :=
  match request.identity, request.owner.attribution with
  | .ordinary _ _ kind, .ordinary tenantIndex =>
    some (resizeOrdinaryLocked inner request tenantIndex kind.workClass)
  | .recovery _ kind, .recovery tenantIndex =>
    some (resizeRecoveryLocked inner request tenantIndex kind)
  | _, _ => none

end Positron.Governor
