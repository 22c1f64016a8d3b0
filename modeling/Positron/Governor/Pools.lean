import Positron.Domain
import Positron.Lib.Checks
import Positron.Lib.Enumeration

/-! Resource vectors, the kinds of work the governor admits, and the fixed partitions of capacity: one pool
shared by all ordinary work, and protected pools for each class and each kind of recovery work. -/

namespace Positron.Governor
open MachineInt Enumeration Unsigned Option

inductive ResourceDimension where
  | memoryBytes
  | queueSlots
  | taskSlots
  | bufferCacheBytes
  | batchItems
  | leaseSlots
  | retrySlots
  | ioPermits
  | cpuWorkUnits
  | fileDescriptors
  | diskHeadroomBytes
deriving DecidableEq

instance : Listed ResourceDimension where
  all := [.memoryBytes, .queueSlots, .taskSlots, .bufferCacheBytes, .batchItems, .leaseSlots,
    .retrySlots, .ioPermits, .cpuWorkUnits, .fileDescriptors, .diskHeadroomBytes]
  mem_all := by intro d; cases d <;> simp

@[ext] structure ResourceAmounts where
  get : ResourceDimension → U64

variable (amounts : ResourceAmounts) (d : ResourceDimension)

namespace ResourceAmounts

variable {a b : ResourceAmounts}

instance : DecidableEq ResourceAmounts := fun a b =>
  decidable_of_iff (∀ d, a.get d = b.get d) ⟨fun h => ResourceAmounts.ext (funext h), fun h d => by rw [h]⟩

def value : Nat := (amounts.get d).1

def zero : ResourceAmounts := ⟨fun _ => Unsigned.zero 64⟩

def uniform (amount : U64) : ResourceAmounts := ⟨fun _ => amount⟩

def withAmount (amount : U64) : ResourceAmounts := ⟨Function.update amounts.get d amount⟩

def allPositive : Prop := ∀ d, 0 < amounts.value d

def isEmpty : Prop := ∀ d, amounts.value d = 0

def isAtMost (amounts other : ResourceAmounts) : Prop := ∀ d, amounts.value d ≤ other.value d

instance : DecidablePred allPositive := fun a => inferInstanceAs (Decidable (∀ d, 0 < a.value d))

instance : DecidablePred isEmpty := fun a => inferInstanceAs (Decidable (∀ d, a.value d = 0))

instance : DecidableRel isAtMost := fun a b =>
  inferInstanceAs (Decidable (∀ d, a.value d ≤ b.value d))

def zipMap (operation : U64 → U64 → U64) (a b : ResourceAmounts) : ResourceAmounts :=
  ⟨fun d => operation (a.get d) (b.get d)⟩

def tryZipMap (operation : U64 → U64 → Option U64) (a b : ResourceAmounts) :
    Option ResourceAmounts :=
  (gather fun d => operation (a.get d) (b.get d)).map .mk

def minimum (a b : ResourceAmounts) : ResourceAmounts := zipMap min a b

def checkedAdd (a b : ResourceAmounts) : Option ResourceAmounts := tryZipMap Unsigned.checkedAdd a b

def checkedSub (a b : ResourceAmounts) : Option ResourceAmounts := tryZipMap Unsigned.checkedSub a b

def excessOver (a floor : ResourceAmounts) : ResourceAmounts :=
  zipMap (fun x y => ⟨x.1 - y.1, by have := x.2; omega⟩) a floor

theorem value_lt : amounts.value d < 2 ^ 64 :=
  (amounts.get d).2

@[simp] theorem value_zero : zero.value d = 0 := rfl

variable {operation : U64 → U64 → Option U64}

theorem tryZipMap_eq_some_iff {a b c : ResourceAmounts} :
    tryZipMap operation a b = some c ↔ ∀ d, operation (a.get d) (b.get d) = some (c.get d) := by
  unfold tryZipMap
  rw [Option.map_eq_some_iff]
  constructor
  · rintro ⟨table, htable, rfl⟩
    exact gather_eq_some_iff.mp htable
  · intro h
    exact ⟨c.get, gather_eq_some_iff.mpr h, rfl⟩

theorem tryZipMap_eq_none_iff : tryZipMap operation a b = none ↔ ∃ d, operation (a.get d) (b.get d) = none := by
  unfold tryZipMap
  rw [Option.map_eq_none_iff, gather_eq_none_iff]

theorem checkedAdd_eq_some_iff {a b c : ResourceAmounts} :
    a.checkedAdd b = some c ↔ ∀ d, c.value d = a.value d + b.value d := by
  unfold checkedAdd
  rw [tryZipMap_eq_some_iff]
  exact forall_congr' fun d => Unsigned.checkedAdd_eq_some_iff

theorem checkedAdd_eq_none_iff : a.checkedAdd b = none ↔ ∃ d, 2 ^ 64 ≤ a.value d + b.value d := by
  unfold checkedAdd
  rw [tryZipMap_eq_none_iff]
  exact exists_congr fun d => Unsigned.checkedAdd_eq_none_iff

theorem checkedSub_eq_some_iff {a b c : ResourceAmounts} :
    a.checkedSub b = some c ↔ ∀ d, c.value d + b.value d = a.value d := by
  unfold checkedSub
  rw [tryZipMap_eq_some_iff]
  apply forall_congr'
  intro d
  rw [Unsigned.checkedSub_eq_some_iff]
  unfold value
  omega

theorem checkedSub_eq_none_iff : a.checkedSub b = none ↔ ∃ d, a.value d < b.value d := by
  unfold checkedSub
  rw [tryZipMap_eq_none_iff]
  exact exists_congr fun d => Unsigned.checkedSub_eq_none_iff

theorem checkedAdd_of_lt (h : ∀ d, a.value d + b.value d < 2 ^ 64) : ∃ c, a.checkedAdd b = some c := by
  rw [← Option.ne_none_iff_exists', ne_eq, checkedAdd_eq_none_iff, not_exists]
  exact fun d => Nat.not_le.mpr (h d)

theorem checkedSub_of_le (h : ∀ d, b.value d ≤ a.value d) : ∃ c, a.checkedSub b = some c := by
  rw [← Option.ne_none_iff_exists', ne_eq, checkedSub_eq_none_iff, not_exists]
  exact fun d => Nat.not_lt.mpr (h d)

end ResourceAmounts

structure PrincipalId where
  id : Identifier
deriving DecidableEq

inductive WorkClass where
  | durabilityRecovery
  | securityLifecycle
  | ingest
  | interactiveQueryTail
  | ordinaryMaintenanceBackup
deriving DecidableEq

instance : Listed WorkClass where
  all := [.durabilityRecovery, .securityLifecycle, .ingest, .interactiveQueryTail, .ordinaryMaintenanceBackup]
  mem_all := by intro c; cases c <;> simp

inductive WorkKind where
  | securityLifecycle
  | ingest
  | interactiveQueryTail
  | ordinaryMaintenanceBackup
deriving DecidableEq

def WorkKind.workClass : WorkKind → WorkClass
  | .securityLifecycle => .securityLifecycle
  | .ingest => .ingest
  | .interactiveQueryTail => .interactiveQueryTail
  | .ordinaryMaintenanceBackup => .ordinaryMaintenanceBackup

inductive RecoveryWorkKind where
  | durabilityCompletion
  | retention
  | emergencyCompaction
  | purge
  | repair
  | fencing
  | safeShutdown
deriving DecidableEq

instance : Listed RecoveryWorkKind where
  all := [.durabilityCompletion, .retention, .emergencyCompaction, .purge, .repair, .fencing, .safeShutdown]
  mem_all := by intro k; cases k <;> simp

namespace RecoveryWorkKind

def permitsSystemScope : RecoveryWorkKind → Bool
  | .retention | .purge => false
  | _ => true

def permitsTenantScope : RecoveryWorkKind → Bool
  | .fencing | .safeShutdown => false
  | _ => true

def retainsCapacityOnResizeFailure : RecoveryWorkKind → Bool
  | .durabilityCompletion | .safeShutdown => true
  | _ => false

end RecoveryWorkKind

inductive RecoveryScope where
  | system
  | tenant (tenant : TenantId)
deriving DecidableEq

/-- The capability to add work to one live authenticated operation. `authority` identifies the
governor that issued it. -/
structure OperationToken where
  authority : Nat
  rootSlot : Nat
  generation : U64
  tenant : TenantId
  principal : PrincipalId
  kind : WorkKind
deriving DecidableEq

/-- A request to begin tenant work. Work of no amount is not requested, and work added to an operation
is work of the operation's tenant, principal and class. -/
structure WorkClaim where
  tenant : TenantId
  principal : Option PrincipalId
  kind : WorkKind
  amounts : ResourceAmounts
  operation : Option OperationToken
  nonempty : ¬ amounts.isEmpty
  coherent : ∀ token ∈ operation, tenant = token.tenant ∧ principal = some token.principal ∧
    kind.workClass = token.kind.workClass

structure RecoveryWorkClaim where
  scope : RecoveryScope
  kind : RecoveryWorkKind
  amounts : ResourceAmounts
  nonempty : ¬ amounts.isEmpty
  permitted : match scope with
    | .system => kind.permitsSystemScope
    | .tenant _ => kind.permitsTenantScope

inductive DiskPressureState where
  | healthy
  | softPressure
  | hardPressure
deriving DecidableEq

inductive GovernorLifecycle where
  | opened
  | shuttingDown
  | fenced
deriving DecidableEq

inductive AdmissionFailureCode where
  | capacityExhausted
  | tenantQuotaExceeded
  | principalQuotaExceeded
  | unregisteredTenant
  | outstandingReservationLimit
  | protectedCapacityUnavailable
  | classCapacityUnavailable
  | tenantFairShareExceeded
  | capacityOccupiedByRecovery
  | diskPressureAdmissionRefused
  | recoveryReserveExhausted
  | shuttingDown
  | internalFenced
  | governorContended
deriving DecidableEq

instance : Listed AdmissionFailureCode where
  all := [.capacityExhausted, .tenantQuotaExceeded, .principalQuotaExceeded, .unregisteredTenant,
    .outstandingReservationLimit, .protectedCapacityUnavailable, .classCapacityUnavailable,
    .tenantFairShareExceeded, .capacityOccupiedByRecovery, .diskPressureAdmissionRefused,
    .recoveryReserveExhausted, .shuttingDown, .internalFenced, .governorContended]
  mem_all := by intro c; cases c <;> simp

inductive AdmissionRetry where
  | afterCapacityRelease
  | afterPressureTransition
  | afterExternalCorrection
  | never
deriving DecidableEq

inductive LimitingScope where
  | global
  | tenant
  | principal
  | operation
  | recoveryReserve
  | protectedReserve
  | outstandingReservations
  | classHeadroom
  | tenantFairShare
  | recoveryOccupancy
  | policy
  | internal
deriving DecidableEq

/-- The limit a refusal reports: the dimension it concerns, if any, and the numbers compared. -/
structure DecisionLimit where
  dimension : Option ResourceDimension
  allowed : Nat
  inUse : Nat
  requested : Nat
deriving DecidableEq

def DecisionLimit.none : DecisionLimit := ⟨Option.none, 0, 0, 0⟩

structure AdmissionFailure where
  code : AdmissionFailureCode
  retry : AdmissionRetry
  scope : LimitingScope
  workClass : WorkClass
  pressure : DiskPressureState
  limit : DecisionLimit
deriving DecidableEq

inductive GovernorFailure where
  | invalidConfiguration
  | policyCardinalityExceeded
  | bootstrapInventoryUnavailable (required : ResourceAmounts)
  | insufficientOutstandingProgress (configured required : Nat)
  | tenantProgressUnavailable (tenant : TenantId) (workClass : WorkClass)
      (dimension : ResourceDimension)
  | systemRecoveryProgressUnavailable (kind : RecoveryWorkKind) (dimension : ResourceDimension)
  | governorContended (pressure : DiskPressureState)
  | internalFenced
deriving DecidableEq

inductive ReleaseOutcome where
  | released
  | alreadyInactive
deriving DecidableEq

inductive OrdinaryPool where
  | shared
  | securityLifecycle
  | ingest
  | interactiveQueryTail
  | ordinaryMaintenanceBackup
deriving DecidableEq

instance : Listed OrdinaryPool where
  all := [.shared, .securityLifecycle, .ingest, .interactiveQueryTail, .ordinaryMaintenanceBackup]
  mem_all := by intro p; cases p <;> simp

def OrdinaryPool.forClass : WorkClass → Option OrdinaryPool
  | .durabilityRecovery => none
  | .securityLifecycle => some .securityLifecycle
  | .ingest => some .ingest
  | .interactiveQueryTail => some .interactiveQueryTail
  | .ordinaryMaintenanceBackup => some .ordinaryMaintenanceBackup

@[ext] structure PoolCapacities where
  get : OrdinaryPool → ResourceAmounts

/-- `floor(capacity * weight / totalWeight)`, computed in 128 bits. -/
def weightedFloor (capacity : U64) (weight : U16) (totalWeight : U64) : Option U64 :=
  if totalWeight.1 = 0 then none else Unsigned.ofNat? 64 (capacity.1 * weight.1 / totalWeight.1)

def weightedAmounts (total : ResourceAmounts) (weight : U16) (totalWeight : U64) :
    Option ResourceAmounts :=
  (gather fun d => weightedFloor (total.get d) weight totalWeight).map .mk

namespace PoolCapacities

instance : DecidableEq PoolCapacities := fun a b =>
  decidable_of_iff (∀ p, a.get p = b.get p) ⟨fun h => PoolCapacities.ext (funext h), fun h p => by rw [h]⟩

def value (pools : PoolCapacities) (p : OrdinaryPool) (d : ResourceDimension) : Nat :=
  (pools.get p).value d

def zero : PoolCapacities := ⟨fun _ => .zero⟩

def withPool (pools : PoolCapacities) (p : OrdinaryPool) (amounts : ResourceAmounts) :
    PoolCapacities := ⟨Function.update pools.get p amounts⟩

def checkedAdd (a b : PoolCapacities) : Option PoolCapacities :=
  (gather fun p => (a.get p).checkedAdd (b.get p)).map .mk

def checkedSub (a b : PoolCapacities) : Option PoolCapacities :=
  (gather fun p => (a.get p).checkedSub (b.get p)).map .mk

def fairShare (pools : PoolCapacities) (weight : U16) (totalWeight : U64) : Option PoolCapacities :=
  if weight.1 = 0 ∨ totalWeight.1 = 0 ∨ totalWeight.1 < weight.1 then none
  else (gather fun p => weightedAmounts (pools.get p) weight totalWeight).map .mk

theorem value_lt (pools : PoolCapacities) (p : OrdinaryPool) (d : ResourceDimension) :
    pools.value p d < 2 ^ 64 := (pools.get p).value_lt d

@[simp] theorem value_zero (p : OrdinaryPool) (d : ResourceDimension) : zero.value p d = 0 := rfl

theorem value_withPool (pools : PoolCapacities) (p q : OrdinaryPool) (amounts : ResourceAmounts)
    (d : ResourceDimension) :
    (pools.withPool p amounts).value q d = if q = p then amounts.value d else pools.value q d := by
  simp only [value, withPool, Function.update_apply]
  split <;> rfl

theorem map_gather_eq_some_iff {f : OrdinaryPool → Option ResourceAmounts} {c : PoolCapacities} :
    (gather f).map PoolCapacities.mk = some c ↔ ∀ p, f p = some (c.get p) := by
  rw [map_eq_some_iff]
  constructor
  · rintro ⟨table, htable, rfl⟩
    exact gather_eq_some_iff.mp htable
  · intro h
    exact ⟨c.get, gather_eq_some_iff.mpr h, rfl⟩

variable {a b c : PoolCapacities}

theorem checkedAdd_eq_some_iff : a.checkedAdd b = some c ↔ ∀ p d, c.value p d = a.value p d + b.value p d := by
  unfold checkedAdd
  rw [map_gather_eq_some_iff]
  exact forall_congr' fun p => ResourceAmounts.checkedAdd_eq_some_iff

theorem checkedSub_eq_some_iff : a.checkedSub b = some c ↔ ∀ p d, c.value p d + b.value p d = a.value p d := by
  unfold checkedSub
  rw [map_gather_eq_some_iff]
  exact forall_congr' fun p => ResourceAmounts.checkedSub_eq_some_iff

theorem checkedAdd_of_lt {a b : PoolCapacities} (h : ∀ p d, a.value p d + b.value p d < 2 ^ 64) :
    ∃ c, a.checkedAdd b = some c := by
  choose c hc using fun p => ResourceAmounts.checkedAdd_of_lt (h p)
  exact ⟨⟨c⟩, map_gather_eq_some_iff.mpr hc⟩

theorem checkedSub_of_le {a b : PoolCapacities} (h : ∀ p d, b.value p d ≤ a.value p d) :
    ∃ c, a.checkedSub b = some c := by
  choose c hc using fun p => ResourceAmounts.checkedSub_of_le (h p)
  exact ⟨⟨c⟩, map_gather_eq_some_iff.mpr hc⟩

end PoolCapacities

variable {totalWeight : U64} {weight : U16}

theorem weightedFloor_eq_some {capacity share : U64}
    (h : weightedFloor capacity weight totalWeight = some share) :
    0 < totalWeight.1 ∧ share.1 = capacity.1 * weight.1 / totalWeight.1 := by
  unfold weightedFloor at h
  split at h
  · cases h
  · exact ⟨by omega, ofNat?_eq_some_iff.mp h⟩

theorem weightedAmounts_value {total share : ResourceAmounts}
    (h : weightedAmounts total weight totalWeight = some share) (d : ResourceDimension) :
    share.value d = total.value d * weight.1 / totalWeight.1 := by
  obtain ⟨table, htable, rfl⟩ := map_eq_some_iff.mp h
  exact (weightedFloor_eq_some (gather_eq_some_iff.mp htable d)).2

theorem PoolCapacities.fairShare_value {pools share : PoolCapacities}
    (h : pools.fairShare weight totalWeight = some share) (p : OrdinaryPool) (d : ResourceDimension) :
    share.value p d = pools.value p d * weight.1 / totalWeight.1 := by
  unfold fairShare at h
  split at h
  · cases h
  · exact weightedAmounts_value (map_gather_eq_some_iff.mp h p) d

structure PoolCharge where
  classPool : OrdinaryPool
  shared : ResourceAmounts
  protectedPart : ResourceAmounts
deriving DecidableEq

namespace PoolCharge

variable {charge : PoolCharge} {new : ResourceAmounts}

def capacities (charge : PoolCharge) : PoolCapacities :=
  (PoolCapacities.zero.withPool .shared charge.shared).withPool charge.classPool charge.protectedPart

def shrinkDimension (charge : PoolCharge) (new : ResourceAmounts) (d : ResourceDimension) :
    Option (U64 × U64) := do
  let keptShared := min (charge.shared.get d) (new.get d)
  let keptProtected ← (new.get d).checkedSub keptShared
  if (charge.protectedPart.get d).1 < keptProtected.1 then none else some (keptShared, keptProtected)

def shrinkTo (charge : PoolCharge) (new : ResourceAmounts) : Option PoolCharge :=
  (gather fun d => charge.shrinkDimension new d).map fun parts =>
    ⟨charge.classPool, ⟨fun d => (parts d).1⟩, ⟨fun d => (parts d).2⟩⟩

theorem value_capacities (charge : PoolCharge) (p : OrdinaryPool) (d : ResourceDimension) :
    charge.capacities.value p d = if p = charge.classPool then charge.protectedPart.value d
      else if p = .shared then charge.shared.value d else 0 := by
  unfold capacities
  rw [PoolCapacities.value_withPool, PoolCapacities.value_withPool, PoolCapacities.value_zero]

variable {d : ResourceDimension}

theorem shrinkDimension_eq_some {kept : U64 × U64} (h : charge.shrinkDimension new d = some kept) :
    kept.1.1 ≤ charge.shared.value d ∧ kept.2.1 ≤ charge.protectedPart.value d ∧
      kept.1.1 + kept.2.1 = new.value d := by
  obtain ⟨keptProtected, hsub, h⟩ := bind_eq_some_iff.mp h
  rw [checkedSub_eq_some_iff] at hsub
  split at h
  · cases h
  · rename_i hle
    cases h
    rw [val_min] at hsub
    refine ⟨?_, Nat.not_lt.mp hle, ?_⟩
    · exact min_le_left _ _
    · simp only [ResourceAmounts.value, val_min]
      omega

theorem shrinkDimension_of_le (h : new.value d ≤ charge.shared.value d + charge.protectedPart.value d) :
    ∃ kept, charge.shrinkDimension new d = some kept := by
  have hmin := val_min (charge.shared.get d) (new.get d)
  simp only [ResourceAmounts.value] at h
  simp only [shrinkDimension]
  cases hsub : (new.get d).checkedSub (min (charge.shared.get d) (new.get d)) with
  | none =>
    rw [checkedSub_eq_none_iff] at hsub
    omega
  | some keptProtected =>
    rw [checkedSub_eq_some_iff] at hsub
    refine ⟨_, if_neg ?_⟩
    omega

theorem shrinkTo_eq_some {charge shrunk : PoolCharge} (h : charge.shrinkTo new = some shrunk) :
    shrunk.classPool = charge.classPool ∧ ∀ d, shrunk.shared.value d ≤ charge.shared.value d ∧
      shrunk.protectedPart.value d ≤ charge.protectedPart.value d ∧
      shrunk.shared.value d + shrunk.protectedPart.value d = new.value d := by
  obtain ⟨parts, hparts, rfl⟩ := map_eq_some_iff.mp h
  exact ⟨rfl, fun d => shrinkDimension_eq_some (gather_eq_some_iff.mp hparts d)⟩

theorem shrinkTo_of_le (h : ∀ d, new.value d ≤ charge.shared.value d + charge.protectedPart.value d) :
    ∃ shrunk, charge.shrinkTo new = some shrunk := by
  choose kept hkept using fun d => shrinkDimension_of_le (h d)
  exact ⟨_, map_eq_some_iff.mpr ⟨kept, gather_eq_some_iff.mpr hkept, rfl⟩⟩

end PoolCharge

@[ext] structure RecoveryPoolCapacities where
  get : RecoveryWorkKind → ResourceAmounts

namespace RecoveryPoolCapacities

instance : DecidableEq RecoveryPoolCapacities := fun a b =>
  decidable_of_iff (∀ k, a.get k = b.get k)
    ⟨fun h => RecoveryPoolCapacities.ext (funext h), fun h k => by rw [h]⟩

def protectedSum (pools : RecoveryPoolCapacities) : Option ResourceAmounts :=
  (Listed.all (ι := RecoveryWorkKind)).foldlM (fun total k => total.checkedAdd (pools.get k)) .zero

end RecoveryPoolCapacities

structure RecoveryPoolCharge where
  kind : RecoveryWorkKind
  shared : ResourceAmounts
  protectedPart : ResourceAmounts
deriving DecidableEq

@[ext] structure RecoveryPoolUsage where
  shared : ResourceAmounts
  protectedPart : RecoveryWorkKind → ResourceAmounts

namespace RecoveryPoolUsage

variable {charge : RecoveryPoolCharge}

instance : DecidableEq RecoveryPoolUsage := fun a b =>
  decidable_of_iff (a.shared = b.shared ∧ ∀ k, a.protectedPart k = b.protectedPart k)
    ⟨fun h => RecoveryPoolUsage.ext h.1 (funext h.2), fun h => by rw [h]; exact ⟨rfl, fun _ => rfl⟩⟩

def zero : RecoveryPoolUsage := ⟨.zero, fun _ => .zero⟩

def checkedAdd (usage : RecoveryPoolUsage) (charge : RecoveryPoolCharge) :
    Option RecoveryPoolUsage := do
  let shared ← usage.shared.checkedAdd charge.shared
  let protectedPart ← (usage.protectedPart charge.kind).checkedAdd charge.protectedPart
  return ⟨shared, Function.update usage.protectedPart charge.kind protectedPart⟩

def checkedSub (usage : RecoveryPoolUsage) (charge : RecoveryPoolCharge) :
    Option RecoveryPoolUsage := do
  let shared ← usage.shared.checkedSub charge.shared
  let protectedPart ← (usage.protectedPart charge.kind).checkedSub charge.protectedPart
  return ⟨shared, Function.update usage.protectedPart charge.kind protectedPart⟩

variable {usage updated : RecoveryPoolUsage}

theorem checkedAdd_eq_some (h : usage.checkedAdd charge = some updated)
    (d : ResourceDimension) : updated.shared.value d = usage.shared.value d + charge.shared.value d ∧
      ∀ k, (updated.protectedPart k).value d = (usage.protectedPart k).value d +
        if k = charge.kind then charge.protectedPart.value d else 0 := by
  obtain ⟨shared, hshared, h⟩ := bind_eq_some_iff.mp h
  obtain ⟨part, hpart, h⟩ := bind_eq_some_iff.mp h
  cases h
  refine ⟨ResourceAmounts.checkedAdd_eq_some_iff.mp hshared d, fun k => ?_⟩
  simp only [Function.update_apply]
  split
  · rename_i hk
    rw [hk]
    exact ResourceAmounts.checkedAdd_eq_some_iff.mp hpart d
  · rfl

theorem checkedSub_eq_some (h : usage.checkedSub charge = some updated)
    (d : ResourceDimension) : updated.shared.value d + charge.shared.value d = usage.shared.value d ∧
      ∀ k, (updated.protectedPart k).value d + (if k = charge.kind then charge.protectedPart.value d else 0) =
          (usage.protectedPart k).value d := by
  obtain ⟨shared, hshared, h⟩ := bind_eq_some_iff.mp h
  obtain ⟨part, hpart, h⟩ := bind_eq_some_iff.mp h
  cases h
  refine ⟨ResourceAmounts.checkedSub_eq_some_iff.mp hshared d, fun k => ?_⟩
  simp only [Function.update_apply]
  split
  · rename_i hk
    rw [hk]
    exact ResourceAmounts.checkedSub_eq_some_iff.mp hpart d
  · rfl

theorem checkedAdd_of_lt {usage : RecoveryPoolUsage}
    (hshared : ∀ d, usage.shared.value d + charge.shared.value d < 2 ^ 64)
    (hpart : ∀ d, (usage.protectedPart charge.kind).value d + charge.protectedPart.value d < 2 ^ 64) :
    ∃ updated, usage.checkedAdd charge = some updated := by
  obtain ⟨shared, hshared⟩ := ResourceAmounts.checkedAdd_of_lt hshared
  obtain ⟨part, hpart⟩ := ResourceAmounts.checkedAdd_of_lt hpart
  unfold checkedAdd
  rw [hshared, hpart]
  exact ⟨_, rfl⟩

theorem checkedSub_of_le {usage : RecoveryPoolUsage} (charge : RecoveryPoolCharge)
    (hshared : ∀ d, charge.shared.value d ≤ usage.shared.value d)
    (hpart : ∀ d, charge.protectedPart.value d ≤ (usage.protectedPart charge.kind).value d) :
    ∃ updated, usage.checkedSub charge = some updated := by
  obtain ⟨shared, hshared⟩ := ResourceAmounts.checkedSub_of_le hshared
  obtain ⟨part, hpart⟩ := ResourceAmounts.checkedSub_of_le hpart
  unfold checkedSub
  rw [hshared, hpart]
  exact ⟨_, rfl⟩

end RecoveryPoolUsage

end Positron.Governor
