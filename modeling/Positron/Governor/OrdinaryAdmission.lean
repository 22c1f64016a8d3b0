import Positron.Governor.Ledger

/-! The steps that every admission takes, and what the admission of ordinary work does: it takes a slot and the load
of the claim, or it is refused and changes nothing. -/

namespace Positron.Governor
open MachineInt Slots Checks Triples ResourceAmounts Triple GrantRecord

/-- The ordinary capacity is divided into pools, and the rest protects the recovery kinds. -/
structure Partitions (inner : GovernorInner) : Prop where
  pools : ∀ d, poolSum (fun p => inner.poolCapacities.value p d) = inner.ordinaryCeiling.value d
  shared : ∀ d, inner.recoverySharedCapacity.value d +
    kindSum (fun k => (inner.recoveryPoolCapacities.get k).value d) = inner.totalCeiling.value d
  reserve : ∀ d, inner.ordinaryCeiling.value d +
    kindSum (fun k => (inner.recoveryPoolCapacities.get k).value d) ≤ inner.totalCeiling.value d

/-- Every tenant has an entry in each table of shares, and no share exceeds what it is a share of. -/
structure TopologySound (inner : GovernorInner) (tenants : Nat) (s : TenantQuotaSuccessor) : Prop where
  length_fair : s.tenantFairCapacities.length = s.tenantQuotas.length
  length_shared : s.recoveryTenantSharedFair.length = s.tenantQuotas.length
  length_pools : s.recoveryTenantPoolFair.length = s.tenantQuotas.length
  length_limits : s.tenantLimits.length = tenants
  spare : ∀ (i : Nat) limits, s.tenantQuotas.length ≤ i → s.tenantLimits[i]? = some limits → limits = .zero
  quotas_le : s.tenantQuotas.length ≤ tenants
  distinct : (s.tenantQuotas.map (·.tenant)).Nodup
  fair_le : ∀ (i : Nat) share, s.tenantFairCapacities[i]? = some share →
    ∀ p d, share.value p d ≤ inner.poolCapacities.value p d
  shared_le : ∀ (i : Nat) share, s.recoveryTenantSharedFair[i]? = some share →
    ∀ d, share.value d ≤ inner.recoverySharedCapacity.value d
  pools_le : ∀ (i : Nat) pools, s.recoveryTenantPoolFair[i]? = some pools →
    ∀ k d, (pools.get k).value d ≤ (inner.recoveryPoolCapacities.get k).value d
  system_le : ∀ k d, (s.recoverySystemPoolCapacities.get k).value d ≤
    (inner.recoveryPoolCapacities.get k).value d

/-- No part of the capacity is used beyond its ceiling. -/
structure Ceilings (inner : GovernorInner) (s : AccountingState) : Prop where
  pool : ∀ p d, balance s (.pool p d) ≤ inner.poolCapacities.value p d
  tenantPool : ∀ (i : Nat) share, s.tenantFairCapacities[i]? = some share →
    ∀ p d, balance s (.tenantPool i p d) ≤ share.value p d
  combined : ∀ (i : Nat) share, s.recoveryTenantSharedFair[i]? = some share →
    ∀ d, balance s (.ordinaryTenant i d) + balance s (.tenantShared i d) ≤ share.value d
  shared : ∀ d, balance s (.total d) + balance s (.recoveryShared d) ≤
    inner.recoverySharedCapacity.value d + balance s (.recovery d)
  protectedPart : ∀ k d, balance s (.recoveryProtected k d) ≤ (inner.recoveryPoolCapacities.get k).value d
  system : ∀ k d, balance s (.systemProtected k d) ≤ (s.recoverySystemPoolCapacities.get k).value d
  tenantProtected : ∀ (i : Nat) pools, s.recoveryTenantPoolFair[i]? = some pools →
    ∀ k d, balance s (.tenantProtected i k d) ≤ (pools.get k).value d
  total : ∀ d, balance s (.total d) ≤ inner.totalCeiling.value d

theorem kindSum_le {f g : RecoveryWorkKind → Nat} (h : ∀ k, f k ≤ g k) : kindSum f ≤ kindSum g :=
  List.sum_le_sum fun k _ => h k

theorem poolSum_le {f g : OrdinaryPool → Nat} (h : ∀ p, f p ≤ g p) : poolSum f ≤ poolSum g :=
  List.sum_le_sum fun p _ => h p

namespace Partitions

variable {inner : GovernorInner}

theorem ordinary_le_shared (h : Partitions inner) (d : ResourceDimension) :
    inner.ordinaryCeiling.value d ≤ inner.recoverySharedCapacity.value d := by
  have hshared := h.shared d
  have hreserve := h.reserve d
  omega

end Partitions

/-- What a refused admission can leave behind: the state it found, perhaps fenced, perhaps with a
generation spent. -/
inductive Undisturbed (s : GovernorState) : GovernorState → Prop
  | same : Undisturbed s s
  | fenced : Undisturbed s s.fence
  | spent {next : U64} (h : s.nextOperationGeneration.1 ≤ next.1) :
      Undisturbed s (GovernorState.fence { s with nextOperationGeneration := next })

/-- A refusal. It changes nothing unless it reports corruption, and none is met by a claim that must
be admitted. -/
structure Refused (s : GovernorState) (must : Prop) (failure : AdmissionFailure) (s' : GovernorState) :
    Prop where
  undisturbed : Undisturbed s s'
  kept : failure.code ≠ .internalFenced → s' = s
  spared : ¬ must

namespace Refused

variable {s : GovernorState} {must : Prop} {failure : AdmissionFailure}

theorem stays (h : ¬ must) : Refused s must failure s := ⟨.same, fun _ => rfl, h⟩

theorem fences (hcode : failure.code = .internalFenced) (h : ¬ must) : Refused s must failure s.fence :=
  ⟨.fenced, fun hother => absurd hcode hother, h⟩

end Refused

theorem bind_orFail_some {α β ε : Type} {P : GovernorState → Prop} {x : Option α} {a : α} {failure : ε}
    {f : α → EStateM ε GovernorState β} {R : β → GovernorState → Prop} {E : ε → GovernorState → Prop}
    (hx : x = some a) (h : Triple P (f a) R E) : Triple P (ofExcept (orFail x failure) >>= f) R E := by
  rw [hx]
  exact h

section Checking

variable {α β : Type} {s : GovernorState} {x : Except AdmissionFailure α} {f : α → Admission β}
  {R : β → GovernorState → Prop} {must : Prop} (herror : ∀ failure, x = .error failure → ¬ must)
  (hok : ∀ a, x = .ok a → Triple (· = s) (f a) R (Refused s must))
include herror hok

theorem bind_check : Triple (· = s) (ofExcept x >>= f) R (Refused s must) :=
  bind_lift hok fun failure h => .stays (herror failure h)

theorem bind_fencing : Triple (· = s) (fencing x >>= f) R (Refused s must) := by
  rintro t rfl
  cases x with
  | ok a => exact hok a rfl _ rfl
  | error failure =>
    change Refused t must failure (if failure.code = .internalFenced then t.fence else t)
    split
    · rename_i hinternal
      exact .fences hinternal (herror failure rfl)
    · exact .stays (herror failure rfl)

end Checking

section Checks

variable {inner : GovernorInner} {tenants : Nat} {s : GovernorState} {cls : WorkClass}
variable {failure : AdmissionFailure} {tenantIndex : Option Nat} {tenant : TenantId} {i : Nat}

theorem tenantIndexOf_ok (h : tenantIndexOf s tenant cls = .ok i) :
    ∃ quota, s.tenantQuotas[i]? = some quota ∧ quota.tenant = tenant := by
  obtain ⟨hlt, hfound, _⟩ := List.findIdx?_eq_some_iff_getElem.mp (orFail_eq_ok_iff.mp h)
  exact ⟨_, List.getElem?_eq_getElem hlt, (of_decide_eq_true hfound).1⟩

theorem requireHealthyAndSlot_ok {candidate : U32}
    (h : requireHealthyAndSlot inner s cls tenantIndex = .ok candidate) :
    s.lifecycle ≠ .fenced ∧ candidate.1 = s.outstanding.1 + 1 ∧ candidate.1 + (missingClasses s cls +
        missingTenants s tenantIndex) ≤ inner.maximumOutstanding.1 := by
  obtain ⟨_, hfenced, h⟩ := bind_ok h
  obtain ⟨next, hnext, h⟩ := bind_ok h
  obtain ⟨_, hroom, h⟩ := bind_ok h
  cases h
  exact ⟨demand_eq_ok_iff.mp hfenced, Unsigned.checkedAdd_eq_some_iff.mp (orFail_eq_ok_iff.mp hnext),
    demand_eq_ok_iff.mp hroom⟩

theorem requireHealthyAndSlot_error (hs : Sound inner tenants s)
    (h : requireHealthyAndSlot inner s cls tenantIndex = .error failure) (hopen : s.lifecycle ≠ .fenced) :
    inner.maximumOutstanding.1 < s.outstanding.1 + 1 + (missingClasses s cls + missingTenants s tenantIndex) := by
  have hslots := hs.maximum_le
  rcases bind_eq_error_iff.mp h with h | ⟨_, _, h⟩
  · exact absurd hopen (demand_eq_error_iff.mp h).1
  rcases bind_eq_error_iff.mp h with h | ⟨candidate, hcand, h⟩
  · have hone : (Unsigned.wrap 32 1).1 = 1 := rfl
    have hoverflow := Unsigned.checkedAdd_eq_none_iff.mp (orFail_eq_error_iff.mp h).1
    simp only [maxOutstandingReservations] at hslots
    omega
  rcases bind_eq_error_iff.mp h with h | ⟨_, _, h⟩
  · have hval : candidate.1 = s.outstanding.1 + 1 :=
      Unsigned.checkedAdd_eq_some_iff.mp (orFail_eq_ok_iff.mp hcand)
    rw [← hval]
    exact Nat.not_le.mp (demand_eq_error_iff.mp h).1
  · cases h

theorem validateOperationChild_ok {token : OperationToken}
    (h : validateOperationChild inner s i (some token) cls = .ok ⟨⟩) :
    ∃ root count, entry s.grantRecords token.rootSlot = some root ∧
      root.operation = some (.root token.generation true count) ∧ token.authority = inner.authority ∧
      root.tenant = some token.tenant ∧ root.principal = some token.principal ∧ root.kind.workClass = cls := by
  have hissued := demand_eq_ok_iff.mp h
  obtain ⟨root, hroot, hissued⟩ := (Option.any_eq_true _ _).mp hissued
  unfold issuedBy at hissued
  rw [Bool.and_eq_true, decide_eq_true_eq] at hissued
  obtain ⟨⟨hauthority, _, htenant, hprinc, hclass⟩, haccepts⟩ := hissued
  unfold acceptsChildren at haccepts
  split at haccepts
  · rename_i g count hop
    refine ⟨root, count, hroot, ?_, hauthority, htenant, hprinc, hclass⟩
    rw [hop, of_decide_eq_true haccepts]
  · cases haccepts

theorem checkedAdd_one {count : U32} (h : count.1 + 1 < 2 ^ 32) :
    ∃ more, count.checkedAdd (Unsigned.wrap 32 1) = some more ∧ more.1 = count.1 + 1 := by
  have hone : (Unsigned.wrap 32 1).1 = 1 := rfl
  cases hadd : count.checkedAdd (Unsigned.wrap 32 1) with
  | none =>
    rw [Unsigned.checkedAdd_eq_none_iff] at hadd
    omega
  | some more => exact ⟨more, rfl, by rw [Unsigned.checkedAdd_eq_some_iff.mp hadd, hone]⟩

end Checks

section Records

theorem bind_activateSlot {β : Type} {s : GovernorState} {record : GrantRecord} {f : Option Nat → Admission β}
    {R : β → GovernorState → Prop} {E : AdmissionFailure → GovernorState → Prop} (hslots : SlotsSound s)
    (hnone : s.freeSlots = [] → Triple (· = s) (f none) R E)
    (hsome : ∀ slot, s.freeSlots.head? = some slot → Triple (· = s.occupied slot record) (f (some slot)) R E) :
    Triple (· = s) (activateSlot record >>= f) R E := by
  rintro t rfl
  rw [EStateM.run_bind]
  cases hfree : t.freeSlots with
  | nil =>
    have hrun : (activateSlot record).run t = .ok none t := by
      simp only [activateSlot, EStateM.run, hfree]
    rw [hrun]
    exact hnone hfree t rfl
  | cons slot rest =>
    have hhead : t.freeSlots.head? = some slot := by rw [hfree, List.head?_cons]
    have hempty := hslots.head_free hhead
    have hrun : (activateSlot record).run t = .ok (some slot) (t.occupied slot record) := by
      simp only [activateSlot, EStateM.run, hfree, hempty, (hslots.free_iff slot).mpr hempty, and_self,
        if_true, GovernorState.occupied, List.tail_cons]
    rw [hrun]
    exact hsome slot hhead _ rfl

theorem new_ordinary {i : Nat} (hi : i < 2 ^ 16) (charge : PoolCharge) (tenant : TenantId)
    (principal : Option PrincipalId) (kind : WorkKind) (amounts : ResourceAmounts)
    (operation : Option OperationRecord) :
    new ⟨.ordinary i, some charge, none⟩ (.ordinary tenant principal kind) amounts operation =
      some ⟨amounts, charge.shared, ⟨i, hi⟩, some tenant, principal, .ordinary kind, operation⟩ := by
  have hindex : Unsigned.ofNat? 16 i = some ⟨i, hi⟩ := dif_pos hi
  simp only [new, hindex]
  rfl

def storedIndexOf (i : Option Nat) (hi : ∀ j, i = some j → j < 2 ^ 16) : U16 :=
  match i with
  | none => systemTenantIndex
  | some j => ⟨j, hi j rfl⟩

variable {i : Option Nat} {amounts : ResourceAmounts}

theorem new_recovery (hi : ∀ j, i = some j → j < 2 ^ 16) (charge : RecoveryPoolCharge) (scope : RecoveryScope)
    (kind : RecoveryWorkKind) (amounts : ResourceAmounts) (operation : Option OperationRecord) :
    new ⟨.recovery i, none, some charge⟩ (.recovery scope kind) amounts operation =
      some ⟨amounts, charge.shared, storedIndexOf i hi, none, none, .recovery kind, operation⟩ := by
  cases i with
  | none => rfl
  | some j =>
    have hindex : Unsigned.ofNat? 16 j = some ⟨j, hi j rfl⟩ := dif_pos (hi j rfl)
    simp only [new, hindex]
    rfl

theorem protectedPart_eq {shared protectedPart amounts : ResourceAmounts}
    (h : ∀ d, shared.value d + protectedPart.value d = amounts.value d) :
    amounts.checkedSub shared = some protectedPart := by
  rw [ResourceAmounts.checkedSub_eq_some_iff]
  intro d
  rw [Nat.add_comm]
  exact h d

theorem owner_ordinary {tenants i : Nat} (htenants : tenants ≤ maxTenantQuotas) (hi : i < tenants)
    (hi' : i < 2 ^ 16) {charge : PoolCharge} {kind : WorkKind}
    (hclass : OrdinaryPool.forClass kind.workClass = some charge.classPool)
    (hsum : ∀ d, charge.shared.value d + charge.protectedPart.value d = amounts.value d)
    (tenant : Option TenantId) (principal : Option PrincipalId) (operation : Option OperationRecord) :
    owner ⟨amounts, charge.shared, ⟨i, hi'⟩, tenant, principal, .ordinary kind, operation⟩ =
      some ⟨.ordinary i, some charge, none⟩ := by
  have hindex : tenantIndex ⟨amounts, charge.shared, ⟨i, hi'⟩, tenant, principal,
      .ordinary kind, operation⟩ = some i := tenantIndex_of_lt htenants hi
  simp only [owner, protectedPart_eq hsum, hclass, hindex]
  rfl

theorem owner_recovery {tenants : Nat} (htenants : tenants ≤ maxTenantQuotas)
    (hi : ∀ j, i = some j → j < tenants) (hi' : ∀ j, i = some j → j < 2 ^ 16) {charge : RecoveryPoolCharge}
    (hsum : ∀ d, charge.shared.value d + charge.protectedPart.value d = amounts.value d)
    (tenant : Option TenantId) (principal : Option PrincipalId) (operation : Option OperationRecord) :
    owner ⟨amounts, charge.shared, storedIndexOf i hi', tenant, principal,
      .recovery charge.kind, operation⟩ = some ⟨.recovery i, none, some charge⟩ := by
  have hindex : tenantIndex ⟨amounts, charge.shared, storedIndexOf i hi', tenant, principal,
      .recovery charge.kind, operation⟩ = i := by
    cases i with
    | none => rfl
    | some j => exact tenantIndex_of_lt htenants (hi j rfl)
  simp only [owner, protectedPart_eq hsum, hindex]
  rfl

end Records

structure Admitted (tenants slot : Nat) (record : GrantRecord) (s s' : GovernorState) : Prop where
  free : s.freeSlots.head? = some slot
  formed : record.Formed tenants
  committed : ∃ t, Admits slot record s t ∧ Reaccounted t s' (fun _ => 0) fun a => record.load a

namespace Admitted

variable {tenants slot : Nat} {record : GrantRecord} {s s' : GovernorState} {inner : GovernorInner}

variable (h : Admitted tenants slot record s s')
include h

theorem frame : s' = { (s.adopt s').adoptSlots s' with nextOperationGeneration := s'.nextOperationGeneration } := by
  obtain ⟨t, hadmits, haccts⟩ := h.committed
  have hledger := hadmits.frame
  have haccounted := haccts.frame
  rw [haccounted, hledger]
  rfl

theorem moved (a : Account) : balance s' a = balance s a + record.load a := by
  obtain ⟨t, hadmits, haccts⟩ := h.committed
  have hmoved := haccts.moved a
  rw [hadmits.frame] at hmoved
  exact hmoved

theorem sound (hs : Sound inner tenants s) : Sound inner tenants s' := by
  have hmoved := h.moved
  have hempty := hs.slots.head_free h.free
  obtain ⟨t, hadmits, haccts⟩ := h.committed
  have hrecs := haccts.records_eq
  refine {
    tenants_le := hs.tenants_le
    maximum_le := hs.maximum_le
    sizes := ?_
    length_records := ?_
    slots := haccts.slotsSound (hadmits.slotsSound hs.slots h.free)
    families := ?_
    formed := ?_
    balanced := ?_ }
  · have hsizes := hs.sizes
    apply haccts.sizes
    rw [hadmits.frame]
    exact ⟨hsizes.ordinary, hsizes.recovery, hsizes.recoveryPools, hsizes.pools, hsizes.outstanding⟩
  · have hlen : t.grantRecords.length = s.grantRecords.length := by
      cases hadmits <;> simp only [GovernorState.occupied, GovernorState.put, List.length_set]
    rw [hrecs, hlen]
    exact hs.length_records
  · rw [hrecs, haccts.generation_eq]
    exact hadmits.families hempty hs.families
  · rw [hrecs]
    exact hadmits.formed hempty hs.formed h.formed
  · intro a
    have htally := hadmits.tally_load hempty a
    have hbalanced := hs.balanced a
    rw [hmoved, hrecs, htally, hbalanced]

theorem keepsOthers (hs : SlotsSound s) : KeepsOthers slot s s' := by
  obtain ⟨t, hadmits, haccts⟩ := h.committed
  have hkeeps := hadmits.keepsOthers (hs.head_free h.free)
  rw [haccts.frame]
  exact ⟨hkeeps.kept, hkeeps.known⟩

theorem entry_slot (hs : SlotsSound s) : entry s'.grantRecords slot = some record := by
  obtain ⟨t, hadmits, haccts⟩ := h.committed
  rw [haccts.records_eq]
  exact hadmits.entry_slot (hs.head_free h.free)

theorem signal_slot (hs : SlotsSound s) : s'.slotSignals[slot]? = some .active := by
  obtain ⟨t, hadmits, haccts⟩ := h.committed
  obtain ⟨hlt, _⟩ := List.getElem?_eq_some_iff.mp (hs.head_free h.free)
  rw [congrArg (·.slotSignals) haccts.frame]
  exact hadmits.signal_slot (hs.length_signals ▸ hlt)

theorem isReleased_eq : record.isReleased = false := by
  obtain ⟨t, hadmits, _⟩ := h.committed
  exact hadmits.isReleased_eq

end Admitted

/-- A principal's claim outside of an operation opens one, and takes the next generation for it. -/
def WorkClaim.opensOperation (claim : WorkClaim) : Bool := claim.operation.isNone && claim.principal.isSome

/-- When the accounts of a sound state let an ordinary claim be decided without corruption. -/
structure OrdinaryReady (inner : GovernorInner) (claim : WorkClaim) (s : GovernorState) : Prop where
  opened : s.lifecycle ≠ .fenced
  partitions : Partitions inner
  ceilings : Ceilings inner s
  generation : claim.opensOperation → s.nextOperationGeneration.1 + 1 < 2 ^ 64
  room : s.freeSlots ≠ []

/-- Every check of an ordinary claim passes, and its class has room for all of it. -/
structure OrdinaryDue (inner : GovernorInner) (claim : WorkClaim) (i : Nat) (p : OrdinaryPool)
    (s : GovernorState) : Prop where
  serving : s.lifecycle ≠ .shuttingDown
  registered : tenantIndexOf s claim.tenant claim.kind.workClass = .ok i
  slot : s.outstanding.1 + 1 + (missingClasses s claim.kind.workClass +
    missingTenants s (some i)) ≤ inner.maximumOutstanding.1
  operation : validateOperationChild inner s i claim.operation claim.kind.workClass = .ok ⟨⟩
  principal : refusePrincipalLimit inner s i claim.principal claim.operation
    claim.kind.workClass claim.amounts = .ok ⟨⟩
  healthy : s.diskPressure = .healthy
  disk : claim.amounts.value .diskHeadroomBytes = 0 ∨ s.totalUsage.value .diskHeadroomBytes +
    claim.amounts.value .diskHeadroomBytes ≤ s.usableDiskBytes.1
  capacity : ∀ d, balance s (.total d) + claim.amounts.value d + balance s (.recoveryShared d) ≤
      inner.ordinaryCeiling.value d + balance s (.recovery d)
  quota : ∀ limit, s.tenantLimits[i]? = some limit → ∀ d,
    balance s (.ordinaryTenant i d) + claim.amounts.value d ≤ limit.value d
  combined : ∀ share, s.recoveryTenantSharedFair[i]? = some share → ∀ d,
    balance s (.ordinaryTenant i d) + balance s (.tenantShared i d) + claim.amounts.value d ≤ share.value d
  ofClass : OrdinaryPool.forClass claim.kind.workClass = some p
  pool : ∀ d, balance s (.pool p d) + claim.amounts.value d ≤ inner.poolCapacities.value p d
  tenantPool : ∀ share, s.tenantFairCapacities[i]? = some share → ∀ d,
    balance s (.tenantPool i p d) + claim.amounts.value d ≤ share.value p d

def OrdinaryMust (inner : GovernorInner) (claim : WorkClaim) (s : GovernorState) : Prop :=
  OrdinaryReady inner claim s ∧ ∃ i p, OrdinaryDue inner claim i p s

/-- An admitted ordinary claim: who holds it, what it was charged, and the limits it kept. -/
structure OrdinaryAdmission (inner : GovernorInner) (tenants : Nat) (claim : WorkClaim)
    (s : GovernorState) (r : ResourceReservation) (s' : GovernorState) (i : Nat) (charge : PoolCharge)
    (record : GrantRecord) : Prop where
  opened : s.lifecycle ≠ .fenced ∧ s.lifecycle ≠ .shuttingDown
  registered : tenantIndexOf s claim.tenant claim.kind.workClass = .ok i
  progress : s.outstanding.1 + 1 + (missingClasses s claim.kind.workClass +
    missingTenants s (some i)) ≤ inner.maximumOutstanding.1
  operation : validateOperationChild inner s i claim.operation claim.kind.workClass = .ok ⟨⟩
  capacity : ∀ d, balance s (.total d) + claim.amounts.value d + balance s (.recoveryShared d) ≤
      inner.ordinaryCeiling.value d + balance s (.recovery d)
  combined : ∀ share, s.recoveryTenantSharedFair[i]? = some share → ∀ d,
    balance s (.ordinaryTenant i d) + balance s (.tenantShared i d) + claim.amounts.value d ≤ share.value d
  ofClass : OrdinaryPool.forClass claim.kind.workClass = some charge.classPool
  parts : ∀ d, charge.shared.value d + charge.protectedPart.value d = claim.amounts.value d
  poolFits : PoolFits inner.poolCapacities s.poolUsage charge
  tenantFits : ∀ share, s.tenantFairCapacities[i]? = some share →
    PoolFits share (s.ordinaryTenantPoolUsage.getD i .zero) charge
  written : new r.owner r.identity r.amounts record.operation = some record
  owned : record.owner = some r.owner
  reservation : r = ⟨r.slot, ⟨.ordinary i, some charge, none⟩,
    .ordinary claim.tenant claim.principal claim.kind, claim.amounts,
    record.rootToken inner.authority r.slot, true⟩
  admitted : Admitted tenants r.slot record s s'
  generation : claim.opensOperation → s.nextOperationGeneration.1 + 1 < 2 ^ 64

section Tail

variable {inner : GovernorInner} {tenants : Nat} {s t : GovernorState} {claim : WorkClaim} {i slot : Nat}
  {charge : PoolCharge} {commit : OrdinaryCommit}

def ordinaryRecord (claim : WorkClaim) (charge : PoolCharge) (i : Nat) (hi : i < 2 ^ 16)
    (operation : Option OperationRecord) : GrantRecord :=
  ⟨claim.amounts, charge.shared, ⟨i, hi⟩, some claim.tenant, claim.principal, .ordinary claim.kind, operation⟩

structure OrdinaryPlan (tenants : Nat) (claim : WorkClaim) (s : GovernorState) (i : Nat)
    (charge : PoolCharge) (commit : OrdinaryCommit) : Prop where
  tenants_le : tenants ≤ maxTenantQuotas
  index_lt : i < tenants
  ofClass : OrdinaryPool.forClass claim.kind.workClass = some charge.classPool
  parts : ∀ d, charge.shared.value d + charge.protectedPart.value d = claim.amounts.value d
  tenantIndex : commit.tenantIndex = i
  cls : commit.cls = claim.kind.workClass
  shift : OrdinaryShift commit s .none (charge.share claim.amounts 1)

variable (h : OrdinaryPlan tenants claim s i charge commit)
include h

theorem OrdinaryPlan.index_lt_word : i < 2 ^ 16 := by
  have h₁ := h.tenants_le
  have h₂ := h.index_lt
  simp only [maxTenantQuotas] at h₁
  omega

theorem OrdinaryPlan.owner_eq (operation : Option OperationRecord) :
    (ordinaryRecord claim charge i h.index_lt_word operation).owner = some ⟨.ordinary i, some charge, none⟩ :=
  owner_ordinary h.tenants_le h.index_lt h.index_lt_word h.ofClass h.parts _ _ _

omit h in
theorem OrdinaryShift.admits {record : GrantRecord} {minus plus : OrdinaryShare}
    (h : OrdinaryShift commit s minus plus) (hadmits : Admits slot record s t) :
    OrdinaryShift commit t minus plus := by
  rw [hadmits.frame]
  exact ⟨h.total, h.tenant, h.pool, h.tenantPool, h.outstanding, h.ordinaryCount, h.classCount, h.tenantCount⟩

theorem OrdinaryPlan.admitted {operation : Option OperationRecord} (hfree : s.freeSlots.head? = some slot)
    (hadmits : Admits slot (ordinaryRecord claim charge i h.index_lt_word operation) s t)
    (hprinc : operation.isSome → claim.principal.isSome) :
    Admitted tenants slot (ordinaryRecord claim charge i h.index_lt_word operation) s (commitOrdinary commit t) where
  free := hfree
  formed := by
    refine ⟨fun d => ?_, h.index_lt, fun hop => ⟨rfl, hprinc hop, rfl⟩, fun hrel => ?_⟩
    · have hd := h.parts d
      simp only [ordinaryRecord]
      omega
    · rw [hadmits.isReleased_eq] at hrel
      cases hrel
  committed := by
    refine ⟨t, hadmits, ?_⟩
    have hmoves := (h.shift.admits hadmits).reaccounted
    refine ⟨hmoves.frame, hmoves.sizes, fun a => ?_⟩
    have hmoved := hmoves.moved a
    rw [ordinaryLoad_none, h.tenantIndex, h.cls] at hmoved
    rw [load_eq (h.owner_eq operation) hadmits.isReleased_eq]
    exact hmoved

omit h

variable {E : AdmissionFailure → GovernorState → Prop} {cls : WorkClass} {β : Type}

theorem bind_operationRecord_root {principal : PrincipalId}
    {f : Option OperationRecord → Admission β} {R : β → GovernorState → Prop}
    (hsome : ∀ next : U64, next.1 = s.nextOperationGeneration.1 + 1 →
      Triple (· = { s with nextOperationGeneration := next })
        (f (some (.root s.nextOperationGeneration true (Unsigned.zero 16)))) R E)
    (hnone : 2 ^ 64 ≤ s.nextOperationGeneration.1 + 1 → E (internalAt cls s.fence) s.fence) :
    Triple (· = s) (operationRecordForClaim none (some principal) cls >>= f) R E := by
  unfold operationRecordForClaim
  simp only [bind_assoc]
  apply bind_get
  apply bind_orFence
  · intro next hnext
    apply bind_modify
    exact hsome next (Unsigned.checkedAdd_eq_some_iff.mp hnext)
  · intro hoverflow
    rw [Unsigned.checkedAdd_eq_none_iff] at hoverflow
    exact hnone hoverflow

/-- Children are fewer than slots, so the count of a root never overflows. -/
theorem Sound.children_lt (hs : Sound inner tenants s) (hfree : s.freeSlots ≠ []) (rootSlot : Nat)
    (g : U64) : children s.grantRecords rootSlot g + 1 < 2 ^ 16 := by
  have hmax := hs.maximum_le
  have hsum := hs.slots.partitioned.length_add_tally
  have hlen := hs.length_records
  have hpos : 0 < s.freeSlots.length := List.length_pos_iff.mpr hfree
  have hle : children s.grantRecords rootSlot g ≤ tally (fun _ => 1) s.grantRecords := by
    refine tally_le fun i record _ => ?_
    unfold childOf
    split <;> omega
  simp only [maxOutstandingReservations] at hmax
  omega

theorem bind_countChild {token : OperationToken} {root : GrantRecord}
    {count : U16} {f : PUnit → Admission β} {R : β → GovernorState → Prop}
    (hroot : entry s.grantRecords token.rootSlot = some root)
    (hop : root.operation = some (.root token.generation true count)) (hcount : count.1 + 1 < 2 ^ 16)
    (h : ∀ more : U16, more.1 = count.1 + 1 → Triple (· = s.put token.rootSlot
      { root with operation := some (.root token.generation true more) }) (f ⟨⟩) R E) :
    Triple (· = s) (countChild (some token) cls >>= f) R E := by
  have hone : (Unsigned.wrap 16 1).1 = 1 := rfl
  have hrec : s.record token.rootSlot = some root := hroot
  cases hadd : count.checkedAdd (Unsigned.wrap 16 1) with
  | none =>
    rw [Unsigned.checkedAdd_eq_none_iff] at hadd
    omega
  | some more =>
    have hincrement : root.incrementRootChild =
        some { root with operation := some (.root token.generation true more) } := by
      simp only [incrementRootChild, hop, hadd]
      rfl
    unfold countChild
    simp only [bind_assoc]
    apply bind_get
    apply bind_orFence_some hrec
    apply bind_orFence_some hincrement
    apply bind_modify
    exact h more (Unsigned.checkedAdd_eq_some_iff.mp hadd)

theorem grantOrdinary_spec (hs : Sound inner tenants s) (hplan : OrdinaryPlan tenants claim s i charge commit)
    (hvalid : validateOperationChild inner s i claim.operation claim.kind.workClass = .ok ⟨⟩) :
    Triple (· = s) (grantOrdinary inner claim ⟨.ordinary i, some charge, none⟩ commit)
      (fun r s' => ∃ record : GrantRecord, new r.owner r.identity r.amounts record.operation = some record ∧
        record.owner = some r.owner ∧ r = ⟨r.slot, ⟨.ordinary i, some charge, none⟩,
          .ordinary claim.tenant claim.principal claim.kind, claim.amounts,
          record.rootToken inner.authority r.slot, true⟩ ∧ Admitted tenants r.slot record s s' ∧
        (claim.opensOperation → s.nextOperationGeneration.1 + 1 < 2 ^ 64))
      (Refused s (OrdinaryMust inner claim s)) := by
  have hnew := fun operation => new_ordinary hplan.index_lt_word charge claim.tenant claim.principal
    claim.kind claim.amounts operation
  unfold grantOrdinary
  dsimp only
  cases hoperation : claim.operation with
  | none =>
    have hcount : countChild none claim.kind.workClass = pure ⟨⟩ := rfl
    rcases Option.eq_none_or_eq_some claim.principal with hprinc | ⟨principal, hprinc⟩
    · have hrec : operationRecordForClaim none claim.principal claim.kind.workClass = pure none := by
        rw [hprinc]
        rfl
      rw [hrec]
      apply bind_orFence_some (hnew none)
      apply bind_activateSlot hs.slots
      · intro hempty
        exact bind_orFence_none (.fences rfl fun hmust => hmust.1.room hempty)
      · intro slot hfree
        apply bind_orFence_some rfl
        rw [hcount, pure_bind]
        apply bind_modify
        apply pure_known
        refine ⟨_, hnew none, hplan.owner_eq none, rfl, hplan.admitted hfree (.plain rfl) (fun h => by cases h),
          fun hopens => ?_⟩
        rw [WorkClaim.opensOperation, hprinc, Option.isSome_none, Bool.and_false] at hopens
        cases hopens
    · have hrec : operationRecordForClaim none claim.principal claim.kind.workClass =
          operationRecordForClaim none (some principal) claim.kind.workClass := by rw [hprinc]
      rw [hrec]
      apply bind_operationRecord_root
      · intro next hnext
        have hslots : SlotsSound { s with nextOperationGeneration := next } :=
          ⟨hs.slots.partitioned, hs.slots.length_signals, hs.slots.free_iff, hs.slots.length_words,
            hs.slots.pending⟩
        apply bind_orFence_some (hnew _)
        apply bind_activateSlot hslots
        · intro hempty
          exact bind_orFence_none ⟨.spent (by omega), fun hcode => absurd rfl hcode,
            fun hmust => hmust.1.room hempty⟩
        · intro slot hfree
          apply bind_orFence_some rfl
          rw [hcount, pure_bind]
          apply bind_modify
          apply pure_known
          refine ⟨_, hnew _, hplan.owner_eq _, rfl, hplan.admitted hfree (.root rfl hnext) fun _ => ?_,
            fun _ => hnext ▸ next.2⟩
          rw [hprinc]
          rfl
      · intro hoverflow
        refine .fences rfl fun hmust => ?_
        have hopens : claim.opensOperation := by
          rw [WorkClaim.opensOperation, hoperation, hprinc]
          rfl
        have hgen := hmust.1.generation hopens
        omega
  | some token =>
    rw [hoperation] at hvalid
    obtain ⟨root, count, hroot, hrootOp, _⟩ := validateOperationChild_ok hvalid
    have hrootAt := (operationAt_of_entry hroot).trans hrootOp
    apply bind_orFence_some (hnew _)
    apply bind_activateSlot hs.slots
    · intro hempty
      exact bind_orFence_none (.fences rfl fun hmust => hmust.1.room hempty)
    · intro slot hfree
      have hroom : s.freeSlots ≠ [] := by
        intro hempty
        rw [hempty] at hfree
        cases hfree
      have hkids := hs.children_lt hroom token.rootSlot token.generation
      rw [← hs.families.counted _ _ _ _ hrootAt] at hkids
      apply bind_countChild (Admits.entry_root (hs.slots.head_free hfree) hroot) hrootOp hkids
      intro more hmore
      apply bind_modify
      apply pure_known
      refine ⟨_, hnew _, hplan.owner_eq _, rfl, ?_, fun hopens => ?_⟩
      · refine hplan.admitted hfree (.child rfl hroot hrootOp hmore) fun _ => ?_
        rw [(claim.coherent token hoperation).2.1]
        rfl
      · rw [WorkClaim.opensOperation, hoperation] at hopens
        cases hopens

end Tail

section Walk

variable {inner : GovernorInner} {tenants : Nat} {s : GovernorState}

theorem PoolFits.checkedAdd {capacity usage : PoolCapacities} {charge : PoolCharge}
    (h : PoolFits capacity usage charge) : ∃ candidate, usage.checkedAdd charge.capacities = some candidate := by
  apply PoolCapacities.checkedAdd_of_lt
  intro p d
  by_cases hp : p = .shared ∨ p = charge.classPool
  · have hle := h p d hp
    have hlt := capacity.value_lt p d
    omega
  · rw [not_or] at hp
    rw [PoolCharge.value_capacities, if_neg hp.2, if_neg hp.1]
    exact usage.value_lt p d

theorem OrdinaryReady.total_le {claim : WorkClaim} (hready : OrdinaryReady inner claim s) (hs : Sound inner tenants s)
    {amounts : ResourceAmounts} {d : ResourceDimension} (h : balance s (.total d) + amounts.value d +
      balance s (.recoveryShared d) ≤ inner.ordinaryCeiling.value d + balance s (.recovery d)) :
    balance s (.total d) + amounts.value d ≤ inner.totalCeiling.value d := by
  have hkinds := hs.shared_add_kindSum d
  have hprot := kindSum_le fun k => hready.ceilings.protectedPart k d
  have hreserve := hready.partitions.reserve d
  omega

theorem reserveOrdinaryLocked_spec (hs : Sound inner tenants s)
    (htopo : TopologySound inner tenants s) (claim : WorkClaim) :
    Triple (· = s) (reserveOrdinaryLocked inner claim)
      (fun r s' => ∃ i charge record, OrdinaryAdmission inner tenants claim s r s' i charge record)
      (Refused s (OrdinaryMust inner claim s)) := by
  apply bind_get
  apply bind_require
  swap
  · intro hshutdown
    refine .stays ?_
    rintro ⟨_, _, _, hdue⟩
    exact hshutdown hdue.serving
  intro hshutdown
  refine bind_check ?_ fun i hreg => ?_
  · rintro failure h ⟨_, _, _, hdue⟩
    cases h.symm.trans hdue.registered
  have hindex : ∀ {j p}, OrdinaryDue inner claim j p s → j = i := fun hdue =>
    Except.ok.inj (hdue.registered.symm.trans hreg)
  obtain ⟨quota, hquota, _⟩ := tenantIndexOf_ok hreg
  obtain ⟨hlt, _⟩ := List.getElem?_eq_some_iff.mp hquota
  have hi : i < tenants := Nat.lt_of_lt_of_le hlt htopo.quotas_le
  refine bind_check ?_ fun outstanding houtst => ?_
  · rintro failure h ⟨hready, _, _, hdue⟩
    have hfull := requireHealthyAndSlot_error hs h hready.opened
    have hslot := hdue.slot
    rw [hindex hdue] at hslot
    omega
  obtain ⟨hopen, houtstVal, hprogress⟩ := requireHealthyAndSlot_ok houtst
  rw [houtstVal] at hprogress
  refine bind_check ?_ fun _ hvalid => ?_
  · rintro failure h ⟨_, _, _, hdue⟩
    cases h.symm.trans (hindex hdue ▸ hdue.operation)
  refine bind_check ?_ fun _ _ => ?_
  · rintro failure h ⟨_, _, _, hdue⟩
    cases h.symm.trans (hindex hdue ▸ hdue.principal)
  refine bind_check ?_ fun sharedEligible _ => ?_
  · rintro failure h ⟨_, _, _, hdue⟩
    rw [hdue.healthy] at h
    cases h
  refine bind_check ?_ fun _ _ => ?_
  · rintro failure h ⟨_, _, _, hdue⟩
    exact (demand_eq_error_iff.mp h).1 hdue.disk
  obtain ⟨ordinaryUsage, hord⟩ := checkedSub_of_le fun d => hs.recovery_le_total d
  have hordVal := checkedSub_eq_some_iff.mp hord
  apply bind_orFence_some hord
  refine bind_check ?_ fun _ hcap => ?_
  · rintro failure h ⟨hready, _, _, hdue⟩
    refine absurd (h.symm.trans (refuseOrdinaryCapacity_eq_ok (fun d => ?_) fun d => ?_)) (fun h => by cases h)
    · have hle := hready.total_le hs (hdue.capacity d)
      have hval := hordVal d
      simp only [balance] at hle
      dsimp only
      omega
    · have hle := hdue.capacity d
      have hval := hordVal d
      simp only [balance] at hle
      dsimp only
      omega
  have hcap : ∀ d, balance s (.total d) + claim.amounts.value d + balance s (.recoveryShared d) ≤
        inner.ordinaryCeiling.value d + balance s (.recovery d) := by
    intro d
    have h₁ := (refuseOrdinaryCapacity_ok hcap d).2
    have h₂ := hordVal d
    simp only [balance]
    dsimp only at h₁
    omega
  apply bind_orFence
  swap
  · intro hoverflow
    refine .fences rfl fun hmust => ?_
    obtain ⟨d, hd⟩ := checkedAdd_eq_none_iff.mp hoverflow
    have hle := hmust.1.total_le hs (hcap d)
    have hltTotal := inner.totalCeiling.value_lt d
    simp only [balance] at hle
    omega
  intro totalCandidate htotal
  have htenantUsage := exists_getElem? hs.sizes.ordinary hi .zero
  apply bind_orFence_some htenantUsage
  obtain ⟨tenantLimit, htenantLimit⟩ : ∃ limit, s.tenantLimits[i]? = some limit :=
    ⟨_, exists_getElem? htopo.length_limits hi .zero⟩
  apply bind_orFence_some htenantLimit
  refine bind_check ?_ fun _ hquotaFits => ?_
  · rintro failure h ⟨_, _, _, hdue⟩
    have hquotaDue := hdue.quota
    rw [hindex hdue] at hquotaDue
    cases h.symm.trans (refuseExceeded_eq_ok_iff.mpr (hquotaDue tenantLimit htenantLimit))
  have hquotaFits := refuseExceeded_eq_ok_iff.mp hquotaFits
  have hrecovUsage := exists_getElem? hs.sizes.recoveryPools hi .zero
  apply bind_orFence_some (congrArg (Option.map (·.shared)) hrecovUsage)
  obtain ⟨sharedShare, hsharedShare⟩ : ∃ share, s.recoveryTenantSharedFair[i]? = some share :=
    ⟨_, exists_getElem? htopo.length_shared hlt .zero⟩
  apply bind_orFence_some hsharedShare
  refine bind_fencing ?_ fun _ hcombined => ?_
  · rintro failure h ⟨_, _, _, hdue⟩
    have hcombinedDue := hdue.combined
    rw [hindex hdue] at hcombinedDue
    cases h.symm.trans (refuseTenantRecoverySharedFairShare_eq_ok (hcombinedDue sharedShare hsharedShare))
  have hcombined := refuseTenantRecoverySharedFairShare_ok hcombined
  obtain ⟨tenantCandidate, htenant⟩ := checkedAdd_of_lt fun d =>
    Nat.lt_of_le_of_lt (hquotaFits d) (tenantLimit.value_lt d)
  apply bind_orFence_some htenant
  have hpoolUsage := exists_getElem? hs.sizes.pools hi .zero
  apply bind_orFence_some hpoolUsage
  obtain ⟨fairShare, hfairShare⟩ : ∃ share, s.tenantFairCapacities[i]? = some share :=
    ⟨_, exists_getElem? htopo.length_fair hlt .zero⟩
  apply bind_orFence_some hfairShare
  refine bind_fencing ?_ fun charge hcharge => ?_
  · rintro failure h ⟨hready, j, p, hdue⟩
    have htenantCovered := hready.ceilings.tenantPool i fairShare hfairShare
    have htenantDue := hdue.tenantPool
    rw [hindex hdue] at htenantDue
    have hroom : ∃ charge, planPoolCharge claim.kind.workClass claim.amounts ⟨inner.poolCapacities,
        s.poolUsage, fairShare, s.ordinaryTenantPoolUsage.getD i .zero⟩ s.diskPressure sharedEligible =
          .ok charge :=
      planPoolCharge_of_room hdue.ofClass ⟨hready.ceilings.pool .shared, hready.ceilings.pool p⟩
        ⟨htenantCovered .shared, htenantCovered p⟩ hdue.pool (htenantDue fairShare hfairShare)
    obtain ⟨charge, hcharge⟩ := hroom
    cases h.symm.trans hcharge
  obtain ⟨hclass, hparts, hpoolFits, htenantFits⟩ := planPoolCharge_ok hcharge
  obtain ⟨poolCandidate, hpool⟩ := hpoolFits.checkedAdd
  apply bind_orFence_some hpool
  obtain ⟨tenantPoolCandidate, htenantPool⟩ := htenantFits.checkedAdd
  apply bind_orFence_some htenantPool
  have hcount := fun {a : Account} => hs.count_lt (a := a) (by omega)
  obtain ⟨ordinaryCount, hordCount, hordCountVal⟩ := checkedAdd_one (hcount (.inl rfl))
  apply bind_orFence_some hordCount
  obtain ⟨classCount, hclassCount, hclassCountVal⟩ := checkedAdd_one
    (hcount (a := .classCount claim.kind.workClass) (.inr (.inr (.inr (.inl ⟨_, rfl⟩)))))
  apply bind_orFence_some hclassCount
  have htenantCountUsage := exists_getElem? hs.sizes.outstanding hi (Unsigned.zero 32)
  obtain ⟨tenantCount, htenantCount, htenantCountVal⟩ := checkedAdd_one
    (hcount (a := .tenantCount i) (.inr (.inr (.inr (.inr ⟨_, rfl⟩)))))
  apply bind_orFence_some (a := tenantCount)
  · rw [htenantCountUsage]
    exact htenantCount
  have hplan : OrdinaryPlan tenants claim s i charge ⟨i, claim.kind.workClass, totalCandidate,
      tenantCandidate, poolCandidate, tenantPoolCandidate, outstanding, ordinaryCount, classCount,
      tenantCount⟩ := {
    tenants_le := hs.tenants_le
    index_lt := hi
    ofClass := hclass
    parts := hparts
    tenantIndex := rfl
    cls := rfl
    shift := {
      total := checkedAdd_eq_some_iff.mp htotal
      tenant := ⟨_, htenantUsage, checkedAdd_eq_some_iff.mp htenant⟩
      pool := PoolCapacities.checkedAdd_eq_some_iff.mp hpool
      tenantPool := ⟨_, hpoolUsage, PoolCapacities.checkedAdd_eq_some_iff.mp htenantPool⟩
      outstanding := houtstVal
      ordinaryCount := hordCountVal
      classCount := hclassCountVal
      tenantCount := ⟨_, htenantCountUsage, htenantCountVal⟩ } }
  refine (grantOrdinary_spec hs hplan hvalid).weaken (fun _ h => h) ?_ fun _ _ h => h
  rintro r s' ⟨record, hwritten, howned, hresv, hadmitted, hgeneration⟩
  exact ⟨i, charge, record, {
    opened := ⟨hopen, hshutdown⟩
    registered := hreg
    progress := hprogress
    operation := hvalid
    capacity := hcap
    combined := by
      intro share hshare d
      rw [hsharedShare] at hshare
      cases hshare
      exact hcombined d
    ofClass := hclass
    parts := hparts
    poolFits := hpoolFits
    tenantFits := by
      intro share hshare
      rw [hfairShare] at hshare
      cases hshare
      exact htenantFits
    written := hwritten
    owned := howned
    reservation := hresv
    admitted := hadmitted
    generation := hgeneration }⟩

end Walk

end Positron.Governor
