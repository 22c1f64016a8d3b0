import Positron.Governor.OrdinaryAdmission

/-! What the admission of recovery work does. The replacement of a grant in its slot, and the ways in which a
replacement is refused. -/

namespace Positron.Governor
open MachineInt Triples ResourceAmounts Triple Slots

/-- Beside the usage, the charge fits the scope it is made for: the system, or one tenant. -/
def ScopeFits (s : AccountingState) (i : Option Nat) (usage : RecoveryPoolUsage)
    (charge : RecoveryPoolCharge) : Prop :=
  match i with
  | none => ∀ d, (usage.protectedPart charge.kind).value d + charge.protectedPart.value d ≤
      (s.recoverySystemPoolCapacities.get charge.kind).value d
  | some j =>
    (∀ share, s.recoveryTenantSharedFair[j]? = some share → ∀ d,
      usage.shared.value d + balance s (.ordinaryTenant j d) + charge.shared.value d ≤ share.value d) ∧
    ∀ pools, s.recoveryTenantPoolFair[j]? = some pools → ∀ d,
      (usage.protectedPart charge.kind).value d + charge.protectedPart.value d ≤
        (pools.get charge.kind).value d

/-- An admitted recovery claim: what it was charged and the limits it kept. -/
structure RecoveryAdmission (inner : GovernorInner) (tenants : Nat) (claim : RecoveryWorkClaim)
    (s : GovernorState) (r : ResourceReservation) (s' : GovernorState) (i : Option Nat)
    (charge : RecoveryPoolCharge) (record : GrantRecord) : Prop where
  opened : s.lifecycle ≠ .fenced
  registered : recoveryTenantIndex s claim.scope = .ok i
  progress : s.outstanding.1 + 1 + (missingClasses s .durabilityRecovery +
    missingTenants s i) ≤ inner.maximumOutstanding.1
  total : ∀ d, balance s (.total d) + claim.amounts.value d ≤ inner.totalCeiling.value d
  kind : charge.kind = claim.kind
  parts : ∀ d, charge.shared.value d + charge.protectedPart.value d = claim.amounts.value d
  shared : ∀ d, balance s (.total d) + balance s (.recoveryShared d) + charge.shared.value d ≤
      inner.recoverySharedCapacity.value d + balance s (.recovery d)
  protectedPart : ∀ d, balance s (.recoveryProtected charge.kind d) +
    charge.protectedPart.value d ≤ (inner.recoveryPoolCapacities.get charge.kind).value d
  scope : ∃ usage, scopeUsage s i = some usage ∧ ScopeFits s i usage charge
  written : GrantRecord.new r.owner r.identity r.amounts record.operation = some record
  owned : record.owner = some r.owner
  reservation : r = ⟨r.slot, ⟨.recovery i, none, some charge⟩, .recovery claim.scope claim.kind,
    claim.amounts, none, true⟩
  plain : record.operation = none
  admitted : Admitted tenants r.slot record s s'

section Tail

variable {inner : GovernorInner} {tenants : Nat} {s t : GovernorState} {claim : RecoveryWorkClaim}
  {i : Option Nat} {slot : Nat} {charge : RecoveryPoolCharge} {commit : RecoveryCommit}

structure RecoveryPlan (tenants : Nat) (claim : RecoveryWorkClaim) (s : GovernorState) (i : Option Nat)
    (charge : RecoveryPoolCharge) (commit : RecoveryCommit) : Prop where
  tenants_le : tenants ≤ maxTenantQuotas
  index_lt : ∀ j, i = some j → j < tenants
  kind : charge.kind = claim.kind
  parts : ∀ d, charge.shared.value d + charge.protectedPart.value d = claim.amounts.value d
  tenantIndex : commit.tenantIndex = i
  shift : RecoveryShift commit s .none (charge.share claim.amounts 1
    (if (GrantKind.recovery charge.kind).isUninterruptible then 1 else 0))

theorem RecoveryPlan.index_lt_word (h : RecoveryPlan tenants claim s i charge commit) :
    ∀ j, i = some j → j < 2 ^ 16 := by
  intro j hj
  have h₁ := h.tenants_le
  have h₂ := h.index_lt j hj
  simp only [maxTenantQuotas] at h₁
  omega

theorem RecoveryShift.admits {record : GrantRecord} {minus plus : RecoveryShare}
    (h : RecoveryShift commit s minus plus) (hadmits : Admits slot record s t) :
    RecoveryShift commit t minus plus := by
  rw [hadmits.frame]
  exact ⟨h.total, h.recovery, h.tenant, h.shared, h.protectedPart, h.scope, h.outstanding,
    h.recoveryCount, h.classCount, h.tenantCount, h.uninterruptible⟩

def recoveryRecord (amounts : ResourceAmounts) (charge : RecoveryPoolCharge) (i : Option Nat)
    (hi : ∀ j, i = some j → j < 2 ^ 16) : GrantRecord :=
  ⟨amounts, charge.shared, storedIndexOf i hi, none, none, .recovery charge.kind, none⟩

theorem RecoveryPlan.admitted (h : RecoveryPlan tenants claim s i charge commit)
    (hfree : s.freeSlots.head? = some slot) :
    Admitted tenants slot (recoveryRecord claim.amounts charge i h.index_lt_word) s
      (commitRecovery commit (s.occupied slot (recoveryRecord claim.amounts charge i h.index_lt_word))) where
  free := hfree
  formed := by
    refine ⟨fun d => ?_, ?_, (fun h => by cases h), (fun h => by cases h)⟩
    · have hd := h.parts d
      simp only [recoveryRecord]
      omega
    · cases i with
      | none => exact .inl rfl
      | some j => exact .inr (h.index_lt j rfl)
  committed := by
    have hadmits : Admits slot (recoveryRecord claim.amounts charge i h.index_lt_word) s _ := .plain rfl
    refine ⟨_, hadmits, ?_⟩
    have hmoves := (h.shift.admits hadmits).reaccounted
    refine ⟨hmoves.frame, hmoves.sizes, fun a => ?_⟩
    have hmoved := hmoves.moved a
    rw [recoveryLoad_none, h.tenantIndex] at hmoved
    have howner : (recoveryRecord claim.amounts charge i h.index_lt_word).owner =
        some ⟨.recovery i, none, some charge⟩ :=
      owner_recovery h.tenants_le h.index_lt h.index_lt_word h.parts _ _ _
    rw [GrantRecord.load_eq howner rfl]
    exact hmoved

theorem grantRecovery_spec (hs : Sound inner tenants s) (hplan : RecoveryPlan tenants claim s i charge commit) :
    Triple (· = s) (grantRecovery claim ⟨.recovery i, none, some charge⟩ commit)
      (fun r s' => ∃ record : GrantRecord,
        GrantRecord.new r.owner r.identity r.amounts record.operation = some record ∧
        record.owner = some r.owner ∧
        r = ⟨r.slot, ⟨.recovery i, none, some charge⟩, .recovery claim.scope claim.kind, claim.amounts,
          none, true⟩ ∧ record.operation = none ∧ Admitted tenants r.slot record s s')
      (Refused s False) := by
  have hnew := new_recovery hplan.index_lt_word charge claim.scope charge.kind claim.amounts none
  unfold grantRecovery
  rw [← hplan.kind]
  apply bind_orFence_some hnew
  apply bind_activateSlot hs.slots
  · intro hempty
    exact bind_orFence_none (.fences rfl id)
  · intro slot hfree
    apply bind_orFence_some rfl
    apply bind_modify
    apply pure_known
    exact ⟨_, hnew, owner_recovery hplan.tenants_le hplan.index_lt hplan.index_lt_word hplan.parts _ _ _,
      rfl, rfl, hplan.admitted hfree⟩

end Tail

section Views

variable {inner : GovernorInner} {tenants : Nat} {s : GovernorState} {i : Option Nat}
  {kind : RecoveryWorkKind} {ordinaryUsage : ResourceAmounts} {usage : RecoveryPoolUsage}
  {view : RecoveryPoolView}

theorem exists_scopeUsage (hs : Sound inner tenants s) (hi : ∀ j, i = some j → j < tenants) :
    ∃ usage, scopeUsage s i = some usage := by
  cases i with
  | none => exact ⟨_, rfl⟩
  | some j => exact ⟨_, exists_getElem? hs.sizes.recoveryPools (hi j rfl) .zero⟩

theorem exists_scopeView (hs : Sound inner tenants s) (htopo : TopologySound inner tenants s)
    (hi : ∀ j, i = some j → j < s.tenantQuotas.length) (kind : RecoveryWorkKind)
    (ordinaryUsage : ResourceAmounts) (usage : RecoveryPoolUsage) :
    ∃ view, recoveryScopeView inner s i kind ordinaryUsage usage = some view := by
  cases i with
  | none => exact ⟨_, rfl⟩
  | some j =>
    have hj := hi j rfl
    have hshared := exists_getElem? htopo.length_shared hj .zero
    have hord := exists_getElem? hs.sizes.ordinary (Nat.lt_of_lt_of_le hj htopo.quotas_le) .zero
    obtain ⟨pools, hpools⟩ : ∃ pools, s.recoveryTenantPoolFair[j]? = some pools :=
      ⟨_, List.getElem?_eq_getElem (htopo.length_pools ▸ hj)⟩
    simp only [recoveryScopeView, hshared, hpools, hord]
    exact ⟨_, rfl⟩

theorem recoveryScopeView_some {j : Nat}
    (h : recoveryScopeView inner s (some j) kind ordinaryUsage usage = some view) :
    ∃ share pools, s.recoveryTenantSharedFair[j]? = some share ∧ s.recoveryTenantPoolFair[j]? = some pools ∧
      view = ⟨share, pools.get kind, usage, s.ordinaryTenantUsage.getD j .zero⟩ := by
  obtain ⟨share, hshare, h⟩ := Option.bind_eq_some_iff.mp h
  obtain ⟨pools, hpools, h⟩ := Option.bind_eq_some_iff.mp h
  obtain ⟨ordinary, hord, h⟩ := Option.bind_eq_some_iff.mp h
  cases h
  exact ⟨share, pools, hshare, hpools, by rw [getD_of_some hord]⟩

theorem recoveryScopeView_usage (h : recoveryScopeView inner s i kind ordinaryUsage usage = some view) :
    view.usage = usage := by
  cases i with
  | none =>
    cases h
    rfl
  | some j =>
    obtain ⟨_, _, _, _, rfl⟩ := recoveryScopeView_some h
    rfl

theorem scopeView_fits {charge : RecoveryPoolCharge} (hkind : charge.kind = kind)
    (h : recoveryScopeView inner s i kind ordinaryUsage usage = some view)
    (hfits : view.Fits charge) : ScopeFits s i usage charge := by
  subst hkind
  cases i with
  | none =>
    cases h
    exact fun d => (hfits d).2
  | some j =>
    obtain ⟨share, pools, hshare, hpools, rfl⟩ := recoveryScopeView_some h
    refine ⟨fun share' hshare' d => ?_, fun pools' hpools' d => ?_⟩
    · cases hshare.symm.trans hshare'
      exact (hfits d).1
    · cases hpools.symm.trans hpools'
      exact (hfits d).2

end Views

section Walk

variable {inner : GovernorInner} {tenants : Nat} {s : GovernorState} {i : Option Nat}
variable {failure : AdmissionFailure} {kind : RecoveryWorkKind} {requested : ResourceAmounts}
  {globalView scopeView : RecoveryPoolView} {pressure : DiskPressureState}

theorem recoveryTenantIndex_ok {scope : RecoveryScope} (h : recoveryTenantIndex s scope = .ok i) :
    ∀ j, i = some j → j < s.tenantQuotas.length := by
  intro j hj
  subst hj
  cases scope with
  | system => cases h
  | tenant tenant =>
    cases hindex : tenantIndexOf s tenant .durabilityRecovery with
    | error failure =>
      rw [recoveryTenantIndex, hindex] at h
      cases h
    | ok index =>
      rw [recoveryTenantIndex, hindex] at h
      cases h
      obtain ⟨quota, hquota, _⟩ := tenantIndexOf_ok hindex
      exact (List.getElem?_eq_some_iff.mp hquota).1

variable {β : Type} {R : β → GovernorState → Prop} {E : AdmissionFailure → GovernorState → Prop}

theorem bind_recoveryTenantCandidate (hs : Sound inner tenants s)
    (hi : ∀ j, i = some j → j < s.tenantQuotas.length ∧ j < tenants) {amounts : ResourceAmounts}
    (hfits : ∀ d, balance s (.total d) + amounts.value d < 2 ^ 64) {f : Option ResourceAmounts → Admission β}
    (hok : ∀ candidate, (∀ d, TenantShift (fun u => u.value d) s.recoveryTenantUsage i candidate 0
      (amounts.value d)) → Triple (· = s) (f candidate) R E)
    (herror : ∀ failure : AdmissionFailure, E failure s) :
    Triple (· = s) (recoveryTenantCandidate i amounts >>= f) R E := by
  cases i with
  | none =>
    exact hok none fun _ => .system
  | some j =>
    obtain ⟨hj, hj'⟩ := hi j rfl
    have husage := exists_getElem? hs.sizes.recovery hj' .zero
    have hord := exists_getElem? hs.sizes.ordinary hj' .zero
    unfold recoveryTenantCandidate
    simp only [bind_assoc]
    apply bind_get
    apply bind_orFence_some husage
    obtain ⟨candidate, hcand⟩ := checkedAdd_of_lt
      (a := s.recoveryTenantUsage.getD j .zero) (b := amounts) fun d => by
        have h₁ := hfits d
        have h₂ := hs.tenant_le_total j d
        simp only [balance] at h₁ h₂
        omega
    apply bind_orFence_some hcand
    apply bind_orFence_some hord
    apply bind_orFence_some (List.getElem?_eq_getElem hj)
    obtain ⟨combined, hcombined⟩ := checkedAdd_of_lt
      (a := s.ordinaryTenantUsage.getD j .zero) (b := s.recoveryTenantUsage.getD j .zero) fun d =>
        Nat.lt_of_le_of_lt (hs.tenant_le_total j d) (s.totalUsage.value_lt d)
    apply bind_orFence_some hcombined
    apply bind_lift
    · intro _ _
      exact hok _ fun d => .entry husage (checkedAdd_eq_some_iff.mp hcand d)
    · intro failure h
      exact herror failure

variable {f : Option U32 → Admission β} {charge : RecoveryPoolCharge}

theorem bind_countTenant (hs : Sound inner tenants s) (hi : ∀ j, i = some j → j < tenants)
    (hcount : ∀ j, balance s (.tenantCount j) + 1 < 2 ^ 32)
    (hok : ∀ count, TenantShift (fun u : U32 => u.1) s.tenantOutstanding i count 0 1 →
      Triple (· = s) (f count) R E) : Triple (· = s) (countTenant s i >>= f) R E := by
  cases i with
  | none =>
    exact hok none .system
  | some j =>
    have husage := exists_getElem? hs.sizes.outstanding (hi j rfl) (Unsigned.zero 32)
    obtain ⟨count, hadd, hval⟩ := checkedAdd_one (hcount j)
    unfold countTenant
    rw [bind_map_left]
    apply bind_orFence_some (a := count)
    · rw [husage]
      exact hadd
    · exact hok _ (.entry husage hval)

theorem bind_countUninterruptible (kind : RecoveryWorkKind)
    (hcount : balance s .uninterruptibleCount + 1 < 2 ^ 32)
    (hok : ∀ count : Option U32, (count.getD s.outstandingUninterruptible).1 =
        s.outstandingUninterruptible.1 + (if (GrantKind.recovery kind).isUninterruptible then 1 else 0) →
      Triple (· = s) (f count) R E) : Triple (· = s) (countUninterruptible s kind >>= f) R E := by
  have hkind : (GrantKind.recovery kind).isUninterruptible = kind.retainsCapacityOnResizeFailure := rfl
  unfold countUninterruptible
  split
  · rename_i hretains
    obtain ⟨count, hadd, hval⟩ := checkedAdd_one hcount
    rw [bind_map_left]
    apply bind_orFence_some hadd
    refine hok _ ?_
    rw [hkind, if_pos hretains]
    exact hval
  · rename_i hretains
    refine hok none ?_
    rw [hkind, if_neg hretains]
    rfl

theorem planRecovery_ok {tenant : Bool}
    (h : planRecovery kind requested globalView scopeView tenant pressure = .ok charge) :
    planRecoveryCharge kind requested globalView scopeView = .ok charge := by
  unfold planRecovery at h
  split at h
  · cases h
    assumption
  · cases h

theorem RecoveryPoolView.Fits.checkedAdd {view : RecoveryPoolView}
    (h : view.Fits charge) : ∃ candidate, view.usage.checkedAdd charge = some candidate := by
  apply RecoveryPoolUsage.checkedAdd_of_lt
  · intro d
    have h₁ := (h d).1
    have h₂ := view.sharedCapacity.value_lt d
    omega
  · intro d
    have h₁ := (h d).2
    have h₂ := view.protectedCapacity.value_lt d
    omega

theorem reserveRecoveryLocked_spec (hs : Sound inner tenants s)
    (htopo : TopologySound inner tenants s) (claim : RecoveryWorkClaim) :
    Triple (· = s) (reserveRecoveryLocked inner claim)
      (fun r s' => ∃ i charge record, RecoveryAdmission inner tenants claim s r s' i charge record)
      (Refused s False) := by
  apply bind_get
  apply bind_require
  swap
  · intro _
    exact .stays id
  intro _
  refine bind_check (fun _ _ => id) fun i hreg => ?_
  have hregLt := recoveryTenantIndex_ok hreg
  have hi : ∀ j, i = some j → j < tenants := fun j hj =>
    Nat.lt_of_lt_of_le (hregLt j hj) htopo.quotas_le
  refine bind_check (fun _ _ => id) fun outstanding houtst => ?_
  obtain ⟨hopen, houtstVal, hprogress⟩ := requireHealthyAndSlot_ok houtst
  rw [houtstVal] at hprogress
  refine bind_check (fun _ _ => id) fun _ _ => ?_
  refine bind_check (fun _ _ => id) fun _ htotalFits => ?_
  have htotalFits := refuseExceeded_eq_ok_iff.mp htotalFits
  have htotalLt : ∀ d, balance s (.total d) + claim.amounts.value d < 2 ^ 64 :=
    fun d => Nat.lt_of_le_of_lt (htotalFits d) (inner.totalCeiling.value_lt d)
  obtain ⟨totalCandidate, htotal⟩ := checkedAdd_of_lt htotalLt
  apply bind_orFence_some htotal
  obtain ⟨recoveryCandidate, hrecov⟩ := checkedAdd_of_lt
    (a := s.recoveryUsage) (b := claim.amounts) fun d => by
      have h₁ := htotalLt d
      have h₂ := hs.recovery_le_total d
      simp only [balance] at h₁ h₂
      omega
  apply bind_orFence_some hrecov
  obtain ⟨ordinaryUsage, hord⟩ := checkedSub_of_le fun d => hs.recovery_le_total d
  have hordVal := checkedSub_eq_some_iff.mp hord
  apply bind_orFence_some hord
  apply bind_recoveryTenantCandidate hs (fun j hj => ⟨hregLt j hj, hi j hj⟩) htotalLt
  swap
  · intro failure
    exact .stays id
  intro tenantCandidate htenant
  obtain ⟨usage, husage⟩ := exists_scopeUsage hs hi
  apply bind_orFail_some husage
  obtain ⟨scopeView, hscopeView⟩ :=
    exists_scopeView hs htopo hregLt claim.kind ordinaryUsage usage
  apply bind_orFail_some hscopeView
  refine bind_fencing (fun _ _ => id) fun charge hcharge => ?_
  obtain ⟨hkind, hparts, hglobFits, hscopeFits⟩ := planRecoveryCharge_ok (planRecovery_ok hcharge)
  obtain ⟨poolCandidate, hpool⟩ := hglobFits.checkedAdd
  apply bind_orFail_some hpool
  obtain ⟨scopeCandidate, hscope⟩ := hscopeFits.checkedAdd
  rw [recoveryScopeView_usage hscopeView] at hscope
  apply bind_orFail_some hscope
  have hcount := fun {a : Account} => hs.count_lt (a := a) (by omega)
  obtain ⟨recoveryCount, hrecovCount, hrecovCountVal⟩ := checkedAdd_one (hcount (.inr (.inl rfl)))
  apply bind_orFence_some hrecovCount
  apply bind_countUninterruptible claim.kind (hcount (.inr (.inr (.inl rfl))))
  intro uninterruptibleCount hunint
  obtain ⟨classCount, hclassCount, hclassCountVal⟩ := checkedAdd_one
    (hcount (a := .classCount .durabilityRecovery) (.inr (.inr (.inr (.inl ⟨_, rfl⟩)))))
  apply bind_orFence_some hclassCount
  apply bind_countTenant hs hi fun j => hcount (.inr (.inr (.inr (.inr ⟨_, rfl⟩))))
  intro tenantCount htenantCount
  have hplan : RecoveryPlan tenants claim s i charge ⟨i, totalCandidate, recoveryCandidate,
      tenantCandidate, poolCandidate, scopeCandidate, outstanding, recoveryCount, classCount,
      tenantCount, uninterruptibleCount⟩ := {
    tenants_le := hs.tenants_le
    index_lt := hi
    kind := hkind
    parts := hparts
    tenantIndex := rfl
    shift := {
      total := checkedAdd_eq_some_iff.mp htotal
      recovery := checkedAdd_eq_some_iff.mp hrecov
      tenant := htenant
      shared := fun d => (RecoveryPoolUsage.checkedAdd_eq_some hpool d).1
      protectedPart := fun k d => (RecoveryPoolUsage.checkedAdd_eq_some hpool d).2 k
      scope := ⟨usage, husage, fun d => (RecoveryPoolUsage.checkedAdd_eq_some hscope d).1,
        fun k d => (RecoveryPoolUsage.checkedAdd_eq_some hscope d).2 k⟩
      outstanding := houtstVal
      recoveryCount := hrecovCountVal
      classCount := hclassCountVal
      tenantCount := htenantCount
      uninterruptible := by
        rw [hkind]
        exact hunint } }
  refine (grantRecovery_spec hs hplan).weaken (fun _ h => h) ?_ fun _ _ h => h
  rintro r s' ⟨record, hwritten, howned, hresv, hplain, hadmitted⟩
  exact ⟨i, charge, record, {
    opened := hopen
    registered := hreg
    progress := hprogress
    total := htotalFits
    kind := hkind
    parts := hparts
    shared := by
      intro d
      have h₁ := (hglobFits d).1
      have h₂ := hordVal d
      simp only [recoveryGlobalView] at h₁
      simp only [balance]
      omega
    protectedPart := by
      intro d
      rw [hkind]
      have h₁ := (hglobFits d).2
      rw [hkind] at h₁
      exact h₁
    scope := ⟨usage, husage, scopeView_fits hkind hscopeView hscopeFits⟩
    written := hwritten
    owned := howned
    reservation := hresv
    plain := hplain
    admitted := hadmitted }⟩

end Walk

/-- The record in a slot is the one its holder's charge was written as. -/
structure Held (slot : Nat) (owner : ChargeOwner) (identity : ReservationIdentity)
    (amounts : ResourceAmounts) (record : GrantRecord) (s : GovernorState) : Prop where
  occupied : entry s.grantRecords slot = some record
  live : record.isReleased = false
  written : GrantRecord.new owner identity amounts record.operation = some record
  owned : record.owner = some owner

theorem moved_of_without {candidate without old new held : Nat} (hcand : candidate = without + new)
    (hwithout : without + old = held) : candidate + old = held + new := by
  omega

/-- A grant gives way to one with another load, in the same slot and for the same operation. -/
structure Replaced (tenants slot : Nat) (old new : GrantRecord) (s s' : GovernorState) : Prop where
  occupied : entry s.grantRecords slot = some old
  live : old.isReleased = false
  formed : new.Formed tenants
  operation : new.operation = old.operation
  committed : ∃ t, Reaccounted s t (fun a => old.load a) (fun a => new.load a) ∧ s' = t.put slot new

namespace Replaced

variable {tenants slot : Nat} {old new : GrantRecord} {s s' : GovernorState} {inner : GovernorInner}

theorem of_reaccounted {t : GovernorState} {amounts shared : ResourceAmounts} (hformed : old.Formed tenants)
    (hentry : entry s.grantRecords slot = some old) (hlive : old.isReleased = false)
    (hshared : ∀ d, shared.value d ≤ amounts.value d)
    (h : Reaccounted s t (fun a => old.load a) fun a => { old with amounts := amounts, shared := shared }.load a) :
    Replaced tenants slot old { old with amounts := amounts, shared := shared }
      s (t.put slot { old with amounts := amounts, shared := shared }) where
  occupied := hentry
  live := hlive
  formed := ⟨hshared, hformed.indexed, hformed.operated, fun h => Bool.noConfusion (hlive.symm.trans h)⟩
  operation := rfl
  committed := ⟨t, h, rfl⟩

variable (h : Replaced tenants slot old new s s')
include h

theorem isReleased_eq : new.isReleased = false := by
  have hlive := h.live
  unfold GrantRecord.isReleased at hlive ⊢
  rw [h.operation]
  exact hlive

theorem frame : s' = (s.adopt s').put slot new := by
  obtain ⟨t, haccts, rfl⟩ := h.committed
  have haccounted := haccts.frame
  rw [haccounted]
  rfl

theorem moved (a : Account) : balance s' a + old.load a = balance s a + new.load a := by
  obtain ⟨t, haccts, rfl⟩ := h.committed
  exact haccts.moved a

theorem entry_slot : entry s'.grantRecords slot = some new := by
  rw [h.frame]
  exact entry_set_self (lt_of_entry h.occupied) _

theorem sound (hs : Sound inner tenants s) : Sound inner tenants s' := by
  have hmoved := h.moved
  have hreleased := h.isReleased_eq
  obtain ⟨t, haccts, rfl⟩ := h.committed
  have hrecs := haccts.records_eq
  have hentry : entry t.grantRecords slot = some old := hrecs ▸ h.occupied
  refine {
    tenants_le := hs.tenants_le
    maximum_le := hs.maximum_le
    sizes := ?_
    length_records := ?_
    slots := (haccts.slotsSound hs.slots).put hentry fun _ => hreleased
    families := ?_
    formed := ?_
    balanced := ?_ }
  · have hsizes := haccts.sizes tenants hs.sizes
    exact ⟨hsizes.ordinary, hsizes.recovery, hsizes.recoveryPools, hsizes.pools, hsizes.outstanding⟩
  · rw [GovernorState.put, List.length_set, hrecs]
    exact hs.length_records
  · have hfams : Families t.grantRecords t.nextOperationGeneration := by
      rw [hrecs, haccts.generation_eq]
      exact hs.families
    exact hfams.rewrite hentry h.operation
  · intro i q hq
    simp only [GovernorState.put, entry_set (lt_of_entry hentry)] at hq
    split at hq
    · cases hq
      exact h.formed
    · exact hs.formed i q (hrecs ▸ hq)
  · intro a
    have htally := tally_set_some (GrantRecord.load a) hentry (some new)
    have hbalanced := hs.balanced a
    have hmoved := hmoved a
    have hput : (t.put slot new).grantRecords = t.grantRecords.set slot (some new) := rfl
    rw [Option.elim_some, ← hput, hrecs] at htally
    omega

theorem keepsOthers : KeepsOthers slot s s' := by
  rw [h.frame]
  exact .of_ne (fun j hj => entry_set_ne (Ne.symm hj) _) fun _ _ => rfl

end Replaced

theorem SlotsSound.unmarked {s : GovernorState} {slot : Nat} (hs : SlotsSound s)
    (hactive : s.slotSignals[slot]? = some .active) : pendingBit s.pendingWords slot = false := by
  rw [Bool.eq_false_iff]
  intro hset
  have hsignal := (hs.pending slot hset).1
  rw [hactive] at hsignal
  cases hsignal

namespace Held

variable {inner : GovernorInner} {tenants slot : Nat} {owner : ChargeOwner} {amounts : ResourceAmounts}
  {record : GrantRecord} {s : GovernorState}

theorem ordinary {tenant : TenantId} {principal : Option PrincipalId} {kind : WorkKind}
    (h : Held slot owner (.ordinary tenant principal kind) amounts record s) (hs : Sound inner tenants s) :
    ∃ (i : Nat) (charge : PoolCharge) (hi : i < 2 ^ 16), i < tenants ∧
      owner = ⟨.ordinary i, some charge, none⟩ ∧ OrdinaryPool.forClass kind.workClass = some charge.classPool ∧
      (∀ d, charge.shared.value d + charge.protectedPart.value d = amounts.value d) ∧
      record = ⟨amounts, charge.shared, ⟨i, hi⟩, some tenant, principal, .ordinary kind, record.operation⟩ := by
  obtain ⟨owner', howner, hfits⟩ := (hs.formed slot record h.occupied).owner_fits hs.tenants_le
  rw [h.owned] at howner
  cases howner
  have htenants := hs.tenants_le
  simp only [maxTenantQuotas] at htenants
  have hwritten := h.written
  rcases hfits with ⟨work, i, charge, hkind, rfl, hi, hclass, hsum⟩ | ⟨i, charge, hkind, rfl, hi, hsum⟩
  · rw [new_ordinary (by omega : i < 2 ^ 16)] at hwritten
    have hrec := (Option.some.inj hwritten).symm
    rw [hrec] at hkind hsum
    cases hkind
    exact ⟨i, charge, _, hi, rfl, hclass, hsum, hrec⟩
  · cases hwritten

theorem recovery {scope : RecoveryScope} {kind : RecoveryWorkKind}
    (h : Held slot owner (.recovery scope kind) amounts record s) (hs : Sound inner tenants s) :
    ∃ (i : Option Nat) (charge : RecoveryPoolCharge) (hi : ∀ j, i = some j → j < 2 ^ 16),
      (∀ j, i = some j → j < tenants) ∧ owner = ⟨.recovery i, none, some charge⟩ ∧ charge.kind = kind ∧
      (∀ d, charge.shared.value d + charge.protectedPart.value d = amounts.value d) ∧
      record = ⟨amounts, charge.shared, storedIndexOf i hi, none, none, .recovery kind, none⟩ := by
  obtain ⟨owner', howner, hfits⟩ := (hs.formed slot record h.occupied).owner_fits hs.tenants_le
  rw [h.owned] at howner
  cases howner
  have htenants := hs.tenants_le
  simp only [maxTenantQuotas] at htenants
  have hwritten := h.written
  rcases hfits with ⟨work, i, charge, hkind, rfl, hi, hclass, hsum⟩ | ⟨i, charge, hkind, rfl, hi, hsum⟩
  · cases hwritten
  · have hword : ∀ j, i = some j → j < 2 ^ 16 := by
      intro j hj
      have hlt := hi j hj
      omega
    rw [new_recovery hword] at hwritten
    have hrec := (Option.some.inj hwritten).symm
    -- recovery work belongs to no operation
    have hplain : record.operation = none := by
      cases hop : record.operation with
      | none => rfl
      | some operation =>
        have hord := ((hs.formed slot record h.occupied).operated (by rw [hop]; rfl)).2.2
        rw [hkind] at hord
        cases hord
    rw [hplain] at hrec
    rw [hrec] at hkind hsum
    cases hkind
    exact ⟨i, charge, hword, hi, rfl, rfl, hsum, hrec⟩

end Held

/-- Whether the grant outlives a refusal. -/
def ResizeRequest.keeps (request : ResizeRequest) : Bool :=
  match request.identity with
  | .ordinary _ _ _ => request.preserveExisting
  | .recovery _ kind => request.preserveExisting || kind.retainsCapacityOnResizeFailure

/-- The ways in which a replacement is refused: the grant stays, the governor is fenced, or the grant
is cancelled. -/
inductive ResizeRefused (request : ResizeRequest) (record : GrantRecord) (s : GovernorState)
    (failure : ResizeFailure) : GovernorState → Prop
  | kept (hretained : failure.disposition = .capacityRetained)
      (hkeeps : failure.code = .internalFenced ∨ request.keeps) : ResizeRefused request record s failure s
  | fenced (hcode : failure.code = .internalFenced) : ResizeRefused request record s failure s.fence
  | cancelled {s' : GovernorState} (hcancelled : failure.disposition = .cancelledBeforeLimit)
      (hreleased : Released request.slot record s s') (hkeeps : request.keeps = false)
      (hrun : (releaseSlotLocked request.slot).run s = .ok (releaseVerdict s) s') :
      ResizeRefused request record s failure s'

variable {record new : GrantRecord} {owner : ChargeOwner}

theorem commitReplacement_run {request : ResizeRequest} {cls : WorkClass}
    {t : GovernorState} (hactive : t.slotSignals[request.slot]? = some .active)
    (hentry : entry t.grantRecords request.slot = some record)
    (hnew : record.replaced owner request.identity request.new = some new) :
    (commitReplacement request owner cls).run t =
      .ok ⟨owner, resizeOutcome request.old request.new⟩ (t.put request.slot new) := by
  have hrec : t.record request.slot = some record := hentry
  have hreplace : (replaceSlotRecord request.slot owner request.identity request.new).run t =
      .ok true (t.put request.slot new) := by
    simp only [replaceSlotRecord, EStateM.run, if_pos hactive, hrec, Option.bind_some, hnew]
    rfl
  unfold commitReplacement
  rw [EStateM.run_bind, hreplace]
  rfl

theorem GrantRecord.replaced_eq_some {identity : ReservationIdentity} {amounts : ResourceAmounts}
    (hnew : GrantRecord.new owner identity amounts record.operation = some new)
    (hsame : new.kind = record.kind ∧ new.storedIndex = record.storedIndex ∧
      new.tenant = record.tenant ∧ new.principal = record.principal) :
    record.replaced owner identity amounts = some new := by
  unfold GrantRecord.replaced
  rw [hnew, Option.bind_eq_bind, Option.bind_some, if_pos hsame]

end Positron.Governor
