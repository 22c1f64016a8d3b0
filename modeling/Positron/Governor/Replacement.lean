import Positron.Governor.RecoverySpec

/-! What the replacement of ordinary work does, and that of recovery work. -/

namespace Positron.Governor
open MachineInt Slots Checks Triples ResourceAmounts GrantRecord RecoveryPoolUsage OrdinaryPool

def Enrolled (s : AccountingState) : Prop :=
  ∀ i, s.tenantQuotas.length ≤ i → balance s (.tenantCount i) = 0

structure OrdinaryWithout (s : AccountingState) (i : Nat) (charge : PoolCharge) (old : ResourceAmounts)
    (view : OrdinaryResizeView) : Prop where
  total : ∀ d, view.totalWithout.value d + old.value d = balance s (.total d)
  tenant : ∀ d, view.tenantWithout.value d + old.value d = balance s (.ordinaryTenant i d)
  pool : ∀ p d, view.poolWithout.value p d + charge.capacities.value p d = balance s (.pool p d)
  tenantPool : ∀ p d, view.tenantPoolWithout.value p d + charge.capacities.value p d =
    balance s (.tenantPool i p d)

/-- Beside the other work, the new charge keeps every limit. -/
structure GrowthFits (inner : GovernorInner) (s : AccountingState) (i : Nat) (view : OrdinaryResizeView)
    (new : ResourceAmounts) (charge : PoolCharge) : Prop where
  capacity : ∀ d, view.totalWithout.value d + new.value d + balance s (.recoveryShared d) ≤
    inner.ordinaryCeiling.value d + balance s (.recovery d)
  limit : ∃ limit : ResourceAmounts, ∀ d, view.tenantWithout.value d + new.value d ≤ limit.value d
  combined : ∃ share, s.recoveryTenantSharedFair[i]? = some share ∧ ∀ d,
    view.tenantWithout.value d + balance s (.tenantShared i d) + new.value d ≤ share.value d
  poolFits : PoolFits inner.poolCapacities view.poolWithout charge
  tenantFits : ∃ share, s.tenantFairCapacities[i]? = some share ∧ PoolFits share view.tenantPoolWithout charge

def PoolCharge.Shrinks (old new : PoolCharge) : Prop :=
  ∀ d, new.shared.value d ≤ old.shared.value d ∧ new.protectedPart.value d ≤ old.protectedPart.value d

theorem PoolCharge.Shrinks.capacities_le {old new : PoolCharge} (h : old.Shrinks new)
    (hclass : new.classPool = old.classPool) (p : OrdinaryPool) (d : ResourceDimension) :
    new.capacities.value p d ≤ old.capacities.value p d := by
  rw [PoolCharge.value_capacities, PoolCharge.value_capacities, hclass]
  split
  · exact (h d).2
  · split
    · exact (h d).1
    · exact Nat.le_refl 0

/-- A replacement of ordinary work: the charge it gives up, the one it takes, and why it fits. -/
structure OrdinaryReplacement (inner : GovernorInner) (tenants : Nat) (request : ResizeRequest)
    (record : GrantRecord) (s : GovernorState) (i : Nat) (charge charge' : PoolCharge) (new : GrantRecord)
    (r : ResizeCommit) (s' : GovernorState) : Prop where
  opened : s.lifecycle ≠ .fenced
  owner : request.owner = ⟨.ordinary i, some charge, none⟩
  newOwner : r.owner = ⟨.ordinary i, some charge', none⟩
  samePool : charge'.classPool = charge.classPool
  parts : ∀ d, charge'.shared.value d + charge'.protectedPart.value d = request.new.value d
  planned : charge.Shrinks charge' ∨ ∃ view, OrdinaryWithout s i charge request.old view ∧
    GrowthFits inner s i view request.new charge'
  written : GrantRecord.new r.owner request.identity request.new new.operation = some new
  owned : new.owner = some r.owner
  replaced : Replaced tenants request.slot record new s s'

section Plan

variable {inner : GovernorInner} {s : GovernorState} {request : ResizeRequest} {i : Nat}
  {cls : WorkClass} {charge' : PoolCharge} {view : OrdinaryResizeView}

theorem tenantResizeLimits_eq_some {limits : TenantResizeLimits} (h : tenantResizeLimits s i = some limits) :
    (∀ d, limits.recoverySharedUsage.value d = balance s (.tenantShared i d)) ∧
      s.recoveryTenantSharedFair[i]? = some limits.recoverySharedLimit ∧
      s.tenantFairCapacities[i]? = some limits.tenantCapacity := by
  obtain ⟨usage, husage, h⟩ := Option.bind_eq_some_iff.mp h
  obtain ⟨limit, _, h⟩ := Option.bind_eq_some_iff.mp h
  obtain ⟨share, hshare, h⟩ := Option.bind_eq_some_iff.mp h
  obtain ⟨pools, hpools, h⟩ := Option.bind_eq_some_iff.mp h
  cases h
  refine ⟨fun d => ?_, hshare, hpools⟩
  rw [balance, getD_of_some husage]

theorem planOrdinaryGrowth_ok (h : planOrdinaryGrowth inner s request i cls view = .ok charge') :
    forClass cls = some charge'.classPool ∧
      (∀ d, charge'.shared.value d + charge'.protectedPart.value d = request.new.value d) ∧
      GrowthFits inner s i view request.new charge' := by
  obtain ⟨_, _, h⟩ := bind_ok h
  obtain ⟨_, _, h⟩ := bind_ok h
  obtain ⟨limits, hlimits, h⟩ := bind_ok h
  obtain ⟨husage, hshare, hpools⟩ := tenantResizeLimits_eq_some (orFail_eq_ok_iff.mp hlimits)
  obtain ⟨_, _, h⟩ := bind_ok h
  obtain ⟨ordinaryWithout, hord, h⟩ := bind_ok h
  obtain ⟨_, hcap, h⟩ := bind_ok h
  obtain ⟨_, hquota, h⟩ := bind_ok h
  obtain ⟨_, hcombined, h⟩ := bind_ok h
  obtain ⟨shared, _, h⟩ := bind_ok h
  obtain ⟨hclass, hparts, hpoolFits, htenantFits⟩ := planPoolCharge_ok h
  refine ⟨hclass, hparts, ⟨fun d => ?_, ⟨_, refuseExceeded_eq_ok_iff.mp hquota⟩,
    ⟨_, hshare, fun d => ?_⟩, hpoolFits, _, hpools, htenantFits⟩⟩
  · have h₁ := (refuseOrdinaryCapacity_ok hcap d).2
    have h₂ := checkedSub_eq_some_iff.mp (orFail_eq_ok_iff.mp hord) d
    simp only [balance]
    dsimp only at h₁
    omega
  · have h₁ := refuseTenantRecoverySharedFairShare_ok hcombined d
    rw [husage] at h₁
    exact h₁

end Plan

section Moves

variable {inner : GovernorInner} {tenants : Nat} {s : GovernorState} {request : ResizeRequest}
  {record : GrantRecord} {i : Nat} {cls : WorkClass} {charge charge' : PoolCharge}
  {view : OrdinaryResizeView}

section Cancel

variable {c : OrdinaryCommit} (h : OrdinaryTaken s charge request.old c)
include h

theorem OrdinaryTaken.without : OrdinaryWithout s c.tenantIndex charge request.old
    ⟨c.totalCandidate, c.tenantCandidate, c.poolCandidate, c.tenantPoolCandidate⟩ := by
  obtain ⟨usage, husage, htenant⟩ := h.shift.tenant
  obtain ⟨pools, hpools, htenantPool⟩ := h.shift.tenantPool
  refine ⟨h.shift.total, fun d => ?_, h.shift.pool, fun p d => ?_⟩
  · rw [balance, getD_of_some husage]
    exact htenant d
  · rw [balance, getD_of_some hpools]
    exact htenantPool p d

theorem OrdinaryTaken.cancel (hentry : entry s.grantRecords request.slot = some record) :
    (cancelOrdinary request c.tenantIndex c.cls
      ⟨c.totalCandidate, c.tenantCandidate, c.poolCandidate, c.tenantPoolCandidate⟩).run s =
      (settleSlot (retainedAt c.cls) request.slot record).run (commitOrdinary c s) := by
  have hrec : (commitOrdinary c s).record request.slot = some record := hentry
  simp only [cancelOrdinary, run_get_bind, run_modify_bind, pure_bind, orFence, h.outstanding, h.ordinaryCount,
    h.tenantCount, h.classCount, hrec]

end Cancel

theorem commitOrdinary_usage (cls : WorkClass) {count : U32} (hcount : s.tenantOutstanding[i]? = some count)
    (total tenant : ResourceAmounts) (pool tenantPool : PoolCapacities) :
    ({ s with
        ordinaryTenantUsage := s.ordinaryTenantUsage.set i tenant
        ordinaryTenantPoolUsage := s.ordinaryTenantPoolUsage.set i tenantPool
        totalUsage := total
        poolUsage := pool } : GovernorState) =
      commitOrdinary ⟨i, cls, total, tenant, pool, tenantPool, s.outstanding, s.outstandingOrdinary,
        s.classCounts cls, count⟩ s := by
  obtain ⟨hlt, hval⟩ := List.getElem?_eq_some_iff.mp hcount
  have hset : s.tenantOutstanding.set i count = s.tenantOutstanding := by
    rw [← hval]
    exact List.set_getElem_self hlt
  simp only [commitOrdinary, Function.update_eq_self, hset]

variable {principal : Option PrincipalId} {tenant : TenantId} {kind : WorkKind}

theorem replaceOrdinary_spec (hs : Sound inner tenants s) {hword : i < 2 ^ 16}
    (hid : request.identity = .ordinary tenant principal kind)
    (howner : request.owner = ⟨.ordinary i, some charge, none⟩)
    (hentry : entry s.grantRecords request.slot = some record) (hlive : record.isReleased = false)
    (hactive : s.slotSignals[request.slot]? = some .active)
    (hrec : record = ⟨request.old, charge.shared, ⟨i, hword⟩, some tenant, principal, .ordinary kind,
      record.operation⟩) (hi : i < tenants) (hopen : s.lifecycle ≠ .fenced)
    (hclass : forClass kind.workClass = some charge.classPool)
    (hparts : ∀ d, charge.shared.value d + charge.protectedPart.value d = request.old.value d)
    (hwithout : OrdinaryWithout s i charge request.old view)
    (hclass' : forClass kind.workClass = some charge'.classPool)
    (hparts' : ∀ d, charge'.shared.value d + charge'.protectedPart.value d = request.new.value d)
    (hplanned : charge.Shrinks charge' ∨ GrowthFits inner s i view request.new charge') :
    Triple (· = s) (replaceOrdinary request i kind.workClass view charge')
      (fun r s' => ∃ new, OrdinaryReplacement inner tenants request record s i charge charge' new r s')
      (ResizeRefused request record s) := by
  have hsame : charge'.classPool = charge.classPool := Option.some.inj (hclass'.symm.trans hclass)
  have hshrinks : charge.Shrinks charge' → ∀ d, request.new.value d ≤ request.old.value d := by
    intro h d
    have h₁ := h d
    have h₂ := hparts d
    have h₃ := hparts' d
    omega
  apply bind_orFence
  swap
  · intro _
    exact .fenced rfl
  intro total htotal
  obtain ⟨tenantCandidate, htenant⟩ := checkedAdd_of_lt
    (a := view.tenantWithout) (b := request.new) fun d => by
      rcases hplanned with h | hfits
      · have h₁ := hwithout.tenant d
        have h₂ := hshrinks h d
        have h₃ := (s.ordinaryTenantUsage.getD i .zero).value_lt d
        simp only [balance] at h₁
        omega
      · obtain ⟨limit, hlimit⟩ := hfits.limit
        exact Nat.lt_of_le_of_lt (hlimit d) (limit.value_lt d)
  apply bind_orFence_some htenant
  have hpools : ∀ usage : PoolCapacities, (∀ p d, usage.value p d + charge.capacities.value p d < 2 ^ 64) →
      (charge.Shrinks charge' ∨ ∃ capacity, PoolFits capacity usage charge') →
      ∃ candidate, usage.checkedAdd charge'.capacities = some candidate := by
    rintro usage hlt (h | ⟨capacity, h⟩)
    · apply PoolCapacities.checkedAdd_of_lt
      intro p d
      have h₁ := hlt p d
      have h₂ := h.capacities_le hsame p d
      omega
    · exact h.checkedAdd
  obtain ⟨pool, hpool⟩ := hpools view.poolWithout (fun p d => by
      rw [hwithout.pool]
      exact s.poolUsage.value_lt p d) (hplanned.imp_right fun h => ⟨_, h.poolFits⟩)
  apply bind_orFence_some hpool
  obtain ⟨tenantPool, htenantPool⟩ := hpools view.tenantPoolWithout (fun p d => by
      rw [hwithout.tenantPool]
      exact (s.ordinaryTenantPoolUsage.getD i .zero).value_lt p d)
    (hplanned.imp_right fun h => h.tenantFits.imp fun _ hshare => hshare.2)
  apply bind_orFence_some htenantPool
  have hcount := exists_getElem? hs.sizes.outstanding hi (Unsigned.zero 32)
  apply Triple.bind_modify
  rw [commitOrdinary_usage kind.workClass hcount]
  have hshift : OrdinaryShift ⟨i, kind.workClass, total, tenantCandidate, pool, tenantPool, s.outstanding,
      s.outstandingOrdinary, s.classCounts kind.workClass, s.tenantOutstanding.getD i (Unsigned.zero 32)⟩
      s (charge.share request.old 1) (charge'.share request.new 1) := {
    total := fun d => moved_of_without (checkedAdd_eq_some_iff.mp htotal d) (hwithout.total d)
    tenant := ⟨_, exists_getElem? hs.sizes.ordinary hi .zero, fun d =>
      moved_of_without (checkedAdd_eq_some_iff.mp htenant d) (hwithout.tenant d)⟩
    pool := fun p d => moved_of_without (PoolCapacities.checkedAdd_eq_some_iff.mp hpool p d) (hwithout.pool p d)
    tenantPool := ⟨_, exists_getElem? hs.sizes.pools hi .zero, fun p d =>
      moved_of_without (PoolCapacities.checkedAdd_eq_some_iff.mp htenantPool p d) (hwithout.tenantPool p d)⟩
    outstanding := rfl
    ordinaryCount := rfl
    classCount := rfl
    tenantCount := ⟨_, hcount, rfl⟩ }
  have haccts := hshift.reaccounted
  have hnew := new_ordinary hword charge' tenant principal kind request.new record.operation
  have hnewOwner := owner_ordinary hs.tenants_le hi hword hclass' hparts' (some tenant) principal
    record.operation
  have holdOwner := owner_ordinary hs.tenants_le hi hword hclass hparts (some tenant) principal
    record.operation
  rw [← hrec] at holdOwner
  have hnewEq : (⟨request.new, charge'.shared, ⟨i, hword⟩, some tenant, principal, .ordinary kind,
      record.operation⟩ : GrantRecord) = { record with amounts := request.new, shared := charge'.shared } := by
    rw [hrec]
  rw [hnewEq] at hnew hnewOwner
  rw [← hid] at hnew
  rw [howner]
  have hreplaced := replaced_eq_some hnew ⟨rfl, rfl, rfl, rfl⟩
  exact .of_run (commitReplacement_run hactive hentry hreplaced) ⟨_, {
    opened := hopen
    owner := howner
    newOwner := rfl
    samePool := hsame
    parts := hparts'
    planned := hplanned.imp_right fun h => ⟨view, hwithout, h⟩
    written := hnew
    owned := hnewOwner
    replaced := by
      refine .of_reaccounted (hs.formed _ _ hentry) hentry hlive (fun d => Nat.le.intro (hparts' d))
        ⟨haccts.frame, haccts.sizes, fun a => ?_⟩
      rw [load_eq hnewOwner hlive, load_eq holdOwner hlive, hrec]
      exact haccts.moved a }⟩

theorem planOrdinaryReplacement_ok (hclass : forClass cls = some charge.classPool)
    (h : planOrdinaryReplacement inner s request charge i cls view = .ok charge') :
    forClass cls = some charge'.classPool ∧
      (∀ d, charge'.shared.value d + charge'.protectedPart.value d = request.new.value d) ∧
      (charge.Shrinks charge' ∨ GrowthFits inner s i view request.new charge') := by
  unfold planOrdinaryReplacement at h
  split at h
  · obtain ⟨hsame, hshrunk⟩ := PoolCharge.shrinkTo_eq_some (orFail_eq_ok_iff.mp h)
    rw [hsame]
    exact ⟨hclass, fun d => (hshrunk d).2.2, .inl fun d => ⟨(hshrunk d).1, (hshrunk d).2.1⟩⟩
  · split at h
    · rename_i planned hplan
      cases h
      obtain ⟨hclass', hparts', hfits⟩ := planOrdinaryGrowth_ok hplan
      exact ⟨hclass', hparts', .inr hfits⟩
    · cases h

theorem planOrdinaryReplacement_error
    (hparts : ∀ d, charge.shared.value d + charge.protectedPart.value d = request.old.value d)
    {failure : ResizeFailure} (h : planOrdinaryReplacement inner s request charge i cls view = .error failure) :
    ∃ refusal, failure = .admission refusal
      (if request.preserveExisting then .capacityRetained else .cancelledBeforeLimit) := by
  unfold planOrdinaryReplacement at h
  split at h
  · rename_i hsmall
    have hfits : ∀ d, request.new.value d ≤ charge.shared.value d + charge.protectedPart.value d := by
      intro d
      rw [hparts]
      exact hsmall d
    obtain ⟨shrunk, hshrunk⟩ := PoolCharge.shrinkTo_of_le hfits
    rw [hshrunk] at h
    cases h
  · split at h
    · cases h
    · cases h
      exact ⟨_, rfl⟩

theorem resizeOrdinaryLocked_spec (hs : Sound inner tenants s)
    (hid : request.identity = .ordinary tenant principal kind)
    (hheld : Held request.slot request.owner request.identity request.old record s)
    (hactive : s.slotSignals[request.slot]? = some .active) :
    ∃ i charge, request.owner = ⟨.ordinary i, some charge, none⟩ ∧
      Triple (· = s) (resizeOrdinaryLocked inner request i kind.workClass) (fun r s' => ∃ charge' new,
          OrdinaryReplacement inner tenants request record s i charge charge' new r s')
        (ResizeRefused request record s) := by
  have hunmarked := hs.slots.unmarked hactive
  have hentry := hheld.occupied
  have hlive := hheld.live
  rw [hid] at hheld
  obtain ⟨i, charge, hword, hi, howner, hclass, hparts, hrec⟩ := hheld.ordinary hs
  have hload : ∀ a, record.load a = ordinaryLoad i kind.workClass (charge.share request.old 1) a := by
    intro a
    have howned := hheld.owned
    rw [howner] at howned
    rw [load_eq howned hlive, hrec]
    rfl
  have hle := fun a => (hload a).symm.trans_le (hs.load_le hentry a)
  refine ⟨i, charge, howner, ?_⟩
  apply Triple.bind_get
  apply Triple.bind_require
  swap
  · intro hfenced
    exact .kept rfl (.inl rfl)
  intro hopen
  apply bind_orFence_some (congrArg ChargeOwner.pools howner)
  obtain ⟨c, rfl, hcls, htaken⟩ := exists_ordinaryTaken hs.sizes hi hle
  have hwithout := htaken.without
  apply bind_orFence_some htaken.total
  apply bind_orFence_some htaken.tenant
  apply bind_orFence_some htaken.pool
  apply bind_orFence_some htaken.tenantPool
  dsimp only
  split
  · rename_i charge' hplan
    obtain ⟨hclass', hparts', hplanned⟩ := planOrdinaryReplacement_ok hclass hplan
    refine (replaceOrdinary_spec hs hid howner hentry hlive hactive hrec hi hopen hclass hparts
      hwithout hclass' hparts' hplanned).weaken (fun _ h => h) ?_ fun _ _ h => h
    rintro r s' ⟨new, hrepl⟩
    exact ⟨charge', new, hrepl⟩
  · rename_i failure hplan
    obtain ⟨refusal, rfl⟩ := planOrdinaryReplacement_error hparts hplan
    unfold settleRefusal disposeRefused
    by_cases hinternal : refusal.code = .internalFenced
    · have hcode : (ResizeFailure.admission refusal
          (if request.preserveExisting then .capacityRetained else .cancelledBeforeLimit)).code =
          .internalFenced := if_pos hinternal
      simp only [hcode]
      apply Triple.bind_modify
      exact .throw_known (.fenced hcode)
    · have hcode : (ResizeFailure.admission refusal
          (if request.preserveExisting then .capacityRetained else .cancelledBeforeLimit)).code =
          .admissionRefused := if_neg hinternal
      simp only [hcode]
      have hkeeps : request.keeps = request.preserveExisting := by rw [ResizeRequest.keeps, hid]
      cases hpreserve : request.preserveExisting with
      | true =>
        exact .throw_known (.kept rfl (.inr (hkeeps.trans hpreserve)))
      | false =>
        have haccts := htaken.reaccounted
        have hcomps := htaken.release
        have hcancel := htaken.cancel hentry
        rw [hcls] at haccts hcomps hcancel
        rw [← funext hload] at haccts
        obtain ⟨s', hrel, hrun, hsettle⟩ := hs.settles hentry hlive hunmarked (howner ▸ hheld.owned)
          haccts (by rw [hrec]; exact hcomps)
        apply Triple.bind_run (hcancel.trans (hsettle _))
        exact .throw_known (.cancelled rfl hrel (hkeeps.trans hpreserve) hrun)

end Moves

structure RecoveryWithout (s : AccountingState) (i : Option Nat) (charge : RecoveryPoolCharge)
    (old : ResourceAmounts) (view : RecoveryResizeView) : Prop where
  total : ∀ d, view.totalWithout.value d + old.value d = balance s (.total d)
  recovery : ∀ d, view.recoveryWithout.value d + old.value d = balance s (.recovery d)
  ordinary : ∀ d, view.ordinaryUsage.value d + balance s (.recovery d) = balance s (.total d)
  shared : ∀ d, view.poolWithout.shared.value d + charge.shared.value d = balance s (.recoveryShared d)
  protectedPart : ∀ k d, (view.poolWithout.protectedPart k).value d +
    (if k = charge.kind then charge.protectedPart.value d else 0) = balance s (.recoveryProtected k d)
  scope : ∃ held, scopeUsage s i = some held ∧
    (∀ d, view.scopeWithout.shared.value d + charge.shared.value d = held.shared.value d) ∧
    ∀ k d, (view.scopeWithout.protectedPart k).value d +
      (if k = charge.kind then charge.protectedPart.value d else 0) = (held.protectedPart k).value d

/-- Beside the other work, the new charge keeps every limit. -/
structure RecoveryFits (inner : GovernorInner) (s : AccountingState) (i : Option Nat)
    (view : RecoveryResizeView) (new : ResourceAmounts) (charge : RecoveryPoolCharge) : Prop where
  total : ∀ d, view.totalWithout.value d + new.value d ≤ inner.totalCeiling.value d
  shared : ∀ d, view.poolWithout.shared.value d + view.ordinaryUsage.value d + charge.shared.value d ≤
    inner.recoverySharedCapacity.value d
  protectedPart : ∀ d, (view.poolWithout.protectedPart charge.kind).value d +
    charge.protectedPart.value d ≤ (inner.recoveryPoolCapacities.get charge.kind).value d
  scopeShared : ∀ d, view.scopeWithout.shared.value d + charge.shared.value d < 2 ^ 64
  scopeProtected : ∀ d, (view.scopeWithout.protectedPart charge.kind).value d +
    charge.protectedPart.value d < 2 ^ 64
  scope : ScopeFits s i view.scopeWithout charge

/-- A replacement of recovery work: the charge it gives up, the one it takes, and why it fits. -/
structure RecoveryReplacement (inner : GovernorInner) (tenants : Nat) (request : ResizeRequest)
    (record : GrantRecord) (s : GovernorState) (i : Option Nat) (charge charge' : RecoveryPoolCharge)
    (new : GrantRecord) (r : ResizeCommit) (s' : GovernorState) : Prop where
  opened : s.lifecycle ≠ .fenced
  owner : request.owner = ⟨.recovery i, none, some charge⟩
  newOwner : r.owner = ⟨.recovery i, none, some charge'⟩
  sameKind : charge'.kind = charge.kind
  parts : ∀ d, charge'.shared.value d + charge'.protectedPart.value d = request.new.value d
  planned : ∃ view, RecoveryWithout s i charge request.old view ∧
    RecoveryFits inner s i view request.new charge'
  written : GrantRecord.new r.owner request.identity request.new new.operation = some new
  owned : new.owner = some r.owner
  replaced : Replaced tenants request.slot record new s s'

section Plan

variable {inner : GovernorInner} {s : GovernorState} {request : ResizeRequest}
  {i : Option Nat} {kind : RecoveryWorkKind} {charge' : RecoveryPoolCharge}
  {view : RecoveryResizeView}

theorem planRecoveryReplacement_ok (h : planRecoveryReplacement inner s request i kind view = .ok charge') :
    charge'.kind = kind ∧ (∀ d, charge'.shared.value d + charge'.protectedPart.value d = request.new.value d) ∧
      RecoveryFits inner s i view request.new charge' := by
  obtain ⟨_, _, h⟩ := bind_ok h
  obtain ⟨_, _, h⟩ := bind_ok h
  obtain ⟨_, _, h⟩ := bind_ok h
  obtain ⟨scopeView, hscopeView, h⟩ := bind_ok h
  obtain ⟨planned, hplanned, h⟩ := bind_ok h
  obtain ⟨_, htotal, h⟩ := bind_ok h
  cases h
  have hscopeView := orFail_eq_ok_iff.mp hscopeView
  obtain ⟨rfl, hparts, hglob, hscope⟩ := planRecoveryCharge_ok (planRecovery_ok hplanned)
  have husage := recoveryScopeView_usage hscopeView
  refine ⟨rfl, hparts, ⟨refuseExceeded_eq_ok_iff.mp htotal, fun d => (hglob d).1,
    fun d => (hglob d).2, fun d => ?_, fun d => ?_, scopeView_fits rfl hscopeView hscope⟩⟩
  · have h₁ := (hscope d).1
    have h₂ := scopeView.sharedCapacity.value_lt d
    rw [husage] at h₁
    omega
  · have h₁ := (hscope d).2
    have h₂ := scopeView.protectedCapacity.value_lt d
    rw [husage] at h₁
    omega

end Plan

section Moves

variable {inner : GovernorInner} {tenants : Nat} {s : GovernorState} {request : ResizeRequest}
  {record : GrantRecord} {i : Option Nat} {charge charge' : RecoveryPoolCharge}
  {view : RecoveryResizeView}

section Cancel

variable {c : RecoveryCommit} {ordinaryUsage : ResourceAmounts} (h : RecoveryTaken s charge request.old c)
include h

theorem RecoveryTaken.without
    (hord : ∀ d, ordinaryUsage.value d + balance s (.recovery d) = balance s (.total d)) :
    RecoveryWithout s c.tenantIndex charge request.old ⟨c.totalCandidate, c.recoveryCandidate, ordinaryUsage,
      c.poolCandidate, c.scopeCandidate, c.tenantCandidate⟩ :=
  ⟨h.shift.total, h.shift.recovery, hord, h.shift.shared, h.shift.protectedPart, h.shift.scope⟩

theorem RecoveryTaken.cancel (hkind : ¬ charge.kind.retainsCapacityOnResizeFailure)
    (hplain : record.operation = none) :
    (cancelRecovery request c.tenantIndex ⟨c.totalCandidate, c.recoveryCandidate, ordinaryUsage,
      c.poolCandidate, c.scopeCandidate, c.tenantCandidate⟩).run s =
      (settleSlot (retainedAt .durabilityRecovery) request.slot record).run (commitRecovery c s) := by
  have hnone := Option.some.inj ((if_neg hkind).symm.trans h.uninterruptible)
  simp only [cancelRecovery, settleSlot, hplain, run_get_bind, run_modify_bind, pure_bind, orFence, h.outstanding,
    h.recoveryCount, h.tenantCount, h.classCount, hnone]

end Cancel

theorem commitRecovery_usage (hi : ∀ j, i = some j → j < s.tenantOutstanding.length)
    (total recovery : ResourceAmounts) (tenant : Option ResourceAmounts) (pool scope : RecoveryPoolUsage) :
    ({ s with
        totalUsage := total
        recoveryUsage := recovery
        recoveryPoolUsage := pool
        recoveryTenantUsage := setTenant s.recoveryTenantUsage i tenant
        recoveryTenantPoolUsage := setTenant s.recoveryTenantPoolUsage i (some scope)
        recoverySystemPoolUsage :=
          if i.isNone then scope else s.recoverySystemPoolUsage } : GovernorState) =
      commitRecovery ⟨i, total, recovery, tenant, pool, scope, s.outstanding, s.outstandingRecovery,
        s.classCounts .durabilityRecovery, i.bind (s.tenantOutstanding[·]?), none⟩ s := by
  have hset : setTenant s.tenantOutstanding i (i.bind (s.tenantOutstanding[·]?)) =
      s.tenantOutstanding := by
    cases i with
    | none => rfl
    | some j =>
      have hj := hi j rfl
      rw [Option.bind_some, List.getElem?_eq_getElem hj]
      exact List.set_getElem_self hj
  simp only [commitRecovery, Function.update_eq_self, hset, Option.getD_none]

variable {kind : RecoveryWorkKind} {scope : RecoveryScope} (hs : Sound inner tenants s)
include hs

theorem replaceRecovery_run (hi : ∀ j, i = some j → j < tenants)
    {hword : ∀ j, i = some j → j < 2 ^ 16} (hid : request.identity = .recovery scope kind)
    (howner : request.owner = ⟨.recovery i, none, some charge⟩)
    (hentry : entry s.grantRecords request.slot = some record) (hlive : record.isReleased = false)
    (hactive : s.slotSignals[request.slot]? = some .active)
    (hrec : record = ⟨request.old, charge.shared, storedIndexOf i hword, none, none, .recovery kind, none⟩)
    (hopen : s.lifecycle ≠ .fenced) (hkind : charge.kind = kind)
    (hparts : ∀ d, charge.shared.value d + charge.protectedPart.value d = request.old.value d)
    (hwithout : RecoveryWithout s i charge request.old view) {recovery : ResourceAmounts}
    {tenant : Option ResourceAmounts}
    (hrecov : ∀ d, recovery.value d = view.recoveryWithout.value d + request.new.value d)
    (htenant : ∀ d, TenantShift (fun u => u.value d) s.recoveryTenantUsage i tenant
      (request.old.value d) (request.new.value d)) (hkind' : charge'.kind = kind)
    (hparts' : ∀ d, charge'.shared.value d + charge'.protectedPart.value d = request.new.value d)
    (hfits : RecoveryFits inner s i view request.new charge') :
    ∃ new s', RecoveryReplacement inner tenants request record s i charge charge' new
        ⟨⟨.recovery i, none, some charge'⟩, resizeOutcome request.old request.new⟩ s' ∧
      (replaceRecovery request i view recovery tenant charge').run s =
        .ok ⟨⟨.recovery i, none, some charge'⟩, resizeOutcome request.old request.new⟩ s' := by
  subst hkind
  obtain ⟨total, htotal⟩ := checkedAdd_of_lt fun d =>
    Nat.lt_of_le_of_lt (hfits.total d) (inner.totalCeiling.value_lt d)
  obtain ⟨pool, hpool⟩ := @checkedAdd_of_lt charge' view.poolWithout (fun d => by
      have h₁ := hfits.shared d
      have h₂ := inner.recoverySharedCapacity.value_lt d
      omega) fun d =>
    Nat.lt_of_le_of_lt (hfits.protectedPart d) (value_lt _ d)
  obtain ⟨scopePool, hscope⟩ := checkedAdd_of_lt hfits.scopeShared hfits.scopeProtected
  have hpoolMoved := checkedAdd_eq_some hpool
  have hscopeMoved := checkedAdd_eq_some hscope
  obtain ⟨held, hheld, hheldShared, hheldProt⟩ := hwithout.scope
  have hcount : ∀ j, i = some j → j < s.tenantOutstanding.length := by
    intro j hj
    rw [hs.sizes.outstanding]
    exact hi j hj
  have husage := commitRecovery_usage hcount total recovery tenant pool scopePool
  obtain ⟨commit, hcommit⟩ : ∃ commit : RecoveryCommit, commit = ⟨i, total, recovery, tenant, pool,
      scopePool, s.outstanding, s.outstandingRecovery, s.classCounts .durabilityRecovery,
      i.bind (s.tenantOutstanding[·]?), none⟩ := ⟨_, rfl⟩
  rw [← hcommit] at husage
  have hshift : RecoveryShift commit s (charge.share request.old 1 (uninterruptibleLoad charge))
      (charge'.share request.new 1 (uninterruptibleLoad charge)) := by
    subst hcommit
    exact {
      total := fun d => moved_of_without (checkedAdd_eq_some_iff.mp htotal d) (hwithout.total d)
      recovery := fun d => moved_of_without (hrecov d) (hwithout.recovery d)
      tenant := htenant
      shared := fun d => moved_of_without (hpoolMoved d).1 (hwithout.shared d)
      protectedPart := fun k d => moved_of_without ((hpoolMoved d).2 k) (hwithout.protectedPart k d)
      scope := ⟨held, hheld, fun d => moved_of_without (hscopeMoved d).1 (hheldShared d),
        fun k d => moved_of_without ((hscopeMoved d).2 k) (hheldProt k d)⟩
      outstanding := rfl
      recoveryCount := rfl
      classCount := rfl
      tenantCount := by
        intro j hj
        subst hj
        have hval := List.getElem?_eq_getElem (hcount j rfl)
        exact ⟨_, _, hval, hval, rfl⟩
      uninterruptible := rfl }
  have haccts := hshift.reaccounted
  have hnew := new_recovery hword charge' scope charge'.kind request.new none
  have hnewOwner := owner_recovery hs.tenants_le hi hword hparts' none none none
  have holdOwner := owner_recovery hs.tenants_le hi hword hparts none none none
  rw [← hrec] at holdOwner
  have hnewEq : (⟨request.new, charge'.shared, storedIndexOf i hword, none, none, .recovery charge'.kind,
      none⟩ : GrantRecord) = { record with amounts := request.new, shared := charge'.shared } := by
    rw [hrec, hkind']
  have hplain : record.operation = none := by rw [hrec]
  rw [hnewEq] at hnew hnewOwner
  rw [hkind', ← hid, ← hplain] at hnew
  have hrun : (commitReplacement request ⟨.recovery i, none, some charge'⟩ .durabilityRecovery).run
      (commitRecovery commit s) = .ok _ _ :=
    commitReplacement_run hactive hentry (replaced_eq_some hnew ⟨rfl, rfl, rfl, rfl⟩)
  refine ⟨{ record with amounts := request.new, shared := charge'.shared },
    (commitRecovery commit s).put request.slot { record with amounts := request.new, shared := charge'.shared }, ?_, ?_⟩
  · exact {
      opened := hopen
      owner := howner
      newOwner := rfl
      sameKind := hkind'
      parts := hparts'
      planned := ⟨view, hwithout, hfits⟩
      written := hnew
      owned := hnewOwner
      replaced := by
        refine .of_reaccounted (hs.formed _ _ hentry) hentry hlive (fun d => Nat.le.intro (hparts' d))
          ⟨haccts.frame, haccts.sizes, fun a => ?_⟩
        have hmoved := haccts.moved a
        rw [hcommit] at hmoved ⊢
        rw [load_eq hnewOwner hlive, load_eq holdOwner hlive, hrec]
        exact hmoved }
  · simp only [replaceRecovery, run_modify_bind, pure_bind, orFence, htotal, hpool, hscope]
    rw [husage]
    exact hrun

theorem exists_tenantCandidate {old recoveryWithout recovery : ResourceAmounts} (new : ResourceAmounts)
    {without : Option ResourceAmounts} (htenant : tenantUsageWithout s i old = some without)
    (hwithout : ∀ d, recoveryWithout.value d + old.value d = balance s (.recovery d))
    (hrecov : ∀ d, recovery.value d = recoveryWithout.value d + new.value d) :
    ∃ candidate, tenantUsageWith without new = some candidate ∧
      ∀ d, TenantShift (fun u => u.value d) s.recoveryTenantUsage i candidate (old.value d) (new.value d) := by
  cases i with
  | none =>
    cases htenant
    exact ⟨none, rfl, fun _ => .system⟩
  | some j =>
    obtain ⟨amounts, hamounts, rfl⟩ := Option.map_eq_some_iff.mp htenant
    obtain ⟨usage, husage, hsub⟩ := Option.bind_eq_some_iff.mp hamounts
    have hsubVal := checkedSub_eq_some_iff.mp hsub
    obtain ⟨candidate, hadd⟩ := checkedAdd_of_lt (a := amounts) (b := new) fun d => by
      have h₁ := hsubVal d
      have h₂ := hs.recoveryTenant_le j d
      have h₃ := hwithout d
      have h₄ := hrecov d
      have h₅ := recovery.value_lt d
      simp only [balance, getD_of_some husage] at h₂ h₃
      omega
    refine ⟨some candidate, congrArg (Option.map some) hadd, fun d => .entry husage ?_⟩
    have h₁ := hsubVal d
    have h₂ := checkedAdd_eq_some_iff.mp hadd d
    omega

theorem resizeRecoveryLocked_spec (hid : request.identity = .recovery scope kind)
    (hheld : Held request.slot request.owner request.identity request.old record s)
    (hactive : s.slotSignals[request.slot]? = some .active) :
    ∃ i charge, request.owner = ⟨.recovery i, none, some charge⟩ ∧
      Triple (· = s) (resizeRecoveryLocked inner request i kind) (fun r s' => ∃ charge' new,
          RecoveryReplacement inner tenants request record s i charge charge' new r s')
        (ResizeRefused request record s) := by
  have hunmarked := hs.slots.unmarked hactive
  have hentry := hheld.occupied
  have hlive := hheld.live
  rw [hid] at hheld
  obtain ⟨i, charge, hword, hi, howner, hkind, hparts, hrec⟩ := hheld.recovery hs
  have hload : ∀ a, record.load a =
      recoveryLoad i (charge.share request.old 1 (uninterruptibleLoad charge)) a := by
    intro a
    have howned := hheld.owned
    rw [howner] at howned
    rw [load_eq howned hlive, hrec, ← hkind]
    rfl
  have hle := fun a => (hload a).symm.trans_le (hs.load_le hentry a)
  refine ⟨i, charge, howner, ?_⟩
  unfold resizeRecoveryLocked
  dsimp only
  apply Triple.bind_get
  apply Triple.bind_require
  swap
  · intro hfenced
    exact .kept rfl (.inl rfl)
  intro hopen
  apply bind_orFence_some (congrArg ChargeOwner.recoveryPools howner)
  obtain ⟨c, rfl, htaken⟩ := exists_recoveryTaken hs.sizes hi hle
  have htotalVal := htaken.shift.total
  have hrecovVal := htaken.shift.recovery
  apply bind_orFence_some htaken.total
  apply bind_orFence_some htaken.recovery
  have hordLe : ∀ d, c.recoveryCandidate.value d ≤ c.totalCandidate.value d := by
    intro d
    have h₁ := htotalVal d
    have h₂ := hrecovVal d
    have h₃ := hs.recovery_le_total d
    simp only [balance] at h₃
    omega
  obtain ⟨ordinaryUsage, hord⟩ := checkedSub_of_le hordLe
  apply bind_orFence_some hord
  apply bind_orFence
  swap
  · intro _
    exact .fenced rfl
  intro recoveryCandidate hcand
  have hcandVal := checkedAdd_eq_some_iff.mp hcand
  apply bind_orFence_some htaken.pool
  apply bind_orFence_some htaken.scope
  obtain ⟨tenantCandidate, htenantCand, htenantShift⟩ :=
    exists_tenantCandidate hs request.new htaken.tenant hrecovVal hcandVal
  apply bind_orFence_some htaken.tenant
  apply bind_orFence_some htenantCand
  have hordVal : ∀ d, ordinaryUsage.value d + balance s (.recovery d) = balance s (.total d) := by
    intro d
    have h₁ := checkedSub_eq_some_iff.mp hord d
    have h₂ := htotalVal d
    have h₃ := hrecovVal d
    simp only [balance]
    omega
  have hwithout := htaken.without hordVal
  split
  · rename_i charge' hplan
    obtain ⟨hkind', hparts', hfits⟩ := planRecoveryReplacement_ok hplan
    obtain ⟨new, s', hrepl, hrun⟩ := replaceRecovery_run hs hi hid howner hentry hlive hactive
      hrec hopen hkind hparts hwithout hcandVal htenantShift hkind' hparts' hfits
    exact .of_run hrun ⟨charge', new, hrepl⟩
  · unfold settleRecoveryRefusal
    have hkeeps : request.keeps = (request.preserveExisting || kind.retainsCapacityOnResizeFailure) := by
      rw [ResizeRequest.keeps, hid]
    by_cases hretain : (request.preserveExisting || kind.retainsCapacityOnResizeFailure)
    · rw [if_pos hretain, if_pos hretain]
      exact .throw_known (.kept rfl (.inr (hkeeps.trans hretain)))
    · have hplain : record.operation = none := by rw [hrec]
      rw [if_neg hretain, if_neg hretain]
      rw [Bool.eq_false_of_not_eq_true hretain] at hkeeps
      rw [Bool.or_eq_true, not_or, ← hkind] at hretain
      have haccts := htaken.reaccounted
      rw [← funext hload] at haccts
      obtain ⟨s', hrel, hrun, hsettle⟩ := hs.settles hentry hlive hunmarked (howner ▸ hheld.owned)
        haccts (by rw [hrec, ← hkind]; exact htaken.release)
      apply Triple.bind_run ((htaken.cancel hretain.2 hplain).trans (hsettle _))
      exact .throw_known (.cancelled rfl hrel hkeeps hrun)

end Moves

end Positron.Governor
