import Positron.Governor.Effects

/-! No call takes any part of the capacity beyond its ceiling, as long as the shares stay as they are. -/

namespace Positron.Governor
open GrantRecord ResourceReservation

section Moves

variable {inner : GovernorInner} {tenants : Nat} {s s' : GovernorState}

/-- Less usage of the same shares. The ordinary usage is the sum over its pools. -/
theorem Ceilings.less (hc : Ceilings inner s) (hs : Sound inner tenants s) (hs' : Sound inner tenants s')
    (hsame : s'.toTenantQuotaSuccessor = s.toTenantQuotaSuccessor) (hle : ∀ a, balance s' a ≤ balance s a) :
    Ceilings inner s'.toAccountingState := by
  constructor
  · exact fun p d => Nat.le_trans (hle _) (hc.pool p d)
  · rw [hsame]
    exact fun i share hshare p d => Nat.le_trans (hle _) (hc.tenantPool i share hshare p d)
  · rw [hsame]
    exact fun i share hshare d => Nat.le_trans (Nat.add_le_add (hle _) (hle _)) (hc.combined i share hshare d)
  · intro d
    have hsum := hs.poolSum_add_recovery d
    have hsum' := hs'.poolSum_add_recovery d
    have hpools := poolSum_le fun p => hle (.pool p d)
    have hshared := hle (.recoveryShared d)
    have hold := hc.shared d
    omega
  · exact fun k d => Nat.le_trans (hle _) (hc.protectedPart k d)
  · rw [hsame]
    exact fun k d => Nat.le_trans (hle _) (hc.system k d)
  · rw [hsame]
    exact fun i pools hpools k d => Nat.le_trans (hle _) (hc.tenantProtected i pools hpools k d)
  · exact fun d => Nat.le_trans (hle _) (hc.total d)

/-- Ordinary work beside the rest, which was within every ceiling before. -/
structure OrdinaryBeside (inner : GovernorInner) (s : AccountingState) (rest : Account → Nat) (i : Nat)
    (charge : PoolCharge) (amounts : ResourceAmounts) : Prop where
  rest_le : ∀ a, rest a ≤ balance s a
  capacity : ∀ d, rest (.total d) + amounts.value d + rest (.recoveryShared d) ≤
    inner.ordinaryCeiling.value d + rest (.recovery d)
  combined : ∀ share, s.recoveryTenantSharedFair[i]? = some share → ∀ d,
    rest (.ordinaryTenant i d) + rest (.tenantShared i d) + amounts.value d ≤ share.value d
  pool : ∀ p d, (p = .shared ∨ p = charge.classPool) →
    rest (.pool p d) + charge.capacities.value p d ≤ inner.poolCapacities.value p d
  tenantPool : ∀ share, s.tenantFairCapacities[i]? = some share → ∀ p d,
    (p = .shared ∨ p = charge.classPool) →
      rest (.tenantPool i p d) + charge.capacities.value p d ≤ share.value p d

variable {charge : PoolCharge} {amounts : ResourceAmounts}

theorem PoolCharge.capacities_other {p : OrdinaryPool}
    (h : ¬ (p = .shared ∨ p = charge.classPool)) (d : ResourceDimension) : charge.capacities.value p d = 0 := by
  rw [not_or] at h
  rw [PoolCharge.value_capacities, if_neg h.2, if_neg h.1]

theorem OrdinaryBeside.ceilings {rest : Account → Nat} {i : Nat} {cls : WorkClass}
    (h : OrdinaryBeside inner s rest i charge amounts) (hc : Ceilings inner s)
    (hp : Partitions inner) (hs' : Sound inner tenants s')
    (hsame : s'.toTenantQuotaSuccessor = s.toTenantQuotaSuccessor)
    (hmoved : ∀ a, balance s' a = rest a + ordinaryLoad i cls (charge.share amounts 1) a) :
    Ceilings inner s'.toAccountingState := by
  have hle := h.rest_le
  -- recovery work is left alone
  have hprot : ∀ k d, balance s' (.recoveryProtected k d) ≤ (inner.recoveryPoolCapacities.get k).value d := by
    intro k d
    rw [hmoved]
    exact Nat.le_trans (hle _) (hc.protectedPart k d)
  have hcap : ∀ d, balance s' (.total d) + balance s' (.recoveryShared d) ≤
        inner.ordinaryCeiling.value d + balance s' (.recovery d) := by
    intro d
    rw [hmoved, hmoved, hmoved]
    exact h.capacity d
  constructor
  · intro p d
    rw [hmoved]
    by_cases hused : p = .shared ∨ p = charge.classPool
    · exact h.pool p d hused
    · have hold := Nat.le_trans (hle (.pool p d)) (hc.pool p d)
      simp only [ordinaryLoad, PoolCharge.share, PoolCharge.capacities_other hused]
      exact hold
  · rw [hsame]
    intro j share hshare p d
    rw [hmoved]
    have hold := Nat.le_trans (hle (.tenantPool j p d)) (hc.tenantPool j share hshare p d)
    simp only [ordinaryLoad, PoolCharge.share]
    split
    · rename_i hj
      subst hj
      by_cases hused : p = .shared ∨ p = charge.classPool
      · exact h.tenantPool share hshare p d hused
      · rw [PoolCharge.capacities_other hused]
        exact hold
    · exact hold
  · rw [hsame]
    intro j share hshare d
    rw [hmoved, hmoved]
    have hold := Nat.le_trans (Nat.add_le_add (hle (.ordinaryTenant j d)) (hle (.tenantShared j d)))
      (hc.combined j share hshare d)
    simp only [ordinaryLoad, PoolCharge.share]
    split
    · rename_i hj
      subst hj
      have hnew := h.combined share hshare d
      omega
    · exact hold
  · intro d
    have hold := hcap d
    have hord := hp.ordinary_le_shared d
    omega
  · exact hprot
  · rw [hsame]
    intro k d
    rw [hmoved]
    exact Nat.le_trans (hle _) (hc.system k d)
  · rw [hsame]
    intro j pools hpools k d
    rw [hmoved]
    exact Nat.le_trans (hle _) (hc.tenantProtected j pools hpools k d)
  · intro d
    have hkinds := hs'.shared_add_kindSum d
    have hfloors := kindSum_le fun k => hprot k d
    have hreserve := hp.reserve d
    have hold := hcap d
    omega

/-- Recovery work beside the rest, which was within every ceiling before. -/
structure RecoveryBeside (inner : GovernorInner) (s : AccountingState) (rest : Account → Nat)
    (i : Option Nat) (charge : RecoveryPoolCharge) (amounts : ResourceAmounts) : Prop where
  rest_le : ∀ a, rest a ≤ balance s a
  total : ∀ d, rest (.total d) + amounts.value d ≤ inner.totalCeiling.value d
  shared : ∀ d, rest (.total d) + rest (.recoveryShared d) + charge.shared.value d ≤
    inner.recoverySharedCapacity.value d + rest (.recovery d)
  protectedPart : ∀ d, rest (.recoveryProtected charge.kind d) + charge.protectedPart.value d ≤
    (inner.recoveryPoolCapacities.get charge.kind).value d
  system : i = none → ∀ d, rest (.systemProtected charge.kind d) + charge.protectedPart.value d ≤
    (s.recoverySystemPoolCapacities.get charge.kind).value d
  combined : ∀ j share, i = some j → s.recoveryTenantSharedFair[j]? = some share → ∀ d,
    rest (.tenantShared j d) + rest (.ordinaryTenant j d) + charge.shared.value d ≤ share.value d
  tenantProtected : ∀ j pools, i = some j → s.recoveryTenantPoolFair[j]? = some pools → ∀ d,
    rest (.tenantProtected j charge.kind d) + charge.protectedPart.value d ≤ (pools.get charge.kind).value d

theorem RecoveryBeside.ceilings {rest : Account → Nat} {i : Option Nat} {charge : RecoveryPoolCharge} {u : Nat}
    (h : RecoveryBeside inner s rest i charge amounts)
    (hc : Ceilings inner s) (hsame : s'.toTenantQuotaSuccessor = s.toTenantQuotaSuccessor)
    (hmoved : ∀ a, balance s' a = rest a + recoveryLoad i (charge.share amounts 1 u) a) :
    Ceilings inner s'.toAccountingState := by
  have hle := h.rest_le
  constructor
  · intro p d
    rw [hmoved]
    exact Nat.le_trans (hle _) (hc.pool p d)
  · rw [hsame]
    intro j share hshare p d
    rw [hmoved]
    exact Nat.le_trans (hle _) (hc.tenantPool j share hshare p d)
  · rw [hsame]
    intro j share hshare d
    rw [hmoved, hmoved]
    have hold := Nat.le_trans (Nat.add_le_add (hle (.ordinaryTenant j d)) (hle (.tenantShared j d)))
      (hc.combined j share hshare d)
    simp only [recoveryLoad, RecoveryPoolCharge.share]
    split
    · rename_i hj
      have hnew := h.combined j share hj hshare d
      omega
    · exact hold
  · intro d
    rw [hmoved, hmoved, hmoved]
    have hnew := h.shared d
    simp only [recoveryLoad, RecoveryPoolCharge.share]
    omega
  · intro k d
    rw [hmoved]
    simp only [recoveryLoad, RecoveryPoolCharge.share]
    split
    · rename_i hk
      subst hk
      exact h.protectedPart d
    · exact Nat.le_trans (hle _) (hc.protectedPart k d)
  · rw [hsame]
    intro k d
    rw [hmoved]
    have hold := Nat.le_trans (hle (.systemProtected k d)) (hc.system k d)
    simp only [recoveryLoad, RecoveryPoolCharge.share]
    split
    · rename_i hi
      split
      · rename_i hk
        subst hk
        exact h.system hi d
      · exact hold
    · exact hold
  · rw [hsame]
    intro j pools hpools k d
    rw [hmoved]
    have hold := Nat.le_trans (hle (.tenantProtected j k d)) (hc.tenantProtected j pools hpools k d)
    simp only [recoveryLoad, RecoveryPoolCharge.share]
    split
    · rename_i hj
      split
      · rename_i hk
        subst hk
        exact h.tenantProtected j pools hj hpools d
      · exact hold
    · exact hold
  · intro d
    rw [hmoved]
    exact h.total d

end Moves

section Loads

theorem ite_le_ite {c : Prop} [Decidable c] {m n : Nat} (h : m ≤ n) :
    (if c then m else 0) ≤ if c then n else 0 := by
  split
  · exact h
  · exact Nat.le_refl 0

variable {owner : ChargeOwner} {identity : ReservationIdentity} {amounts : ResourceAmounts}
  {record : GrantRecord} {i : Nat}

theorem GrantRecord.load_ordinary {tenant : TenantId} {principal : Option PrincipalId} {kind : WorkKind}
    {charge : PoolCharge} (hlive : record.isReleased = false)
    (hwritten : GrantRecord.new owner identity amounts record.operation = some record)
    (howner : record.owner = some owner) (hid : identity = .ordinary tenant principal kind)
    (hcharge : owner = ⟨.ordinary i, some charge, none⟩) (a : Account) :
    record.load a = ordinaryLoad i kind.workClass (charge.share amounts 1) a := by
  obtain ⟨hamounts, hwork, -⟩ := new_spec hwritten
  rw [hid] at hwork
  simp only [ReservationIdentity.work, Prod.mk.injEq] at hwork
  rw [load_eq howner hlive, hamounts, hwork.2.2, hcharge]
  rfl

theorem ordinaryLoad_mono {cls : WorkClass} {share share' : OrdinaryShare}
    (hamounts : ∀ d, share.amounts d ≤ share'.amounts d) (hpools : ∀ p d, share.pools p d ≤ share'.pools p d)
    (hcount : share.count ≤ share'.count) (a : Account) :
    ordinaryLoad i cls share a ≤ ordinaryLoad i cls share' a := by
  cases a with
  | total d => exact hamounts d
  | ordinaryTenant j d => exact ite_le_ite (hamounts d)
  | pool p d => exact hpools p d
  | tenantPool j p d => exact ite_le_ite (hpools p d)
  | outstanding => exact hcount
  | ordinaryCount => exact hcount
  | classCount cls' => exact ite_le_ite hcount
  | tenantCount j => exact ite_le_ite hcount
  | _ => exact Nat.le_refl 0

theorem GrantRecord.load_recovery {scope : RecoveryScope} {kind : RecoveryWorkKind} {i : Option Nat}
    {charge : RecoveryPoolCharge} (hlive : record.isReleased = false)
    (hwritten : GrantRecord.new owner identity amounts record.operation = some record)
    (howner : record.owner = some owner) (hid : identity = .recovery scope kind)
    (hcharge : owner = ⟨.recovery i, none, some charge⟩) (a : Account) :
    record.load a = recoveryLoad i (charge.share amounts 1
      (if (GrantKind.recovery kind).isUninterruptible then 1 else 0)) a := by
  obtain ⟨hamounts, hwork, -⟩ := new_spec hwritten
  rw [hid] at hwork
  simp only [ReservationIdentity.work, Prod.mk.injEq] at hwork
  rw [load_eq howner hlive, hamounts, hwork.2.2, hcharge]
  rfl

end Loads

section Calls

variable {inner : GovernorInner} {tenants : Nat} {s s' : GovernorState} {record new : GrantRecord}
variable {r : ResourceReservation}

theorem OrdinaryAdmission.moved {claim : WorkClaim} {i : Nat} {charge : PoolCharge}
    (h : OrdinaryAdmission inner tenants claim s r s' i charge record) (a : Account) :
    balance s' a = balance s a + ordinaryLoad i claim.kind.workClass (charge.share claim.amounts 1) a := by
  have hr := h.reservation
  have hamounts : r.amounts = claim.amounts := congrArg (·.amounts) hr
  rw [h.admitted.moved, load_ordinary h.admitted.isReleased_eq h.written h.owned
    (congrArg (·.identity) hr) (congrArg (·.owner) hr), hamounts]

variable {charge : RecoveryPoolCharge} {claim : RecoveryWorkClaim} {i : Option Nat} {slot : Nat}
  {amounts : ResourceAmounts} {commit : ResizeCommit} {preserve : Bool}

theorem RecoveryAdmission.moved (h : RecoveryAdmission inner tenants claim s r s' i charge record) (a : Account) :
    balance s' a = balance s a + recoveryLoad i (charge.share claim.amounts 1
        (if (GrantKind.recovery claim.kind).isUninterruptible then 1 else 0)) a := by
  have hr := h.reservation
  have hamounts : r.amounts = claim.amounts := congrArg (·.amounts) hr
  rw [h.admitted.moved, load_recovery h.admitted.isReleased_eq h.written h.owned
    (congrArg (·.identity) hr) (congrArg (·.owner) hr), hamounts]

theorem OrdinaryAdmission.ceilings {claim : WorkClaim} {i : Nat} {charge : PoolCharge}
    (h : OrdinaryAdmission inner tenants claim s r s' i charge record) (hs : Sound inner tenants s)
    (hp : Partitions inner) (hc : Ceilings inner s) : Ceilings inner s'.toAccountingState :=
  OrdinaryBeside.ceilings ⟨fun _ => Nat.le_refl _, h.capacity, h.combined, h.poolFits, h.tenantFits⟩
    hc hp (h.admitted.sound hs) (congrArg (·.toTenantQuotaSuccessor) h.admitted.frame) h.moved

theorem RecoveryAdmission.ceilings (h : RecoveryAdmission inner tenants claim s r s' i charge record)
    (hc : Ceilings inner s) : Ceilings inner s'.toAccountingState := by
  obtain ⟨usage, husage, hfits⟩ := h.scope
  refine RecoveryBeside.ceilings ⟨fun _ => Nat.le_refl _, h.total, h.shared, h.protectedPart, fun hi d => ?_,
    fun j share hi hshare d => ?_, fun j pools hi hpools d => ?_⟩
    hc (congrArg (·.toTenantQuotaSuccessor) h.admitted.frame) h.moved
  · subst hi
    cases husage
    exact hfits d
  · subst hi
    have hnew := hfits.1 share hshare d
    have hval : balance s (.tenantShared j d) = usage.shared.value d := by
      simp only [balance, getD_of_some husage]
    rw [hval]
    exact hnew
  · subst hi
    have hnew := hfits.2 pools hpools d
    have hval : balance s (.tenantProtected j charge.kind d) = (usage.protectedPart charge.kind).value d := by
      simp only [balance, getD_of_some husage]
    rw [hval]
    exact hnew

theorem Replaced.rest (h : Replaced tenants slot record new s s') (hs : Sound inner tenants s) :
    ∃ rest : Account → Nat, (∀ a, rest a + record.load a = balance s a) ∧
      ∀ a, balance s' a = rest a + new.load a := by
  refine ⟨fun a => balance s a - record.load a, fun a => ?_, fun a => ?_⟩
  · exact Nat.sub_add_cancel (hs.load_le h.occupied a)
  · have hmoved := h.moved a
    have hload := hs.load_le h.occupied a
    dsimp only
    omega

theorem OrdinaryReplacement.ceilings {i : Nat} {charge charge' : PoolCharge}
    (h : OrdinaryReplacement inner tenants (r.resizeRequest amounts preserve) record s i charge charge' new
      commit s') (howned : Owned inner s r record) (hs : Sound inner tenants s) (hp : Partitions inner)
    (hc : Ceilings inner s) : Ceilings inner s'.toAccountingState := by
  have hsame : s'.toTenantQuotaSuccessor = s.toTenantQuotaSuccessor :=
    congrArg (·.toTenantQuotaSuccessor) h.replaced.frame
  have hs' := h.replaced.sound hs
  cases hid : r.identity with
  | recovery scope kind =>
    have hwritten := howned.held.written
    rw [show r.owner = _ from h.owner, hid] at hwritten
    cases hwritten
  | ordinary tenant principal kind =>
    obtain ⟨rest, hrest, hmoved⟩ := h.replaced.rest hs
    have hcharged : ∀ d, charge.shared.value d + charge.protectedPart.value d = r.amounts.value d := by
      have hheld := howned.held
      rw [hid] at hheld
      obtain ⟨j, charge₀, _, _, howner, _, hparts, _⟩ := hheld.ordinary hs
      cases (show r.owner = _ from h.owner).symm.trans howner
      exact hparts
    have hold := load_ordinary howned.held.live howned.held.written howned.held.owned hid h.owner
    have hnew := load_ordinary h.replaced.isReleased_eq h.written h.owned hid h.newOwner
    rcases h.planned with hshrinks | ⟨view, hwithout, hfits⟩
    · refine hc.less hs hs' hsame fun a => ?_
      have hload : new.load a ≤ record.load a := by
        rw [hold, hnew]
        refine ordinaryLoad_mono (fun d => ?_) (hshrinks.capacities_le h.samePool) (Nat.le_refl 1) a
        have hd := hshrinks d
        have hparts := h.parts d
        have hparts' := hcharged d
        simp only [PoolCharge.share, resizeRequest] at hparts ⊢
        omega
      have hrest := hrest a
      have hmoved := hmoved a
      omega
    · simp only [hold] at hrest
      simp only [hnew] at hmoved
      obtain ⟨share, hshare, hcombined⟩ := hfits.combined
      obtain ⟨pools, hpools, htenantFits⟩ := hfits.tenantFits
      refine OrdinaryBeside.ceilings ⟨fun a => ?_, fun d => ?_, fun share' hshare' d => ?_,
        fun p d hused => ?_, fun share' hshare' p d hused => ?_⟩ hc hp hs' hsame hmoved
      · exact Nat.le_of_add_right_le (hrest a).le
      · have htotal := hrest (.total d)
        have hshared := hrest (.recoveryShared d)
        have hrecov := hrest (.recovery d)
        have hview := hwithout.total d
        have hnew := hfits.capacity d
        simp only [ordinaryLoad, PoolCharge.share, resizeRequest] at *
        omega
      · rw [hshare] at hshare'
        cases hshare'
        have htenant := hrest (.ordinaryTenant i d)
        have hshared := hrest (.tenantShared i d)
        have hview := hwithout.tenant d
        have hnew := hcombined d
        simp only [ordinaryLoad, PoolCharge.share, resizeRequest, if_true] at *
        omega
      · have hpool := hrest (.pool p d)
        have hview := hwithout.pool p d
        have hnew := hfits.poolFits p d hused
        simp only [ordinaryLoad, PoolCharge.share] at hpool
        omega
      · rw [hpools] at hshare'
        cases hshare'
        have hpool := hrest (.tenantPool i p d)
        have hview := hwithout.tenantPool p d
        have hnew := htenantFits p d hused
        simp only [ordinaryLoad, PoolCharge.share, if_true] at hpool
        omega

theorem RecoveryReplacement.ceilings {charge charge' : RecoveryPoolCharge}
    (h : RecoveryReplacement inner tenants (r.resizeRequest amounts preserve) record s i charge charge' new
      commit s') (howned : Owned inner s r record) (hs : Sound inner tenants s) (hc : Ceilings inner s) :
    Ceilings inner s'.toAccountingState := by
  have hsame : s'.toTenantQuotaSuccessor = s.toTenantQuotaSuccessor :=
    congrArg (·.toTenantQuotaSuccessor) h.replaced.frame
  cases hid : r.identity with
  | ordinary tenant principal kind =>
    have hwritten := howned.held.written
    rw [show r.owner = _ from h.owner, hid] at hwritten
    cases hwritten
  | recovery scope kind =>
    obtain ⟨rest, hrest, hmoved⟩ := h.replaced.rest hs
    simp only [load_recovery howned.held.live howned.held.written howned.held.owned hid h.owner] at hrest
    simp only [load_recovery h.replaced.isReleased_eq h.written h.owned hid h.newOwner] at hmoved
    obtain ⟨view, hwithout, hfits⟩ := h.planned
    obtain ⟨held, hheld, hscopeShared, hscopeProt⟩ := hwithout.scope
    have hkind := h.sameKind
    have hscope := hfits.scope
    refine RecoveryBeside.ceilings ⟨fun a => ?_, fun d => ?_, fun d => ?_, fun d => ?_, fun hi d => ?_,
      fun j share hi hshare d => ?_, fun j pools hi hpools d => ?_⟩ hc hsame hmoved
    · exact Nat.le_of_add_right_le (hrest a).le
    · have htotal := hrest (.total d)
      have hview := hwithout.total d
      have hnew := hfits.total d
      simp only [recoveryLoad, RecoveryPoolCharge.share, resizeRequest] at *
      omega
    · have htotal := hrest (.total d)
      have hshared := hrest (.recoveryShared d)
      have hrecov := hrest (.recovery d)
      have hview := hwithout.ordinary d
      have hview' := hwithout.shared d
      have hnew := hfits.shared d
      simp only [recoveryLoad, RecoveryPoolCharge.share] at *
      omega
    · have hprot := hrest (.recoveryProtected charge'.kind d)
      have hview := hwithout.protectedPart charge'.kind d
      have hnew := hfits.protectedPart d
      simp only [recoveryLoad, RecoveryPoolCharge.share, if_pos hkind] at hprot hview
      omega
    · subst hi
      cases hheld
      have hprot := hrest (.systemProtected charge'.kind d)
      have hview := hscopeProt charge'.kind d
      have hnew := hscope d
      simp only [recoveryLoad, RecoveryPoolCharge.share, if_pos hkind, if_true, balance] at hprot hview
      omega
    · subst hi
      have htenant := hrest (.tenantShared j d)
      have hord := hrest (.ordinaryTenant j d)
      have hview := hscopeShared d
      have hnew := hscope.1 share hshare d
      have hval : balance s (.tenantShared j d) = held.shared.value d := by
        simp only [balance, getD_of_some hheld]
      simp only [recoveryLoad, RecoveryPoolCharge.share, if_true] at htenant hord
      omega
    · subst hi
      have hprot := hrest (.tenantProtected j charge'.kind d)
      have hview := hscopeProt charge'.kind d
      have hnew := hscope.2 pools hpools d
      have hval : balance s (.tenantProtected j charge'.kind d) =
          (held.protectedPart charge'.kind).value d := by
        simp only [balance, getD_of_some hheld]
      simp only [recoveryLoad, RecoveryPoolCharge.share, if_pos hkind, if_true] at hprot hview
      omega

theorem Calm.ceilings (h : Calm s s') (hsame : s'.toTenantQuotaSuccessor = s.toTenantQuotaSuccessor)
    (hs : Sound inner tenants s) (hc : Ceilings inner s) : Ceilings inner s'.toAccountingState :=
  hc.less hs (h.sound hs) hsame fun a => (h.balance_eq a).le

theorem Released.ceilings (h : Released slot record s s') (hs : Sound inner tenants s)
    (hc : Ceilings inner s) : Ceilings inner s'.toAccountingState :=
  hc.less hs (h.sound hs) (congrArg (·.toTenantQuotaSuccessor) h.frame) fun a =>
    Nat.le_of_add_right_le (h.moved a).le

end Calls

section Worlds

variable {inner : GovernorInner} {tenants : Nat} {w w' : World} {op : Operation} {o : Outcome}

theorem WorldSound.lockedCeilings (hw : WorldSound inner tenants w)
    (hc : Ceilings inner w.governor.toAccountingState) : Ceilings inner (lock w.governor).toAccountingState :=
  hc.less hw.sound hw.locked.sound hw.locked.topology_eq hw.locked.balance_le

theorem Effect.ceilings (h : Effect inner tenants w op o w') (hw : WorldSound inner tenants w)
    (hp : Partitions inner) (hc : Ceilings inner w.governor.toAccountingState)
    (hfixed : w'.governor.toTenantQuotaSuccessor = w.governor.toTenantQuotaSuccessor) :
    Ceilings inner w'.governor.toAccountingState := by
  have hlocked := hw.lockedCeilings hc
  have hs := hw.locked.sound
  have hsame := hw.locked.topology_eq
  cases h with
  | admitted h => exact h.ceilings hs hp hlocked
  | recoveryAdmitted h => exact h.ceilings hlocked
  | refused h | recoveryRefused h =>
    exact (h.undisturbed.calm.trans (.recordRefusal _ _)).ceilings (hfixed.trans hsame.symm) hs hlocked
  | resized _ _ howned h => exact h.ceilings howned hs hp hlocked
  | recoveryResized _ _ howned h => exact h.ceilings howned hs hlocked
  | resizeRefused hr hactive howned h =>
    rw [resizeRefusedWorld_governor] at hfixed ⊢
    cases h with
    | kept => exact (Calm.recordResizeRefusal _ _).ceilings (hfixed.trans hsame.symm) hs hlocked
    | fenced =>
      exact ((Calm.fence _).trans (.recordResizeRefusal _ _)).ceilings (hfixed.trans hsame.symm) hs hlocked
    | cancelled _ hrel =>
      exact (Calm.recordResizeRefusal _ _).ceilings (congrArg Prod.fst (recordResizeRefusal_tenancy _ _))
        (hrel.sound hs) (hrel.ceilings hs hlocked)
  | resizeIdle => exact hc
  | cancelled _ _ _ h => exact h.ceilings hs hlocked
  | cancelIdle => exact hc
  | transferred => exact hc
  | reclaimed => exact hc
  | dropped hr hactive howned => exact hc.less hw.sound (marked_sound hw.sound howned) rfl fun a => Nat.le_refl _
  | dropIdle => exact hc
  | foreign => exact (Calm.foreign _).ceilings hfixed hw.sound hc
  | observed => exact (Calm.applyDiskObservation _ _ _).ceilings (hfixed.trans hsame.symm) hs hlocked
  | shutDown => exact (Calm.beginShutdown _).ceilings (hfixed.trans hsame.symm) hs hlocked
  | inspected => exact (Calm.snapshotFrom _).ceilings (hfixed.trans hsame.symm) hs hlocked
  | staged => exact hlocked
  | published => exact (Calm.publishSuccessor _ _).ceilings (hfixed.trans hsame.symm) hs hlocked
  | registered h | prepared h => exact (Calm.enrolled h).ceilings (hfixed.trans hsame.symm) hs hlocked
  | topologyRefused _ h =>
    rcases h with rfl | rfl
    · exact hc
    · exact hlocked
  | activated => exact (Calm.activate _ _).ceilings hfixed hw.sound hc
  | @abandoned _ pending _ _ =>
    cases hactive : pending.active with
    | true =>
      exact hc
    | false =>
      simp only [hactive] at hfixed ⊢
      exact (Calm.rollback pending.tenant _).ceilings (hfixed.trans hsame.symm) hs hlocked

end Worlds

end Positron.Governor
