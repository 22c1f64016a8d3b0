import Positron.Governor.Isolation

/-! An enrollment that is prepared and dropped before it is published. The newcomer, its limit and the mark
go again. The shares of the others stay the ones that were derived beside the newcomer. -/

namespace Positron.Governor
open Slots GrantRecord MachineInt Runs Enumeration Checks List

/-- What the tenants have between them of a recovery pool with so many units. -/
def tenantPart (kind : RecoveryWorkKind) (units : Nat) : Nat :=
  if kind.permitsTenantScope then if kind.permitsSystemScope then units - 1 else units else 0

/-- The floors of so many units for each of the tenants and for a newcomer. -/
def floorsBeside (quotas : List TenantQuota) (weight units : Nat) : Nat :=
  (quotas.map fun quota => floorShare units quota.weight.1 (weightSum quotas + weight)).sum +
    floorShare units weight (weightSum quotas + weight)

/-- The tables give each tenant the floor it has beside a newcomer of the weight, and the system what is left
when the newcomer has its floor too. -/
structure SharesBeside (inner : GovernorInner) (t : TenantQuotaSuccessor) (weight : Nat) : Prop where
  fair : ∀ (i : Nat) quota share, t.tenantQuotas[i]? = some quota → t.tenantFairCapacities[i]? = some share →
    ∀ p d, share.value p d =
      floorShare (inner.poolCapacities.value p d) quota.weight.1 (weightSum t.tenantQuotas + weight)
  shared : ∀ (i : Nat) quota share, t.tenantQuotas[i]? = some quota →
    t.recoveryTenantSharedFair[i]? = some share → ∀ d, share.value d =
      floorShare (inner.recoverySharedCapacity.value d) quota.weight.1 (weightSum t.tenantQuotas + weight)
  pools : ∀ (i : Nat) quota floors, t.tenantQuotas[i]? = some quota →
    t.recoveryTenantPoolFair[i]? = some floors → ∀ k d, (floors.get k).value d =
      floorShare (tenantPart k ((inner.recoveryPoolCapacities.get k).value d)) quota.weight.1
        (weightSum t.tenantQuotas + weight)
  system : ∀ k d, (t.recoverySystemPoolCapacities.get k).value d +
    (if k.permitsSystemScope && k.permitsTenantScope then
      floorsBeside t.tenantQuotas weight (tenantPart k ((inner.recoveryPoolCapacities.get k).value d)) else 0) =
    (inner.recoveryPoolCapacities.get k).value d

section Tables

variable {inner : GovernorInner} {pools : RecoveryPoolCapacities} {kind : RecoveryWorkKind} {amounts : ResourceAmounts}

theorem recoveryTenantCapacity_value (h : recoveryTenantCapacity pools kind = .ok amounts) (d : ResourceDimension) :
    amounts.value d = tenantPart kind ((pools.get kind).value d) := by
  unfold recoveryTenantCapacity at h
  unfold tenantPart
  cases htenant : kind.permitsTenantScope <;> cases hsystem : kind.permitsSystemScope <;>
    simp only [htenant, hsystem] at h ⊢
  · cases h
    rfl
  · cases h
    rfl
  · cases h
    rfl
  · have hd := ResourceAmounts.checkedSub_eq_some_iff.mp (orFail_eq_ok_iff.mp h) d
    have hone : (ResourceAmounts.uniform (Unsigned.wrap 64 1)).value d = 1 := rfl
    simp only [if_true]
    omega

theorem systemRecoveryCapacity_value {floors : List RecoveryPoolCapacities}
    (h : systemRecoveryCapacity pools floors kind = .ok amounts) (d : ResourceDimension) :
    amounts.value d + (if kind.permitsSystemScope && kind.permitsTenantScope then
      (floors.map fun each => (each.get kind).value d).sum else 0) = (pools.get kind).value d := by
  obtain ⟨reserved, hreserved, h⟩ := bind_ok h
  obtain ⟨capacity, hcapacity, h⟩ := bind_ok h
  obtain ⟨_, _, h⟩ := bind_ok h
  cases h
  have hsub := ResourceAmounts.checkedSub_eq_some_iff.mp (orFail_eq_ok_iff.mp hcapacity) d
  have hreserved := orFail_eq_ok_iff.mp hreserved
  unfold reservedFloors at hreserved
  split at hreserved
  · rename_i hboth
    rw [if_pos hboth]
    have hsum := foldlM_checkedAdd_value hreserved d
    have hzero : ResourceAmounts.zero.value d = 0 := rfl
    omega
  · rename_i hone
    cases hreserved
    rw [if_neg hone]
    exact hsub

theorem ResourceAmounts.eq_of_value {a b : ResourceAmounts} (h : ∀ d, a.value d = b.value d) : a = b :=
  ResourceAmounts.ext (funext fun d => Subtype.ext (h d))

theorem PoolCapacities.eq_of_value {a b : PoolCapacities} (h : ∀ p d, a.value p d = b.value p d) : a = b :=
  PoolCapacities.ext (funext fun p => ResourceAmounts.eq_of_value (h p))

theorem RecoveryPoolCapacities.eq_of_value {a b : RecoveryPoolCapacities}
    (h : ∀ k d, (a.get k).value d = (b.get k).value d) : a = b :=
  RecoveryPoolCapacities.ext (funext fun k => ResourceAmounts.eq_of_value (h k))

theorem sum_map_of_getElem? {α β : Type} {f : α → Nat} {g : β → Nat} {xs : List α} {ys : List β}
    (hlen : xs.length = ys.length)
    (h : ∀ (i : Nat) x y, xs[i]? = some x → ys[i]? = some y → f x = g y) : (xs.map f).sum = (ys.map g).sum := by
  congr 1
  refine List.ext_getElem (by simp [hlen]) fun i hi hi' => ?_
  simp only [length_map] at hi hi'
  rw [getElem_map, getElem_map]
  exact h i _ _ (getElem?_eq_getElem hi) (getElem?_eq_getElem hi')

end Tables

section Rollback

variable {inner : GovernorInner} {tenants : Nat} {t before : TenantQuotaSuccessor} {quota : TenantQuota}

theorem weightSum_concat (quotas : List TenantQuota) (quota : TenantQuota) :
    weightSum (quotas ++ [quota]) = weightSum quotas + quota.weight.1 := by
  simp [weightSum]

theorem getElem?_concat_of_some {α : Type} {xs : List α} {x y : α} {i : Nat} (h : xs[i]? = some x) :
    (xs ++ [y])[i]? = some x := by
  rw [getElem?_append_left (List.getElem?_eq_some_iff.mp h).1]
  exact h

/-- In a table every entry has what its tenant is due, and nothing else has it. Without its last entry the table is
the one before exactly when the tenants already had there what they are due. -/
theorem dropLast_eq_iff {α : Type} {after table : List α} {quotas : List TenantQuota} {Due : TenantQuota → α → Prop}
    (hafter : after.length = (quotas ++ [quota]).length) (htable : table.length = quotas.length)
    (hdue : ∀ (i : Nat) each a, (quotas ++ [quota])[i]? = some each → after[i]? = some a → Due each a)
    (honly : ∀ {each a}, Due each a → ∀ {b}, Due each b → a = b) :
    after.dropLast = table ↔ ∀ (i : Nat) each b, quotas[i]? = some each → table[i]? = some b → Due each b := by
  have hlen : after.length = table.length + 1 := by
    rw [hafter, length_append, htable]
    rfl
  constructor
  · rintro rfl i each b heach hb
    obtain ⟨hlt, rfl⟩ := List.getElem?_eq_some_iff.mp hb
    rw [getElem_dropLast]
    exact hdue i each _ (getElem?_concat_of_some heach) (getElem?_eq_getElem _)
  · intro hall
    refine List.ext_getElem (by simp [hlen]) fun i hi hi' => ?_
    have heach := getElem?_eq_getElem (htable ▸ hi')
    rw [getElem_dropLast]
    exact honly (hdue i _ _ (getElem?_concat_of_some heach) (getElem?_eq_getElem (by omega)))
      (hall i _ _ heach (getElem?_eq_getElem hi'))

/-- Once the last tenant is taken out, fair tables are those before exactly when the latter had the floors of the
others beside that tenant. -/
theorem Fair.restored_iff (h : Fair inner t) (hquotas : t.tenantQuotas = before.tenantQuotas ++ [quota])
    (hs : TopologySound inner tenants before) :
    t.tenantFairCapacities.dropLast = before.tenantFairCapacities ∧
      t.recoveryTenantSharedFair.dropLast = before.recoveryTenantSharedFair ∧
      t.recoveryTenantPoolFair.dropLast = before.recoveryTenantPoolFair ∧
      t.recoverySystemPoolCapacities = before.recoverySystemPoolCapacities ↔
    SharesBeside inner before quota.weight.1 := by
  have hsum : weightSum t.tenantQuotas = weightSum before.tenantQuotas + quota.weight.1 := by
    rw [hquotas, weightSum_concat]
  have hlen := congrArg length hquotas
  have hfair := h.fair
  have hshared := h.shared
  have hpools : ∀ (i : Nat) quota floors, t.tenantQuotas[i]? = some quota →
      t.recoveryTenantPoolFair[i]? = some floors → ∀ k d, (floors.get k).value d =
        floorShare (tenantPart k ((inner.recoveryPoolCapacities.get k).value d)) quota.weight.1
          (weightSum t.tenantQuotas) := by
    intro i quota floors hquota hfloors k d
    obtain ⟨capacity, hcapacity, hvalue⟩ := h.pools i quota floors hquota hfloors k
    rw [hvalue, recoveryTenantCapacity_value hcapacity]
  rw [hsum] at hfair hshared hpools
  have hsystem : ∀ k d, (t.recoverySystemPoolCapacities.get k).value d +
      (if k.permitsSystemScope && k.permitsTenantScope then floorsBeside before.tenantQuotas quota.weight.1
        (tenantPart k ((inner.recoveryPoolCapacities.get k).value d)) else 0) =
      (inner.recoveryPoolCapacities.get k).value d := by
    intro k d
    have hfloors := sum_map_of_getElem? h.length_pools fun i floors quota hfloors hquota =>
      hpools i quota floors hquota hfloors k d
    rw [hquotas, map_append, sum_append, map_singleton, sum_singleton] at hfloors
    rw [floorsBeside, ← hfloors]
    exact systemRecoveryCapacity_value (h.system k) d
  rw [hquotas] at hfair hshared hpools
  rw [dropLast_eq_iff (h.length_fair.trans hlen) hs.length_fair hfair,
    dropLast_eq_iff (h.length_shared.trans hlen) hs.length_shared hshared,
    dropLast_eq_iff (h.length_pools.trans hlen) hs.length_pools hpools]
  · constructor
    · rintro ⟨hord, hshared, hpools, hsame⟩
      refine ⟨hord, hshared, hpools, fun k d => ?_⟩
      rw [← hsame]
      exact hsystem k d
    · intro hbeside
      refine ⟨hbeside.fair, hbeside.shared, hbeside.pools, RecoveryPoolCapacities.eq_of_value fun k d => ?_⟩
      have hold := hbeside.system k d
      have hnew := hsystem k d
      omega
  · exact fun ha _ hb => RecoveryPoolCapacities.eq_of_value fun k d => (ha k d).trans (hb k d).symm
  · exact fun ha _ hb => ResourceAmounts.eq_of_value fun d => (ha d).trans (hb d).symm
  · exact fun ha _ hb => PoolCapacities.eq_of_value fun p d => (ha p d).trans (hb p d).symm

theorem rollback_enrolled {inner : GovernorInner} {tenants : Nat} {g g' : GovernorState} {tenant : TenantId}
    {weight : U16} {limits : ResourceAmounts} {enrolled : AccountingState} (hs : TopologySound inner tenants g)
    (h : enrollTenantQuota inner g.toAccountingState tenant weight limits true = .ok enrolled)
    (hsame : g'.tenancy = (enrolled.toTenantQuotaSuccessor, enrolled.pendingTenant)) :
    (rollbackTenantQuota tenant g').tenancy =
      (⟨g.tenantQuotas, enrolled.tenantFairCapacities.dropLast, enrolled.recoveryTenantSharedFair.dropLast,
        enrolled.recoveryTenantPoolFair.dropLast, enrolled.recoverySystemPoolCapacities, g.tenantLimits⟩,
        g.pendingTenant) := by
  obtain ⟨_, _, hnone, hroom, hframe, quota, htenant, _, _, hquotas, hlimits⟩ := enrollTenantQuota_ok h
  have hmark : enrolled.pendingTenant = some tenant := congrArg (·.pendingTenant) hframe
  injection hsame with htopo hpending
  have hlast : (g.tenantQuotas ++ [quota]).getLast?.map (·.tenant) = some tenant := by
    rw [getLast?_append, getLast?_singleton, Option.some_or, Option.map_some, htenant]
  have hspare := hs.spare _ _ (Nat.le_refl _) (getElem?_eq_getElem hroom)
  unfold rollbackTenantQuota GovernorState.tenancy
  rw [htopo, hpending, hmark, hquotas, hlimits, if_pos ⟨rfl, hlast⟩, hnone rfl]
  simp only [dropLast_concat, length_append, length_singleton, Nat.add_sub_cancel, set_set]
  rw [← hspare, set_getElem_self]

end Rollback

section Between

variable {inner : GovernorInner} {tenants : Nat} {w w' : World} {op : Operation} {o : Outcome}

theorem Effect.enrollments_eq (h : Effect inner tenants w op o w') (hop : op.changesTenants = false) :
    w'.enrollments = w.enrollments := by
  cases h with
  | resizeRefused =>
    unfold resizeRefusedWorld
    split <;> rfl
  | published | registered | prepared | activated | abandoned => cases hop
  | _ => rfl

/-- Calls that leave the tenants alone keep the tables, the mark and the open enrollments. -/
theorem run_keeps_tenants {ops : List Operation} (hw : WorldSound inner tenants w)
    (hops : EveryStep (step inner) (fun w op => op.KeepsTenants w) w ops) (hrun : run (step inner) w ops = some w') :
    WorldSound inner tenants w' ∧ w'.governor.tenancy = w.governor.tenancy ∧ w'.enrollments = w.enrollments := by
  refine run_invariant (fun v => WorldSound inner tenants v ∧ v.governor.tenancy = w.governor.tenancy ∧
    v.enrollments = w.enrollments) (fun w op => op.KeepsTenants w) ?_ ⟨hw, rfl, rfl⟩ hops hrun
  rintro v op v' ⟨hv, htenancy, henrollments⟩ hop hstep
  obtain ⟨⟨o, v''⟩, hperform, rfl⟩ := Option.map_eq_some_iff.mp hstep
  have heffect := perform_effect hv hop.2 hperform
  exact ⟨heffect.worldSound hv, (heffect.tenancy_eq hv hop.1).trans htenancy,
    (heffect.enrollments_eq hop.1).trans henrollments⟩

end Between

/-- An enrollment that is prepared and dropped, with any calls in between that leave the tenants alone, goes out of
every table, and its limit and the mark are cleared. All is as before exactly when the others already had the
floors that they have beside the newcomer. -/
theorem abandoned_enrollment_restores_iff {sizes : BootstrapSizes} {authority : Nat} {inventory : ResourceInventory}
    {policy : GovernorPolicy} {recoveryPools : RecoveryPoolCapacities} {inner : GovernorInner}
    {s : GovernorState} {ops between : List Operation} {w prepared later dropped : World} {tenant : TenantId}
    {weight : U16} {limits : ResourceAmounts}
    (h : establish sizes authority inventory policy recoveryPools = .ok (inner, s))
    (hproper : EveryStep (step inner) (fun w op => op.Proper w) (World.initial s) ops)
    (hrun : run (step inner) (World.initial s) ops = some w)
    (hprepare : step inner w (.prepareEnrollment tenant weight limits) = some prepared)
    (hkeeps : EveryStep (step inner) (fun w op => op.KeepsTenants w) prepared between)
    (hbetween : run (step inner) prepared between = some later)
    (hdrop : step inner later (.abandon w.enrollments.length) = some dropped) :
    dropped.governor.tenantQuotas = w.governor.tenantQuotas ∧ dropped.governor.tenantLimits = w.governor.tenantLimits ∧
      dropped.governor.pendingTenant = w.governor.pendingTenant ∧
      (dropped.governor.tenancy = w.governor.tenancy ↔
        SharesBeside inner w.governor.toTenantQuotaSuccessor weight.1) := by
  have hw := run_worldSound (establish_ok h).2.1 hproper hrun
  obtain ⟨⟨o, _⟩, hprepared, rfl⟩ := Option.map_eq_some_iff.mp hprepare
  obtain ⟨⟨o', _⟩, habandoned, rfl⟩ := Option.map_eq_some_iff.mp hdrop
  have heffect : Effect inner _ w (.prepareEnrollment tenant weight limits) o _ := perform_effect hw trivial hprepared
  obtain ⟨hlater, htenancy, henrollments⟩ := run_keeps_tenants (heffect.worldSound hw) hkeeps hbetween
  have hdropped : Effect inner _ later (.abandon w.enrollments.length) o' _ := perform_effect hlater trivial habandoned
  cases hdropped with
  | topologyRefused hop =>
    obtain ⟨_, _, _, hop⟩ | ⟨_, _, _, hop⟩ | ⟨_, _, _, hop⟩ := hop <;> cases hop
  | @abandoned _ pending hpending _ =>
    rw [henrollments] at hpending
    cases heffect with
    | topologyRefused => exact absurd hpending (by simp)
    | @prepared _ _ _ enrolled henroll =>
      rw [getElem?_concat_length] at hpending
      cases hpending
      have hrolled := rollback_enrolled hw.lockedTopology henroll (hlater.locked.tenancy_eq.trans htenancy)
      obtain ⟨hfair, _, _, _, _, quota, _, rfl, _, hquotas, _⟩ := enrollTenantQuota_ok henroll
      have htables := hfair.restored_iff hquotas hw.lockedTopology
      have hlocked := hw.locked.tenancy_eq
      injection hlocked with hbefore hmark
      rw [hbefore] at htables
      rw [hbefore, hmark] at hrolled
      refine ⟨congrArg (·.1.tenantQuotas) hrolled, congrArg (·.1.tenantLimits) hrolled, congrArg Prod.snd hrolled, ?_⟩
      rw [← htables]
      refine ⟨fun hsame => ?_, ?_⟩
      · have hall := congrArg Prod.fst (hrolled.symm.trans hsame)
        exact ⟨congrArg (·.tenantFairCapacities) hall, congrArg (·.recoveryTenantSharedFair) hall,
          congrArg (·.recoveryTenantPoolFair) hall, congrArg (·.recoverySystemPoolCapacities) hall⟩
      · rintro ⟨hord, hshared, hpools, hsystem⟩
        rw [hord, hshared, hpools, hsystem] at hrolled
        exact hrolled

def roomyGovernor : Except GovernorFailure (GovernorInner × GovernorState) :=
  establish ⟨0, 0, 0, 0⟩ 0
    (sampleInventory 1100 2 8 (by decide) (by decide) (by decide)) singlePolicy sampleRecoveryPools

def passingTenant : List Operation :=
  [.prepareEnrollment (sampleTenant 2) (Unsigned.wrap 16 1) (evenly 100), .abandon 0]

/-- The share of the first tenant is halved for a second one that never comes. -/
theorem abandoned_enrollment_halves_share : ∃ inner s w, roomyGovernor = .ok (inner, s) ∧
      run (step inner) (World.initial s) passingTenant = some w ∧ w.governor.tenantQuotas = s.tenantQuotas ∧
      s.tenantFairCapacities.map (·.value .shared .memoryBytes) = [958] ∧
      w.governor.tenantFairCapacities.map (·.value .shared .memoryBytes) = [479] :=
  exists_run (by decide +kernel)

deriving instance DecidableEq for TenantQuotaSuccessor

def returningTenant : Operation := .prepareEnrollment (sampleTenant 3) (Unsigned.wrap 16 1) (evenly 50)

def workMeanwhile : List Operation :=
  [.reserve (ingestClaim 23 (by decide)), .observeDisk (Unsigned.wrap 64 500), .drop 0]

/-- A second newcomer of the same weight, with work in between, leaves the shares as it found them: those of the
first one that did not come. -/
theorem second_abandoned_enrollment_restores : ∃ inner s w prepared later dropped,
    roomyGovernor = .ok (inner, s) ∧ run (step inner) (World.initial s) passingTenant = some w ∧
      step inner w returningTenant = some prepared ∧ run (step inner) prepared workMeanwhile = some later ∧
      step inner later (.abandon 1) = some dropped ∧ prepared.governor.tenancy ≠ w.governor.tenancy ∧
      dropped.governor.tenancy = w.governor.tenancy ∧
      SharesBeside inner w.governor.toTenantQuotaSuccessor 1 := by
  obtain ⟨inner, s, w, hestab, hrun, hproper, hlength, hdiffers, hsame⟩ := @exists_run roomyGovernor passingTenant
    (fun inner s w => EveryStep (step inner) (fun w op => op.Proper w) (World.initial s) passingTenant ∧
      w.enrollments.length = 1 ∧
      (step inner w returningTenant).map (·.governor.tenancy) ≠ some w.governor.tenancy ∧
      (((step inner w returningTenant).bind fun prepared => run (step inner) prepared workMeanwhile).bind
        fun later => step inner later (.abandon 1)).map (·.governor.tenancy) = some w.governor.tenancy)
    (fun _ _ _ => inferInstance) (by decide +kernel)
  obtain ⟨dropped, hdropped, hsame⟩ := Option.map_eq_some_iff.mp hsame
  obtain ⟨later, hlater, hdrop⟩ := Option.bind_eq_some_iff.mp hdropped
  obtain ⟨prepared, hprepare, hbetween⟩ := Option.bind_eq_some_iff.mp hlater
  rw [hprepare, Option.map_some] at hdiffers
  have hkeeps : EveryStep (step inner) (fun w op => op.KeepsTenants w) prepared workMeanwhile :=
    everyStep_of_forall (fun op hop w => Operation.isWork_keepsTenants
      ((by decide : ∀ op ∈ workMeanwhile, op.isWork = true) op hop) w) prepared
  rw [← hlength] at hdrop
  have hrestores := abandoned_enrollment_restores_iff hestab hproper hrun hprepare hkeeps hbetween hdrop
  rw [hlength] at hdrop
  exact ⟨inner, s, w, prepared, later, dropped, hestab, hrun, hprepare, hbetween, hdrop,
    fun heq => hdiffers (congrArg some heq), hsame, hrestores.2.2.2.mp hsame⟩

end Positron.Governor
