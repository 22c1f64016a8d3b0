import Positron.Governor.CeilingSteps
import Positron.Governor.Conservation

/-! Whoever has no grant uses nothing, and while the tenants and their weights stay as they were established no
ceiling is exceeded. As long as every tenant stays within its own shares, a claim that fits its tenant's share of
its class is never refused for what the others hold. -/

namespace Positron.Governor
open Slots GrantRecord MachineInt Runs Enumeration Checks List OrdinaryPool

namespace Sound

variable {inner : GovernorInner} {tenants : Nat} {s : GovernorState}

theorem balance_eq_zero (hs : Sound inner tenants s) {a b : Account}
    (hload : ∀ load, Loads tenants load → load b = 0 → load a = 0) (hb : balance s b = 0) : balance s a = 0 := by
  rw [hs.balanced a]
  refine tally_eq_zero fun i record hrec => hload _ ((hs.formed i record hrec).loads hs.tenants_le) ?_
  have hle := hs.load_le hrec b
  omega

theorem idle_recovery (hs : Sound inner tenants s) (hidle : balance s .recoveryCount = 0)
    (d : ResourceDimension) : balance s (.recovery d) = 0 := by
  refine hs.balance_eq_zero ?_ hidle
  rintro _ (_ | _ | _) hcount
  · rfl
  · rfl
  · cases hcount

theorem idle_tenantPool (hs : Sound inner tenants s) {j : Nat} (hidle : balance s (.tenantCount j) = 0)
    (p : OrdinaryPool) (d : ResourceDimension) : balance s (.tenantPool j p d) = 0 := by
  refine hs.balance_eq_zero ?_ hidle
  rintro _ (_ | _ | _) hcount
  · rfl
  · simp only [ordinaryLoad, PoolCharge.share, ite_eq_right_iff] at hcount ⊢
    intro hj
    cases hcount hj
  · rfl

end Sound

section Enrollment

variable {inner : GovernorInner} {tenants : Nat} {s s' : GovernorState} {w w' : World} {op : Operation}
  {o : Outcome} {record new : GrantRecord}
variable {r : ResourceReservation} {a : Account}
  {i : Nat} {amounts : ResourceAmounts} {commit : ResizeCommit} {preserve : Bool}

theorem OrdinaryAdmission.index_lt {claim : WorkClaim} {charge : PoolCharge}
    (h : OrdinaryAdmission inner tenants claim s r s' i charge record) : i < s.tenantQuotas.length := by
  obtain ⟨quota, hquota, _⟩ := tenantIndexOf_ok h.registered
  exact (List.getElem?_eq_some_iff.mp hquota).1

def Account.Counts : Account → Prop
  | .outstanding | .classCount _ | .tenantCount _ | .ordinaryCount | .recoveryCount
  | .uninterruptibleCount => True
  | _ => False

theorem ordinaryLoad_counts (ha : a.Counts) (i : Nat) (cls : WorkClass) {share share' : OrdinaryShare}
    (hcount : share.count = share'.count) : ordinaryLoad i cls share a = ordinaryLoad i cls share' a := by
  cases a <;> first | exact ha.elim | simp only [ordinaryLoad, hcount]

theorem recoveryLoad_counts (ha : a.Counts) (i : Option Nat) {share share' : RecoveryShare}
    (hcount : share.count = share'.count) (hkept : share.uninterruptible = share'.uninterruptible) :
    recoveryLoad i share a = recoveryLoad i share' a := by
  cases a <;> first | exact ha.elim | simp only [recoveryLoad, hcount, hkept]

theorem Replaced.counts_eq {slot : Nat} (h : Replaced tenants slot record new s s')
    (hload : new.load a = record.load a) : balance s' a = balance s a := by
  have hmoved := h.moved a
  omega

theorem OrdinaryReplacement.counts_eq {charge charge' : PoolCharge}
    (h : OrdinaryReplacement inner tenants (r.resizeRequest amounts preserve) record s i charge charge' new
      commit s') (howned : Owned inner s r record) (ha : a.Counts) : balance s' a = balance s a := by
  cases hid : r.identity with
  | recovery scope kind =>
    have hwritten := howned.held.written
    rw [show r.owner = _ from h.owner, hid] at hwritten
    cases hwritten
  | ordinary tenant principal kind =>
    refine h.replaced.counts_eq ?_
    rw [load_ordinary howned.held.live howned.held.written howned.held.owned hid h.owner,
      load_ordinary h.replaced.isReleased_eq h.written h.owned hid h.newOwner]
    exact ordinaryLoad_counts ha i kind.workClass rfl

theorem RecoveryReplacement.counts_eq {i : Option Nat} {charge charge' : RecoveryPoolCharge}
    (h : RecoveryReplacement inner tenants (r.resizeRequest amounts preserve) record s i charge charge' new
      commit s') (howned : Owned inner s r record) (ha : a.Counts) : balance s' a = balance s a := by
  cases hid : r.identity with
  | ordinary tenant principal kind =>
    have hwritten := howned.held.written
    rw [show r.owner = _ from h.owner, hid] at hwritten
    cases hwritten
  | recovery scope kind =>
    refine h.replaced.counts_eq ?_
    rw [load_recovery howned.held.live howned.held.written howned.held.owned hid h.owner,
      load_recovery h.replaced.isReleased_eq h.written h.owned hid h.newOwner]
    exact recoveryLoad_counts ha i rfl rfl

theorem Effect.tenantCount_le (h : Effect inner tenants w op o w') (hw : WorldSound inner tenants w)
    {j : Nat} (hj : w.governor.tenantQuotas.length ≤ j) :
    balance w'.governor.toAccountingState (.tenantCount j) ≤
      balance w.governor.toAccountingState (.tenantCount j) := by
  have hlocked := hw.locked.balance_le (.tenantCount j)
  have hquotas : (lock w.governor).tenantQuotas = w.governor.tenantQuotas :=
    congrArg (·.tenantQuotas) hw.locked.topology_eq
  cases h with
  | admitted h =>
    have hlt := h.index_lt
    rw [hquotas] at hlt
    rw [h.moved, ordinaryLoad, if_neg (by omega)]
    exact hlocked
  | @recoveryAdmitted _ _ _ i _ _ h =>
    have hlt := recoveryTenantIndex_ok h.registered j
    rw [hquotas] at hlt
    rw [h.moved, recoveryLoad, if_neg fun hi => absurd (hlt hi) (by omega)]
    exact hlocked
  | refused h | recoveryRefused h =>
    exact ((h.undisturbed.calm.trans (.recordRefusal _ _)).balance_eq _).le.trans hlocked
  | resized _ _ howned h | recoveryResized _ _ howned h =>
    exact (h.counts_eq howned (a := .tenantCount j) trivial).le.trans hlocked
  | resizeRefused hr hactive howned h =>
    rw [resizeRefusedWorld_governor, (Calm.recordResizeRefusal _ _).balance_eq]
    cases h with
    | kept => exact hlocked
    | fenced => exact hlocked
    | cancelled _ hrel => exact (Nat.le_of_add_right_le (hrel.moved _).le).trans hlocked
  | cancelled _ _ _ h => exact (Nat.le_of_add_right_le (h.moved _).le).trans hlocked
  | observed => exact ((Calm.applyDiskObservation _ _ _).balance_eq _).le.trans hlocked
  | shutDown => exact ((Calm.beginShutdown _).balance_eq _).le.trans hlocked
  | inspected => exact ((Calm.snapshotFrom _).balance_eq _).le.trans hlocked
  | registered h | prepared h => exact ((Calm.enrolled h).balance_eq _).le.trans hlocked
  | staged => exact hlocked
  | published => exact hlocked
  | topologyRefused _ h =>
    rcases h with rfl | rfl
    · exact Nat.le_refl _
    · exact hlocked
  | @abandoned _ pending _ _ =>
    cases hactive : pending.active with
    | true => exact Nat.le_refl _
    | false => exact ((Calm.rollback pending.tenant _).balance_eq _).le.trans hlocked
  | _ => exact Nat.le_refl _

theorem Effect.enrolled (h : Effect inner tenants w op o w') (hw : WorldSound inner tenants w)
    (henrolled : Enrolled w.governor.toAccountingState)
    (hle : w.governor.tenantQuotas.length ≤ w'.governor.tenantQuotas.length) :
    Enrolled w'.governor.toAccountingState := by
  intro j hj
  have hcount := h.tenantCount_le hw (Nat.le_trans hle hj)
  have hold := henrolled j (Nat.le_trans hle hj)
  omega

theorem WorldSound.lockedEnrolled (hw : WorldSound inner tenants w)
    (henrolled : Enrolled w.governor.toAccountingState) : Enrolled (lock w.governor).toAccountingState := by
  intro j hj
  have hquotas : (lock w.governor).tenantQuotas = w.governor.tenantQuotas :=
    congrArg (·.tenantQuotas) hw.locked.topology_eq
  rw [hquotas] at hj
  have hcount := hw.locked.balance_le (.tenantCount j)
  have hold := henrolled j hj
  omega

end Enrollment

/-- Whether the call may change the tenants, their shares or their standing. -/
def Operation.changesTenants : Operation → Bool
  | .publishUpdate _ | .register _ _ _ | .prepareEnrollment _ _ _ | .activate _ | .abandon _ => true
  | _ => false

/-- Reservations, replacements, releases and disk observations. -/
def Operation.isWork : Operation → Bool
  | .reserve _ | .reserveRecovery _ | .tryResize _ _ _ | .cancel _ | .drop _ | .observeDisk _ => true
  | _ => false

/-- The calls that leave the tenants alone, with every handover in order. -/
def Operation.KeepsTenants (w : World) (op : Operation) : Prop :=
  op.changesTenants = false ∧ op.Proper w

instance (w : World) (op : Operation) : Decidable (op.KeepsTenants w) := instDecidableAnd

theorem Operation.isWork_keepsTenants {op : Operation} (h : op.isWork) (w : World) :
    op.KeepsTenants w := by
  cases op with
  | transfer | publishUpdate | register | prepareEnrollment | activate | abandon => cases h
  | _ => exact ⟨rfl, trivial⟩

section Steps

variable {inner : GovernorInner} {tenants : Nat} {w w' : World} {op : Operation} {o : Outcome}

theorem Effect.tenancy_eq (h : Effect inner tenants w op o w') (hw : WorldSound inner tenants w)
    (hop : op.changesTenants = false) : w'.governor.tenancy = w.governor.tenancy := by
  have hlocked := hw.locked.tenancy_eq
  cases h with
  | admitted h | recoveryAdmitted h => exact (congrArg (·.tenancy) h.admitted.frame).trans hlocked
  | refused h | recoveryRefused h =>
    exact ((recordRefusal_tenancy _ _).trans h.undisturbed.tenancy_eq).trans hlocked
  | resized _ _ _ h | recoveryResized _ _ _ h => exact (congrArg (·.tenancy) h.replaced.frame).trans hlocked
  | resizeRefused _ _ _ h =>
    rw [resizeRefusedWorld_governor]
    refine (recordResizeRefusal_tenancy _ _).trans ?_
    cases h with
    | kept => exact hlocked
    | fenced => exact hlocked
    | cancelled _ hrel => exact (congrArg (·.tenancy) hrel.frame).trans hlocked
  | cancelled _ _ _ h => exact (congrArg (·.tenancy) h.frame).trans hlocked
  | observed => exact (applyDiskObservation_tenancy _ _ _).trans hlocked
  | shutDown => exact (beginShutdown_tenancy _).trans hlocked
  | inspected => exact (snapshotFrom_tenancy _).trans hlocked
  | staged => exact hlocked
  | published => cases hop
  | registered => cases hop
  | prepared => cases hop
  | activated => cases hop
  | abandoned => cases hop
  | topologyRefused _ h =>
    rcases h with rfl | rfl
    · rfl
    · exact hlocked
  | _ => rfl

/-- A sound world whose shares are those of the start and cover all usage. -/
structure FixedSound (inner : GovernorInner) (tenants : Nat) (s : GovernorState) (w : World) : Prop where
  world : WorldSound inner tenants w
  partitions : Partitions inner
  tenancy_eq : w.governor.tenancy = s.tenancy
  ceilings : Ceilings inner w.governor.toAccountingState
  enrolled : Enrolled w.governor.toAccountingState

variable {s : GovernorState}

theorem FixedSound.topology_eq (h : FixedSound inner tenants s w) :
    w.governor.toTenantQuotaSuccessor = s.toTenantQuotaSuccessor := congrArg Prod.fst h.tenancy_eq

theorem step_fixedSound (hw : FixedSound inner tenants s w) (hop : op.KeepsTenants w)
    (h : step inner w op = some w') : FixedSound inner tenants s w' := by
  obtain ⟨⟨o, w''⟩, hperform, rfl⟩ := Option.map_eq_some_iff.mp h
  have heffect := perform_effect hw.world hop.2 hperform
  have hfixed := heffect.tenancy_eq hw.world hop.1
  have htopo : w''.governor.toTenantQuotaSuccessor = w.governor.toTenantQuotaSuccessor :=
    congrArg Prod.fst hfixed
  have hquotas : w.governor.tenantQuotas.length = w''.governor.tenantQuotas.length := by rw [htopo]
  exact ⟨heffect.worldSound hw.world, hw.partitions, hfixed.trans hw.tenancy_eq,
    heffect.ceilings hw.world hw.partitions hw.ceilings htopo,
    heffect.enrolled hw.world hw.enrolled hquotas.le⟩

theorem run_fixedSound {ops : List Operation} (hp : Partitions inner) (h : Fresh inner tenants s)
    (hops : EveryStep (step inner) (fun w op => op.KeepsTenants w) (World.initial s) ops)
    (hrun : run (step inner) (World.initial s) ops = some w) : FixedSound inner tenants s w :=
  run_invariant (FixedSound inner tenants s) (fun w op => op.KeepsTenants w)
    (fun _ _ _ hw hop hstep => step_fixedSound hw hop hstep)
    ⟨h.worldSound, hp, rfl, h.ceilings, fun j _ => h.empty (.tenantCount j)⟩ hops hrun

end Steps

/-- Under the tenants a governor is established with, the shares stay the floors of their weights and
no usage exceeds its ceiling. -/
theorem ceilings_hold {sizes : BootstrapSizes} {authority : Nat} {inventory : ResourceInventory}
    {policy : GovernorPolicy} {recoveryPools : RecoveryPoolCapacities} {inner : GovernorInner}
    {s : GovernorState} {ops : List Operation} {w : World}
    (h : establish sizes authority inventory policy recoveryPools = .ok (inner, s))
    (hops : ∀ op ∈ ops, op.isWork = true) (hrun : run (step inner) (World.initial s) ops = some w) :
    w.governor.tenantQuotas = policy.tenantQuotas ∧ Fair inner w.governor.toTenantQuotaSuccessor ∧
      Ceilings inner w.governor.toAccountingState := by
  obtain ⟨hp, hfresh, hquotas⟩ := establish_ok h
  have hw := run_fixedSound hp hfresh
    (everyStep_of_forall (fun op hop w => Operation.isWork_keepsTenants (hops op hop) w) _) hrun
  have htopo := hw.topology_eq
  refine ⟨?_, ?_, hw.ceilings⟩
  · rw [← hquotas]
    exact congrArg (·.tenantQuotas) htopo
  · rw [htopo]
    exact hfresh.fair

theorem ceilings_hold_after_drop : ∃ inner s w, singleGovernor = .ok (inner, s) ∧
      run (step inner) (World.initial s) [.reserve (ingestClaim 7 (by decide)),
        .tryResize 0 (evenly 9) false, .drop 0, .observeDisk (Unsigned.wrap 64 500)] = some w ∧
      Ceilings inner w.governor.toAccountingState := by
  obtain ⟨inner, s, w, hestab, hrun, _⟩ := @exists_run singleGovernor
    [.reserve (ingestClaim 7 (by decide)), .tryResize 0 (evenly 9) false, .drop 0,
      .observeDisk (Unsigned.wrap 64 500)] (fun _ _ _ => True) (fun _ _ _ => inferInstance)
    (by decide +kernel)
  exact ⟨inner, s, w, hestab, hrun, (ceilings_hold hestab (by decide) hrun).2.2⟩

theorem sum_map_add_le {α : Type} {xs : List α} {f g : α → Nat} {x : α} {extra : Nat}
    (hle : ∀ y ∈ xs, f y ≤ g y) (hx : x ∈ xs) (hroom : f x + extra ≤ g x) :
    (xs.map f).sum + extra ≤ (xs.map g).sum := by
  induction xs with
  | nil => cases hx
  | cons y ys ih =>
    simp only [map_cons, sum_cons]
    have hys : (ys.map f).sum ≤ (ys.map g).sum :=
      sum_le_sum fun z hz => hle z (mem_cons_of_mem _ hz)
    rcases mem_cons.mp hx with rfl | hmem
    · omega
    · have hy := hle y mem_cons_self
      have hrest := ih (fun z hz => hle z (mem_cons_of_mem _ hz)) hmem
      omega

theorem sum_range_getElem? {α : Type} (xs : List α) (f : α → Nat) {n : Nat} (h : xs.length ≤ n) :
    ((List.range n).map fun j => xs[j]?.elim 0 f).sum = (xs.map f).sum := by
  induction xs generalizing n with
  | nil =>
    simp
  | cons x xs ih =>
    cases n with
    | zero => simp at h
    | succ n =>
      rw [range_succ_eq_map, map_cons, sum_cons, map_map, map_cons, sum_cons, ← ih (Nat.le_of_succ_le_succ h)]
      rfl

/-- The claim fits its tenant's quota and the unused part of its tenant's share of its class. -/
structure WithinOwnShare (inner : GovernorInner) (s : AccountingState) (claim : WorkClaim) (i : Nat)
    (quota : TenantQuota) : Prop where
  registered : s.tenantQuotas[i]? = some quota ∧ quota.tenant = claim.tenant
  limits : ∀ d, balance s (.ordinaryTenant i d) + claim.amounts.value d ≤ quota.limits.value d
  share : ∀ p, forClass claim.kind.workClass = some p → ∀ d,
    balance s (.tenantPool i p d) + claim.amounts.value d ≤
      floorShare (inner.poolCapacities.value p d) quota.weight.1 (weightSum s.tenantQuotas)

section Shares

variable {inner : GovernorInner} {tenants : Nat} {s : GovernorState} {claim : WorkClaim} {i : Nat}
  {quota : TenantQuota} {p : OrdinaryPool}

theorem Ceilings.tenantPool_le (hc : Ceilings inner s) (hfair : Fair inner s)
    (hquota : s.tenantQuotas[i]? = some quota) (p : OrdinaryPool) (d : ResourceDimension) :
    balance s (.tenantPool i p d) ≤
      floorShare (inner.poolCapacities.value p d) quota.weight.1 (weightSum s.tenantQuotas) := by
  obtain ⟨hlt, _⟩ := List.getElem?_eq_some_iff.mp hquota
  have hshare : s.tenantFairCapacities[i]? = some _ :=
    getElem?_eq_getElem (hfair.length_fair ▸ hlt)
  rw [← hfair.fair i quota _ hquota hshare]
  exact hc.tenantPool i _ hshare p d

variable (h : WithinOwnShare inner s claim i quota)
include h

/-- The class pool has room, because every other tenant is within its floor. -/
theorem WithinOwnShare.pool (hs : Sound inner tenants s) (htopo : TopologySound inner tenants s)
    (hfair : Fair inner s) (hc : Ceilings inner s) (henrolled : Enrolled s)
    (hclass : forClass claim.kind.workClass = some p) (d : ResourceDimension) :
    balance s (.pool p d) + claim.amounts.value d ≤ inner.poolCapacities.value p d := by
  have hquota := h.registered.1
  obtain ⟨hlt, _⟩ := List.getElem?_eq_some_iff.mp hquota
  let floor : TenantQuota → Nat := fun q =>
    floorShare (inner.poolCapacities.value p d) q.weight.1 (weightSum s.tenantQuotas)
  have hle : ∀ j ∈ List.range tenants, balance s (.tenantPool j p d) ≤ s.tenantQuotas[j]?.elim 0 floor := by
    intro j _
    cases hj : s.tenantQuotas[j]? with
    | none => exact (hs.idle_tenantPool (henrolled j (getElem?_eq_none_iff.mp hj)) p d).le
    | some q => exact hc.tenantPool_le hfair hj p d
  have hroom : balance s (.tenantPool i p d) + claim.amounts.value d ≤ s.tenantQuotas[i]?.elim 0 floor := by
    rw [hquota]
    exact h.share p hclass d
  calc balance s (.pool p d) + claim.amounts.value d
      = ((List.range tenants).map fun j => balance s (.tenantPool j p d)).sum +
          claim.amounts.value d := by rw [hs.sum_tenantPool]
    _ ≤ ((List.range tenants).map fun j => s.tenantQuotas[j]?.elim 0 floor).sum :=
        sum_map_add_le hle (mem_range.mpr (Nat.lt_of_lt_of_le hlt htopo.quotas_le)) hroom
    _ = (s.tenantQuotas.map floor).sum := sum_range_getElem? _ _ htopo.quotas_le
    _ ≤ inner.poolCapacities.value p d := sum_weights_floorShare_le _ _

theorem WithinOwnShare.capacity (hs : Sound inner tenants s) (htopo : TopologySound inner tenants s)
    (hfair : Fair inner s) (hc : Ceilings inner s) (hp : Partitions inner) (henrolled : Enrolled s)
    (hclass : forClass claim.kind.workClass = some p) (d : ResourceDimension) :
    balance s (.total d) + claim.amounts.value d ≤ inner.ordinaryCeiling.value d + balance s (.recovery d) := by
  have hsum : poolSum (fun p => balance s (.pool p d)) + claim.amounts.value d ≤
      poolSum fun p => inner.poolCapacities.value p d :=
    sum_map_add_le (fun q _ => hc.pool q d) (Listed.mem_all p) (h.pool hs htopo hfair hc henrolled hclass d)
  have hord := hs.poolSum_add_recovery d
  rw [hp.pools d] at hsum
  omega

theorem WithinOwnShare.combined (hs : Sound inner tenants s) (hfair : Fair inner s) (hc : Ceilings inner s)
    (hp : Partitions inner) (hclass : forClass claim.kind.workClass = some p)
    (d : ResourceDimension) :
    balance s (.ordinaryTenant i d) + claim.amounts.value d ≤
      floorShare (inner.recoverySharedCapacity.value d) quota.weight.1 (weightSum s.tenantQuotas) := by
  calc balance s (.ordinaryTenant i d) + claim.amounts.value d
      = poolSum (fun p => balance s (.tenantPool i p d)) + claim.amounts.value d := by
        rw [hs.tenantPoolSum]
    _ ≤ poolSum fun p => floorShare (inner.poolCapacities.value p d) quota.weight.1
          (weightSum s.tenantQuotas) :=
        sum_map_add_le (fun q _ => hc.tenantPool_le hfair h.registered.1 q d) (Listed.mem_all p)
          (h.share p hclass d)
    _ ≤ floorShare (poolSum fun p => inner.poolCapacities.value p d) quota.weight.1
          (weightSum s.tenantQuotas) := sum_floorShare_le _ _ _ _
    _ ≤ floorShare (inner.recoverySharedCapacity.value d) quota.weight.1 (weightSum s.tenantQuotas) := by
        rw [hp.pools d]
        exact floorShare_mono _ _ (hp.ordinary_le_shared d)

end Shares

/-- The claim is decided in a healthy state, and nothing but its tenant's own share could stop it. -/
structure Unobstructed (inner : GovernorInner) (s : GovernorState) (claim : WorkClaim) (i : Nat)
    (quota : TenantQuota) : Prop where
  opened : s.lifecycle = .opened
  idle : s.outstandingRecovery.1 = 0
  healthy : s.diskPressure = .healthy
  disk : claim.amounts.value .diskHeadroomBytes = 0 ∨ s.totalUsage.value .diskHeadroomBytes +
    claim.amounts.value .diskHeadroomBytes ≤ s.usableDiskBytes.1
  own : WithinOwnShare inner s claim i quota
  slot : s.outstanding.1 + 1 + (missingClasses s claim.kind.workClass +
    missingTenants s (some i)) ≤ inner.maximumOutstanding.1
  operation : validateOperationChild inner s i claim.operation claim.kind.workClass = .ok ⟨⟩
  principal : refusePrincipalLimit inner s i claim.principal claim.operation
    claim.kind.workClass claim.amounts = .ok ⟨⟩

section Admission

variable {inner : GovernorInner} {tenants : Nat} {s : GovernorState} {claim : WorkClaim} {i : Nat}
  {quota : TenantQuota}

theorem tenantIndexOf_eq_ok (hdist : (s.tenantQuotas.map (·.tenant)).Nodup)
    (hquota : s.tenantQuotas[i]? = some quota) (hpending : s.pendingTenant = none) (cls : WorkClass) :
    tenantIndexOf s quota.tenant cls = .ok i := by
  obtain ⟨hlt, hget⟩ := List.getElem?_eq_some_iff.mp hquota
  refine orFail_eq_ok_iff.mpr (findIdx?_eq_some_iff_getElem.mpr ⟨hlt, ?_, ?_⟩)
  · rw [hget, hpending]
    exact decide_eq_true ⟨rfl, (fun h => by cases h)⟩
  · intro j hj
    have hlt' : j < s.tenantQuotas.length := Nat.lt_trans hj hlt
    refine fun hsame => Nat.ne_of_lt hj ?_
    have heq := (of_decide_eq_true hsame).1
    rw [← hget] at heq
    have hj' : j < (s.tenantQuotas.map (·.tenant)).length := by rwa [length_map]
    have hi' : i < (s.tenantQuotas.map (·.tenant)).length := by rwa [length_map]
    have hget : (s.tenantQuotas.map (·.tenant))[j] = (s.tenantQuotas.map (·.tenant))[i] := by
      rw [getElem_map, getElem_map]
      exact heq
    exact hdist.getElem_inj_iff.mp hget

theorem WorkKind.exists_pool (kind : WorkKind) : ∃ p, forClass kind.workClass = some p := by
  cases kind <;> exact ⟨_, rfl⟩

theorem Sound.idle_shared (hs : Sound inner tenants s) (hidle : s.outstandingRecovery.1 = 0) (i : Nat)
    (d : ResourceDimension) :
    balance s (.recovery d) = 0 ∧ balance s (.recoveryShared d) = 0 ∧ balance s (.tenantShared i d) = 0 := by
  have hrecov := hs.idle_recovery hidle d
  have hshared := hs.shared_add_kindSum d
  have htenant := hs.recoveryTenant_le i d
  have htenantShared := hs.tenantShared_le i d
  omega

theorem Unobstructed.due (h : Unobstructed inner s claim i quota) (hs : Sound inner tenants s)
    (htopo : TopologySound inner tenants s) (hfair : Fair inner s) (hp : Partitions inner)
    (hc : Ceilings inner s) (henrolled : Enrolled s) (hlimits : s.tenantLimits[i]? = some quota.limits)
    (hpending : s.pendingTenant = none) : ∃ i p, OrdinaryDue inner claim i p s := by
  obtain ⟨p, hclass⟩ := WorkKind.exists_pool claim.kind
  have hquota := h.own.registered.1
  refine ⟨i, p, {
    serving := by rw [h.opened]; exact fun h => by cases h
    registered := ?_
    slot := h.slot
    operation := h.operation
    principal := h.principal
    healthy := h.healthy
    disk := h.disk
    capacity := fun d => ?_
    quota := ?_
    combined := ?_
    ofClass := hclass
    pool := h.own.pool hs htopo hfair hc henrolled hclass
    tenantPool := ?_ }⟩
  · rw [← h.own.registered.2]
    exact tenantIndexOf_eq_ok htopo.distinct hquota hpending _
  · have hcap := h.own.capacity hs htopo hfair hc hp henrolled hclass d
    rw [(hs.idle_shared h.idle i d).2.1]
    exact hcap
  · intro limit hlimit d
    rw [hlimits] at hlimit
    cases hlimit
    exact h.own.limits d
  · intro share hshare d
    rw [hfair.shared i quota share hquota hshare, (hs.idle_shared h.idle i d).2.2]
    exact h.own.combined hs hfair hc hp hclass d
  · intro share hshare d
    rw [hfair.fair i quota share hquota hshare]
    exact h.own.share p hclass d

end Admission

/-- A claim that fits its tenant's quota and its tenant's share of its class is admitted, whatever the
other tenants hold, exactly when a slot is free for it and, where it opens an operation, a generation is left. -/
theorem own_share_admitted {sizes : BootstrapSizes} {authority : Nat} {inventory : ResourceInventory}
    {policy : GovernorPolicy} {recoveryPools : RecoveryPoolCapacities} {inner : GovernorInner}
    {s : GovernorState} {ops : List Operation} {w : World} {claim : WorkClaim} {i : Nat} {quota : TenantQuota}
    (h : establish sizes authority inventory policy recoveryPools = .ok (inner, s))
    (hops : EveryStep (step inner) (fun w op => op.KeepsTenants w) (World.initial s) ops)
    (hrun : run (step inner) (World.initial s) ops = some w)
    (hclaim : Unobstructed inner (lock w.governor) claim i quota) :
    (∃ w', perform inner w (.reserve claim) = some (.admitted w.handles.length, w')) ↔
      (lock w.governor).freeSlots ≠ [] ∧
        (claim.opensOperation → (lock w.governor).nextOperationGeneration.1 + 1 < 2 ^ 64) := by
  obtain ⟨hp, hfresh, _⟩ := establish_ok h
  have hw := run_fixedSound hp hfresh hops hrun
  have hlocked := hw.world.locked
  have htenancy := hlocked.tenancy_eq.trans hw.tenancy_eq
  have htopo : (lock w.governor).toTenantQuotaSuccessor = s.toTenantQuotaSuccessor :=
    congrArg Prod.fst htenancy
  have hpending : (lock w.governor).pendingTenant = none :=
    (congrArg Prod.snd htenancy).trans hfresh.enrolled
  have hfair : Fair inner (lock w.governor).toTenantQuotaSuccessor := htopo ▸ hfresh.fair
  have hceilings := hw.world.lockedCeilings hw.ceilings
  have hlimits : (lock w.governor).tenantLimits[i]? = some quota.limits := by
    have hquota := hclaim.own.registered.1
    rw [htopo] at hquota ⊢
    exact hfresh.limits i quota hquota
  have hdue := hclaim.due hlocked.sound hw.world.lockedTopology hfair hp hceilings
    (hw.world.lockedEnrolled hw.enrolled) hlimits hpending
  obtain ⟨⟨o, w'⟩, hperform⟩ : ∃ result, perform inner w (.reserve claim) = some result := ⟨_, rfl⟩
  have hproper : (Operation.reserve claim).Proper w := trivial
  have heffect := perform_effect hw.world hproper hperform
  rw [hperform]
  cases heffect with
  | admitted hadmission =>
    refine iff_of_true ⟨_, rfl⟩ ⟨fun hempty => ?_, hadmission.generation⟩
    have hfree := hadmission.admitted.free
    rw [hempty] at hfree
    cases hfree
  | refused hrefused =>
    constructor
    · rintro ⟨_, hadmitted⟩
      cases hadmitted
    · rintro ⟨hroom, hgeneration⟩
      have hready : OrdinaryReady inner claim (lock w.governor) := {
        opened := by rw [hclaim.opened]; exact fun h => by cases h
        partitions := hp
        ceilings := hceilings
        generation := hgeneration
        room := hroom }
      exact absurd ⟨hready, hdue⟩ hrefused.spared
  | topologyRefused hop _ =>
    rcases hop with ⟨_, _, _, hop⟩ | ⟨_, _, _, hop⟩ | ⟨_, _, _, hop⟩ <;> cases hop

instance (inner : GovernorInner) (s : GovernorState) (claim : WorkClaim) (i : Nat) (quota : TenantQuota) :
    Decidable (Unobstructed inner s claim i quota) :=
  decidable_of_iff (s.lifecycle = .opened ∧ s.outstandingRecovery.1 = 0 ∧ s.diskPressure = .healthy ∧
      (claim.amounts.value .diskHeadroomBytes = 0 ∨ s.totalUsage.value .diskHeadroomBytes +
        claim.amounts.value .diskHeadroomBytes ≤ s.usableDiskBytes.1) ∧
      ((s.tenantQuotas[i]? = some quota ∧ quota.tenant = claim.tenant) ∧
        (∀ d, balance s (.ordinaryTenant i d) + claim.amounts.value d ≤ quota.limits.value d) ∧
        (∀ p, forClass claim.kind.workClass = some p → ∀ d,
          balance s (.tenantPool i p d) + claim.amounts.value d ≤
            floorShare (inner.poolCapacities.value p d) quota.weight.1 (weightSum s.tenantQuotas))) ∧
      s.outstanding.1 + 1 + (missingClasses s claim.kind.workClass +
        missingTenants s (some i)) ≤ inner.maximumOutstanding.1 ∧
      validateOperationChild inner s i claim.operation claim.kind.workClass = .ok ⟨⟩ ∧
      refusePrincipalLimit inner s i claim.principal claim.operation
        claim.kind.workClass claim.amounts = .ok ⟨⟩)
    ⟨fun ⟨h₁, h₂, h₃, h₄, ⟨h₅, h₆, h₇⟩, h₈, h₉, h⟩ => ⟨h₁, h₂, h₃, h₄, ⟨h₅, h₆, h₇⟩, h₈, h₉, h⟩,
      fun h => ⟨h.opened, h.idle, h.healthy, h.disk, ⟨h.own.registered, h.own.limits, h.own.share⟩, h.slot,
        h.operation, h.principal⟩⟩

def sampleClaim (kind : WorkKind) : WorkClaim :=
  ⟨sampleTenant 1, none, kind, evenly 1, none,
    fun hempty => absurd (hempty .memoryBytes) (by decide), fun _ h => by cases h⟩

def rootClaim : WorkClaim :=
  { sampleClaim .ingest with principal := some ⟨sampleIdentifier 2⟩, coherent := fun _ h => by cases h }

def childClaim (rootSlot generation : Nat) : WorkClaim :=
  { rootClaim with
    operation := some ⟨0, rootSlot, Unsigned.wrap 64 generation, sampleTenant 1, ⟨sampleIdentifier 2⟩,
      .ingest⟩
    coherent := by
      rintro token ⟨⟩
      exact ⟨rfl, rfl, rfl⟩ }

def sevenSlots : Except GovernorFailure (GovernorInner × GovernorState) :=
  slottedGovernor 7 (by decide)

/-- Two roots are released before their children: they keep their slots without being counted. -/
def retainedRoots : List Operation :=
  [.reserve rootClaim, .reserve (childClaim 0 1), .cancel 0, .reserve rootClaim, .reserve (childClaim 2 2),
    .cancel 2, .reserve (sampleClaim .securityLifecycle), .reserve (sampleClaim .interactiveQueryTail),
    .reserve (sampleClaim .interactiveQueryTail)]

/-- The next claim passes every check, finds no slot, and fences the governor. -/
theorem own_share_fences_without_slot :
    ∃ inner s w, sevenSlots = .ok (inner, s) ∧ run (step inner) (World.initial s) retainedRoots = some w ∧
      EveryStep (step inner) (fun w op => op.KeepsTenants w) (World.initial s) retainedRoots ∧
      Unobstructed inner (lock w.governor) (sampleClaim .ordinaryMaintenanceBackup) 0 singleQuota ∧
      (step inner w (.reserve (sampleClaim .ordinaryMaintenanceBackup))).any
        (fun w' => w'.governor.lifecycle = .fenced) = true :=
  exists_run (by decide +kernel)

/-- Beside the work of others in three classes, with a root that has not been released. -/
def liveRoot : List Operation :=
  [.reserve rootClaim, .reserve (childClaim 0 1), .reserve (sampleClaim .securityLifecycle), .drop 2]

theorem own_share_admitted_beside_root :
    ∃ inner s w, sevenSlots = .ok (inner, s) ∧ run (step inner) (World.initial s) liveRoot = some w ∧
      (∃ w', perform inner w (.reserve (sampleClaim .interactiveQueryTail)) = some (.admitted w.handles.length, w')) ∧
      ∃ w', perform inner w (.reserve rootClaim) = some (.admitted w.handles.length, w') := by
  obtain ⟨inner, s, w, hestab, hrun, hkeeps, hclaim, hroot, hgeneration, hroom⟩ := @exists_run sevenSlots
    liveRoot (fun inner s w =>
      EveryStep (step inner) (fun w op => op.KeepsTenants w) (World.initial s) liveRoot ∧
        Unobstructed inner (lock w.governor) (sampleClaim .interactiveQueryTail) 0 singleQuota ∧
        Unobstructed inner (lock w.governor) rootClaim 0 singleQuota ∧
        (lock w.governor).nextOperationGeneration.1 + 1 < 2 ^ 64 ∧ (lock w.governor).freeSlots ≠ [])
    (fun _ _ _ => inferInstance) (by decide +kernel)
  exact ⟨inner, s, w, hestab, hrun, (own_share_admitted hestab hkeeps hrun hclaim).mpr ⟨hroom, fun _ => hgeneration⟩,
    (own_share_admitted hestab hkeeps hrun hroot).mpr ⟨hroom, fun _ => hgeneration⟩⟩

end Positron.Governor
