import Positron.Governor.Effects

/-! Conservation over whole runs: every aggregate is the sum over the grants that are not released. What a refusal
leaves behind. -/

namespace Positron.Governor
open MachineInt Slots Runs List

section Runs

variable {inner : GovernorInner} {tenants : Nat} {s : GovernorState} {w : World} {ops : List Operation}

theorem Fresh.worldSound (h : Fresh inner tenants s) : WorldSound inner tenants (World.initial s) :=
  ⟨h.sound, h.topology, h.handles, fun j x hj => absurd hj (by simp [World.initial]),
    fun j u hj => absurd hj (by simp [World.initial])⟩

theorem run_worldSound (h : Fresh inner tenants s)
    (hproper : EveryStep (step inner) (fun w op => op.Proper w) (World.initial s) ops)
    (hrun : run (step inner) (World.initial s) ops = some w) : WorldSound inner tenants w :=
  run_invariant (WorldSound inner tenants) (fun w op => op.Proper w)
    (fun _ _ _ hw hop hstep => step_worldSound hw hop hstep) h.worldSound hproper hrun

end Runs

/-- In every run in which only active reservations are handed over, each aggregate is the sum over the
unreleased grants, and the free slots are exactly the slots without a record. -/
theorem aggregates_conserved {sizes : BootstrapSizes} {authority : Nat} {inventory : ResourceInventory}
    {policy : GovernorPolicy} {recoveryPools : RecoveryPoolCapacities} {inner : GovernorInner}
    {s : GovernorState} {ops : List Operation} {w : World}
    (h : establish sizes authority inventory policy recoveryPools = .ok (inner, s))
    (hproper : EveryStep (step inner) (fun w op => op.Proper w) (World.initial s) ops)
    (hrun : run (step inner) (World.initial s) ops = some w) :
    Balanced w.governor.toAccountingState ∧ w.governor.grantRecords.length = inner.maximumOutstanding.1 ∧
      Partitioned w.governor.grantRecords w.governor.freeSlots := by
  have hsound := (run_worldSound (establish_ok h).2.1 hproper hrun).sound
  exact ⟨hsound.balanced, hsound.length_records, hsound.slots.partitioned⟩

section Views

variable {inner : GovernorInner} {kind : RecoveryWorkKind} {ordinaryUsage : ResourceAmounts} {usage : RecoveryPoolUsage}

theorem le_kindSum (f : RecoveryWorkKind → Nat) (kind : RecoveryWorkKind) : f kind ≤ kindSum f := by
  rw [← kindSum_single kind (f kind)]
  apply kindSum_le
  intro k
  split
  · rename_i hsame
    rw [hsame]
  · exact Nat.zero_le _

/-- The pools of a view are parts of one ceiling, so what is left of them can be counted. -/
theorem Partitions.countable (hp : Partitions inner) {view : RecoveryPoolView} {d : ResourceDimension}
    (hshared : view.sharedCapacity.value d ≤ inner.recoverySharedCapacity.value d)
    (hprotected : view.protectedCapacity.value d ≤ (inner.recoveryPoolCapacities.get kind).value d) :
    view.Countable kind d := by
  have hceiling := hp.shared d
  have hpart := le_kindSum (fun k => (inner.recoveryPoolCapacities.get k).value d) kind
  have hword := inner.totalCeiling.value_lt d
  unfold RecoveryPoolView.Countable
  omega

/-- In every state of a run a recovery plan is found exactly where each dimension of the request can be split. -/
theorem reachable_recovery_plan_iff {sizes : BootstrapSizes} {authority : Nat} {inventory : ResourceInventory}
    {policy : GovernorPolicy} {recoveryPools : RecoveryPoolCapacities} {s : GovernorState} {ops : List Operation}
    {w : World} (h : establish sizes authority inventory policy recoveryPools = .ok (inner, s))
    (hproper : EveryStep (step inner) (fun w op => op.Proper w) (World.initial s) ops)
    (hrun : run (step inner) (World.initial s) ops = some w) {tenantIndex : Option Nat}
    {scopeUsage : RecoveryPoolUsage} {scopeView : RecoveryPoolView}
    (hview : recoveryScopeView inner (lock w.governor).toAccountingState tenantIndex kind ordinaryUsage scopeUsage =
      some scopeView) (requested : ResourceAmounts) :
    (∃ charge, planRecoveryCharge kind requested (recoveryGlobalView inner kind ordinaryUsage usage) scopeView =
      .ok charge) ↔ ∀ d, ∃ shared protectedPart,
        Splits kind requested (recoveryGlobalView inner kind ordinaryUsage usage) scopeView d shared protectedPart := by
  obtain ⟨hp, hfresh, -⟩ := establish_ok h
  have htopo := (run_worldSound hfresh hproper hrun).lockedTopology
  have hscope : ∀ d, scopeView.Countable kind d := by
    intro d
    cases tenantIndex with
    | none =>
      cases hview
      exact hp.countable le_rfl (htopo.system_le kind d)
    | some index =>
      obtain ⟨shared, hshared, hview⟩ := Option.bind_eq_some_iff.mp hview
      obtain ⟨pools, hpools, hview⟩ := Option.bind_eq_some_iff.mp hview
      obtain ⟨ordinary, -, hview⟩ := Option.bind_eq_some_iff.mp hview
      cases hview
      exact hp.countable (htopo.shared_le index shared hshared d) (htopo.pools_le index pools hpools kind d)
  rw [exists_planRecoveryCharge_iff]
  exact forall_congr' fun d => (and_iff_right (hp.countable le_rfl le_rfl)).trans (and_iff_right (hscope d))

end Views

theorem exists_run {established : Except GovernorFailure (GovernorInner × GovernorState)}
    {ops : List Operation} {P : GovernorInner → GovernorState → World → Prop}
    [∀ inner s w, Decidable (P inner s w)]
    (h : (match established with
      | .ok (inner, s) => (run (step inner) (World.initial s) ops).any fun w => decide (P inner s w)
      | .error _ => false) = true) :
    ∃ inner s w, established = .ok (inner, s) ∧ run (step inner) (World.initial s) ops = some w ∧
      P inner s w := by
  cases established with
  | error failure => cases h
  | ok result =>
    obtain ⟨inner, s⟩ := result
    obtain ⟨w, hrun, hP⟩ := (Option.any_eq_true _ _).mp h
    exact ⟨inner, s, w, rfl, hrun, of_decide_eq_true hP⟩

def evenly (n : Nat) : ResourceAmounts := .uniform (Unsigned.wrap 64 n)

theorem value_evenly {n : Nat} (h : n < 2 ^ 64) (d : ResourceDimension) : (evenly n).value d = n :=
  Nat.mod_eq_of_lt h

theorem evenly_allPositive {n : Nat} (hpos : 0 < n) (h : n < 2 ^ 64) : (evenly n).allPositive := by
  intro d
  rw [value_evenly h]
  exact hpos

theorem evenly_isAtMost {m n : Nat} (hle : m ≤ n) (h : n < 2 ^ 64) : (evenly m).isAtMost (evenly n) := by
  intro d
  rw [value_evenly h, value_evenly (Nat.lt_of_le_of_lt hle h)]
  exact hle

theorem evenly_minimum (n : Nat) : (evenly n).minimum (evenly n) = evenly n := by
  simp [ResourceAmounts.minimum, ResourceAmounts.zipMap, evenly, ResourceAmounts.uniform]

def sampleIdentifier (n : Nat) : Identifier :=
  ⟨⟨1 :: List.replicate 15 (UInt8.ofNat n), by simp⟩, by simp⟩

def sampleTenant (n : Nat) : TenantId := ⟨sampleIdentifier n⟩

def sampleQuota (n weight limit : Nat) (h : 0 < weight % 2 ^ 16 ∧ 0 < limit % 2 ^ 64) : TenantQuota :=
  ⟨sampleTenant n, Unsigned.wrap 16 weight, evenly limit, h.1, fun _ => h.2⟩

def samplePools (n : Nat) (h : 0 < n ∧ n + 1 < 2 ^ 64) : OrdinaryPoolPolicy where
  security := evenly (n + 1)
  ingest := evenly (n + 1)
  query := evenly n
  maintenance := evenly n
  positive := by
    have hmore := evenly_allPositive (Nat.succ_pos n) h.2
    have hless := evenly_allPositive h.1 (Nat.lt_of_succ_lt h.2)
    exact ⟨hmore, hmore, hless, hless⟩
  ordered := ⟨evenly_isAtMost (Nat.le_refl _) h.2, evenly_isAtMost (Nat.le_succ n) h.2⟩
  strict := by
    intro hle
    have hle := hle .memoryBytes
    rw [value_evenly h.2, value_evenly (Nat.lt_of_succ_lt h.2)] at hle
    omega

def sampleInventory (capacity tenants slots : Nat) (hcapacity : 102 < capacity ∧ capacity < 2 ^ 64)
    (htenants : 0 < tenants ∧ tenants ≤ maxTenantQuotas)
    (hslots : 0 < slots ∧ slots ≤ maxOutstandingReservations) : ResourceInventory where
  detected := evenly capacity
  operator := evenly capacity
  recoveryReserve := evenly 100
  cardinality := ⟨tenants, slots, htenants, hslots⟩
  diskThresholds := ⟨Unsigned.wrap 64 100, Unsigned.wrap 64 101, Unsigned.wrap 64 101,
    Unsigned.wrap 64 102, by decide⟩
  initialDisk := Unsigned.wrap 64 capacity
  positive := by
    have hcap := evenly_allPositive (Nat.lt_of_lt_of_le (by decide) (Nat.le_of_lt hcapacity.1)) hcapacity.2
    rw [evenly_minimum]
    exact ⟨hcap, evenly_allPositive (by decide) (by decide), hcap⟩
  reserve_fits := by
    intro d
    rw [evenly_minimum, value_evenly hcapacity.2, value_evenly (by decide)]
    exact Nat.lt_of_le_of_lt (by decide) hcapacity.1
  disk_fits := by
    have hdisk : (Unsigned.wrap 64 capacity).1 = capacity := Nat.mod_eq_of_lt hcapacity.2
    rw [value_evenly hcapacity.2, value_evenly (by decide : 100 < 2 ^ 64), hdisk]
    exact ⟨by decide, by show 102 ≤ capacity; omega, Nat.le_refl _⟩

def sampleRecoveryPools : RecoveryPoolCapacities := ⟨fun _ => evenly 10⟩

def singleQuota : TenantQuota := sampleQuota 1 1 100 (by decide)

def singlePolicy : GovernorPolicy where
  tenantQuotas := [singleQuota]
  pools := samplePools 10 (by decide)
  principalQuota := none
  bounded := by decide
  distinct := List.nodup_singleton _

def slottedGovernor (slots : Nat) (h : 0 < slots ∧ slots ≤ maxOutstandingReservations) :
    Except GovernorFailure (GovernorInner × GovernorState) :=
  establish ⟨0, 0, 0, 0⟩ 0 (sampleInventory 1000 1 slots (by decide) (by decide) h) singlePolicy
    sampleRecoveryPools

def singleGovernor : Except GovernorFailure (GovernorInner × GovernorState) :=
  slottedGovernor 6 (by decide)

def ingestClaim (n : Nat) (h : 0 < n % 2 ^ 64) : WorkClaim :=
  ⟨sampleTenant 1, none, .ingest, evenly n, none, fun hempty => absurd (hempty .memoryBytes)
    (Nat.ne_of_gt h), (fun _ h => by cases h)⟩

/-- A reservation is handed over after it was cancelled, and dropped by its new holder. The slot is
another's by then. -/
def staleTransfer : List Operation :=
  [.reserve (ingestClaim 7 (by decide)), .cancel 0, .transfer 0, .reserve (ingestClaim 5 (by decide)),
    .drop 0, .reserve (ingestClaim 10 (by decide)), .tryResize 1 (evenly 3) false]

theorem stale_transfer_breaks_conservation : ∃ inner s w, singleGovernor = .ok (inner, s) ∧
      run (step inner) (World.initial s) staleTransfer = some w ∧ w.governor.lifecycle ≠ .fenced ∧
      balance w.governor.toAccountingState (.total .memoryBytes) = 8 ∧
      tally (GrantRecord.load (.total .memoryBytes)) w.governor.grantRecords = 3 :=
  exists_run (by decide +kernel)

def plainTransfer : List Operation :=
  [.reserve (ingestClaim 7 (by decide)), .reserve (ingestClaim 5 (by decide)),
    .tryResize 0 (evenly 9) false, .transfer 1, .reclaim 1, .drop 1, .inspect]

theorem aggregates_conserved_after_transfer :
    ∃ inner s w, singleGovernor = .ok (inner, s) ∧ run (step inner) (World.initial s) plainTransfer = some w ∧
      balance w.governor.toAccountingState (.total .memoryBytes) = 9 ∧ Balanced w.governor.toAccountingState ∧
      w.governor.grantRecords.length = inner.maximumOutstanding.1 ∧
      Partitioned w.governor.grantRecords w.governor.freeSlots := by
  obtain ⟨inner, s, w, hestab, hrun, hproper, htotal⟩ := @exists_run singleGovernor plainTransfer
    (fun inner s w => EveryStep (step inner) (fun w op => op.Proper w) (World.initial s) plainTransfer ∧
      balance w.governor.toAccountingState (.total .memoryBytes) = 9) (fun _ _ _ => inferInstance)
    (by decide +kernel)
  exact ⟨inner, s, w, hestab, hrun, htotal, aggregates_conserved hestab hproper hrun⟩

/-- Once no reservation is active, whichever way each ended, the next call finds every account empty. -/
theorem idle_governor_charges_nothing {sizes : BootstrapSizes} {authority : Nat} {inventory : ResourceInventory}
    {policy : GovernorPolicy} {recoveryPools : RecoveryPoolCapacities} {inner : GovernorInner}
    {s : GovernorState} {ops : List Operation} {w : World}
    (h : establish sizes authority inventory policy recoveryPools = .ok (inner, s))
    (hproper : EveryStep (step inner) (fun w op => op.Proper w) (World.initial s) ops)
    (hrun : run (step inner) (World.initial s) ops = some w)
    (hidle : ∀ handle ∈ w.handles, handle.reservation.active = false)
    (hopen : (lock w.governor).lifecycle ≠ .fenced) (a : Account) :
    balance (lock w.governor).toAccountingState a = 0 := by
  have hlocked := (run_worldSound (establish_ok h).2.1 hproper hrun).locked
  rw [hlocked.sound.balanced a]
  refine tally_eq_zero fun slot record hrec => if_pos (Bool.not_eq_false _ |>.mp fun hlive => ?_)
  rcases hlocked.handlesSound.covered hopen slot ⟨record, hrec, hlive⟩ with hpending | ⟨j, handle, hj, hactive, -⟩
  · rw [hlocked.clear slot] at hpending
    cases hpending
  · rw [hidle handle (mem_of_getElem? hj)] at hactive
    cases hactive

def briefHold : List Operation := [.reserve (ingestClaim 7 (by decide)), .drop 0]

theorem dropped_reservation_charges_nothing : ∃ inner s w, singleGovernor = .ok (inner, s) ∧
    run (step inner) (World.initial s) briefHold = some w ∧ ∀ a, balance (lock w.governor).toAccountingState a = 0 := by
  obtain ⟨inner, s, w, hestab, hrun, hproper, hidle, hopen⟩ := @exists_run singleGovernor briefHold
    (fun inner s w => EveryStep (step inner) (fun w op => op.Proper w) (World.initial s) briefHold ∧
      (∀ handle ∈ w.handles, handle.reservation.active = false) ∧ (lock w.governor).lifecycle ≠ .fenced)
    (fun _ _ _ => inferInstance) (by decide +kernel)
  exact ⟨inner, s, w, hestab, hrun, idle_governor_charges_nothing hestab hproper hrun hidle hopen⟩

def GovernorState.CanCount (s : GovernorState) : Prop :=
  ((rejectionSum s.rejectionCounts).bind (·.checkedAdd (Unsigned.wrap 64 1))).isSome = true ∧
    ∀ code, ((s.rejectionCounts code).checkedAdd (Unsigned.wrap 64 1)).isSome = true

def CountedOnly (s s' : GovernorState) : Prop :=
  s.CanCount → ∃ counts, s' = { s with rejectionCounts := counts }

theorem recordRefusal_counts (failure : AdmissionFailure) (s : GovernorState) :
    CountedOnly s (recordRefusal failure s) := by
  rintro ⟨hsum, hcodes⟩
  obtain ⟨total, htotal⟩ := Option.isSome_iff_exists.mp hsum
  obtain ⟨count, hcount⟩ := Option.isSome_iff_exists.mp (hcodes failure.code)
  unfold recordRefusal
  split
  · exact ⟨_, rfl⟩
  · rw [htotal, hcount]
    exact ⟨_, rfl⟩

theorem recordResizeRefusal_counts (failure : ResizeFailure) (s : GovernorState) :
    CountedOnly s (recordResizeRefusal failure s) := by
  unfold recordResizeRefusal
  split
  · exact recordRefusal_counts _ s
  · exact fun _ => ⟨_, rfl⟩

/-- A refusal that does not report corruption, in the state in which the lock was taken. -/
theorem refusals_leave_no_trace {sizes : BootstrapSizes} {authority : Nat} {inventory : ResourceInventory}
    {policy : GovernorPolicy} {recoveryPools : RecoveryPoolCapacities} {inner : GovernorInner}
    {s : GovernorState} {ops : List Operation} {w : World}
    (h : establish sizes authority inventory policy recoveryPools = .ok (inner, s))
    (hproper : EveryStep (step inner) (fun w op => op.Proper w) (World.initial s) ops)
    (hrun : run (step inner) (World.initial s) ops = some w) :
    (∀ claim failure w', perform inner w (.reserve claim) = some (.refused failure, w') →
      failure.code ≠ .internalFenced → CountedOnly (lock w.governor) w'.governor) ∧
    (∀ claim failure w', perform inner w (.reserveRecovery claim) = some (.refused failure, w') →
      failure.code ≠ .internalFenced → CountedOnly (lock w.governor) w'.governor) ∧
    ∀ handle amounts preserve r failure w', w.inCustody handle .held = some r →
      perform inner w (.tryResize handle amounts preserve) = some (.resizeRefused failure, w') →
      failure.code ≠ .internalFenced → (r.active = false ∨ amounts.isEmpty) ∧ w' = w ∨
        CountedOnly (if (r.resizeRequest amounts preserve).keeps then lock w.governor
          else (tryRelease r w.governor).2) w'.governor := by
  have hw := run_worldSound (establish_ok h).2.1 hproper hrun
  refine ⟨fun claim failure w' hperform hcode => ?_, fun claim failure w' hperform hcode => ?_, ?_⟩
  · cases reserve_effect hw (Option.some.inj hperform) with
    | refused hrefused =>
      rw [hrefused.kept hcode]
      exact recordRefusal_counts failure _
  · cases reserveRecovery_effect hw (Option.some.inj hperform) with
    | recoveryRefused hrefused =>
      rw [hrefused.kept hcode]
      exact recordRefusal_counts failure _
  · intro handle amounts preserve r failure w' hr hperform hcode
    obtain ⟨r', hr', hperform⟩ := Option.map_eq_some_iff.mp hperform
    cases hr.symm.trans hr'
    cases tryResize_effect hw hr hperform with
    | resizeIdle hr' hidle =>
      cases hr.symm.trans hr'
      exact .inl ⟨hidle, rfl⟩
    | resizeRefused hr' hactive howned hrefused =>
      cases hr.symm.trans hr'
      right
      rw [resizeRefusedWorld_governor]
      cases hrefused with
      | kept _ hkeeps =>
        rw [if_pos (hkeeps.resolve_left hcode)]
        exact recordResizeRefusal_counts failure _
      | fenced hfenced => exact absurd hfenced hcode
      | cancelled _ _ hkeeps hcancelled =>
        -- the cancellation runs the release of the slot, which the handle fits
        obtain ⟨released, _, hrel, htry⟩ := tryReleaseLocked_run hw.locked.sound howned
        cases hcancelled.symm.trans hrel
        rw [if_neg (by rw [hkeeps]; exact Bool.false_ne_true), tryRelease, htry]
        exact recordResizeRefusal_counts failure _

def Outcome.refusalCode : Outcome → Option AdmissionFailureCode
  | .refused failure => some failure.code
  | .resizeRefused failure => failure.admissionCode
  | _ => none

def Outcome.refusal : Outcome → Option AdmissionFailure
  | .refused failure => some failure
  | _ => none

def Outcome.resizeRefusal : Outcome → Option ResizeFailure
  | .resizeRefused failure => some failure
  | _ => none

theorem exists_refused {result : Option (Outcome × World)} {P : AdmissionFailure → Bool}
    (h : result.any (fun result => result.1.refusal.any P)) :
    ∃ failure w', result = some (.refused failure, w') ∧ P failure := by
  obtain ⟨⟨o, w'⟩, rfl, hrefusal⟩ := (Option.any_eq_true _ _).mp h
  obtain ⟨failure, hfailure, hP⟩ := (Option.any_eq_true _ _).mp hrefusal
  cases o with
  | refused found =>
    cases hfailure
    exact ⟨failure, w', rfl, hP⟩
  | _ => cases hfailure

theorem exists_resizeRefused {result : Option (Outcome × World)} {P : ResizeFailure → Bool}
    (h : result.any (fun result => result.1.resizeRefusal.any P)) :
    ∃ failure w', result = some (.resizeRefused failure, w') ∧ P failure := by
  obtain ⟨⟨o, w'⟩, rfl, hrefusal⟩ := (Option.any_eq_true _ _).mp h
  obtain ⟨failure, hfailure, hP⟩ := (Option.any_eq_true _ _).mp hrefusal
  cases o with
  | resizeRefused found =>
    cases hfailure
    exact ⟨failure, w', rfl, hP⟩
  | _ => cases hfailure

/-- A claim beyond the quota, and a resize beyond it that keeps the grant or gives it up. -/
theorem refused_claim_leaves_no_trace :
    ∃ inner s w, singleGovernor = .ok (inner, s) ∧ run (step inner) (World.initial s) plainTransfer = some w ∧
      (∃ failure w', perform inner w (.reserve (ingestClaim 500 (by decide))) = some (.refused failure, w') ∧
        CountedOnly (lock w.governor) w'.governor) ∧
      ∃ r, w.inCustody 0 .held = some r ∧
        (∃ failure w', perform inner w (.tryResize 0 (evenly 500) true) = some (.resizeRefused failure, w') ∧
          failure.disposition = .capacityRetained ∧ CountedOnly (lock w.governor) w'.governor) ∧
        ∃ failure w', perform inner w (.tryResize 0 (evenly 500) false) = some (.resizeRefused failure, w') ∧
          failure.disposition = .cancelledBeforeLimit ∧ CountedOnly (tryRelease r w.governor).2 w'.governor := by
  obtain ⟨inner, s, w, hestab, hrun, hproper, hclaim, hheld, hkept, hcancelled⟩ :=
    @exists_run singleGovernor plainTransfer
    (fun inner s w => EveryStep (step inner) (fun w op => op.Proper w) (World.initial s) plainTransfer ∧
      (perform inner w (.reserve (ingestClaim 500 (by decide)))).any (fun result => result.1.refusal.any fun failure =>
        decide (failure.code = .tenantQuotaExceeded)) = true ∧
      (w.inCustody 0 .held).any (fun r => r.active && (r.resizeRequest (evenly 500) true).keeps &&
        !(r.resizeRequest (evenly 500) false).keeps) = true ∧
      (perform inner w (.tryResize 0 (evenly 500) true)).any (fun result => result.1.resizeRefusal.any fun failure =>
        decide (failure.code = .admissionRefused ∧ failure.disposition = .capacityRetained)) = true ∧
      (perform inner w (.tryResize 0 (evenly 500) false)).any (fun result => result.1.resizeRefusal.any fun failure =>
        decide (failure.code = .admissionRefused ∧ failure.disposition = .cancelledBeforeLimit)) = true)
    (fun _ _ _ => inferInstance) (by decide +kernel)
  obtain ⟨hreserve, -, hresize⟩ := refusals_leave_no_trace hestab hproper hrun
  obtain ⟨r, hr, hheld⟩ := (Option.any_eq_true _ _).mp hheld
  rw [Bool.and_eq_true, Bool.and_eq_true] at hheld
  obtain ⟨⟨hactive, hkeeps⟩, hgives⟩ := hheld
  obtain ⟨failure, w₁, hperform, hcode⟩ := exists_refused hclaim
  obtain ⟨kept, w₂, hkept, hkeptCode⟩ := exists_resizeRefused hkept
  obtain ⟨cancelled, w₃, hcancelled, hcancelledCode⟩ := exists_resizeRefused hcancelled
  have hcode := of_decide_eq_true hcode
  obtain ⟨hkeptCode, hkeptDisposition⟩ := of_decide_eq_true hkeptCode
  obtain ⟨hcancelledCode, hcancelledDisposition⟩ := of_decide_eq_true hcancelledCode
  have hwork : ¬ (r.active = false ∨ (evenly 500).isEmpty) := by
    rw [hactive]
    decide
  refine ⟨inner, s, w, hestab, hrun, ⟨failure, w₁, hperform, hreserve _ _ _ hperform ?_⟩, r, hr,
    ⟨kept, w₂, hkept, hkeptDisposition, ?_⟩, cancelled, w₃, hcancelled, hcancelledDisposition, ?_⟩
  · rw [hcode]
    exact AdmissionFailureCode.noConfusion
  · have hcounted :=
      (hresize _ _ _ r kept w₂ hr hkept (by rw [hkeptCode]; exact ResizeFailureCode.noConfusion)).resolve_left
      fun hidle => hwork hidle.1
    rw [if_pos hkeeps] at hcounted
    exact hcounted
  · have hcounted := (hresize _ _ _ r cancelled w₃ hr hcancelled
      (by rw [hcancelledCode]; exact ResizeFailureCode.noConfusion)).resolve_left fun hidle => hwork hidle.1
    rw [if_neg (by rw [Bool.not_eq_true'] at hgives; rw [hgives]; exact Bool.false_ne_true)] at hcounted
    exact hcounted

/-- A cancelled reservation comes back from another holder when its slot has been granted again. -/
def staleReclaim : List Operation :=
  [.reserve (ingestClaim 8 (by decide)), .cancel 0, .transfer 0, .reserve (ingestClaim 6 (by decide)),
    .reserve (ingestClaim 11 (by decide)), .reclaim 0]

/-- Its release finds that it does not fit the slot and fences. A refused resize gives it up unseen. -/
theorem stale_resize_skips_fence :
    ∃ inner s w, singleGovernor = .ok (inner, s) ∧ run (step inner) (World.initial s) staleReclaim = some w ∧
      w.governor.lifecycle ≠ .fenced ∧
      (perform inner w (.tryResize 0 (evenly 500) false)).any (fun result =>
        result.1.refusalCode = some .tenantQuotaExceeded ∧ result.2.governor.lifecycle ≠ .fenced) = true ∧
      (w.inCustody 0 .held).any (fun r => (tryRelease r w.governor).2.lifecycle = .fenced) = true :=
  exists_run (by decide +kernel)

end Positron.Governor
