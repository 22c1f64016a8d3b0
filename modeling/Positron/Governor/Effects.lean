import Positron.Governor.Shares

/-! What each call does to the governor and to the handles of its users. Every fact about whole runs is read off these
effects, and first that governor, shares and handles stay in agreement. -/

namespace Positron.Governor
open MachineInt Triples Option Slots List GrantRecord GovernorState

/-- The governor, its shares and everything its users hold agree. -/
structure WorldSound (inner : GovernorInner) (tenants : Nat) (w : World) : Prop where
  sound : Sound inner tenants w.governor
  topology : TopologySound inner tenants w.governor.toTenantQuotaSuccessor
  handles : HandlesSound inner w.governor w.handles
  custody : ∀ (j : Nat) h, w.handles[j]? = some h → (h.custody = .transferred → h.reservation.active) ∧
      (h.custody = .gone → h.reservation.active = false)
  staged : ∀ (j : Nat) update, w.updates[j]? = some (some update) →
    TopologySound inner tenants update.successor

/-- Only a reservation with something to hand over is handed over. -/
def Operation.Proper (w : World) : Operation → Prop
  | .transfer handle => ∀ r, w.inCustody handle .held = some r → r.active
  | _ => True

instance (w : World) : (op : Operation) → Decidable (op.Proper w)
  | .transfer handle =>
    match h : w.inCustody handle .held with
    | none => .isTrue fun r hr => nomatch h.symm.trans hr
    | some r => decidable_of_iff (r.active) ⟨fun hactive r' hr' => by
        rw [h] at hr'
        cases hr'
        exact hactive, fun hproper => hproper r h⟩
  | .reserve _ | .reserveRecovery _ | .tryResize _ _ _ | .cancel _ | .reclaim _ | .drop _
  | .foreignRelease | .observeDisk _ | .beginShutdown | .inspect | .stageUpdate _ _ _
  | .publishUpdate _ | .register _ _ _ | .prepareEnrollment _ _ _ | .activate _ | .abandon _ =>
    .isTrue trivial

def ResourceReservation.resizeRequest (r : ResourceReservation) (amounts : ResourceAmounts)
    (preserveExisting : Bool) : ResizeRequest :=
  ⟨r.slot, r.owner, r.identity, r.amounts, amounts, preserveExisting⟩

def GovernorState.marked (slot : Nat) (s : GovernorState) : GovernorState :=
  { s with
    slotSignals := s.slotSignals.set slot .releasePending
    pendingWords := s.pendingWords.set (slot / 64)
      (s.pendingWords.getD (slot / 64) 0 ||| .twoPow 64 (slot % 64))
    hasPendingReleases := true }

/-- The handle after a refused replacement: a cancelled one has nothing left. -/
def resizeRefusedWorld (w : World) (handle : Nat) (r : ResourceReservation) (failure : ResizeFailure) :
    World :=
  if failure.disposition = .cancelledBeforeLimit then
    w.withHandle handle { r with active := false, amounts := .zero } .held
  else w

theorem resizeRefusedWorld_governor (w : World) (handle : Nat) (r : ResourceReservation) (failure : ResizeFailure) :
    (resizeRefusedWorld w handle r failure).governor = w.governor := by
  unfold resizeRefusedWorld
  split <;> rfl

/-- What a call does, as its caller and the ledger see it. -/
inductive Effect (inner : GovernorInner) (tenants : Nat) (w : World) : Operation → Outcome → World → Prop
  | admitted {claim : WorkClaim} {r : ResourceReservation} {s' : GovernorState} {i : Nat}
      {charge : PoolCharge} {record : GrantRecord}
      (h : OrdinaryAdmission inner tenants claim (lock w.governor) r s' i charge record) :
      Effect inner tenants w (.reserve claim) (.admitted w.handles.length)
        { w with governor := s', handles := w.handles ++ [⟨r, .held⟩] }
  | refused {claim : WorkClaim} {failure : AdmissionFailure} {s' : GovernorState}
      (h : Refused (lock w.governor) (OrdinaryMust inner claim (lock w.governor)) failure s') :
      Effect inner tenants w (.reserve claim) (.refused failure)
        { w with governor := recordRefusal failure s' }
  | recoveryAdmitted {claim : RecoveryWorkClaim} {r : ResourceReservation} {s' : GovernorState}
      {i : Option Nat} {charge : RecoveryPoolCharge} {record : GrantRecord}
      (h : RecoveryAdmission inner tenants claim (lock w.governor) r s' i charge record) :
      Effect inner tenants w (.reserveRecovery claim) (.admitted w.handles.length)
        { w with governor := s', handles := w.handles ++ [⟨r, .held⟩] }
  | recoveryRefused {claim : RecoveryWorkClaim} {failure : AdmissionFailure} {s' : GovernorState}
      (h : Refused (lock w.governor) False failure s') :
      Effect inner tenants w (.reserveRecovery claim) (.refused failure)
        { w with governor := recordRefusal failure s' }
  | resized {handle : Nat} {amounts : ResourceAmounts} {preserve : Bool} {r : ResourceReservation}
      {record new : GrantRecord} {i : Nat} {charge charge' : PoolCharge} {commit : ResizeCommit}
      {s' : GovernorState} (hr : w.inCustody handle .held = some r) (hactive : r.active)
      (howned : Owned inner (lock w.governor) r record)
      (h : OrdinaryReplacement inner tenants (r.resizeRequest amounts preserve) record (lock w.governor)
        i charge charge' new commit s') :
      Effect inner tenants w (.tryResize handle amounts preserve) (.resized commit.outcome)
        ({ w with governor := s' }.withHandle handle
          { r with owner := commit.owner, amounts := amounts } .held)
  | recoveryResized {handle : Nat} {amounts : ResourceAmounts} {preserve : Bool}
      {r : ResourceReservation} {record new : GrantRecord} {i : Option Nat}
      {charge charge' : RecoveryPoolCharge} {commit : ResizeCommit} {s' : GovernorState}
      (hr : w.inCustody handle .held = some r) (hactive : r.active)
      (howned : Owned inner (lock w.governor) r record)
      (h : RecoveryReplacement inner tenants (r.resizeRequest amounts preserve) record (lock w.governor)
        i charge charge' new commit s') :
      Effect inner tenants w (.tryResize handle amounts preserve) (.resized commit.outcome)
        ({ w with governor := s' }.withHandle handle
          { r with owner := commit.owner, amounts := amounts } .held)
  | resizeRefused {handle : Nat} {amounts : ResourceAmounts} {preserve : Bool}
      {r : ResourceReservation} {record : GrantRecord} {failure : ResizeFailure} {s' : GovernorState}
      (hr : w.inCustody handle .held = some r) (hactive : r.active)
      (howned : Owned inner (lock w.governor) r record)
      (h : ResizeRefused (r.resizeRequest amounts preserve) record (lock w.governor) failure s') :
      Effect inner tenants w (.tryResize handle amounts preserve) (.resizeRefused failure)
        (resizeRefusedWorld { w with governor := recordResizeRefusal failure s' } handle r failure)
  | resizeIdle {handle : Nat} {amounts : ResourceAmounts} {preserve : Bool} {r : ResourceReservation}
      {failure : ResizeFailure} (hr : w.inCustody handle .held = some r)
      (h : r.active = false ∨ amounts.isEmpty) :
      Effect inner tenants w (.tryResize handle amounts preserve) (.resizeRefused failure) w
  | cancelled {handle : Nat} {r : ResourceReservation} {record : GrantRecord} {s' : GovernorState}
      (hr : w.inCustody handle .held = some r) (hactive : r.active)
      (howned : Owned inner (lock w.governor) r record)
      (h : Released r.slot record (lock w.governor) s') :
      Effect inner tenants w (.cancel handle) (.released (releaseVerdict (lock w.governor)))
        ({ w with governor := s' }.withHandle handle { r with active := false } .held)
  | cancelIdle {handle : Nat} {r : ResourceReservation} (hr : w.inCustody handle .held = some r)
      (hactive : r.active = false) :
      Effect inner tenants w (.cancel handle) (.released (.ok .alreadyInactive)) w
  | transferred {handle : Nat} {r : ResourceReservation} (hr : w.inCustody handle .held = some r)
      (hactive : r.active) :
      Effect inner tenants w (.transfer handle) .done (w.withHandle handle r .transferred)
  | reclaimed {handle : Nat} {r : ResourceReservation} (hr : w.inCustody handle .transferred = some r)
      (hactive : r.active) :
      Effect inner tenants w (.reclaim handle) .done (w.withHandle handle r .held)
  | dropped {handle : Nat} {r : ResourceReservation} {record : GrantRecord} {custody : Custody}
      (hr : w.inCustody handle custody = some r) (hactive : r.active)
      (howned : Owned inner w.governor r record) :
      Effect inner tenants w (.drop handle) .done
        ({ w with governor := w.governor.marked r.slot }.withHandle handle { r with active := false } .gone)
  | dropIdle {handle : Nat} {r : ResourceReservation} {custody : Custody}
      (hr : w.inCustody handle custody = some r) (hactive : r.active = false) :
      Effect inner tenants w (.drop handle) .done (w.withHandle handle { r with active := false } .gone)
  | foreign : Effect inner tenants w .foreignRelease .done
      { w with governor := markForeignRelease w.governor }
  | observed {usableBytes : U64} {o : Outcome} : Effect inner tenants w (.observeDisk usableBytes) o
      { w with governor := (applyDiskObservation inner usableBytes w.governor).2 }
  | shutDown {o : Outcome} : Effect inner tenants w .beginShutdown o
      { w with governor := (beginShutdown w.governor).2 }
  | inspected {o : Outcome} : Effect inner tenants w .inspect o
      { w with governor := (Governor.inspect w.governor).2 }
  | staged {tenant : TenantId} {weight : U16} {limits : ResourceAmounts}
      {successor : TenantQuotaSuccessor} (h : stageTenantQuotaUpdate inner
        (lock w.governor).toAccountingState tenant weight limits = .ok successor) :
      Effect inner tenants w (.stageUpdate tenant weight limits) .done
        { w with governor := lock w.governor, updates := w.updates ++ [some ⟨tenant, weight, limits, successor⟩] }
  | published {update : Nat} {stagedUpdate : StagedTenantQuotaUpdate}
      (h : w.updates[update]? = some (some stagedUpdate)) :
      Effect inner tenants w (.publishUpdate update) .done
        { w with governor := publishSuccessor stagedUpdate.successor (lock w.governor)
                 updates := w.updates.set update none }
  | registered {tenant : TenantId} {weight : U16} {limits : ResourceAmounts} {s' : AccountingState}
      (h : enrollTenantQuota inner (lock w.governor).toAccountingState tenant weight limits false = .ok s') :
      Effect inner tenants w (.register tenant weight limits) .done
        { w with governor := { lock w.governor with toAccountingState := s' } }
  | prepared {tenant : TenantId} {weight : U16} {limits : ResourceAmounts} {s' : AccountingState}
      (h : enrollTenantQuota inner (lock w.governor).toAccountingState tenant weight limits true = .ok s') :
      Effect inner tenants w (.prepareEnrollment tenant weight limits) .done
        { w with governor := { lock w.governor with toAccountingState := s' }
                 enrollments := w.enrollments ++ [⟨tenant, false, false⟩] }
  | topologyRefused {op : Operation} {failure : GovernorFailure} {s' : GovernorState}
      (hop : (∃ tenant weight limits, op = .stageUpdate tenant weight limits) ∨
        (∃ tenant weight limits, op = .register tenant weight limits) ∨
        ∃ tenant weight limits, op = .prepareEnrollment tenant weight limits)
      (h : s' = w.governor ∨ s' = lock w.governor) :
      Effect inner tenants w op (.failed failure) { w with governor := s' }
  | activated {enrollment : Nat} {pending : Enrollment} (h : w.enrollments[enrollment]? = some pending)
      (hopen : pending.dropped = false) :
      Effect inner tenants w (.activate enrollment) .done
        { w with governor := activateTenantQuota pending.tenant w.governor
                 enrollments := w.enrollments.set enrollment { pending with active := true } }
  | abandoned {enrollment : Nat} {pending : Enrollment} (h : w.enrollments[enrollment]? = some pending)
      (hopen : pending.dropped = false) :
      Effect inner tenants w (.abandon enrollment) .done
        { w with governor := if pending.active then w.governor else rollback pending.tenant w.governor
                 enrollments := w.enrollments.set enrollment { pending with dropped := true } }

theorem World.inCustody_eq_some {w : World} {handle : Nat} {custody : Custody} {r : ResourceReservation} :
    w.inCustody handle custody = some r ↔ w.handles[handle]? = some ⟨r, custody⟩ := by
  unfold World.inCustody
  rw [map_eq_some_iff]
  constructor
  · rintro ⟨⟨r', custody'⟩, h, rfl⟩
    obtain ⟨h, hsame⟩ := filter_eq_some_iff.mp h
    rw [← of_decide_eq_true hsame]
    exact h
  · intro h
    refine ⟨⟨r, custody⟩, filter_eq_some_iff.mpr ⟨h, ?_⟩, rfl⟩
    exact decide_eq_true rfl

namespace WorldSound

variable {inner : GovernorInner} {tenants : Nat} {w : World}

theorem locked (hw : WorldSound inner tenants w) :
    Locked inner tenants w.handles w.governor (lock w.governor) := lock_locked hw.sound hw.handles

theorem lockedTopology (hw : WorldSound inner tenants w) :
    TopologySound inner tenants (lock w.governor).toTenantQuotaSuccessor := by
  rw [hw.locked.topology_eq]
  exact hw.topology

theorem lockedOwned (hw : WorldSound inner tenants w) {handle : Nat} {custody : Custody}
    {r : ResourceReservation} (hr : w.inCustody handle custody = some r) (hactive : r.active) :
    ∃ record, Owned inner (lock w.governor) r record :=
  hw.locked.handlesSound.owned handle ⟨r, custody⟩ (World.inCustody_eq_some.mp hr) hactive

end WorldSound

section Performed

variable {inner : GovernorInner} {tenants : Nat} {w w' : World} {o : Outcome}
variable {r : ResourceReservation} {limits : ResourceAmounts}

variable (hw : WorldSound inner tenants w)
include hw

theorem reserve_effect {claim : WorkClaim} (h : receive w (reserveOrdinary inner claim w.governor) = (o, w')) :
    Effect inner tenants w (.reserve claim) o w' := by
  have hends := (reserveOrdinaryLocked_spec hw.locked.sound hw.lockedTopology claim).ends rfl
  unfold reserveOrdinary admitUnderLock at h
  cases hrun : (reserveOrdinaryLocked inner claim).run (lock w.governor) with
  | ok r s' =>
    rw [hrun] at h hends
    cases h
    obtain ⟨i, charge, record, hadm⟩ := hends
    exact .admitted hadm
  | error failure s' =>
    rw [hrun] at h hends
    cases h
    exact .refused hends

theorem reserveRecovery_effect {claim : RecoveryWorkClaim}
    (h : receive w (reserveRecovery inner claim w.governor) = (o, w')) :
    Effect inner tenants w (.reserveRecovery claim) o w' := by
  have hends := (reserveRecoveryLocked_spec hw.locked.sound hw.lockedTopology claim).ends rfl
  unfold reserveRecovery admitUnderLock at h
  cases hrun : (reserveRecoveryLocked inner claim).run (lock w.governor) with
  | ok r s' =>
    rw [hrun] at h hends
    cases h
    obtain ⟨i, charge, record, hadm⟩ := hends
    exact .recoveryAdmitted hadm
  | error failure s' =>
    rw [hrun] at h hends
    cases h
    exact .recoveryRefused hends

variable {s : GovernorState} {record : GrantRecord} {handle : Nat} {tenant : TenantId} {weight : U16}

omit hw in
theorem resizeLocked_spec (hs : Sound inner tenants s) (howned : Owned inner s r record) (amounts : ResourceAmounts)
    (preserve : Bool) :
    ∃ body, resizeLocked inner (r.resizeRequest amounts preserve) = some body ∧ Triple (· = s) body
        (fun commit s' =>
          (∃ i charge charge' new, OrdinaryReplacement inner tenants (r.resizeRequest amounts preserve)
            record s i charge charge' new commit s') ∨
          ∃ i charge charge' new, RecoveryReplacement inner tenants (r.resizeRequest amounts preserve)
            record s i charge charge' new commit s')
        (ResizeRefused (r.resizeRequest amounts preserve) record s) := by
  unfold resizeLocked
  cases hid : (r.resizeRequest amounts preserve).identity with
  | ordinary tenant principal kind =>
    obtain ⟨i, charge, howner, hspec⟩ :=
      resizeOrdinaryLocked_spec hs hid howned.held howned.active
    simp only [howner]
    refine ⟨_, rfl, hspec.weaken (fun _ h => h) (fun commit s' => ?_) fun _ _ h => h⟩
    rintro ⟨charge', new, h⟩
    exact .inl ⟨i, charge, charge', new, h⟩
  | recovery scope kind =>
    obtain ⟨i, charge, howner, hspec⟩ :=
      resizeRecoveryLocked_spec hs hid howned.held howned.active
    simp only [howner]
    refine ⟨_, rfl, hspec.weaken (fun _ h => h) (fun commit s' => ?_) fun _ _ h => h⟩
    rintro ⟨charge', new, h⟩
    exact .inr ⟨i, charge, charge', new, h⟩

theorem tryResize_effect {amounts : ResourceAmounts} {preserve : Bool}
    (hr : w.inCustody handle .held = some r) (h : resizeReservation inner w handle r amounts preserve = (o, w')) :
    Effect inner tenants w (.tryResize handle amounts preserve) o w' := by
  unfold resizeReservation at h
  split at h
  · rename_i hinactive
    cases h
    exact .resizeIdle hr (.inl hinactive)
  · rename_i hactive
    have hactive := Bool.eq_true_of_not_eq_false hactive
    split at h
    · rename_i hempty
      cases h
      exact .resizeIdle hr (.inr hempty)
    · obtain ⟨record, howned⟩ := hw.lockedOwned hr hactive
      obtain ⟨body, hbody, hspec⟩ := resizeLocked_spec hw.locked.sound howned amounts preserve
      have hends := hspec.ends rfl
      have hreq : (⟨r.slot, r.owner, r.identity, r.amounts, amounts, preserve⟩ : ResizeRequest) =
        r.resizeRequest amounts preserve := rfl
      simp only [hreq, resize, hbody] at h
      cases hrun : body.run (lock w.governor) with
      | ok commit s' =>
        simp only [hrun] at h hends
        cases h
        rcases hends with ⟨i, charge, charge', new, hreplaced⟩ | ⟨i, charge, charge', new, hreplaced⟩
        · exact .resized hr hactive howned hreplaced
        · exact .recoveryResized hr hactive howned hreplaced
      | error failure s' =>
        simp only [hrun] at h hends
        have heffect : Effect inner tenants w (.tryResize handle amounts preserve) _ _ :=
          .resizeRefused hr hactive howned hends
        unfold resizeRefusedWorld at heffect
        split at h
        · rename_i hcancelled
          rw [if_pos hcancelled] at heffect
          cases h
          exact heffect
        · rename_i hkept
          rw [if_neg hkept] at heffect
          cases h
          exact heffect

omit hw in
theorem tryReleaseLocked_run (hs : Sound inner tenants s) (howned : Owned inner s r record) :
    ∃ s', Released r.slot record s s' ∧ (releaseSlotLocked r.slot).run s = .ok (releaseVerdict s) s' ∧
      tryReleaseLocked r s = (⟨true, releaseVerdict s⟩, s') := by
  have hheld := howned.held
  have hrec : s.record r.slot = some record := hheld.occupied
  obtain ⟨s', hrel, hrun⟩ := releaseSlotLocked_run hs hheld.occupied hheld.live
    (hs.slots.unmarked howned.active)
  refine ⟨s', hrel, hrun, ?_⟩
  -- the handle fits its slot
  have hfits : record.amounts = r.amounts ∧ (if r.identity.grantKind.isOrdinary then r.owner.pools.isSome
      else r.owner.recoveryPools.isSome) := by
    cases hid : r.identity with
    | ordinary tenant principal kind =>
      rw [hid] at hheld
      obtain ⟨i, charge, _, _, howner, _, _, hsame⟩ := hheld.ordinary hs
      rw [hsame, howner]
      exact ⟨rfl, rfl⟩
    | recovery scope kind =>
      rw [hid] at hheld
      obtain ⟨i, charge, _, _, howner, _, _, hsame⟩ := hheld.recovery hs
      rw [hsame, howner]
      exact ⟨rfl, rfl⟩
  unfold tryReleaseLocked
  simp only [hrec, if_pos hfits, hrun]

theorem cancel_effect (hr : w.inCustody handle .held = some r)
    (h : cancelReservation w handle r = (o, w')) : Effect inner tenants w (.cancel handle) o w' := by
  unfold cancelReservation at h
  split at h
  · rename_i hinactive
    cases h
    exact .cancelIdle hr hinactive
  · rename_i hactive
    have hactive := Bool.eq_true_of_not_eq_false hactive
    obtain ⟨record, howned⟩ := hw.lockedOwned hr hactive
    obtain ⟨s', hrel, -, hrun⟩ := tryReleaseLocked_run hw.locked.sound howned
    simp only [tryRelease, hrun] at h
    cases h
    exact .cancelled hr hactive howned hrel

omit hw in
theorem markDropPending_eq {slot : Nat} (hs : SlotsSound s)
    (hactive : s.slotSignals[slot]? = some .active) : markDropPending slot s = s.marked slot := by
  obtain ⟨hlt, _⟩ := List.getElem?_eq_some_iff.mp hactive
  have hwords := hs.length_words
  rw [← hs.length_signals] at hwords
  have hword := exists_getElem? (i := slot / 64) hwords (by omega) 0
  simp only [markDropPending, DropLedger.markDropPending, DropLedger.markSignal, if_pos hactive,
    DropLedger.markBit, hword]
  rfl

theorem drop_effect {custody : Custody} (hr : w.inCustody handle custody = some r)
    (h : dropReservation w handle r = w') : Effect inner tenants w (.drop handle) .done w' := by
  subst h
  unfold dropReservation
  cases hactive : r.active with
  | true =>
    obtain ⟨record, howned⟩ := hw.handles.owned handle _ (World.inCustody_eq_some.mp hr) hactive
    simp only [if_true, markDropPending_eq hw.sound.slots howned.active]
    exact .dropped hr hactive howned
  | false => exact .dropIdle hr hactive

omit hw

theorem stageUpdate_effect (h : perform inner w (.stageUpdate tenant weight limits) = some (o, w')) :
    Effect inner tenants w (.stageUpdate tenant weight limits) o w' := by
  have hop : ∃ t q l, Operation.stageUpdate tenant weight limits = .stageUpdate t q l := ⟨_, _, _, rfl⟩
  simp only [perform, prepareTenantQuotaUpdate] at h
  cases hvalid : validateTenantQuota inner weight limits with
  | error failure =>
    simp only [hvalid] at h
    cases h
    exact .topologyRefused (.inl hop) (.inl rfl)
  | ok _ =>
    simp only [hvalid] at h
    cases hstage : stageTenantQuotaUpdate inner (lock w.governor).toAccountingState tenant weight limits with
    | error failure =>
      simp only [hstage] at h
      cases h
      exact .topologyRefused (.inl hop) (.inr rfl)
    | ok successor =>
      simp only [hstage] at h
      cases h
      exact .staged hstage

theorem enroll_cases (inner : GovernorInner) (tenant : TenantId) (weight : U16) (limits : ResourceAmounts)
    (pending : Bool) (s : GovernorState) :
    (∃ accounting, enrollTenantQuota inner (lock s).toAccountingState tenant weight limits pending =
        .ok accounting ∧
          enroll inner tenant weight limits pending s = (.ok ⟨⟩, { lock s with toAccountingState := accounting })) ∨
    ∃ failure s', (s' = s ∨ s' = lock s) ∧
      enroll inner tenant weight limits pending s = (.error failure, s') := by
  unfold enroll
  cases hvalid : validateTenantQuota inner weight limits with
  | error failure => exact .inr ⟨failure, s, .inl rfl, rfl⟩
  | ok _ =>
    dsimp only
    cases henroll : enrollTenantQuota inner (lock s).toAccountingState tenant weight limits pending with
    | error failure => exact .inr ⟨failure, lock s, .inr rfl, rfl⟩
    | ok accounting => exact .inl ⟨accounting, rfl, rfl⟩

theorem register_effect (h : perform inner w (.register tenant weight limits) = some (o, w')) :
    Effect inner tenants w (.register tenant weight limits) o w' := by
  simp only [perform, reported] at h
  rcases enroll_cases inner tenant weight limits false w.governor with
    ⟨accounting, henroll, hrun⟩ | ⟨failure, s', hs', hrun⟩
  · simp only [hrun] at h
    cases h
    exact .registered henroll
  · simp only [hrun] at h
    cases h
    exact .topologyRefused (.inr (.inl ⟨_, _, _, rfl⟩)) hs'

theorem prepareEnrollment_effect (h : perform inner w (.prepareEnrollment tenant weight limits) = some (o, w')) :
    Effect inner tenants w (.prepareEnrollment tenant weight limits) o w' := by
  simp only [perform] at h
  rcases enroll_cases inner tenant weight limits true w.governor with
    ⟨accounting, henroll, hrun⟩ | ⟨failure, s', hs', hrun⟩
  · simp only [hrun] at h
    cases h
    exact .prepared henroll
  · simp only [hrun] at h
    cases h
    exact .topologyRefused (.inr (.inr ⟨_, _, _, rfl⟩)) hs'

theorem reported_world {α : Type} (w : World) (result : Except GovernorFailure α × GovernorState) :
    (reported w result).2 = { w with governor := result.2 } := by
  unfold reported
  split <;> rfl

theorem perform_effect (hw : WorldSound inner tenants w) {op : Operation} (hproper : op.Proper w)
    (h : perform inner w op = some (o, w')) : Effect inner tenants w op o w' := by
  cases op with
  | reserve claim => exact reserve_effect hw (Option.some.inj h)
  | reserveRecovery claim => exact reserveRecovery_effect hw (Option.some.inj h)
  | tryResize handle amounts preserve =>
    obtain ⟨r, hr, h⟩ := map_eq_some_iff.mp h
    exact tryResize_effect hw hr h
  | cancel handle =>
    obtain ⟨r, hr, h⟩ := map_eq_some_iff.mp h
    exact cancel_effect hw hr h
  | transfer handle =>
    obtain ⟨r, hr, h⟩ := map_eq_some_iff.mp h
    have hactive := hproper r hr
    have hsame : { r with active := true } = r := by rw [← hactive]
    rw [hsame] at h
    cases h
    exact .transferred hr hactive
  | reclaim handle =>
    obtain ⟨r, hr, h⟩ := map_eq_some_iff.mp h
    have hactive := (hw.custody handle _ (World.inCustody_eq_some.mp hr)).1 rfl
    have hsame : { r with active := true } = r := by rw [← hactive]
    rw [hsame] at h
    cases h
    exact .reclaimed hr hactive
  | drop handle =>
    obtain ⟨r, hr, h⟩ := map_eq_some_iff.mp h
    cases h
    rcases or_eq_some_iff.mp hr with hr | ⟨_, hr⟩
    · exact drop_effect hw hr rfl
    · exact drop_effect hw hr rfl
  | foreignRelease =>
    cases h
    exact .foreign
  | observeDisk usableBytes =>
    have hworld := reported_world w (applyDiskObservation inner usableBytes w.governor)
    rw [Option.some.inj h] at hworld
    cases hworld
    exact .observed
  | beginShutdown =>
    have hworld := reported_world w (beginShutdown w.governor)
    rw [Option.some.inj h] at hworld
    cases hworld
    exact .shutDown
  | inspect =>
    have hworld := reported_world w (Governor.inspect w.governor)
    rw [Option.some.inj h] at hworld
    cases hworld
    exact .inspected
  | stageUpdate tenant weight limits => exact stageUpdate_effect h
  | publishUpdate update =>
    obtain ⟨stagedUpdate, hstaged, h⟩ := map_eq_some_iff.mp h
    cases h
    exact .published (join_eq_some_iff.mp hstaged)
  | register tenant weight limits => exact register_effect h
  | prepareEnrollment tenant weight limits => exact prepareEnrollment_effect h
  | activate enrollment =>
    obtain ⟨pending, hpending, h⟩ := map_eq_some_iff.mp h
    cases h
    obtain ⟨hentry, hopen⟩ := filter_eq_some_iff.mp hpending
    exact .activated hentry (by simpa using hopen)
  | abandon enrollment =>
    obtain ⟨pending, hpending, h⟩ := map_eq_some_iff.mp h
    cases h
    obtain ⟨hentry, hopen⟩ := filter_eq_some_iff.mp hpending
    exact .abandoned hentry (by simpa using hopen)

end Performed

theorem GrantRecord.rootToken_eq_some {record : GrantRecord} {authority slot : Nat} {token : OperationToken}
    (h : record.rootToken authority slot = some token) :
    token.authority = authority ∧ token.rootSlot = slot ∧
      ∃ accepting count, record.operation = some (.root token.generation accepting count) := by
  unfold GrantRecord.rootToken at h
  split at h
  · rename_i generation accepting count hop
    obtain ⟨tenant, _, h⟩ := Option.bind_eq_some_iff.mp h
    obtain ⟨principal, _, h⟩ := Option.bind_eq_some_iff.mp h
    obtain ⟨kind, _, h⟩ := Option.bind_eq_some_iff.mp h
    cases h
    exact ⟨rfl, rfl, accepting, count, hop⟩
  · cases h

theorem GrantRecord.rootToken_congr {record record' : GrantRecord} (hop : record'.operation = record.operation)
    (hwork : (record'.tenant, record'.principal, record'.kind) = (record.tenant, record.principal, record.kind))
    (authority slot : Nat) : record'.rootToken authority slot = record.rootToken authority slot := by
  simp only [Prod.mk.injEq] at hwork
  unfold GrantRecord.rootToken
  rw [hop, hwork.1, hwork.2.1, hwork.2.2]

def GovernorState.marks (s : GovernorState) : List (BitVec 64) × Bool × GovernorLifecycle :=
  (s.pendingWords, s.hasPendingReleases, s.lifecycle)

theorem GovernorState.marks_eq {s s' : GovernorState} (h : s'.marks = s.marks) : s'.pendingWords = s.pendingWords ∧
    s'.hasPendingReleases = s.hasPendingReleases ∧ s'.lifecycle = s.lifecycle := by
  simpa only [marks, Prod.mk.injEq] using h

theorem KeepsOthers.live {slot other : Nat} {s s' : GovernorState} (h : KeepsOthers slot s s') (hne : other ≠ slot)
    (hlive : LiveAt s'.grantRecords other) : LiveAt s.grantRecords other := by
  obtain ⟨q', hq', hlive'⟩ := hlive
  obtain ⟨q, hq, hcount⟩ := h.known other q' hne hq' hlive'
  exact ⟨q, hq, hcount.isReleased_eq.symm.trans hlive'⟩

section Handles

variable {inner : GovernorInner} {tenants : Nat} {s s' : GovernorState} {handles : List Handle} {j : Nat}
variable {x x' : Handle} {record : GrantRecord} {r : ResourceReservation}

variable (h : HandlesSound inner s handles)
include h

theorem HandlesSound.idle (hx : handles[j]? = some x)
    (hidle : x.reservation.active = false) (hidle' : x'.reservation.active = false)
    (htoken : x'.reservation.operation = x.reservation.operation) : HandlesSound inner s (handles.set j x') := by
  obtain ⟨hlt, _⟩ := List.getElem?_eq_some_iff.mp hx
  have hset : ∀ (k : Nat) (y : Handle), (handles.set j x')[k]? = some y →
      ∃ y', handles[k]? = some y' ∧ y'.reservation.operation = y.reservation.operation ∧
        (y.reservation.active → y' = y) := by
    intro k y hy
    by_cases hk : k = j
    · subst hk
      rw [List.getElem?_set_self hlt] at hy
      cases hy
      exact ⟨x, hx, htoken.symm, fun hactive => by rw [hidle'] at hactive; cases hactive⟩
    · rw [getElem?_set_ne (Ne.symm hk)] at hy
      exact ⟨y, hy, rfl, fun _ => rfl⟩
  refine ⟨fun k y hy hactive => ?_, fun k l y z hy hz hyActive hzActive hslot => ?_, h.hinted,
    fun hopen slot hlive => ?_, fun k y token hy htoken => ?_,
    fun k l y z t t' hy hz hyToken hzToken hsame => ?_⟩
  · obtain ⟨y', hy', _, hsame⟩ := hset k y hy
    cases hsame hactive
    exact h.owned k y hy' hactive
  · obtain ⟨y', hy', _, hysame⟩ := hset k y hy
    obtain ⟨z', hz', _, hzsame⟩ := hset l z hz
    cases hysame hyActive
    cases hzsame hzActive
    exact h.distinct k l y z hy' hz' hyActive hzActive hslot
  · rcases h.covered hopen slot hlive with hset | ⟨k, y, hy, hactive, hslot⟩
    · exact .inl hset
    · refine .inr ⟨k, y, ?_, hactive, hslot⟩
      rw [getElem?_set_ne]
      · exact hy
      · rintro rfl
        rw [hx] at hy
        cases hy
        rw [hidle] at hactive
        cases hactive
  · obtain ⟨y', hy', hsame, _⟩ := hset k y hy
    exact h.issued k y' token hy' (hsame.trans htoken)
  · obtain ⟨y', hy', hysame, _⟩ := hset k y hy
    obtain ⟨z', hz', hzsame, _⟩ := hset l z hz
    exact h.unique k l y' z' t t' hy' hz' (hysame.trans hyToken) (hzsame.trans hzToken) hsame

theorem HandlesSound.hinted_of_marks (hmarks : s'.marks = s.marks) (slot : Nat)
    (hset : pendingBit s'.pendingWords slot) : s'.hasPendingReleases := by
  obtain ⟨hwords, hhint, -⟩ := marks_eq hmarks
  rw [hhint]
  exact h.hinted slot (hwords ▸ hset)

theorem HandlesSound.passed {x : Handle} (hx : handles[j]? = some x) (hactive : x.reservation.active)
    (custody : Custody) : HandlesSound inner s (handles.set j ⟨x.reservation, custody⟩) := by
  refine h.change hx hactive rfl (fun _ => ⟨rfl, h.owned j x hx hactive⟩) (fun slot _ => .refl slot s)
    h.hinted (fun hopen => ⟨hopen, fun slot hlive => ?_⟩) (Nat.le_refl _)
  split
  · exact .inr hactive
  · exact ⟨hlive, id⟩

/-- One slot changes with its handle; the other grants and the marks stay. -/
theorem HandlesSound.exchanged (hx : handles[j]? = some x) (hactive : x.reservation.active)
    (htoken : x'.reservation.operation = x.reservation.operation)
    (howned : x'.reservation.active → x'.reservation.slot = x.reservation.slot ∧
      ∃ record, Owned inner s' x'.reservation record) (hothers : KeepsOthers x.reservation.slot s s')
    (hmarks : s'.marks = s.marks) (hnext : s'.nextOperationGeneration = s.nextOperationGeneration)
    (hslot : LiveAt s'.grantRecords x.reservation.slot → x'.reservation.active) :
    HandlesSound inner s' (handles.set j x') := by
  obtain ⟨hwords, -, hlife⟩ := marks_eq hmarks
  refine h.change hx hactive htoken howned (fun slot hne q hq hlive => hothers.kept slot q hne hq hlive)
    (h.hinted_of_marks hmarks) (fun hopen => ⟨hlife ▸ hopen, fun slot hlive => ?_⟩) (hnext ▸ Nat.le_refl _)
  split
  · rename_i heq
    exact .inr (hslot (heq ▸ hlive))
  · rename_i hne
    exact ⟨hothers.live hne hlive, hwords ▸ id⟩

theorem HandlesSound.admitted (hs : Sound inner tenants s)
    (hadmitted : Admitted tenants r.slot record s s') (hactive : r.active)
    (hwritten : GrantRecord.new r.owner r.identity r.amounts record.operation = some record)
    (howner : record.owner = some r.owner) (htoken : r.operation = record.rootToken inner.authority r.slot) :
    HandlesSound inner s' (handles ++ [⟨r, .held⟩]) := by
  have hframe := hadmitted.frame
  have hmarks : s'.marks = s.marks := (congrArg marks hframe :)
  obtain ⟨hwords, -, hlife⟩ := marks_eq hmarks
  have howned : Owned inner s' r record :=
    ⟨⟨hadmitted.entry_slot hs.slots, hadmitted.isReleased_eq, hwritten, howner⟩,
      hadmitted.signal_slot hs.slots, htoken⟩
  have hothers := hadmitted.keepsOthers hs.slots
  obtain ⟨t, hadmits, haccts⟩ := hadmitted.committed
  have hgeneration := haccts.generation_eq
  refine h.add (entry_eq_none_of_empty (hs.slots.head_free hadmitted.free)) howned hactive
    (fun slot hne q hq hlive => hothers.kept slot q hne hq hlive) (h.hinted_of_marks hmarks)
    (fun hopen => ⟨hlife ▸ hopen, fun slot hne hlive => ⟨hothers.live hne hlive, hwords ▸ id⟩⟩) ?_
    (fun token htok => ?_)
  · rw [hgeneration]
    cases hadmits with
    | plain => exact Nat.le_refl _
    | root _ hnext => exact Nat.le_of_lt (Nat.lt_of_lt_of_eq (Nat.lt_succ_self _) hnext.symm)
    | child => exact Nat.le_refl _
  · -- only a root hands out a token, of the generation it takes
    rw [hgeneration]
    rw [htoken] at htok
    obtain ⟨_, _, accepting, count, hroot⟩ := rootToken_eq_some htok
    cases hadmits with
    | plain hop | child hop =>
      rw [hop] at hroot
      cases hroot
    | root hop hnext =>
      rw [hop] at hroot
      injection hroot with hroot
      injection hroot with hgen
      exact ⟨hgen.symm, Nat.lt_of_lt_of_eq (Nat.lt_succ_self _) hnext.symm⟩

omit h in
theorem pendingBit_marked (s : GovernorState) {slot : Nat} (hword : slot / 64 < s.pendingWords.length) (i : Nat) :
    pendingBit (s.marked slot).pendingWords i = (pendingBit s.pendingWords i || decide (i = slot)) := by
  have hentry := exists_getElem? rfl hword (0 : BitVec 64)
  unfold pendingBit marked
  simp only [getD_set hentry]
  split
  · rename_i hdiv
    rw [BitVec.getLsbD_or, hdiv, BitVec.getLsbD_twoPow]
    congr 1
    have hmod : i % 64 < 64 := Nat.mod_lt _ (by omega)
    have hsame : slot % 64 = i % 64 ↔ i = slot := by omega
    by_cases hi : i = slot
    · simp [hi, Nat.mod_lt]
    · simp [hi, mt hsame.mp hi]
  · rename_i hdiv
    have hne : i ≠ slot := by
      rintro rfl
      exact hdiv rfl
    simp [hne]

omit h in
theorem Owned.word_lt (h : Owned inner s r record) (hs : SlotsSound s) : r.slot / 64 < s.pendingWords.length := by
  obtain ⟨hlt, _⟩ := List.getElem?_eq_some_iff.mp h.active
  rw [hs.length_words, ← hs.length_signals]
  omega

omit h in
theorem marked_sound (hs : Sound inner tenants s) (howned : Owned inner s r record) :
    Sound inner tenants (s.marked r.slot) := by
  have hslots := hs.slots
  have hsizes := hs.sizes
  refine ⟨hs.tenants_le, hs.maximum_le, ⟨hsizes.ordinary, hsizes.recovery, hsizes.recoveryPools,
    hsizes.pools, hsizes.outstanding⟩, hs.length_records, ?_, hs.families, hs.formed, hs.balanced⟩
  have hne : ∀ i, i ≠ r.slot → (s.marked r.slot).slotSignals[i]? = s.slotSignals[i]? :=
    fun i hi => getElem?_set_ne (Ne.symm hi)
  have hself : (s.marked r.slot).slotSignals[r.slot]? = some .releasePending :=
    List.getElem?_set_self (List.getElem?_eq_some_iff.mp howned.active).1
  refine ⟨hslots.partitioned, length_set.trans hslots.length_signals, fun i => ?_,
    length_set.trans hslots.length_words, fun i hset => ?_⟩
  · by_cases hi : i = r.slot
    · subst hi
      have hactive := hslots.free_iff r.slot
      rw [howned.active] at hactive
      rw [hself]
      exact ⟨(fun h => by cases h), fun h => absurd (hactive.mpr h) (fun h => by cases h)⟩
    · rw [hne i hi]
      exact hslots.free_iff i
  · rw [pendingBit_marked s (howned.word_lt hslots), Bool.or_eq_true] at hset
    by_cases hi : i = r.slot
    · subst hi
      exact ⟨hself, record, howned.held.occupied, howned.held.live⟩
    · rw [hne i hi]
      refine hslots.pending i (hset.resolve_right fun h => hi (of_decide_eq_true h))

theorem HandlesSound.dropped (hs : Sound inner tenants s)
    (hx : handles[j]? = some x) (hactive : x.reservation.active) (howned : Owned inner s x.reservation record)
    (hidle : x'.reservation.active = false) (htoken : x'.reservation.operation = x.reservation.operation) :
    HandlesSound inner (s.marked x.reservation.slot) (handles.set j x') := by
  have hbit := pendingBit_marked s (howned.word_lt hs.slots)
  refine h.change hx hactive htoken (fun hactive' => ?_) (fun slot hne q hq _ => ?_)
    (fun _ _ => rfl) (fun hopen => ⟨hopen, fun slot hlive => ?_⟩) (Nat.le_refl _)
  · rw [hidle] at hactive'
    cases hactive'
  · exact ⟨q, hq, .inl rfl, getElem?_set_ne (Ne.symm hne)⟩
  · split
    · rename_i hslot
      rw [hbit, hslot]
      simp
    · rw [hbit]
      exact ⟨hlive, fun hset => by rw [hset, Bool.true_or]⟩

end Handles

section Calls

variable {s : GovernorState}

theorem Calm.snapshotFrom (s : GovernorState) : Calm s (snapshotFrom s).2 := by
  unfold Governor.snapshotFrom
  split
  · exact .refl s
  · exact ⟨rfl, Nat.le_refl _, id, id⟩

theorem Calm.beginShutdown (s : GovernorState) : Calm (lock s) (beginShutdown s).2 := by
  unfold Governor.beginShutdown
  dsimp only
  split
  · rename_i hopen
    have hclosing : Calm (lock s) { lock s with lifecycle := .shuttingDown } :=
      ⟨rfl, Nat.le_refl _, id, fun _ => by rw [hopen]; exact fun h => by cases h⟩
    exact hclosing.trans (.snapshotFrom _)
  · exact .snapshotFrom _
  · exact .refl _

theorem Calm.applyDiskObservation (inner : GovernorInner) (usableBytes : U64) (s : GovernorState) :
    Calm (lock s) (applyDiskObservation inner usableBytes s).2 := by
  unfold Governor.applyDiskObservation
  dsimp only
  split
  · exact .refl _
  · split
    · exact ⟨rfl, Nat.le_refl _, id, id⟩
    · split
      · exact ⟨rfl, Nat.le_refl _, id, fun h => absurd rfl h⟩
      · exact ⟨rfl, Nat.le_refl _, id, id⟩

theorem Calm.publishSuccessor (successor : TenantQuotaSuccessor) (s : GovernorState) :
    Calm s (publishSuccessor successor s) := ⟨rfl, Nat.le_refl _, id, id⟩

theorem Calm.enrolled {inner : GovernorInner} {tenant : TenantId} {weight : U16}
    {limits : ResourceAmounts} {pending : Bool} {accounting : AccountingState}
    (h : enrollTenantQuota inner s tenant weight limits pending = .ok accounting) :
    Calm s { s with toAccountingState := accounting } := by
  obtain ⟨_, _, _, _, hframe, _⟩ := enrollTenantQuota_ok h
  rw [hframe]
  exact ⟨rfl, Nat.le_refl _, id, id⟩

theorem Calm.rollback (tenant : TenantId) (s : GovernorState) : Calm s (rollbackTenantQuota tenant s) := by
  unfold rollbackTenantQuota
  split
  · exact ⟨rfl, Nat.le_refl _, id, id⟩
  · exact .refl s

theorem Calm.activate (tenant : TenantId) (s : GovernorState) : Calm s (activateTenantQuota tenant s) :=
  ⟨rfl, Nat.le_refl _, id, id⟩

theorem Calm.foreign (s : GovernorState) : Calm s (markForeignRelease s) := ⟨rfl, Nat.le_refl _, id, id⟩

end Calls

namespace WorldSound

variable {inner : GovernorInner} {tenants : Nat} {w : World} {s' : GovernorState}

variable (hw : WorldSound inner tenants w)
include hw

theorem locking : WorldSound inner tenants { w with governor := lock w.governor } :=
  ⟨hw.locked.sound, hw.lockedTopology, hw.locked.handlesSound, hw.custody, hw.staged⟩

theorem calm (h : Calm w.governor s') (htopo : TopologySound inner tenants s') :
    WorldSound inner tenants { w with governor := s' } :=
  ⟨h.sound hw.sound, htopo, h.handlesSound hw.handles, hw.custody, hw.staged⟩

theorem quiet (h : Calm w.governor s')
    (hsame : s'.tenancy = w.governor.tenancy) : WorldSound inner tenants { w with governor := s' } := by
  have htopo : s'.toTenantQuotaSuccessor = w.governor.toTenantQuotaSuccessor := congrArg Prod.fst hsame
  exact hw.calm h (htopo ▸ hw.topology)

theorem handled {handle : Nat} {r : ResourceReservation} {custody : Custody} (hs : Sound inner tenants s')
    (hsame : s'.toTenantQuotaSuccessor = w.governor.toTenantQuotaSuccessor)
    (hhandles : HandlesSound inner s' (w.handles.set handle ⟨r, custody⟩))
    (hcustody : (custody = .transferred → r.active) ∧ (custody = .gone → r.active = false)) :
    WorldSound inner tenants ({ w with governor := s' }.withHandle handle r custody) := by
  refine ⟨hs, hsame ▸ hw.topology, hhandles, fun j h hj => ?_, hw.staged⟩
  simp only [World.withHandle, getElem?_set] at hj
  split at hj
  · split at hj
    · cases hj
      exact hcustody
    · cases hj
  · exact hw.custody j h hj

end WorldSound

section Steps

variable {inner : GovernorInner} {tenants : Nat} {w w' : World} {op : Operation} {o : Outcome}
variable {s' : GovernorState} {r : ResourceReservation} {record : GrantRecord}

theorem Undisturbed.tenancy_eq {s s' : GovernorState} (h : Undisturbed s s') : s'.tenancy = s.tenancy := by
  cases h <;> rfl

theorem recordRefusal_tenancy (failure : AdmissionFailure) (s : GovernorState) :
    (recordRefusal failure s).tenancy = s.tenancy := by
  unfold recordRefusal
  split
  · rfl
  · split <;> rfl

theorem recordResizeRefusal_tenancy (failure : ResizeFailure) (s : GovernorState) :
    (recordResizeRefusal failure s).tenancy = s.tenancy := by
  unfold recordResizeRefusal
  split
  · exact recordRefusal_tenancy _ s
  · rfl

theorem snapshotFrom_tenancy (s : GovernorState) : (snapshotFrom s).2.tenancy = s.tenancy := by
  unfold snapshotFrom
  split <;> rfl

theorem beginShutdown_tenancy (s : GovernorState) : (beginShutdown s).2.tenancy = (lock s).tenancy := by
  unfold beginShutdown
  dsimp only
  split
  · exact snapshotFrom_tenancy _
  · exact snapshotFrom_tenancy _
  · rfl

theorem applyDiskObservation_tenancy (inner : GovernorInner) (usableBytes : U64) (s : GovernorState) :
    (applyDiskObservation inner usableBytes s).2.tenancy = (lock s).tenancy := by
  unfold applyDiskObservation
  dsimp only
  split
  · rfl
  · split
    · rfl
    · split <;> rfl

variable (hw : WorldSound inner tenants w)
include hw

theorem Refused.worldSound {must : Prop} {failure : AdmissionFailure}
    (h : Refused (lock w.governor) must failure s') :
    WorldSound inner tenants { w with governor := recordRefusal failure s' } :=
  hw.locking.quiet (h.undisturbed.calm.trans (.recordRefusal failure s'))
    ((recordRefusal_tenancy failure s').trans h.undisturbed.tenancy_eq)

theorem Admitted.worldSound (h : Admitted tenants r.slot record (lock w.governor) s') (hactive : r.active)
    (hwritten : GrantRecord.new r.owner r.identity r.amounts record.operation = some record)
    (howner : record.owner = some r.owner) (htoken : r.operation = record.rootToken inner.authority r.slot) :
    WorldSound inner tenants { w with governor := s', handles := w.handles ++ [⟨r, .held⟩] } := by
  have hsame : s'.toTenantQuotaSuccessor = (lock w.governor).toTenantQuotaSuccessor :=
    congrArg (·.toTenantQuotaSuccessor) h.frame
  refine ⟨h.sound hw.locked.sound, hsame ▸ hw.lockedTopology,
    hw.locked.handlesSound.admitted hw.locked.sound h hactive hwritten howner htoken,
    fun j x hx => ?_, hw.staged⟩
  rcases mem_append.mp (mem_of_getElem? hx) with hmem | hmem
  · obtain ⟨k, hk⟩ := mem_iff_getElem?.mp hmem
    exact hw.custody k x hk
  · cases mem_singleton.mp hmem
    exact ⟨(fun h => by cases h), (fun h => by cases h)⟩

variable {handle : Nat}

theorem Replaced.worldSound {r r' : ResourceReservation} {record new : GrantRecord}
    (h : Replaced tenants r.slot record new (lock w.governor) s')
    (hr : w.inCustody handle .held = some r) (hactive : r.active) (hactive' : r'.active)
    (howned : Owned inner s' r' new) (hslot : r'.slot = r.slot) (htoken : r'.operation = r.operation) :
    WorldSound inner tenants ({ w with governor := s' }.withHandle handle r' .held) := by
  refine hw.locking.handled (h.sound hw.locked.sound) (congrArg (·.toTenantQuotaSuccessor) h.frame) ?_
    ⟨(fun h => by cases h), (fun h => by cases h)⟩
  exact hw.locked.handlesSound.exchanged (World.inCustody_eq_some.mp hr) hactive htoken (fun _ => ⟨hslot, new, howned⟩)
    h.keepsOthers (congrArg marks h.frame :) (congrArg (·.nextOperationGeneration) h.frame) fun _ => hactive'

theorem Released.worldSound {r r' : ResourceReservation} (h : Released r.slot record (lock w.governor) s')
    (hr : w.inCustody handle .held = some r) (hactive : r.active) (hidle : r'.active = false)
    (htoken : r'.operation = r.operation) :
    WorldSound inner tenants ({ w with governor := s' }.withHandle handle r' .held) := by
  refine hw.locking.handled (h.sound hw.locked.sound) (congrArg (·.toTenantQuotaSuccessor) h.frame) ?_
    ⟨(fun h => by cases h), (fun h => by cases h)⟩
  exact hw.locked.handlesSound.exchanged (World.inCustody_eq_some.mp hr) hactive htoken
    (fun hactive' => Bool.noConfusion (hidle.symm.trans hactive')) h.keepsOthers
    (congrArg marks h.frame :) (congrArg (·.nextOperationGeneration) h.frame)
    fun hlive => absurd hlive h.not_live

omit hw in
theorem Replaced.owned {amounts : ResourceAmounts} {owner : ChargeOwner} {record new : GrantRecord}
    {s s' : GovernorState} (h : Replaced tenants r.slot record new s s') (howned : Owned inner s r record)
    (hwritten : GrantRecord.new owner r.identity amounts new.operation = some new) (howner : new.owner = some owner) :
    Owned inner s' { r with owner := owner, amounts := amounts } new := by
  have htoken := rootToken_congr h.operation
    ((new_spec hwritten).2.1.trans (new_spec howned.held.written).2.1.symm)
    inner.authority r.slot
  refine ⟨⟨h.entry_slot, h.isReleased_eq, hwritten, howner⟩, ?_, howned.token.trans htoken.symm⟩
  have hsignals : s'.slotSignals = s.slotSignals := congrArg (·.slotSignals) h.frame
  rw [hsignals]
  exact howned.active

theorem ResizeRefused.worldSound {failure : ResizeFailure} {amounts : ResourceAmounts} {preserve : Bool}
    (h : ResizeRefused (r.resizeRequest amounts preserve) record (lock w.governor) failure s')
    (hr : w.inCustody handle .held = some r) (hactive : r.active) :
    WorldSound inner tenants
      (resizeRefusedWorld { w with governor := recordResizeRefusal failure s' } handle r failure) := by
  unfold resizeRefusedWorld
  have hcounted := Calm.recordResizeRefusal failure s'
  have hshares := recordResizeRefusal_tenancy failure s'
  cases h with
  | kept hretained =>
    rw [if_neg (by rw [hretained]; exact fun h => by cases h)]
    exact hw.locking.quiet hcounted hshares
  | fenced _ =>
    have hcalm := (Calm.fence (lock w.governor)).trans hcounted
    split
    · -- the handle is given up although its grant stays in the fenced ledger
      refine hw.locking.handled (hcalm.sound hw.locked.sound) (congrArg Prod.fst hshares) ?_
        ⟨(fun h => by cases h), (fun h => by cases h)⟩
      refine hw.locked.handlesSound.change (World.inCustody_eq_some.mp hr) hactive rfl (fun h => by cases h)
        (fun slot _ => hcalm.keptAt slot) (fun slot hset => ?_)
        (fun hopen => absurd rfl (hcounted.opened hopen)) hcalm.next_le
      rw [hcalm.words_eq] at hset
      exact hcalm.hint (hw.locked.handlesSound.hinted slot hset)
    · exact hw.locking.quiet hcalm hshares
  | cancelled hcancelled hrel =>
    rw [if_pos hcancelled]
    have hsound : WorldSound inner tenants ({ w with governor := _ }.withHandle handle
        { r with active := false, amounts := .zero } .held) :=
      hrel.worldSound hw hr hactive rfl rfl
    exact hsound.quiet hcounted hshares

theorem Effect.worldSound (h : Effect inner tenants w op o w') : WorldSound inner tenants w' := by
  cases h with
  | @admitted _ r _ _ _ record h =>
    have hr := h.reservation
    exact h.admitted.worldSound hw (by rw [hr]) h.written h.owned (congrArg (·.operation) hr)
  | refused h => exact h.worldSound hw
  | @recoveryAdmitted _ r _ _ _ record h =>
    have hr := h.reservation
    have htoken : record.rootToken inner.authority r.slot = none := by
      unfold GrantRecord.rootToken
      rw [h.plain]
    exact h.admitted.worldSound hw (by rw [hr]) h.written h.owned ((congrArg (·.operation) hr).trans htoken.symm)
  | recoveryRefused h => exact h.worldSound hw
  | resized hr hactive howned h | recoveryResized hr hactive howned h =>
    exact h.replaced.worldSound hw hr hactive hactive (h.replaced.owned howned h.written h.owned) rfl rfl
  | resizeRefused hr hactive howned h => exact h.worldSound hw hr hactive
  | resizeIdle => exact hw
  | cancelled hr hactive howned h => exact h.worldSound hw hr hactive rfl rfl
  | cancelIdle => exact hw
  | transferred hr hactive =>
    exact hw.handled hw.sound rfl (hw.handles.passed (World.inCustody_eq_some.mp hr) hactive _)
      ⟨fun _ => hactive, (fun h => by cases h)⟩
  | reclaimed hr hactive =>
    exact hw.handled hw.sound rfl (hw.handles.passed (World.inCustody_eq_some.mp hr) hactive _)
      ⟨(fun h => by cases h), (fun h => by cases h)⟩
  | dropped hr hactive howned =>
    exact hw.handled (marked_sound hw.sound howned) rfl (hw.handles.dropped hw.sound
      (World.inCustody_eq_some.mp hr) hactive howned rfl rfl) ⟨(fun h => by cases h), fun _ => rfl⟩
  | dropIdle hr hactive =>
    exact hw.handled hw.sound rfl (hw.handles.idle (World.inCustody_eq_some.mp hr) hactive rfl rfl)
      ⟨(fun h => by cases h), fun _ => rfl⟩
  | foreign => exact hw.quiet (.foreign _) rfl
  | observed => exact hw.locking.quiet (.applyDiskObservation _ _ _) (applyDiskObservation_tenancy _ _ _)
  | shutDown => exact hw.locking.quiet (.beginShutdown _) (beginShutdown_tenancy _)
  | inspected => exact hw.locking.quiet (.snapshotFrom _) (snapshotFrom_tenancy _)
  | staged h =>
    have hlocked := hw.locking
    refine ⟨hlocked.sound, hlocked.topology, hlocked.handles, hlocked.custody, fun j update hj => ?_⟩
    rcases mem_append.mp (mem_of_getElem? hj) with hmem | hmem
    · obtain ⟨k, hk⟩ := mem_iff_getElem?.mp hmem
      exact hw.staged k update hk
    · cases mem_singleton.mp hmem
      exact stage_topologySound hw.lockedTopology h
  | @published update stagedUpdate h =>
    have hcalm := hw.locking.calm (.publishSuccessor stagedUpdate.successor _) (hw.staged _ _ h)
    refine ⟨hcalm.sound, hcalm.topology, hcalm.handles, hcalm.custody, fun j update hj => ?_⟩
    rw [getElem?_set] at hj
    split at hj
    · split at hj <;> cases hj
    · exact hw.staged j update hj
  | registered h => exact hw.locking.calm (.enrolled h) (enroll_topologySound hw.lockedTopology h)
  | prepared h =>
    have hcalm := hw.locking.calm (.enrolled h) (enroll_topologySound hw.lockedTopology h)
    exact ⟨hcalm.sound, hcalm.topology, hcalm.handles, hcalm.custody, hcalm.staged⟩
  | topologyRefused _ h =>
    rcases h with rfl | rfl
    · exact hw
    · exact hw.locking
  | @activated _ pending _ _ =>
    have hcalm := hw.calm (.activate pending.tenant _) hw.topology
    exact ⟨hcalm.sound, hcalm.topology, hcalm.handles, hcalm.custody, hcalm.staged⟩
  | @abandoned _ pending _ _ =>
    cases pending.active with
    | true => exact ⟨hw.sound, hw.topology, hw.handles, hw.custody, hw.staged⟩
    | false =>
      have hcalm := hw.locking.calm (.rollback pending.tenant _) (rollback_topologySound _ hw.lockedTopology)
      exact ⟨hcalm.sound, hcalm.topology, hcalm.handles, hcalm.custody, hcalm.staged⟩

theorem step_worldSound (hproper : op.Proper w)
    (h : step inner w op = some w') : WorldSound inner tenants w' := by
  obtain ⟨⟨o, w''⟩, hperform, rfl⟩ := Option.map_eq_some_iff.mp h
  exact (perform_effect hw hproper hperform).worldSound hw

end Steps

end Positron.Governor
