import Mathlib.Data.Nat.ModEq
import Positron.Governor.Replacement

/-! The handles of the users and the grants of the ledger: every active reservation stands for one live grant of its
own, and in a healthy governor no live grant is without a holder. The shares of the tenants, which together hold no
more than there is. A governor just established, and the changes that leave the ledger and the accounts alone. -/

namespace Positron.Governor
open Slots List Option MachineInt Enumeration Checks ResourceAmounts GrantRecord

structure Owned (inner : GovernorInner) (s : GovernorState) (r : ResourceReservation)
    (record : GrantRecord) : Prop where
  held : Held r.slot r.owner r.identity r.amounts record s
  active : s.slotSignals[r.slot]? = some .active
  token : r.operation = record.rootToken inner.authority r.slot

/-- The live grant of a slot is still there, up to its count of children. -/
def KeptAt (slot : Nat) (s s' : GovernorState) : Prop :=
  ∀ q, entry s.grantRecords slot = some q → q.isReleased = false →
    ∃ q', entry s'.grantRecords slot = some q' ∧ q.Recounts q' ∧ s'.slotSignals[slot]? = s.slotSignals[slot]?

theorem KeptAt.refl (slot : Nat) (s : GovernorState) : KeptAt slot s s :=
  fun q hq _ => ⟨q, hq, .inl rfl, rfl⟩

theorem KeptAt.trans {slot : Nat} {s t u : GovernorState} (h : KeptAt slot s t) (h' : KeptAt slot t u) :
    KeptAt slot s u := by
  intro q hq hlive
  obtain ⟨q₁, hq₁, hcount, hsignal⟩ := h q hq hlive
  obtain ⟨q₂, hq₂, hcount', hsignal'⟩ := h' q₁ hq₁ (hcount.isReleased_eq.trans hlive)
  exact ⟨q₂, hq₂, hcount.trans hcount', hsignal'.trans hsignal⟩

variable {identity : ReservationIdentity} {amounts : ResourceAmounts} {owner : ChargeOwner}
  {record recounted : GrantRecord}

def ReservationIdentity.work : ReservationIdentity → Option TenantId × Option PrincipalId × GrantKind
  | .ordinary tenant principal kind => (some tenant, principal, .ordinary kind)
  | .recovery _ kind => (none, none, .recovery kind)

theorem GrantRecord.new_spec {operation : Option OperationRecord}
    (h : new owner identity amounts operation = some record) :
    record.amounts = amounts ∧ (record.tenant, record.principal, record.kind) = identity.work ∧
      ∀ operation', new owner identity amounts operation' = some { record with operation := operation' } := by
  obtain ⟨attribution, pools, recoveryPools⟩ := owner
  cases attribution with
  | ordinary i =>
    cases identity with
    | recovery scope kind => cases h
    | ordinary tenant principal kind =>
      obtain ⟨index, hindex, h⟩ := bind_eq_some_iff.mp h
      obtain ⟨charge, hcharge, h⟩ := bind_eq_some_iff.mp h
      cases h
      refine ⟨rfl, rfl, fun operation' => ?_⟩
      exact bind_eq_some_iff.mpr ⟨index, hindex, bind_eq_some_iff.mpr ⟨charge, hcharge, rfl⟩⟩
  | recovery i =>
    cases identity with
    | ordinary tenant principal kind => cases h
    | recovery scope kind =>
      cases i with
      | none =>
        obtain ⟨charge, hcharge, h⟩ := bind_eq_some_iff.mp h
        cases h
        exact ⟨rfl, rfl, fun operation' => bind_eq_some_iff.mpr ⟨charge, hcharge, rfl⟩⟩
      | some i =>
        obtain ⟨index, hindex, h⟩ := bind_eq_some_iff.mp h
        obtain ⟨charge, hcharge, h⟩ := bind_eq_some_iff.mp h
        cases h
        refine ⟨rfl, rfl, fun operation' => ?_⟩
        exact bind_eq_some_iff.mpr ⟨index, hindex, bind_eq_some_iff.mpr ⟨charge, hcharge, rfl⟩⟩

theorem GrantRecord.Recounts.rootToken_eq (h : record.Recounts recounted)
    (authority slot : Nat) : recounted.rootToken authority slot = record.rootToken authority slot := by
  rcases h with rfl | ⟨generation, accepting, count, count', hop, rfl⟩
  · rfl
  · unfold rootToken
    rw [hop]

theorem GrantRecord.Recounts.written (h : record.Recounts recounted)
    (hwritten : new owner identity amounts record.operation = some record) :
    new owner identity amounts recounted.operation = some recounted := by
  rcases h with rfl | ⟨generation, accepting, count, count', hop, rfl⟩
  · exact hwritten
  · exact (new_spec hwritten).2.2 _

theorem Owned.kept {inner : GovernorInner} {s s' : GovernorState} {r : ResourceReservation}
    {record : GrantRecord} (h : Owned inner s r record) (hkept : KeptAt r.slot s s') :
    ∃ record', Owned inner s' r record' := by
  obtain ⟨record', hentry, hcount, hsignal⟩ := hkept record h.held.occupied h.held.live
  refine ⟨record', ⟨hentry, hcount.isReleased_eq.trans h.held.live, hcount.written h.held.written,
    hcount.owner_eq.trans h.held.owned⟩, hsignal.trans h.active, ?_⟩
  rw [hcount.rootToken_eq]
  exact h.token

structure HandlesSound (inner : GovernorInner) (s : GovernorState) (handles : List Handle) : Prop where
  owned : ∀ (j : Nat) h, handles[j]? = some h → h.reservation.active →
    ∃ record, Owned inner s h.reservation record
  distinct : ∀ (j k : Nat) h h', handles[j]? = some h → handles[k]? = some h' →
    h.reservation.active → h'.reservation.active →
    h.reservation.slot = h'.reservation.slot → j = k
  hinted : ∀ slot, pendingBit s.pendingWords slot → s.hasPendingReleases
  covered : s.lifecycle ≠ .fenced → ∀ slot, LiveAt s.grantRecords slot → pendingBit s.pendingWords slot ∨
      ∃ (j : Nat) (h : Handle), handles[j]? = some h ∧ h.reservation.active ∧ h.reservation.slot = slot
  issued : ∀ (j : Nat) h token, handles[j]? = some h → h.reservation.operation = some token →
    token.generation.1 < s.nextOperationGeneration.1
  unique : ∀ (j k : Nat) h h' token token', handles[j]? = some h → handles[k]? = some h' →
    h.reservation.operation = some token → h'.reservation.operation = some token' →
    token.generation = token'.generation → j = k

namespace HandlesSound

variable {inner : GovernorInner} {s s' : GovernorState} {handles : List Handle}

theorem initial (hbits : ∀ slot, pendingBit s.pendingWords slot = false)
    (hempty : ∀ slot, entry s.grantRecords slot = none) : HandlesSound inner s [] := by
  have hnone : ∀ (j : Nat) (h : Handle), ([] : List Handle)[j]? ≠ some h := by simp
  refine ⟨fun j h hj => absurd hj (hnone j h), fun j _ h _ hj => absurd hj (hnone j h),
    fun slot hset => ?_, fun _ slot ⟨record, hentry, _⟩ => ?_, fun j h _ hj => absurd hj (hnone j h),
    fun j _ h _ _ _ hj => absurd hj (hnone j h)⟩
  · rw [hbits] at hset
    cases hset
  · rw [hempty] at hentry
    cases hentry

theorem transport (h : HandlesSound inner s handles)
    (hkept : ∀ (j : Nat) x, handles[j]? = some x → x.reservation.active → KeptAt x.reservation.slot s s')
    (hhint : ∀ slot, pendingBit s'.pendingWords slot → s'.hasPendingReleases)
    (hcovered : s'.lifecycle ≠ .fenced → s.lifecycle ≠ .fenced ∧ ∀ slot, LiveAt s'.grantRecords slot →
      LiveAt s.grantRecords slot ∧ (pendingBit s.pendingWords slot → pendingBit s'.pendingWords slot))
    (hnext : s.nextOperationGeneration.1 ≤ s'.nextOperationGeneration.1) : HandlesSound inner s' handles := by
  refine ⟨fun j x hx hactive => ?_, h.distinct, hhint, fun hopen slot hlive => ?_,
    fun j x token hx htoken => ?_, h.unique⟩
  · obtain ⟨record, howned⟩ := h.owned j x hx hactive
    exact howned.kept (hkept j x hx hactive)
  · obtain ⟨hopen', hlives⟩ := hcovered hopen
    obtain ⟨hlive', hbit⟩ := hlives slot hlive
    rcases h.covered hopen' slot hlive' with hset | hholder
    · exact .inl (hbit hset)
    · exact .inr hholder
  · exact Nat.lt_of_lt_of_le (h.issued j x token hx htoken) hnext

/-- One handle changes or comes, with the slot that it holds. -/
theorem update (h : HandlesSound inner s handles) {handles' : List Handle} {j slot : Nat} {x : Handle}
    (hx : handles'[j]? = some x) (hsame : ∀ k, k ≠ j → handles'[k]? = handles[k]?)
    (hbefore : ∀ y, handles[j]? = some y → y.reservation.slot = slot)
    (hother : ∀ (k : Nat) y, k ≠ j → handles[k]? = some y → y.reservation.active → y.reservation.slot ≠ slot)
    (howned : x.reservation.active → x.reservation.slot = slot ∧ ∃ record, Owned inner s' x.reservation record)
    (hkept : ∀ other, other ≠ slot → KeptAt other s s')
    (hhint : ∀ slot, pendingBit s'.pendingWords slot → s'.hasPendingReleases)
    (hcovered : s'.lifecycle ≠ .fenced → s.lifecycle ≠ .fenced ∧ ∀ other, LiveAt s'.grantRecords other →
      if other = slot then pendingBit s'.pendingWords other ∨ x.reservation.active
      else LiveAt s.grantRecords other ∧ (pendingBit s.pendingWords other → pendingBit s'.pendingWords other))
    (hnext : s.nextOperationGeneration.1 ≤ s'.nextOperationGeneration.1)
    (hissued : ∀ token, x.reservation.operation = some token → token.generation.1 < s'.nextOperationGeneration.1)
    (hfresh : ∀ (k : Nat) y token token', k ≠ j → handles[k]? = some y → y.reservation.operation = some token →
      x.reservation.operation = some token' → token.generation ≠ token'.generation) :
    HandlesSound inner s' handles' := by
  have hcases : ∀ (k : Nat) (y : Handle), handles'[k]? = some y → (k = j ∧ y = x) ∨ (k ≠ j ∧ handles[k]? = some y) := by
    intro k y hy
    by_cases hk : k = j
    · rw [hk, hx] at hy
      exact .inl ⟨hk, (Option.some.inj hy).symm⟩
    · exact .inr ⟨hk, hsame k hk ▸ hy⟩
  refine ⟨fun k y hy hyActive => ?_, fun k l y z hy hz hyActive hzActive hslot => ?_, hhint,
    fun hopen other hlive => ?_, fun k y token hy hyToken => ?_, fun k l y z t t' hy hz hyToken hzToken heq => ?_⟩
  · rcases hcases k y hy with ⟨rfl, rfl⟩ | ⟨hk, hy⟩
    · exact (howned hyActive).2
    · obtain ⟨record, hrec⟩ := h.owned k y hy hyActive
      exact hrec.kept (hkept _ (hother k y hk hy hyActive))
  · rcases hcases k y hy with ⟨hk, rfl⟩ | ⟨hk, hky⟩ <;> rcases hcases l z hz with ⟨hl, rfl⟩ | ⟨hl, hlz⟩
    · exact hk.trans hl.symm
    · exact absurd (hslot.symm.trans (howned hyActive).1) (hother l z hl hlz hzActive)
    · exact absurd (hslot.trans (howned hzActive).1) (hother k y hk hky hyActive)
    · exact h.distinct k l y z hky hlz hyActive hzActive hslot
  · obtain ⟨hopen', hlives⟩ := hcovered hopen
    have hcase := hlives other hlive
    split at hcase
    · rename_i hslot
      exact hcase.imp_right fun hactive => ⟨j, x, hx, hactive, (howned hactive).1.trans hslot.symm⟩
    · rename_i hslot
      rcases h.covered hopen' other hcase.1 with hset | ⟨k, y, hy, hyActive, hySlot⟩
      · exact .inl (hcase.2 hset)
      · have hk : k ≠ j := by
          rintro rfl
          exact hslot (hySlot.symm.trans (hbefore y hy))
        exact .inr ⟨k, y, (hsame k hk).trans hy, hyActive, hySlot⟩
  · rcases hcases k y hy with ⟨_, rfl⟩ | ⟨_, hy⟩
    · exact hissued token hyToken
    · exact Nat.lt_of_lt_of_le (h.issued k y token hy hyToken) hnext
  · rcases hcases k y hy with ⟨hk, rfl⟩ | ⟨hk, hky⟩ <;> rcases hcases l z hz with ⟨hl, rfl⟩ | ⟨hl, hlz⟩
    · exact hk.trans hl.symm
    · exact absurd heq.symm (hfresh l z t' t hl hlz hzToken hyToken)
    · exact absurd heq (hfresh k y t t' hk hky hyToken hzToken)
    · exact h.unique k l y z t t' hky hlz hyToken hzToken heq

theorem change (h : HandlesSound inner s handles) {j : Nat} {x x' : Handle} (hx : handles[j]? = some x)
    (hactive : x.reservation.active) (htoken : x'.reservation.operation = x.reservation.operation)
    (howned : x'.reservation.active → x'.reservation.slot = x.reservation.slot ∧
      ∃ record, Owned inner s' x'.reservation record)
    (hkept : ∀ slot, slot ≠ x.reservation.slot → KeptAt slot s s')
    (hhint : ∀ slot, pendingBit s'.pendingWords slot → s'.hasPendingReleases)
    (hcovered : s'.lifecycle ≠ .fenced → s.lifecycle ≠ .fenced ∧ ∀ slot, LiveAt s'.grantRecords slot →
      if slot = x.reservation.slot then
        pendingBit s'.pendingWords slot ∨ x'.reservation.active
      else LiveAt s.grantRecords slot ∧ (pendingBit s.pendingWords slot → pendingBit s'.pendingWords slot))
    (hnext : s.nextOperationGeneration.1 ≤ s'.nextOperationGeneration.1) :
    HandlesSound inner s' (handles.set j x') := by
  obtain ⟨hlt, _⟩ := List.getElem?_eq_some_iff.mp hx
  refine h.update (getElem?_set_self hlt) (fun k hk => getElem?_set_ne (Ne.symm hk)) (fun y hy => ?_)
    (fun k y hk hy hyActive hslot => ?_) howned hkept hhint hcovered hnext (fun token hissued => ?_)
    fun k y token token' hk hy hyToken hxToken heq => ?_
  · rw [Option.some.inj (hx.symm.trans hy)]
  · exact hk (h.distinct k j y x hy hx hyActive hactive hslot)
  · exact Nat.lt_of_lt_of_le (h.issued j x token hx (htoken ▸ hissued)) hnext
  · exact hk (h.unique k j y x token token' hy hx hyToken (htoken ▸ hxToken) heq)

theorem add (h : HandlesSound inner s handles) {x : Handle} {record : GrantRecord}
    (hempty : entry s.grantRecords x.reservation.slot = none) (howned : Owned inner s' x.reservation record)
    (hactive : x.reservation.active) (hkept : ∀ slot, slot ≠ x.reservation.slot → KeptAt slot s s')
    (hhint : ∀ slot, pendingBit s'.pendingWords slot → s'.hasPendingReleases)
    (hcovered : s'.lifecycle ≠ .fenced → s.lifecycle ≠ .fenced ∧ ∀ slot, slot ≠ x.reservation.slot →
      LiveAt s'.grantRecords slot → LiveAt s.grantRecords slot ∧
        (pendingBit s.pendingWords slot → pendingBit s'.pendingWords slot))
    (hnext : s.nextOperationGeneration.1 ≤ s'.nextOperationGeneration.1)
    (htoken : ∀ token, x.reservation.operation = some token → token.generation = s.nextOperationGeneration ∧
        s.nextOperationGeneration.1 < s'.nextOperationGeneration.1) :
    HandlesSound inner s' (handles ++ [x]) := by
  have hnone : handles[handles.length]? = none := getElem?_eq_none (Nat.le_refl _)
  refine h.update getElem?_concat_length (fun k hk => ?_) (fun y hy => ?_) (fun k y _ hy hyActive hslot => ?_)
    (fun _ => ⟨rfl, record, howned⟩) hkept hhint (fun hopen => ?_) hnext (fun token hissued => ?_)
    fun k y token token' _ hy hyToken hxToken heq => ?_
  · rw [getElem?_append]
    split
    · rfl
    · rw [getElem?_eq_none (by simp only [length_singleton]; omega), getElem?_eq_none (by omega)]
  · rw [hnone] at hy
    cases hy
  · obtain ⟨q, hq⟩ := h.owned k y hy hyActive
    have hoccupied := hq.held.occupied
    rw [hslot, hempty] at hoccupied
    cases hoccupied
  · obtain ⟨hopen', hlives⟩ := hcovered hopen
    refine ⟨hopen', fun slot hlive => ?_⟩
    split
    · exact .inr hactive
    · rename_i hslot
      exact hlives slot hslot hlive
  · obtain ⟨hgen, hlt⟩ := htoken token hissued
    rw [hgen]
    exact hlt
  · have hlt := h.issued k y token hy hyToken
    rw [heq, (htoken token' hxToken).1] at hlt
    exact Nat.lt_irrefl _ hlt

end HandlesSound

variable {quotas : List TenantQuota} {pools : RecoveryPoolCapacities} {kind : RecoveryWorkKind}

def weightSum (quotas : List TenantQuota) : Nat := (quotas.map (·.weight.1)).sum

def floorShare (capacity weight total : Nat) : Nat := capacity * weight / total

theorem floorShare_le {capacity weight total : Nat} (h : weight ≤ total) :
    floorShare capacity weight total ≤ capacity := by
  refine Nat.div_le_of_le_mul ?_
  rw [Nat.mul_comm]
  exact Nat.mul_le_mul_right capacity h

theorem floorShare_mono {capacity capacity' : Nat} (weight total : Nat) (h : capacity ≤ capacity') :
    floorShare capacity weight total ≤ floorShare capacity' weight total :=
  Nat.div_le_div_right (Nat.mul_le_mul_right weight h)

variable {α : Type} {amounts : ResourceAmounts} {t : TenantQuotaSuccessor} {system : RecoveryPoolCapacities}

theorem sum_floorShare_le (parts : List α) (capacity : α → Nat) (weight total : Nat) :
    (parts.map fun p => floorShare (capacity p) weight total).sum ≤
      floorShare (parts.map capacity).sum weight total := by
  induction parts with
  | nil => exact Nat.zero_le _
  | cons p parts ih =>
    simp only [map_cons, sum_cons]
    refine Nat.le_trans (Nat.add_le_add_left ih _) ?_
    unfold floorShare
    rw [Nat.add_mul]
    exact Nat.div_add_div_le_add_div

theorem sum_weights_floorShare_le (quotas : List TenantQuota) (capacity : Nat) :
    (quotas.map fun quota => floorShare capacity quota.weight.1 (weightSum quotas)).sum ≤ capacity := by
  have hsum : ∀ (quotas : List TenantQuota) (total : Nat),
      (quotas.map fun quota => floorShare capacity quota.weight.1 total).sum ≤
        capacity * weightSum quotas / total := by
    intro quotas total
    induction quotas with
    | nil => exact Nat.zero_le _
    | cons quota quotas ih =>
      simp only [map_cons, sum_cons, weightSum]
      refine Nat.le_trans (Nat.add_le_add_left ih _) ?_
      rw [Nat.mul_add]
      exact Nat.div_add_div_le_add_div
  refine Nat.le_trans (hsum quotas (weightSum quotas)) ?_
  exact Nat.div_le_of_le_mul (Nat.mul_comm _ _).le

theorem totalWeight_ok {weight : U64} (h : totalWeight quotas = .ok weight) :
    weight.1 = weightSum quotas ∧ 0 < weight.1 := by
  have hfold : ∀ (quotas : List TenantQuota) (start total : U64),
      quotas.foldlM (fun (total : U64) quota => total.checkedAdd quota.wideWeight) start = some total →
        total.1 = start.1 + weightSum quotas := by
    intro quotas
    induction quotas with
    | nil =>
      intro start total h
      cases h
      rfl
    | cons quota quotas ih =>
      intro start total h
      obtain ⟨next, hnext, h⟩ := Option.bind_eq_some_iff.mp h
      have hstep := Unsigned.checkedAdd_eq_some_iff.mp hnext
      have hwide : quota.wideWeight.1 = quota.weight.1 := rfl
      rw [ih next total h]
      simp only [weightSum, map_cons, sum_cons]
      omega
  obtain ⟨hsome, hpos⟩ := Option.filter_eq_some_iff.mp (orFail_eq_ok_iff.mp h)
  refine ⟨?_, of_decide_eq_true hpos⟩
  rw [hfold quotas _ _ hsome]
  exact Nat.zero_add _

theorem weight_le_sum {i : Nat} {quota : TenantQuota} (h : quotas[i]? = some quota) :
    quota.weight.1 ≤ weightSum quotas :=
  le_sum_of_mem (mem_map.mpr ⟨quota, mem_of_getElem? h, rfl⟩)

theorem checkedSub_le {a b c : ResourceAmounts} (h : a.checkedSub b = some c) (d : ResourceDimension) :
    c.value d ≤ a.value d := by
  have hd := ResourceAmounts.checkedSub_eq_some_iff.mp h d
  omega

theorem recoveryTenantCapacity_le (h : recoveryTenantCapacity pools kind = .ok amounts)
    (d : ResourceDimension) : amounts.value d ≤ (pools.get kind).value d := by
  unfold recoveryTenantCapacity at h
  split at h
  · exact checkedSub_le (orFail_eq_ok_iff.mp h) d
  · split at h
    · cases h
      exact Nat.le_refl _
    · cases h
      exact Nat.zero_le _

theorem recoveryShare_ok {quota : TenantQuota} {weight : U64} {share : ResourceAmounts}
    (h : recoveryShare quota pools weight kind = .ok share) :
    ∃ capacity, recoveryTenantCapacity pools kind = .ok capacity ∧
      ∀ d, share.value d = floorShare (capacity.value d) quota.weight.1 weight.1 := by
  obtain ⟨capacity, hcap, h⟩ := bind_ok h
  obtain ⟨floors, hfloors, h⟩ := bind_ok h
  obtain ⟨_, _, h⟩ := bind_ok h
  cases h
  exact ⟨capacity, hcap, weightedAmounts_value (orFail_eq_ok_iff.mp hfloors)⟩

theorem systemRecoveryCapacity_le {floors : List RecoveryPoolCapacities}
    (h : systemRecoveryCapacity pools floors kind = .ok amounts) (d : ResourceDimension) :
    amounts.value d ≤ (pools.get kind).value d := by
  obtain ⟨reserved, _, h⟩ := bind_ok h
  obtain ⟨capacity, hcap, h⟩ := bind_ok h
  obtain ⟨_, _, h⟩ := bind_ok h
  cases h
  exact checkedSub_le (orFail_eq_ok_iff.mp hcap) d

/-- The tables of a topology are the floors of its weights. -/
structure Fair (inner : GovernorInner) (t : TenantQuotaSuccessor) : Prop where
  length_fair : t.tenantFairCapacities.length = t.tenantQuotas.length
  length_shared : t.recoveryTenantSharedFair.length = t.tenantQuotas.length
  length_pools : t.recoveryTenantPoolFair.length = t.tenantQuotas.length
  fair : ∀ (i : Nat) quota share, t.tenantQuotas[i]? = some quota →
    t.tenantFairCapacities[i]? = some share → ∀ p d, share.value p d =
      floorShare (inner.poolCapacities.value p d) quota.weight.1 (weightSum t.tenantQuotas)
  shared : ∀ (i : Nat) quota share, t.tenantQuotas[i]? = some quota →
    t.recoveryTenantSharedFair[i]? = some share → ∀ d, share.value d =
      floorShare (inner.recoverySharedCapacity.value d) quota.weight.1 (weightSum t.tenantQuotas)
  pools : ∀ (i : Nat) quota floors, t.tenantQuotas[i]? = some quota →
    t.recoveryTenantPoolFair[i]? = some floors → ∀ k, ∃ capacity,
      recoveryTenantCapacity inner.recoveryPoolCapacities k = .ok capacity ∧ ∀ d, (floors.get k).value d =
          floorShare (capacity.value d) quota.weight.1 (weightSum t.tenantQuotas)
  system : ∀ k, systemRecoveryCapacity inner.recoveryPoolCapacities t.recoveryTenantPoolFair k =
    .ok (t.recoverySystemPoolCapacities.get k)
  progress : t.tenantQuotas.length + workClassCount ≤ inner.maximumOutstanding.1

theorem exists_quota {table : List α} {i : Nat} {a : α} (hlen : table.length = t.tenantQuotas.length)
    (h : table[i]? = some a) : ∃ quota, t.tenantQuotas[i]? = some quota := by
  obtain ⟨hlt, _⟩ := List.getElem?_eq_some_iff.mp h
  exact ⟨_, getElem?_eq_getElem (hlen ▸ hlt)⟩

theorem Fair.topologySound {inner : GovernorInner} {tenants : Nat} (h : Fair inner t)
    (hlimits : t.tenantLimits.length = tenants)
    (hspare : ∀ (i : Nat) limits, t.tenantQuotas.length ≤ i → t.tenantLimits[i]? = some limits → limits = .zero)
    (hquotas : t.tenantQuotas.length ≤ tenants)
    (hdist : (t.tenantQuotas.map (·.tenant)).Nodup) : TopologySound inner tenants t where
  length_fair := h.length_fair
  length_shared := h.length_shared
  length_pools := h.length_pools
  length_limits := hlimits
  spare := hspare
  quotas_le := hquotas
  distinct := hdist
  fair_le i share hshare p d := by
    obtain ⟨quota, hquota⟩ := exists_quota h.length_fair hshare
    rw [h.fair i quota share hquota hshare]
    exact floorShare_le (weight_le_sum hquota)
  shared_le i share hshare d := by
    obtain ⟨quota, hquota⟩ := exists_quota h.length_shared hshare
    rw [h.shared i quota share hquota hshare]
    exact floorShare_le (weight_le_sum hquota)
  pools_le i floors hfloors k d := by
    obtain ⟨quota, hquota⟩ := exists_quota h.length_pools hfloors
    obtain ⟨capacity, hcap, hval⟩ := h.pools i quota floors hquota hfloors k
    rw [hval]
    exact Nat.le_trans (floorShare_le (weight_le_sum hquota)) (recoveryTenantCapacity_le hcap d)
  system_le k d := systemRecoveryCapacity_le (h.system k) d

theorem Fair.of_derived (inner : GovernorInner) {weight : U64} {ordinary : List PoolCapacities}
    {shared : List ResourceAmounts} {pools : List RecoveryPoolCapacities}
    (hweight : totalWeight quotas = .ok weight)
    (hord : ordinaryCapacities quotas inner.poolCapacities weight = .ok ordinary)
    (hshared : amountCapacities quotas inner.recoverySharedCapacity weight = .ok shared)
    (hpools : recoveryFairCapacities quotas inner.recoveryPoolCapacities weight = .ok pools)
    (hsystem : systemRecoveryCapacities inner.recoveryPoolCapacities pools = .ok system)
    (hprogress : validateProgress quotas ordinary inner.maximumOutstanding = .ok ⟨⟩) (limits : List ResourceAmounts) :
    Fair inner ⟨quotas, ordinary, shared, pools, system, limits⟩ := by
  obtain ⟨hval, _⟩ := totalWeight_ok hweight
  obtain ⟨hlenFair, hfair⟩ := mapM_eq_ok hord
  obtain ⟨hlenShared, hsharedFair⟩ := mapM_eq_ok hshared
  obtain ⟨hlenPools, hpoolFair⟩ := mapM_eq_ok hpools
  refine ⟨hlenFair, hlenShared, hlenPools, ?_, ?_, ?_, ?_, ?_⟩
  · intro i quota share hquota hshare p d
    obtain ⟨share', hshare', hok⟩ := hfair i quota hquota
    cases hshare.symm.trans hshare'
    rw [PoolCapacities.fairShare_value (orFail_eq_ok_iff.mp hok), hval]
    rfl
  · intro i quota share hquota hshare d
    obtain ⟨share', hshare', hok⟩ := hsharedFair i quota hquota
    cases hshare.symm.trans hshare'
    rw [weightedAmounts_value (orFail_eq_ok_iff.mp hok), hval]
    rfl
  · intro i quota floors hquota hfloors k
    obtain ⟨floors', hfloors', hok⟩ := hpoolFair i quota hquota
    cases hfloors.symm.trans hfloors'
    obtain ⟨values, hvals, hok⟩ := bind_ok hok
    cases hok
    obtain ⟨capacity, hcap, hshare⟩ := recoveryShare_ok (collect_ok hvals k)
    refine ⟨capacity, hcap, fun d => ?_⟩
    rw [← hval]
    exact hshare d
  · intro k
    obtain ⟨values, hvals, hok⟩ := bind_ok hsystem
    cases hok
    exact collect_ok hvals k
  · obtain ⟨required, hreq, hrest⟩ := bind_ok hprogress
    obtain ⟨_, hle, _⟩ := bind_ok hrest
    have hreq := Unsigned.ofNat?_eq_some_iff.mp (orFail_eq_ok_iff.mp hreq)
    have hle := demand_eq_ok_iff.mp hle
    dsimp only
    omega

theorem deriveTenantFairness_ok {inner : GovernorInner} {fairness : TenantFairness}
    (h : deriveTenantFairness inner quotas = .ok fairness)
    (hsystem : systemRecoveryCapacities inner.recoveryPoolCapacities fairness.pools = .ok system)
    (limits : List ResourceAmounts) :
    Fair inner ⟨quotas, fairness.ordinary, fairness.shared, fairness.pools, system, limits⟩ := by
  obtain ⟨weight, hweight, h⟩ := bind_ok h
  obtain ⟨ordinary, hord, h⟩ := bind_ok h
  obtain ⟨_, _, h⟩ := bind_ok h
  obtain ⟨shared, hshared, h⟩ := bind_ok h
  obtain ⟨pools, hpools, h⟩ := bind_ok h
  obtain ⟨_, _, h⟩ := bind_ok h
  obtain ⟨_, hprogress, h⟩ := bind_ok h
  cases h
  exact .of_derived inner hweight hord hshared hpools hsystem hprogress limits

section Changes

variable {inner : GovernorInner} {tenants : Nat} {s : AccountingState} {tenant : TenantId} {weight : U16}
  {limits : ResourceAmounts}

theorem TenantQuota.new_ok {quota : TenantQuota} (h : TenantQuota.new tenant weight limits = .ok quota) :
    quota.tenant = tenant ∧ quota.weight = weight ∧ quota.limits = limits := by
  unfold TenantQuota.new at h
  split at h
  · cases h
    exact ⟨rfl, rfl, rfl⟩
  · cases h

variable {successor : TenantQuotaSuccessor} {s' : AccountingState} {pending : Bool} {i : Nat}

theorem stageTenantQuotaUpdate_ok (h : stageTenantQuotaUpdate inner s tenant weight limits = .ok successor) :
    Fair inner successor ∧ ∃ (i : Nat) (old quota : TenantQuota), s.tenantQuotas[i]? = some old ∧
      old.tenant = tenant ∧ quota.tenant = tenant ∧ quota.weight = weight ∧ quota.limits = limits ∧
      successor.tenantQuotas = s.tenantQuotas.set i quota ∧ successor.tenantLimits = s.tenantLimits.set i limits := by
  obtain ⟨i, hi, h⟩ := bind_ok h
  obtain ⟨quota, hquota, h⟩ := bind_ok h
  obtain ⟨fairness, hfairness, h⟩ := bind_ok h
  obtain ⟨system, hsystem, h⟩ := bind_ok h
  obtain ⟨_, _, h⟩ := bind_ok h
  cases h
  obtain ⟨hlt, hfound, _⟩ := findIdx?_eq_some_iff_getElem.mp (orFail_eq_ok_iff.mp hi)
  obtain ⟨htenant, hweight, hlimits⟩ := TenantQuota.new_ok hquota
  exact ⟨deriveTenantFairness_ok hfairness hsystem _, i, _, quota, getElem?_eq_getElem hlt,
    of_decide_eq_true hfound, htenant, hweight, hlimits, rfl, rfl⟩

theorem enrollTenantQuota_ok (h : enrollTenantQuota inner s tenant weight limits pending = .ok s') :
    Fair inner s' ∧ (¬ ∃ quota ∈ s.tenantQuotas, quota.tenant = tenant) ∧
      (pending → s.pendingTenant = none) ∧ s.tenantQuotas.length < s.tenantLimits.length ∧
      s' = { s with toTenantQuotaSuccessor := s'.toTenantQuotaSuccessor,
                    pendingTenant := if pending then some tenant else s.pendingTenant } ∧
      ∃ quota : TenantQuota, quota.tenant = tenant ∧ quota.weight = weight ∧ quota.limits = limits ∧
        s'.tenantQuotas = s.tenantQuotas ++ [quota] ∧
        s'.tenantLimits = s.tenantLimits.set s.tenantQuotas.length limits := by
  obtain ⟨_, hpending, h⟩ := bind_ok h
  obtain ⟨_, hfresh, h⟩ := bind_ok h
  obtain ⟨_, hroom, h⟩ := bind_ok h
  obtain ⟨quota, hquota, h⟩ := bind_ok h
  obtain ⟨fairness, hfairness, h⟩ := bind_ok h
  obtain ⟨system, hsystem, h⟩ := bind_ok h
  obtain ⟨_, _, h⟩ := bind_ok h
  cases h
  obtain ⟨htenant, hweight, hlimits⟩ := TenantQuota.new_ok hquota
  refine ⟨deriveTenantFairness_ok hfairness hsystem _, demand_eq_ok_iff.mp hfresh, fun htrue => ?_,
    demand_eq_ok_iff.mp hroom, rfl, quota, htenant, hweight, hlimits, rfl, rfl⟩
  rcases demand_eq_ok_iff.mp hpending with hfalse | hnone
  · rw [hfalse] at htrue
    cases htrue
  · exact hnone

theorem map_tenant_set {quotas : List TenantQuota} {old quota : TenantQuota} (hold : quotas[i]? = some old)
    (hsame : quota.tenant = old.tenant) : (quotas.set i quota).map (·.tenant) = quotas.map (·.tenant) := by
  obtain ⟨hlt, hval⟩ := List.getElem?_eq_some_iff.mp hold
  rw [map_set, hsame, ← hval]
  have hlt' : i < (quotas.map (·.tenant)).length := by
    rw [length_map]
    exact hlt
  have hmap : (quotas.map (·.tenant))[i] = quotas[i].tenant := getElem_map _
  rw [← hmap]
  exact set_getElem_self hlt'

theorem TopologySound.spare_set (hs : TopologySound inner tenants s) {n : Nat}
    (hself : n ≤ i → limits = .zero) (hrest : ∀ j, n ≤ j → i ≠ j → s.tenantQuotas.length ≤ j) (j : Nat)
    (found : ResourceAmounts) (hj : n ≤ j) (hfound : (s.tenantLimits.set i limits)[j]? = some found) :
    found = .zero := by
  rw [getElem?_set] at hfound
  split at hfound
  · rename_i hij
    split at hfound
    · cases hfound
      exact hself (hij ▸ hj)
    · cases hfound
  · rename_i hij
    exact hs.spare j found (hrest j hj hij) hfound

theorem stage_topologySound (hs : TopologySound inner tenants s)
    (h : stageTenantQuotaUpdate inner s tenant weight limits = .ok successor) :
    TopologySound inner tenants successor := by
  obtain ⟨hfair, i, old, quota, hold, htenant, hsame, _, _, hquotas, hlimits⟩ :=
    stageTenantQuotaUpdate_ok h
  have hlt := (List.getElem?_eq_some_iff.mp hold).1
  apply hfair.topologySound
  · rw [hlimits, length_set]
    exact hs.length_limits
  · rw [hlimits, hquotas, length_set]
    exact hs.spare_set (fun hle => absurd hlt (Nat.not_lt.mpr hle)) fun _ hj _ => hj
  · rw [hquotas, length_set]
    exact hs.quotas_le
  · rw [hquotas, map_tenant_set hold (hsame.trans htenant.symm)]
    exact hs.distinct

theorem enroll_topologySound (hs : TopologySound inner tenants s)
    (h : enrollTenantQuota inner s tenant weight limits pending = .ok s') :
    TopologySound inner tenants s'.toTenantQuotaSuccessor := by
  obtain ⟨hfair, hfresh, _, hroom, _, quota, htenant, _, _, hquotas, hlimits⟩ := enrollTenantQuota_ok h
  apply hfair.topologySound
  · rw [hlimits, length_set]
    exact hs.length_limits
  · rw [hlimits, hquotas, length_append]
    exact hs.spare_set (fun hle => absurd hle (Nat.not_succ_le_self _)) fun _ hj _ => Nat.le_of_succ_le hj
  · rw [hquotas, length_append]
    rw [hs.length_limits] at hroom
    exact hroom
  · rw [hquotas, map_append, nodup_append]
    refine ⟨hs.distinct, nodup_singleton _, ?_⟩
    rintro a ha b hb rfl
    obtain ⟨q, hq, rfl⟩ := mem_map.mp ha
    rw [map_singleton, mem_singleton] at hb
    exact hfresh ⟨q, hq, hb.trans htenant⟩

theorem getElem?_of_dropLast {α : Type} {xs : List α} {a : α} (h : xs.dropLast[i]? = some a) :
    xs[i]? = some a := by
  rw [getElem?_dropLast] at h
  split at h
  · exact h
  · cases h

theorem rollback_topologySound {g : GovernorState} (tenant : TenantId) (hs : TopologySound inner tenants g) :
    TopologySound inner tenants (rollbackTenantQuota tenant g).toTenantQuotaSuccessor := by
  unfold rollbackTenantQuota
  split
  · have hlast : g.tenantQuotas.dropLast.length = g.tenantQuotas.length - 1 := length_dropLast
    refine {
      length_fair := ?_
      length_shared := ?_
      length_pools := ?_
      length_limits := length_set.trans hs.length_limits
      spare := hs.spare_set (fun _ => rfl) fun j hj hne => ?_
      quotas_le := ?_
      distinct := ?_
      fair_le := fun i share hshare => hs.fair_le i share (getElem?_of_dropLast hshare)
      shared_le := fun i share hshare => hs.shared_le i share (getElem?_of_dropLast hshare)
      pools_le := fun i floors hfloors => hs.pools_le i floors (getElem?_of_dropLast hfloors)
      system_le := hs.system_le }
    · rw [length_dropLast, length_dropLast, hs.length_fair]
    · rw [length_dropLast, length_dropLast, hs.length_shared]
    · rw [length_dropLast, length_dropLast, hs.length_pools]
    · rw [hlast] at hj
      omega
    · have hle := hs.quotas_le
      dsimp only
      omega
    · exact hs.distinct.sublist ((dropLast_sublist _).map _)
  · exact hs

end Changes

structure Fresh (inner : GovernorInner) (tenants : Nat) (s : GovernorState) : Prop where
  tenants_le : tenants ≤ maxTenantQuotas
  maximum_le : inner.maximumOutstanding.1 ≤ maxOutstandingReservations
  fair : Fair inner s
  topology : TopologySound inner tenants s
  empty : ∀ a, balance s a = 0
  sizes : UsageSizes tenants s
  records : s.grantRecords = List.replicate inner.maximumOutstanding.1 none
  freeSlots : s.freeSlots = List.range inner.maximumOutstanding.1
  signals : s.slotSignals = List.replicate inner.maximumOutstanding.1 .free
  words : s.pendingWords = List.replicate ((inner.maximumOutstanding.1 + 63) / 64) 0
  opened : s.lifecycle = .opened ∧ s.pendingFence = false
  counters : s.nextOperationGeneration.1 = 1 ∧ s.rejectionCounts = fun _ => Unsigned.zero 64
  enrolled : s.pendingTenant = none
  limits : ∀ (i : Nat) quota, s.tenantQuotas[i]? = some quota → s.tenantLimits[i]? = some quota.limits

theorem getD_replicate {α : Type} (n i : Nat) (a : α) : (List.replicate n a).getD i a = a := by
  rw [getD_eq_getElem?_getD, getElem?_replicate]
  split <;> rfl

theorem Unsigned.wrap_of_lt {w n : Nat} (h : n < 2 ^ w) : (Unsigned.wrap w n).1 = n := Nat.mod_eq_of_lt h

theorem foldlM_checkedAdd_value {f : α → ResourceAmounts} {xs : List α} {start total : ResourceAmounts}
    (h : xs.foldlM (fun sum x => sum.checkedAdd (f x)) start = some total) (d : ResourceDimension) :
    total.value d = start.value d + (xs.map fun x => (f x).value d).sum := by
  induction xs generalizing start with
  | nil =>
    cases h
    rfl
  | cons x xs ih =>
    obtain ⟨next, hnext, h⟩ := Option.bind_eq_some_iff.mp h
    have hstep := checkedAdd_eq_some_iff.mp hnext d
    rw [ih h]
    simp only [map_cons, sum_cons]
    omega

theorem protectedSum_value {pools : RecoveryPoolCapacities} {sum : ResourceAmounts}
    (h : pools.protectedSum = some sum) (d : ResourceDimension) :
    sum.value d = kindSum fun k => (pools.get k).value d := by
  rw [foldlM_checkedAdd_value h]
  exact Nat.zero_add _

theorem derive_ok {policy : OrdinaryPoolPolicy} {ordinary : ResourceAmounts} {pools : PoolCapacities}
    (h : policy.derive ordinary = .ok pools) (d : ResourceDimension) :
    poolSum (fun p => pools.value p d) = ordinary.value d := by
  obtain ⟨parts, hparts, h⟩ := bind_ok h
  obtain ⟨shared, hshared, h⟩ := bind_ok h
  obtain ⟨_, _, h⟩ := bind_ok h
  cases h
  obtain ⟨first, hfirst, hparts⟩ := Option.bind_eq_some_iff.mp (orFail_eq_ok_iff.mp hparts)
  obtain ⟨second, hsecond, hthird⟩ := Option.bind_eq_some_iff.mp hparts
  have h₁ := checkedAdd_eq_some_iff.mp hfirst d
  have h₂ := checkedAdd_eq_some_iff.mp hsecond d
  have h₃ := checkedAdd_eq_some_iff.mp hthird d
  have h₄ := checkedSub_eq_some_iff.mp (orFail_eq_ok_iff.mp hshared) d
  simp only [poolSum, Listed.all, map_cons, map_nil, sum_cons, sum_nil, PoolCapacities.value]
  omega

theorem configure_ok {input : GovernorSetupInput} {inner : GovernorInner} {s : GovernorState}
    (hquotas : input.policy.tenantQuotas.length ≤ input.cardinality.tenantQuotas)
    (h : configure input = .ok (inner, s)) :
    Fresh inner input.cardinality.tenantQuotas s ∧ s.tenantQuotas = input.policy.tenantQuotas ∧
      inner.totalCeiling = input.totalCeiling ∧ inner.ordinaryCeiling = input.ordinaryCeiling ∧
      inner.poolCapacities = input.poolCapacities ∧
      inner.recoveryPoolCapacities = input.recoveryPoolCapacities ∧ ∀ d, inner.recoverySharedCapacity.value d +
        kindSum (fun k => (inner.recoveryPoolCapacities.get k).value d) = inner.totalCeiling.value d := by
  obtain ⟨weight, hweight, h⟩ := bind_ok h
  obtain ⟨fair, hfair, h⟩ := bind_ok h
  obtain ⟨protectedSum, hprot, h⟩ := bind_ok h
  obtain ⟨sharedCapacity, hshared, h⟩ := bind_ok h
  obtain ⟨sharedFair, hsharedFair, h⟩ := bind_ok h
  obtain ⟨_, _, h⟩ := bind_ok h
  obtain ⟨poolFair, hpoolFair, h⟩ := bind_ok h
  obtain ⟨system, hsystem, h⟩ := bind_ok h
  obtain ⟨_, hprogress, h⟩ := bind_ok h
  obtain ⟨_, _, h⟩ := bind_ok h
  have hslots := input.cardinality.outstanding_bounded
  simp only [maxOutstandingReservations] at hslots
  have hwrap := Unsigned.wrap_of_lt (w := 32) (n := input.cardinality.outstandingReservations) (by omega)
  cases h
  have hfairness : Fair _ _ := .of_derived ⟨input.authority, input.bootstrapOverhead,
    input.totalCeiling, input.ordinaryCeiling, input.policy.principalQuota,
    Unsigned.wrap 32 input.cardinality.outstandingReservations, input.poolCapacities,
    input.recoveryPoolCapacities, sharedCapacity, input.diskThresholds⟩ hweight hfair hsharedFair
    hpoolFair hsystem hprogress (limitTable input.cardinality.tenantQuotas input.policy.tenantQuotas)
  refine ⟨?_, rfl, rfl, rfl, rfl, rfl, fun d => ?_⟩
  · refine {
      tenants_le := input.cardinality.tenants_bounded.2
      maximum_le := ?_
      fair := hfairness
      topology := hfairness.topologySound ?_ ?_ hquotas input.policy.distinct
      empty := ?_
      sizes := ⟨length_replicate, length_replicate, length_replicate, length_replicate, length_replicate⟩
      records := by rw [hwrap]
      freeSlots := by rw [hwrap]
      signals := by rw [hwrap]
      words := by rw [hwrap]
      opened := ⟨rfl, rfl⟩
      counters := ⟨rfl, rfl⟩
      enrolled := rfl
      limits := ?_ }
    · rw [hwrap, maxOutstandingReservations]
      omega
    · rw [limitTable, length_map, length_range]
    · intro i limits hi hlimits
      rw [limitTable, getElem?_map] at hlimits
      obtain ⟨k, hk, rfl⟩ := Option.map_eq_some_iff.mp hlimits
      obtain ⟨_, rfl⟩ := List.getElem?_eq_some_iff.mp hk
      rw [getElem_range, getElem?_eq_none hi]
      rfl
    · intro a
      cases a <;> simp only [balance, getD_replicate] <;> rfl
    · intro i quota hquota
      obtain ⟨hlt, _⟩ := List.getElem?_eq_some_iff.mp hquota
      simp only [limitTable, getElem?_map, getElem?_range (Nat.lt_of_lt_of_le hlt hquotas), Option.map_some]
      rw [hquota]
      rfl
  · rw [← protectedSum_value (orFail_eq_ok_iff.mp hprot)]
    exact checkedSub_eq_some_iff.mp (orFail_eq_ok_iff.mp hshared) d

theorem establish_ok {sizes : BootstrapSizes} {authority : Nat} {inventory : ResourceInventory}
    {policy : GovernorPolicy} {recoveryPools : RecoveryPoolCapacities} {inner : GovernorInner}
    {s : GovernorState} (h : establish sizes authority inventory policy recoveryPools = .ok (inner, s)) :
    Partitions inner ∧ Fresh inner inventory.cardinality.tenantQuotas s ∧ s.tenantQuotas = policy.tenantQuotas := by
  obtain ⟨_, hquotas, h⟩ := bind_ok h
  obtain ⟨overhead, _, h⟩ := bind_ok h
  obtain ⟨workCeiling, _, h⟩ := bind_ok h
  obtain ⟨ordinaryCeiling, hord, h⟩ := bind_ok h
  obtain ⟨_, _, h⟩ := bind_ok h
  obtain ⟨_, _, h⟩ := bind_ok h
  obtain ⟨pools, hpools, h⟩ := bind_ok h
  obtain ⟨protectedSum, hprot, h⟩ := bind_ok h
  obtain ⟨_, hreserve, h⟩ := bind_ok h
  obtain ⟨hfresh, hpolicy, htotal, hceiling, hpool, hrecov, hshared⟩ :=
    configure_ok (demand_eq_ok_iff.mp hquotas) h
  refine ⟨⟨fun d => ?_, hshared, fun d => ?_⟩, hfresh, hpolicy⟩
  · rw [hpool, hceiling]
    exact derive_ok hpools d
  · have h₁ := checkedSub_eq_some_iff.mp (orFail_eq_ok_iff.mp hord) d
    have h₂ := demand_eq_ok_iff.mp hreserve d
    have h₃ := protectedSum_value (orFail_eq_ok_iff.mp hprot) d
    rw [hceiling, htotal, hrecov]
    dsimp only
    omega

namespace Fresh

variable {inner : GovernorInner} {tenants : Nat} {s : GovernorState}

variable (h : Fresh inner tenants s)
include h

theorem pendingBit_eq (slot : Nat) : pendingBit s.pendingWords slot = false := by
  unfold pendingBit
  rw [h.words, getD_replicate]
  exact BitVec.getLsbD_zero

theorem sound : Sound inner tenants s where
  tenants_le := h.tenants_le
  maximum_le := h.maximum_le
  sizes := h.sizes
  length_records := by rw [h.records, length_replicate]
  slots := by
    refine ⟨?_, ?_, fun i => ?_, ?_, fun slot hset => ?_⟩
    · rw [h.records, h.freeSlots]
      exact .initial _
    · rw [h.signals, h.records, length_replicate, length_replicate]
    · rw [h.signals, h.records, getElem?_replicate, getElem?_replicate]
      split <;> simp
    · rw [h.words, h.records, length_replicate, length_replicate]
    · rw [h.pendingBit_eq] at hset
      cases hset
  families := by
    rw [h.records]
    exact .initial _ _
  formed i record hentry := by
    rw [h.records, entry_replicate_none] at hentry
    cases hentry
  balanced a := by
    rw [h.empty, h.records, tally_replicate_none]

theorem handles : HandlesSound inner s [] := by
  refine .initial h.pendingBit_eq fun slot => ?_
  rw [h.records, entry_replicate_none]

theorem ceilings : Ceilings inner s.toAccountingState := by
  constructor <;> intros <;> simp only [h.empty] <;> exact Nat.zero_le _

end Fresh

def GovernorState.tenancy (s : GovernorState) : TenantQuotaSuccessor × Option TenantId :=
  (s, s.pendingTenant)

def GovernorState.calmed (s s' : GovernorState) : GovernorState :=
  { s with
    toTenantQuotaSuccessor := s'.toTenantQuotaSuccessor
    pendingTenant := s'.pendingTenant
    rejectionCounts := s'.rejectionCounts
    nextOperationGeneration := s'.nextOperationGeneration
    diskPressure := s'.diskPressure
    usableDiskBytes := s'.usableDiskBytes
    pressureTransitionCount := s'.pressureTransitionCount
    lifecycle := s'.lifecycle
    hasPendingReleases := s'.hasPendingReleases
    pendingFence := s'.pendingFence }

/-- The ledger and the accounts stay as they are; no hint is lost and no fence is lifted. -/
structure Calm (s s' : GovernorState) : Prop where
  frame : s' = s.calmed s'
  next_le : s.nextOperationGeneration.1 ≤ s'.nextOperationGeneration.1
  hint : s.hasPendingReleases → s'.hasPendingReleases
  opened : s'.lifecycle ≠ .fenced → s.lifecycle ≠ .fenced

theorem Families.mono {records : List (Option GrantRecord)} {next next' : U64}
    (h : Families records next) (hnext : next.1 ≤ next'.1) : Families records next' :=
  ⟨h.rooted, h.counted, h.retained, fun j g accepting count hj =>
    Nat.lt_of_lt_of_le (h.fresh j g accepting count hj) hnext⟩

namespace Calm

variable {s t u : GovernorState} {inner : GovernorInner} {tenants : Nat} {handles : List Handle}

theorem refl (s : GovernorState) : Calm s s := ⟨rfl, Nat.le_refl _, id, id⟩

variable (h : Calm s t)
include h

theorem trans (h' : Calm t u) : Calm s u := by
  have hframe := h'.frame
  rw [h.frame] at hframe
  exact ⟨hframe, Nat.le_trans h.next_le h'.next_le, fun hset => h'.hint (h.hint hset),
    fun hopen => h.opened (h'.opened hopen)⟩

theorem records_eq : t.grantRecords = s.grantRecords := congrArg (·.grantRecords) h.frame

theorem signals_eq : t.slotSignals = s.slotSignals := congrArg (·.slotSignals) h.frame

theorem words_eq : t.pendingWords = s.pendingWords := congrArg (·.pendingWords) h.frame

theorem balance_eq (a : Account) : balance t a = balance s a := by
  rw [h.frame]
  rfl

theorem sound (hs : Sound inner tenants s) : Sound inner tenants t := by
  have hnext := h.next_le
  have hsizes := hs.sizes
  have hslots := hs.slots
  rw [h.frame]
  exact ⟨hs.tenants_le, hs.maximum_le, ⟨hsizes.ordinary, hsizes.recovery, hsizes.recoveryPools,
    hsizes.pools, hsizes.outstanding⟩, hs.length_records, ⟨hslots.partitioned, hslots.length_signals,
    hslots.free_iff, hslots.length_words, hslots.pending⟩, hs.families.mono hnext, hs.formed, hs.balanced⟩

theorem keptAt (slot : Nat) : KeptAt slot s t := by
  intro q hq _
  rw [h.records_eq, h.signals_eq]
  exact ⟨q, hq, .inl rfl, rfl⟩

theorem handlesSound (hs : HandlesSound inner s handles) : HandlesSound inner t handles := by
  refine hs.transport (fun j x _ _ => h.keptAt _) (fun slot hset => ?_) (fun ht => ⟨h.opened ht, ?_⟩)
    h.next_le
  · rw [h.words_eq] at hset
    exact h.hint (hs.hinted slot hset)
  · intro slot hlive
    rw [h.records_eq] at hlive
    rw [h.words_eq]
    exact ⟨hlive, fun hset => hset⟩

omit h

theorem fence (s : GovernorState) : Calm s s.fence := ⟨rfl, Nat.le_refl _, id, fun h => absurd rfl h⟩

theorem takeFence (s : GovernorState) : Calm s (takeFence s) := by
  unfold Governor.takeFence
  split
  · exact ⟨rfl, Nat.le_refl _, id, fun h => absurd rfl h⟩
  · exact .refl s

theorem recordRefusal (failure : AdmissionFailure) (s : GovernorState) : Calm s (recordRefusal failure s) := by
  unfold Governor.recordRefusal
  split
  · exact .refl s
  · split
    · exact ⟨rfl, Nat.le_refl _, id, id⟩
    · exact .fence s

theorem recordResizeRefusal (failure : ResizeFailure) (s : GovernorState) :
    Calm s (recordResizeRefusal failure s) := by
  unfold Governor.recordResizeRefusal
  split
  · exact .recordRefusal _ s
  · exact .refl s

end Calm

theorem Undisturbed.calm {s s' : GovernorState} (h : Undisturbed s s') : Calm s s' := by
  cases h with
  | same => exact .refl s
  | fenced => exact .fence s
  | spent hnext => exact ⟨rfl, hnext, id, fun h => absurd rfl h⟩

/-- The state after the lock is taken: what was dropped is released, and a fence left behind is put up. -/
structure Locked (inner : GovernorInner) (tenants : Nat) (handles : List Handle) (s t : GovernorState) :
    Prop where
  sound : Sound inner tenants t
  handlesSound : HandlesSound inner t handles
  clear : ∀ slot, pendingBit t.pendingWords slot = false
  balance_le : ∀ a, balance t a ≤ balance s a
  frame : t = { (s.adopt t).adoptSlots t with
    pendingWords := t.pendingWords
    hasPendingReleases := false
    lifecycle := if s.pendingFence then .fenced else s.lifecycle
    pendingFence := false }

namespace Locked

variable {inner : GovernorInner} {tenants : Nat} {handles : List Handle} {s t : GovernorState}

theorem tenancy_eq (h : Locked inner tenants handles s t) : t.tenancy = s.tenancy :=
  congrArg (·.tenancy) h.frame

theorem topology_eq (h : Locked inner tenants handles s t) :
    t.toTenantQuotaSuccessor = s.toTenantQuotaSuccessor := congrArg Prod.fst h.tenancy_eq

end Locked

theorem takeFence_frame (s : GovernorState) :
    takeFence s = { s with lifecycle := if s.pendingFence then .fenced else s.lifecycle, pendingFence := false } := by
  obtain ⟨accounting, signals, words, hint, fence⟩ := s
  cases fence <;> rfl

theorem lock_locked {inner : GovernorInner} {tenants : Nat} {handles : List Handle} {s : GovernorState}
    (hs : Sound inner tenants s) (hhandles : HandlesSound inner s handles) :
    Locked inner tenants handles s (lock s) := by
  obtain ⟨slots, t, _, hmem, hdrains, hclear, hlock⟩ := lock_drains hs hhandles.hinted
  rw [hlock]
  have htaken := takeFence_frame t
  have hfence := Calm.takeFence t
  have hframe := hdrains.frame
  have hopened : (takeFence t).lifecycle ≠ .fenced → s.lifecycle ≠ .fenced := by
    intro hopen
    rw [htaken] at hopen
    have hlife : t.lifecycle = s.lifecycle := congrArg (·.lifecycle) hframe
    split at hopen
    · exact absurd rfl hopen
    · rw [← hlife]
      exact hopen
  refine ⟨hfence.sound (hdrains.sound hs.unhinted), ?_, fun slot => ?_, fun a => ?_, ?_⟩
  · refine hhandles.transport (fun j x hx hactive => ?_) (fun slot hset => ?_)
      (fun hopen => ⟨hopened hopen, fun slot ⟨q, hq, hlive⟩ => ?_⟩) ?_
    · refine KeptAt.trans (fun q hq hlive => ?_) (hfence.keptAt _)
      obtain ⟨record, howned⟩ := hhandles.owned j x hx hactive
      refine hdrains.kept (fun hmark => ?_) hq hlive
      have hsignal := (hs.slots.pending _ ((hmem _).mp hmark)).1
      rw [howned.active] at hsignal
      cases hsignal
    · rw [hfence.words_eq, hclear] at hset
      cases hset
    · rw [hfence.records_eq] at hq
      obtain ⟨hmark, q', hq', hcount⟩ := hdrains.known hq hlive
      exact ⟨⟨q', hq', hcount.isReleased_eq.symm.trans hlive⟩,
        fun hset => absurd ((hmem slot).mpr hset) hmark⟩
    · refine Nat.le_trans (Nat.le_of_eq ?_) hfence.next_le
      rw [hframe]
      rfl
  · rw [hfence.words_eq]
    exact hclear slot
  · rw [hfence.balance_eq]
    exact hdrains.balance_le a
  · rw [htaken, hframe]
    rfl

end Positron.Governor
