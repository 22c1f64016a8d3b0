import Positron.Governor.GrantLedger

/-! A release whose charge the accounts cover takes exactly its load off every account, and nothing can stop it. How the
slot of the grant is given up, and what of the ledger that leaves alone. -/

namespace Positron.Governor
open MachineInt Triples ResourceAmounts Slots GrantRecord GovernorState RecoveryPoolUsage PoolCapacities

section Rules

variable {ε α β : Type} {s : GovernorState} {report : GovernorState → ε} {R : β → GovernorState → Prop}
  {E : ε → GovernorState → Prop}
variable {f : α → EStateM ε GovernorState β} {o : Option α}

theorem bind_orFence (hsome : ∀ a, o = some a → Triple (· = s) (f a) R E)
    (hnone : o = none → E (report s.fence) s.fence) : Triple (· = s) (orFence report o >>= f) R E := by
  rintro _ rfl
  cases o with
  | some a => exact hsome a rfl _ rfl
  | none => exact hnone rfl

theorem bind_orFence_some {a : α} (ho : o = some a) (h : Triple (· = s) (f a) R E) :
    Triple (· = s) (orFence report o >>= f) R E := by
  apply bind_orFence
  · intro b hb
    rw [ho] at hb
    cases hb
    exact h
  · intro hnone
    rw [ho] at hnone
    cases hnone

theorem bind_orFence_none (h : E (report s.fence) s.fence) : Triple (· = s) (orFence report none >>= f) R E :=
  bind_orFence (fun _ h => by cases h) fun _ => h

theorem run_get_bind (f : GovernorState → EStateM ε GovernorState β) (s : GovernorState) :
    (get >>= f).run s = (f s).run s := rfl

theorem run_modify_bind (g : GovernorState → GovernorState) (f : PUnit → EStateM ε GovernorState β)
    (s : GovernorState) : (modify g >>= f).run s = (f ⟨⟩).run (g s) := rfl

end Rules

structure UsageSizes (tenants : Nat) (s : AccountingState) : Prop where
  ordinary : s.ordinaryTenantUsage.length = tenants
  recovery : s.recoveryTenantUsage.length = tenants
  recoveryPools : s.recoveryTenantPoolUsage.length = tenants
  pools : s.ordinaryTenantPoolUsage.length = tenants
  outstanding : s.tenantOutstanding.length = tenants

def GovernorState.adopt (s t : GovernorState) : GovernorState :=
  { s with
    totalUsage := t.totalUsage
    recoveryUsage := t.recoveryUsage
    ordinaryTenantUsage := t.ordinaryTenantUsage
    recoveryTenantUsage := t.recoveryTenantUsage
    recoveryPoolUsage := t.recoveryPoolUsage
    recoverySystemPoolUsage := t.recoverySystemPoolUsage
    recoveryTenantPoolUsage := t.recoveryTenantPoolUsage
    poolUsage := t.poolUsage
    ordinaryTenantPoolUsage := t.ordinaryTenantPoolUsage
    tenantOutstanding := t.tenantOutstanding
    outstanding := t.outstanding
    outstandingOrdinary := t.outstandingOrdinary
    outstandingRecovery := t.outstandingRecovery
    outstandingUninterruptible := t.outstandingUninterruptible
    classCounts := t.classCounts }

/-- Only the accounts change, by what is taken off and what is added. -/
structure Reaccounted (s t : GovernorState) (minus plus : Account → Nat) : Prop where
  frame : t = s.adopt t
  sizes : ∀ tenants, UsageSizes tenants s → UsageSizes tenants t
  moved : ∀ a, balance t a + minus a = balance s a + plus a

section Commits

variable {s : GovernorState}

theorem length_setTenant {α : Type} (table : List α) (i : Option Nat) (value : Option α) :
    (setTenant table i value).length = table.length := by
  unfold setTenant
  split
  · exact List.length_set
  · rfl

theorem OrdinaryShift.reaccounted {c : OrdinaryCommit} {minus plus : OrdinaryShare}
    (h : OrdinaryShift c s minus plus) :
    Reaccounted s (commitOrdinary c s) (ordinaryLoad c.tenantIndex c.cls minus)
      (ordinaryLoad c.tenantIndex c.cls plus) where
  frame := rfl
  sizes _ hs := ⟨List.length_set.trans hs.ordinary, hs.recovery, hs.recoveryPools,
    List.length_set.trans hs.pools, List.length_set.trans hs.outstanding⟩
  moved := balance_commitOrdinary h

theorem RecoveryShift.reaccounted {c : RecoveryCommit} {minus plus : RecoveryShare}
    (h : RecoveryShift c s minus plus) :
    Reaccounted s (commitRecovery c s) (recoveryLoad c.tenantIndex minus) (recoveryLoad c.tenantIndex plus) where
  frame := rfl
  sizes _ hs := ⟨hs.ordinary, (length_setTenant _ _ _).trans hs.recovery,
    (length_setTenant _ _ _).trans hs.recoveryPools, hs.pools,
    (length_setTenant _ _ _).trans hs.outstanding⟩
  moved := balance_commitRecovery h

end Commits

theorem checkedSub_one {count : U32} (h : 1 ≤ count.1) :
    ∃ less, count.checkedSub (Unsigned.wrap 32 1) = some less :=
  (Unsigned.checkedSub_of_le h).imp fun _ => And.left

theorem succ_of_checkedSub {count less : U32} (h : count.checkedSub (Unsigned.wrap 32 1) = some less) :
    less.1 + 1 = count.1 := by
  obtain ⟨hle, hval⟩ := Unsigned.checkedSub_eq_some_iff.mp h
  exact hval ▸ Nat.sub_add_cancel hle

theorem le_of_charged {c : Prop} [Decidable c] {amount held : Nat} (hc : c) (h : (if c then amount else 0) ≤ held) :
    amount ≤ held := by
  rwa [if_pos hc] at h

theorem exists_getElem? {α : Type} {table : List α} {i n : Nat} (hlen : table.length = n) (hi : i < n)
    (default : α) : table[i]? = some (table.getD i default) := by
  have hlt : i < table.length := hlen ▸ hi
  rw [List.getD_eq_getElem?_getD, List.getElem?_eq_getElem hlt, Option.getD_some]

theorem bind_getElem? {α β : Type} {table : List α} {i n : Nat} (hlen : table.length = n) (hi : i < n)
    {default : α} {f : α → Option β} {b : β} (h : f (table.getD i default) = some b) :
    (table[i]? >>= f) = some b := by
  rw [exists_getElem? hlen hi default]
  exact h

section Components

variable {s : GovernorState} {tenants : Nat} {amounts : ResourceAmounts}

/-- Whether a release reports corruption: it does so in a fenced governor, after it is done. -/
def releaseVerdict (s : GovernorState) : Except GovernorFailure ReleaseOutcome :=
  if s.lifecycle = .fenced then .error .internalFenced else .ok .released

/-- The subtractions that take ordinary work off the accounts, and the commit they lead to. -/
structure OrdinaryTaken (s : AccountingState) (charge : PoolCharge) (amounts : ResourceAmounts)
    (c : OrdinaryCommit) : Prop where
  total : s.totalUsage.checkedSub amounts = some c.totalCandidate
  tenant : (s.ordinaryTenantUsage[c.tenantIndex]? >>= (·.checkedSub amounts)) = some c.tenantCandidate
  pool : s.poolUsage.checkedSub charge.capacities = some c.poolCandidate
  tenantPool : (s.ordinaryTenantPoolUsage[c.tenantIndex]? >>= (·.checkedSub charge.capacities)) =
    some c.tenantPoolCandidate
  outstanding : s.outstanding.checkedSub (Unsigned.wrap 32 1) = some c.outstanding
  ordinaryCount : s.outstandingOrdinary.checkedSub (Unsigned.wrap 32 1) = some c.ordinaryCount
  classCount : (s.classCounts c.cls).checkedSub (Unsigned.wrap 32 1) = some c.classCount
  tenantCount : (s.tenantOutstanding[c.tenantIndex]? >>= (·.checkedSub (Unsigned.wrap 32 1))) =
    some c.tenantCount

theorem exists_ordinaryTaken {i : Nat} {cls : WorkClass} {charge : PoolCharge} (hsizes : UsageSizes tenants s)
    (hi : i < tenants) (hload : ∀ a, ordinaryLoad i cls (charge.share amounts 1) a ≤ balance s a) :
    ∃ c, c.tenantIndex = i ∧ c.cls = cls ∧ OrdinaryTaken s charge amounts c := by
  obtain ⟨total, htotal⟩ := checkedSub_of_le fun d => hload (.total d)
  obtain ⟨outstanding, houtst⟩ := checkedSub_one (hload .outstanding)
  obtain ⟨ordinary, hord⟩ := checkedSub_one (hload .ordinaryCount)
  obtain ⟨classCount, hclass⟩ := checkedSub_one (le_of_charged rfl (hload (.classCount cls)))
  obtain ⟨tenant, htenant⟩ := checkedSub_of_le fun d =>
    le_of_charged rfl (hload (.ordinaryTenant i d))
  obtain ⟨tenantPool, htenantPool⟩ := checkedSub_of_le fun p d =>
    le_of_charged rfl (hload (.tenantPool i p d))
  obtain ⟨pool, hpool⟩ := checkedSub_of_le fun p d => hload (.pool p d)
  obtain ⟨tenantCount, htenantCount⟩ := checkedSub_one (le_of_charged rfl (hload (.tenantCount i)))
  exact ⟨⟨i, cls, total, tenant, pool, tenantPool, outstanding, ordinary, classCount, tenantCount⟩, rfl, rfl,
    htotal, bind_getElem? hsizes.ordinary hi htenant, hpool, bind_getElem? hsizes.pools hi htenantPool,
    houtst, hord, hclass, bind_getElem? hsizes.outstanding hi htenantCount⟩

namespace OrdinaryTaken

variable {charge : PoolCharge} {c : OrdinaryCommit} (h : OrdinaryTaken s charge amounts c)
include h

theorem shift : OrdinaryShift c s (charge.share amounts 1) .none := by
  obtain ⟨usage, husage, htenant⟩ := Option.bind_eq_some_iff.mp h.tenant
  obtain ⟨pools, hpools, htenantPool⟩ := Option.bind_eq_some_iff.mp h.tenantPool
  obtain ⟨count, hcount, htenantCount⟩ := Option.bind_eq_some_iff.mp h.tenantCount
  exact {
    total := checkedSub_eq_some_iff.mp h.total
    tenant := ⟨usage, husage, checkedSub_eq_some_iff.mp htenant⟩
    pool := checkedSub_eq_some_iff.mp h.pool
    tenantPool := ⟨pools, hpools, checkedSub_eq_some_iff.mp htenantPool⟩
    outstanding := succ_of_checkedSub h.outstanding
    ordinaryCount := succ_of_checkedSub h.ordinaryCount
    classCount := succ_of_checkedSub h.classCount
    tenantCount := ⟨count, hcount, succ_of_checkedSub htenantCount⟩ }

theorem reaccounted : Reaccounted s (commitOrdinary c s)
    (ordinaryLoad c.tenantIndex c.cls (charge.share amounts 1)) fun _ => 0 := by
  rw [← funext fun a => ordinaryLoad_none c.tenantIndex c.cls a]
  exact h.shift.reaccounted

theorem release : (releaseComponents ⟨.ordinary c.tenantIndex, some charge, none⟩ c.cls true none amounts).run s =
    .ok (releaseVerdict s) (commitOrdinary c s) := by
  simp only [releaseComponents, releaseUsage, releaseOrdinaryUsage, discount, discountTenant, run_get_bind,
    run_modify_bind, bind_assoc, bind_map_left, pure_bind, orFence, h.total, h.outstanding,
    h.classCount, h.ordinaryCount, h.tenant, h.pool, h.tenantPool, h.tenantCount, ChargeAttribution.tenantIndex,
    if_true, Bool.not_true, Bool.false_eq_true, if_false, Option.any_none]
  rfl

end OrdinaryTaken

def uninterruptibleLoad (charge : RecoveryPoolCharge) : Nat :=
  if (GrantKind.recovery charge.kind).isUninterruptible then 1 else 0

/-- The subtractions that take recovery work off the accounts, and the commit they lead to. -/
structure RecoveryTaken (s : AccountingState) (charge : RecoveryPoolCharge) (amounts : ResourceAmounts)
    (c : RecoveryCommit) : Prop where
  total : s.totalUsage.checkedSub amounts = some c.totalCandidate
  recovery : s.recoveryUsage.checkedSub amounts = some c.recoveryCandidate
  tenant : tenantUsageWithout s c.tenantIndex amounts = some c.tenantCandidate
  pool : s.recoveryPoolUsage.checkedSub charge = some c.poolCandidate
  scope : (scopeUsage s c.tenantIndex >>= (·.checkedSub charge)) = some c.scopeCandidate
  outstanding : s.outstanding.checkedSub (Unsigned.wrap 32 1) = some c.outstanding
  recoveryCount : s.outstandingRecovery.checkedSub (Unsigned.wrap 32 1) = some c.recoveryCount
  classCount : (s.classCounts .durabilityRecovery).checkedSub (Unsigned.wrap 32 1) = some c.classCount
  tenantCount : tenantCountWithout s c.tenantIndex = some c.tenantCount
  uninterruptible : (if (some charge.kind).any (·.retainsCapacityOnResizeFailure) then
    some <$> s.outstandingUninterruptible.checkedSub (Unsigned.wrap 32 1) else some none) =
      some c.uninterruptibleCount

theorem exists_recoveryTaken {i : Option Nat} {charge : RecoveryPoolCharge} (hsizes : UsageSizes tenants s)
    (hi : ∀ j, i = some j → j < tenants)
    (hload : ∀ a, recoveryLoad i (charge.share amounts 1 (uninterruptibleLoad charge)) a ≤ balance s a) :
    ∃ c, c.tenantIndex = i ∧ RecoveryTaken s charge amounts c := by
  obtain ⟨total, htotal⟩ := checkedSub_of_le fun d => hload (.total d)
  obtain ⟨recovery, hrecov⟩ := checkedSub_of_le fun d => hload (.recovery d)
  obtain ⟨outstanding, houtst⟩ := checkedSub_one (hload .outstanding)
  obtain ⟨count, hcount⟩ := checkedSub_one (hload .recoveryCount)
  obtain ⟨classCount, hclass⟩ := checkedSub_one (hload (.classCount .durabilityRecovery))
  obtain ⟨pool, hpool⟩ := checkedSub_of_le charge
    (fun d => hload (.recoveryShared d)) fun d => le_of_charged rfl (hload (.recoveryProtected charge.kind d))
  obtain ⟨uninterruptible, hunint⟩ : ∃ count,
      (if (some charge.kind).any (·.retainsCapacityOnResizeFailure) then
      some <$> s.outstandingUninterruptible.checkedSub (Unsigned.wrap 32 1) else some none) = some count := by
    split
    · rename_i hkind
      obtain ⟨less, hless⟩ := checkedSub_one (le_of_charged hkind (hload .uninterruptibleCount))
      exact ⟨some less, congrArg (Option.map some) hless⟩
    · exact ⟨none, rfl⟩
  obtain ⟨tenant, scope, tenantCount, htenant, hscope, htenantCount⟩ : ∃ tenant scope tenantCount,
      tenantUsageWithout s i amounts = some tenant ∧ (scopeUsage s i >>= (·.checkedSub charge)) = some scope ∧
        tenantCountWithout s i = some tenantCount := by
    cases i with
    | none =>
      obtain ⟨scope, hscope⟩ := checkedSub_of_le charge
        (fun d => hload (.systemShared d)) fun d => le_of_charged rfl (hload (.systemProtected charge.kind d))
      exact ⟨none, scope, none, rfl, hscope, rfl⟩
    | some j =>
      obtain ⟨tenant, htenant⟩ := checkedSub_of_le fun d =>
        le_of_charged rfl (hload (.recoveryTenant j d))
      obtain ⟨scope, hscope⟩ := checkedSub_of_le charge
        (fun d => le_of_charged rfl (hload (.tenantShared j d))) fun d =>
          le_of_charged rfl (le_of_charged rfl (hload (.tenantProtected j charge.kind d)))
      obtain ⟨less, hless⟩ := checkedSub_one (le_of_charged rfl (hload (.tenantCount j)))
      exact ⟨some tenant, scope, some less,
        congrArg (Option.map some) (bind_getElem? hsizes.recovery (hi j rfl) htenant),
        bind_getElem? hsizes.recoveryPools (hi j rfl) hscope,
        congrArg (Option.map some) (bind_getElem? hsizes.outstanding (hi j rfl) hless)⟩
  exact ⟨⟨i, total, recovery, tenant, pool, scope, outstanding, count, classCount, tenantCount, uninterruptible⟩,
    rfl, htotal, hrecov, htenant, hpool, hscope, houtst, hcount, hclass, htenantCount, hunint⟩

theorem TenantShift.taken {α : Type} {f : α → Nat} {table : List α} {i : Option Nat} {candidate : Option α}
    {less : α → Option α} {minus : Nat} (hless : ∀ old new, less old = some new → f new + minus = f old)
    (h : ∀ j, i = some j → some <$> (table[j]? >>= less) = some candidate) :
    TenantShift f table i candidate minus 0 := by
  intro j hj
  obtain ⟨new, hnew, hcand⟩ := Option.map_eq_some_iff.mp (h j hj)
  obtain ⟨old, hold, hmoved⟩ := Option.bind_eq_some_iff.mp hnew
  exact ⟨old, new, hold, hcand.symm, hless old new hmoved⟩

namespace RecoveryTaken

variable {charge : RecoveryPoolCharge} {c : RecoveryCommit} (h : RecoveryTaken s charge amounts c)
include h

theorem shift : RecoveryShift c s (charge.share amounts 1 (uninterruptibleLoad charge)) .none := by
  have hpool := checkedSub_eq_some h.pool
  obtain ⟨held, hheld, hscope⟩ := Option.bind_eq_some_iff.mp h.scope
  have hscope := checkedSub_eq_some hscope
  exact {
    total := checkedSub_eq_some_iff.mp h.total
    recovery := checkedSub_eq_some_iff.mp h.recovery
    tenant := fun d => by
      refine .taken (fun _ _ hsub => checkedSub_eq_some_iff.mp hsub d) fun j hj => ?_
      have htenant := h.tenant
      rw [hj] at htenant
      exact htenant
    shared := fun d => (hpool d).1
    protectedPart := fun k d => (hpool d).2 k
    scope := ⟨held, hheld, fun d => (hscope d).1, fun k d => (hscope d).2 k⟩
    outstanding := succ_of_checkedSub h.outstanding
    recoveryCount := succ_of_checkedSub h.recoveryCount
    classCount := succ_of_checkedSub h.classCount
    tenantCount := by
      refine .taken (fun _ _ => succ_of_checkedSub) fun j hj => ?_
      have htenantCount := h.tenantCount
      rw [hj] at htenantCount
      exact htenantCount
    uninterruptible := by
      have hcount := h.uninterruptible
      split at hcount
      · rename_i hkind
        have hload : uninterruptibleLoad charge = 1 := if_pos hkind
        obtain ⟨less, hless, hval⟩ := Option.map_eq_some_iff.mp hcount
        rw [hload, ← hval]
        exact succ_of_checkedSub hless
      · rename_i hkind
        have hload : uninterruptibleLoad charge = 0 := if_neg hkind
        rw [hload, ← Option.some.inj hcount]
        rfl }

theorem reaccounted : Reaccounted s (commitRecovery c s)
    (recoveryLoad c.tenantIndex (charge.share amounts 1 (uninterruptibleLoad charge))) fun _ => 0 := by
  rw [← funext fun a => recoveryLoad_none c.tenantIndex a]
  exact h.shift.reaccounted

theorem release : (releaseComponents ⟨.recovery c.tenantIndex, none, some charge⟩ .durabilityRecovery false
    (some charge.kind) amounts).run s = .ok (releaseVerdict s) (commitRecovery c s) := by
  have hcount : discount true s.outstandingRecovery = pure (some c.recoveryCount) := by
    simp only [discount, if_true, h.recoveryCount, orFence, map_pure]
  have hdiscount : discount ((some charge.kind).any (·.retainsCapacityOnResizeFailure))
      s.outstandingUninterruptible = pure c.uninterruptibleCount := by
    have hcount := h.uninterruptible
    unfold discount
    split at hcount
    · rename_i hkind
      obtain ⟨less, hless, hval⟩ := Option.map_eq_some_iff.mp hcount
      rw [if_pos hkind, hless, ← hval]
      rfl
    · rename_i hkind
      rw [if_neg hkind, ← Option.some.inj hcount]
  have hord : discount false s.outstandingOrdinary = pure none := rfl
  have htenant := h.tenant
  have hscope := h.scope
  have htenantCount := h.tenantCount
  cases hi : c.tenantIndex with
  | none =>
    rw [hi] at hscope htenantCount
    have hscope : s.recoverySystemPoolUsage.checkedSub charge = _ := hscope
    simp only [releaseComponents, releaseUsage, releaseRecoveryUsage, releaseScopeUsage, discountTenant,
      ChargeAttribution.tenantIndex, run_get_bind, run_modify_bind, bind_assoc, pure_bind, orFence, Bool.not_false,
      h.total, h.outstanding, h.classCount, hord, hcount, h.recovery, h.pool, hscope, hdiscount]
    simp only [commitRecovery, hi, ← Option.some.inj htenantCount]
    rfl
  | some j =>
    rw [hi] at htenant hscope htenantCount
    obtain ⟨usage, husage, htenant⟩ := Option.map_eq_some_iff.mp htenant
    obtain ⟨less, hless, htenantCount⟩ := Option.map_eq_some_iff.mp htenantCount
    have hscope : (s.recoveryTenantPoolUsage[j]? >>= _) = _ := hscope
    simp only [releaseComponents, releaseUsage, releaseRecoveryUsage, releaseScopeUsage, discountTenant,
      ChargeAttribution.tenantIndex, run_get_bind, run_modify_bind, bind_assoc, bind_map_left, pure_bind, orFence,
      Bool.not_false, h.total, h.outstanding, h.classCount, hord, hcount, h.recovery, h.pool, hscope,
      hdiscount, husage, hless]
    simp only [commitRecovery, hi, ← htenant, ← htenantCount]
    rfl

end RecoveryTaken

theorem releaseComponents_run {owner : ChargeOwner} {kind : GrantKind} (hfits : owner.Fits tenants kind amounts)
    (hsizes : UsageSizes tenants s) (hload : ∀ a, owner.load kind amounts a ≤ balance s a) :
    ∃ t, Reaccounted s t (owner.load kind amounts) (fun _ => 0) ∧
      (releaseComponents owner kind.workClass kind.isOrdinary kind.recoveryKind amounts).run s =
        .ok (releaseVerdict s) t := by
  rcases hfits with ⟨work, i, charge, rfl, rfl, hi, _, _⟩ | ⟨i, charge, rfl, rfl, hi, _⟩
  · obtain ⟨c, rfl, hcls, htaken⟩ := exists_ordinaryTaken hsizes hi hload
    have hmoves := htaken.reaccounted
    have hrun := htaken.release
    rw [hcls] at hmoves hrun
    exact ⟨_, hmoves, hrun⟩
  · obtain ⟨c, rfl, htaken⟩ := exists_recoveryTaken hsizes hi hload
    exact ⟨_, htaken.reaccounted, htaken.release⟩

end Components

/-- The four ways in which a released grant gives up its slot. -/
inductive Settles (slot : Nat) (record : GrantRecord) (t : GovernorState) : GovernorState → Prop
  | leaves (hchild : ∀ rootSlot g, record.operation ≠ some (.child rootSlot g))
      (hroot : ∀ g accepting count, record.operation = some (.root g accepting count) → count.1 = 0) :
      Settles slot record t (t.freed slot)
  | retained {g : U64} {accepting : Bool} {count : U16}
      (hop : record.operation = some (.root g accepting count)) (hcount : count.1 ≠ 0) :
      Settles slot record t (t.put slot { record with
        amounts := .zero, shared := .zero, operation := some (.root g false count) })
  | child {rootSlot : Nat} {g : U64} {root : GrantRecord} {accepting : Bool} {count remaining : U16}
      (hop : record.operation = some (.child rootSlot g)) (hroot : entry t.grantRecords rootSlot = some root)
      (hrootOp : root.operation = some (.root g accepting count)) (hcount : remaining.1 + 1 = count.1)
      (hstays : accepting = false → 0 < remaining.1) :
      Settles slot record t ((t.freed slot).put rootSlot
        { root with operation := some (.root g accepting remaining) })
  | last {rootSlot : Nat} {g : U64} {root : GrantRecord} {count : U16}
      (hop : record.operation = some (.child rootSlot g)) (hroot : entry t.grantRecords rootSlot = some root)
      (hrootOp : root.operation = some (.root g false count)) (hcount : count.1 = 1) :
      Settles slot record t ((t.freed slot).freed rootSlot)

/-- Every other grant that is not released stays as it is, up to a count of children. -/
structure KeepsOthers (slot : Nat) (t t' : GovernorState) : Prop where
  kept : ∀ (j : Nat) (q : GrantRecord), j ≠ slot → entry t.grantRecords j = some q → q.isReleased = false →
    ∃ q', entry t'.grantRecords j = some q' ∧ q.Recounts q' ∧ t'.slotSignals[j]? = t.slotSignals[j]?
  known : ∀ (j : Nat) (q' : GrantRecord), j ≠ slot → entry t'.grantRecords j = some q' →
    q'.isReleased = false → ∃ q, entry t.grantRecords j = some q ∧ q.Recounts q'

section Recounted

variable {i slot : Nat} {q q' : GrantRecord} {t u : GovernorState}

theorem KeepsOthers.of_ne (hentry : ∀ j, j ≠ slot → entry u.grantRecords j = entry t.grantRecords j)
    (hsignal : ∀ j, j ≠ slot → u.slotSignals[j]? = t.slotSignals[j]?) : KeepsOthers slot t u :=
  ⟨fun j q hj hq _ => ⟨q, (hentry j hj).trans hq, .inl rfl, hsignal j hj⟩,
    fun j q' hj hq' _ => ⟨q', (hentry j hj).symm.trans hq', .inl rfl⟩⟩

variable (hq : entry u.grantRecords i = some q) (hcount : q.Recounts q')
include hq hcount

theorem KeepsOthers.recount (h : KeepsOthers slot t u) : KeepsOthers slot t (u.put i q') := by
  constructor
  · intro j p hj hp hlive
    obtain ⟨p', hp', hcount', hsignal⟩ := h.kept j p hj hp hlive
    rw [put, entry_set (lt_of_entry hq)]
    split
    · rename_i heq
      subst heq
      cases hq.symm.trans hp'
      exact ⟨q', rfl, hcount'.trans hcount, hsignal⟩
    · exact ⟨p', hp', hcount', hsignal⟩
  · intro j p' hj hp' hlive
    rw [put, entry_set (lt_of_entry hq)] at hp'
    split at hp'
    · rename_i heq
      subst heq
      cases hp'
      obtain ⟨p, hp, hcount'⟩ := h.known _ q hj hq (hcount.isReleased_eq.symm.trans hlive)
      exact ⟨p, hp, hcount'.trans hcount⟩
    · exact h.known j p' hj hp' hlive

theorem recount_formed {tenants : Nat} (hformed : ∀ j p, entry u.grantRecords j = some p → p.Formed tenants) :
    ∀ j p, entry (u.put i q').grantRecords j = some p → p.Formed tenants := by
  intro j p hp
  rw [put, entry_set (lt_of_entry hq)] at hp
  split at hp
  · cases hp
    exact hcount.formed (hformed i q hq)
  · exact hformed j p hp

theorem recount_tally (a : Account) :
    tally (load a) (u.put i q').grantRecords = tally (load a) u.grantRecords := by
  have hset := tally_set_some (load a) hq (some q')
  rw [Option.elim_some, hcount.load_eq] at hset
  exact Nat.add_right_cancel hset

end Recounted

def GovernorState.adoptSlots (s t : GovernorState) : GovernorState :=
  { s with grantRecords := t.grantRecords, freeSlots := t.freeSlots, slotSignals := t.slotSignals }

namespace Settles

variable {slot : Nat} {record : GrantRecord} {t t' : GovernorState} {tenants : Nat}

variable (h : Settles slot record t t')
include h

theorem frame : t' = t.adoptSlots t' := by
  cases h <;> rfl

variable {q : GrantRecord} {i j : Nat}

omit h in
theorem ne_of_ops {g g' : U64} {accepting : Bool} {count : U16}
    (hi : entry t.grantRecords i = some record) (hop : record.operation = some (.child j g))
    (hj : entry t.grantRecords j = some q) (hq : q.operation = some (.root g' accepting count)) : i ≠ j := by
  rintro rfl
  rw [hi] at hj
  cases hj
  rw [hop] at hq
  cases hq

omit h in
theorem entry_freed_of_ne (hne : i ≠ j) : entry (t.freed i).grantRecords j = entry t.grantRecords j :=
  entry_set_ne hne none

variable (hentry : entry t.grantRecords slot = some record)
include hentry

theorem slotsSound (hsound : SlotsSound t) (hbit : pendingBit t.pendingWords slot = false) : SlotsSound t' := by
  cases h with
  | leaves => exact hsound.freed hentry hbit
  | retained => exact hsound.put hentry fun hset => by rw [hbit] at hset; cases hset
  | child hop hroot hrootOp hcount hstays =>
    have hne := ne_of_ops hentry hop hroot hrootOp
    have hroot' := (entry_freed_of_ne hne).trans hroot
    refine (hsound.freed hentry hbit).put hroot' fun hset => ?_
    obtain ⟨_, q, hq, hlive⟩ := hsound.pending _ hset
    rw [hroot] at hq
    cases hq
    rw [← hlive]
    exact GrantRecord.Recounts.isReleased_eq (.inr ⟨_, _, _, _, hrootOp, rfl⟩)
  | last hop hroot hrootOp hcount =>
    have hne := ne_of_ops hentry hop hroot hrootOp
    have hroot' := (entry_freed_of_ne hne).trans hroot
    refine (hsound.freed hentry hbit).freed hroot' ?_
    by_contra hset
    obtain ⟨_, q, hq, hlive⟩ := hsound.pending _ (Bool.eq_true_of_not_eq_false hset)
    rw [hroot] at hq
    cases hq
    rw [isReleased, hrootOp] at hlive
    cases hlive

theorem families (hfams : Families t.grantRecords t.nextOperationGeneration) :
    Families t'.grantRecords t'.nextOperationGeneration := by
  have hlt := lt_of_entry hentry
  have hat := operationAt_of_entry hentry
  cases h with
  | leaves hchild hroot =>
    refine hfams.write hlt (Nat.le_refl _) ?_ (fun _ _ => by simp) ?_ fun _ _ _ hop => (nomatch hop)
    · intro rootSlot g
      rw [hat]
      exact hchild rootSlot g
    · intro g hpos
      obtain ⟨j, hj⟩ := exists_child_of_children_pos hpos
      obtain ⟨accepting, count, hop⟩ := hfams.rooted j slot g hj
      have hcount := hfams.counted slot g accepting count hop
      have hzero := hroot g accepting count (hat ▸ hop)
      omega
  | retained hop hcount =>
    rw [hop] at hat
    refine hfams.write hlt (Nat.le_refl _) ?_ ?_ ?_ ?_
    · intro rootSlot g heq
      rw [hat] at heq
      cases heq
    · intro rootSlot g heq
      cases heq
    · intro g' hpos
      obtain ⟨j, hj⟩ := exists_child_of_children_pos hpos
      obtain ⟨accepting, count, hroot⟩ := hfams.rooted j slot g' hj
      rw [hat] at hroot
      cases hroot
      exact ⟨false, _, rfl⟩
    · intro g' accepting count heq
      cases heq
      exact ⟨hfams.counted slot _ _ _ hat, fun _ => Nat.pos_of_ne_zero hcount, hfams.fresh slot _ _ _ hat⟩
  | @child rootSlot g root accepting count remaining hop hroot hrootOp hcount hstays =>
    have hne := ne_of_ops hentry hop hroot hrootOp
    rw [hop] at hat
    have hrootAt := (operationAt_of_entry hroot).trans hrootOp
    refine hfams.recount hlt hne (.inr hat) (.inl rfl) hrootAt (.inl ⟨_, rfl, ?_, hstays⟩)
    have hset := children_set hlt none rootSlot g
    have hcounted := hfams.counted _ _ _ _ hrootAt
    rw [if_pos hat, if_neg (by simp)] at hset
    omega
  | @last rootSlot g root count hop hroot hrootOp hcount =>
    have hne := ne_of_ops hentry hop hroot hrootOp
    rw [hop] at hat
    have hrootAt := (operationAt_of_entry hroot).trans hrootOp
    refine hfams.recount hlt hne (.inr hat) (.inl rfl) hrootAt (.inr ⟨rfl, ?_⟩)
    have hset := children_set hlt none rootSlot g
    have hcounted := hfams.counted _ _ _ _ hrootAt
    rw [if_pos hat, if_neg (by simp)] at hset
    omega

theorem formed (hformed : ∀ i q, entry t.grantRecords i = some q → q.Formed tenants) :
    ∀ i q, entry t'.grantRecords i = some q → q.Formed tenants := by
  have hlt := lt_of_entry hentry
  have hfreed : ∀ i q, entry (t.freed slot).grantRecords i = some q → q.Formed tenants := by
    intro i q hq
    simp only [freed, entry_set hlt] at hq
    split at hq
    · cases hq
    · exact hformed i q hq
  intro i q hq
  cases h with
  | leaves => exact hfreed i q hq
  | @retained g accepting count hop =>
    simp only [put, entry_set hlt] at hq
    split at hq
    · cases hq
      have hrec := hformed slot record hentry
      refine ⟨fun d => Nat.le_refl _, hrec.indexed, fun _ => hrec.operated ?_, fun _ => rfl⟩
      rw [hop]
      rfl
    · exact hformed i q hq
  | @child rootSlot g root accepting count remaining hop hroot hrootOp =>
    have hroot' := (entry_freed_of_ne (ne_of_ops hentry hop hroot hrootOp)).trans hroot
    exact recount_formed hroot' (.inr ⟨_, _, _, _, hrootOp, rfl⟩) hfreed i q hq
  | @last rootSlot g root count hop hroot hrootOp =>
    have hroot' := (entry_freed_of_ne (ne_of_ops hentry hop hroot hrootOp)).trans hroot
    rw [freed, entry_set (lt_of_entry hroot')] at hq
    split at hq
    · cases hq
    · exact hfreed i q hq

omit h hentry in
theorem load_released (h : q.isReleased) (a : Account) : q.load a = 0 :=
  if_pos h

theorem tally_load (a : Account) :
    tally (load a) t'.grantRecords + record.load a = tally (load a) t.grantRecords := by
  have hfreed : tally (load a) (t.freed slot).grantRecords + record.load a =
      tally (load a) t.grantRecords := tally_set_some _ hentry none
  cases h with
  | leaves => exact hfreed
  | @retained g accepting count hop =>
    have hset := tally_set_some (load a) hentry (some { record with
      amounts := .zero, shared := .zero, operation := some (.root g false count) })
    exact hset
  | @child rootSlot g root accepting count remaining hop hroot hrootOp =>
    have hroot' := (entry_freed_of_ne (ne_of_ops hentry hop hroot hrootOp)).trans hroot
    rw [recount_tally hroot' (.inr ⟨_, _, _, _, hrootOp, rfl⟩)]
    exact hfreed
  | @last rootSlot g root count hop hroot hrootOp =>
    have hroot' := (entry_freed_of_ne (ne_of_ops hentry hop hroot hrootOp)).trans hroot
    have hset := tally_set_some (load a) hroot' none
    rw [load_released (by rw [isReleased, hrootOp]), Option.elim_none] at hset
    simp only [freed] at hfreed hset ⊢
    omega

theorem keepsOthers : KeepsOthers slot t t' := by
  have hfreed : ∀ j, j ≠ slot → entry (t.freed slot).grantRecords j = entry t.grantRecords j :=
    fun j hj => entry_freed_of_ne (Ne.symm hj)
  have hsignal : ∀ j, j ≠ slot → (t.freed slot).slotSignals[j]? = t.slotSignals[j]? :=
    fun j hj => List.getElem?_set_ne (Ne.symm hj)
  cases h with
  | leaves => exact .of_ne hfreed hsignal
  | retained => exact .of_ne (fun j hj => entry_set_ne (Ne.symm hj) _) fun _ _ => rfl
  | @child rootSlot g root accepting count remaining hop hroot hrootOp =>
    have hroot' := (entry_freed_of_ne (ne_of_ops hentry hop hroot hrootOp)).trans hroot
    exact (KeepsOthers.of_ne hfreed hsignal).recount hroot' (.inr ⟨_, _, _, _, hrootOp, rfl⟩)
  | @last rootSlot g root count hop hroot hrootOp =>
    have hroot' := (entry_freed_of_ne (ne_of_ops hentry hop hroot hrootOp)).trans hroot
    constructor
    · intro j q hj hq hlive
      have hne : rootSlot ≠ j := by
        rintro rfl
        rw [hroot] at hq
        cases hq
        rw [isReleased, hrootOp] at hlive
        cases hlive
      refine ⟨q, (entry_freed_of_ne hne).trans ((hfreed j hj).trans hq), .inl rfl, ?_⟩
      exact (List.getElem?_set_ne hne).trans (hsignal j hj)
    · intro j q' hj hq' _
      have hne : rootSlot ≠ j := by
        rintro rfl
        rw [freed, entry_set_self (lt_of_entry hroot')] at hq'
        cases hq'
      exact ⟨q', ((entry_freed_of_ne hne).trans (hfreed j hj)).symm.trans hq', .inl rfl⟩

theorem not_live : ¬ LiveAt t'.grantRecords slot := by
  have hlt := lt_of_entry hentry
  have hgone : entry (t.freed slot).grantRecords slot = none := entry_set_self hlt none
  rintro ⟨q, hq, hlive⟩
  cases h with
  | leaves =>
    rw [hgone] at hq
    cases hq
  | retained =>
    rw [put, entry_set_self hlt] at hq
    cases hq
    cases hlive
  | @child rootSlot g root accepting count remaining hop hroot hrootOp =>
    have hne := ne_of_ops hentry hop hroot hrootOp
    rw [put, entry_set_ne (Ne.symm hne), hgone] at hq
    cases hq
  | @last rootSlot g root count hop hroot hrootOp =>
    have hne := ne_of_ops hentry hop hroot hrootOp
    rw [entry_freed_of_ne (Ne.symm hne), hgone] at hq
    cases hq

end Settles

section Runs

variable {ε : Type} {slot : Nat} {record : GrantRecord} {t : GovernorState}

theorem finishOrFence_run (report : GovernorState → ε) (hsound : SlotsSound t)
    (hentry : entry t.grantRecords slot = some record) :
    (finishOrFence report slot).run t = .ok ⟨⟩ (t.freed slot) := by
  unfold finishOrFence
  rw [EStateM.run_bind, hsound.finishSlot_run hentry]
  rfl

theorem decrementRootChild_of_pos {root : GrantRecord} {g : U64} {accepting : Bool} {count : U16}
    (hop : root.operation = some (.root g accepting count)) (hpos : 0 < count.1) :
    ∃ remaining : U16, remaining.1 + 1 = count.1 ∧ root.decrementRootChild =
      some ({ root with operation := some (.root g accepting remaining) },
        !accepting && decide (remaining.1 = 0)) := by
  have hone : (Unsigned.wrap 16 1).1 = 1 := rfl
  unfold decrementRootChild
  rw [hop]
  cases hsub : count.checkedSub (Unsigned.wrap 16 1) with
  | none =>
    rw [Unsigned.checkedSub_eq_none_iff] at hsub
    omega
  | some remaining =>
    obtain ⟨hle, hval⟩ := Unsigned.checkedSub_eq_some_iff.mp hsub
    refine ⟨remaining, by omega, ?_⟩
    simp only [hsub]
    rfl

/-- A sound ledger lets every grant give up its slot. -/
theorem settleSlot_run (hsound : SlotsSound t) (hfams : Families t.grantRecords t.nextOperationGeneration)
    (hentry : entry t.grantRecords slot = some record) (hbit : pendingBit t.pendingWords slot = false) :
    ∃ t', Settles slot record t t' ∧ ∀ {ε : Type} (report : GovernorState → ε),
      (settleSlot report slot record).run t = .ok ⟨⟩ t' := by
  have hat := operationAt_of_entry hentry
  unfold settleSlot
  cases hop : record.operation with
  | none =>
    refine ⟨_, .leaves ?_ ?_, fun report => finishOrFence_run report hsound hentry⟩
    · simp [hop]
    · simp [hop]
  | some operation =>
    cases operation with
    | root g accepting count =>
      by_cases hcount : count.1 = 0
      · simp only [if_pos hcount]
        refine ⟨_, .leaves ?_ ?_, fun report => finishOrFence_run report hsound hentry⟩
        · intro rootSlot g' heq
          rw [hop] at heq
          cases heq
        · intro g' accepting' count' heq
          rw [hop] at heq
          cases heq
          exact hcount
      · simp only [if_neg hcount]
        refine ⟨_, .retained hop hcount, fun report => ?_⟩
        simp only [releasedRoot, hop]
        rfl
    | child rootSlot g =>
      rw [hop] at hat
      obtain ⟨accepting, count, hrootAt⟩ := hfams.rooted slot rootSlot g hat
      obtain ⟨root, hroot, hrootOp⟩ := Option.bind_eq_some_iff.mp hrootAt
      have hne := Settles.ne_of_ops hentry hop hroot hrootOp
      have hpos : 0 < count.1 := by
        rw [hfams.counted rootSlot g accepting count hrootAt]
        exact children_pos hat
      obtain ⟨remaining, hrem, hdecrement⟩ := decrementRootChild_of_pos hrootOp hpos
      have hrootOf : rootOf t rootSlot g = some root := by
        have hrec : t.record rootSlot = some root := hroot
        simp only [rootOf, hrec, Option.filter_some, hrootOp, decide_true, if_true]
      have hfreed := hsound.freed hentry hbit
      have hroot' := (Settles.entry_freed_of_ne hne).trans hroot
      simp only [run_get_bind, hrootOf, orFence, pure_bind, hdecrement]
      simp only [EStateM.run_bind, finishOrFence_run _ hsound hentry]
      by_cases hlast : (!accepting && decide (remaining.1 = 0)) = true
      · simp only [hlast, if_true]
        rw [Bool.and_eq_true, Bool.not_eq_true', decide_eq_true_eq] at hlast
        rw [hlast.1] at hrootOp
        exact ⟨_, .last hop hroot hrootOp (by omega), fun report => finishOrFence_run report hfreed hroot'⟩
      · simp only [hlast]
        refine ⟨_, .child hop hroot hrootOp hrem ?_, fun _ => rfl⟩
        intro haccepting
        rw [haccepting] at hlast
        by_contra hzero
        exact hlast (by simp [Nat.eq_zero_of_not_pos hzero])

end Runs

end Positron.Governor
