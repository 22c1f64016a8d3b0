import Positron.Governor.Machine
import Positron.Lib.Slots

/-! Every aggregate the governor keeps is the balance of an account, and every grant has a load on each account.
The invariant of the grant ledger: roots count their children, and the free list, the signals and the pending
bits agree with the records. Giving up a slot keeps it. -/

namespace Positron.Governor
open MachineInt Slots Option List

inductive Account where
  | total (d : ResourceDimension)
  | recovery (d : ResourceDimension)
  | ordinaryTenant (i : Nat) (d : ResourceDimension)
  | recoveryTenant (i : Nat) (d : ResourceDimension)
  | pool (p : OrdinaryPool) (d : ResourceDimension)
  | tenantPool (i : Nat) (p : OrdinaryPool) (d : ResourceDimension)
  | recoveryShared (d : ResourceDimension)
  | recoveryProtected (k : RecoveryWorkKind) (d : ResourceDimension)
  | systemShared (d : ResourceDimension)
  | systemProtected (k : RecoveryWorkKind) (d : ResourceDimension)
  | tenantShared (i : Nat) (d : ResourceDimension)
  | tenantProtected (i : Nat) (k : RecoveryWorkKind) (d : ResourceDimension)
  | outstanding
  | classCount (cls : WorkClass)
  | tenantCount (i : Nat)
  | ordinaryCount
  | recoveryCount
  | uninterruptibleCount
deriving DecidableEq

def balance (s : AccountingState) : Account → Nat
  | .total d => s.totalUsage.value d
  | .recovery d => s.recoveryUsage.value d
  | .ordinaryTenant i d => (s.ordinaryTenantUsage.getD i .zero).value d
  | .recoveryTenant i d => (s.recoveryTenantUsage.getD i .zero).value d
  | .pool p d => s.poolUsage.value p d
  | .tenantPool i p d => (s.ordinaryTenantPoolUsage.getD i .zero).value p d
  | .recoveryShared d => s.recoveryPoolUsage.shared.value d
  | .recoveryProtected k d => (s.recoveryPoolUsage.protectedPart k).value d
  | .systemShared d => s.recoverySystemPoolUsage.shared.value d
  | .systemProtected k d => (s.recoverySystemPoolUsage.protectedPart k).value d
  | .tenantShared i d => (s.recoveryTenantPoolUsage.getD i .zero).shared.value d
  | .tenantProtected i k d => ((s.recoveryTenantPoolUsage.getD i .zero).protectedPart k).value d
  | .outstanding => s.outstanding.1
  | .classCount cls => (s.classCounts cls).1
  | .tenantCount i => (s.tenantOutstanding.getD i (Unsigned.zero 32)).1
  | .ordinaryCount => s.outstandingOrdinary.1
  | .recoveryCount => s.outstandingRecovery.1
  | .uninterruptibleCount => s.outstandingUninterruptible.1

structure OrdinaryShare where
  amounts : ResourceDimension → Nat
  pools : OrdinaryPool → ResourceDimension → Nat
  count : Nat

structure RecoveryShare where
  amounts : ResourceDimension → Nat
  shared : ResourceDimension → Nat
  protectedPart : RecoveryWorkKind → ResourceDimension → Nat
  count : Nat
  uninterruptible : Nat

def OrdinaryShare.none : OrdinaryShare := ⟨fun _ => 0, fun _ _ => 0, 0⟩

def RecoveryShare.none : RecoveryShare := ⟨fun _ => 0, fun _ => 0, fun _ _ => 0, 0, 0⟩

def ordinaryLoad (i : Nat) (cls : WorkClass) (share : OrdinaryShare) : Account → Nat
  | .total d => share.amounts d
  | .ordinaryTenant j d => if j = i then share.amounts d else 0
  | .pool p d => share.pools p d
  | .tenantPool j p d => if j = i then share.pools p d else 0
  | .outstanding => share.count
  | .ordinaryCount => share.count
  | .classCount c => if c = cls then share.count else 0
  | .tenantCount j => if j = i then share.count else 0
  | _ => 0

def recoveryLoad (i : Option Nat) (share : RecoveryShare) : Account → Nat
  | .total d => share.amounts d
  | .recovery d => share.amounts d
  | .recoveryTenant j d => if i = some j then share.amounts d else 0
  | .recoveryShared d => share.shared d
  | .recoveryProtected k d => share.protectedPart k d
  | .systemShared d => if i = none then share.shared d else 0
  | .systemProtected k d => if i = none then share.protectedPart k d else 0
  | .tenantShared j d => if i = some j then share.shared d else 0
  | .tenantProtected j k d => if i = some j then share.protectedPart k d else 0
  | .outstanding => share.count
  | .recoveryCount => share.count
  | .classCount c => if c = .durabilityRecovery then share.count else 0
  | .tenantCount j => if i = some j then share.count else 0
  | .uninterruptibleCount => share.uninterruptible
  | _ => 0

def PoolCharge.share (charge : PoolCharge) (amounts : ResourceAmounts) (count : Nat) : OrdinaryShare :=
  ⟨amounts.value, charge.capacities.value, count⟩

def RecoveryPoolCharge.share (charge : RecoveryPoolCharge) (amounts : ResourceAmounts) (count : Nat)
    (uninterruptible : Nat) : RecoveryShare :=
  ⟨amounts.value, charge.shared.value,
    fun k d => if k = charge.kind then charge.protectedPart.value d else 0, count, uninterruptible⟩

def ChargeOwner.load (owner : ChargeOwner) (kind : GrantKind) (amounts : ResourceAmounts)
    (a : Account) : Nat :=
  match owner.attribution with
  | .ordinary i => owner.pools.elim 0 fun charge =>
      ordinaryLoad i kind.workClass (charge.share amounts 1) a
  | .recovery i => owner.recoveryPools.elim 0 fun charge =>
      recoveryLoad i (charge.share amounts 1 (if kind.isUninterruptible then 1 else 0)) a

def GrantRecord.isReleased (record : GrantRecord) : Bool :=
  match record.operation with
  | some (.root _ false _) => true
  | _ => false

/-- The load of the grant a record stands for. A released root stands for none. -/
def GrantRecord.load (a : Account) (record : GrantRecord) : Nat :=
  if record.isReleased then 0
  else record.owner.elim 0 fun owner => owner.load record.kind record.amounts a

/-- Every aggregate is the sum over the unreleased grants. -/
def Balanced (s : AccountingState) : Prop :=
  ∀ a, balance s a = tally (GrantRecord.load a) s.grantRecords

theorem ordinaryLoad_none (i : Nat) (cls : WorkClass) (a : Account) : ordinaryLoad i cls .none a = 0 := by
  cases a <;> simp [ordinaryLoad, OrdinaryShare.none]

theorem recoveryLoad_none (i : Option Nat) (a : Account) : recoveryLoad i .none a = 0 := by
  cases a <;> simp [recoveryLoad, RecoveryShare.none]

section Tables

variable {α : Type} {table : List α} {i j : Nat} {old new default : α}

theorem getD_set (h : table[i]? = some old) (new default : α) (j : Nat) :
    (table.set i new).getD j default = if j = i then new else table.getD j default := by
  obtain ⟨hlt, _⟩ := List.getElem?_eq_some_iff.mp h
  rw [List.getD_eq_getElem?_getD, List.getD_eq_getElem?_getD]
  by_cases hij : i = j
  · subst hij
    rw [List.getElem?_set_self hlt, if_pos rfl, Option.getD_some]
  · rw [List.getElem?_set_ne hij, if_neg (Ne.symm hij)]

theorem getD_of_some (h : table[i]? = some old) (default : α) : table.getD i default = old := by
  rw [List.getD_eq_getElem?_getD, h, Option.getD_some]

theorem measure_set {f : α → Nat} {minus plus : Nat} (h : table[i]? = some old)
    (hmoved : f new + minus = f old + plus) (default : α) (j : Nat) :
    f ((table.set i new).getD j default) + (if j = i then minus else 0) =
      f (table.getD j default) + if j = i then plus else 0 := by
  rw [getD_set h]
  split
  · rename_i hji
    rw [hji, getD_of_some h]
    exact hmoved
  · rfl

end Tables

/-- The commit moves every component by what is taken away and what is added. -/
structure OrdinaryShift (c : OrdinaryCommit) (s : AccountingState) (minus plus : OrdinaryShare) :
    Prop where
  total : ∀ d, c.totalCandidate.value d + minus.amounts d = s.totalUsage.value d + plus.amounts d
  tenant : ∃ usage, s.ordinaryTenantUsage[c.tenantIndex]? = some usage ∧
    ∀ d, c.tenantCandidate.value d + minus.amounts d = usage.value d + plus.amounts d
  pool : ∀ p d, c.poolCandidate.value p d + minus.pools p d = s.poolUsage.value p d + plus.pools p d
  tenantPool : ∃ usage, s.ordinaryTenantPoolUsage[c.tenantIndex]? = some usage ∧
    ∀ p d, c.tenantPoolCandidate.value p d + minus.pools p d = usage.value p d + plus.pools p d
  outstanding : c.outstanding.1 + minus.count = s.outstanding.1 + plus.count
  ordinaryCount : c.ordinaryCount.1 + minus.count = s.outstandingOrdinary.1 + plus.count
  classCount : c.classCount.1 + minus.count = (s.classCounts c.cls).1 + plus.count
  tenantCount : ∃ count, s.tenantOutstanding[c.tenantIndex]? = some count ∧
    c.tenantCount.1 + minus.count = count.1 + plus.count

variable {s : GovernorState} {α : Type} {minus plus : RecoveryShare} {c : RecoveryCommit}

theorem balance_commitOrdinary {c : OrdinaryCommit} {minus plus : OrdinaryShare}
    (h : OrdinaryShift c s minus plus) (a : Account) :
    balance (commitOrdinary c s).toAccountingState a + ordinaryLoad c.tenantIndex c.cls minus a =
      balance s a + ordinaryLoad c.tenantIndex c.cls plus a := by
  obtain ⟨tenantUsage, htenant, htenantMoved⟩ := h.tenant
  obtain ⟨poolUsage, hpool, hpoolMoved⟩ := h.tenantPool
  obtain ⟨count, hcount, hcountMoved⟩ := h.tenantCount
  cases a with
  | total d => exact h.total d
  | ordinaryTenant j d => exact measure_set (f := fun u => u.value d) htenant (htenantMoved d) _ j
  | pool p d => exact h.pool p d
  | tenantPool j p d => exact measure_set (f := fun u => u.value p d) hpool (hpoolMoved p d) _ j
  | outstanding => exact h.outstanding
  | ordinaryCount => exact h.ordinaryCount
  | classCount cls =>
    have hmoved := h.classCount
    simp only [balance, commitOrdinary, ordinaryLoad, Function.update_apply]
    split
    · rename_i hcls
      rw [hcls]
      exact hmoved
    · rfl
  | tenantCount j => exact measure_set (f := fun u => u.1) hcount hcountMoved _ j
  | _ => rfl

/-- The entry of a tenant moves; the system has none. -/
def TenantShift {α : Type} (f : α → Nat) (table : List α) (i : Option Nat) (candidate : Option α)
    (minus plus : Nat) : Prop :=
  ∀ j, i = some j → ∃ old new, table[j]? = some old ∧ candidate = some new ∧ f new + minus = f old + plus

theorem TenantShift.system {f : α → Nat} {table : List α} {candidate : Option α}
    {minus plus : Nat} : TenantShift f table none candidate minus plus := fun _ h => (nomatch h)

theorem TenantShift.entry {f : α → Nat} {table : List α} {i : Nat} {old new : α}
    {minus plus : Nat} (hold : table[i]? = some old) (hmoved : f new + minus = f old + plus) :
    TenantShift f table (some i) (some new) minus plus := by
  intro j hj
  cases hj
  exact ⟨old, new, hold, rfl, hmoved⟩

theorem TenantShift.measure {f : α → Nat} {table : List α} {i : Option Nat} {candidate : Option α}
    {minus plus : Nat} (h : TenantShift f table i candidate minus plus) (default : α) (j : Nat) :
    f ((setTenant table i candidate).getD j default) + (if i = some j then minus else 0) =
      f (table.getD j default) + if i = some j then plus else 0 := by
  cases i with
  | none => rfl
  | some index =>
    obtain ⟨old, new, hold, rfl, hmoved⟩ := h index rfl
    simp only [setTenant, Option.some_inj, eq_comm (a := index)]
    exact measure_set hold hmoved default j

structure RecoveryShift (c : RecoveryCommit) (s : AccountingState) (minus plus : RecoveryShare) :
    Prop where
  total : ∀ d, c.totalCandidate.value d + minus.amounts d = s.totalUsage.value d + plus.amounts d
  recovery : ∀ d, c.recoveryCandidate.value d + minus.amounts d = s.recoveryUsage.value d + plus.amounts d
  tenant : ∀ d, TenantShift (fun u => u.value d) s.recoveryTenantUsage c.tenantIndex
    c.tenantCandidate (minus.amounts d) (plus.amounts d)
  shared : ∀ d, c.poolCandidate.shared.value d + minus.shared d =
    s.recoveryPoolUsage.shared.value d + plus.shared d
  protectedPart : ∀ k d, (c.poolCandidate.protectedPart k).value d + minus.protectedPart k d =
    (s.recoveryPoolUsage.protectedPart k).value d + plus.protectedPart k d
  scope : ∃ usage, scopeUsage s c.tenantIndex = some usage ∧
    (∀ d, c.scopeCandidate.shared.value d + minus.shared d = usage.shared.value d + plus.shared d) ∧
    ∀ k d, (c.scopeCandidate.protectedPart k).value d + minus.protectedPart k d =
      (usage.protectedPart k).value d + plus.protectedPart k d
  outstanding : c.outstanding.1 + minus.count = s.outstanding.1 + plus.count
  recoveryCount : c.recoveryCount.1 + minus.count = s.outstandingRecovery.1 + plus.count
  classCount : c.classCount.1 + minus.count = (s.classCounts .durabilityRecovery).1 + plus.count
  tenantCount : TenantShift (fun u => u.1) s.tenantOutstanding c.tenantIndex c.tenantCount minus.count
    plus.count
  uninterruptible : (c.uninterruptibleCount.getD s.outstandingUninterruptible).1 +
    minus.uninterruptible = s.outstandingUninterruptible.1 + plus.uninterruptible

theorem RecoveryShift.tenantScope {s : AccountingState} (h : RecoveryShift c s minus plus) (d : ResourceDimension) :
    TenantShift (fun u => u.shared.value d) s.recoveryTenantPoolUsage c.tenantIndex
        (some c.scopeCandidate) (minus.shared d) (plus.shared d) ∧
      ∀ k, TenantShift (fun u => (u.protectedPart k).value d) s.recoveryTenantPoolUsage c.tenantIndex
        (some c.scopeCandidate) (minus.protectedPart k d) (plus.protectedPart k d) := by
  obtain ⟨usage, husage, hshared, hprot⟩ := h.scope
  constructor
  · intro j hj
    rw [hj] at husage
    exact ⟨usage, c.scopeCandidate, husage, rfl, hshared d⟩
  · intro k j hj
    rw [hj] at husage
    exact ⟨usage, c.scopeCandidate, husage, rfl, hprot k d⟩

theorem balance_commitRecovery (h : RecoveryShift c s minus plus) (a : Account) :
    balance (commitRecovery c s).toAccountingState a + recoveryLoad c.tenantIndex minus a =
      balance s a + recoveryLoad c.tenantIndex plus a := by
  obtain ⟨usage, husage, hshared, hprot⟩ := h.scope
  cases a with
  | total d => exact h.total d
  | recovery d => exact h.recovery d
  | recoveryTenant j d => exact (h.tenant d).measure _ j
  | recoveryShared d => exact h.shared d
  | recoveryProtected k d => exact h.protectedPart k d
  | systemShared | systemProtected =>
    cases hindex : c.tenantIndex with
    | some index => simp [balance, commitRecovery, recoveryLoad, hindex]
    | none =>
      rw [hindex] at husage
      cases husage
      simp only [balance, commitRecovery, recoveryLoad, hindex, Option.isNone_none, if_true]
      first | exact hshared _ | exact hprot _ _
  | tenantShared j d => exact (h.tenantScope d).1.measure _ j
  | tenantProtected j k d => exact ((h.tenantScope d).2 k).measure _ j
  | outstanding => exact h.outstanding
  | recoveryCount => exact h.recoveryCount
  | classCount cls =>
    have hmoved := h.classCount
    simp only [balance, commitRecovery, recoveryLoad, Function.update_apply]
    split
    · rename_i hcls
      rw [hcls]
      exact hmoved
    · rfl
  | tenantCount j => exact h.tenantCount.measure _ j
  | uninterruptibleCount => exact h.uninterruptible
  | _ => rfl

def operationAt (records : List (Option GrantRecord)) (i : Nat) : Option OperationRecord :=
  (entry records i).bind (·.operation)

def childOf (rootSlot : Nat) (generation : U64) (record : GrantRecord) : Nat :=
  if record.operation = some (.child rootSlot generation) then 1 else 0

def children (records : List (Option GrantRecord)) (rootSlot : Nat) (generation : U64) : Nat :=
  tally (childOf rootSlot generation) records

structure Families (records : List (Option GrantRecord)) (next : U64) : Prop where
  rooted : ∀ i rootSlot generation, operationAt records i = some (.child rootSlot generation) →
    ∃ accepting count, operationAt records rootSlot = some (.root generation accepting count)
  counted : ∀ i generation accepting count, operationAt records i = some (.root generation accepting count) →
    count.1 = children records i generation
  retained : ∀ i generation count, operationAt records i = some (.root generation false count) → 0 < count.1
  fresh : ∀ i generation accepting count,
    operationAt records i = some (.root generation accepting count) → generation.1 < next.1

section Writes

variable {records : List (Option GrantRecord)} {i rootSlot : Nat} {generation : U64}

theorem operationAt_set (h : i < records.length) (o : Option GrantRecord) (j : Nat) :
    operationAt (records.set i o) j = if i = j then o.bind (·.operation) else operationAt records j := by
  unfold operationAt
  rw [entry_set h]
  split <;> rfl

theorem operationAt_of_entry {record : GrantRecord} (h : entry records i = some record) :
    operationAt records i = record.operation := by
  rw [operationAt, h, bind_some]

theorem elim_childOf (o : Option GrantRecord) (rootSlot : Nat) (generation : U64) :
    o.elim 0 (childOf rootSlot generation) =
      if o.bind (·.operation) = some (.child rootSlot generation) then 1 else 0 := by
  cases o <;> rfl

theorem children_set (h : i < records.length) (o : Option GrantRecord) (rootSlot : Nat) (generation : U64) :
    children (records.set i o) rootSlot generation +
        (if operationAt records i = some (.child rootSlot generation) then 1 else 0) =
      children records rootSlot generation +
        if o.bind (·.operation) = some (.child rootSlot generation) then 1 else 0 := by
  have hset := tally_set (childOf rootSlot generation) h o
  rw [elim_childOf, elim_childOf] at hset
  exact hset

theorem exists_child_of_children_pos (h : 0 < children records rootSlot generation) :
    ∃ j, operationAt records j = some (.child rootSlot generation) := by
  obtain ⟨j, record, hentry, hweight⟩ := exists_of_tally_pos h
  unfold childOf at hweight
  split at hweight
  · rename_i hop
    exact ⟨j, by rw [operationAt, hentry, bind_some, hop]⟩
  · cases hweight

theorem children_pos (h : operationAt records i = some (.child rootSlot generation)) :
    0 < children records rootSlot generation := by
  obtain ⟨record, hentry, hop⟩ := bind_eq_some_iff.mp h
  have hle := le_tally (childOf rootSlot generation) hentry
  rw [childOf, if_pos hop] at hle
  exact hle

end Writes

namespace Families

variable {records : List (Option GrantRecord)} {next next' : U64}

theorem initial (n : Nat) (next : U64) : Families (List.replicate n none) next := by
  have hnone : ∀ i, operationAt (List.replicate n none) i = none := by
    intro i
    rw [operationAt, entry_replicate_none, bind_none]
  constructor <;> intro i <;> rw [hnone] <;> intros <;> contradiction

variable (h : Families records next)
include h

variable {i : Nat}

theorem children_eq_zero {generation : U64}
    (hi : ∀ accepting count, operationAt records i ≠ some (.root generation accepting count)) :
    children records i generation = 0 := by
  by_contra hne
  obtain ⟨j, hj⟩ := exists_child_of_children_pos (Nat.pos_of_ne_zero hne)
  obtain ⟨accepting, count, hroot⟩ := h.rooted j i generation hj
  exact hi accepting count hroot

theorem write (hi : i < records.length) {o : Option GrantRecord} (hnext : next.1 ≤ next'.1)
    (hold : ∀ rootSlot g, operationAt records i ≠ some (.child rootSlot g))
    (hnew : ∀ rootSlot g, o.bind (·.operation) ≠ some (.child rootSlot g))
    (hkept : ∀ g, 0 < children records i g →
      ∃ accepting count, o.bind (·.operation) = some (.root g accepting count))
    (hroot : ∀ g accepting count, o.bind (·.operation) = some (.root g accepting count) →
      count.1 = children records i g ∧ (accepting = false → 0 < count.1) ∧ g.1 < next'.1) :
    Families (records.set i o) next' := by
  have hkids : ∀ rootSlot g, children (records.set i o) rootSlot g = children records rootSlot g := by
    intro rootSlot g
    have hset := children_set hi o rootSlot g
    rw [if_neg (hold rootSlot g), if_neg (hnew rootSlot g)] at hset
    exact hset
  constructor
  · intro j rootSlot g hj
    rw [operationAt_set hi] at hj ⊢
    split at hj
    · exact absurd hj (hnew rootSlot g)
    · split
      · rename_i heq
        subst heq
        exact hkept g (children_pos hj)
      · exact h.rooted j rootSlot g hj
  · intro j g accepting count hj
    rw [operationAt_set hi] at hj
    rw [hkids]
    split at hj
    · rename_i heq
      exact heq ▸ (hroot g accepting count hj).1
    · exact h.counted j g accepting count hj
  · intro j g count hj
    rw [operationAt_set hi] at hj
    split at hj
    · exact (hroot g false count hj).2.1 rfl
    · exact h.retained j g count hj
  · intro j g accepting count hj
    rw [operationAt_set hi] at hj
    split at hj
    · exact (hroot g accepting count hj).2.2
    · exact Nat.lt_of_lt_of_le (h.fresh j g accepting count hj) hnext

theorem rewrite {record replacement : GrantRecord} (hi : entry records i = some record)
    (hop : replacement.operation = record.operation) : Families (records.set i (some replacement)) next := by
  have hlt := lt_of_entry hi
  have hat := operationAt_of_entry hi
  have hsame : ∀ j, operationAt (records.set i (some replacement)) j = operationAt records j := by
    intro j
    rw [operationAt_set hlt]
    split
    · rename_i heq
      rw [← heq, hat, bind_some, hop]
    · rfl
  have hkids : ∀ rootSlot g,
      children (records.set i (some replacement)) rootSlot g = children records rootSlot g := by
    intro rootSlot g
    have hset := children_set hlt (some replacement) rootSlot g
    rw [hat, bind_some, hop] at hset
    omega
  constructor
  · intro j rootSlot g
    rw [hsame, hsame]
    exact h.rooted j rootSlot g
  · intro j g accepting count
    rw [hsame, hkids]
    exact h.counted j g accepting count
  · intro j g count
    rw [hsame]
    exact h.retained j g count
  · intro j g accepting count
    rw [hsame]
    exact h.fresh j g accepting count

/-- A child comes or goes and its root is recounted, or goes with its last child. -/
theorem recount {i rootSlot : Nat} {g : U64} {accepting : Bool}
    {count : U16} {o q : Option GrantRecord} (hi : i < records.length) (hne : i ≠ rootSlot)
    (hold : operationAt records i = none ∨ operationAt records i = some (.child rootSlot g))
    (hnew : o.bind (·.operation) = none ∨ o.bind (·.operation) = some (.child rootSlot g))
    (hroot : operationAt records rootSlot = some (.root g accepting count))
    (hq : (∃ count', q.bind (·.operation) = some (.root g accepting count') ∧
        count'.1 = children (records.set i o) rootSlot g ∧ (accepting = false → 0 < count'.1)) ∨
      (q.bind (·.operation) = none ∧ children (records.set i o) rootSlot g = 0)) :
    Families ((records.set i o).set rootSlot q) next := by
  have hrootLt : rootSlot < (records.set i o).length := by
    obtain ⟨root, hentry, _⟩ := bind_eq_some_iff.mp hroot
    rw [List.length_set]
    exact lt_of_entry hentry
  have hrootAt : operationAt (records.set i o) rootSlot = some (.root g accepting count) := by
    rw [operationAt_set hi, if_neg hne, hroot]
  have hqChild : ∀ slot g', q.bind (·.operation) ≠ some (.child slot g') := by
    intro slot g' heq
    rcases hq with ⟨count', hop, _⟩ | ⟨hop, _⟩ <;> rw [hop] at heq <;> cases heq
  -- the write to the root does not change how many children any root has
  have hkids : ∀ slot g', children ((records.set i o).set rootSlot q) slot g' =
      children (records.set i o) slot g' := by
    intro slot g'
    have hset := children_set hrootLt q slot g'
    rw [hrootAt, if_neg (hqChild slot g')] at hset
    exact hset
  have hothers : ∀ slot g', ¬ (slot = rootSlot ∧ g' = g) →
      children (records.set i o) slot g' = children records slot g' := by
    intro slot g' hother
    have hset := children_set hi o slot g'
    have hno : ∀ x : Option OperationRecord, x = none ∨ x = some (.child rootSlot g) →
        x ≠ some (.child slot g') := by
      rintro x (rfl | rfl) heq
      · cases heq
      · cases heq
        exact hother ⟨rfl, rfl⟩
    rw [if_neg (hno _ hold), if_neg (hno _ hnew)] at hset
    exact hset
  have hat : ∀ j, operationAt ((records.set i o).set rootSlot q) j =
      if rootSlot = j then q.bind (·.operation) else if i = j then o.bind (·.operation)
      else operationAt records j := by
    intro j
    rw [operationAt_set hrootLt, operationAt_set hi]
  have hnotRoot : ∀ g' accepting' count', o.bind (·.operation) ≠ some (.root g' accepting' count') := by
    intro g' accepting' count' heq
    rcases hnew with hop | hop <;> rw [hop] at heq <;> cases heq
  constructor
  · intro j slot g' hj
    rw [hat] at hj ⊢
    have hparent : (slot = rootSlot ∧ g' = g) ∨ ∃ a c, operationAt records slot = some (.root g' a c) := by
      split at hj
      · exact absurd hj (hqChild slot g')
      · split at hj
        · rcases hnew with hop | hop <;> rw [hop] at hj <;> cases hj
          exact .inl ⟨rfl, rfl⟩
        · exact .inr (h.rooted j slot g' hj)
    have hchild : 0 < children ((records.set i o).set rootSlot q) slot g' := by
      apply children_pos (i := j)
      rw [hat]
      exact hj
    rw [hkids] at hchild
    split
    · rename_i heq
      subst heq
      have hg : g' = g := by
        rcases hparent with ⟨_, hg⟩ | ⟨a, c, hparent⟩
        · exact hg
        · rw [hroot] at hparent
          cases hparent
          rfl
      subst hg
      rcases hq with ⟨count', hop, _⟩ | ⟨_, hzero⟩
      · exact ⟨accepting, count', hop⟩
      · omega
    · rename_i hslot
      rcases hparent with ⟨heq, _⟩ | ⟨a, c, hparent⟩
      · exact absurd heq.symm hslot
      · split
        · rename_i heq
          subst heq
          rcases hold with hop | hop <;> rw [hop] at hparent <;> cases hparent
        · exact ⟨a, c, hparent⟩
  · intro j g' accepting' count' hj
    rw [hat] at hj
    rw [hkids]
    split at hj
    · rename_i heq
      subst heq
      rcases hq with ⟨count'', hop, hcount, _⟩ | ⟨hop, _⟩ <;> rw [hop] at hj <;> cases hj
      exact hcount
    · split at hj
      · exact absurd hj (hnotRoot g' accepting' count')
      · rename_i hslot _
        rw [hothers j g' fun hboth => hslot hboth.1.symm]
        exact h.counted j g' accepting' count' hj
  · intro j g' count' hj
    rw [hat] at hj
    split at hj
    · rcases hq with ⟨count'', hop, _, hpos⟩ | ⟨hop, _⟩ <;> rw [hop] at hj <;> cases hj
      exact hpos rfl
    · split at hj
      · exact absurd hj (hnotRoot g' false count')
      · exact h.retained j g' count' hj
  · intro j g' accepting' count' hj
    rw [hat] at hj
    split at hj
    · rcases hq with ⟨count'', hop, _⟩ | ⟨hop, _⟩ <;> rw [hop] at hj <;> cases hj
      exact h.fresh rootSlot g _ count hroot
    · split at hj
      · exact absurd hj (hnotRoot g' accepting' count')
      · exact h.fresh j g' accepting' count' hj

end Families

/-- A record as admission writes it, for a tenant table of the given size. -/
structure GrantRecord.Formed (tenants : Nat) (record : GrantRecord) : Prop where
  shared_le : ∀ d, record.shared.value d ≤ record.amounts.value d
  indexed : match record.kind with
    | .ordinary _ => record.storedIndex.1 < tenants
    | .recovery _ => record.storedIndex = systemTenantIndex ∨ record.storedIndex.1 < tenants
  operated : record.operation.isSome → record.tenant.isSome ∧ record.principal.isSome ∧ record.kind.isOrdinary
  released : record.isReleased → record.amounts = .zero

def ChargeOwner.Fits (tenants : Nat) (owner : ChargeOwner) (kind : GrantKind)
    (amounts : ResourceAmounts) : Prop :=
  (∃ work i charge, kind = .ordinary work ∧ owner = ⟨.ordinary i, some charge, none⟩ ∧ i < tenants ∧
    OrdinaryPool.forClass work.workClass = some charge.classPool ∧
    ∀ d, charge.shared.value d + charge.protectedPart.value d = amounts.value d) ∨
  ∃ i charge, kind = .recovery charge.kind ∧ owner = ⟨.recovery i, none, some charge⟩ ∧
    (∀ j, i = some j → j < tenants) ∧
    ∀ d, charge.shared.value d + charge.protectedPart.value d = amounts.value d

variable {tenants : Nat}

theorem GrantRecord.tenantIndex_of_lt {record : GrantRecord} (htenants : tenants ≤ maxTenantQuotas)
    (h : record.storedIndex.1 < tenants) : record.tenantIndex = some record.storedIndex.1 := by
  unfold tenantIndex
  rw [if_neg]
  intro hsystem
  rw [hsystem] at h
  simp only [systemTenantIndex, Unsigned.maxValue, maxTenantQuotas] at h htenants
  omega

theorem GrantRecord.Formed.owner_fits {record : GrantRecord}
    (h : record.Formed tenants) (htenants : tenants ≤ maxTenantQuotas) :
    ∃ owner, record.owner = some owner ∧ owner.Fits tenants record.kind record.amounts := by
  obtain ⟨protectedPart, hsub⟩ := ResourceAmounts.checkedSub_of_le h.shared_le
  have hparts := ResourceAmounts.checkedSub_eq_some_iff.mp hsub
  have hindexed := h.indexed
  unfold owner
  rw [hsub]
  cases hkind : record.kind with
  | ordinary kind =>
    rw [hkind] at hindexed
    have hclass : ∃ p, OrdinaryPool.forClass kind.workClass = some p := by cases kind <;> exact ⟨_, rfl⟩
    obtain ⟨classPool, hclass⟩ := hclass
    rw [tenantIndex_of_lt htenants hindexed]
    simp only [hclass]
    refine ⟨_, rfl, Or.inl ⟨kind, _, _, rfl, rfl, hindexed, hclass, ?_⟩⟩
    intro d
    rw [Nat.add_comm]
    exact hparts d
  | recovery kind =>
    rw [hkind] at hindexed
    refine ⟨_, rfl, Or.inr ⟨record.tenantIndex, ⟨kind, record.shared, protectedPart⟩, rfl, rfl, ?_, ?_⟩⟩
    · intro j hj
      rcases hindexed with hsystem | hlt
      · rw [tenantIndex, if_pos hsystem] at hj
        cases hj
      · rw [tenantIndex_of_lt htenants hlt] at hj
        cases hj
        exact hlt
    · intro d
      rw [Nat.add_comm]
      exact hparts d

/-- The same grant, with another number of children. -/
def GrantRecord.Recounts (record recounted : GrantRecord) : Prop :=
  recounted = record ∨ ∃ generation accepting count count',
    record.operation = some (.root generation accepting count) ∧
    recounted = { record with operation := some (.root generation accepting count') }

namespace GrantRecord.Recounts

variable {record recounted : GrantRecord}

variable (h : record.Recounts recounted)
include h

theorem isReleased_eq : recounted.isReleased = record.isReleased := by
  rcases h with rfl | ⟨generation, accepting, count, count', hop, rfl⟩
  · rfl
  · unfold isReleased
    rw [hop]
    cases accepting <;> rfl

theorem trans {again : GrantRecord} (h' : recounted.Recounts again) : record.Recounts again := by
  rcases h with rfl | ⟨generation, accepting, count, count', hop, rfl⟩
  · exact h'
  · rcases h' with rfl | ⟨_, _, _, count'', hop', rfl⟩
    · exact .inr ⟨generation, accepting, count, count', hop, rfl⟩
    · cases hop'
      exact .inr ⟨generation, accepting, count, count'', hop, rfl⟩

theorem owner_eq : recounted.owner = record.owner := by
  rcases h with rfl | ⟨_, _, _, _, _, rfl⟩ <;> rfl

theorem load_eq (a : Account) : recounted.load a = record.load a := by
  unfold load
  rw [h.isReleased_eq]
  rcases h with rfl | ⟨_, _, _, _, _, rfl⟩ <;> rfl

theorem formed {tenants : Nat} (hformed : record.Formed tenants) : recounted.Formed tenants := by
  have hrel := h.isReleased_eq
  rcases h with rfl | ⟨_, _, _, _, hop, rfl⟩
  · exact hformed
  · refine ⟨hformed.shared_le, hformed.indexed, fun _ => hformed.operated ?_, fun h => ?_⟩
    · rw [hop]
      rfl
    · exact hformed.released (hrel.symm.trans h)

end GrantRecord.Recounts

def pendingBit (words : List (BitVec 64)) (slot : Nat) : Bool :=
  (words.getD (slot / 64) 0).getLsbD (slot % 64)

def LiveAt (records : List (Option GrantRecord)) (slot : Nat) : Prop :=
  ∃ record, entry records slot = some record ∧ record.isReleased = false

/-- Free list, signals and pending bits agree with the records. -/
structure SlotsSound (s : GovernorState) : Prop where
  partitioned : Partitioned s.grantRecords s.freeSlots
  length_signals : s.slotSignals.length = s.grantRecords.length
  free_iff : ∀ i : Nat, s.slotSignals[i]? = some .free ↔ s.grantRecords[i]? = some none
  length_words : s.pendingWords.length = (s.grantRecords.length + 63) / 64
  pending : ∀ slot : Nat, pendingBit s.pendingWords slot →
    s.slotSignals[slot]? = some .releasePending ∧ LiveAt s.grantRecords slot

def GovernorState.freed (slot : Nat) (s : GovernorState) : GovernorState :=
  { s with
    grantRecords := s.grantRecords.set slot none
    slotSignals := s.slotSignals.set slot .free
    freeSlots := slot :: s.freeSlots }

def GovernorState.put (slot : Nat) (record : GrantRecord) (s : GovernorState) : GovernorState :=
  { s with grantRecords := s.grantRecords.set slot (some record) }

theorem LiveAt.set_ne {records : List (Option GrantRecord)} {slot j : Nat} (h : LiveAt records j)
    (hne : slot ≠ j) (o : Option GrantRecord) : LiveAt (records.set slot o) j := by
  obtain ⟨record, hentry, hlive⟩ := h
  exact ⟨record, (entry_set_ne hne o).trans hentry, hlive⟩

namespace SlotsSound

variable {s : GovernorState} {slot : Nat} {record : GrantRecord}

theorem signal_ne_free (h : SlotsSound s) (hentry : entry s.grantRecords slot = some record) :
    ∃ signal, s.slotSignals[slot]? = some signal ∧ signal ≠ .free := by
  have hlt : slot < s.slotSignals.length := h.length_signals ▸ lt_of_entry hentry
  refine ⟨s.slotSignals[slot], getElem?_eq_getElem hlt, fun hfree => ?_⟩
  have hempty := (h.free_iff slot).mp (by rw [getElem?_eq_getElem hlt, hfree])
  rw [entry_eq_some_iff.mp hentry] at hempty
  cases hempty

theorem freed (h : SlotsSound s) (hentry : entry s.grantRecords slot = some record)
    (hbit : pendingBit s.pendingWords slot = false) : SlotsSound (s.freed slot) where
  partitioned := h.partitioned.give hentry
  length_signals := by
    simp only [GovernorState.freed, length_set]
    exact h.length_signals
  free_iff i := by
    simp only [GovernorState.freed]
    by_cases hi : slot = i
    · subst hi
      rw [getElem?_set_self (lt_of_entry hentry), getElem?_set_self (h.length_signals ▸ lt_of_entry hentry)]
      exact ⟨fun _ => rfl, fun _ => rfl⟩
    · rw [getElem?_set_ne hi, getElem?_set_ne hi]
      exact h.free_iff i
  length_words := by
    simp only [GovernorState.freed, length_set]
    exact h.length_words
  pending i hi := by
    have hne : slot ≠ i := by
      rintro rfl
      rw [GovernorState.freed, hbit] at hi
      cases hi
    obtain ⟨hsignal, hlive⟩ := h.pending i hi
    exact ⟨(getElem?_set_ne hne).trans hsignal, hlive.set_ne hne none⟩

theorem put (h : SlotsSound s) (hentry : entry s.grantRecords slot = some record) {replacement : GrantRecord}
    (hbit : pendingBit s.pendingWords slot → replacement.isReleased = false) :
    SlotsSound (s.put slot replacement) where
  partitioned := h.partitioned.rewrite hentry replacement
  length_signals := by
    simp only [GovernorState.put, length_set]
    exact h.length_signals
  free_iff i := by
    simp only [GovernorState.put]
    by_cases hi : slot = i
    · subst hi
      rw [getElem?_set_self (lt_of_entry hentry), h.free_iff, entry_eq_some_iff.mp hentry]
      simp
    · rw [getElem?_set_ne hi]
      exact h.free_iff i
  length_words := by
    simp only [GovernorState.put, length_set]
    exact h.length_words
  pending i hi := by
    obtain ⟨hsignal, hlive⟩ := h.pending i hi
    refine ⟨hsignal, ?_⟩
    by_cases hne : slot = i
    · subst hne
      exact ⟨replacement, entry_set_self (lt_of_entry hentry) _, hbit hi⟩
    · exact hlive.set_ne hne _

theorem finishSlot_run (h : SlotsSound s) (hentry : entry s.grantRecords slot = some record)
    (ε : Type) : (finishSlot (ε := ε) slot).run s = .ok true (s.freed slot) := by
  obtain ⟨signal, hsignal, hne⟩ := h.signal_ne_free hentry
  have hsum := h.partitioned.length_add_tally
  have hpos := le_tally (fun _ => 1) hentry
  have hroom : s.freeSlots.length ≠ s.grantRecords.length := by omega
  simp only [finishSlot, EStateM.run, entry_eq_some_iff.mp hentry, hsignal, if_neg hne, if_neg hroom]
  rfl

end SlotsSound

end Positron.Governor
