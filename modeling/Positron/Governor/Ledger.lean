import Positron.Governor.Settlement

/-! The invariant of the accounting state. Draining the pending bits keeps it: each marked grant is released, one after
the other. The parts of every partition of a sound state add up. An admitted grant takes its slot and leaves the rest
of the ledger alone. -/

namespace Positron.Governor
open Slots List Enumeration MachineInt GrantRecord

variable {s t : GovernorState} {minus plus : Account → Nat} {record : GrantRecord}

/-- The ledger is in order and every aggregate is the sum over the unreleased grants. -/
structure Sound (inner : GovernorInner) (tenants : Nat) (s : GovernorState) : Prop where
  tenants_le : tenants ≤ maxTenantQuotas
  maximum_le : inner.maximumOutstanding.1 ≤ maxOutstandingReservations
  sizes : UsageSizes tenants s
  length_records : s.grantRecords.length = inner.maximumOutstanding.1
  slots : SlotsSound s
  families : Families s.grantRecords s.nextOperationGeneration
  formed : ∀ i record, entry s.grantRecords i = some record → record.Formed tenants
  balanced : Balanced s.toAccountingState

/-- A grant is taken off the accounts and gives up its slot. -/
structure Released (slot : Nat) (record : GrantRecord) (s s' : GovernorState) : Prop where
  occupied : entry s.grantRecords slot = some record
  live : record.isReleased = false
  unmarked : pendingBit s.pendingWords slot = false
  settled : ∃ t, Reaccounted s t (fun a => record.load a) (fun _ => 0) ∧ Settles slot record t s'

theorem Reaccounted.records_eq (h : Reaccounted s t minus plus) : t.grantRecords = s.grantRecords :=
  congrArg (·.grantRecords) h.frame

theorem Reaccounted.slotsSound (h : Reaccounted s t minus plus) (hs : SlotsSound s) : SlotsSound t := by
  rw [h.frame]
  exact ⟨hs.partitioned, hs.length_signals, hs.free_iff, hs.length_words, hs.pending⟩

theorem Reaccounted.generation_eq (h : Reaccounted s t minus plus) :
    t.nextOperationGeneration = s.nextOperationGeneration :=
  congrArg (·.nextOperationGeneration) h.frame

namespace Released

variable {slot : Nat} {record : GrantRecord} {s s' : GovernorState} {inner : GovernorInner}
  {tenants : Nat}

variable (h : Released slot record s s')
include h

theorem frame : s' = (s.adopt s').adoptSlots s' := by
  obtain ⟨t, haccts, hsettles⟩ := h.settled
  have hslots := hsettles.frame
  have haccounted := haccts.frame
  rw [hslots, haccounted]
  rfl

theorem moved (a : Account) : balance s' a + record.load a = balance s a := by
  obtain ⟨t, haccts, hsettles⟩ := h.settled
  have hmoved := haccts.moved a
  rw [hsettles.frame]
  exact hmoved

theorem sound (hs : Sound inner tenants s) : Sound inner tenants s' := by
  have hmoved := h.moved
  obtain ⟨t, haccts, hsettles⟩ := h.settled
  have hrecs := haccts.records_eq
  have hentry : entry t.grantRecords slot = some record := hrecs ▸ h.occupied
  have hbit : pendingBit t.pendingWords slot = false := by
    rw [congrArg (·.pendingWords) haccts.frame]
    exact h.unmarked
  have hfams : Families t.grantRecords t.nextOperationGeneration := by
    rw [hrecs, haccts.generation_eq]
    exact hs.families
  refine {
    tenants_le := hs.tenants_le
    maximum_le := hs.maximum_le
    sizes := ?_
    length_records := ?_
    slots := hsettles.slotsSound hentry (haccts.slotsSound hs.slots) hbit
    families := hsettles.families hentry hfams
    formed := hsettles.formed hentry fun i q hq => hs.formed i q (hrecs ▸ hq)
    balanced := ?_ }
  · have hsizes := haccts.sizes tenants hs.sizes
    rw [hsettles.frame]
    exact ⟨hsizes.ordinary, hsizes.recovery, hsizes.recoveryPools, hsizes.pools, hsizes.outstanding⟩
  · have hlen : s'.grantRecords.length = t.grantRecords.length := by
      cases hsettles <;> simp only [GovernorState.freed, GovernorState.put, List.length_set]
    rw [hlen, hrecs]
    exact hs.length_records
  · intro a
    have htally := hsettles.tally_load hentry a
    rw [hrecs] at htally
    have hbalanced := hs.balanced a
    have hmoved := hmoved a
    omega

theorem keepsOthers : KeepsOthers slot s s' := by
  obtain ⟨t, haccts, hsettles⟩ := h.settled
  have hkeeps := hsettles.keepsOthers (haccts.records_eq ▸ h.occupied)
  rw [haccts.frame] at hkeeps
  exact ⟨hkeeps.kept, hkeeps.known⟩

theorem not_live : ¬ LiveAt s'.grantRecords slot := by
  obtain ⟨t, haccts, hsettles⟩ := h.settled
  exact hsettles.not_live (haccts.records_eq ▸ h.occupied)

end Released

variable {inner : GovernorInner} {tenants slot : Nat}

theorem Sound.load_le {s : GovernorState} (hs : Sound inner tenants s)
    (hentry : entry s.grantRecords slot = some record) (a : Account) : record.load a ≤ balance s a := by
  rw [hs.balanced a]
  exact le_tally _ hentry

theorem GrantRecord.load_eq {owner : ChargeOwner} (howner : record.owner = some owner)
    (hlive : record.isReleased = false) (a : Account) : record.load a = owner.load record.kind record.amounts a := by
  unfold load
  rw [howner, hlive]
  rfl

section Release

variable {s t : GovernorState} (hs : Sound inner tenants s) (hentry : entry s.grantRecords slot = some record)
  (hlive : record.isReleased = false) (hbit : pendingBit s.pendingWords slot = false)
include hs hentry hlive hbit

/-- Once its charge is off the accounts, a grant gives up its slot the same way for everyone who asks. -/
theorem Sound.settles {owner : ChargeOwner} (howner : record.owner = some owner)
    (haccts : Reaccounted s t (fun a => record.load a) fun _ => 0)
    (hcomps : (releaseComponents owner record.kind.workClass record.kind.isOrdinary
      record.kind.recoveryKind record.amounts).run s = .ok (releaseVerdict s) t) :
    ∃ s', Released slot record s s' ∧ (releaseSlotLocked slot).run s = .ok (releaseVerdict s) s' ∧
      ∀ {ε : Type} (report : GovernorState → ε), (settleSlot report slot record).run t = .ok ⟨⟩ s' := by
  have hrecs := haccts.records_eq
  have hfams : Families t.grantRecords t.nextOperationGeneration := by
    rw [hrecs, haccts.generation_eq]
    exact hs.families
  have hbit' : pendingBit t.pendingWords slot = false := by
    rw [congrArg (·.pendingWords) haccts.frame]
    exact hbit
  obtain ⟨s', hsettles, hsettle⟩ := settleSlot_run (haccts.slotsSound hs.slots) hfams (hrecs ▸ hentry) hbit'
  refine ⟨s', ⟨hentry, hlive, hbit, t, haccts, hsettles⟩, ?_, hsettle⟩
  have hrec : s.record slot = some record := hentry
  unfold releaseSlotLocked
  simp only [run_get_bind, hrec, howner, orFence, pure_bind]
  rw [EStateM.run_bind, hcomps]
  simp only
  rw [EStateM.run_bind, hsettle]
  rfl

theorem releaseSlotLocked_run :
    ∃ s', Released slot record s s' ∧ (releaseSlotLocked slot).run s = .ok (releaseVerdict s) s' := by
  obtain ⟨owner, howner, hfits⟩ := (hs.formed slot record hentry).owner_fits hs.tenants_le
  have hload := load_eq howner hlive
  obtain ⟨t, haccts, hcomps⟩ := releaseComponents_run hfits hs.sizes fun a => by
    rw [← hload]
    exact hs.load_le hentry a
  rw [← funext hload] at haccts
  obtain ⟨s', hrel, hrun, _⟩ := hs.settles hentry hlive hbit howner haccts hcomps
  exact ⟨s', hrel, hrun⟩

end Release

/-- The grants of the listed slots are released in turn; pending bits may be cleared before any of
them. -/
inductive Drains : List Nat → GovernorState → GovernorState → Prop
  | done (s : GovernorState) : Drains [] s s
  | cleared {slots : List Nat} {s s' : GovernorState} {words : List (BitVec 64)}
      (hlength : words.length = s.pendingWords.length)
      (hbits : ∀ i, pendingBit words i → pendingBit s.pendingWords i)
      (hrest : Drains slots { s with pendingWords := words } s') : Drains slots s s'
  | released {slot : Nat} {slots : List Nat} {record : GrantRecord} {s s₁ s' : GovernorState}
      (hreleased : Released slot record s s₁) (hrest : Drains slots s₁ s') :
      Drains (slot :: slots) s s'

namespace Drains

variable {slots slots' : List Nat} {s s₁ s' : GovernorState} {inner : GovernorInner} {tenants : Nat}

theorem append (h : Drains slots s s₁) (h' : Drains slots' s₁ s') : Drains (slots ++ slots') s s' := by
  induction h with
  | done => exact h'
  | cleared hlength hbits _ ih => exact .cleared hlength hbits (ih h')
  | released hreleased _ ih => exact .released hreleased (ih h')

variable (h : Drains slots s s')
include h

theorem sound (hs : Sound inner tenants s) : Sound inner tenants s' := by
  induction h with
  | done => exact hs
  | cleared hlength hbits _ ih =>
    apply ih
    have hslots := hs.slots
    refine ⟨hs.tenants_le, hs.maximum_le, hs.sizes, hs.length_records, ?_, hs.families, hs.formed, hs.balanced⟩
    exact ⟨hslots.partitioned, hslots.length_signals, hslots.free_iff,
      hlength.trans hslots.length_words, fun i hi => hslots.pending i (hbits i hi)⟩
  | released hreleased _ ih => exact ih (hreleased.sound hs)

theorem balance_le (a : Account) : balance s' a ≤ balance s a := by
  induction h with
  | done => exact Nat.le_refl _
  | cleared _ _ _ ih => exact ih
  | released hreleased _ ih =>
    have hmoved := hreleased.moved a
    omega

theorem frame : s' = { (s.adopt s').adoptSlots s' with pendingWords := s'.pendingWords } := by
  induction h with
  | done => rfl
  | cleared _ _ _ ih => exact ih
  | released hreleased _ ih =>
    rw [hreleased.frame] at ih
    exact ih

theorem kept {j : Nat} {q : GrantRecord} (hj : j ∉ slots) (hq : entry s.grantRecords j = some q)
    (hlive : q.isReleased = false) :
    ∃ q', entry s'.grantRecords j = some q' ∧ q.Recounts q' ∧ s'.slotSignals[j]? = s.slotSignals[j]? := by
  induction h generalizing q with
  | done => exact ⟨q, hq, .inl rfl, rfl⟩
  | cleared _ _ _ ih => exact ih hj hq hlive
  | released hreleased _ ih =>
    rw [mem_cons, not_or] at hj
    obtain ⟨q₁, hq₁, hcount, hsignal⟩ := hreleased.keepsOthers.kept j q hj.1 hq hlive
    obtain ⟨q', hq', hcount', hsignal'⟩ := ih hj.2 hq₁ (hcount.isReleased_eq.trans hlive)
    exact ⟨q', hq', hcount.trans hcount', hsignal'.trans hsignal⟩

theorem known {j : Nat} {q' : GrantRecord} (hq' : entry s'.grantRecords j = some q')
    (hlive : q'.isReleased = false) : j ∉ slots ∧ ∃ q, entry s.grantRecords j = some q ∧ q.Recounts q' := by
  induction h with
  | done => exact ⟨not_mem_nil, q', hq', .inl rfl⟩
  | cleared _ _ _ ih => exact ih hq'
  | @released slot _ _ _ _ _ hreleased _ ih =>
    obtain ⟨hj, q₁, hq₁, hcount⟩ := ih hq'
    have hlive₁ : q₁.isReleased = false := hcount.isReleased_eq.symm.trans hlive
    have hne : j ≠ slot := by
      rintro rfl
      exact hreleased.not_live ⟨q₁, hq₁, hlive₁⟩
    obtain ⟨q, hq, hcount'⟩ := hreleased.keepsOthers.known j q₁ hne hq₁ hlive₁
    refine ⟨?_, q, hq, hcount'.trans hcount⟩
    rw [mem_cons, not_or]
    exact ⟨hne, hj⟩

end Drains

section Loops

variable {s : GovernorState} {inner : GovernorInner} {tenants : Nat}
variable {words : List (BitVec 64)}

def Taken (s : GovernorState) (slots : List Nat) : Prop :=
  slots.Nodup ∧ ∀ slot ∈ slots, s.slotSignals[slot]? = some .releasePending ∧
    LiveAt s.grantRecords slot ∧ pendingBit s.pendingWords slot = false

/-- Releasing the taken slots one by one. The state is sound before each release, and every other
taken slot stays as it was. -/
theorem drainSlots (slots : List Nat) (hs : Sound inner tenants s) (htaken : Taken s slots) :
    Drains slots s (slots.foldl drainSlot s) ∧ (slots.foldl drainSlot s).pendingWords = s.pendingWords := by
  induction slots generalizing s with
  | nil => exact ⟨.done s, rfl⟩
  | cons slot slots ih =>
    obtain ⟨hnodup, hslots⟩ := htaken
    obtain ⟨hfresh, hnodup⟩ := nodup_cons.mp hnodup
    obtain ⟨hsignal, ⟨record, hentry, hlive⟩, hbit⟩ := hslots slot mem_cons_self
    obtain ⟨s₁, hreleased, hrun⟩ := releaseSlotLocked_run hs hentry hlive hbit
    have hdrain : drainSlot s slot = s₁ := by
      unfold drainSlot
      rw [if_pos hsignal, hrun]
    have hwords := congrArg (·.pendingWords) hreleased.frame
    have htaken₁ : Taken s₁ slots := by
      refine ⟨hnodup, fun j hj => ?_⟩
      obtain ⟨hsignalj, ⟨q, hq, hliveq⟩, hbitj⟩ := hslots j (mem_cons_of_mem _ hj)
      have hne : j ≠ slot := by
        rintro rfl
        exact hfresh hj
      obtain ⟨q', hq', hcount, hsame⟩ := hreleased.keepsOthers.kept j q hne hq hliveq
      refine ⟨hsame.trans hsignalj, ⟨q', hq', hcount.isReleased_eq.trans hliveq⟩, ?_⟩
      rw [hwords]
      exact hbitj
    obtain ⟨hdrains, hsame⟩ := ih (hreleased.sound hs) htaken₁
    rw [foldl_cons, hdrain]
    exact ⟨.released hreleased hdrains, hsame.trans hwords⟩

variable {word : BitVec 64} {w : Nat}

theorem mem_setBits {bit : Nat} : bit ∈ setBits word ↔ bit < 64 ∧ word.getLsbD bit := by
  unfold setBits
  rw [mem_filter, mem_range]

theorem pendingBit_clear (h : words[w]? = some word) (slot : Nat) :
    pendingBit (words.set w 0) slot = if slot / 64 = w then false else pendingBit words slot := by
  unfold pendingBit
  rw [getD_set h]
  split
  · exact BitVec.getLsbD_zero
  · rfl

theorem mem_wordSlots (h : words[w]? = some word) (slot : Nat) :
    slot ∈ (setBits word).map (w * 64 + ·) ↔ slot / 64 = w ∧ pendingBit words slot := by
  rw [mem_map]
  unfold pendingBit
  constructor
  · rintro ⟨bit, hbit, rfl⟩
    obtain ⟨hlt, hset⟩ := mem_setBits.mp hbit
    have hdiv : (w * 64 + bit) / 64 = w := by omega
    have hmod : (w * 64 + bit) % 64 = bit := by omega
    refine ⟨hdiv, ?_⟩
    rw [hdiv, hmod, getD_of_some h]
    exact hset
  · rintro ⟨hdiv, hset⟩
    rw [hdiv, getD_of_some h] at hset
    exact ⟨slot % 64, mem_setBits.mpr ⟨Nat.mod_lt _ (by omega), hset⟩, by omega⟩

theorem drainWord_drains (hs : Sound inner tenants s) (w : Nat) : ∃ slots, slots.Nodup ∧
      (∀ slot, slot ∈ slots ↔ slot / 64 = w ∧ pendingBit s.pendingWords slot) ∧
      Drains slots s (drainWord s w) ∧
      ∀ slot, pendingBit (drainWord s w).pendingWords slot =
        if slot / 64 = w then false else pendingBit s.pendingWords slot := by
  unfold drainWord
  cases hword : s.pendingWords[w]? with
  | none =>
    have hzero : ∀ slot, slot / 64 = w → pendingBit s.pendingWords slot = false := by
      rintro slot rfl
      unfold pendingBit
      rw [getD_eq_getElem?_getD, hword]
      exact BitVec.getLsbD_zero
    refine ⟨[], nodup_nil, fun slot => ?_, .done s, fun slot => ?_⟩
    · refine ⟨fun h => absurd h not_mem_nil, fun ⟨hdiv, hset⟩ => ?_⟩
      rw [hzero slot hdiv] at hset
      cases hset
    · dsimp only
      split
      · rename_i hdiv
        exact hzero slot hdiv
      · rfl
  | some word =>
    have hbits := pendingBit_clear hword
    have hmem := mem_wordSlots hword
    have hnodup : ((setBits word).map (w * 64 + ·)).Nodup :=
      (nodup_range.filter _).map fun _ _ h => Nat.add_left_cancel h
    have hcleared : ∀ {slots s'}, Drains slots { s with pendingWords := s.pendingWords.set w 0 } s' →
        Drains slots s s' := by
      intro slots s' h
      refine .cleared length_set (fun i hi => ?_) h
      rw [hbits] at hi
      split at hi
      · cases hi
      · exact hi
    have hsound : Sound inner tenants { s with pendingWords := s.pendingWords.set w 0 } :=
      (hcleared (.done _)).sound hs
    obtain ⟨hdrains, hsame⟩ := drainSlots ((setBits word).map (w * 64 + ·)) hsound ⟨hnodup, fun slot hslot => by
      obtain ⟨hdiv, hset⟩ := (hmem slot).mp hslot
      obtain ⟨hsignal, hlive⟩ := hs.slots.pending slot hset
      exact ⟨hsignal, hlive, by rw [hbits, if_pos hdiv]⟩⟩
    simp only [← foldl_map (f := (w * 64 + ·)) (g := drainSlot)]
    refine ⟨_, hnodup, hmem, hcleared hdrains, fun slot => ?_⟩
    rw [hsame]
    exact hbits slot

theorem drainWords_drains (ws : List Nat) (hs : Sound inner tenants s) : ∃ slots, slots.Nodup ∧
      (∀ slot, slot ∈ slots ↔ slot / 64 ∈ ws ∧ pendingBit s.pendingWords slot) ∧
      Drains slots s (ws.foldl drainWord s) ∧
      ∀ slot, pendingBit (ws.foldl drainWord s).pendingWords slot =
        if slot / 64 ∈ ws then false else pendingBit s.pendingWords slot := by
  induction ws generalizing s with
  | nil => exact ⟨[], nodup_nil, fun slot => by simp, .done s, fun slot => rfl⟩
  | cons w ws ih =>
    obtain ⟨slots₁, hnodup₁, hmem₁, hdrains₁, hbits₁⟩ := drainWord_drains hs w
    obtain ⟨slots₂, hnodup₂, hmem₂, hdrains₂, hbits₂⟩ := ih (hdrains₁.sound hs)
    refine ⟨slots₁ ++ slots₂, ?_, fun slot => ?_, hdrains₁.append hdrains₂, fun slot => ?_⟩
    · refine nodup_append.mpr ⟨hnodup₁, hnodup₂, ?_⟩
      rintro slot hslot₁ _ hslot₂ rfl
      have hset := ((hmem₂ slot).mp hslot₂).2
      rw [hbits₁, if_pos ((hmem₁ slot).mp hslot₁).1] at hset
      cases hset
    · rw [mem_append, hmem₁, hmem₂, hbits₁]
      by_cases hw : slot / 64 = w <;> simp [hw]
    · rw [foldl_cons, hbits₂, hbits₁]
      by_cases hw : slot / 64 = w <;> simp [hw]

theorem lt_of_pendingBit {slot : Nat} (h : pendingBit words slot) : slot / 64 < words.length := by
  by_contra hge
  unfold pendingBit at h
  rw [getD_eq_getElem?_getD, getElem?_eq_none (Nat.not_lt.mp hge)] at h
  cases (BitVec.getLsbD_zero).symm.trans h

theorem Sound.unhinted (hs : Sound inner tenants s) : Sound inner tenants { s with hasPendingReleases := false } := by
  have hslots := hs.slots
  exact ⟨hs.tenants_le, hs.maximum_le, hs.sizes, hs.length_records, ⟨hslots.partitioned,
    hslots.length_signals, hslots.free_iff, hslots.length_words, hslots.pending⟩, hs.families, hs.formed,
    hs.balanced⟩

/-- Taking the lock releases exactly the marked grants, when no mark is without its hint. -/
theorem lock_drains (hs : Sound inner tenants s)
    (hhint : ∀ slot, pendingBit s.pendingWords slot → s.hasPendingReleases) :
    ∃ slots s₁, slots.Nodup ∧ (∀ slot, slot ∈ slots ↔ pendingBit s.pendingWords slot) ∧
      Drains slots { s with hasPendingReleases := false } s₁ ∧
      (∀ slot, pendingBit s₁.pendingWords slot = false) ∧ lock s = takeFence s₁ := by
  unfold lock drainPending
  by_cases hscan : (s.hasPendingReleases || s.pendingFence)
  · obtain ⟨slots, hnodup, hmem, hdrains, hbits⟩ :=
      drainWords_drains (List.range s.pendingWords.length) hs.unhinted
    simp only [hscan, if_true]
    refine ⟨slots, _, hnodup, fun slot => ?_, hdrains, fun slot => ?_, rfl⟩
    · rw [hmem, mem_range]
      exact ⟨fun h => h.2, fun h => ⟨lt_of_pendingBit h, h⟩⟩
    · rw [hbits]
      split
      · rfl
      · rename_i hge
        by_contra hset
        exact hge (mem_range.mpr (lt_of_pendingBit (Bool.eq_true_of_not_eq_false hset)))
  · have hclear : ∀ slot, pendingBit s.pendingWords slot = false := by
      intro slot
      by_contra hset
      exact hscan (by rw [hhint slot (Bool.eq_true_of_not_eq_false hset), Bool.true_or])
    simp only [hscan]
    refine ⟨[], _, nodup_nil, fun slot => ?_, .done _, hclear, rfl⟩
    rw [hclear slot]
    simp

end Loops

/-- What a grant puts on the accounts: nothing once it is released. -/
inductive Loads (tenants : Nat) : (Account → Nat) → Prop
  | none : Loads tenants fun _ => 0
  | ordinary {i : Nat} {cls : WorkClass} {charge : PoolCharge} {amounts : ResourceAmounts} (hi : i < tenants)
      (hclass : charge.classPool ≠ .shared)
      (hsum : ∀ d, charge.shared.value d + charge.protectedPart.value d = amounts.value d) :
      Loads tenants (ordinaryLoad i cls (charge.share amounts 1))
  | recovery {i : Option Nat} {charge : RecoveryPoolCharge} {amounts : ResourceAmounts} {u : Nat} (hu : u ≤ 1)
      (hsum : ∀ d, charge.shared.value d + charge.protectedPart.value d = amounts.value d) :
      Loads tenants (recoveryLoad i (charge.share amounts 1 u))

theorem GrantRecord.Formed.loads {record : GrantRecord} {tenants : Nat} (h : record.Formed tenants)
    (htenants : tenants ≤ maxTenantQuotas) : Loads tenants fun a => record.load a := by
  cases hrel : record.isReleased with
  | true =>
    rw [funext fun a => Settles.load_released hrel a]
    exact .none
  | false =>
    obtain ⟨owner, howner, hfits⟩ := h.owner_fits htenants
    rw [funext fun a => load_eq howner hrel a]
    rcases hfits with ⟨work, i, charge, hkind, rfl, hi, hclass, hsum⟩ | ⟨i, charge, hkind, rfl, hi, hsum⟩
    · rw [hkind]
      refine .ordinary hi ?_ hsum
      rintro hshared
      rw [hshared] at hclass
      cases work <;> cases hclass
    · rw [hkind]
      refine .recovery ?_ hsum
      split <;> omega

def poolSum (f : OrdinaryPool → Nat) : Nat := (Listed.all.map f).sum

def kindSum (f : RecoveryWorkKind → Nat) : Nat := (Listed.all.map f).sum

theorem poolSum_capacities {charge : PoolCharge} (h : charge.classPool ≠ .shared) (d : ResourceDimension) :
    poolSum (fun p => charge.capacities.value p d) = charge.shared.value d + charge.protectedPart.value d := by
  unfold poolSum
  simp only [Listed.all, map_cons, map_nil, sum_cons, sum_nil, PoolCharge.value_capacities]
  cases hclass : charge.classPool with
  | shared => exact absurd hclass h
  | _ => simp

theorem kindSum_single (kind : RecoveryWorkKind) (amount : Nat) :
    kindSum (fun k => if k = kind then amount else 0) = amount := by
  unfold kindSum
  cases kind <;> simp [Listed.all]

theorem sum_range_single (n i amount : Nat) (h : i < n) :
    ((List.range n).map fun j => if j = i then amount else 0).sum = amount := by
  induction n with
  | zero => exact absurd h (Nat.not_lt_zero i)
  | succ n ih =>
    rw [range_succ, map_append, sum_append, map_singleton, sum_singleton]
    by_cases hi : i = n
    · subst hi
      rw [if_pos rfl]
      have hzero : ((List.range i).map fun j => if j = i then amount else 0).sum = 0 := by
        rw [sum_eq_zero]
        intro x hx
        obtain ⟨j, hj, rfl⟩ := mem_map.mp hx
        rw [mem_range] at hj
        exact if_neg (Nat.ne_of_lt hj)
      omega
    · rw [ih (by omega), if_neg (Ne.symm hi)]
      rfl

namespace Sound

variable {inner : GovernorInner} {tenants : Nat} {s : GovernorState}

variable (hs : Sound inner tenants s)
include hs

theorem balance_le_of_load (left right : List Account)
    (h : ∀ load, Loads tenants load → (left.map load).sum ≤ (right.map load).sum) :
    (left.map fun a => balance s a).sum ≤ (right.map fun a => balance s a).sum := by
  have hsum : ∀ accounts : List Account, (accounts.map fun a => balance s a).sum =
        tally (fun record => (accounts.map fun a => record.load a).sum) s.grantRecords := by
    intro accounts
    rw [tally_sum (fun a record => load a record)]
    congr 1
    exact map_congr_left fun a _ => hs.balanced a
  rw [hsum, hsum]
  exact tally_le fun i record hrec => h _ ((hs.formed i record hrec).loads hs.tenants_le)

theorem balance_eq_of_load (left right : List Account)
    (h : ∀ load, Loads tenants load → (left.map load).sum = (right.map load).sum) :
    (left.map fun a => balance s a).sum = (right.map fun a => balance s a).sum :=
  Nat.le_antisymm (hs.balance_le_of_load left right fun load hload => (h load hload).le)
    (hs.balance_le_of_load right left fun load hload => (h load hload).ge)

theorem balance_le {a b : Account} (h : ∀ load, Loads tenants load → load a ≤ load b) : balance s a ≤ balance s b := by
  rw [hs.balanced a, hs.balanced b]
  exact tally_le fun slot record hrec => h _ ((hs.formed slot record hrec).loads hs.tenants_le)

theorem recovery_le_total (d : ResourceDimension) : balance s (.recovery d) ≤ balance s (.total d) := by
  apply hs.balance_le
  rintro _ (_ | _ | _)
  · exact Nat.le_refl _
  · exact Nat.zero_le _
  · exact Nat.le_refl _

theorem tenant_le_total (i : Nat) (d : ResourceDimension) :
    balance s (.ordinaryTenant i d) + balance s (.recoveryTenant i d) ≤ balance s (.total d) := by
  have h := hs.balance_le_of_load [.ordinaryTenant i d, .recoveryTenant i d] [.total d] (by
    rintro _ (_ | _ | _)
    · exact Nat.le_refl _
    · simp only [map_cons, map_nil, sum_cons, sum_nil, ordinaryLoad]
      split <;> omega
    · simp only [map_cons, map_nil, sum_cons, sum_nil, recoveryLoad]
      split <;> omega)
  simpa using h

theorem recoveryTenant_le (i : Nat) (d : ResourceDimension) :
    balance s (.recoveryTenant i d) ≤ balance s (.recovery d) := by
  apply hs.balance_le
  rintro _ (_ | _ | _)
  · exact Nat.le_refl _
  · exact Nat.le_refl _
  · simp only [recoveryLoad]
    split <;> omega

theorem tenantShared_le (i : Nat) (d : ResourceDimension) :
    balance s (.tenantShared i d) ≤ balance s (.recoveryTenant i d) := by
  apply hs.balance_le
  rintro _ (_ | _ | ⟨_, hsum⟩)
  · exact Nat.le_refl _
  · exact Nat.le_refl _
  · have hd := hsum d
    simp only [recoveryLoad, RecoveryPoolCharge.share]
    split <;> omega

theorem poolSum_add_recovery (d : ResourceDimension) :
    poolSum (fun p => balance s (.pool p d)) + balance s (.recovery d) = balance s (.total d) := by
  have h := hs.balance_eq_of_load ((Listed.all.map fun p => Account.pool p d) ++ [.recovery d]) [.total d] (by
    rintro _ (_ | ⟨_, hclass, hsum⟩ | _)
    · simp [Function.comp_def]
    · rw [map_append, sum_append, map_map]
      exact congrArg (· + (0 + 0)) ((poolSum_capacities hclass d).trans (hsum d))
    · simp [Function.comp_def, recoveryLoad])
  simpa [Function.comp_def, poolSum] using h

theorem tenantPoolSum (i : Nat) (d : ResourceDimension) :
    poolSum (fun p => balance s (.tenantPool i p d)) = balance s (.ordinaryTenant i d) := by
  have h := hs.balance_eq_of_load (Listed.all.map fun p => Account.tenantPool i p d) [.ordinaryTenant i d] (by
    rintro _ (_ | ⟨_, hclass, hsum⟩ | _)
    · simp [Function.comp_def]
    · simp only [map_map, Function.comp_def, ordinaryLoad, PoolCharge.share, map_cons, map_nil, sum_cons, sum_nil]
      split
      · exact (poolSum_capacities hclass d).trans (hsum d)
      · simp
    · simp [Function.comp_def, recoveryLoad])
  simpa [Function.comp_def, poolSum] using h

theorem shared_add_kindSum (d : ResourceDimension) :
    balance s (.recoveryShared d) + kindSum (fun k => balance s (.recoveryProtected k d)) =
      balance s (.recovery d) := by
  have h := hs.balance_eq_of_load (.recoveryShared d :: Listed.all.map fun k => Account.recoveryProtected k d)
    [.recovery d] (by
    rintro _ (_ | _ | ⟨_, hsum⟩)
    · simp [Function.comp_def]
    · simp [Function.comp_def, ordinaryLoad]
    · exact (congrArg (_ + ·) (kindSum_single _ _)).trans (hsum d))
  simpa [Function.comp_def, kindSum] using h

theorem sum_tenantPool (p : OrdinaryPool) (d : ResourceDimension) :
    ((List.range tenants).map fun i => balance s (.tenantPool i p d)).sum = balance s (.pool p d) := by
  have h := hs.balance_eq_of_load ((List.range tenants).map fun i => Account.tenantPool i p d) [.pool p d] (by
    rintro _ (_ | ⟨hi, _, _⟩ | _)
    · simp [Function.comp_def]
    · simp only [map_map, Function.comp_def, ordinaryLoad, map_cons, map_nil, sum_cons, sum_nil]
      exact sum_range_single tenants _ _ hi
    · simp [Function.comp_def, recoveryLoad])
  simpa [Function.comp_def] using h

variable {a : Account}

theorem count_le_outstanding (ha : a = .ordinaryCount ∨ a = .recoveryCount ∨ a = .uninterruptibleCount ∨
      (∃ cls, a = .classCount cls) ∨ ∃ i, a = .tenantCount i) : balance s a ≤ balance s .outstanding := by
  apply hs.balance_le
  rintro _ (_ | _ | ⟨hu, _⟩)
  · exact Nat.le_refl _
  · rcases ha with rfl | rfl | rfl | ⟨_, rfl⟩ | ⟨_, rfl⟩ <;>
      simp only [ordinaryLoad, PoolCharge.share] <;> first | omega | (split <;> omega)
  · rcases ha with rfl | rfl | rfl | ⟨_, rfl⟩ | ⟨_, rfl⟩ <;>
      simp only [recoveryLoad, RecoveryPoolCharge.share] <;> first | omega | (split <;> omega)

/-- Counts are far from overflow while a slot is free to be counted. -/
theorem count_lt (hroom : s.outstanding.1 + 1 ≤ inner.maximumOutstanding.1)
    (ha : a = .ordinaryCount ∨ a = .recoveryCount ∨ a = .uninterruptibleCount ∨
      (∃ cls, a = .classCount cls) ∨ ∃ i, a = .tenantCount i) : balance s a + 1 < 2 ^ 32 := by
  have hmax := hs.maximum_le
  have hle := hs.count_le_outstanding ha
  simp only [maxOutstandingReservations] at hmax
  simp only [balance] at hle ⊢
  omega

end Sound

def GovernorState.occupied (slot : Nat) (record : GrantRecord) (s : GovernorState) : GovernorState :=
  { s with
    freeSlots := s.freeSlots.tail
    grantRecords := s.grantRecords.set slot (some record)
    slotSignals := s.slotSignals.set slot .active }

inductive Admits (slot : Nat) (record : GrantRecord) (t : GovernorState) : GovernorState → Prop
  | plain (hop : record.operation = none) : Admits slot record t (t.occupied slot record)
  | root {next : U64} (hop : record.operation =
        some (.root t.nextOperationGeneration true (Unsigned.zero 16)))
      (hnext : next.1 = t.nextOperationGeneration.1 + 1) :
      Admits slot record t { t.occupied slot record with nextOperationGeneration := next }
  | child {rootSlot : Nat} {g : U64} {root : GrantRecord} {count more : U16}
      (hop : record.operation = some (.child rootSlot g))
      (hroot : entry t.grantRecords rootSlot = some root)
      (hrootOp : root.operation = some (.root g true count)) (hcount : more.1 = count.1 + 1) :
      Admits slot record t ((t.occupied slot record).put rootSlot
        { root with operation := some (.root g true more) })

theorem SlotsSound.head_free {t : GovernorState} {slot : Nat} (hsound : SlotsSound t)
    (hfree : t.freeSlots.head? = some slot) : t.grantRecords[slot]? = some none := by
  rw [← hsound.partitioned.mem_iff]
  exact mem_of_mem_head? hfree

theorem SlotsSound.occupied {t : GovernorState} {slot : Nat} {record : GrantRecord} (hsound : SlotsSound t)
    (hfree : t.freeSlots.head? = some slot) : SlotsSound (t.occupied slot record) := by
  have hempty := hsound.head_free hfree
  obtain ⟨hlt, _⟩ := List.getElem?_eq_some_iff.mp hempty
  have hcons : t.freeSlots = slot :: t.freeSlots.tail := (cons_head?_tail hfree).symm
  constructor
  · have hpartitioned := hsound.partitioned
    rw [hcons] at hpartitioned
    exact hpartitioned.take record
  · simp only [GovernorState.occupied, length_set]
    exact hsound.length_signals
  · intro i
    simp only [GovernorState.occupied]
    by_cases hi : slot = i
    · subst hi
      rw [getElem?_set_self hlt, getElem?_set_self (hsound.length_signals ▸ hlt)]
      simp
    · rw [getElem?_set_ne hi, getElem?_set_ne hi]
      exact hsound.free_iff i
  · simp only [GovernorState.occupied, length_set]
    exact hsound.length_words
  · intro i hi
    obtain ⟨hsignal, hlive⟩ := hsound.pending i hi
    have hne : slot ≠ i := by
      rintro rfl
      obtain ⟨q, hq, _⟩ := hlive
      rw [entry_eq_none_of_empty hempty] at hq
      cases hq
    exact ⟨(getElem?_set_ne hne).trans hsignal, hlive.set_ne hne _⟩

namespace Admits

variable {slot : Nat} {record : GrantRecord} {t t' : GovernorState} {tenants : Nat}

variable (hempty : t.grantRecords[slot]? = some none)
include hempty

variable {rootSlot : Nat}

theorem ne_of_entry {root : GrantRecord}
    (hroot : entry t.grantRecords rootSlot = some root) : slot ≠ rootSlot := by
  rintro rfl
  rw [entry_eq_none_of_empty hempty] at hroot
  cases hroot

theorem entry_root {root : GrantRecord} (hroot : entry t.grantRecords rootSlot = some root) :
    entry (t.occupied slot record).grantRecords rootSlot = some root :=
  (entry_set_ne (ne_of_entry hempty hroot) _).trans hroot

variable (h : Admits slot record t t')
include h

omit hempty in
theorem isReleased_eq : record.isReleased = false := by
  unfold isReleased
  cases h with
  | plain hop => rw [hop]
  | root hop => rw [hop]
  | child hop => rw [hop]

omit hempty in
theorem frame : t' = { t.adoptSlots t' with nextOperationGeneration := t'.nextOperationGeneration } := by
  cases h <;> rfl

theorem entry_slot : entry t'.grantRecords slot = some record := by
  obtain ⟨hlt, _⟩ := List.getElem?_eq_some_iff.mp hempty
  have hself : entry (t.occupied slot record).grantRecords slot = some record := entry_set_self hlt _
  cases h with
  | plain => exact hself
  | root => exact hself
  | child hop hroot =>
    exact (entry_set_ne (Ne.symm (ne_of_entry hempty hroot)) _).trans hself

omit hempty in
theorem signal_slot (hlt : slot < t.slotSignals.length) : t'.slotSignals[slot]? = some .active := by
  have hself : (t.occupied slot record).slotSignals[slot]? = some .active := getElem?_set_self hlt
  cases h <;> exact hself

omit hempty in
theorem slotsSound (hsound : SlotsSound t) (hfree : t.freeSlots.head? = some slot) : SlotsSound t' := by
  have hoccupied : SlotsSound (t.occupied slot record) := hsound.occupied hfree
  cases h with
  | plain => exact hoccupied
  | root =>
    exact ⟨hoccupied.partitioned, hoccupied.length_signals, hoccupied.free_iff, hoccupied.length_words,
      hoccupied.pending⟩
  | child hop hroot hrootOp =>
    refine hoccupied.put (entry_root (hsound.head_free hfree) hroot) fun _ => ?_
    rfl

theorem families (hfams : Families t.grantRecords t.nextOperationGeneration)
    : Families t'.grantRecords t'.nextOperationGeneration := by
  obtain ⟨hlt, _⟩ := List.getElem?_eq_some_iff.mp hempty
  have hat : operationAt t.grantRecords slot = none := by
    rw [operationAt, entry_eq_none_of_empty hempty, Option.bind_none]
  have hnochildren : ∀ g, children t.grantRecords slot g = 0 := by
    intro g
    apply hfams.children_eq_zero
    rw [hat]
    simp
  cases h with
  | plain hop =>
    refine hfams.write hlt (Nat.le_refl _) (by simp [hat]) (by simp [hop]) ?_ (by simp [hop])
    intro g hpos
    rw [hnochildren] at hpos
    cases hpos
  | @root next hop hnext =>
    refine hfams.write hlt (by dsimp only; omega) (by simp [hat]) (by simp [hop]) ?_ ?_
    · intro g hpos
      rw [hnochildren] at hpos
      cases hpos
    · intro g accepting count heq
      rw [Option.bind_some, hop] at heq
      cases heq
      rw [hnochildren]
      exact ⟨rfl, (fun h => by cases h), by dsimp only; omega⟩
  | @child rootSlot g root count more hop hroot hrootOp hcount =>
    have hne := ne_of_entry hempty hroot
    have hrootAt := (operationAt_of_entry hroot).trans hrootOp
    refine hfams.recount hlt hne (.inl hat) (.inr hop) hrootAt (.inl ⟨more, rfl, ?_, (fun h => by cases h)⟩)
    have hset := children_set hlt (some record) rootSlot g
    have hcounted := hfams.counted _ _ _ _ hrootAt
    rw [hat, if_neg (by simp), Option.bind_some, if_pos hop] at hset
    omega

theorem formed (hformed : ∀ i q, entry t.grantRecords i = some q → q.Formed tenants)
    (hrec : record.Formed tenants) : ∀ i q, entry t'.grantRecords i = some q → q.Formed tenants := by
  obtain ⟨hlt, _⟩ := List.getElem?_eq_some_iff.mp hempty
  have hoccupied : ∀ i q, entry (t.occupied slot record).grantRecords i = some q → q.Formed tenants := by
    intro i q hq
    simp only [GovernorState.occupied, entry_set hlt] at hq
    split at hq
    · cases hq
      exact hrec
    · exact hformed i q hq
  intro i q hq
  cases h with
  | plain => exact hoccupied i q hq
  | root => exact hoccupied i q hq
  | @child rootSlot g root count more hop hroot hrootOp =>
    exact recount_formed (entry_root hempty hroot) (.inr ⟨_, _, _, _, hrootOp, rfl⟩) hoccupied i q hq

theorem tally_load (a : Account) :
    tally (load a) t'.grantRecords = tally (load a) t.grantRecords + record.load a := by
  have hoccupied : tally (load a) (t.occupied slot record).grantRecords =
      tally (load a) t.grantRecords + record.load a := tally_set_empty _ hempty record
  cases h with
  | plain => exact hoccupied
  | root => exact hoccupied
  | @child rootSlot g root count more hop hroot hrootOp =>
    rw [recount_tally (entry_root hempty hroot) (.inr ⟨_, _, _, _, hrootOp, rfl⟩)]
    exact hoccupied

theorem keepsOthers : KeepsOthers slot t t' := by
  have hplain : KeepsOthers slot t (t.occupied slot record) :=
    .of_ne (fun j hj => entry_set_ne (Ne.symm hj) _) fun j hj => getElem?_set_ne (Ne.symm hj)
  cases h with
  | plain => exact hplain
  | root => exact ⟨hplain.kept, hplain.known⟩
  | @child rootSlot g root count more hop hroot hrootOp =>
    exact hplain.recount (entry_root hempty hroot) (.inr ⟨_, _, _, _, hrootOp, rfl⟩)

end Admits

end Positron.Governor
