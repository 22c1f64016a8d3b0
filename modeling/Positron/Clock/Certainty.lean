import Positron.Clock.SteadyClock

/-! A steady clock over whole runs: the state stays certain and the safe anchor never moves back when every open
recovers an anchor that is not behind the safe anchor, and nothing that is ahead of the wall clock by more than the
bound. As long as the readings are in range this is also necessary. -/

namespace Positron.Clock
open MachineInt ByteCodec Ledger List Runs RetentionFrontier

section Courses

variable {scope : SegmentScope} {t : IngestTime} {s : Instance} {objects : List Bytes} {replacing : Option SegmentScope}

/-- The invariant of a run whose opens have all met their condition: the records in the catalog are certain too. -/
structure OnCourse (s : Instance) : Prop where
  line : OnLine s.authority s.now
  records : ∀ bytes ∈ s.objects, ∀ r, decodeCatalogAnchor bytes = .ok (some r) →
    r.wallClockCorrectionNanoseconds.1 = 0 ∧ r.state = .certain

theorem OnCourse.of_line {s' : Instance} (h : OnCourse s) (hline : OnLine s'.authority s'.now)
    (hobjects : s'.objects = s.objects) : OnCourse s' := by
  refine ⟨hline, ?_⟩
  rw [hobjects]
  exact h.records

theorem findCatalogAnchor_mem {found : Option LifecycleClockSafety} {r : LifecycleClockSafety}
    (h : findCatalogAnchor objects found = .ok (some r)) :
    found = some r ∨ ∃ bytes ∈ objects, decodeCatalogAnchor bytes = .ok (some r) := by
  induction objects generalizing found with
  | nil =>
    cases h
    exact .inl rfl
  | cons bytes objects ih =>
    unfold findCatalogAnchor at h
    split at h
    · cases h
    · exact (ih h).imp_right exists_mem_cons_of_exists
    · rename_i candidate hcand
      split at h
      · cases h
      · rcases ih h with hfound | hlater
        · cases hfound
          exact .inr ⟨bytes, mem_cons_self, hcand⟩
        · exact .inr (exists_mem_cons_of_exists hlater)

/-- What a publication carries over holds no anchor. -/
theorem carriedOver_mem {objects kept : List Bytes} {seen : Bool} (h : carriedOver replacing objects seen = .ok kept) :
    ∀ bytes ∈ kept, decodeCatalogAnchor bytes = .ok none := by
  induction objects generalizing seen kept with
  | nil =>
    cases h
    intro bytes hbytes
    cases hbytes
  | cons head objects ih =>
    unfold carriedOver at h
    split at h
    · cases h
    · exact ih h
    · split at h
      · cases h
      · split at h
        · cases h
        · exact ih h
      · rename_i hnone
        split at h
        · cases h
        · rename_i rest hrest
          cases h
          intro bytes hbytes
          rcases mem_cons.mp hbytes with rfl | hbytes
          · exact hnone
          · exact ih hrest bytes hbytes

theorem OnCourse.publish (h : OnCourse s)
    (hpub : publishedObjects replacing s.objects scope t (s.authority.catalogAnchorRecord t) = .ok objects) :
    OnCourse { s with objects := objects } := by
  refine ⟨h.line, fun bytes hbytes r hr => ?_⟩
  unfold publishedObjects at hpub
  split at hpub
  · cases hpub
  · rename_i kept hkept
    cases hpub
    rcases mem_append.mp hbytes with hbytes | hbytes
    · rw [carriedOver_mem hkept bytes hbytes] at hr
      cases hr
    · simp only [mem_cons, not_mem_nil, or_false] at hbytes
      rcases hbytes with rfl | rfl
      · cases hr
      · rw [RetentionTimeAuthority.catalogAnchorRecord, decode_encodeCatalogAnchor] at hr
        cases hr
        exact ⟨h.line.correction, h.line.certain⟩

end Courses

variable {s : Instance} {scope : SegmentScope} {blocks : List (Option IngestTime)} {ledger : LedgerClock}
  {elapsed : U64} {objects : List Bytes}

/-- Along the calls of an operation the state is certain and the safe anchor never moves back. -/
def Steady : RetentionTimeAuthority → Visits → Prop
  | _, [] => True
  | a, (elapsed, a') :: visits =>
    a'.safety.state = .certain ∧ safeAnchorAt a elapsed ≤ safeAnchorAt a' elapsed ∧ Steady a' visits

instance decidableSteady : (a : RetentionTimeAuthority) → (visits : Visits) → Decidable (Steady a visits)
  | _, [] => isTrue trivial
  | a, (elapsed, a') :: visits =>
    have := decidableSteady a' visits
    inferInstanceAs (Decidable (a'.safety.state = .certain ∧
      safeAnchorAt a elapsed ≤ safeAnchorAt a' elapsed ∧ Steady a' visits))

def StaysSteady (s : Instance) (operation : Operation) : Prop :=
  Steady s.authority (s.perform operation).1

instance (s : Instance) (operation : Operation) : Decidable (StaysSteady s operation) :=
  decidableSteady _ _

/-- A recovered anchor is not behind the safe anchor, and neither it nor the durable instant of the scope is ahead of
the wall clock by more than the bound. -/
def OpensWithinBound (s : Instance) : Operation → Prop
  | .openLedger scope blocks anchorAt scopeAt _ =>
    ∀ found ∈ (findCatalogAnchor s.objects none).toOption,
      (∀ r ∈ found, safeAnchorAt s.authority anchorAt ≤ r.anchor.1 ∧
        r.anchor.1 ≤ s.authority.epoch.1 + anchorAt.1 + reconciliationBound s.authority) ∧
      ∀ frontier ∈ (recover s.objects scope).toOption, ∀ durable ∈ Instance.durableInstant frontier blocks,
        durable.1 ≤ s.authority.epoch.1 + scopeAt.1 + reconciliationBound s.authority
  | _ => True

instance : (s : Instance) → (operation : Operation) → Decidable (OpensWithinBound s operation)
  | s, .openLedger scope blocks anchorAt scopeAt _ =>
    inferInstanceAs (Decidable (∀ found ∈ (findCatalogAnchor s.objects none).toOption,
      (∀ r ∈ found, safeAnchorAt s.authority anchorAt ≤ r.anchor.1 ∧
        r.anchor.1 ≤ s.authority.epoch.1 + anchorAt.1 + reconciliationBound s.authority) ∧
      ∀ frontier ∈ (recover s.objects scope).toOption, ∀ durable ∈ Instance.durableInstant frontier blocks,
        durable.1 ≤ s.authority.epoch.1 + scopeAt.1 + reconciliationBound s.authority))
  | _, .beginStoreBlock _ _ _ => isTrue trivial
  | _, .retentionPass _ _ _ => isTrue trivial
  | _, .leaseTime _ _ => isTrue trivial

/-- The wall clock can be read throughout the open, and the revisions are not used up. -/
def InRange (s : Instance) : Operation → Prop
  | .openLedger _ _ _ scopeAt _ =>
    0 ≤ s.authority.epoch.1 ∧ s.authority.epoch.1 + scopeAt.1 < 2 ^ 63 ∧ s.authority.safety.revision.1 + 3 < 2 ^ 64
  | _ => True

instance : (s : Instance) → (operation : Operation) → Decidable (InRange s operation)
  | s, .openLedger _ _ _ scopeAt _ => inferInstanceAs (Decidable (0 ≤ s.authority.epoch.1 ∧
      s.authority.epoch.1 + scopeAt.1 < 2 ^ 63 ∧ s.authority.safety.revision.1 + 3 < 2 ^ 64))
  | _, .beginStoreBlock _ _ _ => isTrue trivial
  | _, .retentionPass _ _ _ => isTrue trivial
  | _, .leaseTime _ _ => isTrue trivial

theorem Steady.nil (a : RetentionTimeAuthority) : Steady a [] := trivial

theorem Follows.steady_cons {a a' : RetentionTimeAuthority} {now : Nat} {visits : Visits} (h : Follows a a')
    (hline : OnLine a' now) (elapsed : U64) (hvisits : Steady a' visits) : Steady a ((elapsed, a') :: visits) := by
  refine ⟨hline.certain, ?_, hvisits⟩
  have hlead := h.lead
  rw [safeAnchorAt_eq, safeAnchorAt_eq, h.epoch]
  omega

theorem mem_toOption_iff {ε α : Type} {x : Except ε α} {y : α} : y ∈ x.toOption ↔ x = .ok y := by
  cases x <;> simp [Except.toOption, eq_comm]

variable (h : OnCourse s)
include h

variable {anchorAt scopeAt leaseAt : U64} {r : LifecycleClockSafety}

theorem OnCourse.record (hfind : findCatalogAnchor s.objects none = .ok (some r)) :
    r.wallClockCorrectionNanoseconds.1 = 0 ∧ r.state = .certain := by
  rcases findCatalogAnchor_mem hfind with hnone | ⟨bytes, hbytes, hdecode⟩
  · cases hnone
  · exact h.records bytes hbytes r hdecode

theorem OnCourse.performOpen (hnow : s.now ≤ anchorAt.1) (hscopeAt : anchorAt.1 ≤ scopeAt.1)
    (hleaseAt : scopeAt.1 ≤ leaseAt.1)
    (hbound : OpensWithinBound s (.openLedger scope blocks anchorAt scopeAt leaseAt)) :
    Steady s.authority (s.performOpen scope blocks anchorAt scopeAt leaseAt).1 ∧
      OnCourse (s.performOpen scope blocks anchorAt scopeAt leaseAt).2 := by
  have hanchorLease : anchorAt.1 ≤ leaseAt.1 := hscopeAt.trans hleaseAt
  obtain ⟨hline₁, hfollows₁⟩ := h.line.recoverCatalogAnchor s.objects hnow fun r hr =>
    ⟨(hbound _ (mem_toOption_iff.mpr hr)).1 r rfl, h.record hr⟩
  have hfound : (s.authority.recoverCatalogAnchor s.objects (.ok anchorAt) (s.wall anchorAt)).1 = .ok () →
      ∃ found, findCatalogAnchor s.objects none = .ok found := by
    intro hok
    unfold RetentionTimeAuthority.recoverCatalogAnchor at hok
    split at hok
    · cases hok
    · exact ⟨_, by assumption⟩
    · exact ⟨_, by assumption⟩
  change OnLine ((s.authority.recoverCatalogAnchor s.objects (.ok anchorAt) (s.wall anchorAt)).2) _ at hline₁
  change Follows _ ((s.authority.recoverCatalogAnchor s.objects (.ok anchorAt) (s.wall anchorAt)).2) at hfollows₁
  unfold Instance.performOpen
  dsimp only
  split
  · rename_i frontier hrecovered hfront
    split
    · exact ⟨hfollows₁.steady_cons hline₁ anchorAt (Steady.nil _), h.of_line (hline₁.later hanchorLease) rfl⟩
    · rename_i durable hdur
      obtain ⟨found, hfind⟩ := hfound hrecovered
      have hdurable := (hbound found (mem_toOption_iff.mpr hfind)).2 frontier (mem_toOption_iff.mpr hfront) durable hdur
      rw [← hfollows₁.epoch, reconciliationBound, ← hfollows₁.policy] at hdurable
      obtain ⟨hline₂, hfollows₂⟩ := hline₁.recoverScope hscopeAt scope hdurable
      rw [hfollows₁.epoch] at hline₂ hfollows₂
      split
      · refine ⟨hfollows₁.steady_cons hline₁ anchorAt (hfollows₂.steady_cons hline₂ scopeAt (Steady.nil _)), ?_⟩
        exact h.of_line (hline₂.later hleaseAt) rfl
      · obtain ⟨hline₃, hfollows₃, -⟩ := hline₂.ingestTime hleaseAt scope (some durable)
        rw [hfollows₂.epoch, hfollows₁.epoch] at hline₃ hfollows₃
        refine ⟨hfollows₁.steady_cons hline₁ anchorAt (hfollows₂.steady_cons hline₂ scopeAt
          (hfollows₃.steady_cons hline₃ leaseAt (Steady.nil _))), ?_⟩
        split
        · split <;> exact h.of_line hline₃ rfl
        · exact h.of_line hline₃ rfl
  · exact ⟨hfollows₁.steady_cons hline₁ anchorAt (Steady.nil _), h.of_line (hline₁.later hanchorLease) rfl⟩

theorem OnCourse.settle (replacing : Option SegmentScope) {t : IngestTime} {staged : StagedCatalogAnchor}
    (publication : Publication) (elapsed : U64) (hdropped : OnLine (s.authority.abandonCatalogAnchor staged) s.now)
    (hfollows : Follows s.authority (s.authority.abandonCatalogAnchor staged)) :
    Steady s.authority (s.settle replacing scope ledger t staged publication elapsed).1 ∧
      OnCourse (s.settle replacing scope ledger t staged publication elapsed).2 := by
  have hvisit : Steady s.authority [(elapsed, s.authority.abandonCatalogAnchor staged)] :=
    hfollows.steady_cons hdropped elapsed (Steady.nil _)
  unfold Instance.settle
  dsimp only
  split
  · rename_i objects hobjs
    exact ⟨trivial, (h.publish hobjs).of_line h.line rfl⟩
  · rename_i objects hobjs
    exact ⟨hvisit, (h.publish hobjs).of_line hdropped rfl⟩
  · exact ⟨hvisit, h.of_line hdropped rfl⟩

/-- What a mint leaves behind: the authority and the dropped candidate are both on the line. -/
structure Minted (a : RetentionTimeAuthority) (now : Nat) (staged : StagedCatalogAnchor)
    (minted : RetentionTimeAuthority) : Prop where
  line : OnLine minted now
  follows : Follows a minted
  dropped : OnLine (minted.abandonCatalogAnchor staged) now
  droppedFollows : Follows minted (minted.abandonCatalogAnchor staged)

theorem OnCourse.minted (hle : s.now ≤ elapsed.1) (scope : SegmentScope) (durable : Option IngestTime) :
    Minted s.authority elapsed.1 (s.authority.stageCatalogAnchor.observed s.authority
        (s.authority.ingestTime scope durable (.ok elapsed) (s.wall elapsed)).2)
      (s.authority.ingestTime scope durable (.ok elapsed) (s.wall elapsed)).2 := by
  obtain ⟨hline, hfollows, hlead⟩ := h.line.ingestTime hle scope durable
  obtain ⟨hckpt, hcand⟩ := staged_candidate s.authority
    (s.authority.ingestTime scope durable (.ok elapsed) (s.wall elapsed)).2
  obtain ⟨hdropped, hkept⟩ := h.line.abandon hline hle hfollows hlead hckpt hcand
  exact ⟨hline, hfollows, hdropped, hkept⟩

omit h in
theorem Minted.abandon {a : RetentionTimeAuthority} {staged : StagedCatalogAnchor} {now : Nat}
    {minted : RetentionTimeAuthority} (hminted : Minted a now staged minted) (elapsed : U64) :
    Steady a [(elapsed, minted), (elapsed, minted.abandonCatalogAnchor staged)] :=
  hminted.follows.steady_cons hminted.line elapsed
    (hminted.droppedFollows.steady_cons hminted.dropped elapsed (Steady.nil _))

theorem OnCourse.publishMinted {staged : StagedCatalogAnchor} {minted : RetentionTimeAuthority}
    (hminted : Minted s.authority s.now staged minted) (replacing : Option SegmentScope) (t : IngestTime)
    (publication : Publication) (elapsed : U64) :
    Steady s.authority ((elapsed, minted) :: ({ s with authority := minted }.settle replacing scope ledger t staged
        publication elapsed).1) ∧
      OnCourse ({ s with authority := minted }.settle replacing scope ledger t staged publication elapsed).2 := by
  have hmoved : OnCourse { s with authority := minted } := h.of_line hminted.line rfl
  obtain ⟨hsteady, hcourse⟩ :=
    hmoved.settle replacing publication elapsed hminted.dropped hminted.droppedFollows
  exact ⟨hminted.follows.steady_cons hminted.line elapsed hsteady, hcourse⟩

theorem OnCourse.performMint (scope : SegmentScope) (publication : Publication)
    (hnow : s.now = elapsed.1) : Steady s.authority (s.performMint scope publication elapsed).1 ∧
      OnCourse (s.performMint scope publication elapsed).2 := by
  unfold Instance.performMint
  split
  · exact ⟨trivial, h⟩
  · rename_i ledger hledger
    split
    · exact ⟨trivial, h⟩
    · have hminted := h.minted (le_of_eq hnow) scope ledger.retentionFrontier
      rw [← hnow] at hminted
      unfold StagedCatalogAnchor.ingestTime
      dsimp only
      split
      · exact ⟨hminted.abandon elapsed, h.of_line hminted.dropped rfl⟩
      · rename_i t ht
        split
        · exact h.publishMinted hminted none t publication elapsed
        · exact ⟨hminted.abandon elapsed, h.of_line hminted.dropped rfl⟩

theorem OnCourse.performRetention (scope : SegmentScope) (publication : Publication)
    (hnow : s.now = elapsed.1) : Steady s.authority (s.performRetention scope publication elapsed).1 ∧
      OnCourse (s.performRetention scope publication elapsed).2 := by
  unfold Instance.performRetention
  split
  · exact ⟨trivial, h⟩
  · rename_i ledger hledger
    split
    · exact ⟨trivial, h⟩
    · have hminted := h.minted (le_of_eq hnow) scope ledger.retentionFrontier
      rw [← hnow] at hminted
      unfold StagedCatalogAnchor.destructiveIngestTime
      dsimp only
      rw [s.authority.destructiveIngestTime_snd scope (s.wall elapsed) ledger.retentionFrontier (.ok elapsed)]
      split
      · exact ⟨hminted.abandon elapsed, h.of_line hminted.dropped rfl⟩
      · rename_i t ht
        exact h.publishMinted hminted (some scope) t publication elapsed

theorem OnCourse.performLeaseTime (scope : SegmentScope) (hnow : s.now = elapsed.1) :
    Steady s.authority (s.performLeaseTime scope elapsed).1 ∧ OnCourse (s.performLeaseTime scope elapsed).2 := by
  obtain ⟨hline, hfollows, -⟩ := h.line.ingestTime (le_of_eq hnow) scope none
  rw [← hnow] at hline
  exact ⟨hfollows.steady_cons hline elapsed (Steady.nil _), h.of_line hline rfl⟩

omit h in
/-- Every open first recovers the anchor of the catalog. -/
theorem performOpen_first (s : Instance) (scope : SegmentScope) (blocks : List (Option IngestTime))
    (anchorAt scopeAt leaseAt : U64) : ∃ visits, (s.performOpen scope blocks anchorAt scopeAt leaseAt).1 =
      (anchorAt, (s.authority.recoverCatalogAnchor s.objects (.ok anchorAt) (s.wall anchorAt)).2) :: visits := by
  unfold Instance.performOpen
  dsimp only
  split
  · split
    · exact ⟨_, rfl⟩
    · split <;> exact ⟨_, rfl⟩
  · exact ⟨_, rfl⟩

omit h in
/-- When both recoveries succeed, the open goes on to recover the durable instant of its scope. -/
theorem performOpen_second (scopeAt leaseAt : U64) {frontier : Option IngestTime} {durable : IngestTime}
    (hrecovered : (s.authority.recoverCatalogAnchor s.objects (.ok anchorAt) (s.wall anchorAt)).1 = .ok ())
    (hfront : recover s.objects scope = .ok frontier) (hdur : Instance.durableInstant frontier blocks = some durable) :
    ∃ visits, (s.performOpen scope blocks anchorAt scopeAt leaseAt).1 =
      (anchorAt, (s.authority.recoverCatalogAnchor s.objects (.ok anchorAt) (s.wall anchorAt)).2) ::
        (scopeAt, ((s.authority.recoverCatalogAnchor s.objects (.ok anchorAt) (s.wall anchorAt)).2.recoverScope scope
          durable (.ok scopeAt) (s.wall scopeAt)).2) :: visits := by
  unfold Instance.performOpen
  dsimp only
  split
  · rename_i found hok hfound
    have hsame : found = frontier := by
      have hboth := hfound.symm.trans hfront
      cases hboth
      rfl
    subst hsame
    rw [hdur]
    dsimp only
    split <;> exact ⟨_, rfl⟩
  · rename_i hfails
    exact absurd hfront (hfails frontier hrecovered)

/-- An open installs a record of the catalog that is not behind the wall clock. One beyond the bound makes the clock
uncertain. -/
theorem OnCourse.installs (hepoch : 0 ≤ s.authority.epoch.1) (hrange : s.authority.epoch.1 + anchorAt.1 < 2 ^ 63)
    (hrevision : s.authority.safety.revision.1 + 3 < 2 ^ 64)
    (hfind : findCatalogAnchor s.objects none = .ok (some r)) (hle : s.authority.epoch.1 + anchorAt.1 ≤ r.anchor.1) :
    ∃ safety, s.authority.recoverCatalogAnchor s.objects (.ok anchorAt) (s.wall anchorAt) =
        (.ok (), { s.authority with safety := safety }) ∧
      safety.revision.1 = s.authority.safety.revision.1 + 1 + 1 ∧
      (s.authority.epoch.1 + anchorAt.1 + reconciliationBound s.authority < r.anchor.1 →
        safety.state = .clockUncertain) := by
  obtain ⟨wall, hwall, hvalue⟩ := steadyWall_of_lt hepoch hrange
  have hfirst : s.authority.safety.revision.checkedAdd ⟨1, one_lt_word⟩ =
      some ⟨s.authority.safety.revision.1 + 1, by omega⟩ := Unsigned.checkedAdd_eq_some_iff.mpr rfl
  rw [recoverCatalogAnchor_some hfind, Instance.wall, hwall, ← hvalue]
  simp only [hfirst]
  exact reconcile_observes h.line.source (h.record hfind).1
    (show s.authority.safety.revision.1 + 1 + 1 < 2 ^ 64 by omega) (advanceGlobal_withRecord ..) (by omega) (by omega)

/-- An open that meets its condition reads the catalog anchor without failing. -/
theorem OnCourse.recovers {found : Option LifecycleClockSafety} (hfind : findCatalogAnchor s.objects none = .ok found)
    (hepoch : 0 ≤ s.authority.epoch.1) (hrange : s.authority.epoch.1 + anchorAt.1 < 2 ^ 63)
    (hrevision : s.authority.safety.revision.1 + 3 < 2 ^ 64)
    (hlow : ∀ r ∈ found, safeAnchorAt s.authority anchorAt ≤ r.anchor.1) :
    (s.authority.recoverCatalogAnchor s.objects (.ok anchorAt) (s.wall anchorAt)).1 = .ok () ∧
      (s.authority.recoverCatalogAnchor s.objects (.ok anchorAt) (s.wall anchorAt)).2.safety.revision.1 + 1 <
        2 ^ 64 := by
  cases found with
  | none =>
    unfold RetentionTimeAuthority.recoverCatalogAnchor
    rw [hfind]
    exact ⟨rfl, by dsimp only; omega⟩
  | some r =>
    have hnear := hlow r rfl
    have hahead := h.line.ahead
    rw [safeAnchorAt_eq] at hnear
    obtain ⟨safety, hinstalled, hnext, -⟩ := h.installs hepoch hrange hrevision hfind (by omega)
    rw [hinstalled]
    exact ⟨rfl, by dsimp only; omega⟩

/-- A record that is behind the safe anchor takes it back; one beyond the bound makes the clock uncertain. -/
theorem OnCourse.record_within (hepoch : 0 ≤ s.authority.epoch.1) (hrange : s.authority.epoch.1 + anchorAt.1 < 2 ^ 63)
    (hrevision : s.authority.safety.revision.1 + 3 < 2 ^ 64)
    (hsteady : Steady s.authority (s.performOpen scope blocks anchorAt scopeAt leaseAt).1)
    (hfind : findCatalogAnchor s.objects none = .ok (some r)) :
    safeAnchorAt s.authority anchorAt ≤ r.anchor.1 ∧
      r.anchor.1 ≤ s.authority.epoch.1 + anchorAt.1 + reconciliationBound s.authority := by
  obtain ⟨visits, hvisits⟩ := performOpen_first s scope blocks anchorAt scopeAt leaseAt
  rw [hvisits] at hsteady
  obtain ⟨hcertain, hkept, -⟩ := hsteady
  constructor
  · obtain ⟨safety, hsafety, hanchor, helapsed⟩ :=
      recoverCatalogAnchor_anchor hfind s.authority anchorAt (s.wall anchorAt)
    rw [hsafety] at hkept
    unfold safeAnchorAt at hkept ⊢
    rw [hanchor, helapsed] at hkept
    omega
  · by_contra hfar
    have hpositive : 0 ≤ reconciliationBound s.authority := Int.natCast_nonneg _
    obtain ⟨safety, hinstalled, -, huncertain⟩ := h.installs hepoch hrange hrevision hfind (by omega)
    rw [hinstalled] at hcertain
    cases (huncertain (not_le.mp hfar)).symm.trans hcertain

/-- A durable instant beyond the bound makes the clock uncertain, once the catalog anchor has been recovered. -/
theorem OnCourse.durable_within (hnow : s.now ≤ anchorAt.1) (hscopeAt : anchorAt.1 ≤ scopeAt.1)
    (hepoch : 0 ≤ s.authority.epoch.1) (hrange : s.authority.epoch.1 + scopeAt.1 < 2 ^ 63)
    (hrevision : s.authority.safety.revision.1 + 3 < 2 ^ 64)
    (hsteady : Steady s.authority (s.performOpen scope blocks anchorAt scopeAt leaseAt).1)
    {found : Option LifecycleClockSafety} (hfind : findCatalogAnchor s.objects none = .ok found)
    (hwithin : ∀ r ∈ found, safeAnchorAt s.authority anchorAt ≤ r.anchor.1 ∧
      r.anchor.1 ≤ s.authority.epoch.1 + anchorAt.1 + reconciliationBound s.authority)
    {frontier : Option IngestTime} (hfront : recover s.objects scope = .ok frontier) {durable : IngestTime}
    (hdur : Instance.durableInstant frontier blocks = some durable) :
    durable.1 ≤ s.authority.epoch.1 + scopeAt.1 + reconciliationBound s.authority := by
  by_contra hfar
  obtain ⟨hok, hnext⟩ := h.recovers hfind hepoch (by omega) hrevision fun r hr => (hwithin r hr).1
  obtain ⟨hline, hfollows⟩ := h.line.recoverCatalogAnchor s.objects hnow fun r hr => by
    rw [hfind] at hr
    cases hr
    exact ⟨hwithin r rfl, h.record hfind⟩
  obtain ⟨visits, hvisits⟩ := performOpen_second scopeAt leaseAt hok hfront hdur
  obtain ⟨wall, hwall, hvalue⟩ := steadyWall_of_lt hepoch hrange
  rw [hvisits] at hsteady
  obtain ⟨-, -, hcertain, -⟩ := hsteady
  change OnLine (s.authority.recoverCatalogAnchor s.objects (.ok anchorAt) (s.wall anchorAt)).2 _ at hline
  change Follows _ (s.authority.recoverCatalogAnchor s.objects (.ok anchorAt) (s.wall anchorAt)).2 at hfollows
  revert hcertain hline hfollows hnext
  generalize (s.authority.recoverCatalogAnchor s.objects (.ok anchorAt) (s.wall anchorAt)).2 = a
  intro hnext hcertain hline hfollows
  have hbound : reconciliationBound a = reconciliationBound s.authority := by
    unfold reconciliationBound
    rw [hfollows.policy]
  have hnear := hline.near
  have helapsed := hline.elapsed
  have hdurable := durable.2
  have hlead : a.safety.anchor.1 = s.authority.epoch.1 + a.safety.anchorElapsed.1 + lead a := by
    unfold lead
    rw [hfollows.epoch]
    omega
  have hhigh : a.safety.anchor.1 + scopeAt.1 - a.safety.anchorElapsed.1 < 2 ^ 63 := by omega
  obtain ⟨advanced, hadv, -⟩ := advanceFrom_of_le (helapsed.trans hscopeAt) (by omega) hhigh
  have hpositive : 0 ≤ reconciliationBound a := Int.natCast_nonneg _
  have hbeyond : wall.1 + reconciliationBound a < durable.1 := by omega
  obtain ⟨safety, hobserved, -, huncertain⟩ :=
    reconcile_observes hline.source hline.correction hnext hadv (show 0 ≤ wall.1 by omega)
      (show wall.1 ≤ durable.1 by omega)
  rw [recoverScope_safety, Instance.wall, hwall, hobserved] at hcertain
  cases (huncertain hbeyond).symm.trans hcertain

theorem OnCourse.step {s' : Instance} {operation : Operation} (hstep : s.step operation = some s') :
    (OpensWithinBound s operation → StaysSteady s operation ∧ OnCourse s') ∧
      (InRange s operation → StaysSteady s operation → OpensWithinBound s operation) := by
  unfold Instance.step at hstep
  split at hstep
  case isFalse => cases hstep
  case isTrue hadmits =>
    cases hstep
    cases operation with
    | openLedger scope blocks anchorAt scopeAt leaseAt =>
      obtain ⟨hnow, hscopeAt, hleaseAt⟩ := of_decide_eq_true hadmits
      refine ⟨h.performOpen hnow hscopeAt hleaseAt, ?_⟩
      rintro ⟨hepoch, hrange, hrevision⟩ hsteady found hfound
      have hfind := mem_toOption_iff.mp hfound
      have hwithin : ∀ r ∈ found, safeAnchorAt s.authority anchorAt ≤ r.anchor.1 ∧
          r.anchor.1 ≤ s.authority.epoch.1 + anchorAt.1 + reconciliationBound s.authority := by
        rintro r hr
        rw [Option.mem_def.mp hr] at hfind
        exact h.record_within hepoch (by omega) hrevision hsteady hfind
      exact ⟨hwithin, fun frontier hfront durable hdur =>
        h.durable_within hnow hscopeAt hepoch hrange hrevision hsteady hfind hwithin
          (mem_toOption_iff.mp hfront) hdur⟩
    | beginStoreBlock scope publication elapsed =>
      have hlater : OnCourse { s with now := elapsed.1 } := h.of_line (h.line.later (of_decide_eq_true hadmits)) rfl
      exact ⟨fun _ => hlater.performMint scope publication rfl, fun _ _ => trivial⟩
    | retentionPass scope publication elapsed =>
      have hlater : OnCourse { s with now := elapsed.1 } := h.of_line (h.line.later (of_decide_eq_true hadmits)) rfl
      exact ⟨fun _ => hlater.performRetention scope publication rfl, fun _ _ => trivial⟩
    | leaseTime scope elapsed =>
      have hlater : OnCourse { s with now := elapsed.1 } := h.of_line (h.line.later (of_decide_eq_true hadmits)) rfl
      exact ⟨fun _ => hlater.performLeaseTime scope rfl, fun _ _ => trivial⟩

omit h

theorem findCatalogAnchor_some {found : Option LifecycleClockSafety}
    (h : findCatalogAnchor objects (some r) = .ok found) : found = some r := by
  induction objects with
  | nil =>
    cases h
    rfl
  | cons bytes objects ih =>
    unfold findCatalogAnchor at h
    split at h
    · cases h
    · exact ih h
    · cases h

theorem findCatalogAnchor_none (h : findCatalogAnchor objects none = .ok none) :
    ∀ bytes ∈ objects, ∀ r, decodeCatalogAnchor bytes ≠ .ok (some r) := by
  induction objects with
  | nil =>
    intro bytes hbytes
    cases hbytes
  | cons head objects ih =>
    unfold findCatalogAnchor at h
    intro bytes hbytes r hr
    rcases List.mem_cons.mp hbytes with rfl | hbytes
    · rw [hr] at h
      cases findCatalogAnchor_some h
    · split at h
      · cases h
      · exact ih h bytes hbytes r hr
      · cases findCatalogAnchor_some h

theorem OnCourse.start {epoch : UnixNanoseconds} {policy : LifecycleClockPolicy}
    (hnone : findCatalogAnchor objects none = .ok none) : OnCourse (Instance.start epoch policy objects) := by
  refine ⟨⟨rfl, rfl, rfl, ?_, ?_, Nat.le_refl _⟩, ?_⟩
  · change 0 ≤ epoch.1 - (epoch.1 + 0)
    omega
  · change epoch.1 - (epoch.1 + 0) ≤ (policy.maximumReconciliationOffsetNanoseconds.1 : Int)
    omega
  · exact fun bytes hbytes r hr => absurd hr (findCatalogAnchor_none hnone bytes hbytes r)

/-- A mint at 5 ns publishes the anchor, and the ledger is opened again at a later elapsed time. -/
def reopening (reopenedAt : U64) : List Operation :=
  [.openLedger .sample [] (Unsigned.zero 64) (Unsigned.zero 64) (Unsigned.zero 64),
    .beginStoreBlock .sample .committed ⟨5, by decide⟩,
    .openLedger .sample [some ⟨1005, by decide⟩] reopenedAt reopenedAt reopenedAt]

/-- A catalog without an anchor, with a frontier that is a second ahead of the process. -/
def leadingStart : Instance :=
  Instance.start ⟨1000, by decide⟩ .default [encode .sample ⟨1000001000, by decide⟩]

def steadyStart : Instance := Instance.start ⟨1000, by decide⟩ .default []

end Positron.Clock
