import Positron.Lease.Exchange

/-! Reservations do not leak: each has its record in the catalog or a pending release, which the next
operation with a working catalog carries out. The exception is a replacement that becomes durable
while the process is told that it failed and cannot look. -/

namespace Positron.Lease
open MachineInt ByteCodec Triples Runs

def Operation.mark : Operation → Option U64
  | .resume _ _ marker _ _ => marker.map Prod.fst
  | _ => none

/-- Whether the process learns of every replacement that becomes durable in the operation. -/
def Operation.SeesReplacement : Operation → Prop
  | .commit _ env => ¬ Unseen env.publish
  | .rollback _ env => ¬ Unseen env.publish
  | _ => True

instance : DecidablePred Operation.SeesReplacement := by
  intro operation
  cases operation <;> unfold Operation.SeesReplacement <;> infer_instance

theorem others_of_admits {others : List Bytes} (h : (others.all fun b => !leaseMagic.isPrefixOf b)) :
    ∀ bytes ∈ others, leaseMagic.isPrefixOf bytes = false := by
  intro bytes hbytes
  simpa using List.all_eq_true.mp h bytes hbytes

section Runs
variable {A : U64 → Prop} {B : Prop} {scope : SegmentScope}

variable (hA : B → ∀ sequence, A sequence → sequence ≠ noSequence)
include hA

variable {operation : Operation} {catalog : Generation}

theorem perform_triple (hadmits : admits operation)
    (hmark : ∀ sequence ∈ operation.mark, A sequence) (hseen : B → operation.SeesReplacement) :
    Keeps A B scope (perform operation) := by
  cases operation with
  | create window expected env =>
    exact .discards (createSnapshotLeaseInternal_triple hA window expected env)
  | resume identity now marker expected env =>
    refine .discards (resumeSnapshotLeaseMarked_triple hA identity now ?_ expected env)
    intro mark hmem
    exact hmark mark.1 (Option.mem_map_of_mem Prod.fst hmem)
  | usage identity now env => exact .discards (snapshotLeaseUsage_triple identity now env)
  | recordUsage identity attempt delta env retryEnv =>
    exact .discards (recordSnapshotLeaseUsage_triple hA identity attempt delta env retryEnv)
  | dropAttempt identity => exact inv_quiet (dropAttempt_quiet identity)
  | prepare oldIdentity window env =>
    exact prepareSnapshotLeaseReplacement_triple oldIdentity window env
  | commit index env =>
    exact withReplacement_triple index fun _ _ _ hprep =>
      commitReplacement_triple hprep index hseen
  | rollback index env =>
    exact withReplacement_triple index fun _ _ _ hprep =>
      rollbackReplacement_triple hprep index hseen
  | release identity env => exact releaseSnapshotLease_triple identity env
  | openLedger clock frontier blocks others segments env =>
    exact openLedger_triple hA clock frontier blocks (others_of_admits hadmits) segments env
  | advance frontier blocks | poison =>
    unfold perform
    exact inv_quiet (modifyLeases_quiet (fun _ => rfl) (fun _ => rfl) fun _ => rfl)
  | publishOthers others =>
    exact .bind (inv_quiet (refreshState_quiet none)) fun _ =>
      publishOthers_triple (others_of_admits hadmits) .committed

theorem step_inv {w w' : World} (hw : Inv A B scope w) (hmark : ∀ sequence ∈ operation.mark, A sequence)
    (hseen : B → operation.SeesReplacement) (h : w.step operation = some w') : Inv A B scope w' := by
  unfold World.step at h
  split at h
  · rename_i hadmits
    cases h
    have hends := perform_triple hA hadmits hmark hseen w hw
    unfold World.after
    cases hrun : (perform operation).run w with
    | ok _ w' =>
      rw [hrun] at hends
      exact hends
    | error failure w' =>
      rw [hrun] at hends
      exact hends
  · cases h

omit hA in
theorem start_inv (scope : SegmentScope) (retentionTime : Bool)
    (hcatalog : ∀ bytes ∈ catalog.objects, leaseMagic.isPrefixOf bytes = false) :
    Inv A B scope (World.start scope retentionTime catalog) := by
  refine ⟨⟨rfl, fun entry hentry => absurd hentry List.not_mem_nil,
    fun bytes hbytes => Or.inl (hcatalog bytes hbytes),
    fun bytes hbytes => Or.inl (hcatalog bytes hbytes), Or.inl rfl,
    fun replacement hmem => absurd hmem List.not_mem_nil⟩, ?_⟩
  intro _ identity hsome
  cases hsome

theorem run_inv {retentionTime : Bool}
    (hcatalog : ∀ bytes ∈ catalog.objects, leaseMagic.isPrefixOf bytes = false) {operations : List Operation}
    {w : World} (hmark : ∀ operation ∈ operations, ∀ sequence ∈ operation.mark, A sequence)
    (hseen : B → ∀ operation ∈ operations, operation.SeesReplacement)
    (hrun : run World.step (World.start scope retentionTime catalog) operations = some w) :
    Inv A B scope w := by
  refine run_invariant (Inv A B scope)
    (fun _ operation => (∀ sequence ∈ operation.mark, A sequence) ∧ (B → operation.SeesReplacement))
    ?_ (start_inv scope retentionTime hcatalog) (everyStep_of_forall ?_ _) hrun
  · exact fun v operation v' hv hP hstep => step_inv hA hv hP.1 hP.2 hstep
  · exact fun operation hmem _ => ⟨hmark operation hmem, fun hB => hseen hB operation hmem⟩

end Runs

section Sentinel
variable {A : U64 → Prop} {scope : SegmentScope} {w : World} {bytes : Bytes}

theorem Sound.decode_iff (h : Sound A scope w) {record : LeaseRecord} (hlogged : (record, bytes) ∈ w.encoded) :
    decode bytes = .ok (some record) ↔ record.lastResumeSequence ≠ some noSequence := by
  rw [h.decode_logged hlogged]
  constructor
  · intro hdecode hsentinel
    rw [if_pos hsentinel] at hdecode
    cases hdecode
  · exact fun hsentinel => if_neg hsentinel

theorem Sound.published (h : Sound A scope w) (hbytes : bytes ∈ w.catalog.durable.objects)
    (hmagic : leaseMagic.isPrefixOf bytes) : ∃ record, (record, bytes) ∈ w.encoded := by
  rcases h.durable bytes hbytes with hother | hlogged
  · rw [hmagic] at hother
    cases hother
  · exact hlogged

theorem Sound.readable (h : Sound A scope w) (hA : ∀ sequence, A sequence → sequence ≠ noSequence)
    (hbytes : bytes ∈ w.catalog.durable.objects) : Readable bytes := by
  rcases h.durable bytes hbytes with hother | ⟨record, hlogged⟩
  · refine ⟨none, ?_⟩
    unfold decode
    rw [hother]
    rfl
  · exact ⟨some record, h.decode_of_ne hA hlogged⟩

end Sentinel

/-- Every accepted lease record decodes to itself if and only if its marker is not the sentinel, and
every published lease record is an accepted one. Where no resume asks for the sentinel, all of them
decode and the lease table stays readable. -/
theorem published_leases_decode_iff {scope : SegmentScope} {retentionTime : Bool} {catalog : Generation}
    (hcatalog : ∀ bytes ∈ catalog.objects, leaseMagic.isPrefixOf bytes = false) {operations : List Operation}
    {w : World} (hrun : run World.step (World.start scope retentionTime catalog) operations = some w) :
    (∀ record bytes, (record, bytes) ∈ w.encoded → encode record = .ok bytes ∧
      (decode bytes = .ok (some record) ↔ record.lastResumeSequence ≠ some noSequence)) ∧
    (∀ bytes ∈ w.catalog.durable.objects, leaseMagic.isPrefixOf bytes = true →
      ∃ record, (record, bytes) ∈ w.encoded) ∧ ((∀ operation ∈ operations, operation.mark ≠ some noSequence) →
      (∀ record bytes, (record, bytes) ∈ w.encoded → decode bytes = .ok (some record)) ∧
      ∃ table, records w.catalog.durable.objects = .ok table) := by
  have hany : Inv (fun _ => True) False scope w :=
    run_inv (fun hB => hB.elim) hcatalog (fun _ _ _ _ => trivial) (fun hB => hB.elim) hrun
  refine ⟨?_, ?_, ?_⟩
  · intro record bytes hlogged
    exact ⟨(hany.sound.log _ hlogged).1, hany.sound.decode_iff hlogged⟩
  · exact fun bytes hbytes hmagic => hany.sound.published hbytes hmagic
  · intro hmarks
    have hinv : Inv (fun sequence => sequence ≠ noSequence) False scope w := by
      refine run_inv (fun hB => hB.elim) hcatalog ?_ (fun hB => hB.elim) hrun
      intro operation hmem sequence hmark hsentinel
      apply hmarks operation hmem
      rw [← hsentinel]
      exact hmark
    constructor
    · exact fun record bytes hlogged => hinv.sound.decode_of_ne (fun _ h => h) hlogged
    · exact records_readable fun bytes hbytes => hinv.sound.readable (fun _ h => h) hbytes

/-! Runs on a ledger with a single lease. -/

def sampleIdentity : SnapshotLeaseId := ⟨⟨⟨List.replicate 16 3, rfl⟩, rfl⟩⟩

def calm (identity : SnapshotLeaseId) (publish : PublicationOutcome) : Surroundings where
  freshIdentity := .ok identity
  retryRefresh := none
  retry := ⟨.committed, true⟩
  refresh := none
  prune := ⟨.committed, true⟩
  normalizeRefresh := none
  normalize := ⟨.committed, true⟩
  snapshot := .ok ()
  reserved := true
  resized := true
  restored := true
  publish := publish
  reconcileRefresh := none
  recheckRefresh := none

def sampleWindow : LeaseWindow := ⟨⟨10, by decide⟩, ⟨100, by decide⟩⟩

def resumedAt (sequence : U64) : List Operation :=
  [.openLedger (.strict none) (Unsigned.zero 64) [] [] .committed (calm sampleIdentity ⟨.committed, true⟩),
    .create sampleWindow none (calm sampleIdentity ⟨.committed, true⟩),
    .resume sampleIdentity (.ok ⟨11, by decide⟩) (some (sequence, noDigest)) none
      (calm sampleIdentity ⟨.committed, true⟩)]

def emptyCatalog : Generation := ⟨Unsigned.zero 64, []⟩

theorem plain_marker_stays_readable :
    ∃ w, run World.step (World.start .sample true emptyCatalog) (resumedAt ⟨5, by decide⟩) = some w ∧
      w.catalog.durable.objects.length = 1 ∧ ∃ table, records w.catalog.durable.objects = .ok table := by
  have hruns : ((run World.step (World.start .sample true emptyCatalog)
      (resumedAt ⟨5, by decide⟩)).any fun w => decide (w.catalog.durable.objects.length = 1)) = true := by
    decide +kernel
  obtain ⟨w, hrun, hlen⟩ := (Option.any_eq_true _ _).mp hruns
  have hmarks : ∀ operation ∈ resumedAt ⟨5, by decide⟩, operation.mark ≠ some noSequence := by
    decide
  exact ⟨w, hrun, of_decide_eq_true hlen,
    ((published_leases_decode_iff (fun _ h => absurd h List.not_mem_nil) hrun).2.2 hmarks).2⟩

/-- A resume at the last sequence publishes a record that cannot be read, and with it the table. -/
theorem sentinel_marker_makes_table_unreadable :
    ∃ w, run World.step (World.start .sample true emptyCatalog) (resumedAt noSequence) = some w ∧
      ∃ entry ∈ w.encoded, encode entry.1 = .ok entry.2 ∧ entry.2 ∈ w.catalog.durable.objects ∧
        decode entry.2 = reject .integrityCorruption ∧
        records w.catalog.durable.objects = reject .integrityCorruption := by
  have hruns : ((run World.step (World.start .sample true emptyCatalog)
      (resumedAt noSequence)).any fun w => w.encoded.any fun entry =>
        decide (encode entry.1 = .ok entry.2 ∧ entry.2 ∈ w.catalog.durable.objects ∧
          decode entry.2 = reject .integrityCorruption ∧
          records w.catalog.durable.objects = reject .integrityCorruption)) := by
    decide +kernel
  obtain ⟨w, hrun, hentry⟩ := (Option.any_eq_true _ _).mp hruns
  obtain ⟨entry, hmem, hfacts⟩ := List.any_eq_true.mp hentry
  exact ⟨w, hrun, entry, hmem, of_decide_eq_true hfacts⟩

theorem carriedOver_readable (remove : List SnapshotLeaseId) {objects : List Bytes}
    (h : ∀ bytes ∈ objects, Readable bytes) : ∃ kept, carriedOver remove objects = .ok kept := by
  induction objects with
  | nil => exact ⟨[], rfl⟩
  | cons head objects ih =>
    obtain ⟨found, hfound⟩ := h head List.mem_cons_self
    obtain ⟨later, hlater⟩ := ih fun bytes hbytes => h bytes (List.mem_cons_of_mem _ hbytes)
    unfold carriedOver
    rw [hfound, hlater]
    cases found with
    | none => exact ⟨head :: later, rfl⟩
    | some record => exact ⟨if record.identity ∈ remove then later else head :: later, rfl⟩

variable {w : World}

theorem commit_committed (hroom : w.catalog.durable.number.1 + 1 < 2 ^ 64)
    (hread : readCatalog w.catalog = ⟨w.catalog.durable, w.catalog.durable⟩) (objects : List Bytes) :
    ∃ generation : Generation, (commit w.catalog.durable.identity objects .committed).run w =
        .ok (.ok generation) { w with catalog := ⟨generation, generation⟩ } := by
  obtain ⟨number, hnum⟩ : ∃ number : U64, w.catalog.durable.number.checkedAdd ⟨1, by decide⟩ = some number :=
    ⟨⟨_, hroom⟩, Unsigned.checkedAdd_eq_some_iff.mpr rfl⟩
  refine ⟨⟨number, objects⟩, ?_⟩
  unfold commit
  rw [EStateM.run_bind]
  simp only [EStateM.run_get, hread, ne_eq, not_true_eq_false, if_false, hnum]
  rfl

theorem publishMany_committed (hroom : w.catalog.durable.number.1 + 1 < 2 ^ 64)
    (hread : readCatalog w.catalog = ⟨w.catalog.durable, w.catalog.durable⟩)
    (hreadable : ∀ bytes ∈ w.catalog.durable.objects, Readable bytes) (remove : List SnapshotLeaseId)
    {outcome : PublicationOutcome} (houtcome : outcome.commit = .committed) :
    ∃ generation : Generation, (publishMany w.catalog.durable remove [] outcome).run w =
        .ok generation { w with catalog := ⟨generation, generation⟩ } := by
  obtain ⟨kept, hkept⟩ := carriedOver_readable remove hreadable
  obtain ⟨generation, hcommit⟩ := commit_committed hroom hread (kept ++ [])
  refine ⟨generation, ?_⟩
  change (publishManyInner _ _ _ _ _ _).run w = _
  unfold publishManyInner
  rw [hkept, houtcome]
  change EStateM.run (commit w.catalog.durable.identity (kept ++ []) .committed >>= _) w = _
  rw [EStateM.run_bind, hcommit]
  rfl

/-- With a working catalog a retry succeeds and drops every reservation that was to be released. -/
theorem retryPendingReleases_releases {scope : SegmentScope}
    (hinv : Inv (fun sequence => sequence ≠ noSequence) True scope w) {env : Surroundings}
    (hrefresh : env.retryRefresh = none) (hretry : env.retry.commit = .committed)
    (hroom : w.catalog.durable.number.1 + 1 < 2 ^ 64) :
    ∃ result w', (retryPendingReleases env).run w = .ok result w' ∧ w'.leases.pending.identities = [] ∧
      ∀ identity ∈ w.leases.pending.identities, w'.leases.reservations identity = none := by
  have hreadable : ∀ bytes ∈ w.catalog.durable.objects, Readable bytes :=
    fun bytes hbytes => hinv.sound.readable (fun _ h => h) hbytes
  have hread := readCatalog_known hinv.sound.known
  obtain ⟨recorded, hrecorded⟩ := records_readable hreadable
  have hdropped : ∀ v : World, v.leases = w.leases → ∀ identity ∈ w.leases.pending.identities,
      (w.leases.pending.identities.foldl LeaseState.forget v.leases).reservations identity = none := by
    intro v hv identity hmem
    rw [hv, ← Option.not_isSome_iff_eq_none]
    intro hsome
    exact ((foldl_forget w.leases.pending.identities w.leases).2 identity hsome).1 hmem
  apply Ends.returned
  unfold retryPendingReleases
  rw [EStateM.run_bind]
  simp only [EStateM.run_get]
  split
  · rename_i hnone
    refine ⟨hnone, ?_⟩
    rw [hnone]
    exact fun identity hmem => absurd hmem List.not_mem_nil
  · rw [hrefresh]
    -- the durable generation has been read before anything is published
    obtain ⟨now, hnow⟩ : ∃ now : World,
        now = { w with catalog := ⟨w.catalog.durable, w.catalog.durable⟩ } := ⟨_, rfl⟩
    refine Triple.ends (P := (· = w)) ?_ rfl
    refine .bind (Q := fun _ v => v = now) (Triple.changes ?_) fun _ => ?_
    · rintro _ rfl
      rw [hread, hnow]
    refine .bind (Q := fun basis v => v = now ∧ basis = w.catalog.durable) ?_ fun basis =>
      Triple.assuming fun hbasis => ?_
    · rintro _ rfl
      exact ⟨rfl, congrArg (fun v : World => v.catalog.current) hnow⟩
    subst hbasis
    refine .bind (Q := fun _ v => v = now) (.lifts (fun _ _ _ hv => hv) ?_) fun _ => ?_
    · intro failure hfail
      rw [hrecorded] at hfail
      cases hfail
    refine .ite (fun _ => ?_) fun _ => .changes ?_
    · refine .bind (.discards (S := fun v => v.leases = w.leases) ?_) fun _ =>
        Triple.changes fun v hv => ⟨rfl, hdropped v hv⟩
      rintro _ rfl
      rw [hnow]
      obtain ⟨generation, hpub⟩ := publishMany_committed
        (w := { w with catalog := ⟨w.catalog.durable, w.catalog.durable⟩ }) hroom
        (if_neg (lt_irrefl _)) hreadable _ hretry
      rw [hpub]
      rfl
    · rintro _ rfl
      exact ⟨rfl, hdropped _ (by rw [hnow])⟩

/-- In a run whose resumes never ask for the sentinel, and whose replacements never become durable
unseen, no reservation leaks; and what is pending is released by the next operation that finds a
working catalog. -/
theorem reservations_are_recorded_or_pending {scope : SegmentScope} {retentionTime : Bool}
    {catalog : Generation} (hcatalog : ∀ bytes ∈ catalog.objects, leaseMagic.isPrefixOf bytes = false)
    {operations : List Operation} {w : World}
    (hmarks : ∀ operation ∈ operations, operation.mark ≠ some noSequence)
    (hseen : ∀ operation ∈ operations, operation.SeesReplacement)
    (hrun : run World.step (World.start scope retentionTime catalog) operations = some w) :
    (∀ identity, (w.leases.reservations identity).isSome = true →
      Recorded w identity ∨ identity ∈ w.leases.pending.identities) ∧
    ∀ env : Surroundings, env.retryRefresh = none → env.retry.commit = .committed →
      w.catalog.durable.number.1 + 1 < 2 ^ 64 → ∃ result w', (retryPendingReleases env).run w = .ok result w' ∧
        w'.leases.pending.identities = [] ∧
        ∀ identity ∈ w.leases.pending.identities, w'.leases.reservations identity = none := by
  have hinv : Inv (fun sequence => sequence ≠ noSequence) True scope w := by
    refine run_inv (fun _ _ h => h) hcatalog ?_ (fun _ => hseen) hrun
    intro operation hmem sequence hmark hsentinel
    apply hmarks operation hmem
    rw [← hsentinel]
    exact hmark
  refine ⟨hinv.held trivial, ?_⟩
  intro env hrefresh hretry hroom
  exact retryPendingReleases_releases hinv hrefresh hretry hroom

/-! A lease is replaced by a second one. -/

def otherIdentity : SnapshotLeaseId := ⟨⟨⟨List.replicate 16 4, rfl⟩, rfl⟩⟩

def replacing (outcome : PublicationOutcome) : List Operation :=
  [.openLedger (.strict none) (Unsigned.zero 64) [] [] .committed (calm sampleIdentity ⟨.committed, true⟩),
    .create sampleWindow none (calm sampleIdentity ⟨.committed, true⟩),
    .prepare sampleIdentity sampleWindow (calm otherIdentity ⟨.committed, true⟩),
    .commit 0 (calm otherIdentity outcome)]

theorem acknowledged_replacement_is_recorded :
    ∃ w, run World.step (World.start .sample true emptyCatalog) (replacing ⟨.unacknowledged, true⟩) =
        some w ∧ (w.leases.reservations otherIdentity).isSome = true ∧
      (Recorded w otherIdentity ∨ otherIdentity ∈ w.leases.pending.identities) := by
  have hruns : ((run World.step (World.start .sample true emptyCatalog)
      (replacing ⟨.unacknowledged, true⟩)).any fun w =>
        (w.leases.reservations otherIdentity).isSome) := by
    decide +kernel
  obtain ⟨w, hrun, hreserved⟩ := (Option.any_eq_true _ _).mp hruns
  refine ⟨w, hrun, hreserved, ?_⟩
  exact (reservations_are_recorded_or_pending (fun _ h => absurd h List.not_mem_nil) (by decide)
    (by decide) hrun).1 otherIdentity hreserved

def recordsIdentity (identity : SnapshotLeaseId) (bytes : Bytes) : Bool :=
  match decode bytes with
  | .ok (some record) => decide (record.identity = identity)
  | _ => false

/-- The replacement is durable and the caller is told of an ambiguous failure: the reservation stays
under the old identity, which has no record left and no pending release. -/
theorem unseen_replacement_strands_reservation :
    ∃ w, run World.step (World.start .sample true emptyCatalog) (replacing ⟨.unacknowledged, false⟩) =
        some w ∧ (w.leases.reservations sampleIdentity).isSome = true ∧
      ¬ Recorded w sampleIdentity ∧ sampleIdentity ∉ w.leases.pending.identities := by
  have hruns : ((run World.step (World.start .sample true emptyCatalog)
      (replacing ⟨.unacknowledged, false⟩)).any fun w =>
        (w.leases.reservations sampleIdentity).isSome &&
        decide (sampleIdentity ∉ w.leases.pending.identities) &&
        w.catalog.durable.objects.all fun bytes => !recordsIdentity sampleIdentity bytes) := by
    decide +kernel
  obtain ⟨w, hrun, hfacts⟩ := (Option.any_eq_true _ _).mp hruns
  rw [Bool.and_eq_true, Bool.and_eq_true] at hfacts
  obtain ⟨⟨hreserved, hpending⟩, hobjs⟩ := hfacts
  refine ⟨w, hrun, hreserved, ?_, of_decide_eq_true hpending⟩
  rintro ⟨bytes, hbytes, record, hdecode, hid, _⟩
  have hother := List.all_eq_true.mp hobjs bytes hbytes
  have hrecs : recordsIdentity sampleIdentity bytes := by
    rw [recordsIdentity, hdecode]
    exact decide_eq_true hid
  rw [hrecs] at hother
  cases hother

end Positron.Lease
