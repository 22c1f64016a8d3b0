import Positron.Lease.Creation

/-! A resume and a charge of usage keep the lease table sound: the expired leases go under pending releases, and a
record is only replaced by a version of the same identity. In an exchange of leases the reservation follows the
record, unless the publication took effect without the process learning of it: then nothing is registered for the
identity that the reservation still stands under. -/

namespace Positron.Lease
open MachineInt ByteCodec Triples List

section Resumption
variable {A : U64 → Prop} {B : Prop} {scope : SegmentScope} {known : List Generation}
  {logged : List (LeaseRecord × Bytes)}
variable {basis : Generation} {identity : SnapshotLeaseId} {record : LeaseRecord}

def PruneOutcome (A : U64 → Prop) (B : Prop) (scope : SegmentScope) (known : List Generation)
    (logged : List (LeaseRecord × Bytes)) (expired : List SnapshotLeaseId) :
    Except LedgerFailure Generation → World → Prop
  | .ok generation, w => Pruned A B scope (generation :: known) logged expired w
  | .error failure, w => Inv A B scope w ∧
      (failure.completion ≠ .commitAmbiguous → Stage A B scope known logged w)

theorem Stage.pruned {w w' : World} {expired : List SnapshotLeaseId} (hw : Stage A B scope known logged w)
    (h : Took expired [] w w') : Pruned A B scope (w'.catalog.durable :: known) logged expired w' := by
  obtain ⟨hleases, henc, _⟩ := h.leases
  have hsound := hw.sound.took (fun bytes hbytes => absurd hbytes not_mem_nil) h
  refine ⟨hsound, ?_, ?_, ?_⟩
  · intro hB identity hsome
    rw [hleases] at hsome
    by_cases hexpired : identity ∈ expired
    · exact .inl hexpired
    · exact .inr ((hw.recorded hB identity hsome).took hexpired h)
  · intro basis hbasis
    rcases mem_cons.mp hbasis with rfl | hbasis
    · exact ⟨Or.inl rfl, hsound.durable⟩
    · exact (hw.known basis hbasis).took h
  · rw [henc]
    exact hw.logged

theorem publishPrune_triple (hbasis : basis ∈ known) (expired : List SnapshotLeaseId) (outcome : PublicationOutcome) :
    Triple (fun w => Stage A B scope known logged w ∧
        ∀ identity ∈ expired, identity ∈ w.leases.pending.identities)
      (attempt (publishManyInner basis basis.identity expired [] false outcome))
      (PruneOutcome A B scope known logged expired) fun _ => Inv A B scope := by
  refine .attempts (publishes (fun w hw => ⟨hw.1.sound.known, (hw.1.known basis hbasis).known⟩) ?_ ?_ ?_)
  · exact fun w w' hw h => hw.1.pruned h
  · intro failure w w' hw h
    have hstage := hw.1.quiet h.quiet
    exact ⟨hstage.inv, fun _ => hstage⟩
  · intro failure w w' hw h hlost
    have hpruned := hw.1.pruned h
    obtain ⟨hleases, _, _⟩ := h.leases
    refine ⟨⟨hpruned.sound, ?_⟩, ?_⟩
    · intro hB identity hsome
      rcases hpruned.recorded hB identity hsome with hexpired | hrecorded
      · rw [hleases]
        exact .inr (hw.2 identity hexpired)
      · exact .inl hrecorded
    · intro hdefinite
      rcases hlost with ⟨hambiguous, _⟩ | ⟨bytes, hbytes, _⟩
      · exact absurd hambiguous hdefinite
      · exact absurd hbytes not_mem_nil

theorem pruneExpired_triple (hbasis : basis ∈ known) (expired : List SnapshotLeaseId) (env : Surroundings) :
    Stages A B scope known logged (pruneExpired basis expired env)
      fun generation => Stage A B scope (generation :: known) logged := by
  refine .bind ((registerAllPending_adds (fun _ _ hquiet hw => Stage.quiet hquiet hw)
    expired).weaken (fun _ hw => hw) (fun _ _ hw => hw) fun _ _ hw => hw.inv) fun _ => ?_
  refine .bind (publishPrune_triple hbasis expired env.prune) fun result => ?_
  cases result with
  | ok generation =>
    exact .bind (.changes fun _ hw => Pruned.removeReservations hw) fun _ =>
      Triple.returns fun _ hw => hw
  | error failure =>
    refine .ite (fun hdefinite => ?_) fun _ => .fails fun _ hw => hw.1
    exact .bind ((withdrawPending_triple expired).weaken (fun _ hw => hw.2 hdefinite)
      (fun _ _ hw => hw) fun _ _ hw => hw) fun _ => .fails fun _ hw => hw.inv

theorem pruneIfExpired_triple (hbasis : basis ∈ known) (expired : List SnapshotLeaseId) (env : Surroundings) :
    Stages A B scope known logged (pruneIfExpired basis expired env)
      fun pruned => Stage A B scope (pruned.toList ++ known) logged :=
  Triple.ite (fun _ => .returns fun _ hw => hw) fun _ =>
    Triple.maps (pruneExpired_triple hbasis expired env)

structure Subject (A : U64 → Prop) (scope : SegmentScope) (identity : SnapshotLeaseId)
    (record : LeaseRecord) : Prop where
  good : Good A record
  scope : record.scope = scope
  identity : record.identity = identity

variable (hA : B → ∀ sequence, A sequence → sequence ≠ noSequence)
include hA

theorem normalizeLegacyLease_triple (hrec : Subject A scope identity record) (now : U64) (env : Surroundings) :
    Stages A B scope known logged (normalizeLegacyLease record now env)
      fun normalized w => Stage A B scope known logged w ∧ Subject A scope identity normalized := by
  have hgood : Good A { record with observedAt := now } :=
    ⟨⟨hrec.good.consistent.repeats, hrec.good.consistent.marker,
      hrec.good.consistent.digest⟩, hrec.good.sequences⟩
  refine .bind (stage_encodes hgood) fun encoded => ?_
  refine .bind (stage_quiet (.lifts _)) fun amounts => ?_
  refine stage_checks ?_
  refine stage_fresh fun basis => ?_
  refine .bind (.discards ((stage_publishes hA mem_cons_self mem_cons_self ?_ ?_
    env.normalize).weaken (fun _ hw => hw) (fun _ _ hw => hw) fun _ _ hw => hw.inv)) fun _ => ?_
  · rfl
  · exact hrec.scope
  refine .bind (.reads (Q := fun _ w => Stage A B scope known logged w ∧
    (B → Recorded w record.identity)) fun _ hw => ⟨hw.1.mono (fun _ => mem_cons_of_mem _)
      fun _ => mem_cons_of_mem _, hw.2⟩) fun seen => ?_
  refine .bind (.changes (Q := fun _ => Stage A B scope known logged) ?_) fun _ => ?_
  · rintro w ⟨hw, hpub⟩
    refine ⟨hw.sound.leases rfl, ?_, fun basis hbasis => ⟨(hw.known basis hbasis).known,
      (hw.known basis hbasis).objects⟩, hw.logged⟩
    intro hB other hsome
    rcases isSome_setReservation hsome with ⟨rfl, _⟩ | ⟨_, hold⟩
    · exact hpub hB
    · exact hw.recorded hB other hold
  refine stage_checks ?_
  exact .returns fun _ hw => ⟨hw, hgood, hrec.scope, hrec.identity⟩

theorem normalizeIfLegacy_triple (hrec : Subject A scope identity record) (now : U64) (env : Surroundings) :
    Stages A B scope known logged (normalizeIfLegacy record now env)
      fun normalized w => Stage A B scope known logged w ∧ Subject A scope identity normalized :=
  Triple.ite (fun _ => normalizeLegacyLease_triple hA hrec now env) fun _ =>
    Triple.returns fun _ hw => ⟨hw, hrec⟩

variable {sequence : U64} {marker : Option (U64 × FixedBytes 32)}

omit hA in
theorem nextMarker_counts (hrec : record.Consistent) {priorDigest : FixedBytes 32}
    {resumeCount repeatedBatchCount : U64}
    (h : nextMarker (resumeMarkerFor record) sequence priorDigest = .ok (resumeCount, repeatedBatchCount)) :
    repeatedBatchCount.1 ≤ resumeCount.1 ∧ resumeCount.1 ≠ 0 := by
  unfold nextMarker at h
  split at h
  · cases h
  · dsimp only at h
    split at h
    · rename_i count repeats hcount hrepeats
      cases h
      have hone := Unsigned.checkedAdd_eq_some_iff.mp hcount
      have hadded := Unsigned.checkedAdd_eq_some_iff.mp hrepeats
      have hle : (if decide (0 < (resumeMarkerFor record).attempts.1 ∧
          (resumeMarkerFor record).sequence = sequence ∧
          (resumeMarkerFor record).priorDigest = priorDigest) = true then (⟨1, by decide⟩ : U64)
          else Unsigned.zero 64).1 ≤ 1 := by
        split
        · exact le_refl 1
        · exact Nat.zero_le 1
      have hbefore := hrec.repeats
      change resumeCount.1 = record.resumeCount.1 + 1 at hone
      change repeatedBatchCount.1 = record.repeatedBatchCount.1 + _ at hadded
      omega
    · cases h

theorem markResume_triple (hrec : Subject A scope identity record) (hseq : A sequence)
    (priorDigest : FixedBytes 32) (expected : Option (CatalogGenerationId × U64)) {pruned : Option Generation}
    (hpruned : ∀ basis ∈ pruned, basis ∈ known) (env : Surroundings) :
    Stages A B scope known logged (markResume record sequence priorDigest expected pruned env)
      fun _ => Stage A B scope known logged := by
  refine .bind (stage_quiet (setMarker_quiet _ _)) fun _ => ?_
  refine .bind (stage_lifts _) fun counts => .assuming fun hcounts => ?_
  obtain ⟨resumeCount, repeatedBatchCount⟩ := counts
  obtain ⟨hrepeats, hresumed⟩ := nextMarker_counts hrec.good.consistent hcounts
  have hgood : Good A { record with
      resumeCount := resumeCount
      repeatedBatchCount := repeatedBatchCount
      lastResumeSequence := some sequence
      lastResumePriorDigest := priorDigest } := by
    refine ⟨⟨hrepeats, iff_of_false (fun h => by cases h) hresumed, fun h => absurd h hresumed⟩, ?_⟩
    intro other hother
    cases hother
    exact hseq
  refine .bind (stage_encodes hgood) fun encoded => ?_
  refine .bind (stage_quiet (.lifts _)) fun amounts => ?_
  refine .bind stage_pin fun current => ?_
  have hbasis : pruned.getD current ∈ current :: known := by
    cases pruned with
    | none => exact mem_cons_self
    | some basis => exact mem_cons_of_mem _ (hpruned basis rfl)
  refine stage_checks ?_
  refine .bind (stage_quiet (beginTransaction_quiet _)) fun original => ?_
  refine .bind (stage_quiet (resizeOrCancel_quiet _ _ _)) fun _ => ?_
  refine .bind (.attempts (Q := fun _ => Stage A B scope (current :: known) _)
    ((stage_publishes hA hbasis mem_cons_self ?_ ?_ env.publish).weaken (fun _ hw => hw)
      (fun _ _ hw => hw.1) fun _ _ hw => hw)) fun result => ?_
  · rfl
  · exact hrec.scope
  cases result with
  | ok generation =>
    refine .bind (stage_quiet (setMarker_quiet _ _)) fun _ => ?_
    refine .bind (stage_quiet (setBaseline_quiet _ _)) fun _ => ?_
    exact .returns fun _ hw => hw.mono (fun _ => mem_cons_of_mem _) fun _ => mem_cons_of_mem _
  | error failure =>
    refine .ite (fun _ => ?_) fun _ => ?_
    · exact .bind (stage_quiet (setMarker_quiet _ _)) fun _ => .fails fun _ hw => hw.inv
    · exact .bind (stage_quiet (rollbackTransaction_quiet _ _ _)) fun _ =>
        Triple.fails fun _ hw => hw.inv

omit hA in
theorem requireRecord_triple (found : Option LeaseRecord) :
    Stages A B scope known logged (requireRecord found)
      fun record w => Stage A B scope known logged w ∧ found = some record := by
  cases found with
  | none => exact .fails fun _ hw => hw.inv
  | some record => exact .returns fun _ hw => ⟨hw, rfl⟩

omit hA in
theorem findRecord_subject {recorded : List LeaseRecord} (hgood : ∀ record ∈ recorded, Good A record)
    (h : findRecord identity scope recorded = some record) : Subject A scope identity record := by
  have hfound : record.identity = identity ∧ record.scope = scope := by
    simpa using find?_some h
  exact ⟨hgood record (mem_of_find?_eq_some h), hfound.2, hfound.1⟩

theorem resumeBody_triple (identity : SnapshotLeaseId) (now : U64)
    (hmarker : ∀ mark ∈ marker, A mark.1) (expected : Option (CatalogGenerationId × U64)) (env : Surroundings) :
    Triple (Stage A B scope [] []) (resumeBody identity now marker expected env)
      (fun _ => Inv A B scope) fun _ => Inv A B scope := by
  refine stage_fresh fun basis => ?_
  refine stage_checks ?_
  refine .bind (stage_records mem_cons_self) fun recorded => .assuming fun hgood => ?_
  refine .bind stage_reads fun seen => .assuming fun hseen => ?_
  refine .bind (pruneIfExpired_triple mem_cons_self _ env) fun pruned => ?_
  have hpruned : ∀ generation ∈ pruned, generation ∈ pruned.toList ++ [basis] :=
    fun generation hmem => mem_append_left _ (Option.mem_toList.mpr hmem)
  refine .bind (stage_quiet (modifyLeases_quiet (fun _ => rfl) (fun _ => rfl) fun _ => rfl)) fun _ => ?_
  refine .bind (requireRecord_triple _) fun found => .assuming fun hfound => ?_
  rw [hseen] at hfound
  have hsubject := findRecord_subject (fun record hmem => hgood record (mem_filter.mp hmem).1) hfound
  refine .bind (stage_quiet (.lifts _)) fun _ => ?_
  refine .bind (stage_quiet Within.reads) fun reserved => ?_
  refine stage_checks ?_
  refine .bind (normalizeIfLegacy_triple hA hsubject now env) fun record =>
    Triple.assuming fun hrec => ?_
  refine .bind (stage_quiet (.lifts _)) fun _ => ?_
  cases marker with
  | none => exact .returns fun _ hw => hw.inv
  | some mark =>
    refine .bind (markResume_triple hA hrec (hmarker mark rfl) mark.2 expected hpruned env) fun _ => ?_
    exact .returns fun _ hw => hw.inv

omit hA in
theorem acquireAttempt_quiet (identity : SnapshotLeaseId) : Within Quiet (acquireAttempt identity) := by
  refine .bind Within.reads fun w => ?_
  refine .bind (.requires _ _) fun _ => ?_
  refine .bind (.requires _ _) fun _ => ?_
  exact modifyLeases_quiet (fun _ => rfl) (fun _ => rfl) fun _ => rfl

omit hA in
theorem dropAttempt_quiet (identity : SnapshotLeaseId) : Within Quiet (dropAttempt identity) :=
  modifyLeases_quiet (fun _ => rfl) (fun _ => rfl) fun _ => rfl

theorem resumeSnapshotLeaseMarked_triple (identity : SnapshotLeaseId) (now : LedgerResult U64)
    (hmarker : ∀ mark ∈ marker, A mark.1)
    (expected : Option (CatalogGenerationId × U64)) (env : Surroundings) :
    Keeps A B scope (resumeSnapshotLeaseMarked identity now marker expected env) := by
  refine .bind (inv_quiet (.lifts _)) fun now => ?_
  refine .bind (inv_quiet requireHealthy_quiet) fun _ => ?_
  refine .bind (retry_triple env) fun _ => ?_
  refine .bind (stage_quiet Within.reads) fun seen => ?_
  refine stage_checks ?_
  refine .ite (fun _ => ?_) fun _ => resumeBody_triple hA identity _ hmarker expected env
  refine .bind (stage_quiet (acquireAttempt_quiet identity)) fun _ => ?_
  refine .bind (.attempts (Q := fun _ => Inv A B scope)
    (resumeBody_triple hA identity _ hmarker expected env)) fun result => ?_
  cases result with
  | ok grant => exact .returns fun _ hw => hw
  | error failure =>
    exact .bind (inv_quiet (dropAttempt_quiet identity)) fun _ => .fails fun _ hw => hw

end Resumption

section Usage
variable {A : U64 → Prop} {B : Prop} {scope : SegmentScope} {known : List Generation}
  {logged : List (LeaseRecord × Bytes)}

theorem cacheMarker_quiet (record : LeaseRecord) : Within Quiet (cacheMarker record) :=
  setMarker_quiet _ _

variable {basis : Generation}

theorem activeRecord_triple (identity : SnapshotLeaseId) (now : U64) (hbasis : basis ∈ known) :
    Stages A B scope known logged (activeRecord identity now basis)
      fun record w => Stage A B scope known logged w ∧ Subject A scope identity record := by
  refine .bind (stage_records hbasis) fun recorded => .assuming fun hgood => ?_
  refine .bind stage_reads fun seen => .assuming fun hseen => ?_
  refine .bind (requireRecord_triple _) fun record => .assuming fun hfound => ?_
  rw [hseen] at hfound
  refine stage_checks ?_
  refine .bind (stage_quiet (.lifts _)) fun _ => ?_
  refine stage_checks ?_
  exact .returns fun _ hw => ⟨hw, findRecord_subject hgood hfound⟩

theorem snapshotLeaseUsage_triple (identity : SnapshotLeaseId) (now : LedgerResult U64) (env : Surroundings) :
    Keeps A B scope (snapshotLeaseUsage identity now env) := by
  refine .bind (inv_quiet (.lifts _)) fun now => ?_
  refine .bind (inv_quiet requireHealthy_quiet) fun _ => ?_
  refine .bind (retry_triple env) fun _ => ?_
  refine .bind (stage_quiet Within.reads) fun seen => ?_
  refine stage_checks ?_
  refine stage_fresh fun basis => ?_
  refine .bind (activeRecord_triple identity _ List.mem_cons_self) fun record => ?_
  exact .returns fun _ hw => hw.1.inv

theorem pin_quiet : Within Quiet pin := Within.bind Within.reads fun _ => .returns _

theorem reconcileAmbiguousUsage_quiet (previous updated : LeaseRecord) (expectedEncoded : Bytes)
    (env : Surroundings) : Within Quiet (reconcileAmbiguousUsage previous updated expectedEncoded env) := by
  refine .bind (refreshState_quiet _) fun _ => ?_
  refine .bind pin_quiet fun snapshot => ?_
  refine .bind Within.reads fun w => ?_
  refine .bind (.lifts _) fun observed => ?_
  cases observed with
  | none => exact .bind (setMarker_quiet _ _) fun _ => .fails _
  | some found =>
    refine .bind (.lifts _) fun same => .ite ?_ (.ite ?_ ?_)
    · exact .bind (cacheMarker_quiet _) fun _ => .returns _
    · exact .bind (cacheMarker_quiet _) fun _ => .fails _
    · exact .bind (setMarker_quiet _ _) fun _ => .fails _

theorem usageUnchanged_quiet (mayRetry : Bool) (previous : LeaseRecord) (env : Surroundings) :
    Within Quiet (usageUnchanged mayRetry previous env) := by
  refine .ite (.returns _) ?_
  refine .bind (.attempts (refreshState_quiet _)) fun result => ?_
  cases result with
  | error failure => exact .returns _
  | ok _ =>
    refine .bind pin_quiet fun basis => ?_
    refine .bind Within.reads fun w => ?_
    cases records basis.objects with
    | error failure => exact .returns _
    | ok recorded => exact .returns _

theorem settleUsage_quiet (record : LeaseRecord) (isAttempt : Bool) (env : Surroundings) :
    Within Quiet (settleUsage record isAttempt env) := by
  have hrest : Within Quiet (do
      let w ← get
      if (w.leases.baselines record.identity).isSome then do
        let original ← beginTransaction record.identity
        if isAttempt then endTransaction record.identity
        else rollbackTransaction record.identity original env : LeaseM Unit) := by
    refine .bind Within.reads fun w => .ite ?_ (.returns _)
    refine .bind (beginTransaction_quiet _) fun original => .ite ?_ ?_
    · exact setBaseline_quiet _ _
    · exact rollbackTransaction_quiet _ _ _
  refine .ite ?_ hrest
  exact .bind (cacheMarker_quiet _) fun _ => hrest

variable (hA : B → ∀ sequence, A sequence → sequence ≠ noSequence)
include hA

theorem updateUsage_triple (hbasis : basis ∈ known) {identity : SnapshotLeaseId}
    {record : LeaseRecord} (hrec : Subject A scope identity record) (usage : SnapshotLeaseUsage)
    (mayRetry : Bool) (env : Surroundings) :
    Stages A B scope known logged (updateUsage basis record usage mayRetry env) fun _ => Inv A B scope := by
  have hgood : Good A { record with usage := usage } :=
    ⟨⟨hrec.good.consistent.repeats, hrec.good.consistent.marker,
      hrec.good.consistent.digest⟩, hrec.good.sequences⟩
  refine .bind (stage_encodes hgood) fun encoded => ?_
  refine .bind (stage_quiet (.lifts _)) fun amounts => ?_
  refine .bind (stage_quiet (beginTransaction_quiet _)) fun original => ?_
  refine .bind (stage_quiet (resizeOrCancel_quiet _ _ _)) fun _ => ?_
  refine .bind (.attempts (Q := fun _ => Inv A B scope)
    ((stage_publishes hA hbasis List.mem_cons_self ?_ ?_ env.publish).weaken (fun _ hw => hw)
      (fun _ _ hw => hw.1.inv) fun _ _ hw => hw.inv)) fun result => ?_
  · rfl
  · exact hrec.scope
  cases result with
  | ok generation =>
    refine .bind (inv_quiet (setBaseline_quiet _ _)) fun _ => ?_
    refine .bind (inv_quiet (cacheMarker_quiet _)) fun _ => ?_
    exact .returns fun _ hw => hw
  | error failure =>
    have hrollback : ∀ failure : LedgerFailure, Keeps A B scope
        (do rollbackTransaction record.identity original env; throw failure : LeaseM UsageStep) := fun failure =>
      Triple.bind (inv_quiet (rollbackTransaction_quiet _ _ _)) fun _ => .fails fun _ hw => hw
    refine .ite (fun _ => ?_) fun _ => hrollback failure
    refine .bind (inv_quiet (.attempts (reconcileAmbiguousUsage_quiet _ _ _ _))) fun reconciled => ?_
    cases reconciled with
    | ok settled =>
      exact .bind (inv_quiet (setBaseline_quiet _ _)) fun _ => .returns fun _ hw => hw
    | error failure =>
      refine .bind (inv_quiet (usageUnchanged_quiet _ _ _)) fun again => ?_
      exact .ite (fun _ => .returns fun _ hw => hw) fun _ => hrollback failure

theorem recordUsageOnce_triple (identity : SnapshotLeaseId) (attempt : Option (U64 × SnapshotLeaseUsage))
    (delta : SnapshotLeaseUsage) (mayRetry : Bool) (env : Surroundings) :
    Keeps A B scope (recordUsageOnce identity attempt delta mayRetry env) := by
  refine .bind (inv_quiet requireHealthy_quiet) fun _ => ?_
  refine .bind (inv_quiet Within.reads) fun _ => ?_
  refine .bind (inv_quiet (.requires _ _)) fun _ => ?_
  refine .bind (retry_triple env) fun _ => ?_
  refine stage_fresh fun basis => ?_
  refine .bind (stage_quiet Within.reads) fun seen => ?_
  refine .bind (activeRecord_triple identity _ List.mem_cons_self) fun record =>
    Triple.assuming fun hrec => ?_
  refine .bind (stage_quiet (.lifts _)) fun usage => ?_
  refine .ite (fun _ => ?_) fun _ =>
    updateUsage_triple hA List.mem_cons_self hrec usage mayRetry env
  exact .bind (stage_quiet (settleUsage_quiet _ _ _)) fun _ => .returns fun _ hw => hw.inv

theorem recordSnapshotLeaseUsage_triple (identity : SnapshotLeaseId)
    (attempt : Option (U64 × SnapshotLeaseUsage)) (delta : SnapshotLeaseUsage) (env retryEnv : Surroundings) :
    Keeps A B scope (recordSnapshotLeaseUsage identity attempt delta env retryEnv) := by
  refine .bind (recordUsageOnce_triple hA identity attempt delta true env) fun first => ?_
  cases first with
  | recorded usage => exact .returns fun _ hw => hw
  | again =>
    refine .bind (recordUsageOnce_triple hA identity attempt delta false retryEnv) fun second => ?_
    cases second with
    | recorded usage => exact .returns fun _ hw => hw
    | again => exact .fails fun _ hw => hw

end Usage

/-- The answer after which a replacement is durable and reported as a failure. -/
def Unseen (outcome : PublicationOutcome) : Prop :=
  outcome.commit = .unacknowledged ∧ outcome.refreshed = false

instance (outcome : PublicationOutcome) : Decidable (Unseen outcome) :=
  inferInstanceAs (Decidable (_ ∧ _))

theorem findEncoded_found {identity : SnapshotLeaseId} {scope : SegmentScope} {objects : List Bytes}
    {bytes : Bytes} {record : LeaseRecord} (h : findEncoded identity scope objects = .ok (some (bytes, record))) :
    bytes ∈ objects ∧ decode bytes = .ok (some record) ∧ record.identity = identity ∧ record.scope = scope := by
  induction objects with
  | nil => cases h
  | cons head objects ih =>
    unfold findEncoded at h
    cases hdecode : decode head with
    | error failure =>
      rw [hdecode] at h
      cases h
    | ok found =>
      rw [hdecode, ok_bind] at h
      cases found with
      | none =>
        obtain ⟨hmem, hrest⟩ := ih h
        exact ⟨mem_cons_of_mem _ hmem, hrest⟩
      | some other =>
        dsimp only at h
        split at h
        · rename_i hfound
          cases h
          exact ⟨mem_cons_self, hdecode, hfound⟩
        · obtain ⟨hmem, hrest⟩ := ih h
          exact ⟨mem_cons_of_mem _ hmem, hrest⟩

section Exchange
variable {A : U64 → Prop} {B : Prop} {scope : SegmentScope} {known : List Generation}
  {logged : List (LeaseRecord × Bytes)}
variable {record : LeaseRecord} {bytes : Bytes} {env : Surroundings}
  {w : World} {basis : Generation} {source target : SnapshotLeaseId}

theorem Sound.stored (hw : Sound A scope w) (hlogged : (record, bytes) ∈ w.encoded)
    (hmarker : record.lastResumeSequence = none) (hscope : record.scope = scope) :
    Stored scope w.encoded record.identity bytes := by
  refine ⟨record, hlogged, ?_, rfl, hscope⟩
  rw [hw.decode_logged hlogged, hmarker]
  rfl

theorem Sound.stored_found (hw : Sound A scope w) (hbasis : Basis w basis)
    {identity : SnapshotLeaseId} (h : findEncoded identity scope basis.objects = .ok (some (bytes, record))) :
    Stored scope w.encoded identity bytes := by
  obtain ⟨hmem, hdecode, hid, hscope⟩ := findEncoded_found h
  exact ⟨record, hw.logged_of_decode (hbasis.objects bytes hmem) hdecode, hdecode, hid, hscope⟩

theorem prepareSnapshotLeaseReplacement_triple (oldIdentity : SnapshotLeaseId) (window : LeaseWindow)
    (env : Surroundings) :
    Keeps A B scope (prepareSnapshotLeaseReplacement oldIdentity window env) := by
  refine .bind (inv_quiet (.requires _ _)) fun _ => ?_
  refine .bind (inv_quiet requireHealthy_quiet) fun _ => ?_
  refine .bind (retry_triple env) fun _ => ?_
  refine .bind stage_reads fun seen => .assuming fun hseen => ?_
  refine stage_checks ?_
  refine stage_fresh fun basis => ?_
  refine .bind (stage_lifts _) fun found => .assuming fun hfound => ?_
  rw [hseen] at hfound
  cases found with
  | none => exact .fails fun _ hw => hw.inv
  | some old =>
    refine stage_checks ?_
    refine .bind (stage_quiet (.lifts _)) fun _ => ?_
    refine stage_checks ?_
    refine .bind (stage_quiet (.lifts _)) fun newIdentity => ?_
    refine .bind (stage_encodes (Good.fresh rfl rfl rfl rfl)) fun encoded => ?_
    refine .bind (stage_quiet (.lifts _)) fun _ => ?_
    refine .changes fun w hw => ⟨?_, hw.inv.held⟩
    refine ⟨hw.sound.ofScope, hw.sound.log, hw.sound.durable, hw.sound.current, hw.sound.known, ?_⟩
    intro replacement hmem
    rcases mem_append.mp hmem with hold | hnew
    · exact hw.sound.replacements replacement hold
    · rw [mem_singleton.mp hnew]
      exact ⟨hw.sound.stored (hw.logged _ mem_cons_self) rfl hseen,
        hw.sound.stored_found (hw.known basis mem_cons_self) hfound⟩

/-- The record of the source has given way to that of the target; the reservation has not moved. -/
structure Exchanged (A : U64 → Prop) (B : Prop) (scope : SegmentScope)
    (logged : List (LeaseRecord × Bytes)) (source target : SnapshotLeaseId) (w : World) : Prop where
  sound : Sound A scope w
  recorded : B → ∀ identity, (w.leases.reservations identity).isSome → identity = source ∨ Recorded w identity
  published : B → Recorded w target
  logged : ∀ entry ∈ logged, entry ∈ w.encoded

theorem Stage.exchanged {w w' : World} (hw : Stage A B scope known logged w)
    (hlogged : (record, bytes) ∈ logged) (hdecode : decode bytes = .ok (some record))
    (hid : record.identity = target) (hscope : record.scope = scope) (h : Took [source] [bytes] w w') :
    Exchanged A B scope logged source target w' := by
  obtain ⟨hleases, henc, _⟩ := h.leases
  refine ⟨hw.sound.took ?_ h, ?_, ?_, ?_⟩
  · intro added hadded
    rw [mem_singleton.mp hadded]
    exact .inr ⟨record, hw.logged _ hlogged⟩
  · intro hB identity hsome
    rw [hleases] at hsome
    by_cases hsource : identity = source
    · exact .inl hsource
    · exact .inr ((hw.recorded hB identity hsome).took (by simpa using hsource) h)
  · intro hB
    rw [← hid]
    exact h.recorded mem_cons_self hdecode (hscope.trans hw.sound.ofScope.symm)
  · rw [henc]
    exact hw.logged

def Attempted (A : U64 → Prop) (B : Prop) (scope : SegmentScope) (logged : List (LeaseRecord × Bytes))
    (source target : SnapshotLeaseId) {α : Type} : LedgerResult α → World → Prop
  | .ok _ => Exchanged A B scope logged source target
  | .error _ => Inv A B scope

theorem exchangeRecord_triple (hbasis : basis ∈ known) (hlogged : (record, bytes) ∈ logged)
    (hdecode : decode bytes = .ok (some record)) (hid : record.identity = target)
    (hscope : record.scope = scope) (original amounts : U64) (hseen : B → ¬ Unseen env.publish) :
    Stages A B scope known logged (exchangeRecord basis source bytes original amounts env)
      fun _ => Exchanged A B scope logged source target := by
  refine .bind (stage_quiet (resizeOrCancel_quiet _ _ _)) fun _ => ?_
  have hpublish : Stages A B scope known logged
      (publishManyWithExpectedCatalog basis basis.identity [source] [bytes] env.publish)
      fun _ => Exchanged A B scope logged source target := by
    refine publishes (fun w hw => ⟨hw.sound.known, (hw.known basis hbasis).known⟩) ?_ ?_ ?_
    · exact fun w w' hw h => hw.exchanged hlogged hdecode hid hscope h
    · exact fun failure w w' hw h => (hw.quiet h.quiet).inv
    · intro failure w w' hw h hlost
      refine ⟨(hw.exchanged hlogged hdecode hid hscope h).sound, fun hB => ?_⟩
      rcases hlost with ⟨_, hcommit, hrefreshed⟩ | ⟨added, hadded, hunreadable⟩
      · exact absurd ⟨hcommit, hrefreshed rfl⟩ (hseen hB)
      · rw [mem_singleton.mp hadded] at hunreadable
        exact absurd ⟨_, hdecode⟩ hunreadable
  refine .bind (.attempts (Q := Attempted A B scope logged source target) hpublish) fun result => ?_
  cases result with
  | ok generation => exact .returns fun _ hw => hw
  | error failure =>
    refine .bind (inv_quiet (.attempts (rollbackTransaction_quiet _ _ _))) fun restored => ?_
    cases restored with
    | ok _ => exact .fails fun _ hw => hw
    | error _ => exact .fails fun _ hw => hw

theorem transferReservation_triple (source target : SnapshotLeaseId) :
    Triple (Exchanged A B scope logged source target) (transferReservation source target)
      (fun _ => Stage A B scope [] logged) fun _ => Inv A B scope := by
  intro w hw
  unfold transferReservation
  rw [EStateM.run_bind]
  simp only [EStateM.run_get]
  cases hgranted : w.leases.reservations source with
  | none =>
    refine ⟨hw.sound, fun hB identity hsome => ?_⟩
    rcases hw.recorded hB identity hsome with rfl | hrecorded
    · rw [hgranted] at hsome
      cases hsome
    · exact .inl hrecorded
  | some granted =>
    refine Stage.start (hw.sound.leases rfl) ?_ hw.logged
    intro hB identity hsome
    rcases isSome_setReservation hsome with ⟨rfl, _⟩ | ⟨_, hother⟩
    · exact hw.published hB
    · rcases isSome_setReservation hother with ⟨_, hnone⟩ | ⟨hne, hold⟩
      · cases hnone
      · exact (hw.recorded hB identity hold).resolve_left hne

structure Prepared (scope : SegmentScope) (replacement : SnapshotLeaseReplacement)
    (new old : LeaseRecord) : Prop where
  new : decode replacement.encoded = .ok (some new) ∧ new.identity = replacement.newIdentity ∧
    new.scope = scope
  old : decode replacement.oldEncoded = .ok (some old) ∧ old.identity = replacement.oldIdentity ∧
    old.scope = scope

variable {replacement : SnapshotLeaseReplacement} {new old : LeaseRecord}

theorem setReplacement_triple (hprep : Prepared scope replacement new old) (index : Nat)
    (granted committed : Bool) :
    Triple (Stage A B scope [] [(new, replacement.encoded), (old, replacement.oldEncoded)])
      (setReplacement index { replacement with granted := granted, committed := committed })
      (fun _ => Inv A B scope) fun _ => Inv A B scope := by
  refine .changes fun w hw => ⟨?_, hw.inv.held⟩
  refine ⟨hw.sound.ofScope, hw.sound.log, hw.sound.durable, hw.sound.current, hw.sound.known, ?_⟩
  intro other hother
  rcases mem_or_eq_of_mem_set hother with hold | rfl
  · exact hw.sound.replacements other hold
  · exact ⟨⟨new, hw.logged _ mem_cons_self, hprep.new⟩,
      ⟨old, hw.logged _ (mem_cons_of_mem _ mem_cons_self), hprep.old⟩⟩

def Entered (A : U64 → Prop) (B : Prop) (scope : SegmentScope)
    (logged : List (LeaseRecord × Bytes)) (w : World) : Prop :=
  Inv A B scope w ∧ ∀ entry ∈ logged, entry ∈ w.encoded

theorem entered_quiet {α : Type} {m : LeaseM α} (h : Within Quiet m) :
    Triple (Entered A B scope logged) m (fun _ => Entered A B scope logged) fun _ => Inv A B scope := by
  refine (h.keeps fun w w' hquiet hw => ?_).weaken (fun _ hw => hw) (fun _ _ hw => hw) fun _ _ hw => hw.1
  refine ⟨hw.1.quiet hquiet, ?_⟩
  rw [hquiet.encoded]
  exact hw.2

theorem commitReplacement_triple (hprep : Prepared scope replacement new old) (index : Nat)
    (hseen : B → ¬ Unseen env.publish) :
    Triple (Entered A B scope [(new, replacement.encoded), (old, replacement.oldEncoded)])
      (commitReplacement index replacement env) (fun _ => Inv A B scope) fun _ => Inv A B scope := by
  refine .bind (entered_quiet (.requires _ _)) fun _ => ?_
  refine .bind (entered_quiet requireHealthy_quiet) fun _ => ?_
  refine .bind (entered_quiet Within.reads) fun _ => ?_
  refine .bind (entered_quiet (.requires _ _)) fun _ => ?_
  refine .bind (entered_quiet (.requires _ _)) fun _ => ?_
  refine .bind (retryPendingReleases_triple env) fun _ => ?_
  refine .bind (stage_quiet Within.reads) fun seen => ?_
  refine stage_checks ?_
  refine stage_fresh fun basis => ?_
  refine .bind (stage_quiet (.lifts _)) fun recorded => ?_
  refine .bind (requireRecord_triple _) fun oldRecord => .assuming fun _ => ?_
  refine stage_checks ?_
  refine stage_checks ?_
  refine .bind (stage_quiet (.lifts _)) fun _ => ?_
  refine .bind (stage_quiet (.lifts _)) fun amounts => ?_
  refine .bind (stage_quiet (beginTransaction_quiet _)) fun original => ?_
  refine .bind (exchangeRecord_triple mem_cons_self mem_cons_self hprep.new.1
    hprep.new.2.1 hprep.new.2.2 original amounts hseen) fun _ => ?_
  refine .bind (transferReservation_triple _ _) fun _ => ?_
  refine .bind (stage_quiet (modifyLeases_quiet (fun _ => rfl) (fun _ => rfl) fun _ => rfl)) fun _ => ?_
  exact setReplacement_triple hprep index false true

theorem rollbackReplacement_triple (hprep : Prepared scope replacement new old) (index : Nat)
    (hseen : B → ¬ Unseen env.publish) :
    Triple (Entered A B scope [(new, replacement.encoded), (old, replacement.oldEncoded)])
      (rollbackReplacement index replacement env) (fun _ => Inv A B scope) fun _ => Inv A B scope := by
  refine .ite (fun _ => .returns fun _ hw => hw.1) fun _ => ?_
  refine .bind (entered_quiet requireHealthy_quiet) fun _ => ?_
  refine .bind (retryPendingReleases_triple env) fun _ => ?_
  refine stage_fresh fun basis => ?_
  refine .bind (stage_quiet Within.reads) fun seen => ?_
  refine .bind (stage_quiet (.lifts _)) fun visible => ?_
  refine stage_checks ?_
  refine stage_checks ?_
  refine .bind (stage_quiet (beginTransaction_quiet _)) fun original => ?_
  refine .bind (stage_quiet (.lifts _)) fun amounts => ?_
  refine .bind (exchangeRecord_triple mem_cons_self
    (mem_cons_of_mem _ mem_cons_self) hprep.old.1 hprep.old.2.1 hprep.old.2.2
    original amounts hseen) fun _ => ?_
  refine .bind (transferReservation_triple _ _) fun _ => ?_
  exact setReplacement_triple hprep index replacement.granted false

theorem withReplacement_triple (index : Nat) {f : SnapshotLeaseReplacement → LeaseM Unit}
    (hf : ∀ replacement new old, Prepared scope replacement new old →
      Triple (Entered A B scope [(new, replacement.encoded), (old, replacement.oldEncoded)])
        (f replacement) (fun _ => Inv A B scope) fun _ => Inv A B scope) :
    Keeps A B scope (withReplacement index f) := by
  intro w hw
  unfold withReplacement
  rw [EStateM.run_bind]
  simp only [EStateM.run_get]
  cases hrepl : w.leases.replacements[index]? with
  | none => exact hw
  | some replacement =>
    obtain ⟨⟨new, hnew, hdecode⟩, old, hold, hdecodeOld⟩ :=
      hw.sound.replacements replacement (mem_of_getElem? hrepl)
    refine hf replacement new old ⟨hdecode, hdecodeOld⟩ w ⟨hw, ?_⟩
    intro entry hentry
    rcases mem_cons.mp hentry with rfl | hentry
    · exact hnew
    · rw [mem_singleton.mp hentry]
      exact hold

end Exchange

end Positron.Lease
