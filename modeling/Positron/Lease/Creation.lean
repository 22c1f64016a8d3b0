import Positron.Lease.StageRules

/-! Creation and release of a lease keep the lease table sound, and so does opening a ledger, which recovers a
reservation for every active lease. A creation reserves under a pending release, so that an ambiguous
publication strands nothing. -/

namespace Positron.Lease
open MachineInt ByteCodec Triples List

section Creation
variable {A : U64 → Prop} {B : Prop} {scope : SegmentScope} {known : List Generation}
  {logged : List (LeaseRecord × Bytes)}

theorem registerAllPending_adds {P : World → Prop} (hP : ∀ w w', Quiet w w' → P w → P w')
    (identities : List SnapshotLeaseId) :
    Triple P (registerAllPending identities)
      (fun _ w => P w ∧ ∀ identity ∈ identities, identity ∈ w.leases.pending.identities) fun _ => P := by
  intro w hw
  have hends := registerAllPending_quiet identities w
  have hadded := (w.leases.pending.mem_registerAll identities).2
  unfold registerAllPending at hends ⊢
  rw [EStateM.run_bind] at hends ⊢
  simp only [EStateM.run_get] at hends ⊢
  cases hresult : (w.leases.pending.registerAll identities).1 with
  | ok _ =>
    rw [hresult] at hends
    exact ⟨hP _ _ hends hw, hadded hresult⟩
  | error failure =>
    rw [hresult] at hends
    exact hP _ _ hends hw

structure Creating (A : U64 → Prop) (B : Prop) (scope : SegmentScope) (basis : Generation)
    (entry : LeaseRecord × Bytes) (expired : List SnapshotLeaseId) (w : World) : Prop where
  sound : Sound A scope w
  basis : Basis w basis
  logged : entry ∈ w.encoded
  recorded : B → ∀ identity, (w.leases.reservations identity).isSome →
    identity = entry.1.identity ∨ Recorded w identity
  pending : ∀ identity ∈ entry.1.identity :: expired, identity ∈ w.leases.pending.identities

variable {basis : Generation} {entry : LeaseRecord × Bytes} {expired : List SnapshotLeaseId}

variable {w : World} (hw : Creating A B scope basis entry expired w)
include hw

variable {w' : World} {record : LeaseRecord}

theorem Creating.unchanged (h : Unchanged w w') : Creating A B scope basis entry expired w' := by
  have hquiet := h.quiet
  refine ⟨hw.sound.quiet hquiet, hw.basis.quiet hquiet, ?_, ?_, ?_⟩
  · rw [hquiet.encoded]
    exact hw.logged
  · intro hB identity hsome
    rcases hw.recorded hB identity (hquiet.reservations _ hsome) with hnew | hrecorded
    · exact .inl hnew
    · exact .inr (hrecorded.quiet hquiet)
  · exact fun identity hmem => hquiet.pending _ (hw.pending identity hmem)

theorem Creating.inv : Inv A B scope w := by
  refine ⟨hw.sound, ?_⟩
  intro hB identity hsome
  rcases hw.recorded hB identity hsome with rfl | hrecorded
  · exact .inr (hw.pending _ mem_cons_self)
  · exact .inl hrecorded

theorem Creating.abandon :
    Stage A B scope [] [] { w with leases := w.leases.setReservation entry.1.identity none } := by
  refine Stage.start (hw.sound.leases rfl) ?_ fun _ h => absurd h not_mem_nil
  intro hB identity hsome
  rcases isSome_setReservation hsome with ⟨_, hnone⟩ | ⟨hother, hold⟩
  · cases hnone
  · exact (hw.recorded hB identity hold).resolve_left hother

theorem Creating.took (hA : B → ∀ sequence, A sequence → sequence ≠ noSequence)
    (hscope : entry.1.scope = scope) (h : Took expired [entry.2] w w') : Pruned A B scope [] [] expired w' := by
  obtain ⟨hleases, _, _⟩ := h.leases
  refine ⟨hw.sound.took ?_ h, ?_, fun _ hmem => absurd hmem not_mem_nil,
    fun _ hmem => absurd hmem not_mem_nil⟩
  · intro bytes hbytes
    rw [mem_singleton.mp hbytes]
    exact .inr ⟨entry.1, hw.logged⟩
  · intro hB identity hsome
    rw [hleases] at hsome
    by_cases hexpired : identity ∈ expired
    · exact .inl hexpired
    · rcases hw.recorded hB identity hsome with rfl | hrecorded
      · exact .inr (h.recorded mem_cons_self (hw.sound.decode_of_ne (hA hB) hw.logged)
          (hscope.trans hw.sound.ofScope.symm))
      · exact .inr (hrecorded.took hexpired h)

omit hw

theorem withdrawPending_triple (identities : List SnapshotLeaseId) :
    Stages A B scope known logged (withdrawPending identities) fun _ => Stage A B scope known logged :=
  Triple.changes fun _ hw => hw.leases rfl fun _ hsome => hsome

theorem dropReservation_quiet (identity : SnapshotLeaseId) :
    Within Quiet (modifyLeases fun l => l.setReservation identity none) := by
  refine .changes fun w => quiet_leases rfl (fun _ hmem => hmem) ?_
  intro other hsome
  rcases isSome_setReservation hsome with ⟨_, hnone⟩ | ⟨_, hother⟩
  · cases hnone
  · exact hother

theorem registerLeaseReservation_triple (hbasis : basis ∈ known) (hentry : entry ∈ logged)
    {identity : SnapshotLeaseId} (hnew : entry.1.identity = identity) (granted : U64) :
    Stages A B scope known logged (registerLeaseReservation identity granted expired)
      fun _ => Creating A B scope basis entry expired := by
  subst hnew
  have hexit : ∀ (failure : LedgerFailure) w, Stage A B scope known logged w → Inv A B scope w :=
    fun _ _ hw => hw.inv
  refine .bind ((registerAllPending_adds (fun _ _ hquiet hw => Stage.quiet hquiet hw)
    expired).weaken (fun _ hw => hw) (fun _ _ hw => hw) hexit) fun _ => ?_
  refine .bind ((registerAllPending_adds ?_ [entry.1.identity]).weaken (fun _ hw => hw)
    (fun _ _ hw => hw) fun _ _ hw => hw.1.inv) fun _ => ?_
  · rintro w w' hquiet ⟨hw, hexpired⟩
    exact ⟨hw.quiet hquiet, fun identity hmem => hquiet.pending _ (hexpired identity hmem)⟩
  refine .bind (.reads (Q := fun _ w => (Stage A B scope known logged w ∧
    ∀ identity ∈ expired, identity ∈ w.leases.pending.identities) ∧
    ∀ identity ∈ [entry.1.identity], identity ∈ w.leases.pending.identities)
    fun _ hw => hw) fun seen => ?_
  refine .ite (fun _ => ?_) fun _ => .changes ?_
  · -- the identity is taken: its reservation is dropped and the registrations are withdrawn
    refine .bind ((stage_quiet (dropReservation_quiet _)).weaken (fun _ hw => hw.1.1)
      (fun _ _ hw => hw) fun _ _ hw => hw) fun _ => ?_
    exact .bind (withdrawPending_triple _) fun _ => .fails fun _ hw => hw.inv
  · rintro w ⟨⟨hw, hexpired⟩, hid⟩
    refine ⟨hw.sound.leases rfl, ⟨(hw.known basis hbasis).known, (hw.known basis hbasis).objects⟩,
      hw.logged entry hentry, ?_, ?_⟩
    · intro hB identity hsome
      rcases isSome_setReservation hsome with ⟨hnew, _⟩ | ⟨_, hold⟩
      · exact .inl hnew
      · exact .inr (hw.recorded hB identity hold)
    · intro identity hmem
      rcases mem_cons.mp hmem with rfl | hmem
      · exact hid _ mem_cons_self
      · exact hexpired identity hmem

/-- How the publication of a creation ends. Only an ambiguous failure leaves the reservation to its
pending release. -/
def CreationOutcome (A : U64 → Prop) (B : Prop) (scope : SegmentScope) (basis : Generation)
    (entry : LeaseRecord × Bytes) (expired : List SnapshotLeaseId) :
    Except LedgerFailure Generation → World → Prop
  | .ok _, w => Pruned A B scope [] [] expired w
  | .error failure, w => Inv A B scope w ∧
      (failure.completion ≠ .commitAmbiguous → Creating A B scope basis entry expired w)

theorem publishCreation_triple (hA : B → ∀ sequence, A sequence → sequence ≠ noSequence)
    {bytes : Bytes} (hscope : record.scope = scope) (outcome : PublicationOutcome) :
    Triple (Creating A B scope basis (record, bytes) expired)
      (attempt (publishMany basis expired [bytes] outcome))
      (CreationOutcome A B scope basis (record, bytes) expired) fun _ => Inv A B scope := by
  refine .attempts (publishes (fun w hw => ⟨hw.sound.known, hw.basis.known⟩) ?_ ?_ ?_)
  · exact fun w w' hw h => hw.took hA hscope h
  · intro failure w w' hw h
    exact ⟨(hw.unchanged h).inv, fun _ => hw.unchanged h⟩
  · intro failure w w' hw h hlost
    have hcreated := hw.took hA hscope h
    obtain ⟨hleases, henc, _⟩ := h.leases
    refine ⟨⟨hcreated.sound, ?_⟩, ?_⟩
    · intro hB identity hsome
      rcases hcreated.recorded hB identity hsome with hexpired | hrecorded
      · rw [hleases]
        exact .inr (hw.pending identity (mem_cons_of_mem _ hexpired))
      · exact .inl hrecorded
    · intro hdefinite
      rcases hlost with ⟨hambiguous, _⟩ | ⟨added, hadded, hunreadable⟩
      · exact absurd hambiguous hdefinite
      · refine ⟨hcreated.sound, hw.basis.took h, ?_, ?_, ?_⟩
        · rw [henc]
          exact hw.logged
        · -- the record can be read, so the failure was not definite
          intro hB
          rw [mem_singleton.mp hadded] at hunreadable
          exact absurd ⟨_, hw.sound.decode_of_ne (hA hB) hw.logged⟩ hunreadable
        · rw [hleases]
          exact hw.pending

theorem Good.fresh (hcount : record.resumeCount = Unsigned.zero 64)
    (hrepeats : record.repeatedBatchCount = Unsigned.zero 64) (hmarker : record.lastResumeSequence = none)
    (hdigest : record.lastResumePriorDigest = noDigest) : Good A record := by
  refine ⟨.fresh hcount hrepeats hmarker hdigest, ?_⟩
  intro sequence hseq
  rw [hmarker] at hseq
  cases hseq

theorem createSnapshotLeaseInternal_triple (hA : B → ∀ sequence, A sequence → sequence ≠ noSequence)
    (window : LeaseWindow) (expected : Option CatalogGenerationId) (env : Surroundings) :
    Keeps A B scope (createSnapshotLeaseInternal window expected env) := by
  refine .bind (inv_quiet requireHealthy_quiet) fun _ => ?_
  refine .bind (inv_quiet (.requires _ _)) fun _ => ?_
  refine .bind (retry_triple env) fun _ => ?_
  refine .bind stage_reads fun seen => .assuming fun hseen => ?_
  refine stage_checks ?_
  refine stage_fresh fun basis => ?_
  refine stage_checks ?_
  refine .bind (stage_quiet (.lifts _)) fun recorded => ?_
  refine .bind (stage_quiet (.lifts _)) fun _ => ?_
  refine .bind (stage_quiet (.lifts _)) fun identity => ?_
  refine .bind (stage_quiet (.lifts _)) fun _ => ?_
  refine .bind (stage_encodes (Good.fresh rfl rfl rfl rfl)) fun encoded => ?_
  refine .bind (stage_quiet (.lifts _)) fun amounts => ?_
  refine stage_checks ?_
  refine .bind (registerLeaseReservation_triple mem_cons_self mem_cons_self rfl amounts) fun _ => ?_
  refine .bind (publishCreation_triple hA ?_ env.publish) fun result => ?_
  · exact hseen
  cases result with
  | ok generation =>
    refine .bind (.changes (Q := fun _ => Stage A B scope [] []) fun _ hw => ?_) fun _ =>
      Triple.returns fun _ hw => hw.inv
    exact (Pruned.removeReservations hw).leases rfl fun _ hsome => hsome
  | error failure =>
    refine .ite (fun hdefinite => ?_) fun _ => .fails fun _ hw => hw.1
    refine .bind (.changes (Q := fun _ => Stage A B scope [] []) fun w hw =>
      (hw.2 hdefinite).abandon) fun _ => ?_
    exact .bind (withdrawPending_triple _) fun _ => .fails fun _ hw => hw.inv

theorem releaseSnapshotLease_triple (identity : SnapshotLeaseId) (env : Surroundings) :
    Keeps A B scope (releaseSnapshotLease identity env) := by
  refine .bind (inv_quiet requireHealthy_quiet) fun _ => ?_
  refine .bind (inv_quiet (registerAllPending_quiet _)) fun _ => ?_
  exact (retry_triple env).weaken (fun _ hw => hw) (fun _ _ hw => hw.inv) fun _ _ hw => hw

end Creation

section Opening
variable {A : U64 → Prop} {B : Prop} {scope : SegmentScope} {known : List Generation}
  {logged : List (LeaseRecord × Bytes)}
variable {w : World} {others : List Bytes}

structure Recovering (A : U64 → Prop) (scope : SegmentScope) (known : List Generation)
    (logged : List (LeaseRecord × Bytes)) (w : World) : Prop where
  stage : Stage A False scope known logged w
  closed : w.leases = .closed

variable (hw : Recovering A scope known logged w)
include hw

theorem Recovering.inv : Inv A B scope w := by
  refine ⟨hw.stage.sound, ?_⟩
  intro _ identity hsome
  rw [hw.closed] at hsome
  cases hsome

variable {w' : World} {identity : SnapshotLeaseId}

theorem Recovering.unchanged (h : Unchanged w w') : Recovering A scope known logged w' := by
  have hstage := hw.stage.quiet h.quiet
  obtain ⟨current, _, rfl⟩ := h
  exact ⟨hstage, hw.closed⟩

theorem Recovering.took {remove : List SnapshotLeaseId} {add : List Bytes}
    (hadd : ∀ bytes ∈ add, FromLog w.encoded bytes) (h : Took remove add w w') :
    Recovering A scope known logged w' := by
  obtain ⟨hleases, henc, _⟩ := h.leases
  refine ⟨⟨hw.stage.sound.took hadd h, fun hB => hB.elim,
    fun basis hbasis => (hw.stage.known basis hbasis).took h, ?_⟩, hleases.trans hw.closed⟩
  rw [henc]
  exact hw.stage.logged

theorem Recovering.mono {logged' : List (LeaseRecord × Bytes)}
    (hlogged : ∀ entry ∈ logged', entry ∈ logged) : Recovering A scope known logged' w :=
  ⟨hw.stage.mono (fun _ h => h) hlogged, hw.closed⟩

theorem Recovering.forget : Recovering A scope [] [] w :=
  ⟨hw.stage.mono (fun _ h => absurd h not_mem_nil) fun _ h => absurd h not_mem_nil, hw.closed⟩

omit hw

theorem encodeRecords_triple {found : List LeaseRecord} (hgood : ∀ record ∈ found, Good A record) :
    Triple (Recovering A scope known logged) (encodeRecords found)
      (fun additions w => ∃ entries : List (LeaseRecord × Bytes),
        Recovering A scope known (entries ++ logged) w ∧ entries.map Prod.fst = found ∧
          entries.map Prod.snd = additions) fun _ => Inv A B scope := by
  induction found generalizing logged with
  | nil => exact .returns fun _ hw => ⟨[], hw, rfl, rfl⟩
  | cons record found ih =>
    refine .bind (Q := fun bytes => Recovering A scope known ((record, bytes) :: logged)) ?_ fun bytes => ?_
    · intro w hw
      rw [encodeRecord_run]
      cases hencode : encode record with
      | error failure => exact hw.inv
      | ok bytes => exact ⟨hw.stage.encoded (hgood record mem_cons_self) hencode, hw.closed⟩
    · refine .bind (ih fun other hother => hgood other (mem_cons_of_mem _ hother)) fun later => .returns ?_
      rintro w ⟨entries, hw, rfl, rfl⟩
      refine ⟨(record, bytes) :: entries, hw.mono fun entry hentry => ?_, rfl, rfl⟩
      rcases mem_cons.mp hentry with rfl | hentry
      · exact mem_append_right _ mem_cons_self
      · rcases mem_append.mp hentry with hnew | hold
        · exact mem_append_left _ hnew
        · exact mem_append_right _ (mem_cons_of_mem _ hold)

/-- The identity has a record in the generation that the process has read, or in the durable one. -/
def Visible (w : World) (identity : SnapshotLeaseId) : Prop :=
  ∃ bytes ∈ w.catalog.current.objects ++ w.catalog.durable.objects, ∃ record,
    decode bytes = .ok (some record) ∧ record.identity = identity ∧ record.scope = w.scope

theorem Recorded.visible (h : Recorded w identity) : Visible w identity := by
  obtain ⟨bytes, hbytes, hrest⟩ := h
  exact ⟨bytes, mem_append_right _ hbytes, hrest⟩

theorem observeRecovered_triple (hA : B → ∀ sequence, A sequence → sequence ≠ noSequence)
    {snapshot : Generation} (hsnapshot : snapshot ∈ known) {active : List LeaseRecord}
    (hactive : ∀ record ∈ active, Good A record ∧ record.scope = scope) (expired : List SnapshotLeaseId)
    (env : Surroundings) (now : Option U64) :
    Triple (fun w => Recovering A scope known logged w ∧ ∀ record ∈ active, Visible w record.identity)
      (observeRecovered snapshot active expired env now) (fun found w => Recovering A scope known logged w ∧
        (B → ∀ record ∈ found, Visible w record.identity)) fun _ => Inv A B scope := by
  cases now with
  | none => exact .returns fun _ hw => ⟨hw.1, fun _ => hw.2⟩
  | some now =>
    refine .ite (fun _ => .returns fun _ hw => ⟨hw.1, fun _ => hw.2⟩) fun _ => ?_
    have hobs : ∀ record ∈ active.map fun record => { record with observedAt := now },
        Good A record ∧ record.scope = scope := by
      intro record hrec
      obtain ⟨original, horig, rfl⟩ := mem_map.mp hrec
      obtain ⟨hgood, hscope⟩ := hactive original horig
      exact ⟨⟨⟨hgood.consistent.repeats, hgood.consistent.marker, hgood.consistent.digest⟩,
        hgood.sequences⟩, hscope⟩
    refine .bind ((encodeRecords_triple fun record h => (hobs record h).1).weaken
      (fun _ hw => hw.1) (fun _ _ hw => hw) fun _ _ hw => hw) fun additions => ?_
    refine .choosing fun entries => .assuming fun ⟨hrecs, hadditions⟩ => ?_
    have hlogged : ∀ w, Recovering A scope known (entries ++ logged) w →
        ∀ bytes ∈ additions, FromLog w.encoded bytes := by
      intro w hw bytes hbytes
      rw [← hadditions] at hbytes
      obtain ⟨entry, hentry, rfl⟩ := mem_map.mp hbytes
      exact .inr ⟨entry.1, hw.stage.logged entry (mem_append_left _ hentry)⟩
    refine .bind (.discards (S := fun w => Recovering A scope known logged w ∧
      (B → ∀ record ∈ active.map fun record => { record with observedAt := now },
        Visible w record.identity)) (publishes ?_ ?_ ?_ ?_)) fun _ => .returns fun _ hw => hw
    · exact fun w hw => ⟨hw.stage.sound.known, (hw.stage.known snapshot hsnapshot).known⟩
    · intro w w' hw h
      refine ⟨(hw.took (hlogged w hw) h).mono fun _ => mem_append_right _, ?_⟩
      intro hB record hrec
      have hscope := (hobs record hrec).2
      rw [← hrecs] at hrec
      obtain ⟨entry, hentry, rfl⟩ := mem_map.mp hrec
      have hdecode := hw.stage.sound.decode_of_ne (hA hB) (hw.stage.logged entry (mem_append_left _ hentry))
      refine (h.recorded ?_ hdecode (hscope.trans hw.stage.sound.ofScope.symm)).visible
      rw [← hadditions]
      exact mem_map_of_mem hentry
    · exact fun failure w w' hw h => (hw.unchanged h).inv
    · exact fun failure w w' hw h _ => (hw.took (hlogged w hw) h).inv

theorem reserveRecovered_triple {P : World → Prop} (env : Surroundings) (found : List LeaseRecord)
    (l : LeaseState) :
    Triple P (reserveRecovered env found l) (fun l' w => P w ∧ l'.replacements = l.replacements ∧ ∀ identity,
        (l'.reservations identity).isSome →
          (l.reservations identity).isSome ∨ ∃ record ∈ found, record.identity = identity) fun _ => P := by
  induction found generalizing l with
  | nil => exact .returns fun _ hw => ⟨hw, rfl, fun _ hsome => Or.inl hsome⟩
  | cons record found ih =>
    refine .bind (.lifts (fun _ _ _ hw => hw) fun _ _ _ hw => hw) fun encoded => ?_
    refine .bind (.lifts (fun _ _ _ hw => hw) fun _ _ _ hw => hw) fun amounts => ?_
    refine .bind (.requires (Q := fun _ => P) (fun _ _ hw => hw) fun _ _ hw => hw) fun _ => ?_
    refine .bind (.requires (Q := fun _ => P) (fun _ _ hw => hw) fun _ _ hw => hw) fun _ => ?_
    refine (ih _).weaken (fun _ hw => hw) ?_ fun _ _ hw => hw
    rintro l' w ⟨hw, hrepls, hresvs⟩
    have hsame : ∀ identity, (if 0 < record.resumeCount.1 then
        (l.setReservation record.identity (some amounts)).setMarker record.identity
          (some (resumeMarkerFor record))
        else l.setReservation record.identity (some amounts)).reservations identity =
        (l.setReservation record.identity (some amounts)).reservations identity := by
      intro identity
      split
      · rfl
      · rfl
    refine ⟨hw, hrepls.trans ?_, ?_⟩
    · split
      · rfl
      · rfl
    · intro identity hsome
      rcases hresvs identity hsome with hbefore | ⟨other, hother, hid⟩
      · rw [hsame] at hbefore
        rcases isSome_setReservation hbefore with ⟨rfl, _⟩ | ⟨_, hold⟩
        · exact .inr ⟨record, mem_cons_self, rfl⟩
        · exact .inl hold
      · exact .inr ⟨other, mem_cons_of_mem _ hother, hid⟩

structure Recovered (A : U64 → Prop) (B : Prop) (scope : SegmentScope) (l : LeaseState) (w : World) :
    Prop where
  recovering : Recovering A scope [] [] w
  replacements : l.replacements = []
  visible : B → ∀ identity, (l.reservations identity).isSome → Visible w identity

structure Scanned (A : U64 → Prop) (scope : SegmentScope) (snapshot : Generation)
    (found : List LeaseRecord) (w : World) : Prop where
  recovering : Recovering A scope [snapshot] [] w
  visible : ∀ record ∈ found, Visible w record.identity

theorem Recovering.scanned (hw : Recovering A scope [] [] w) {recorded : List LeaseRecord}
    (hrecs : records w.catalog.current.objects = .ok recorded) :
    Scanned A scope w.catalog.current (recorded.filter fun record => decide (record.scope = w.scope)) w := by
  refine ⟨⟨⟨hw.stage.sound, hw.stage.recorded, ?_, hw.stage.logged⟩, hw.closed⟩, ?_⟩
  · intro basis hbasis
    rw [mem_singleton.mp hbasis]
    exact ⟨hw.stage.sound.known, hw.stage.sound.current⟩
  · intro record hmem
    obtain ⟨hrec, hscope⟩ := mem_filter.mp hmem
    obtain ⟨bytes, hbytes, hdecode⟩ := (records_mem hrecs record).mp hrec
    exact ⟨bytes, mem_append_left _ hbytes, record, hdecode, rfl, of_decide_eq_true hscope⟩

theorem recoverReservations_triple (hA : B → ∀ sequence, A sequence → sequence ≠ noSequence)
    (clock : LeaseRecoveryClock) (frontier : CommitPosition) (blocks : List LeaseBlock) (env : Surroundings) :
    Triple (Recovering A scope [] []) (recoverReservations clock frontier blocks env)
      (Recovered A B scope) fun _ => Inv A B scope := by
  intro w hw
  unfold recoverReservations
  rw [EStateM.run_bind]
  simp only [EStateM.run_get]
  cases hrecs : records w.catalog.current.objects with
  | error failure => exact hw.inv
  | ok recorded =>
    have hscanned := hw.scanned hrecs
    have hfound : ∀ record ∈ recorded.filter fun record => decide (record.scope = w.scope),
        Good A record ∧ record.scope = scope := by
      intro record hmem
      obtain ⟨hrec, hscope⟩ := mem_filter.mp hmem
      exact ⟨hw.stage.sound.good_of_records (hscanned.recovering.stage.known _ mem_cons_self)
        hrecs hrec, (of_decide_eq_true hscope).trans hw.stage.sound.ofScope⟩
    change Ends _ _ (EStateM.run (require _ _ >>= _) w)
    refine Triple.ends (P := Scanned A scope w.catalog.current _) ?_ hscanned
    refine .bind (Triple.requires (Q := fun _ => Scanned A scope w.catalog.current _)
      (fun _ _ hv => hv) fun _ _ hv => hv.recovering.inv) fun _ => ?_
    refine .bind (.lifts (fun _ _ _ hv => hv) fun _ _ _ hv => hv.recovering.inv) fun _ => ?_
    refine .bind (.requires (Q := fun _ => Scanned A scope w.catalog.current _)
      (fun _ _ hv => hv) fun _ _ hv => hv.recovering.inv) fun _ => ?_
    refine .bind ((observeRecovered_triple hA mem_cons_self
      (fun record hmem => hfound record (mem_filter.mp hmem).1) _ env _).weaken
      (fun v hv => ⟨hv.recovering, fun record hmem => hv.visible record (mem_filter.mp hmem).1⟩)
      (fun _ _ hv => hv) fun _ _ hv => hv) fun active => ?_
    refine (reserveRecovered_triple env active _).weaken (fun _ hv => hv) ?_ fun _ _ hv => hv.1.inv
    rintro l v ⟨⟨hrecovering, hvisible⟩, hrepls, hresvs⟩
    refine ⟨hrecovering.forget, hrepls, ?_⟩
    intro hB identity hsome
    rcases hresvs identity hsome with hclosed | ⟨record, hrec, rfl⟩
    · cases hclosed
    · exact hvisible hB record hrec

theorem publishSegments_spec (hcur : Known w.catalog w.catalog.current) (others : List Bytes)
    (outcome : CommitOutcome) :
    Ends (fun _ w' => Took [] others w w' ∧ w.catalog.current = w.catalog.durable)
      (fun _ w' => Unchanged w w' ∨ Took [] others w w') ((publishSegments others outcome).run w) := by
  have hcommit := commit_spec hcur hcur (leaseObjects w.catalog.current.objects ++ others) outcome
  change Ends _ _ (EStateM.run (commit w.catalog.current.identity
    (leaseObjects w.catalog.current.objects ++ others) outcome >>= _) w)
  rw [EStateM.run_bind]
  cases hrun : (commit w.catalog.current.identity
      (leaseObjects w.catalog.current.objects ++ others) outcome).run w with
  | error failure w' =>
    rw [hrun] at hcommit
    exact hcommit.elim
  | ok result w' =>
    rw [hrun] at hcommit
    rcases hcommit with ⟨code, rfl, hunchanged⟩ | ⟨hread, generation, hobjs, hlater, hcases⟩
    · exact .inl hunchanged
    · have happlied : Applied [] others w.catalog.durable generation := by
        rw [hread] at hobjs
        refine ⟨?_, ?_, ?_, Or.inr hlater⟩
        · intro bytes hbytes
          rw [hobjs]
          exact mem_append_right _ hbytes
        · intro bytes hbytes
          rw [hobjs] at hbytes
          rcases mem_append.mp hbytes with hlease | hother
          · exact .inl (mem_filter.mp hlease).1
          · exact .inr hother
        · intro bytes hbytes record hdecode _
          rw [hobjs]
          exact mem_append_left _ (mem_filter.mpr ⟨hbytes, decode_eq_some_magic hdecode⟩)
      rcases hcases with ⟨rfl, rfl⟩ | ⟨_, rfl, rfl⟩
      · exact ⟨⟨⟨generation, generation⟩, Or.inl rfl, happlied, rfl⟩, hread⟩
      · exact .inr ⟨⟨generation, w.catalog.durable⟩, Or.inr rfl, happlied, rfl⟩

theorem Inv.tookOthers {w w' : World} (hw : Inv A B scope w)
    (hothers : ∀ bytes ∈ others, leaseMagic.isPrefixOf bytes = false) (h : Took [] others w w') : Inv A B scope w' := by
  obtain ⟨hleases, _, _⟩ := h.leases
  refine ⟨hw.sound.took (fun bytes hbytes => Or.inl (hothers bytes hbytes)) h, ?_⟩
  intro hB identity hsome
  rw [hleases] at hsome ⊢
  rcases hw.held hB identity hsome with hrecorded | hpending
  · exact .inl (hrecorded.took not_mem_nil h)
  · exact .inr hpending

theorem publishOthers_triple (hothers : ∀ bytes ∈ others, leaseMagic.isPrefixOf bytes = false)
    (outcome : CommitOutcome) :
    Keeps A B scope (publishSegments others outcome) := by
  intro w hw
  refine (publishSegments_spec hw.sound.known others outcome).weaken ?_ ?_
  · exact fun _ w' h => hw.tookOthers hothers h.1
  · rintro _ w' (h | h)
    · exact hw.quiet h.quiet
    · exact hw.tookOthers hothers h

theorem Visible.recorded (h : Visible w identity)
    (hread : w.catalog.current = w.catalog.durable) : Recorded w identity := by
  obtain ⟨bytes, hbytes, hrest⟩ := h
  rw [hread, mem_append, or_self] at hbytes
  exact ⟨bytes, hbytes, hrest⟩

theorem openLedger_triple (hA : B → ∀ sequence, A sequence → sequence ≠ noSequence) (clock : LeaseRecoveryClock)
    (frontier : CommitPosition) (blocks : List LeaseBlock)
    (hothers : ∀ bytes ∈ others, leaseMagic.isPrefixOf bytes = false) (segments : CommitOutcome) (env : Surroundings) :
    Keeps A B scope (openLedger clock frontier blocks others segments env) := by
  refine .bind (.changes (Q := fun _ => Recovering A scope [] []) ?_) fun _ => ?_
  · intro w hw
    refine ⟨Stage.start ?_ (fun hB => hB.elim) fun _ h => absurd h not_mem_nil, rfl⟩
    exact ⟨hw.sound.ofScope, hw.sound.log, hw.sound.durable, hw.sound.current, hw.sound.known,
      fun replacement hmem => absurd hmem not_mem_nil⟩
  refine .bind (recoverReservations_triple hA clock frontier blocks env) fun l => ?_
  have hpublish : Triple (Recovered A B scope l) (publishSegments others segments)
      (fun _ w => Recovering A scope [] [] w ∧ l.replacements = [] ∧
        (B → ∀ identity, (l.reservations identity).isSome → Recorded w identity))
      fun _ => Inv A B scope := by
    intro w hw
    have hfrom : ∀ bytes ∈ others, FromLog w.encoded bytes :=
      fun bytes hbytes => Or.inl (hothers bytes hbytes)
    refine (publishSegments_spec hw.recovering.stage.sound.known others segments).weaken ?_ ?_
    · rintro _ w' ⟨h, hread⟩
      refine ⟨hw.recovering.took hfrom h, hw.replacements, ?_⟩
      intro hB identity hsome
      exact ((hw.visible hB identity hsome).recorded hread).took not_mem_nil h
    · rintro _ w' (h | h)
      · exact (hw.recovering.unchanged h).inv
      · exact (hw.recovering.took hfrom h).inv
  refine .bind hpublish fun _ => .changes ?_
  rintro w ⟨hrecovering, hrepls, hrecorded⟩
  have hsound := hrecovering.stage.sound
  refine ⟨⟨hsound.ofScope, hsound.log, hsound.durable, hsound.current, hsound.known, ?_⟩,
    fun hB identity hsome => Or.inl (hrecorded hB identity hsome)⟩
  intro replacement hmem
  rw [hrepls] at hmem
  exact absurd hmem not_mem_nil

end Opening

end Positron.Lease
