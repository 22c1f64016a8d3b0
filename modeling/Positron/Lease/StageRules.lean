import Positron.Lease.Operations
import Positron.Lib.Runs

/-! The machine of all lease operations on one scope. The invariant of the lease table: every lease record in the
catalog is the encoding of a record that an operation has accepted, and every reservation belongs to such a record
or to a pending release. The second part is stated under a condition `B`, so that the first can be had alone. -/

namespace Positron.Lease
open MachineInt ByteCodec Triples List

def prepareSnapshotLeaseReplacement (oldIdentity : SnapshotLeaseId) (window : LeaseWindow)
    (env : Surroundings) : LeaseM Unit := do
  require (validLeaseInterval window.observed window.expiry) (.new .invalidInput)
  requireHealthy
  retryPendingReleases env
  let w ← get
  require (w.retentionTime ∨ w.leases.lastSnapshotLeaseTime ≤ window.observed) (.new .invalidInput)
  let now := max w.leases.lastSnapshotLeaseTime window.observed
  refreshState env.refresh
  let basis ← pin
  match ← ofExcept (findEncoded oldIdentity w.scope basis.objects) with
  | none => fail .snapshotExpired
  | some (oldEncoded, oldRecord) => do
    require (now < oldRecord.expiry) (.new .snapshotExpired)
    ofExcept (validateActiveLease oldRecord now)
    require ((w.leases.reservations oldIdentity).isSome) (.new .integrityCorruption)
    let newIdentity ← ofExcept env.freshIdentity
    let encoded ← encodeRecord
      { identity := newIdentity, scope := w.scope, catalogIdentity := oldRecord.catalogIdentity,
        catalogGeneration := oldRecord.catalogGeneration, frontier := w.leases.frontier,
        observedAt := now, expiry := window.expiry, resumeCount := Unsigned.zero 64,
        repeatedBatchCount := Unsigned.zero 64, lastResumeSequence := none,
        lastResumePriorDigest := noDigest, usage := .none, blocks := w.leases.blocks }
    ofExcept env.snapshot
    modifyLeases fun l => { l with replacements := l.replacements ++
      [⟨oldIdentity, newIdentity, oldEncoded, encoded, now, window.expiry, true, false⟩] }

/-- Publishes `added` in the place of the record of `source`, under the reservation of `source`.
A failed publication restores the amounts of that reservation. -/
def exchangeRecord (basis : Generation) (source : SnapshotLeaseId) (added : Bytes)
    (original amounts : U64) (env : Surroundings) : LeaseM Unit := do
  resizeOrCancel source amounts env
  match ← attempt (publishManyWithExpectedCatalog basis basis.identity [source] [added] env.publish) with
  | .ok _ => return ()
  | .error failure =>
    match ← attempt (rollbackTransaction source original env) with
    | .ok _ => throw failure
    | .error _ => fail .recoveryRequired

def transferReservation (source target : SnapshotLeaseId) : LeaseM Unit := do
  let w ← get
  match w.leases.reservations source with
  | none => fail .integrityCorruption
  | some granted => modifyLeases fun l =>
      (((l.setReservation source none).setBaseline source none).setReservation target
        (some granted)).setMarker source none

def setReplacement (index : Nat) (replacement : SnapshotLeaseReplacement) : LeaseM Unit :=
  modifyLeases fun l => { l with replacements := l.replacements.set index replacement }

def commitReplacement (index : Nat) (replacement : SnapshotLeaseReplacement) (env : Surroundings) :
    LeaseM Unit := do
  require (replacement.committed = false ∧ replacement.granted) (.new .invalidInput)
  requireHealthy
  let w ← get
  require (w.leases.lastSnapshotLeaseTime < replacement.expiry) (.new .snapshotExpired)
  require (w.leases.lastSnapshotLeaseTime ≤ replacement.observedAt) (.new .staleGeneration)
  retryPendingReleases env
  let w ← get
  require (w.leases.reservations replacement.newIdentity = none) (.new .integrityCorruption)
  refreshState env.refresh
  let basis ← pin
  let recorded ← ofExcept (records basis.objects)
  let oldRecord ← requireRecord (findRecord replacement.oldIdentity w.scope recorded)
  require (replacement.oldEncoded ∈ basis.objects) (.new .concurrentWriter)
  require ((w.leases.reservations replacement.oldIdentity).isSome) (.new .integrityCorruption)
  ofExcept (validateActiveLease oldRecord w.leases.lastSnapshotLeaseTime)
  let amounts ← ofExcept (leaseClaim replacement.encoded.length)
  let original ← beginTransaction replacement.oldIdentity
  exchangeRecord basis replacement.oldIdentity replacement.encoded original amounts env
  transferReservation replacement.oldIdentity replacement.newIdentity
  modifyLeases fun l =>
    { l with lastSnapshotLeaseTime := max l.lastSnapshotLeaseTime replacement.observedAt }
  setReplacement index { replacement with committed := true, granted := false }

def rollbackReplacement (index : Nat) (replacement : SnapshotLeaseReplacement) (env : Surroundings) :
    LeaseM Unit := do
  if replacement.committed = false then return ()
  else do
    requireHealthy
    retryPendingReleases env
    refreshState env.refresh
    let basis ← pin
    let w ← get
    let visible ← ofExcept (findEncoded replacement.newIdentity w.scope basis.objects)
    require (visible.isSome) (.new .snapshotExpired)
    require (replacement.encoded ∈ basis.objects) (.new .concurrentWriter)
    let original ← beginTransaction replacement.newIdentity
    let amounts ← ofExcept (leaseClaim replacement.oldEncoded.length)
    exchangeRecord basis replacement.newIdentity replacement.oldEncoded original amounts env
    transferReservation replacement.newIdentity replacement.oldIdentity
    setReplacement index { replacement with committed := false }

inductive LeaseRecoveryClock where
  | conservative (now : Option U64)
  | strict (now : Option U64)

def LeaseRecoveryClock.now : LeaseRecoveryClock → Option U64
  | conservative now => now
  | strict now => now

/-- A strict clock may not lie before the latest persisted observation. -/
def LeaseRecoveryClock.admits (floor : U64) : LeaseRecoveryClock → Bool
  | conservative _ => true
  | strict now => now.all fun now => decide (floor ≤ now)

/-- The instant by which leases expire: none is known below the persisted observations. -/
def expiryTime (now : Option U64) (floor : U64) : Option U64 := now.filter fun now => decide (floor ≤ now)

def latestObservation (recorded : List LeaseRecord) : U64 :=
  recorded.foldl (fun latest record => max latest record.observedAt) (Unsigned.zero 64)

def reserveRecovered (env : Surroundings) : List LeaseRecord → LeaseState → LeaseM LeaseState
  | [], l => return l
  | record :: records, l => do
    let encoded ← ofExcept (encode record)
    let amounts ← ofExcept (leaseClaim encoded.length)
    require (env.reserved) (.new .resourceAdmissionRefused)
    require (l.reservations record.identity = none) (.new .integrityCorruption)
    let l := l.setReservation record.identity (some amounts)
    let l := if 0 < record.resumeCount.1 then
        l.setMarker record.identity (some (resumeMarkerFor record)) else l
    reserveRecovered env records l

def encodeRecords : List LeaseRecord → LeaseM (List Bytes)
  | [] => return []
  | record :: records => do
    let encoded ← encodeRecord record
    let later ← encodeRecords records
    return encoded :: later

/-- The active leases as recovered at an instant, which become durable before they are reserved. -/
def observeRecovered (snapshot : Generation) (active : List LeaseRecord)
    (expired : List SnapshotLeaseId) (env : Surroundings) : Option U64 → LeaseM (List LeaseRecord)
  | none => return active
  | some now =>
    if expired = [] ∧ active.all (fun record => decide (record.observedAt = now)) then return active
    else do
      let observed := active.map fun record => { record with observedAt := now }
      let additions ← encodeRecords observed
      discard (publishMany snapshot (active.map (·.identity) ++ expired) additions env.publish)
      return observed

/-- `recover_reservations`: the lease state of a ledger that is being opened. -/
def recoverReservations (clock : LeaseRecoveryClock) (frontier : CommitPosition)
    (blocks : List LeaseBlock) (env : Surroundings) : LeaseM LeaseState := do
  let w ← get
  let snapshot := w.catalog.current
  let recorded ← ofExcept (records snapshot.objects)
  let inScope := recorded.filter fun record => decide (record.scope = w.scope)
  let floor := latestObservation inScope
  require (clock.admits floor) (.new .invalidInput)
  let now := expiryTime clock.now floor
  let expired := now.elim [] fun now => expiredInScope inScope w.scope now
  let active := inScope.filter fun record => decide (record.identity ∉ expired)
  ofExcept (active.forM fun record => validateActiveLease record (now.getD record.observedAt))
  require (active.length ≤ maxSnapshotLeases) (.new .limitExceeded)
  let active ← observeRecovered snapshot active expired env now
  reserveRecovered env active { LeaseState.closed with
    frontier := frontier
    blocks := blocks
    poisoned := false
    lastSnapshotLeaseTime := if floor.1 = 0 then Unsigned.zero 64 else now.getD floor }

/-- The lease records among the objects, as the publications of other records carry them over. -/
def leaseObjects (objects : List Bytes) : List Bytes := objects.filter fun b => leaseMagic.isPrefixOf b

/-- The last step of an open publishes the segments, and with them whatever other objects the
catalog has by then. -/
def publishSegments (others : List Bytes) (outcome : CommitOutcome) : LeaseM Unit := do
  let basis ← pin
  match ← commit basis.identity (leaseObjects basis.objects ++ others) outcome with
  | .ok _ => return ()
  | .error code => throw (.postMutation code)

/-- An open gives up the leases of the ledger that was open before. -/
def openLedger (clock : LeaseRecoveryClock) (frontier : CommitPosition) (blocks : List LeaseBlock)
    (others : List Bytes) (segments : CommitOutcome) (env : Surroundings) : LeaseM Unit := do
  modifyLeases fun _ => .closed
  let recovered ← recoverReservations clock frontier blocks env
  publishSegments others segments
  modifyLeases fun _ => recovered

/-- One lease operation, or a change around the leases: an open, an append or a compaction, a failure
that poisons the ledger, a publication of other objects. -/
inductive Operation where
  | create (window : LeaseWindow) (expected : Option CatalogGenerationId) (env : Surroundings)
  | resume (identity : SnapshotLeaseId) (now : LedgerResult U64)
      (marker : Option (U64 × FixedBytes 32)) (expected : Option (CatalogGenerationId × U64))
      (env : Surroundings)
  | usage (identity : SnapshotLeaseId) (now : LedgerResult U64) (env : Surroundings)
  | recordUsage (identity : SnapshotLeaseId) (attempt : Option (U64 × SnapshotLeaseUsage))
      (delta : SnapshotLeaseUsage) (env retryEnv : Surroundings)
  | dropAttempt (identity : SnapshotLeaseId)
  | prepare (oldIdentity : SnapshotLeaseId) (window : LeaseWindow) (env : Surroundings)
  | commit (index : Nat) (env : Surroundings)
  | rollback (index : Nat) (env : Surroundings)
  | release (identity : SnapshotLeaseId) (env : Surroundings)
  | openLedger (clock : LeaseRecoveryClock) (frontier : CommitPosition) (blocks : List LeaseBlock)
      (others : List Bytes) (segments : CommitOutcome) (env : Surroundings)
  | advance (frontier : CommitPosition) (blocks : List LeaseBlock)
  | poison
  | publishOthers (others : List Bytes)

def withReplacement (index : Nat) (f : SnapshotLeaseReplacement → LeaseM Unit) : LeaseM Unit := do
  let w ← get
  match w.leases.replacements[index]? with
  | some replacement => f replacement
  | none => return ()

def perform : Operation → LeaseM Unit
  | .create window expected env => discard (createSnapshotLeaseInternal window expected env)
  | .resume identity now marker expected env =>
    discard (resumeSnapshotLeaseMarked identity now marker expected env)
  | .usage identity now env => discard (snapshotLeaseUsage identity now env)
  | .recordUsage identity attempt delta env retryEnv =>
    discard (recordSnapshotLeaseUsage identity attempt delta env retryEnv)
  | .dropAttempt identity => Lease.dropAttempt identity
  | .prepare oldIdentity window env => prepareSnapshotLeaseReplacement oldIdentity window env
  | .commit index env => withReplacement index fun replacement =>
      commitReplacement index replacement env
  | .rollback index env => withReplacement index fun replacement =>
      rollbackReplacement index replacement env
  | .release identity env => releaseSnapshotLease identity env
  | .openLedger clock frontier blocks others segments env =>
    Lease.openLedger clock frontier blocks others segments env
  | .advance frontier blocks => modifyLeases fun l => { l with frontier := frontier, blocks := blocks }
  | .poison => modifyLeases fun l => { l with poisoned := true }
  | .publishOthers others => do
    refreshState none
    publishSegments others .committed

/-- Objects published by others are no lease records. -/
def admits : Operation → Bool
  | .openLedger _ _ _ others _ _ => others.all fun b => !leaseMagic.isPrefixOf b
  | .publishOthers others => others.all fun b => !leaseMagic.isPrefixOf b
  | _ => true

def World.after (w : World) (operation : Operation) : World :=
  match (perform operation).run w with
  | .ok _ w' => w'
  | .error _ w' => w'

def World.step (w : World) (operation : Operation) : Option World :=
  if admits operation then some (w.after operation) else none

def World.start (scope : SegmentScope) (retentionTime : Bool) (catalog : Generation) : World where
  scope := scope
  retentionTime := retentionTime
  catalog := ⟨catalog, catalog⟩
  leases := .closed
  encoded := []

/-- Records that the operations build when markers carry only the sequences of `A`. -/
structure Good (A : U64 → Prop) (record : LeaseRecord) : Prop where
  consistent : record.Consistent
  sequences : ∀ sequence, record.lastResumeSequence = some sequence → A sequence

/-- No lease record, or the bytes of an accepted one. -/
def FromLog (encoded : List (LeaseRecord × Bytes)) (bytes : Bytes) : Prop :=
  leaseMagic.isPrefixOf bytes = false ∨ ∃ record, (record, bytes) ∈ encoded

def Stored (scope : SegmentScope) (encoded : List (LeaseRecord × Bytes)) (identity : SnapshotLeaseId)
    (bytes : Bytes) : Prop :=
  ∃ record, (record, bytes) ∈ encoded ∧ decode bytes = .ok (some record) ∧
    record.identity = identity ∧ record.scope = scope

structure Sound (A : U64 → Prop) (scope : SegmentScope) (w : World) : Prop where
  ofScope : w.scope = scope
  log : ∀ entry ∈ w.encoded, encode entry.1 = .ok entry.2 ∧ Good A entry.1
  durable : ∀ bytes ∈ w.catalog.durable.objects, FromLog w.encoded bytes
  current : ∀ bytes ∈ w.catalog.current.objects, FromLog w.encoded bytes
  known : Known w.catalog w.catalog.current
  replacements : ∀ replacement ∈ w.leases.replacements,
    Stored scope w.encoded replacement.newIdentity replacement.encoded ∧
      Stored scope w.encoded replacement.oldIdentity replacement.oldEncoded

/-- The durable catalog has a lease record of the identity for the scope. -/
def Recorded (w : World) (identity : SnapshotLeaseId) : Prop :=
  ∃ bytes ∈ w.catalog.durable.objects, ∃ record, decode bytes = .ok (some record) ∧
    record.identity = identity ∧ record.scope = w.scope

/-- No reservation is stranded: its lease is recorded, or its release is pending. -/
def Held (w : World) : Prop :=
  ∀ identity, (w.leases.reservations identity).isSome →
    Recorded w identity ∨ identity ∈ w.leases.pending.identities

structure Inv (A : U64 → Prop) (B : Prop) (scope : SegmentScope) (w : World) : Prop where
  sound : Sound A scope w
  held : B → Held w

/-- A generation that was read, with objects of the log. -/
structure Basis (w : World) (basis : Generation) : Prop where
  known : Known w.catalog basis
  objects : ∀ bytes ∈ basis.objects, FromLog w.encoded bytes

/-- Inside an operation, once the pending releases are done: every reservation has its record. The
operation has read the generations `known` and accepted the records `logged`. -/
structure Stage (A : U64 → Prop) (B : Prop) (scope : SegmentScope) (known : List Generation)
    (logged : List (LeaseRecord × Bytes)) (w : World) : Prop where
  sound : Sound A scope w
  recorded : B → ∀ identity, (w.leases.reservations identity).isSome → Recorded w identity
  known : ∀ basis ∈ known, Basis w basis
  logged : ∀ entry ∈ logged, entry ∈ w.encoded

section Log
variable {A : U64 → Prop} {scope : SegmentScope}
variable {bytes : Bytes} {record : LeaseRecord}

theorem decode_eq_some_magic (h : decode bytes = .ok (some record)) : leaseMagic.isPrefixOf bytes := by
  by_contra hmagic
  unfold decode at h
  rw [if_neg hmagic] at h
  cases h

variable {encoded encoded' : List (LeaseRecord × Bytes)} {w : World}

theorem FromLog.mono (h : FromLog encoded bytes)
    (hsubset : ∀ entry ∈ encoded, entry ∈ encoded') : FromLog encoded' bytes := by
  rcases h with h | ⟨record, hrec⟩
  · exact .inl h
  · exact .inr ⟨record, hsubset _ hrec⟩

theorem Stored.mono {identity : SnapshotLeaseId} (h : Stored scope encoded identity bytes)
    (hsubset : ∀ entry ∈ encoded, entry ∈ encoded') : Stored scope encoded' identity bytes := by
  obtain ⟨record, hrec, hrest⟩ := h
  exact ⟨record, hsubset _ hrec, hrest⟩

/-- An accepted record can be read back unless it carries the sentinel as its marker. -/
theorem Sound.decode_logged (h : Sound A scope w) (hlogged : (record, bytes) ∈ w.encoded) :
    decode bytes = if record.lastResumeSequence = some noSequence then reject .integrityCorruption
      else .ok (some record) := by
  obtain ⟨hencode, hgood⟩ := h.log _ hlogged
  exact decode_encode hgood.consistent hencode

theorem Sound.logged_of_decode (h : Sound A scope w) (hfrom : FromLog w.encoded bytes)
    (hdecode : decode bytes = .ok (some record)) : (record, bytes) ∈ w.encoded := by
  rcases hfrom with hmagic | ⟨original, hlogged⟩
  · rw [decode_eq_some_magic hdecode] at hmagic
    cases hmagic
  · rw [h.decode_logged hlogged] at hdecode
    split at hdecode
    · cases hdecode
    · cases hdecode
      exact hlogged

theorem Sound.decode_of_ne (h : Sound A scope w) (hA : ∀ sequence, A sequence → sequence ≠ noSequence)
    (hlogged : (record, bytes) ∈ w.encoded) : decode bytes = .ok (some record) := by
  rw [h.decode_logged hlogged]
  refine if_neg fun hsentinel => ?_
  exact hA noSequence ((h.log _ hlogged).2.sequences noSequence hsentinel) rfl

theorem Sound.good_of_records (h : Sound A scope w) {basis : Generation} (hbasis : Basis w basis)
    {recorded : List LeaseRecord} (hrecs : records basis.objects = .ok recorded) (hrec : record ∈ recorded) :
    Good A record := by
  obtain ⟨bytes, hbytes, hdecode⟩ := (records_mem hrecs record).mp hrec
  exact (h.log _ (h.logged_of_decode (hbasis.objects bytes hbytes) hdecode)).2

end Log

/-- A step that at most reads the catalog, drops reservations and registers releases. -/
structure Quiet (w w' : World) : Prop where
  scope : w'.scope = w.scope
  encoded : w'.encoded = w.encoded
  durable : w'.catalog.durable = w.catalog.durable
  current : w'.catalog.current = w.catalog.current ∨ w'.catalog.current = w.catalog.durable
  replacements : w'.leases.replacements = w.leases.replacements
  pending : ∀ identity ∈ w.leases.pending.identities, identity ∈ w'.leases.pending.identities
  reservations : ∀ identity, (w'.leases.reservations identity).isSome →
    (w.leases.reservations identity).isSome

instance : Std.Refl Quiet where
  refl _ := ⟨rfl, rfl, rfl, Or.inl rfl, rfl, fun _ h => h, fun _ h => h⟩

instance : IsTrans World Quiet where
  trans w w' w'' h h' := by
    refine ⟨h'.scope.trans h.scope, h'.encoded.trans h.encoded, h'.durable.trans h.durable, ?_,
      h'.replacements.trans h.replacements, fun identity hmem => h'.pending _ (h.pending _ hmem),
      fun identity hsome => h.reservations _ (h'.reservations _ hsome)⟩
    rcases h'.current with hcurrent | hcurrent
    · rw [hcurrent]
      exact h.current
    · exact .inr (hcurrent.trans h.durable)

theorem Unchanged.quiet {w w' : World} (h : Unchanged w w') : Quiet w w' := by
  obtain ⟨current, hcurrent, rfl⟩ := h
  exact ⟨rfl, rfl, rfl, hcurrent, rfl, fun _ hmem => hmem, fun _ hsome => hsome⟩

theorem quiet_leases {w : World} {l : LeaseState} (hrepls : l.replacements = w.leases.replacements)
    (hpending : ∀ identity ∈ w.leases.pending.identities, identity ∈ l.pending.identities)
    (hresvs : ∀ identity, (l.reservations identity).isSome →
      (w.leases.reservations identity).isSome) : Quiet w { w with leases := l } :=
  ⟨rfl, rfl, rfl, Or.inl rfl, hrepls, hpending, hresvs⟩

section Stable
variable {A : U64 → Prop} {B : Prop} {scope : SegmentScope} {known : List Generation}
  {logged : List (LeaseRecord × Bytes)} {w w' : World}
variable {basis : Generation}

theorem Known.quiet (h : Quiet w w') (hknown : Known w.catalog basis) : Known w'.catalog basis := by
  unfold Known
  rw [h.durable]
  exact hknown

theorem Basis.quiet (h : Quiet w w') (hbasis : Basis w basis) : Basis w' basis where
  known := hbasis.known.quiet h
  objects := by
    rw [h.encoded]
    exact hbasis.objects

variable {identity : SnapshotLeaseId} {record : LeaseRecord} {bytes : Bytes}

theorem Recorded.quiet (h : Quiet w w') (hrecorded : Recorded w identity) : Recorded w' identity := by
  unfold Recorded
  rw [h.durable, h.scope]
  exact hrecorded

theorem Quiet.current_known (h : Quiet w w') (hknown : Known w.catalog w.catalog.current) :
    Known w'.catalog w'.catalog.current := by
  rcases h.current with hsame | hread
  · rw [hsame]
    exact hknown.quiet h
  · exact .inl (hread.trans h.durable.symm)

theorem Sound.quiet (h : Quiet w w') (hw : Sound A scope w) : Sound A scope w' := by
  obtain ⟨hscope, hlog, hdur, hcurrent, hknown, hrepls⟩ := hw
  refine ⟨h.scope.trans hscope, ?_, ?_, ?_, h.current_known hknown, ?_⟩
  · rw [h.encoded]
    exact hlog
  · rw [h.encoded, h.durable]
    exact hdur
  · rw [h.encoded]
    rcases h.current with hsame | hread
    · rw [hsame]
      exact hcurrent
    · rw [hread]
      exact hdur
  · rw [h.encoded, h.replacements]
    exact hrepls

theorem Inv.quiet (h : Quiet w w') (hw : Inv A B scope w) : Inv A B scope w' := by
  refine ⟨hw.sound.quiet h, ?_⟩
  intro hB identity hsome
  rcases hw.held hB identity (h.reservations _ hsome) with hrecorded | hpending
  · exact .inl (hrecorded.quiet h)
  · exact .inr (h.pending _ hpending)

theorem Stage.quiet (h : Quiet w w') (hw : Stage A B scope known logged w) :
    Stage A B scope known logged w' := by
  refine ⟨hw.sound.quiet h, ?_, fun basis hbasis => (hw.known basis hbasis).quiet h, ?_⟩
  · intro hB identity hsome
    exact (hw.recorded hB identity (h.reservations _ hsome)).quiet h
  · rw [h.encoded]
    exact hw.logged

theorem Stage.inv (h : Stage A B scope known logged w) : Inv A B scope w :=
  ⟨h.sound, fun hB identity hsome => Or.inl (h.recorded hB identity hsome)⟩

/-! A publication that takes effect. -/

variable {remove : List SnapshotLeaseId} {add : List Bytes}

theorem Took.current_known (h : Took remove add w w') : Known w'.catalog w'.catalog.current := by
  obtain ⟨catalog, hread, happlied, rfl⟩ := h
  rcases hread with hread | hread
  · exact .inl hread
  · rw [hread]
    exact happlied.known (.inl rfl)

theorem Sound.took (hw : Sound A scope w) (hadd : ∀ bytes ∈ add, FromLog w.encoded bytes)
    (h : Took remove add w w') : Sound A scope w' := by
  have hcurrent := h.current_known
  obtain ⟨catalog, hread, happlied, rfl⟩ := h
  have hdur : ∀ bytes ∈ catalog.durable.objects, FromLog w.encoded bytes := by
    intro bytes hbytes
    rcases happlied.origin bytes hbytes with hold | hnew
    · exact hw.durable bytes hold
    · exact hadd bytes hnew
  refine ⟨hw.ofScope, hw.log, hdur, ?_, hcurrent, hw.replacements⟩
  intro bytes hbytes
  rcases hread with hread | hread
  · exact hdur bytes (hread ▸ hbytes)
  · exact hw.durable bytes (hread ▸ hbytes)

theorem Basis.took (hbasis : Basis w basis) (h : Took remove add w w') : Basis w' basis := by
  obtain ⟨catalog, hread, happlied, rfl⟩ := h
  exact ⟨happlied.known hbasis.known, hbasis.objects⟩

theorem Recorded.took (hrecorded : Recorded w identity)
    (hremove : identity ∉ remove) (h : Took remove add w w') : Recorded w' identity := by
  obtain ⟨catalog, hread, happlied, rfl⟩ := h
  obtain ⟨bytes, hbytes, record, hdecode, hid, hscope⟩ := hrecorded
  refine ⟨bytes, happlied.kept bytes hbytes record hdecode ?_, record, hdecode, hid, hscope⟩
  rw [hid]
  exact hremove

theorem Took.recorded (h : Took remove add w w') (hbytes : bytes ∈ add) (hdecode : decode bytes = .ok (some record))
    (hscope : record.scope = w.scope) : Recorded w' record.identity := by
  obtain ⟨catalog, hread, happlied, rfl⟩ := h
  exact ⟨bytes, happlied.added bytes hbytes, record, hdecode, rfl, hscope⟩

theorem Took.leases (h : Took remove add w w') : w'.leases = w.leases ∧ w'.encoded = w.encoded ∧
    w'.scope = w.scope := by
  obtain ⟨catalog, _, _, rfl⟩ := h
  exact ⟨rfl, rfl, rfl⟩

theorem Stage.took (hA : B → ∀ sequence, A sequence → sequence ≠ noSequence)
    (hw : Stage A B scope known logged w) (hlogged : (record, bytes) ∈ logged) (hscope : record.scope = scope)
    (h : Took [record.identity] [bytes] w w') : Stage A B scope known logged w' := by
  obtain ⟨hleases, henc, _⟩ := h.leases
  have hentry := hw.logged _ hlogged
  refine ⟨hw.sound.took ?_ h, ?_, fun basis hbasis => (hw.known basis hbasis).took h, ?_⟩
  · intro added hadded
    rw [List.mem_singleton.mp hadded]
    exact .inr ⟨record, hentry⟩
  · intro hB identity hsome
    rw [hleases] at hsome
    by_cases hsame : identity = record.identity
    · rw [hsame]
      exact h.recorded List.mem_cons_self (hw.sound.decode_of_ne (hA hB) hentry)
        (hscope.trans hw.sound.ofScope.symm)
    · exact (hw.recorded hB identity hsome).took (by simpa using hsame) h
  · rw [henc]
    exact hw.logged

end Stable

theorem refreshState_unchanged (code : Option LedgerFailureCode) : Within Unchanged (refreshState code) := by
  intro w
  cases code with
  | some code => exact Unchanged.refl w
  | none =>
    change Unchanged w { w with catalog := readCatalog w.catalog }
    unfold readCatalog
    split
    · exact ⟨w.catalog.durable, Or.inr rfl, rfl⟩
    · exact Unchanged.refl w

theorem refreshState_quiet (code : Option LedgerFailureCode) : Within Quiet (refreshState code) :=
  fun w => (refreshState_unchanged code w).weaken (fun _ _ h => h.quiet) fun _ _ h => h.quiet

theorem requireHealthy_quiet : Within Quiet requireHealthy :=
  Within.bind Within.reads fun _ => .requires _ _

theorem modifyLeases_quiet {f : LeaseState → LeaseState}
    (hrepls : ∀ l, (f l).replacements = l.replacements) (hpending : ∀ l, (f l).pending = l.pending)
    (hresvs : ∀ l, (f l).reservations = l.reservations) : Within Quiet (modifyLeases f) := by
  refine .changes fun w => quiet_leases (hrepls _) ?_ ?_
  · intro identity hmem
    rw [hpending]
    exact hmem
  · intro identity hsome
    rw [hresvs] at hsome
    exact hsome

variable (identity : SnapshotLeaseId)

theorem setMarker_quiet (marker : Option LeaseResumeMarker) :
    Within Quiet (modifyLeases fun l => l.setMarker identity marker) :=
  modifyLeases_quiet (fun _ => rfl) (fun _ => rfl) fun _ => rfl

theorem setBaseline_quiet (original : Option U64) :
    Within Quiet (modifyLeases fun l => l.setBaseline identity original) :=
  modifyLeases_quiet (fun _ => rfl) (fun _ => rfl) fun _ => rfl

theorem isSome_setReservation {l : LeaseState} {identity other : SnapshotLeaseId} {granted : Option U64}
    (h : ((l.setReservation identity granted).reservations other).isSome) :
    other = identity ∧ granted.isSome ∨ other ≠ identity ∧ (l.reservations other).isSome := by
  change (Function.update l.reservations identity granted other).isSome at h
  by_cases hother : other = identity
  · rw [hother, Function.update_self] at h
    exact .inl ⟨hother, h⟩
  · rw [Function.update_of_ne hother] at h
    exact .inr ⟨hother, h⟩

theorem beginTransaction_quiet : Within Quiet (beginTransaction identity) := by
  refine .bind Within.reads fun w => ?_
  cases (w.leases.baselines identity).or (w.leases.reservations identity) with
  | none => exact .fails _
  | some original => exact .bind (setBaseline_quiet _ _) fun _ => .returns _

theorem resizeReservation_quiet (amounts : U64) (admitted : Bool)
    (refusal : LedgerFailureCode) : Within Quiet (resizeReservation identity amounts admitted refusal) := by
  intro w
  unfold resizeReservation
  rw [EStateM.run_bind]
  simp only [EStateM.run_get]
  cases hgranted : w.leases.reservations identity with
  | none => exact Std.Refl.refl w
  | some granted =>
    dsimp only
    split
    · exact Std.Refl.refl w
    · split
      · refine quiet_leases rfl (fun _ hmem => hmem) ?_
        intro other hsome
        rcases isSome_setReservation hsome with ⟨rfl, _⟩ | ⟨_, hother⟩
        · rw [hgranted]
          rfl
        · exact hother
      · exact Std.Refl.refl w

theorem resizeOrCancel_quiet (amounts : U64) (env : Surroundings) :
    Within Quiet (resizeOrCancel identity amounts env) := by
  refine .bind (.attempts (resizeReservation_quiet _ _ _ _)) fun result => ?_
  cases result with
  | ok _ => exact .returns _
  | error failure => exact .bind (setBaseline_quiet _ _) fun _ => .fails _

theorem rollbackTransaction_quiet (original : U64) (env : Surroundings) :
    Within Quiet (rollbackTransaction identity original env) :=
  Within.bind (resizeReservation_quiet _ _ _ _) fun _ => setBaseline_quiet _ _

theorem registerAllPending_quiet (identities : List SnapshotLeaseId) :
    Within Quiet (registerAllPending identities) := by
  intro w
  have hkept := (w.leases.pending.mem_registerAll identities).1
  unfold registerAllPending
  rw [EStateM.run_bind]
  simp only [EStateM.run_get]
  cases (w.leases.pending.registerAll identities).1 with
  | ok _ | error failure => exact quiet_leases rfl hkept fun _ hsome => hsome

section Rules
variable {A : U64 → Prop} {B : Prop} {scope : SegmentScope} {known : List Generation}
  {logged : List (LeaseRecord × Bytes)} {α : Type}
variable {w : World} {l : LeaseState} {basis : Generation} {record : LeaseRecord}

theorem Stage.start (hsound : Sound A scope w)
    (hrecorded : B → ∀ identity, (w.leases.reservations identity).isSome → Recorded w identity)
    (hlogged : ∀ entry ∈ logged, entry ∈ w.encoded) : Stage A B scope [] logged w :=
  ⟨hsound, hrecorded, fun _ hbasis => absurd hbasis not_mem_nil, hlogged⟩

theorem Stage.mono {known' : List Generation} {logged' : List (LeaseRecord × Bytes)}
    (hw : Stage A B scope known logged w) (hknown : ∀ basis ∈ known', basis ∈ known)
    (hlogged : ∀ entry ∈ logged', entry ∈ logged) : Stage A B scope known' logged' w :=
  ⟨hw.sound, hw.recorded, fun basis hbasis => hw.known basis (hknown basis hbasis),
    fun entry hentry => hw.logged entry (hlogged entry hentry)⟩

theorem Sound.leases (hw : Sound A scope w) (hrepls : l.replacements = w.leases.replacements) :
    Sound A scope { w with leases := l } := by
  refine ⟨hw.ofScope, hw.log, hw.durable, hw.current, hw.known, ?_⟩
  rw [hrepls]
  exact hw.replacements

theorem Stage.leases (hw : Stage A B scope known logged w) (hrepls : l.replacements = w.leases.replacements)
    (hresvs : ∀ identity, (l.reservations identity).isSome → (w.leases.reservations identity).isSome) :
    Stage A B scope known logged { w with leases := l } :=
  ⟨hw.sound.leases hrepls, fun hB identity hsome =>
    hw.recorded hB identity (hresvs identity hsome), fun basis hbasis =>
    ⟨(hw.known basis hbasis).known, (hw.known basis hbasis).objects⟩, hw.logged⟩

/-- The records of the expired leases are gone, but not yet what is held for them. -/
structure Pruned (A : U64 → Prop) (B : Prop) (scope : SegmentScope) (known : List Generation)
    (logged : List (LeaseRecord × Bytes)) (expired : List SnapshotLeaseId) (w : World) : Prop where
  sound : Sound A scope w
  recorded : B → ∀ identity, (w.leases.reservations identity).isSome →
    identity ∈ expired ∨ Recorded w identity
  known : ∀ basis ∈ known, Basis w basis
  logged : ∀ entry ∈ logged, entry ∈ w.encoded

variable {m : LeaseM α} {bytes : Bytes} {remove : List SnapshotLeaseId}

/-- However the call ends, the table is sound. -/
abbrev Keeps (A : U64 → Prop) (B : Prop) (scope : SegmentScope) {α : Type} (m : LeaseM α) : Prop :=
  Triple (Inv A B scope) m (fun _ => Inv A B scope) fun _ => Inv A B scope

/-- A part of an operation: it fails with a sound table. -/
abbrev Stages (A : U64 → Prop) (B : Prop) (scope : SegmentScope) (known : List Generation)
    (logged : List (LeaseRecord × Bytes)) {α : Type} (m : LeaseM α) (Q : α → World → Prop) : Prop :=
  Triple (Stage A B scope known logged) m Q fun _ => Inv A B scope

theorem inv_quiet (h : Within Quiet m) :
    Keeps A B scope m :=
  h.keeps fun _ _ hquiet hw => hw.quiet hquiet

theorem stage_keeps (h : Within Quiet m) :
    Triple (Stage A B scope known logged) m (fun _ => Stage A B scope known logged)
      fun _ => Stage A B scope known logged :=
  h.keeps fun _ _ hquiet hw => hw.quiet hquiet

theorem stage_quiet (h : Within Quiet m) :
    Stages A B scope known logged m fun _ => Stage A B scope known logged :=
  (stage_keeps h).weaken (fun _ hw => hw) (fun _ _ hw => hw) fun _ _ hw => hw.inv

theorem stage_reads : Stages A B scope known logged (get : LeaseM World)
      fun seen w => Stage A B scope known logged w ∧ seen.scope = scope :=
  Triple.reads fun _ hw => ⟨hw, hw.sound.ofScope⟩

theorem stage_lifts (x : LedgerResult α) : Stages A B scope known logged (ofExcept x : LeaseM α)
      fun a w => Stage A B scope known logged w ∧ x = .ok a :=
  Triple.lifts (fun _ hok _ hw => ⟨hw, hok⟩) fun _ _ _ hw => hw.inv

theorem stage_checks {c : Prop} [Decidable c] {failure : LedgerFailure} {f : PUnit → LeaseM α} {Q : α → World → Prop}
    (h : Stages A B scope known logged (f ⟨⟩) Q) :
    Stages A B scope known logged (require c failure >>= f) Q :=
  .bind (stage_quiet (.requires _ _)) fun _ => h

theorem stage_pin : Stages A B scope known logged pin
      fun basis => Stage A B scope (basis :: known) logged := by
  intro w hw
  refine ⟨hw.sound, hw.recorded, ?_, hw.logged⟩
  intro basis hbasis
  rcases mem_cons.mp hbasis with rfl | hbasis
  · exact ⟨hw.sound.known, hw.sound.current⟩
  · exact hw.known basis hbasis

/-- An operation reads the catalog before it pins what it builds on. -/
theorem stage_fresh {code : Option LedgerFailureCode} {f : Generation → LeaseM α} {Q : α → World → Prop}
    (h : ∀ basis, Triple (Stage A B scope (basis :: known) logged) (f basis) Q fun _ => Inv A B scope) :
    Stages A B scope known logged (refreshState code >>= fun _ => pin >>= f) Q :=
  .bind (stage_quiet (refreshState_quiet _)) fun _ => .bind stage_pin h

theorem stage_records (hbasis : basis ∈ known) :
    Stages A B scope known logged (ofExcept (records basis.objects) : LeaseM _)
      fun recorded w => Stage A B scope known logged w ∧ ∀ record ∈ recorded, Good A record := by
  refine .lifts ?_ fun _ _ _ hw => hw.inv
  intro recorded hrecs w hw
  exact ⟨hw, fun record hrec =>
    hw.sound.good_of_records (hw.known basis hbasis) hrecs hrec⟩

theorem encodeRecord_run (record : LeaseRecord) (w : World) :
    (encodeRecord record).run w = match encode record with
      | .ok bytes => .ok bytes { w with encoded := (record, bytes) :: w.encoded }
      | .error failure => .error failure w := by
  unfold encodeRecord
  cases encode record with
  | ok bytes => rfl
  | error failure => rfl

theorem Stage.encoded (hw : Stage A B scope known logged w) (hgood : Good A record)
    (hencode : encode record = .ok bytes) :
    Stage A B scope known ((record, bytes) :: logged) { w with encoded := (record, bytes) :: w.encoded } := by
  have hsubset : ∀ entry ∈ w.encoded, entry ∈ (record, bytes) :: w.encoded :=
    fun entry hentry => mem_cons_of_mem _ hentry
  refine ⟨⟨hw.sound.ofScope, ?_, fun b hb => (hw.sound.durable b hb).mono hsubset,
    fun b hb => (hw.sound.current b hb).mono hsubset, hw.sound.known,
    fun x hx => ⟨(hw.sound.replacements x hx).1.mono hsubset,
      (hw.sound.replacements x hx).2.mono hsubset⟩⟩, hw.recorded,
    fun basis hbasis => ⟨(hw.known basis hbasis).known,
      fun b hb => ((hw.known basis hbasis).objects b hb).mono hsubset⟩, ?_⟩
  · intro entry hentry
    rcases mem_cons.mp hentry with rfl | hentry
    · exact ⟨hencode, hgood⟩
    · exact hw.sound.log entry hentry
  · intro entry hentry
    rcases mem_cons.mp hentry with rfl | hentry
    · exact mem_cons_self
    · exact hsubset entry (hw.logged entry hentry)

theorem stage_encodes (hgood : Good A record) : Stages A B scope known logged (encodeRecord record)
      fun bytes => Stage A B scope known ((record, bytes) :: logged) := by
  intro w hw
  rw [encodeRecord_run]
  cases hencode : encode record with
  | error failure => exact hw.inv
  | ok bytes => exact hw.encoded hgood hencode

/-- A publication in terms of what holds after it took effect and after it did not. -/
theorem publishes {P : World → Prop} {Q : Generation → World → Prop} {E : LedgerFailure → World → Prop}
    {add : List Bytes} {reconcile : Bool} {outcome : PublicationOutcome}
    (hP : ∀ w, P w → Known w.catalog w.catalog.current ∧ Known w.catalog basis)
    (htook : ∀ w w', P w → Took remove add w w' → Q w'.catalog.durable w')
    (hsame : ∀ failure w w', P w → Unchanged w w' → E failure w')
    (hlost : ∀ failure w w', P w → Took remove add w w' → Lost reconcile add outcome failure → E failure w') :
    Triple P (publishManyInner basis basis.identity remove add reconcile outcome) Q E := by
  intro w hw
  obtain ⟨hcur, hbasis⟩ := hP w hw
  refine (publishManyInner_spec hcur hbasis remove add reconcile outcome).weaken ?_ ?_
  · rintro generation w' ⟨h, rfl⟩
    exact htook w w' hw h
  · rintro failure w' (h | ⟨h, hlosing⟩)
    · exact hsame failure w w' hw h
    · exact hlost failure w w' hw h hlosing

/-- A new version of a record replaces it, whatever the catalog answers. -/
theorem stage_publishes (hA : B → ∀ sequence, A sequence → sequence ≠ noSequence) (hbasis : basis ∈ known)
    (hlogged : (record, bytes) ∈ logged) {identity : SnapshotLeaseId}
    (hid : record.identity = identity) (hscope : record.scope = scope) (outcome : PublicationOutcome) :
    Triple (Stage A B scope known logged) (publishMany basis [identity] [bytes] outcome)
      (fun _ w => Stage A B scope known logged w ∧ (B → Recorded w identity))
      fun _ => Stage A B scope known logged := by
  subst hid
  refine publishes (fun w hw => ⟨hw.sound.known, (hw.known basis hbasis).known⟩) ?_ ?_ ?_
  · intro w w' hw h
    refine ⟨hw.took hA hlogged hscope h, fun hB => ?_⟩
    exact h.recorded mem_cons_self (hw.sound.decode_of_ne (hA hB) (hw.logged _ hlogged))
      (hscope.trans hw.sound.ofScope.symm)
  · intro failure w w' hw h
    exact hw.quiet h.quiet
  · intro failure w w' hw h _
    exact hw.took hA hlogged hscope h

theorem foldl_forget (identities : List SnapshotLeaseId) (l : LeaseState) :
    (identities.foldl LeaseState.forget l).replacements = l.replacements ∧
      ∀ identity, ((identities.foldl LeaseState.forget l).reservations identity).isSome →
        identity ∉ identities ∧ (l.reservations identity).isSome := by
  induction identities generalizing l with
  | nil => exact ⟨rfl, fun identity hsome => ⟨not_mem_nil, hsome⟩⟩
  | cons first identities ih =>
    obtain ⟨hrepls, hresvs⟩ := ih (l.forget first)
    refine ⟨hrepls, ?_⟩
    intro identity hsome
    obtain ⟨hmem, hbefore⟩ := hresvs identity hsome
    rcases isSome_setReservation hbefore with ⟨_, hnone⟩ | ⟨hne, hold⟩
    · cases hnone
    · exact ⟨fun h => (mem_cons.mp h).elim hne hmem, hold⟩

theorem Pruned.removeReservations {expired : List SnapshotLeaseId} (hw : Pruned A B scope known logged expired w) :
    Stage A B scope known logged { w with leases := w.leases.removeReservations expired } := by
  obtain ⟨hrepls, hresvs⟩ := foldl_forget expired w.leases
  refine ⟨hw.sound.leases hrepls, ?_, fun basis hbasis =>
    ⟨(hw.known basis hbasis).known, (hw.known basis hbasis).objects⟩, hw.logged⟩
  intro hB identity hsome
  obtain ⟨hmem, hbefore⟩ := hresvs identity hsome
  exact (hw.recorded hB identity hbefore).resolve_left hmem

/-- The invariant, while the leases are as they were when the retry began. -/
structure Retrying (A : U64 → Prop) (B : Prop) (scope : SegmentScope)
    (logged : List (LeaseRecord × Bytes)) (l : LeaseState) (w : World) : Prop where
  inv : Inv A B scope w
  leases : w.leases = l
  logged : ∀ entry ∈ logged, entry ∈ w.encoded

theorem Retrying.unchanged {w w' : World} (h : Unchanged w w') (hw : Retrying A B scope logged l w) :
    Retrying A B scope logged l w' := by
  have hinv := hw.inv.quiet h.quiet
  obtain ⟨current, _, rfl⟩ := h
  exact ⟨hinv, hw.leases, hw.logged⟩

theorem Retrying.took {w w' : World} (hremove : ∀ identity ∈ remove, identity ∈ l.pending.identities)
    (h : Took remove [] w w') (hw : Retrying A B scope logged l w) : Retrying A B scope logged l w' := by
  obtain ⟨hinv, rfl, hlogged⟩ := hw
  obtain ⟨hleases, henc, _⟩ := h.leases
  refine ⟨⟨hinv.sound.took (fun bytes hbytes => absurd hbytes not_mem_nil) h, ?_⟩, hleases, ?_⟩
  · intro hB identity hsome
    rw [hleases] at hsome ⊢
    by_cases hmem : identity ∈ remove
    · exact .inr (hremove identity hmem)
    · rcases hinv.held hB identity hsome with hrecorded | hpending
      · exact .inl (hrecorded.took hmem h)
      · exact .inr hpending
  · rw [henc]
    exact hlogged

theorem Retrying.done (hw : Retrying A B scope logged l w) : Stage A B scope [] logged { w with leases :=
      { l.pending.identities.foldl LeaseState.forget w.leases with pending := .new } } := by
  obtain ⟨hinv, rfl, hlogged⟩ := hw
  obtain ⟨hrepls, hresvs⟩ := foldl_forget w.leases.pending.identities w.leases
  refine Stage.start (hinv.sound.leases hrepls) ?_ hlogged
  intro hB identity hsome
  obtain ⟨hmem, hbefore⟩ := hresvs identity hsome
  exact (hinv.held hB identity hbefore).resolve_right hmem

theorem releasable_pending {pending : List SnapshotLeaseId} {recorded : List LeaseRecord}
    {identity : SnapshotLeaseId} (h : identity ∈ releasable scope pending recorded) : identity ∈ pending := by
  obtain ⟨record, hrec, rfl⟩ := mem_map.mp h
  obtain ⟨_, hcond⟩ := mem_filter.mp hrec
  exact (of_decide_eq_true hcond).2

theorem retryPendingReleases_triple (env : Surroundings) :
    Triple (fun w => Inv A B scope w ∧ ∀ entry ∈ logged, entry ∈ w.encoded)
      (retryPendingReleases env) (fun _ => Stage A B scope [] logged) fun _ => Inv A B scope := by
  intro w hw
  unfold retryPendingReleases
  rw [EStateM.run_bind]
  simp only [EStateM.run_get]
  split
  · rename_i hnone
    refine Stage.start hw.1.sound ?_ hw.2
    intro hB identity hsome
    refine (hw.1.held hB identity hsome).resolve_right ?_
    rw [hnone]
    exact not_mem_nil
  · refine Triple.ends (P := Retrying A B scope logged w.leases) ?_ ⟨hw.1, rfl, hw.2⟩
    refine .bind (((refreshState_unchanged env.retryRefresh).keeps
      fun _ _ h hv => Retrying.unchanged h hv).weaken (fun _ hv => hv) (fun _ _ hv => hv)
      fun _ _ hv => hv.inv) fun _ => ?_
    refine .bind (Q := fun basis v => Retrying A B scope logged w.leases v ∧ Basis v basis)
      (fun v hv => ⟨hv, hv.inv.sound.known, hv.inv.sound.current⟩) fun basis => ?_
    refine .bind (.lifts (fun _ _ _ hv => hv) fun _ _ _ hv => hv.1.inv) fun recorded => ?_
    refine .ite (fun _ => ?_) fun _ => .changes fun _ hv => hv.1.done
    refine .bind (.discards (S := Retrying A B scope logged w.leases)
      (publishes ?_ ?_ ?_ ?_)) fun _ => .changes fun _ hv => hv.done
    · exact fun v hv => ⟨hv.1.inv.sound.known, hv.2.known⟩
    · exact fun v v' hv h => hv.1.took (fun _ hmem => releasable_pending hmem) h
    · exact fun _ v v' hv h => (hv.1.unchanged h).inv
    · exact fun _ v v' hv h _ => (hv.1.took (fun _ hmem => releasable_pending hmem) h).inv

theorem retry_triple (env : Surroundings) :
    Triple (Inv A B scope) (retryPendingReleases env) (fun _ => Stage A B scope [] []) fun _ => Inv A B scope :=
  (retryPendingReleases_triple env).weaken (fun _ hw => ⟨hw, fun _ h => absurd h not_mem_nil⟩)
    (fun _ _ hw => hw) fun _ _ hw => hw

end Rules

end Positron.Lease
