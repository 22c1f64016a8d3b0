import Positron.Lease.Codec
import Positron.Lib.Triples

/-! The catalog as the lease operations see it, and the publication of lease records. A publication may be
accepted, be refused, or take effect although the caller is told that storage failed. It takes effect as a whole
or not at all. -/

namespace Positron.Lease
open MachineInt ByteCodec Triples List

def maxPendingLeaseReleases : Nat := maxSnapshotLeases + 1

/-- The occupied slots. An identity takes one slot at most. -/
structure PendingLeaseReleases where
  identities : List SnapshotLeaseId
  nodup : identities.Nodup
  capacity : identities.length ≤ maxPendingLeaseReleases
deriving DecidableEq

namespace PendingLeaseReleases

def new : PendingLeaseReleases := ⟨[], List.nodup_nil, Nat.zero_le _⟩

def register (pending : PendingLeaseReleases) (identity : SnapshotLeaseId) :
    LedgerResult PendingLeaseReleases :=
  if hheld : identity ∈ pending.identities then .ok pending
  else if hroom : pending.identities.length < maxPendingLeaseReleases then
    .ok ⟨identity :: pending.identities, List.nodup_cons.mpr ⟨hheld, pending.nodup⟩, hroom⟩
  else reject .integrityCorruption

def remove (pending : PendingLeaseReleases) (identity : SnapshotLeaseId) : PendingLeaseReleases where
  identities := pending.identities.erase identity
  nodup := pending.nodup.erase identity
  capacity := (List.length_erase_le).trans pending.capacity

/-- Registers the identities in turn; those before a failure stay registered. -/
def registerAll (pending : PendingLeaseReleases) :
    List SnapshotLeaseId → LedgerResult Unit × PendingLeaseReleases
  | [] => (.ok (), pending)
  | identity :: identities =>
    match pending.register identity with
    | .ok pending => pending.registerAll identities
    | .error failure => (.error failure, pending)

def removeAll (pending : PendingLeaseReleases) (identities : List SnapshotLeaseId) :
    PendingLeaseReleases := identities.foldl remove pending

theorem mem_register {pending pending' : PendingLeaseReleases} {identity : SnapshotLeaseId}
    (h : pending.register identity = .ok pending') (other : SnapshotLeaseId) :
    other ∈ pending'.identities ↔ other = identity ∨ other ∈ pending.identities := by
  unfold register at h
  split at h
  · rename_i hheld
    cases h
    constructor
    · exact .inr
    · rintro (rfl | hother)
      · exact hheld
      · exact hother
  · split at h
    · cases h
      exact List.mem_cons
    · cases h

theorem mem_registerAll (pending : PendingLeaseReleases) (identities : List SnapshotLeaseId) :
    (∀ other ∈ pending.identities, other ∈ (pending.registerAll identities).2.identities) ∧
      ((pending.registerAll identities).1 = .ok () →
        ∀ other ∈ identities, other ∈ (pending.registerAll identities).2.identities) := by
  induction identities generalizing pending with
  | nil => exact ⟨fun other hother => hother, fun _ other hother => by cases hother⟩
  | cons identity identities ih =>
    unfold registerAll
    cases hregister : pending.register identity with
    | error failure => exact ⟨fun other hother => hother, fun hok => by cases hok⟩
    | ok pending' =>
      have hadded := mem_register hregister
      obtain ⟨hkept, hall⟩ := ih pending'
      refine ⟨fun other hother => hkept other ((hadded other).mpr (.inr hother)), ?_⟩
      intro hok other hother
      rcases List.mem_cons.mp hother with rfl | hother
      · exact hkept other ((hadded other).mpr (.inl rfl))
      · exact hall hok other hother

end PendingLeaseReleases

/-- Identities are digests of the commit record, and differ between generations of one catalog. The
number of the generation stands for the digest here. -/
def generationId (number : U64) : CatalogGenerationId :=
  ⟨List.replicate 24 0 ++ beBytes 8 number.1, by simp⟩

structure Generation where
  number : U64
  objects : List Bytes
deriving DecidableEq

def Generation.identity (generation : Generation) : CatalogGenerationId :=
  generationId generation.number

/-- The published generation, and the one this process has read last. -/
structure Catalog where
  durable : Generation
  current : Generation
deriving DecidableEq

/-- A candidate lease that waits for its caller, or the lease it has become. -/
structure SnapshotLeaseReplacement where
  oldIdentity : SnapshotLeaseId
  newIdentity : SnapshotLeaseId
  oldEncoded : Bytes
  encoded : Bytes
  observedAt : U64
  expiry : U64
  granted : Bool
  committed : Bool
deriving DecidableEq

/-- What an open ledger keeps of its leases. A reservation holds the bytes it was granted. -/
structure LeaseState where
  frontier : CommitPosition
  blocks : List LeaseBlock
  poisoned : Bool
  reservations : SnapshotLeaseId → Option U64
  baselines : SnapshotLeaseId → Option U64
  resumeMarkers : SnapshotLeaseId → Option LeaseResumeMarker
  pending : PendingLeaseReleases
  lastSnapshotLeaseTime : U64
  attempts : List SnapshotLeaseId
  replacements : List SnapshotLeaseReplacement

/-- Where no ledger is open, every operation is refused, as by a poisoned ledger. -/
def LeaseState.closed : LeaseState where
  frontier := Unsigned.zero 64
  blocks := []
  poisoned := true
  reservations := fun _ => none
  baselines := fun _ => none
  resumeMarkers := fun _ => none
  pending := .new
  lastSnapshotLeaseTime := Unsigned.zero 64
  attempts := []
  replacements := []

/-- A scope, its catalog and its ledger. `encoded` logs the records that the encoder has accepted
with their bytes; no operation reads it. -/
structure World where
  scope : SegmentScope
  retentionTime : Bool
  catalog : Catalog
  leases : LeaseState
  encoded : List (LeaseRecord × Bytes)

abbrev LeaseM (α : Type) := EStateM LedgerFailure World α

/-- How the catalog answers a commit. After `unacknowledged` the generation is published, and the
caller gets `StorageUnavailable`. -/
inductive CommitOutcome where
  | committed
  | rejected (code : LedgerFailureCode)
  | unacknowledged
deriving DecidableEq

/-- The answer to a commit, and whether the catalog can be read again after a failed one. -/
structure PublicationOutcome where
  commit : CommitOutcome
  refreshed : Bool
deriving DecidableEq

def fail {α : Type} (code : LedgerFailureCode) : LeaseM α := throw (.new code)

def encodeRecord (record : LeaseRecord) : LeaseM Bytes := do
  let bytes ← ofExcept (encode record)
  modify fun w => { w with encoded := (record, bytes) :: w.encoded }
  return bytes

def readCatalog (catalog : Catalog) : Catalog :=
  if catalog.current.number < catalog.durable.number then { catalog with current := catalog.durable }
  else catalog

def refreshState : Option LedgerFailureCode → LeaseM Unit
  | some code => fail code
  | none => modify fun w => { w with catalog := readCatalog w.catalog }

def pin : LeaseM Generation := do
  let w ← get
  return w.catalog.current

def commit (expected : CatalogGenerationId) (objects : List Bytes) (outcome : CommitOutcome) :
    LeaseM (Except LedgerFailureCode Generation) := do
  let w ← get
  match outcome with
  | .rejected code => return .error code
  | .committed | .unacknowledged =>
    let catalog := readCatalog w.catalog
    if expected ≠ catalog.durable.identity then do
      set { w with catalog := catalog }
      return .error .staleGeneration
    else
      match catalog.durable.number.checkedAdd ⟨1, one_lt_word⟩ with
      | none => return .error .limitExceeded
      | some number =>
        let generation : Generation := ⟨number, objects⟩
        if outcome = .committed then do
          set { w with catalog := ⟨generation, generation⟩ }
          return .ok generation
        else do
          set { w with catalog := { catalog with durable := generation } }
          return .error .storageUnavailable

def records : List Bytes → LedgerResult (List LeaseRecord)
  | [] => .ok []
  | bytes :: objects => do
    let found ← decode bytes
    let later ← records objects
    return found.toList ++ later

def expiredInScope (records : List LeaseRecord) (scope : SegmentScope) (now : U64) :
    List SnapshotLeaseId :=
  (records.filter fun record => decide (record.scope = scope ∧ record.expiry ≤ now)).map (·.identity)

def carriedOver (remove : List SnapshotLeaseId) : List Bytes → LedgerResult (List Bytes)
  | [] => .ok []
  | bytes :: objects => do
    let found ← decode bytes
    let later ← carriedOver remove objects
    match found with
    | some record => return if record.identity ∈ remove then later else bytes :: later
    | none => return bytes :: later

def replaced (identity : SnapshotLeaseId) : List Bytes → LedgerResult Bool
  | [] => .ok false
  | addition :: additions => do
    let found ← decode addition
    if found.any (fun record => decide (record.identity = identity)) then return true
    else replaced identity additions

def removalVisible (published : List LeaseRecord) (additions : List Bytes) :
    List SnapshotLeaseId → LedgerResult Bool
  | [] => .ok true
  | identity :: remove => do
    let isReplaced ← replaced identity additions
    if !isReplaced && published.any (fun record => decide (record.identity = identity)) then
      return false
    else removalVisible published additions remove

def publicationVisible (objects : List Bytes) (remove : List SnapshotLeaseId)
    (additions : List Bytes) : LedgerResult Bool := do
  let published ← records objects
  let removed ← removalVisible published additions remove
  return removed && additions.all fun addition => decide (addition ∈ objects)

/-- A commit that failed may be visible nevertheless, which a reconciling publication looks up. -/
def settleFailedCommit (code : LedgerFailureCode) (remove : List SnapshotLeaseId) (add : List Bytes)
    (reconcileVisible refreshed : Bool) : LeaseM Generation := do
  if code = .staleGeneration then fail code
  else if !reconcileVisible then
    throw (if code = .storageUnavailable then .ambiguous code else .new code)
  else if !refreshed then throw (.ambiguous code)
  else do
    refreshState none
    let current ← pin
    let visible ← ofExcept (publicationVisible current.objects remove add)
    if visible then return current else fail code

/-- `publish_many_with_expected_catalog_inner`. -/
def publishManyInner (basis : Generation) (expected : CatalogGenerationId)
    (remove : List SnapshotLeaseId) (add : List Bytes) (reconcileVisible : Bool)
    (outcome : PublicationOutcome) : LeaseM Generation := do
  let kept ← ofExcept (carriedOver remove basis.objects)
  match ← commit expected (kept ++ add) outcome.commit with
  | .ok generation => return generation
  | .error code => settleFailedCommit code remove add reconcileVisible outcome.refreshed

def publishManyWithExpectedCatalog (basis : Generation) (expected : CatalogGenerationId)
    (remove : List SnapshotLeaseId) (add : List Bytes) (outcome : PublicationOutcome) :
    LeaseM Generation := publishManyInner basis expected remove add true outcome

def publishMany (basis : Generation) (remove : List SnapshotLeaseId) (add : List Bytes)
    (outcome : PublicationOutcome) : LeaseM Generation :=
  publishManyWithExpectedCatalog basis basis.identity remove add outcome

variable {remove : List SnapshotLeaseId} {objects : List Bytes}

theorem generationId_injective {a b : U64} (h : generationId a = generationId b) : a = b := by
  have hbytes : beBytes 8 a.1 = beBytes 8 b.1 :=
    append_cancel_left (congrArg Subtype.val h)
  rw [← toUnsigned_beBytes_u64 a, hbytes, toUnsigned_beBytes_u64]

/-- A generation that was published at some time: it is the durable one, or older. -/
def Known (catalog : Catalog) (generation : Generation) : Prop :=
  generation = catalog.durable ∨ generation.number < catalog.durable.number

variable {generation : Generation} {catalog : Catalog}

theorem Known.eq (h : Known catalog generation)
    (hid : generation.identity = catalog.durable.identity) : generation = catalog.durable := by
  rcases h with h | h
  · exact h
  · rw [generationId_injective hid] at h
    exact absurd h (lt_irrefl _)

/-- A publication that took effect on the durable objects. -/
structure Applied (remove : List SnapshotLeaseId) (add : List Bytes) (old new : Generation) : Prop where
  added : ∀ bytes ∈ add, bytes ∈ new.objects
  origin : ∀ bytes ∈ new.objects, bytes ∈ old.objects ∨ bytes ∈ add
  kept : ∀ bytes ∈ old.objects, ∀ record, decode bytes = .ok (some record) →
    record.identity ∉ remove → bytes ∈ new.objects
  later : new = old ∨ old.number < new.number

theorem Applied.known {add : List Bytes} {c c' : Catalog} (h : Applied remove add c.durable c'.durable)
    (hknown : Known c generation) : Known c' generation := by
  rcases h.later with heq | hlt
  · rw [Known, heq]
    exact hknown
  · rcases hknown with rfl | hold
    · exact .inr hlt
    · exact .inr (hold.trans hlt)

/-- An object that the decoder accepts, as a lease record or as something else. -/
def Readable (bytes : Bytes) : Prop := ∃ found, decode bytes = .ok found

theorem carriedOver_cons {head : Bytes} {objects kept : List Bytes}
    (h : carriedOver remove (head :: objects) = .ok kept) :
    ∃ found later, decode head = .ok found ∧ carriedOver remove objects = .ok later ∧
      (kept = head :: later ∧ (∀ record ∈ found, record.identity ∉ remove) ∨
        kept = later ∧ ∃ record ∈ found, record.identity ∈ remove) := by
  unfold carriedOver at h
  cases hdecode : decode head with
  | error failure =>
    rw [hdecode] at h
    cases h
  | ok found =>
    rw [hdecode] at h
    cases hlater : carriedOver remove objects with
    | error failure =>
      rw [hlater] at h
      cases h
    | ok later =>
      rw [hlater] at h
      refine ⟨found, later, rfl, rfl, ?_⟩
      cases found with
      | none =>
        cases h
        exact .inl ⟨rfl, fun record hrec => by cases hrec⟩
      | some record =>
        by_cases hremove : record.identity ∈ remove
        · cases h
          rw [if_pos hremove]
          exact .inr ⟨rfl, record, rfl, hremove⟩
        · cases h
          rw [if_neg hremove]
          refine .inl ⟨rfl, fun other hother => ?_⟩
          cases hother
          exact hremove

theorem carriedOver_mem {objects kept : List Bytes} (h : carriedOver remove objects = .ok kept) :
    (∀ bytes ∈ kept, bytes ∈ objects ∧ ∃ found, decode bytes = .ok found ∧
      ∀ record ∈ found, record.identity ∉ remove) ∧
    ∀ bytes ∈ objects, ∀ record, decode bytes = .ok (some record) → record.identity ∉ remove → bytes ∈ kept := by
  induction objects generalizing kept with
  | nil =>
    cases h
    constructor
    · intro bytes hbytes
      cases hbytes
    · intro bytes hbytes
      cases hbytes
  | cons head objects ih =>
    obtain ⟨found, later, hdecode, hlater, hcases⟩ := carriedOver_cons h
    obtain ⟨hfrom, hkept⟩ := ih hlater
    have hfrom' : ∀ bytes ∈ later, bytes ∈ head :: objects ∧ ∃ found, decode bytes = .ok found ∧
        ∀ record ∈ found, record.identity ∉ remove :=
      fun bytes hbytes => ⟨mem_cons_of_mem _ (hfrom bytes hbytes).1, (hfrom bytes hbytes).2⟩
    rcases hcases with ⟨rfl, hother⟩ | ⟨rfl, record, hrec, hremove⟩
    · constructor
      · intro bytes hbytes
        rcases mem_cons.mp hbytes with rfl | hbytes
        · exact ⟨mem_cons_self, found, hdecode, hother⟩
        · exact hfrom' bytes hbytes
      · intro bytes hbytes record hrec hne
        rcases mem_cons.mp hbytes with rfl | hbytes
        · exact mem_cons_self
        · exact mem_cons_of_mem _ (hkept bytes hbytes record hrec hne)
    · refine ⟨hfrom', ?_⟩
      intro bytes hbytes record' hrec' hne
      rcases mem_cons.mp hbytes with rfl | hbytes
      · rw [hdecode] at hrec'
        cases hrec'
        cases hrec
        exact absurd hremove hne
      · exact hkept bytes hbytes record' hrec' hne

theorem records_mem {found : List LeaseRecord} (h : records objects = .ok found) (record : LeaseRecord) :
    record ∈ found ↔ ∃ bytes ∈ objects, decode bytes = .ok (some record) := by
  induction objects generalizing found with
  | nil =>
    cases h
    simp
  | cons head objects ih =>
    unfold records at h
    cases hdecode : decode head with
    | error failure =>
      rw [hdecode] at h
      cases h
    | ok first =>
      rw [hdecode] at h
      cases hlater : records objects with
      | error failure =>
        rw [hlater] at h
        cases h
      | ok later =>
        rw [hlater] at h
        cases h
        rw [mem_append, ih hlater]
        simp [hdecode, eq_comm]

theorem records_readable (h : ∀ bytes ∈ objects, Readable bytes) : ∃ found, records objects = .ok found := by
  induction objects with
  | nil => exact ⟨[], rfl⟩
  | cons head objects ih =>
    obtain ⟨first, hfirst⟩ := h head mem_cons_self
    obtain ⟨later, hlater⟩ := ih fun bytes hbytes => h bytes (mem_cons_of_mem _ hbytes)
    refine ⟨first.toList ++ later, ?_⟩
    unfold records
    rw [hfirst, hlater]
    rfl

theorem replaced_readable (identity : SnapshotLeaseId) {additions : List Bytes}
    (h : ∀ bytes ∈ additions, Readable bytes) :
    ∃ flag, replaced identity additions = .ok flag ∧ (flag = false → ∀ bytes ∈ additions, ∀ record,
      decode bytes = .ok (some record) → record.identity ≠ identity) := by
  induction additions with
  | nil =>
    refine ⟨false, rfl, ?_⟩
    intro _ bytes hbytes
    cases hbytes
  | cons head additions ih =>
    obtain ⟨first, hfirst⟩ := h head mem_cons_self
    obtain ⟨flag, hflag, hnone⟩ := ih fun bytes hbytes => h bytes (mem_cons_of_mem _ hbytes)
    unfold replaced
    rw [hfirst, ok_bind]
    split
    · exact ⟨true, rfl, fun hfalse => by cases hfalse⟩
    · rename_i hother
      refine ⟨flag, hflag, ?_⟩
      intro hfalse bytes hbytes record hrec hid
      rcases mem_cons.mp hbytes with rfl | hbytes
      · rw [hfirst] at hrec
        cases hrec
        exact hother (by simp [hid])
      · exact hnone hfalse bytes hbytes record hrec hid

theorem publicationVisible_applied {kept add : List Bytes}
    (hkept : ∀ bytes ∈ kept, ∃ found, decode bytes = .ok found ∧ ∀ record ∈ found, record.identity ∉ remove)
    (hadd : ∀ bytes ∈ add, Readable bytes) : publicationVisible (kept ++ add) remove add = .ok true := by
  have hreadable : ∀ bytes ∈ kept ++ add, Readable bytes := by
    intro bytes hbytes
    rcases mem_append.mp hbytes with hbytes | hbytes
    · obtain ⟨found, hfound, _⟩ := hkept bytes hbytes
      exact ⟨found, hfound⟩
    · exact hadd bytes hbytes
  obtain ⟨published, hpub⟩ := records_readable hreadable
  have hremoval : ∀ identities, (∀ identity ∈ identities, identity ∈ remove) →
      removalVisible published add identities = .ok true := by
    intro identities hsubset
    induction identities with
    | nil => rfl
    | cons identity identities ih =>
      obtain ⟨flag, hflag, hnone⟩ := replaced_readable identity hadd
      have hgone : (!flag && published.any fun record => decide (record.identity = identity)) =
          false := by
        cases flag with
        | true => rfl
        | false =>
          rw [Bool.not_false, Bool.true_and, any_eq_false]
          intro record hrec hid
          obtain ⟨bytes, hbytes, hdecode⟩ := (records_mem hpub record).mp hrec
          rcases mem_append.mp hbytes with hbytes | hbytes
          · obtain ⟨found, hfound, hother⟩ := hkept bytes hbytes
            rw [hdecode] at hfound
            cases hfound
            refine hother record rfl ?_
            rw [of_decide_eq_true hid]
            exact hsubset identity mem_cons_self
          · exact hnone rfl bytes hbytes record hdecode (of_decide_eq_true hid)
      unfold removalVisible
      rw [hflag, ok_bind, hgone]
      exact ih fun other hother => hsubset other (mem_cons_of_mem _ hother)
  have hpresent : (add.all fun addition => decide (addition ∈ kept ++ add)) = true := by
    rw [all_eq_true]
    intro bytes hbytes
    exact decide_eq_true (mem_append_right _ hbytes)
  unfold publicationVisible
  rw [hpub, ok_bind, hremoval remove (fun _ h => h), hpresent]
  rfl

theorem publicationVisible_added {add : List Bytes} (h : publicationVisible objects remove add = .ok true) :
    ∀ bytes ∈ add, bytes ∈ objects := by
  unfold publicationVisible at h
  cases hpub : records objects with
  | error failure =>
    rw [hpub] at h
    cases h
  | ok published =>
    rw [hpub, ok_bind] at h
    cases hremoval : removalVisible published add remove with
    | error failure =>
      rw [hremoval] at h
      cases h
    | ok removed =>
      rw [hremoval] at h
      have hboth : (removed && add.all fun addition => decide (addition ∈ objects)) = true :=
        Except.ok.inj h
      rw [Bool.and_eq_true, all_eq_true] at hboth
      intro bytes hbytes
      exact of_decide_eq_true (hboth.2 bytes hbytes)

theorem readCatalog_known (h : Known catalog catalog.current) :
    readCatalog catalog = ⟨catalog.durable, catalog.durable⟩ := by
  obtain ⟨durable, current⟩ := catalog
  rcases h with heq | hlt
  · cases heq
    exact if_neg (lt_irrefl _)
  · exact if_pos hlt

/-- The durable generation is the same; the process may have read it. -/
def Unchanged (w w' : World) : Prop :=
  ∃ current, (current = w.catalog.current ∨ current = w.catalog.durable) ∧
    w' = { w with catalog := ⟨w.catalog.durable, current⟩ }

theorem Unchanged.refl (w : World) : Unchanged w w := ⟨w.catalog.current, Or.inl rfl, rfl⟩

/-- A publication that took effect, whether or not the process has read it. -/
def Took (remove : List SnapshotLeaseId) (add : List Bytes) (w w' : World) : Prop :=
  ∃ catalog : Catalog, (catalog.current = catalog.durable ∨ catalog.current = w.catalog.durable) ∧
    Applied remove add w.catalog.durable catalog.durable ∧ w' = { w with catalog := catalog }

theorem commit_spec {w : World} (hcur : Known w.catalog w.catalog.current) {basis : Generation}
    (hbasis : Known w.catalog basis) (objects : List Bytes) (outcome : CommitOutcome) :
    Ends (fun result w' => (∃ code, result = .error code ∧ Unchanged w w') ∨
        basis = w.catalog.durable ∧ ∃ generation : Generation, generation.objects = objects ∧
          w.catalog.durable.number < generation.number ∧
            (result = .ok generation ∧ w' = { w with catalog := ⟨generation, generation⟩ } ∨
            outcome = .unacknowledged ∧ result = .error .storageUnavailable ∧
              w' = { w with catalog := ⟨generation, w.catalog.durable⟩ }))
      (fun _ _ => False) ((commit basis.identity objects outcome).run w) := by
  have hread := readCatalog_known hcur
  have hlater : ∀ number, w.catalog.durable.number.checkedAdd ⟨1, by decide⟩ = some number →
      w.catalog.durable.number < number := by
    intro number hnum
    have hval : number.1 = w.catalog.durable.number.1 + 1 :=
      Unsigned.checkedAdd_eq_some_iff.mp hnum
    change w.catalog.durable.number.1 < number.1
    omega
  cases outcome with
  | rejected code => exact .inl ⟨code, rfl, Unchanged.refl w⟩
  | committed | unacknowledged =>
    unfold commit
    rw [EStateM.run_bind]
    simp only [EStateM.run_get, hread]
    split
    · exact .inl ⟨_, rfl, w.catalog.durable, Or.inr rfl, rfl⟩
    · rename_i hid
      split
      · exact .inl ⟨_, rfl, Unchanged.refl w⟩
      · rename_i number hnum
        refine .inr ⟨hbasis.eq (not_not.mp hid), ⟨number, objects⟩, rfl, hlater number hnum, ?_⟩
        first
          | exact .inl ⟨rfl, rfl⟩
          | exact .inr ⟨trivial, rfl, rfl⟩

theorem applied_of_carriedOver {add kept : List Bytes} {old new : Generation}
    (hkept : carriedOver remove old.objects = .ok kept) (hobjs : new.objects = kept ++ add)
    (hlater : old.number < new.number) : Applied remove add old new := by
  obtain ⟨hfrom, hcarried⟩ := carriedOver_mem hkept
  refine ⟨?_, ?_, ?_, Or.inr hlater⟩
  · intro bytes hbytes
    rw [hobjs]
    exact mem_append_right _ hbytes
  · intro bytes hbytes
    rw [hobjs] at hbytes
    rcases mem_append.mp hbytes with hbytes | hbytes
    · exact .inl (hfrom bytes hbytes).1
    · exact .inr hbytes
  · intro bytes hbytes record hrec hremove
    rw [hobjs]
    exact mem_append_left _ (hcarried bytes hbytes record hrec hremove)

/-- The additions are durable although the publication failed. -/
def Lost (reconcile : Bool) (add : List Bytes) (outcome : PublicationOutcome)
    (failure : LedgerFailure) : Prop :=
  failure.completion = .commitAmbiguous ∧ outcome.commit = .unacknowledged ∧
    (reconcile → outcome.refreshed = false) ∨ ∃ bytes ∈ add, ¬ Readable bytes

theorem settleFailedCommit_spec {w : World} (hcur : Known w.catalog w.catalog.current)
    (code : LedgerFailureCode) (remove : List SnapshotLeaseId) (add : List Bytes) (reconcile refreshed : Bool) :
    Ends (fun generation w' => w' = { w with catalog := ⟨w.catalog.durable, w.catalog.durable⟩ } ∧
        generation = w.catalog.durable ∧
        publicationVisible w.catalog.durable.objects remove add = .ok true)
      (fun failure w' => Unchanged w w' ∧ (code = .storageUnavailable →
        failure.completion = .commitAmbiguous ∧ (reconcile → refreshed = false) ∨
          publicationVisible w.catalog.durable.objects remove add ≠ .ok true))
      ((settleFailedCommit code remove add reconcile refreshed).run w) := by
  unfold settleFailedCommit
  split
  · rename_i hcode
    refine ⟨Unchanged.refl w, ?_⟩
    intro hstorage
    rw [hcode] at hstorage
    cases hstorage
  · cases reconcile with
    | false =>
      refine ⟨Unchanged.refl w, ?_⟩
      intro hstorage
      rw [if_pos hstorage]
      exact .inl ⟨rfl, fun hreconcile => by cases hreconcile⟩
    | true =>
      cases refreshed with
      | false => exact ⟨Unchanged.refl w, fun _ => Or.inl ⟨rfl, fun _ => rfl⟩⟩
      | true =>
        have hread := readCatalog_known hcur
        have hunchanged : Unchanged w { w with catalog := readCatalog w.catalog } := by
          rw [hread]
          exact ⟨w.catalog.durable, Or.inr rfl, rfl⟩
        change Ends _ _ (EStateM.run (ofExcept (publicationVisible (readCatalog w.catalog).current.objects
          remove add) >>= fun visible => if visible then pure (readCatalog w.catalog).current
            else fail code) { w with catalog := readCatalog w.catalog })
        rw [hread] at hunchanged ⊢
        cases hvisible : publicationVisible w.catalog.durable.objects remove add with
        | error failure => exact ⟨hunchanged, fun _ => Or.inr fun h => by cases h⟩
        | ok visible =>
          cases visible with
          | false => exact ⟨hunchanged, fun _ => Or.inr fun h => by cases h⟩
          | true => exact ⟨rfl, rfl, rfl⟩

/-- The durable generation gives way to one with what is carried over from it and the additions. -/
structure Commits (basis : Generation) (remove : List SnapshotLeaseId) (add : List Bytes) (w w' : World) :
    Prop where
  basis : basis = w.catalog.durable
  objects : ∃ kept, carriedOver remove w.catalog.durable.objects = .ok kept ∧
    w'.catalog.durable.objects = kept ++ add
  later : w.catalog.durable.number < w'.catalog.durable.number
  current : w'.catalog.current = w'.catalog.durable ∨ w'.catalog.current = w.catalog.durable
  rest : w' = { w with catalog := w'.catalog }

def Shows (remove : List SnapshotLeaseId) (add : List Bytes) (w w' : World) : Prop :=
  publicationVisible w.catalog.durable.objects remove add = .ok true ∧
    w' = { w with catalog := ⟨w.catalog.durable, w.catalog.durable⟩ }

variable {basis : Generation} {add : List Bytes} {w w' : World}

theorem Commits.took (h : Commits basis remove add w w') : Took remove add w w' := by
  obtain ⟨kept, hkept, hobjs⟩ := h.objects
  exact ⟨w'.catalog, h.current, applied_of_carriedOver hkept hobjs h.later, h.rest⟩

theorem Shows.took (h : Shows remove add w w') : Took remove add w w' := by
  obtain ⟨hvisible, rfl⟩ := h
  exact ⟨⟨_, _⟩, Or.inl rfl, ⟨publicationVisible_added hvisible,
    fun bytes hbytes => Or.inl hbytes, fun bytes hbytes _ _ _ => hbytes, Or.inl rfl⟩, rfl⟩

theorem publishManyInner_cases (hcur : Known w.catalog w.catalog.current) (hbasis : Known w.catalog basis)
    (remove : List SnapshotLeaseId) (add : List Bytes) (reconcile : Bool) (outcome : PublicationOutcome) :
    Ends (fun generation w' =>
        (Commits basis remove add w w' ∨ Shows remove add w w') ∧ generation = w'.catalog.durable)
      (fun failure w' => Unchanged w w' ∨ Commits basis remove add w w' ∧ Lost reconcile add outcome failure)
      ((publishManyInner basis basis.identity remove add reconcile outcome).run w) := by
  unfold publishManyInner
  cases hkept : carriedOver remove basis.objects with
  | error failure => exact .inl (Unchanged.refl w)
  | ok kept =>
    change Ends _ _ (EStateM.run (commit basis.identity (kept ++ add) outcome.commit >>= _) w)
    have hcommit := commit_spec hcur hbasis (kept ++ add) outcome.commit
    rw [EStateM.run_bind]
    cases hrun : (commit basis.identity (kept ++ add) outcome.commit).run w with
    | error failure w' =>
      rw [hrun] at hcommit
      exact hcommit.elim
    | ok result w' =>
      rw [hrun] at hcommit
      rcases hcommit with ⟨code, rfl, current, hsame, rfl⟩ | ⟨rfl, generation, hobjs, hlater, hcases⟩
      · -- the commit did not happen, but may look as if it had
        have hread : Known ⟨w.catalog.durable, current⟩ current := by
          rcases hsame with rfl | rfl
          · exact hcur
          · exact .inl rfl
        have hsettle := settleFailedCommit_spec
          (show Known (World.mk w.scope w.retentionTime ⟨w.catalog.durable, current⟩ w.leases
            w.encoded).catalog _ from hread) code remove add reconcile outcome.refreshed
        refine hsettle.weaken ?_ ?_
        · rintro generation w' ⟨rfl, rfl, hvisible⟩
          exact ⟨Or.inr ⟨hvisible, rfl⟩, rfl⟩
        · rintro failure w' ⟨⟨later, hlater, rfl⟩, _⟩
          refine .inl ⟨later, ?_, rfl⟩
          rcases hlater with rfl | rfl
          · exact hsame
          · exact .inr rfl
      · rcases hcases with ⟨rfl, rfl⟩ | ⟨houtcome, rfl, rfl⟩
        · exact ⟨Or.inl ⟨rfl, ⟨kept, hkept, hobjs⟩, hlater, Or.inl rfl, rfl⟩, rfl⟩
        · have hread : Known ⟨generation, w.catalog.durable⟩ w.catalog.durable := Or.inr hlater
          have hsettle := settleFailedCommit_spec
            (show Known (World.mk w.scope w.retentionTime ⟨generation, w.catalog.durable⟩ w.leases
              w.encoded).catalog _ from hread) .storageUnavailable remove add reconcile outcome.refreshed
          refine hsettle.weaken ?_ ?_
          · rintro found w' ⟨rfl, hfound, _⟩
            exact ⟨Or.inl ⟨rfl, ⟨kept, hkept, hobjs⟩, hlater, Or.inl rfl, rfl⟩, hfound⟩
          · rintro failure w' ⟨⟨later, hsame, rfl⟩, hreason⟩
            refine .inr ⟨⟨rfl, ⟨kept, hkept, hobjs⟩, hlater, hsame.symm, rfl⟩, ?_⟩
            rcases hreason rfl with ⟨hambiguous, hrefreshed⟩ | hhidden
            · exact .inl ⟨hambiguous, houtcome, hrefreshed⟩
            · -- everything carried over is readable, so an addition is not
              refine .inr (by_contra fun hreadable => hhidden ?_)
              push Not at hreadable
              rw [hobjs]
              exact publicationVisible_applied
                (fun bytes hbytes => ((carriedOver_mem hkept).1 bytes hbytes).2) hreadable

theorem publishManyInner_spec (hcur : Known w.catalog w.catalog.current) (hbasis : Known w.catalog basis)
    (remove : List SnapshotLeaseId) (add : List Bytes) (reconcile : Bool) (outcome : PublicationOutcome) :
    Ends (fun generation w' => Took remove add w w' ∧ generation = w'.catalog.durable)
      (fun failure w' => Unchanged w w' ∨ Took remove add w w' ∧ Lost reconcile add outcome failure)
      ((publishManyInner basis basis.identity remove add reconcile outcome).run w) := by
  refine (publishManyInner_cases hcur hbasis remove add reconcile outcome).weaken ?_ ?_
  · rintro generation w' ⟨hcommits | hshows, hgen⟩
    · exact ⟨hcommits.took, hgen⟩
    · exact ⟨hshows.took, hgen⟩
  · rintro failure w' (hunchanged | ⟨hcommits, hlost⟩)
    · exact .inl hunchanged
    · exact .inr ⟨hcommits.took, hlost⟩

end Positron.Lease
