import Mathlib.Tactic.IntervalCases
import Positron.Ledger.Fields

/-! Snapshot leases and their records in the catalog, with their round trip. The encoder picks the version from
the contents of the record and writes `u64::MAX` for an absent marker, so a marker with that very sequence
does not read back. -/

namespace Positron.Lease
open MachineInt ByteCodec Ledger List

def maxSnapshotLeaseTtlSeconds : Nat := 3600

def maxSnapshotLeases : Nat := 64

structure SnapshotLeaseUsage where
  scannedBytes : U64
  decodedRecords : U64
  cpuWorkUnits : U64
  wallSeconds : U64
  outputRows : U64
  outputBytes : U64
  memoryPeakBytes : U64
deriving DecidableEq

namespace SnapshotLeaseUsage

def none : SnapshotLeaseUsage :=
  ⟨Unsigned.zero 64, Unsigned.zero 64, Unsigned.zero 64, Unsigned.zero 64, Unsigned.zero 64,
    Unsigned.zero 64, Unsigned.zero 64⟩

def isZero (usage : SnapshotLeaseUsage) : Bool := decide (usage = none)

def charge (spent delta : U64) : LedgerResult U64 :=
  match spent.checkedAdd delta with
  | some total => .ok total
  | .none => reject .limitExceeded

def merge (usage delta : SnapshotLeaseUsage) : LedgerResult SnapshotLeaseUsage := do
  let scannedBytes ← charge usage.scannedBytes delta.scannedBytes
  let decodedRecords ← charge usage.decodedRecords delta.decodedRecords
  let cpuWorkUnits ← charge usage.cpuWorkUnits delta.cpuWorkUnits
  let wallSeconds ← charge usage.wallSeconds delta.wallSeconds
  let outputRows ← charge usage.outputRows delta.outputRows
  let outputBytes ← charge usage.outputBytes delta.outputBytes
  return ⟨scannedBytes, decodedRecords, cpuWorkUnits, wallSeconds, outputRows, outputBytes,
    max usage.memoryPeakBytes delta.memoryPeakBytes⟩

end SnapshotLeaseUsage

structure LeaseBlock where
  identity : StoreBlockIdentity
  position : CommitPosition
  segment : SegmentId
deriving DecidableEq

structure LeaseRecord where
  identity : SnapshotLeaseId
  scope : SegmentScope
  catalogIdentity : CatalogGenerationId
  catalogGeneration : U64
  frontier : CommitPosition
  observedAt : U64
  expiry : U64
  resumeCount : U64
  repeatedBatchCount : U64
  lastResumeSequence : Option U64
  lastResumePriorDigest : FixedBytes 32
  usage : SnapshotLeaseUsage
  blocks : List LeaseBlock
deriving DecidableEq

def noDigest : FixedBytes 32 := ⟨List.replicate 32 0, rfl⟩

structure LeaseResumeMarker where
  sequence : U64
  priorDigest : FixedBytes 32
  attempts : U64
  repeats : U64
  usage : SnapshotLeaseUsage
deriving DecidableEq

variable (record : LeaseRecord)

def resumeMarkerFor : LeaseResumeMarker where
  sequence := record.lastResumeSequence.getD (Unsigned.zero 64)
  priorDigest := record.lastResumePriorDigest
  attempts := record.resumeCount
  repeats := record.repeatedBatchCount
  usage := record.usage

def validLeaseInterval (observedAt expiry : U64) : Bool :=
  match expiry.checkedSub observedAt with
  | some ttl => decide (1 ≤ ttl.1 ∧ ttl.1 ≤ maxSnapshotLeaseTtlSeconds)
  | none => false

def validateActiveLease (now : U64) : LedgerResult Unit :=
  if record.expiry ≤ now then .ok ()
  else if record.observedAt.1 ≠ 0 ∧ now < record.observedAt then reject .invalidInput
  else
    match record.expiry.checkedSub now with
    | none => reject .integrityCorruption
    | some remaining =>
      if maxSnapshotLeaseTtlSeconds < remaining.1 then reject .integrityCorruption else .ok ()

/-- The counters and the marker of a record agree: it has a marker exactly when it was resumed. -/
structure LeaseRecord.Consistent (record : LeaseRecord) : Prop where
  repeats : record.repeatedBatchCount.1 ≤ record.resumeCount.1
  marker : record.lastResumeSequence = none ↔ record.resumeCount.1 = 0
  digest : record.resumeCount.1 = 0 → record.lastResumePriorDigest = noDigest

theorem LeaseRecord.Consistent.fresh {record : LeaseRecord} (hcount : record.resumeCount = Unsigned.zero 64)
    (hrepeats : record.repeatedBatchCount = Unsigned.zero 64) (hmarker : record.lastResumeSequence = none)
    (hdigest : record.lastResumePriorDigest = noDigest) : record.Consistent where
  repeats := by rw [hrepeats, hcount]
  marker := iff_of_true hmarker (by rw [hcount]; rfl)
  digest := fun _ => hdigest

/-- `PSLEASE1`. -/
def leaseMagic : Bytes := [0x50, 0x53, 0x4c, 0x45, 0x41, 0x53, 0x45, 0x31]

inductive LeaseVersion where
  | legacy
  | plain
  | marker
  | usage
deriving DecidableEq

namespace LeaseVersion

def tag : LeaseVersion → U16
  | legacy => ⟨1, by decide⟩
  | plain => ⟨2, by decide⟩
  | marker => ⟨3, by decide⟩
  | usage => ⟨4, by decide⟩

def ofTag (tag : U16) : Option LeaseVersion :=
  match tag.1 with
  | 1 => some legacy
  | 2 => some plain
  | 3 => some marker
  | 4 => some usage
  | _ => none

def headerBytes : LeaseVersion → Nat
  | legacy => 105
  | plain => 113
  | marker => 169
  | usage => 225

def countOffset : LeaseVersion → Nat
  | legacy => 103
  | plain => 111
  | marker => 167
  | usage => 223

def hasMarker (version : LeaseVersion) : Bool := decide (version = marker ∨ version = usage)

end LeaseVersion

def leaseBlockBytes : Nat := 40

def noSequence : U64 := Unsigned.maxValue 64

def LeaseRecord.version : LeaseVersion :=
  if !record.usage.isZero then .usage
  else if 0 < record.resumeCount.1 ∨ record.lastResumeSequence.isSome then .marker
  else .plain

def headerFields (version : LeaseVersion) (record : LeaseRecord) : List Bytes :=
  [leaseMagic, beBytes 2 version.tag.1, record.identity.id.toBytes] ++ scopeFields record.scope ++
    [record.catalogIdentity.1, beBytes 8 record.catalogGeneration.1, beBytes 8 record.frontier.1,
      beBytes 8 record.observedAt.1, beBytes 8 record.expiry.1]

def markerFields : List Bytes :=
  [beBytes 8 record.resumeCount.1, beBytes 8 record.repeatedBatchCount.1,
    beBytes 8 (record.lastResumeSequence.getD noSequence).1, record.lastResumePriorDigest.1]

def usageFields (usage : SnapshotLeaseUsage) : List Bytes :=
  [beBytes 8 usage.scannedBytes.1, beBytes 8 usage.decodedRecords.1, beBytes 8 usage.cpuWorkUnits.1,
    beBytes 8 usage.wallSeconds.1, beBytes 8 usage.outputRows.1, beBytes 8 usage.outputBytes.1,
    beBytes 8 usage.memoryPeakBytes.1]

def blockFields (block : LeaseBlock) : List Bytes :=
  [block.identity.id.toBytes, beBytes 8 block.position.1, block.segment.id.toBytes]

def encodedBlocks (blocks : List LeaseBlock) : Bytes := (blocks.flatMap blockFields).flatten

/-- Everything before the blocks. The bound on the blocks makes their count fit sixteen bits. -/
def leaseHeader (version : LeaseVersion) (record : LeaseRecord) : List Bytes :=
  headerFields version record ++ (if version.hasMarker then markerFields record else []) ++
    (if version = .usage then usageFields record.usage else []) ++
    [beBytes 2 record.blocks.length]

def encode : LedgerResult Bytes :=
  if maxRetainedBlocks < record.blocks.length ∨
      validLeaseInterval record.observedAt record.expiry = false then reject .limitExceeded
  else .ok ((leaseHeader record.version record).flatten ++ encodedBlocks record.blocks)

def readBlock (bytes : Bytes) (start : Nat) : LedgerResult LeaseBlock := do
  let identity ← exactIdentifier .invalidInput bytes start
  let position ← exactU64 bytes (start + 16)
  let segment ← exactIdentifier .invalidInput bytes (start + 24)
  return ⟨⟨identity⟩, position, ⟨segment⟩⟩

def readBlocks (bytes : Bytes) : Nat → Nat → LedgerResult (List LeaseBlock)
  | _, 0 => .ok []
  | start, count + 1 => do
    let block ← readBlock bytes start
    let blocks ← readBlocks bytes (start + leaseBlockBytes) count
    return block :: blocks

def readMarker (version : LeaseVersion) (bytes : Bytes) :
    LedgerResult (U64 × U64 × Option U64 × FixedBytes 32) :=
  if version.hasMarker then do
    let resumeCount ← exactU64 bytes 111
    let repeatedBatchCount ← exactU64 bytes 119
    let sequence ← exactU64 bytes 127
    if resumeCount < repeatedBatchCount ∨ (resumeCount.1 = 0 ∧ sequence ≠ noSequence) ∨
        (0 < resumeCount.1 ∧ sequence = noSequence) then reject .integrityCorruption
    else do
      let digest ← exact 32 bytes 135
      return (resumeCount, repeatedBatchCount, if sequence = noSequence then none else some sequence, digest)
  else .ok (Unsigned.zero 64, Unsigned.zero 64, none, noDigest)

def readUsage (version : LeaseVersion) (bytes : Bytes) : LedgerResult SnapshotLeaseUsage :=
  if version = .usage then do
    let scannedBytes ← exactU64 bytes 167
    let decodedRecords ← exactU64 bytes 175
    let cpuWorkUnits ← exactU64 bytes 183
    let wallSeconds ← exactU64 bytes 191
    let outputRows ← exactU64 bytes 199
    let outputBytes ← exactU64 bytes 207
    let memoryPeakBytes ← exactU64 bytes 215
    return ⟨scannedBytes, decodedRecords, cpuWorkUnits, wallSeconds, outputRows, outputBytes, memoryPeakBytes⟩
  else .ok .none

def readWindow (version : LeaseVersion) (bytes : Bytes) : LedgerResult (U64 × U64) :=
  if version = .legacy then do
    let expiry ← exactU64 bytes 95
    return (Unsigned.zero 64, expiry)
  else do
    let observedAt ← exactU64 bytes 95
    let expiry ← exactU64 bytes 103
    if validLeaseInterval observedAt expiry then return (observedAt, expiry)
    else reject .integrityCorruption

def decodeVersion (version : LeaseVersion) (bytes : Bytes) : LedgerResult LeaseRecord := do
  let count ← exactU16 bytes version.countOffset
  if bytes.length ≠ version.headerBytes + count.1 * leaseBlockBytes ∨ maxRetainedBlocks < count.1 then
    reject .integrityCorruption
  else do
    let scope ← readScope bytes 26
    let blocks ← readBlocks bytes version.headerBytes count.1
    let (observedAt, expiry) ← readWindow version bytes
    let (resumeCount, repeatedBatchCount, lastResumeSequence, lastResumePriorDigest) ←
      readMarker version bytes
    let usage ← readUsage version bytes
    let identity ← exactIdentifier .invalidInput bytes 10
    let catalogIdentity ← exact 32 bytes 47
    let catalogGeneration ← exactU64 bytes 79
    let frontier ← exactU64 bytes 87
    return ⟨⟨identity⟩, scope, catalogIdentity, catalogGeneration, frontier, observedAt, expiry,
      resumeCount, repeatedBatchCount, lastResumeSequence, lastResumePriorDigest, usage, blocks⟩

def decode (bytes : Bytes) : LedgerResult (Option LeaseRecord) :=
  if leaseMagic.isPrefixOf bytes then do
    let tag ← exactU16 bytes 8
    match LeaseVersion.ofTag tag with
    | none => reject .integrityCorruption
    | some version => do
      let record ← decodeVersion version bytes
      return some record
  else .ok none

variable {record : LeaseRecord} {version : LeaseVersion}

def leaseFields (version : LeaseVersion) (record : LeaseRecord) : List Bytes :=
  leaseHeader version record ++ [encodedBlocks record.blocks]

variable {bytes : Bytes} {start : Nat}

theorem encode_eq_ok_iff : encode record = .ok bytes ↔ record.blocks.length ≤ maxRetainedBlocks ∧
      validLeaseInterval record.observedAt record.expiry ∧
      bytes = (leaseFields record.version record).flatten := by
  have hfields : (leaseFields record.version record).flatten =
      (leaseHeader record.version record).flatten ++ encodedBlocks record.blocks := by
    rw [leaseFields, flatten_append, flatten_singleton]
  unfold encode
  rw [hfields]
  split
  · rename_i hbad
    constructor
    · intro h
      cases h
    · rintro ⟨hblocks, hival, _⟩
      rcases hbad with hbad | hbad
      · exact absurd hbad (not_lt.mpr hblocks)
      · rw [hival] at hbad
        cases hbad
  · rename_i hgood
    rw [not_or, not_lt, Bool.not_eq_false] at hgood
    constructor
    · intro h
      cases h
      exact ⟨hgood.1, hgood.2, rfl⟩
    · rintro ⟨_, _, rfl⟩
      rfl

def LeaseVersion.fieldLengths : LeaseVersion → List Nat
  | legacy => [2]
  | plain => [2]
  | marker => [8, 8, 8, 32, 2]
  | usage => [8, 8, 8, 32, 8, 8, 8, 8, 8, 8, 8, 2]

theorem leaseFields_lengths (version : LeaseVersion) (record : LeaseRecord) :
    (leaseFields version record).map List.length = [8, 2, 16, 16, 1, 4, 32, 8, 8, 8, 8] ++
      (version.fieldLengths ++ [(encodedBlocks record.blocks).length]) := by
  have hcat := record.catalogIdentity.2
  have hdigest := record.lastResumePriorDigest.2
  unfold leaseFields leaseHeader
  cases version <;>
    simp [headerFields, scopeFields, markerFields, usageFields, leaseMagic, LeaseVersion.hasMarker,
      LeaseVersion.fieldLengths, hcat, hdigest]

theorem encodedBlocks_cons (block : LeaseBlock) (blocks : List LeaseBlock) :
    encodedBlocks (block :: blocks) = block.identity.id.toBytes ++ (beBytes 8 block.position.1 ++
      (block.segment.id.toBytes ++ encodedBlocks blocks)) := by
  simp [encodedBlocks, blockFields]

theorem encodedBlocks_length (blocks : List LeaseBlock) :
    (encodedBlocks blocks).length = blocks.length * leaseBlockBytes := by
  induction blocks with
  | nil => rfl
  | cons block blocks ih =>
    rw [encodedBlocks_cons, length_cons]
    simp only [length_append, Identifier.toBytes_length, beBytes_length, ih, leaseBlockBytes]
    omega

theorem readBlock_at (pre post : Bytes) (block : LeaseBlock) (hstart : pre.length = start) :
    readBlock (pre ++ (block.identity.id.toBytes ++ (beBytes 8 block.position.1 ++
      (block.segment.id.toBytes ++ post)))) start = .ok block := by
  have hfields : pre ++ (block.identity.id.toBytes ++ (beBytes 8 block.position.1 ++
      (block.segment.id.toBytes ++ post))) = [pre, block.identity.id.toBytes,
        beBytes 8 block.position.1, block.segment.id.toBytes, post].flatten := by
    simp
  rw [hfields]
  unfold readBlock
  rw [exactIdentifier_flatten 1 _ rfl (by simp [hstart]), exactU64_flatten 2 rfl (by simp [hstart]),
    exactIdentifier_flatten 3 _ rfl (by simp [hstart])]
  rfl

theorem readBlocks_at (blocks : List LeaseBlock) (pre : Bytes) (hstart : pre.length = start) :
    readBlocks (pre ++ encodedBlocks blocks) start blocks.length = .ok blocks := by
  induction blocks generalizing pre start with
  | nil => rfl
  | cons block blocks ih =>
    rw [encodedBlocks_cons, length_cons]
    unfold readBlocks
    rw [readBlock_at pre _ block hstart]
    have hsplit : pre ++ (block.identity.id.toBytes ++ (beBytes 8 block.position.1 ++
        (block.segment.id.toBytes ++ encodedBlocks blocks))) =
        (pre ++ (block.identity.id.toBytes ++ (beBytes 8 block.position.1 ++
          block.segment.id.toBytes))) ++ encodedBlocks blocks := by
      simp only [append_assoc]
    rw [hsplit, ih _ (by simp [hstart, leaseBlockBytes])]
    rfl

theorem leaseHeader_length (hver : version ≠ .legacy) (record : LeaseRecord) :
    (leaseHeader version record).flatten.length = version.headerBytes := by
  have hlens := leaseFields_lengths version record
  rw [leaseFields, map_append, ← append_assoc] at hlens
  have hheader := append_cancel_right hlens
  rw [length_flatten, hheader]
  cases version with
  | legacy => exact absurd rfl hver
  | plain | marker | usage => simp [LeaseVersion.fieldLengths, LeaseVersion.headerBytes]

theorem readWindow_fields (hver : version ≠ .legacy)
    (hival : validLeaseInterval record.observedAt record.expiry) :
    readWindow version (leaseFields version record).flatten = .ok (record.observedAt, record.expiry) := by
  unfold readWindow
  rw [if_neg hver, exactU64_flatten 9 rfl (by simp [leaseFields_lengths]), ok_bind,
    exactU64_flatten 10 rfl (by simp [leaseFields_lengths]), ok_bind, if_pos hival]
  rfl

theorem exactU16_count (hver : version ≠ .legacy) {count : U16} (hcount : count.1 = record.blocks.length) :
    exactU16 (leaseFields version record).flatten version.countOffset = .ok count := by
  have hstart : ∀ i, i = version.fieldLengths.length + 10 →
      (((leaseFields version record).map List.length).take i).sum = version.countOffset := by
    rw [leaseFields_lengths]
    cases version with
    | legacy => exact absurd rfl hver
    | plain | marker | usage => simp [LeaseVersion.fieldLengths, LeaseVersion.countOffset]
  cases version with
  | legacy => exact absurd rfl hver
  | plain => exact exactU16_flatten 11 (by rw [hcount]; rfl) (hstart 11 rfl)
  | marker => exact exactU16_flatten 15 (by rw [hcount]; rfl) (hstart 15 rfl)
  | usage => exact exactU16_flatten 22 (by rw [hcount]; rfl) (hstart 22 rfl)

theorem decode_fields (hver : version ≠ .legacy) (hblocks : record.blocks.length ≤ maxRetainedBlocks)
    (hival : validLeaseInterval record.observedAt record.expiry) :
    decode (leaseFields version record).flatten = (do
      let marker ← readMarker version (leaseFields version record).flatten
      let usage ← readUsage version (leaseFields version record).flatten
      return some { record with
        resumeCount := marker.1
        repeatedBatchCount := marker.2.1
        lastResumeSequence := marker.2.2.1
        lastResumePriorDigest := marker.2.2.2
        usage := usage }) := by
  have hfits : record.blocks.length < 2 ^ 16 := lt_of_le_of_lt hblocks (by decide)
  obtain ⟨count, hcount⟩ : ∃ count : U16, count.1 = record.blocks.length := ⟨⟨_, hfits⟩, rfl⟩
  have hmagic : leaseMagic.isPrefixOf (leaseFields version record).flatten := rfl
  have htag : exactU16 (leaseFields version record).flatten 8 = .ok version.tag :=
    exactU16_flatten 1 rfl (by simp [leaseFields_lengths])
  have hofTag : LeaseVersion.ofTag version.tag = some version := by
    cases version <;> rfl
  have hheader := leaseHeader_length hver record
  have hlen : (leaseFields version record).flatten.length =
      version.headerBytes + count.1 * leaseBlockBytes := by
    rw [leaseFields, flatten_append, length_append, hheader, flatten_singleton, encodedBlocks_length, hcount]
  have hread : readBlocks (leaseFields version record).flatten version.headerBytes count.1 =
      .ok record.blocks := by
    rw [leaseFields, flatten_append, flatten_singleton, hcount]
    exact readBlocks_at record.blocks _ hheader
  have hscope : readScope (leaseFields version record).flatten 26 = .ok record.scope :=
    readScope_flatten 3 rfl (by simp [leaseFields_lengths])
  have hid : exactIdentifier .invalidInput (leaseFields version record).flatten 10 =
      .ok record.identity.id := exactIdentifier_flatten 2 _ rfl (by simp [leaseFields_lengths])
  have hgen : exactU64 (leaseFields version record).flatten 79 =
      .ok record.catalogGeneration := exactU64_flatten 7 rfl (by simp [leaseFields_lengths])
  have hfront : exactU64 (leaseFields version record).flatten 87 = .ok record.frontier :=
    exactU64_flatten 8 rfl (by simp [leaseFields_lengths])
  obtain ⟨catalog, hcat, hsame⟩ : ∃ field, exact 32 (leaseFields version record).flatten 47 =
      .ok field ∧ field.1 = record.catalogIdentity.1 :=
    exact_flatten 6 rfl (by simp [leaseFields_lengths]) record.catalogIdentity.2
  have hcatId : catalog = record.catalogIdentity := Subtype.ext hsame
  subst hcatId
  unfold decode
  rw [if_pos hmagic, htag, ok_bind, hofTag]
  dsimp only
  unfold decodeVersion
  rw [exactU16_count hver hcount, ok_bind, if_neg (by rw [not_or]; exact ⟨not_not.mpr hlen,
    by omega⟩), hscope, hread, readWindow_fields hver hival]
  rw [hid, hcat, hgen, hfront]
  cases readMarker version (leaseFields version record).flatten with
  | error failure => rfl
  | ok marker =>
    cases readUsage version (leaseFields version record).flatten with
    | error failure => rfl
    | ok usage => rfl

theorem markerFields_read (hver : version.hasMarker) (record : LeaseRecord) :
    exactU64 (leaseFields version record).flatten 111 = .ok record.resumeCount ∧
    exactU64 (leaseFields version record).flatten 119 = .ok record.repeatedBatchCount ∧
    exactU64 (leaseFields version record).flatten 127 = .ok (record.lastResumeSequence.getD noSequence) ∧
    exact 32 (leaseFields version record).flatten 135 = .ok record.lastResumePriorDigest := by
  have hfield : ∀ i < 4, (leaseFields version record)[11 + i]? = (markerFields record)[i]? := by
    intro i hi
    cases version with
    | legacy => cases hver
    | plain => cases hver
    | marker | usage => interval_cases i <;> rfl
  have hstart : ∀ i < 4,
      (((leaseFields version record).map List.length).take (11 + i)).sum = 111 + 8 * i := by
    intro i hi
    rw [leaseFields_lengths]
    cases version with
    | legacy => cases hver
    | plain => cases hver
    | marker | usage => interval_cases i <;> simp [LeaseVersion.fieldLengths]
  obtain ⟨digest, hdigest, hsame⟩ := exact_flatten (11 + 3) (hfield 3 (by omega))
    (hstart 3 (by omega)) record.lastResumePriorDigest.2
  have hpriorDigest : digest = record.lastResumePriorDigest := Subtype.ext hsame
  exact ⟨exactU64_flatten (11 + 0) (hfield 0 (by omega)) (hstart 0 (by omega)),
    exactU64_flatten (11 + 1) (hfield 1 (by omega)) (hstart 1 (by omega)),
    exactU64_flatten (11 + 2) (hfield 2 (by omega)) (hstart 2 (by omega)), hpriorDigest ▸ hdigest⟩

theorem readMarker_fields (hver : version.hasMarker) (record : LeaseRecord) :
    readMarker version (leaseFields version record).flatten =
      if record.resumeCount < record.repeatedBatchCount ∨
          (record.resumeCount.1 = 0 ∧ record.lastResumeSequence.getD noSequence ≠ noSequence) ∨
          (0 < record.resumeCount.1 ∧ record.lastResumeSequence.getD noSequence = noSequence) then
        reject .integrityCorruption
      else .ok (record.resumeCount, record.repeatedBatchCount,
        if record.lastResumeSequence.getD noSequence = noSequence then none
        else some (record.lastResumeSequence.getD noSequence), record.lastResumePriorDigest) := by
  obtain ⟨hcount, hrepeats, hseq, hdigest⟩ := markerFields_read hver record
  unfold readMarker
  rw [if_pos hver, hcount, hrepeats, hseq, hdigest]
  rfl

theorem readUsage_fields (hver : version = .usage ∨ record.usage = .none) :
    readUsage version (leaseFields version record).flatten = .ok record.usage := by
  unfold readUsage
  split
  · rename_i husage
    subst husage
    have hread : ∀ i < 7, ∀ n : U64, (usageFields record.usage)[i]? = some (beBytes 8 n.1) →
        exactU64 (leaseFields .usage record).flatten (167 + 8 * i) = .ok n := by
      intro i hi n hn
      have hfield : (leaseFields .usage record)[15 + i]? = (usageFields record.usage)[i]? := by
        interval_cases i <;> rfl
      refine exactU64_flatten (15 + i) (hfield.trans hn) ?_
      rw [leaseFields_lengths]
      interval_cases i <;> simp [LeaseVersion.fieldLengths]
    rw [hread 0 (by omega) _ rfl, hread 1 (by omega) _ rfl, hread 2 (by omega) _ rfl, hread 3 (by omega) _ rfl,
      hread 4 (by omega) _ rfl, hread 5 (by omega) _ rfl, hread 6 (by omega) _ rfl]
    rfl
  · rename_i husage
    rw [hver.resolve_left husage]

theorem LeaseRecord.version_ne_legacy (record : LeaseRecord) : record.version ≠ .legacy := by
  unfold LeaseRecord.version
  split
  · exact fun h => by cases h
  · split <;> exact fun h => by cases h

theorem LeaseRecord.version_usage (record : LeaseRecord) : record.version = .usage ∨ record.usage = .none := by
  unfold LeaseRecord.version
  split
  · exact .inl rfl
  · rename_i hzero
    rw [Bool.not_eq_true', Bool.not_eq_false] at hzero
    exact .inr (of_decide_eq_true hzero)

theorem LeaseRecord.version_marker (hver : record.version.hasMarker = false) :
    record.resumeCount.1 = 0 ∧ record.lastResumeSequence = none := by
  unfold LeaseRecord.version at hver
  split at hver
  · cases hver
  · split at hver
    · cases hver
    · rename_i hfresh
      rw [not_or, not_lt, Nat.le_zero, Bool.not_eq_true, Option.isSome_eq_false_iff,
        Option.isNone_iff_eq_none] at hfresh
      exact hfresh

theorem readMarker_encoded (hrec : record.Consistent) :
    readMarker record.version (leaseFields record.version record).flatten =
      if record.lastResumeSequence = some noSequence then reject .integrityCorruption
      else .ok (record.resumeCount, record.repeatedBatchCount, record.lastResumeSequence,
        record.lastResumePriorDigest) := by
  have hrepeats := hrec.repeats
  cases hmarker : record.version.hasMarker with
  | false =>
    obtain ⟨hcount, hnone⟩ := LeaseRecord.version_marker hmarker
    have hresumes : record.resumeCount = Unsigned.zero 64 := Subtype.ext hcount
    have hrepeated : record.repeatedBatchCount = Unsigned.zero 64 :=
      Subtype.ext (Nat.le_zero.mp (hcount ▸ hrepeats))
    unfold readMarker
    rw [hmarker, hnone, hrec.digest hcount, hresumes, hrepeated]
    rfl
  | true =>
    rw [readMarker_fields hmarker]
    have hordered : ¬ record.resumeCount < record.repeatedBatchCount := not_lt.mpr hrepeats
    cases hseq : record.lastResumeSequence with
    | none =>
      have hcount := hrec.marker.mp hseq
      simp [hordered, hcount]
    | some sequence =>
      have hcount : record.resumeCount.1 ≠ 0 := fun hzero => by
        rw [hrec.marker.mpr hzero] at hseq
        cases hseq
      by_cases hreserved : sequence = noSequence
      · simp [hreserved, Nat.pos_of_ne_zero hcount]
      · simp [hreserved, hordered, hcount]

/-- An accepted record reads back as itself, unless its marker is the sequence that stands for no
marker; then it does not read back at all. -/
theorem decode_encode (hrec : record.Consistent) (h : encode record = .ok bytes) :
    decode bytes = if record.lastResumeSequence = some noSequence then reject .integrityCorruption
      else .ok (some record) := by
  obtain ⟨hblocks, hival, rfl⟩ := encode_eq_ok_iff.mp h
  rw [decode_fields record.version_ne_legacy hblocks hival, readMarker_encoded hrec,
    readUsage_fields record.version_usage]
  split
  · rfl
  · rfl

end Positron.Lease
