import Mathlib.Data.List.AList
import Positron.Catalog.Codec

/-! Recovery of the catalog from its files. The markers name the generations; the commits are read from the
latest back to the first by their exact names, and then replayed in order with their audit records. Every commit
that the replay accepts extends the chain of commits and the chain of audit records. -/

namespace Positron.Catalog
open MachineInt ByteCodec ByteNames Checks List

variable (platform : Platform)

/-- A regular file with one link, or something else that stands under a name. -/
inductive Entry where
  | file (contents : Bytes)
  | irregular
deriving DecidableEq

/-- The entries of a directory in the order in which it is read. -/
abbrev Directory := AList (fun _ : Bytes => Entry)

structure CatalogStorage where
  objects : Directory
  audit : Directory
  auditCheckpoints : Directory
  commits : Directory
  generations : Directory
  staging : Directory
  transactions : AList (fun _ : Bytes => Directory)

def CatalogStorage.empty : CatalogStorage where
  objects := ∅
  audit := ∅
  auditCheckpoints := ∅
  commits := ∅
  generations := ∅
  staging := ∅
  transactions := ∅

def artifactOverheadBytes : Nat := 315
def maxCommitFrameBytes : Nat := 262144
def maxAuditFrameBytes : Nat := maxAuditRecordBytes + artifactOverheadBytes
def maxAuditCheckpointFrameBytes : Nat := 512 + artifactOverheadBytes
def maxObjectFrameBytes : Nat := maxCatalogObjectBytes + artifactOverheadBytes
def maxGenerations : Nat := 65536
def maxGenerationDirectoryNameBytes : Nat := maxGenerations * 128

def objectName (formatEpoch : FormatEpoch) (identity : CatalogObjectId) : Bytes :=
  decimal 10 formatEpoch.1.1 ++ asciiBytes "-" ++ hex identity.1 ++ asciiBytes ".frame"

def auditName (position : U64) (hash : Digest) : Bytes :=
  decimal 20 position.1 ++ asciiBytes "-" ++ hex hash.1 ++ asciiBytes ".frame"

def auditCheckpointName (position : U64) (hash : Digest) : Bytes :=
  decimal 20 position.1 ++ asciiBytes "-" ++ hex hash.1 ++ asciiBytes ".checkpoint"

def commitName (identity : CatalogGenerationId) : Bytes := hex identity.1 ++ asciiBytes ".frame"

def markerName (number : U64) (identity : CatalogGenerationId) : Bytes :=
  decimal 20 number.1 ++ asciiBytes "-" ++ hex identity.1 ++ asciiBytes ".marker"

def entryExists (directory : Directory) (name : Bytes) : Bool := (directory.lookup name).isSome

def readExactFile (directory : Directory) (name : Bytes) (maximum : Nat) : Result Bytes :=
  match directory.lookup name with
  | some (.file contents) =>
    if contents.length = 0 ∨ maximum < contents.length then reject .integrityCorruption
    else .ok contents
  | _ => reject .integrityCorruption

/-- `PMARK01` and a zero. -/
def markerMagic : Bytes := [0x50, 0x4d, 0x41, 0x52, 0x4b, 0x30, 0x31, 0x00]

def markerVersion : Bytes := beBytes 2 1
def markerBytes : Nat := 82
def markerMacDomain : Bytes := asciiBytes "positron-catalog-marker-v1"

def markerPayload (number : U64) (generation : CatalogGenerationId) : Bytes :=
  [markerMagic, markerVersion, beBytes 8 number.1, generation.1].flatten

def markerMac (secret : CatalogSecret) (payload : Bytes) : Digest :=
  platform.authenticate secret.markerKey (markerMacDomain ++ payload)

def encodeMarker (secret : CatalogSecret) (number : U64) (generation : CatalogGenerationId) : Bytes :=
  markerPayload number generation ++ (markerMac platform secret (markerPayload number generation)).1

inductive MarkerDecode where
  | published (number : U64) (generation : CatalogGenerationId)
  | authenticationFailed
  | corrupt
  | unsupported
deriving DecidableEq

def decodeMarker (secret : CatalogSecret) (encoded : Bytes) : MarkerDecode :=
  match fixed? 8 encoded 0, fixed? 2 encoded 8, fixed? 8 encoded 10, fixed? 32 encoded 18,
      fixed? 32 encoded 50 with
  | some magic, some version, some numberBytes, some generation, some storedMac =>
    let number := toUnsigned 64 numberBytes.1
    if encoded.length ≠ markerBytes ∨ magic.1 ≠ markerMagic then .corrupt
    else if version.1 ≠ markerVersion then .unsupported
    else if markerMac platform secret (encoded.take 50) ≠ storedMac then .authenticationFailed
    else if number.1 = 0 ∨ generation = originGeneration then .corrupt
    else .published number generation
  | _, _, _, _, _ => .corrupt

def parseMarkerName (name : Bytes) : Option (U64 × CatalogGenerationId) := do
  let digits ← slice? name 0 20
  guard (slice? name 20 21 = some (asciiBytes "-") ∧ slice? name 85 92 = some (asciiBytes ".marker") ∧
    name.length = 92)
  let number ← parseDecimal digits
  let identity ← parseHex (← slice? name 21 85)
  let generation ← fixed? 32 identity 0
  guard (number.1 ≠ 0 ∧ generation ≠ originGeneration ∧ markerName number generation = name)
  return (number, generation)

/-- Whether a short file is the beginning of the marker that its name announces. -/
def canonicalMarkerPrefix (secret : CatalogSecret) (name encoded : Bytes) : Bool :=
  if encoded = [] ∨ markerBytes ≤ encoded.length then false
  else
    match parseMarkerName name with
    | some (number, generation) => encoded.isPrefixOf (encodeMarker platform secret number generation)
    | none => false

/-- The verified markers, the markers that are not authentic, and the entries and bytes of names read
so far. -/
structure MarkerScan where
  verified : Std.ExtTreeMap CatalogGenerationId U64 Digest.cmp
  authenticationFailures : Nat
  entryCount : Nat
  nameBytes : Nat

def MarkerScan.start : MarkerScan := ⟨∅, 0, 0, 0⟩

/-- The entries and the bytes of names in a directory are bounded. -/
def reserveDirectoryEntry (count totalNameBytes nameBytes : Nat) : Result (Nat × Nat) := do
  demand (count + 1 ≤ maxGenerations) (.new .limitExceeded)
  demand (totalNameBytes + nameBytes ≤ maxGenerationDirectoryNameBytes) (.new .limitExceeded)
  return (count + 1, totalNameBytes + nameBytes)

def scanMarker (directory : Directory) (secret : CatalogSecret) (scan : MarkerScan) (name : Bytes) :
    Result MarkerScan := do
  let (entryCount, nameBytes) ← reserveDirectoryEntry scan.entryCount scan.nameBytes name.length
  let scan := { scan with entryCount := entryCount, nameBytes := nameBytes }
  let encoded ← readExactFile directory name markerBytes
  if encoded.length < markerBytes then
    if canonicalMarkerPrefix platform secret name encoded then return scan
    else reject .integrityCorruption
  else
    match decodeMarker platform secret encoded with
    | .published number generation =>
      demand (name = markerName number generation) corruption
      demand (scan.verified[generation]? = none) corruption
      return { scan with verified := scan.verified.insert generation number }
    | .authenticationFailed =>
      return { scan with authenticationFailures := scan.authenticationFailures + 1 }
    | .corrupt => reject .integrityCorruption
    | .unsupported => reject .unsupportedFormat

def CatalogStorage.markers (storage : CatalogStorage) (secret : CatalogSecret) : Result MarkerScan :=
  storage.generations.keys.foldlM (scanMarker platform storage.generations secret) .start

namespace CatalogStorage

variable (storage : CatalogStorage) (secret : CatalogSecret) (instanceId : InstanceId)

def readObject (identity : CatalogObjectId) (formatEpoch : FormatEpoch) : Result Bytes := do
  let encoded ← readExactFile storage.objects (objectName formatEpoch identity) maxObjectFrameBytes
  let plaintext ← openArtifact platform secret instanceId .object identity formatEpoch encoded
  demand (platform.hash plaintext = identity) corruption
  return plaintext

def readAudit (position : U64) (hash : Digest) : Result Bytes := do
  let encoded ← readExactFile storage.audit (auditName position hash) maxAuditFrameBytes
  openArtifact platform secret instanceId .audit hash .catalogV1 encoded

def readCommit (generation : CatalogGenerationId) : Result Bytes := do
  let encoded ← readExactFile storage.commits (commitName generation) maxCommitFrameBytes
  openArtifact platform secret instanceId .commit generation .catalogV1 encoded

def auditExists (position : U64) (hash : Digest) : Bool := entryExists storage.audit (auditName position hash)

def parseAuditCheckpointName (name : Bytes) : Result (U64 × Digest) := do
  demand (name.length = 96 ∧ slice? name 20 21 = some (asciiBytes "-") ∧
    slice? name 85 96 = some (asciiBytes ".checkpoint")) corruption
  let digits ← orFail (slice? name 0 20) corruption
  let position ← orFail (parseDecimal digits) corruption
  demand (position.1 ≠ 0) corruption
  let hexadecimal ← orFail (slice? name 21 85) corruption
  let bytes ← orFail (parseHex hexadecimal) corruption
  let hash ← orFail (fixed? 32 bytes 0) corruption
  demand (isZero hash = false ∧ auditCheckpointName position hash = name) corruption
  return (position, hash)

def readAuditCheckpoint (position : U64) (recordHash : Digest) : Result GovernanceAuditCheckpoint := do
  let encoded ← readExactFile storage.auditCheckpoints (auditCheckpointName position recordHash)
    maxAuditCheckpointFrameBytes
  let plaintext ← openArtifact platform secret instanceId .auditCheckpoint recordHash .catalogV1 encoded
  let checkpoint ← GovernanceAuditCheckpoint.decode plaintext
  demand (checkpoint.instanceId = instanceId ∧ checkpoint.position = position ∧
    checkpoint.recordHash = recordHash) corruption
  return checkpoint

def laterCheckpoint (latest : Option GovernanceAuditCheckpoint) (checkpoint : GovernanceAuditCheckpoint) :
    GovernanceAuditCheckpoint :=
  match latest with
  | some current => if current.position.1 < checkpoint.position.1 then checkpoint else current
  | none => checkpoint

structure CheckpointScan where
  latest : Option GovernanceAuditCheckpoint
  entries : Nat
  nameBytes : Nat

def scanCheckpoint (audit : List GovernanceAuditRecord) (scan : CheckpointScan) (name : Bytes) :
    Result CheckpointScan := do
  let (entries, nameBytes) ← reserveDirectoryEntry scan.entries scan.nameBytes name.length
  let (position, recordHash) ← parseAuditCheckpointName name
  let checkpoint ← readAuditCheckpoint platform storage secret instanceId position recordHash
  demand ((audit[position.1 - 1]?).map GovernanceAuditRecord.hash = some recordHash) corruption
  return ⟨some (laterCheckpoint scan.latest checkpoint), entries, nameBytes⟩

/-- Every checkpoint is read and must lie on the audit chain. -/
def latestAuditCheckpoint (audit : List GovernanceAuditRecord) :
    Result (Option GovernanceAuditCheckpoint) := do
  let scan ← storage.auditCheckpoints.keys.foldlM
    (scanCheckpoint platform storage secret instanceId audit) ⟨none, 0, 0⟩
  return scan.latest

end CatalogStorage

def maxRecoveredAuditBytes : Nat := 16777216
def maxRetainedHistoryBytes : Nat := 16777216

def retainedArtifactBytes (plaintextBytes : Nat) : Nat := plaintextBytes + artifactOverheadBytes

/-- The bound on the retained history is far below the word size, so a sum that overflows is above it. -/
def reserveHistory (retained additional generationNumber : Nat) : Result Nat := do
  demand (generationNumber ≤ maxGenerations) (.new .limitExceeded)
  demand (retained + additional ≤ maxRetainedHistoryBytes) (.new .limitExceeded)
  return retained + additional

/-- The verified markers by number, and the highest of them. -/
structure MarkerIndex where
  byNumber : Std.ExtTreeMap Nat CatalogGenerationId compare
  highestNumber : U64
  highestGeneration : CatalogGenerationId

def MarkerIndex.start : MarkerIndex := ⟨∅, Unsigned.zero 64, originGeneration⟩

def MarkerIndex.add (index : MarkerIndex) (marker : CatalogGenerationId × U64) : Result MarkerIndex := do
  demand (index.byNumber[marker.2.1]? = none) corruption
  let byNumber := index.byNumber.insert marker.2.1 marker.1
  if index.highestNumber.1 < marker.2.1 then return ⟨byNumber, marker.2, marker.1⟩
  else return ⟨byNumber, index.highestNumber, index.highestGeneration⟩

def indexMarkers (verified : Std.ExtTreeMap CatalogGenerationId U64 Digest.cmp) : Result MarkerIndex :=
  verified.toList.foldlM MarkerIndex.add .start

inductive RetainedPrefixPresence where
  | complete
  | reclaimed
  | partly
deriving DecidableEq

structure PrefixCount where
  previous : AuditFrontier
  present : Nat
  absent : Nat

structure Replay where
  predecessorGeneration : CatalogGenerationId
  predecessorNumber : Nat
  predecessorAudit : AuditFrontier
  audit : List GovernanceAuditRecord
  auditBytes : Nat
  transactions : OutcomeMap
  retainedHistoryBytes : Nat

def Replay.start (retainedHistoryBytes : Nat) : Replay where
  predecessorGeneration := originGeneration
  predecessorNumber := 0
  predecessorAudit := .origin
  audit := []
  auditBytes := 0
  transactions := ∅
  retainedHistoryBytes := retainedHistoryBytes

section Recover

variable (platform : Platform) (storage : CatalogStorage) (secret : CatalogSecret)
  (instanceId : InstanceId)

/-- The commits from the first to the given one, which are put before the commits already read. Every
commit has the number that is expected, and its predecessor is the generation of the marker before. -/
def walkBack (byNumber : Std.ExtTreeMap Nat CatalogGenerationId compare) (highestNumber : Nat) :
    Nat → CatalogGenerationId → List CommitRecord → Nat → Result (List CommitRecord × Nat)
  | 0, _, _, _ => reject .integrityCorruption
  | expected + 1, generation, chain, retained => do
    let encoded ← storage.readCommit platform secret instanceId generation
    let retained ← reserveHistory retained (retainedArtifactBytes encoded.length) highestNumber
    let record ← decodeCommit platform generation encoded
    demand (record.formatEpoch.isCatalogReadable) (.new .unsupportedFormat)
    demand (record.instanceId = instanceId ∧ record.number.1 = expected + 1) corruption
    if expected = 0 then do
      demand (record.predecessor = originGeneration) corruption
      return (record :: chain, retained)
    else do
      demand (byNumber[expected]? = some record.predecessor) corruption
      walkBack byNumber highestNumber expected record.predecessor (record :: chain) retained

def loadSnapshot (record : CommitRecord) : Result CatalogSnapshot := do
  let objects ← record.objects.foldlM (fun (objects : ObjectMap) identity => do
    let object ← storage.readObject platform secret instanceId identity record.formatEpoch
    return objects.insert identity object) ∅
  return snapshotFromRecord record objects

/-- The anchor of the latest generation. It must be signed for the policy of that generation and stand
on the chain. -/
def auditRetentionAnchor (current : CatalogSnapshot) (chain : List CommitRecord) :
    Result (Option AuditRetentionAnchor) := do
  match ← retentionAnchor current with
  | none => return none
  | some anchor =>
    let trust ← retentionTrust platform current instanceId
    anchor.verify platform trust
    demand (anchor.instanceId = instanceId ∧ ∃ record ∈ chain,
      record.auditFrontier.position = anchor.position ∧
        record.auditFrontier.hash = anchor.recordHash) corruption
    return some anchor

def countFrame (anchor : AuditRetentionAnchor) (count : PrefixCount) (record : CommitRecord) :
    PrefixCount :=
  if record.auditFrontier ≠ count.previous ∧ record.auditFrontier.position.1 ≤ anchor.position.1 then
    if storage.auditExists record.auditFrontier.position record.auditFrontier.hash then
      ⟨record.auditFrontier, count.present + 1, count.absent⟩
    else ⟨record.auditFrontier, count.present, count.absent + 1⟩
  else ⟨record.auditFrontier, count.present, count.absent⟩

def retainedPrefixPresence (chain : List CommitRecord) (anchor : AuditRetentionAnchor) :
    RetainedPrefixPresence :=
  let count := chain.foldl (countFrame storage anchor) ⟨.origin, 0, 0⟩
  if count.absent = 0 then .complete
  else if count.present = 0 then .reclaimed
  else .partly

/-- Whether the audit frames up to the anchor need not be there. A prefix with some of its frames must
have a receipt of this anchor. -/
def missingRetainedPrefix (current : CatalogSnapshot) (chain : List CommitRecord) :
    Option AuditRetentionAnchor → Result Bool
  | none => return false
  | some anchor =>
    match retainedPrefixPresence storage chain anchor with
    | .complete => return false
    | .reclaimed => return true
    | .partly => do
      let receipt ← retentionReclamationReceipt current anchor
      demand (receipt.isSome) corruption
      return true

def readVisibleAudit (highestNumber : Nat) (replay : Replay) (record : CommitRecord) :
    Result (Replay × Option GovernanceAuditRecord) := do
  let encoded ← storage.readAudit platform secret instanceId record.auditFrontier.position
    record.auditFrontier.hash
  let retained ← reserveHistory replay.retainedHistoryBytes (retainedArtifactBytes encoded.length)
    highestNumber
  let decoded ← decodeAudit platform encoded
  demand (decoded.position = record.auditFrontier.position ∧ decoded.hash = record.auditFrontier.hash ∧
    decoded.predecessorHash = replay.predecessorAudit.hash ∧
    decoded.transaction = record.transaction) corruption
  let auditBytes := replay.auditBytes + decoded.intent.length
  demand (auditBytes ≤ maxRecoveredAuditBytes) (.new .limitExceeded)
  return ({ replay with
    audit := replay.audit ++ [decoded]
    auditBytes := auditBytes
    retainedHistoryBytes := retained }, some decoded)

def inReclaimedPart (missing : Bool) (anchor : Option AuditRetentionAnchor) (record : CommitRecord) :
    Bool :=
  missing && anchor.any fun anchor => record.auditFrontier.position.1 ≤ anchor.position.1

/-- The audit part of a commit: it leaves the frontier, or moves it by one. -/
def visibleAudit (missing : Bool) (anchor : Option AuditRetentionAnchor) (highestNumber : Nat)
    (replay : Replay) (record : CommitRecord) : Result (Replay × Option GovernanceAuditRecord) :=
  if record.auditFrontier = replay.predecessorAudit then return (replay, none)
  else do
    demand (record.auditFrontier.position.1 = replay.predecessorAudit.position.1 + 1) corruption
    -- The anchor commits to the end of the reclaimed part, and its frames are not read.
    if inReclaimedPart missing anchor record then return (replay, none)
    else readVisibleAudit platform storage secret instanceId highestNumber replay record

def replayRecord (missing : Bool) (anchor : Option AuditRetentionAnchor) (highestNumber : Nat)
    (replay : Replay) (record : CommitRecord) : Result Replay := do
  demand (record.predecessor = replay.predecessorGeneration ∧
    record.number.1 = replay.predecessorNumber + 1) corruption
  let (replay, visible) ←
    visibleAudit platform storage secret instanceId missing anchor highestNumber replay record
  demand (inReclaimedPart missing anchor record ∨ transactionDigest platform record.formatEpoch record.objects
      (visible.map GovernanceAuditRecord.intent) = record.transactionDigest) corruption
  demand (replay.transactions[record.transaction]? = none) corruption
  return { replay with
    predecessorGeneration := record.generation
    predecessorNumber := record.number.1
    predecessorAudit := record.auditFrontier
    transactions := replay.transactions.insert record.transaction
      ⟨record.transactionDigest, record, visible⟩ }

/-- Checkpoints address the complete chain, which a retained suffix is not. -/
def recoverCheckpoint (anchor : Option AuditRetentionAnchor) (audit : List GovernanceAuditRecord) :
    Result (Option GovernanceAuditCheckpoint) :=
  if anchor.isSome then return none
  else storage.latestAuditCheckpoint platform secret instanceId audit

def recover : Result CatalogState := do
  let scan ← storage.markers platform secret
  demand (scan.authenticationFailures = 0) (.new .authenticationFailed)
  if scan.verified.isEmpty then return .origin
  else
    let index ← indexMarkers scan.verified
    let (chain, retained) ← walkBack platform storage secret instanceId index.byNumber
      index.highestNumber.1 index.highestNumber.1 index.highestGeneration []
      (scan.verified.size * markerBytes)
    let latest ← orFail chain.getLast? corruption
    let current ← loadSnapshot platform storage secret instanceId latest
    let anchor ← auditRetentionAnchor platform instanceId current chain
    let missing ← missingRetainedPrefix storage current chain anchor
    let replay ← chain.foldlM (replayRecord platform storage secret instanceId missing anchor
      index.highestNumber.1) (.start retained)
    let checkpoint ← recoverCheckpoint platform storage secret instanceId anchor replay.audit
    return ⟨current, replay.audit, checkpoint, replay.transactions, replay.retainedHistoryBytes⟩

end Recover

variable {platform : Platform} {storage : CatalogStorage} {secret : CatalogSecret}
  {instanceId : InstanceId}
variable {highestNumber : Nat} {record : CommitRecord} {visible : Option GovernanceAuditRecord}
  {anchor : Option AuditRetentionAnchor}

section Steps

variable (platform storage secret instanceId)

/-- How a commit can change the audit records of a replay: it leaves the frontier, it moves the
frontier inside the reclaimed part, or its audit frame is read. -/
inductive AuditStep (missing : Bool) (anchor : Option AuditRetentionAnchor) (highestNumber : Nat)
    (replay : Replay) (record : CommitRecord) : Replay → Option GovernanceAuditRecord → Prop where
  | quiet (hsame : record.auditFrontier = replay.predecessorAudit) :
      AuditStep missing anchor highestNumber replay record replay none
  | reclaimed (hnext : record.auditFrontier.position.1 = replay.predecessorAudit.position.1 + 1)
      (hpart : inReclaimedPart missing anchor record) :
      AuditStep missing anchor highestNumber replay record replay none
  | visible (encoded : Bytes) (decoded : GovernanceAuditRecord)
      (hnext : record.auditFrontier.position.1 = replay.predecessorAudit.position.1 + 1)
      (hpart : inReclaimedPart missing anchor record = false)
      (hread : storage.readAudit platform secret instanceId record.auditFrontier.position
        record.auditFrontier.hash = .ok encoded)
      (hdecode : decodeAudit platform encoded = .ok decoded)
      (hfrontier : decoded.frontier = record.auditFrontier)
      (hpredecessor : decoded.predecessorHash = replay.predecessorAudit.hash)
      (htransaction : decoded.transaction = record.transaction)
      (hnumber : highestNumber ≤ maxGenerations)
      (hretained : replay.retainedHistoryBytes + retainedArtifactBytes encoded.length ≤
        maxRetainedHistoryBytes)
      (hbytes : replay.auditBytes + decoded.intent.length ≤ maxRecoveredAuditBytes) :
      AuditStep missing anchor highestNumber replay record
        { replay with
          audit := replay.audit ++ [decoded]
          auditBytes := replay.auditBytes + decoded.intent.length
          retainedHistoryBytes := replay.retainedHistoryBytes + retainedArtifactBytes encoded.length }
        (some decoded)

/-- One commit replayed: it extends the chain, its transaction is new, and its digest is that of its
objects and its audit record. -/
structure Replayed (missing : Bool) (anchor : Option AuditRetentionAnchor) (highestNumber : Nat)
    (replay : Replay) (record : CommitRecord) (middle : Replay)
    (visible : Option GovernanceAuditRecord) : Prop where
  predecessor : record.predecessor = replay.predecessorGeneration
  number : record.number.1 = replay.predecessorNumber + 1
  audit : AuditStep platform storage secret instanceId missing anchor highestNumber replay record middle
    visible
  digest : inReclaimedPart missing anchor record ∨
    transactionDigest platform record.formatEpoch record.objects
      (visible.map GovernanceAuditRecord.intent) = record.transactionDigest
  fresh : replay.transactions[record.transaction]? = none

end Steps

def Replay.advance (replay : Replay) (record : CommitRecord) (visible : Option GovernanceAuditRecord) :
    Replay :=
  { replay with
    predecessorGeneration := record.generation
    predecessorNumber := record.number.1
    predecessorAudit := record.auditFrontier
    transactions := replay.transactions.insert record.transaction
      ⟨record.transactionDigest, record, visible⟩ }

theorem reserveHistory_eq_ok_iff {retained additional number total : Nat} :
    reserveHistory retained additional number = .ok total ↔
      number ≤ maxGenerations ∧ retained + additional ≤ maxRetainedHistoryBytes ∧ total = retained + additional := by
  unfold reserveHistory
  constructor
  · intro h
    obtain ⟨_, hnumber, h⟩ := bind_ok h
    obtain ⟨_, hbound, h⟩ := bind_ok h
    cases h
    exact ⟨demand_eq_ok_iff.mp hnumber, demand_eq_ok_iff.mp hbound, rfl⟩
  · rintro ⟨hnumber, hbound, rfl⟩
    rw [demand_bind hnumber, demand_bind hbound]
    rfl

variable {replay replay' : Replay} {missing : Bool}

theorem readVisibleAudit_ok_iff :
    readVisibleAudit platform storage secret instanceId highestNumber replay record = .ok (replay', visible) ↔
      ∃ encoded decoded, storage.readAudit platform secret instanceId record.auditFrontier.position
          record.auditFrontier.hash = .ok encoded ∧
        decodeAudit platform encoded = .ok decoded ∧ decoded.frontier = record.auditFrontier ∧
        decoded.predecessorHash = replay.predecessorAudit.hash ∧
        decoded.transaction = record.transaction ∧ highestNumber ≤ maxGenerations ∧
        replay.retainedHistoryBytes + retainedArtifactBytes encoded.length ≤ maxRetainedHistoryBytes ∧
        replay.auditBytes + decoded.intent.length ≤ maxRecoveredAuditBytes ∧
        replay' = { replay with
          audit := replay.audit ++ [decoded]
          auditBytes := replay.auditBytes + decoded.intent.length
          retainedHistoryBytes :=
            replay.retainedHistoryBytes + retainedArtifactBytes encoded.length } ∧
        visible = some decoded := by
  unfold readVisibleAudit
  constructor
  · intro h
    obtain ⟨encoded, hread, h⟩ := bind_ok h
    obtain ⟨total, hreserve, h⟩ := bind_ok h
    obtain ⟨decoded, hdecode, h⟩ := bind_ok h
    obtain ⟨_, hfields, h⟩ := bind_ok h
    obtain ⟨_, hbytes, h⟩ := bind_ok h
    obtain ⟨hnumber, hretained, rfl⟩ := reserveHistory_eq_ok_iff.mp hreserve
    obtain ⟨hpos, hhash, hpredecessor, htransaction⟩ := demand_eq_ok_iff.mp hfields
    cases h
    refine ⟨encoded, decoded, hread, hdecode, ?_, hpredecessor, htransaction, hnumber, hretained,
      demand_eq_ok_iff.mp hbytes, rfl, rfl⟩
    rw [GovernanceAuditRecord.frontier, hpos, hhash]
  · rintro ⟨encoded, decoded, hread, hdecode, hfrontier, hpredecessor, htransaction, hnumber, hretained,
      hbytes, rfl, rfl⟩
    have hfields : decoded.position = record.auditFrontier.position ∧
        decoded.hash = record.auditFrontier.hash ∧
        decoded.predecessorHash = replay.predecessorAudit.hash ∧
        decoded.transaction = record.transaction := by
      rw [← hfrontier]
      exact ⟨rfl, rfl, hpredecessor, htransaction⟩
    rw [bind_eq_of_ok hread, bind_eq_of_ok (reserveHistory_eq_ok_iff.mpr ⟨hnumber, hretained, rfl⟩),
      bind_eq_of_ok hdecode, demand_bind hfields, demand_bind hbytes]
    rfl

theorem visibleAudit_ok_iff {replay middle : Replay} :
    visibleAudit platform storage secret instanceId missing anchor highestNumber replay record =
        .ok (middle, visible) ↔
      AuditStep platform storage secret instanceId missing anchor highestNumber replay record middle visible := by
  unfold visibleAudit
  by_cases hsame : record.auditFrontier = replay.predecessorAudit
  · rw [if_pos hsame]
    constructor
    · intro h
      cases h
      exact .quiet hsame
    · intro h
      cases h with
      | quiet _ => rfl
      | reclaimed hnext _ => rw [hsame] at hnext; omega
      | visible _ _ hnext => rw [hsame] at hnext; omega
  · rw [if_neg hsame]
    constructor
    · intro h
      obtain ⟨_, hnext, h⟩ := bind_ok h
      by_cases hpart : inReclaimedPart missing anchor record
      · rw [if_pos hpart] at h
        cases h
        exact .reclaimed (demand_eq_ok_iff.mp hnext) hpart
      · rw [if_neg hpart] at h
        obtain ⟨encoded, decoded, hread, hdecode, hfrontier, hpredecessor, htransaction, hnumber,
          hretained, hbytes, rfl, rfl⟩ := readVisibleAudit_ok_iff.mp h
        exact .visible encoded decoded (demand_eq_ok_iff.mp hnext) (Bool.not_eq_true _ ▸ hpart) hread hdecode hfrontier
          hpredecessor htransaction hnumber hretained hbytes
    · intro h
      cases h with
      | quiet h => exact absurd h hsame
      | reclaimed hnext hpart =>
        rw [demand_bind hnext, if_pos hpart]
        rfl
      | visible encoded decoded hnext hpart hread hdecode hfrontier hpredecessor htransaction hnumber hretained
          hbytes =>
        rw [demand_bind hnext, if_neg (by rw [hpart]; exact Bool.false_ne_true)]
        exact readVisibleAudit_ok_iff.mpr ⟨_, _, hread, hdecode, hfrontier, hpredecessor, htransaction,
          hnumber, hretained, hbytes, rfl, rfl⟩

theorem AuditStep.transactions_eq {replay middle : Replay}
    (h : AuditStep platform storage secret instanceId missing anchor highestNumber replay record middle visible) :
    middle.transactions = replay.transactions := by
  cases h <;> rfl

/-- What one commit can do to a replay. -/
theorem replayRecord_ok_iff :
    replayRecord platform storage secret instanceId missing anchor highestNumber replay record = .ok replay' ↔
      ∃ middle visible, Replayed platform storage secret instanceId missing anchor highestNumber replay
        record middle visible ∧ replay' = middle.advance record visible := by
  constructor
  · intro h
    obtain ⟨_, hlink, h⟩ := bind_ok h
    obtain ⟨⟨middle, visible⟩, haudit, h⟩ := bind_ok h
    obtain ⟨_, hdigest, h⟩ := bind_ok h
    obtain ⟨_, hfresh, h⟩ := bind_ok h
    have hstep := visibleAudit_ok_iff.mp haudit
    cases h
    refine ⟨middle, visible, ⟨(demand_eq_ok_iff.mp hlink).1, (demand_eq_ok_iff.mp hlink).2, hstep,
      demand_eq_ok_iff.mp hdigest, ?_⟩, rfl⟩
    rw [← hstep.transactions_eq]
    exact demand_eq_ok_iff.mp hfresh
  · rintro ⟨middle, visible, hreplayed, rfl⟩
    unfold replayRecord
    rw [demand_bind ⟨hreplayed.predecessor, hreplayed.number⟩]
    rw [bind_eq_of_ok (visibleAudit_ok_iff.mpr hreplayed.audit)]
    have hfresh : middle.transactions[record.transaction]? = none := by
      rw [hreplayed.audit.transactions_eq]
      exact hreplayed.fresh
    change (demand _ _ >>= fun _ => demand _ _ >>= fun _ => _) = _
    rw [demand_bind hreplayed.digest, demand_bind hfresh]
    rfl

variable {chain : List CommitRecord} {record : CommitRecord}

/-- The commits number the generations one after the other, and each names the one before. -/
def Linked : CatalogGenerationId → Nat → List CommitRecord → Prop
  | _, _, [] => True
  | predecessor, number, record :: chain =>
    record.predecessor = predecessor ∧ record.number.1 = number + 1 ∧
      Linked record.generation (number + 1) chain

/-- Every audit record follows the frontier that the one before has left. -/
def Follows : AuditFrontier → List GovernanceAuditRecord → Prop
  | _, [] => True
  | frontier, record :: audit =>
    record.position.1 = frontier.position.1 + 1 ∧ record.predecessorHash = frontier.hash ∧
      Follows record.frontier audit

def frontierAfter (start : AuditFrontier) (audit : List GovernanceAuditRecord) : AuditFrontier :=
  (audit.getLast?.map GovernanceAuditRecord.frontier).getD start

/-- The frontier of the last commit that meets a condition, or the origin. -/
def lastFrontier (condition : CommitRecord → Bool) (chain : List CommitRecord) : AuditFrontier :=
  ((chain.filter condition).getLast?.map CommitRecord.auditFrontier).getD .origin

def lastGeneration (start : CatalogGenerationId) (chain : List CommitRecord) : CatalogGenerationId :=
  (chain.getLast?.map CommitRecord.generation).getD start

variable {predecessor : CatalogGenerationId} {audit : List GovernanceAuditRecord}
  {condition : CommitRecord → Bool} {anchor : Option AuditRetentionAnchor} {missing : Bool}
  {transactions : OutcomeMap}

theorem linked_append {number : Nat} : Linked predecessor number (chain ++ [record]) ↔
      Linked predecessor number chain ∧ record.predecessor = lastGeneration predecessor chain ∧
        record.number.1 = number + chain.length + 1 := by
  induction chain generalizing predecessor number with
  | nil => simp [Linked, lastGeneration]
  | cons first chain ih =>
    have hlast : lastGeneration predecessor (first :: chain) = lastGeneration first.generation chain := by
      cases chain with
      | nil => rfl
      | cons second rest => simp [lastGeneration, getLast?_cons]
    rw [cons_append, Linked, ih, hlast, length_cons]
    constructor
    · rintro ⟨hp, hn, hl, hpr, hnr⟩
      exact ⟨⟨hp, hn, hl⟩, hpr, by omega⟩
    · rintro ⟨⟨hp, hn, hl⟩, hpr, hnr⟩
      exact ⟨hp, hn, hl, hpr, by omega⟩

theorem follows_append {start : AuditFrontier} {record : GovernanceAuditRecord} :
    Follows start (audit ++ [record]) ↔
      Follows start audit ∧ record.position.1 = (frontierAfter start audit).position.1 + 1 ∧
        record.predecessorHash = (frontierAfter start audit).hash := by
  induction audit generalizing start with
  | nil => simp [Follows, frontierAfter]
  | cons first audit ih =>
    have hlast : frontierAfter start (first :: audit) = frontierAfter first.frontier audit := by
      cases audit with
      | nil => rfl
      | cons second rest => simp [frontierAfter, getLast?_cons]
    rw [cons_append, Follows, Follows, ih, hlast]
    tauto

theorem frontierAfter_append (start : AuditFrontier) (audit : List GovernanceAuditRecord)
    (record : GovernanceAuditRecord) : frontierAfter start (audit ++ [record]) = record.frontier := by
  simp [frontierAfter]

theorem lastFrontier_append_of_pos (h : condition record)
    (chain : List CommitRecord) : lastFrontier condition (chain ++ [record]) = record.auditFrontier := by
  simp [lastFrontier, h]

theorem lastFrontier_append_of_neg (h : condition record = false)
    (chain : List CommitRecord) : lastFrontier condition (chain ++ [record]) = lastFrontier condition chain := by
  simp [lastFrontier, h]

theorem lastGeneration_append (start : CatalogGenerationId) (chain : List CommitRecord)
    (record : CommitRecord) : lastGeneration start (chain ++ [record]) = record.generation := by
  simp [lastGeneration]

theorem Linked.number_eq {number : Nat} (h : Linked predecessor number chain)
    {i : Nat} (hget : chain[i]? = some record) : record.number.1 = number + i + 1 := by
  induction chain generalizing predecessor number i with
  | nil => simp at hget
  | cons first chain ih =>
    cases i with
    | zero =>
      cases hget
      exact h.2.1
    | succ i =>
      have := ih h.2.2 hget
      omega

theorem inReclaimedPart_mono
    {record other : CommitRecord} (hle : record.auditFrontier.position.1 ≤ other.auditFrontier.position.1)
    (h : inReclaimedPart missing anchor record = false) : inReclaimedPart missing anchor other = false := by
  unfold inReclaimedPart at h ⊢
  cases missing with
  | false => rfl
  | true =>
    cases anchor with
    | none => rfl
    | some anchor =>
      simp only [Bool.true_and, Option.any_some, decide_eq_false_iff_not] at h ⊢
      omega

/-- The outcomes of the transactions are those of the commits, and name the audit records. -/
structure OutcomesOf (transactions : OutcomeMap) (chain : List CommitRecord)
    (audit : List GovernanceAuditRecord) : Prop where
  once : (chain.map CommitRecord.transaction).Nodup
  recorded : ∀ record ∈ chain, ∃ outcome, transactions[record.transaction]? = some outcome ∧
    outcome.record = record
  committed : ∀ transaction outcome, transactions[transaction]? = some outcome →
    outcome.record ∈ chain ∧ outcome.record.transaction = transaction ∧
      outcome.digest = outcome.record.transactionDigest ∧
      ∀ entry, outcome.audit = some entry → entry ∈ audit ∧ entry.transaction = transaction ∧
        entry.frontier = outcome.record.auditFrontier
  owned : ∀ entry ∈ audit, ∃ outcome, transactions[entry.transaction]? = some outcome ∧
    outcome.audit = some entry

/-- What a replay has established about the commits it has taken. -/
structure Replay.Inv (missing : Bool) (anchor : Option AuditRetentionAnchor) (chain : List CommitRecord)
    (replay : Replay) : Prop where
  linked : Linked originGeneration 0 chain
  generation : replay.predecessorGeneration = lastGeneration originGeneration chain
  number : replay.predecessorNumber = chain.length
  follows : Follows (lastFrontier (inReclaimedPart missing anchor) chain) replay.audit
  frontier : replay.predecessorAudit =
    frontierAfter (lastFrontier (inReclaimedPart missing anchor) chain) replay.audit
  -- Past the first record that is read, no commit belongs to the reclaimed part.
  past : replay.audit ≠ [] → ∀ record : CommitRecord,
    replay.predecessorAudit.position.1 ≤ record.auditFrontier.position.1 →
      inReclaimedPart missing anchor record = false
  outcomes : OutcomesOf replay.transactions chain replay.audit

theorem outcome_insert_ne {transaction other : TransactionId} {outcome : TransactionOutcome}
    (h : other ≠ transaction) : (transactions.insert transaction outcome)[other]? = transactions[other]? := by
  rw [Std.ExtTreeMap.getElem?_insert, if_neg]
  intro hcmp
  exact h (Std.LawfulEqCmp.eq_of_compare hcmp).symm

theorem OutcomesOf.empty : OutcomesOf ∅ [] [] where
  once := nodup_nil
  recorded := fun _ h => absurd h not_mem_nil
  committed := fun transaction outcome h => by
    cases h
  owned := fun _ h => absurd h not_mem_nil

theorem OutcomesOf.insert {visible : Option GovernanceAuditRecord} (h : OutcomesOf transactions chain audit)
    (hfresh : transactions[record.transaction]? = none) (hvisible : ∀ entry, visible = some entry →
      entry.transaction = record.transaction ∧ entry.frontier = record.auditFrontier) :
    OutcomesOf (transactions.insert record.transaction ⟨record.transactionDigest, record, visible⟩)
      (chain ++ [record]) (audit ++ visible.toList) := by
  have hother : ∀ {transaction outcome}, transactions[transaction]? = some outcome →
      transaction ≠ record.transaction := by
    intro transaction outcome hget heq
    rw [heq, hfresh] at hget
    cases hget
  refine ⟨?_, ?_, ?_, ?_⟩
  · rw [map_append, nodup_append]
    refine ⟨h.once, nodup_singleton _, ?_⟩
    intro transaction hmem other hother'
    obtain ⟨earlier, hearlier, rfl⟩ := mem_map.mp hmem
    obtain ⟨outcome, hget, _⟩ := h.recorded earlier hearlier
    rw [mem_singleton.mp hother']
    exact hother hget
  · intro candidate hcand
    rcases mem_append.mp hcand with hearlier | hlast
    · obtain ⟨outcome, hget, hrec⟩ := h.recorded candidate hearlier
      exact ⟨outcome, by rw [outcome_insert_ne (hother hget), hget], hrec⟩
    · rw [mem_singleton.mp hlast]
      exact ⟨_, Std.ExtTreeMap.getElem?_insert_self, rfl⟩
  · intro transaction outcome hget
    by_cases heq : transaction = record.transaction
    · subst heq
      rw [Std.ExtTreeMap.getElem?_insert_self] at hget
      cases hget
      refine ⟨mem_append_right _ mem_cons_self, rfl, rfl, ?_⟩
      intro entry hentry
      refine ⟨mem_append_right _ ?_, hvisible entry hentry⟩
      exact Option.mem_toList.mpr hentry
    · rw [outcome_insert_ne heq] at hget
      obtain ⟨hmem, htx, hdigest, haudit⟩ := h.committed transaction outcome hget
      refine ⟨mem_append_left _ hmem, htx, hdigest, ?_⟩
      intro entry hentry
      obtain ⟨hlisted, hrest⟩ := haudit entry hentry
      exact ⟨mem_append_left _ hlisted, hrest⟩
  · intro entry hentry
    rcases mem_append.mp hentry with hearlier | hlast
    · obtain ⟨outcome, hget, haudit⟩ := h.owned entry hearlier
      exact ⟨outcome, by rw [outcome_insert_ne (hother hget), hget], haudit⟩
    · have hsome := Option.mem_toList.mp hlast
      rw [(hvisible entry hsome).1]
      exact ⟨_, Std.ExtTreeMap.getElem?_insert_self, hsome⟩

theorem Replay.Inv.start (missing : Bool) (anchor : Option AuditRetentionAnchor) (retained : Nat) :
    Replay.Inv missing anchor [] (.start retained) where
  linked := trivial
  generation := rfl
  number := rfl
  follows := trivial
  frontier := rfl
  past := fun h => absurd rfl h
  outcomes := .empty

theorem Replay.Inv.audit_nil {replay : Replay} (h : Replay.Inv missing anchor chain replay)
    (hle : replay.predecessorAudit.position.1 ≤ record.auditFrontier.position.1)
    (hpart : inReclaimedPart missing anchor record) : replay.audit = [] := by
  by_contra hne
  rw [h.past hne record hle] at hpart
  cases hpart

section Steps

variable {platform : Platform} {storage : CatalogStorage} {secret : CatalogSecret}
  {instanceId : InstanceId}

theorem Replay.Inv.step {missing : Bool} {anchor : Option AuditRetentionAnchor} {highestNum : Nat}
    {chain : List CommitRecord} {replay middle : Replay} {record : CommitRecord}
    {visible : Option GovernanceAuditRecord} (h : Replay.Inv missing anchor chain replay)
    (hstep : Replayed platform storage secret instanceId missing anchor highestNum replay record
      middle visible) : Replay.Inv missing anchor (chain ++ [record]) (middle.advance record visible) := by
  have hlinked : Linked originGeneration 0 (chain ++ [record]) := by
    refine linked_append.mpr ⟨h.linked, ?_, ?_⟩
    · rw [hstep.predecessor, h.generation]
    · rw [hstep.number, h.number]
      omega
  have hnum : record.number.1 = (chain ++ [record]).length := by
    rw [hstep.number, h.number, length_append, length_singleton]
  have hgen : record.generation = lastGeneration originGeneration (chain ++ [record]) :=
    (lastGeneration_append _ chain record).symm
  have houtcomes : ∀ audit', audit' = replay.audit ++ visible.toList → (∀ entry, visible = some entry →
        entry.transaction = record.transaction ∧ entry.frontier = record.auditFrontier) →
      OutcomesOf (middle.advance record visible).transactions (chain ++ [record]) audit' := by
    intro audit' haudit hvisible
    rw [haudit, Replay.advance, hstep.audit.transactions_eq]
    exact h.outcomes.insert hstep.fresh hvisible
  -- A commit of the reclaimed part has no audit record before it that is still there.
  have hreclaimed : replay.predecessorAudit.position.1 ≤ record.auditFrontier.position.1 →
      inReclaimedPart missing anchor record →
      OutcomesOf (replay.advance record none).transactions (chain ++ [record]) replay.audit →
      Replay.Inv missing anchor (chain ++ [record]) (replay.advance record none) := by
    intro hle hpart haudit
    have hnil := h.audit_nil hle hpart
    refine ⟨hlinked, hgen, hnum, ?_, ?_, fun hne => absurd hnil hne, haudit⟩
    · change Follows _ replay.audit
      rw [hnil]
      exact trivial
    · change record.auditFrontier = frontierAfter _ replay.audit
      rw [hnil, lastFrontier_append_of_pos hpart]
      rfl
  cases hstep.audit with
  | quiet hsame =>
    have haudit : OutcomesOf _ (chain ++ [record]) replay.audit :=
      houtcomes _ (append_nil _).symm fun entry hentry => by cases hentry
    by_cases hpart : inReclaimedPart missing anchor record
    · exact hreclaimed (le_of_eq (by rw [hsame])) hpart haudit
    · have hneg := Bool.eq_false_iff.mpr hpart
      refine ⟨hlinked, hgen, hnum, ?_, ?_, ?_, haudit⟩
      · rw [lastFrontier_append_of_neg hneg]
        exact h.follows
      · rw [lastFrontier_append_of_neg hneg]
        exact hsame.trans h.frontier
      · intro hne other hle
        refine h.past hne other ?_
        rwa [← hsame]
  | reclaimed hnext hpart =>
    exact hreclaimed (by omega) hpart (houtcomes _ (append_nil _).symm fun entry hentry => by cases hentry)
  | visible encoded decoded hnext hpart hread hdecode hfront hpred htx =>
    have hpos : decoded.position = record.auditFrontier.position := by rw [← hfront]; rfl
    refine ⟨hlinked, hgen, hnum, ?_, ?_, ?_, ?_⟩
    · rw [lastFrontier_append_of_neg hpart]
      refine follows_append.mpr ⟨h.follows, ?_, ?_⟩
      · rw [← h.frontier, hpos, hnext]
      · rw [← h.frontier, hpred]
    · change record.auditFrontier = frontierAfter _ (replay.audit ++ [decoded])
      rw [frontierAfter_append, hfront]
    · intro _ other hle
      exact inReclaimedPart_mono hle hpart
    · refine houtcomes _ rfl ?_
      intro entry hentry
      cases hentry
      exact ⟨htx, hfront⟩

end Steps

end Positron.Catalog
