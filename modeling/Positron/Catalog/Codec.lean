import Positron.Domain
import Positron.Lib.ByteNames
import Positron.Lib.Wire

/-! The values of the catalog, the encodings of commit records and audit records, the signed anchors of the audit
chain, and encrypted artifacts. The header of an artifact names the root key that wraps its object key, so that a
rotation leaves the encrypted frame as it is. -/

namespace Positron.Catalog
open MachineInt ByteCodec ByteNames Checks Decoding

inductive CatalogFailureCode where
  | invalidInput
  | limitExceeded
  | staleGeneration
  | idempotencyConflict
  | storageUnavailable
  | integrityCorruption
  | authenticationFailed
  | concurrentWriter
  | resourceAdmissionRefused
  | unsupportedFormat
deriving DecidableEq

/-- A stale expectation is answered with the current generation. -/
structure CatalogFailure where
  code : CatalogFailureCode
  current : Option CatalogGenerationId
deriving DecidableEq

def CatalogFailure.new (code : CatalogFailureCode) : CatalogFailure := ⟨code, none⟩

abbrev Result (α : Type) := Except CatalogFailure α

def reject {α : Type} (code : CatalogFailureCode) : Result α := .error (.new code)

structure InstanceId where
  id : Identifier
deriving DecidableEq

structure TransactionId where
  id : Identifier
deriving DecidableEq

def TransactionId.cmp (a b : TransactionId) : Ordering := cmpBytes a.id.1 b.id.1

instance : Std.TransCmp TransactionId.cmp where
  eq_swap {a b} := Std.OrientedCmp.eq_swap (a := a.id.1) (b := b.id.1)
  isLE_trans {a b c} := Std.TransCmp.isLE_trans (a := a.id.1) (b := b.id.1) (c := c.id.1)

instance : Std.LawfulEqCmp TransactionId.cmp where
  compare_self {a} := Std.ReflCmp.compare_self (a := a.id.1)
  eq_of_compare {a b} h := by
    have hid : a.id = b.id := Subtype.ext (Std.LawfulEqCmp.eq_of_compare h)
    cases a
    cases b
    exact congrArg TransactionId.mk hid

abbrev Digest := FixedBytes 32

def Digest.cmp (a b : Digest) : Ordering := cmpBytes a b

instance : Std.TransCmp Digest.cmp := inferInstanceAs (Std.TransCmp (cmpBytes (n := 32)))

instance : Std.LawfulEqCmp Digest.cmp := inferInstanceAs (Std.LawfulEqCmp (cmpBytes (n := 32)))

abbrev CatalogObjectId := Digest

def originGeneration : CatalogGenerationId := zeroBytes 32

/-- Zero is no format. -/
abbrev FormatEpoch := {n : U32 // n.1 ≠ 0}

namespace FormatEpoch

def new (value : U32) : Option FormatEpoch := if h : value.1 ≠ 0 then some ⟨value, h⟩ else none

theorem wrap_one_ne_zero : (Unsigned.wrap 32 1).1 ≠ 0 := by decide

theorem wrap_two_ne_zero : (Unsigned.wrap 32 2).1 ≠ 0 := by decide

def catalogV1 : FormatEpoch := ⟨Unsigned.wrap 32 1, wrap_one_ne_zero⟩

def catalogV2 : FormatEpoch := ⟨Unsigned.wrap 32 2, wrap_two_ne_zero⟩

def isCatalogReadable (epoch : FormatEpoch) : Bool := decide (epoch = catalogV1 ∨ epoch = catalogV2)

end FormatEpoch

/-- A root key. The provider's reference and the epoch are its route: an artifact names the route of
the key that wraps it. -/
structure CatalogWrappingKey where
  key : FixedBytes 32
  providerKeyReference : Identifier
  keyEpoch : {n : U64 // n.1 ≠ 0}
deriving DecidableEq

structure CatalogSecret where
  markerKey : FixedBytes 32
  wrapping : CatalogWrappingKey
  predecessor : Option CatalogWrappingKey
deriving DecidableEq

structure AuditFrontier where
  position : U64
  hash : Digest
deriving DecidableEq

def AuditFrontier.origin : AuditFrontier := ⟨Unsigned.zero 64, zeroBytes 32⟩

structure GovernanceAuditRecord where
  position : U64
  predecessorHash : Digest
  hash : Digest
  transaction : TransactionId
  intent : Bytes
deriving DecidableEq

def GovernanceAuditRecord.frontier (record : GovernanceAuditRecord) : AuditFrontier :=
  ⟨record.position, record.hash⟩

structure CommitRecord where
  generation : CatalogGenerationId
  number : U64
  predecessor : CatalogGenerationId
  instanceId : InstanceId
  formatEpoch : FormatEpoch
  transaction : TransactionId
  transactionDigest : Digest
  objectSetDigest : Digest
  auditFrontier : AuditFrontier
  objects : List CatalogObjectId
deriving DecidableEq

/-- The objects of a generation by their identities. -/
abbrev ObjectMap := Std.ExtTreeMap CatalogObjectId Bytes Digest.cmp

structure CatalogSnapshot where
  identity : CatalogGenerationId
  number : U64
  formatEpoch : Option FormatEpoch
  objects : ObjectMap
  auditFrontier : AuditFrontier

def CatalogSnapshot.origin : CatalogSnapshot where
  identity := originGeneration
  number := Unsigned.zero 64
  formatEpoch := none
  objects := ∅
  auditFrontier := .origin

variable (snapshot : CatalogSnapshot)

def CatalogSnapshot.plaintextObjects : List Bytes := snapshot.objects.values

def snapshotFromRecord (record : CommitRecord) (objects : ObjectMap) : CatalogSnapshot where
  identity := record.generation
  number := record.number
  formatEpoch := some record.formatEpoch
  objects := objects
  auditFrontier := record.auditFrontier

/-- A signed anchor for the visible audit chain. -/
structure GovernanceAuditCheckpoint where
  instanceId : InstanceId
  position : U64
  recordHash : Digest
  publicKey : FixedBytes 32
  signature : FixedBytes 64
deriving DecidableEq

structure TransactionOutcome where
  digest : Digest
  record : CommitRecord
  audit : Option GovernanceAuditRecord
deriving DecidableEq

abbrev OutcomeMap := Std.ExtTreeMap TransactionId TransactionOutcome TransactionId.cmp

structure CatalogState where
  current : CatalogSnapshot
  audit : List GovernanceAuditRecord
  auditCheckpoint : Option GovernanceAuditCheckpoint
  transactions : OutcomeMap
  retainedHistoryBytes : Nat

def CatalogState.origin : CatalogState where
  current := .origin
  audit := []
  auditCheckpoint := none
  transactions := ∅
  retainedHistoryBytes := 0

def maxCatalogObjects : Nat := 1024
def maxCatalogObjectBytes : Nat := 1048576
def maxAuditIntentBytes : Nat := 65536

inductive SystemObjectKind where
  | catalog
  | governanceAudit
  | exportOutput
deriving DecidableEq

inductive FrameFailureCode where
  | invalidContext
  | invalidLimit
  | limitExceeded
  | authenticationFailed
  | openFailed
  | entropyUnavailable
  | hashFailed
  | sealFailed
  | malformedFrame
  | unsupportedVersion
  | unsupportedAlgorithm
  | checksumMismatch
deriving DecidableEq

structure FrameObjectContext where
  kind : SystemObjectKind
  objectId : Identifier
  formatEpoch : FormatEpoch
deriving DecidableEq

structure WrappedKeyContext where
  instanceId : InstanceId
  kind : SystemObjectKind
  keyId : FixedBytes 32
  keyEpoch : U64
  contextDigest : Digest
deriving DecidableEq

/-- The part of a governance object that audit retention reads. -/
structure CatalogGovernanceObject where
  instanceId : FixedBytes 16
  integrityPublicKey : FixedBytes 32
  integrityKeyFingerprint : FixedBytes 32
deriving DecidableEq

def frameOverheadBytes : Nat := 68

/-- What the catalog takes from the rest of the kernel: the cryptographic operations, which undo one
another, and the decoder of governance objects, which fails on corrupt bytes only. -/
structure Platform where
  hash : Bytes → Digest
  authenticate : FixedBytes 32 → Bytes → Digest
  wrapKeyPayload : FixedBytes 32 → FixedBytes 32 → WrappedKeyContext → FixedBytes 136
  unwrapKeyPayload : FixedBytes 32 → FixedBytes 136 → WrappedKeyContext →
    Except FrameFailureCode (FixedBytes 32)
  protectFrame : FixedBytes 32 → FrameObjectContext → Bytes → Bytes
  openFrame : FixedBytes 32 → FrameObjectContext → Bytes → Except FrameFailureCode Bytes
  publicKey : FixedBytes 32 → FixedBytes 32
  sign : FixedBytes 32 → Bytes → FixedBytes 64
  verify : FixedBytes 32 → Bytes → FixedBytes 64 → Bool
  decodeGovernance : Bytes → Option CatalogGovernanceObject
  unwrap_wrap : ∀ wrapping key context,
    unwrapKeyPayload wrapping (wrapKeyPayload wrapping key context) context = .ok key
  open_protect : ∀ key context plaintext,
    openFrame key context (protectFrame key context plaintext) = .ok plaintext
  protectFrame_length : ∀ key context plaintext,
    (protectFrame key context plaintext).length = plaintext.length + frameOverheadBytes
  verify_sign : ∀ seed message, verify (publicKey seed) message (sign seed message)

variable (platform : Platform)

/-- `PCOMV001`. -/
def commitMagic : FixedBytes 8 := ⟨[0x50, 0x43, 0x4f, 0x4d, 0x56, 0x30, 0x30, 0x31], rfl⟩

/-- `PAUDV001`. -/
def auditMagic : FixedBytes 8 := ⟨[0x50, 0x41, 0x55, 0x44, 0x56, 0x30, 0x30, 0x31], rfl⟩

def codecVersion : U16 := Unsigned.wrap 16 1

def commitFixedBytes : Nat := 194
def auditFixedBytes : Nat := 102
def maxAuditRecordBytes : Nat := auditFixedBytes + maxAuditIntentBytes

def auditHashDomain : Bytes := asciiBytes "positron-governance-audit-record-v1"
def transactionDigestDomain : Bytes := asciiBytes "positron-catalog-transaction-v1"
def objectSetDigestDomain : Bytes := asciiBytes "positron-catalog-object-set-v1"

def corruption : CatalogFailure := .new .integrityCorruption

def encodedIdentities (objects : List CatalogObjectId) : Bytes := (objects.map Subtype.val).flatten

def objectSetDigest (objects : List CatalogObjectId) : Digest :=
  platform.hash [objectSetDigestDomain, beBytes 8 objects.length, encodedIdentities objects].flatten

def encodedIntent : Option Bytes → Bytes
  | some intent => [1] ++ beBytes 8 intent.length ++ intent
  | none => [0]

def transactionDigest (formatEpoch : FormatEpoch) (objects : List CatalogObjectId)
    (audit : Option Bytes) : Digest :=
  platform.hash [transactionDigestDomain, beBytes 4 formatEpoch.1.1,
    (objectSetDigest platform objects).1, encodedIntent audit].flatten

def auditHash (position : U64) (predecessorHash : Digest) (transaction : TransactionId)
    (intent : Bytes) : Digest :=
  platform.hash [auditHashDomain, beBytes 8 position.1, predecessorHash.1, transaction.id.toBytes,
    beBytes 8 intent.length, intent].flatten

def encodeAudit (record : GovernanceAuditRecord) : Bytes :=
  [auditMagic.1, beBytes 2 codecVersion.1, beBytes 8 record.position.1, record.predecessorHash.1,
    record.transaction.id.toBytes, beBytes 4 record.intent.length, record.intent,
    record.hash.1].flatten

def prepareAudit (predecessor : AuditFrontier) (transaction : TransactionId) (intent : Bytes) :
    Result (GovernanceAuditRecord × Bytes) := do
  demand (intent ≠ [] ∧ intent.length ≤ maxAuditIntentBytes) (.new .limitExceeded)
  let position ← orFail (predecessor.position.checkedAdd (Unsigned.wrap 64 1)) (.new .limitExceeded)
  let record : GovernanceAuditRecord :=
    { position := position
      predecessorHash := predecessor.hash
      hash := auditHash platform position predecessor.hash transaction intent
      transaction := transaction
      intent := intent }
  return (record, encodeAudit record)

def takeIdentifier : Decoder CatalogFailure Identifier := do
  let bytes ← takeArray corruption 16
  check (orFail (Identifier.new bytes) corruption)

def takeAuditHeader : Decoder CatalogFailure (U64 × Digest × TransactionId) := do
  let magic ← takeArray corruption 8
  let _ ← check (demand (magic = auditMagic) corruption)
  let version ← takeU16 corruption
  let _ ← check (demand (version = codecVersion) corruption)
  let position ← takeU64 corruption
  let _ ← check (demand (position.1 ≠ 0) corruption)
  let predecessorHash ← takeArray corruption 32
  let transaction ← takeIdentifier
  return (position, predecessorHash, ⟨transaction⟩)

def auditDecoder : Decoder CatalogFailure GovernanceAuditRecord := do
  let (position, predecessorHash, transaction) ← takeAuditHeader
  let intentLength ← takeU32 corruption
  let _ ← check (demand (intentLength.1 ≠ 0 ∧ intentLength.1 ≤ maxAuditIntentBytes) (.new .limitExceeded))
  let intent ← take corruption intentLength.1
  let storedHash ← takeArray corruption 32
  finish corruption
  let _ ← check (demand (storedHash = auditHash platform position predecessorHash transaction intent)
    corruption)
  return ⟨position, predecessorHash, storedHash, transaction, intent⟩

def decodeAudit (encoded : Bytes) : Result GovernanceAuditRecord := decode (auditDecoder platform) encoded

/-- Everything but the generation, which is the hash of this encoding. -/
def encodeCommit (record : CommitRecord) : Bytes :=
  [commitMagic.1, beBytes 2 codecVersion.1, beBytes 8 record.number.1, record.predecessor.1,
    record.instanceId.id.toBytes, beBytes 4 record.formatEpoch.1.1, record.transaction.id.toBytes,
    record.transactionDigest.1, record.objectSetDigest.1, beBytes 8 record.auditFrontier.position.1,
    record.auditFrontier.hash.1, beBytes 4 record.objects.length,
    encodedIdentities record.objects].flatten

def ascending (objects : List CatalogObjectId) : Bool :=
  !(objects.zip (objects.drop 1)).any fun pair => cmpBytes pair.1 pair.2 != .lt

def takeCommitHeader : Decoder CatalogFailure CommitRecord := do
  let magic ← takeArray corruption 8
  let _ ← check (demand (magic = commitMagic) corruption)
  let version ← takeU16 corruption
  let _ ← check (demand (version = codecVersion) corruption)
  let number ← takeU64 corruption
  let _ ← check (demand (number.1 ≠ 0) corruption)
  let predecessor ← takeArray corruption 32
  let instanceId ← takeIdentifier
  let epoch ← takeU32 corruption
  let formatEpoch ← check (orFail (FormatEpoch.new epoch) corruption)
  let transaction ← takeIdentifier
  let transactionDigest ← takeArray corruption 32
  let storedObjectSetDigest ← takeArray corruption 32
  let position ← takeU64 corruption
  let hash ← takeArray corruption 32
  return ⟨originGeneration, number, predecessor, ⟨instanceId⟩, formatEpoch, ⟨transaction⟩,
    transactionDigest, storedObjectSetDigest, ⟨position, hash⟩, []⟩

def commitDecoder (generation : CatalogGenerationId) : Decoder CatalogFailure CommitRecord := do
  let record ← takeCommitHeader
  let objectCount ← takeU32 corruption
  let _ ← check (demand (objectCount.1 ≠ 0 ∧ objectCount.1 ≤ maxCatalogObjects) (.new .limitExceeded))
  let objects ← takeArrays corruption 32 objectCount.1
  finish corruption
  let _ ← check (demand (ascending objects ∧
    objectSetDigest platform objects = record.objectSetDigest) corruption)
  return { record with generation := generation, objects := objects }

def decodeCommit (generation : CatalogGenerationId) (encoded : Bytes) : Result CommitRecord := do
  demand (platform.hash encoded = generation) corruption
  decode (commitDecoder platform generation) encoded

section RoundTrip

variable {platform}

theorem takes_takeIdentifier : Takes takeIdentifier 16 :=
  (takes_takeArray _ 16).bind fun _ => takes_check _

theorem takes_takeCommitHeader :
    Takes takeCommitHeader (8 + (0 + (2 + (0 + (8 + (0 + (32 + (16 + (4 + (0 + (16 +
      (32 + (32 + (8 + (32 + 0))))))))))))))) :=
  (takes_takeArray _ 8).bind fun _ => (takes_check _).bind fun _ =>
    (takes_takeU16 _).bind fun _ => (takes_check _).bind fun _ =>
    (takes_takeU64 _).bind fun _ => (takes_check _).bind fun _ =>
    (takes_takeArray _ 32).bind fun _ => takes_takeIdentifier.bind fun _ =>
    (takes_takeU32 _).bind fun _ => (takes_check _).bind fun _ =>
    takes_takeIdentifier.bind fun _ => (takes_takeArray _ 32).bind fun _ =>
    (takes_takeArray _ 32).bind fun _ => (takes_takeU64 _).bind fun _ =>
    (takes_takeArray _ 32).bind fun _ => Takes.pure _

theorem decodeCommit_shape {generation : CatalogGenerationId} {encoded : Bytes} {record : CommitRecord}
    (h : decodeCommit platform generation encoded = .ok record) :
    encoded.length = commitFixedBytes + 32 * record.objects.length ∧ record.generation = generation := by
  obtain ⟨_, _, h⟩ := bind_ok h
  obtain ⟨rest, h⟩ := decode_ok_iff.mp h
  obtain ⟨header, bytes, hheader, h⟩ := bind_ok_iff.mp h
  obtain ⟨count, bytes', hcount, h⟩ := bind_ok_iff.mp h
  obtain ⟨_, bytes'', hlimit, h⟩ := bind_ok_iff.mp h
  obtain ⟨objects, bytes3, hobjs, h⟩ := bind_ok_iff.mp h
  obtain ⟨_, bytes4, hfinish, h⟩ := bind_ok_iff.mp h
  obtain ⟨_, bytes5, hset, h⟩ := bind_ok_iff.mp h
  cases h
  have hfirst := takes_takeCommitHeader _ _ _ hheader
  have hsecond := takes_takeU32 _ _ _ _ hcount
  have hthird := takes_check _ _ _ _ hlimit
  obtain ⟨hfourth, hlen⟩ := takeArrays_length hobjs
  have hlast := congrArg List.length (finish_ok hfinish).1
  refine ⟨?_, rfl⟩
  simp only [commitFixedBytes, hlen, List.length_nil] at hlast ⊢
  omega

end RoundTrip

variable (platform : Platform)

def isZero {n : Nat} (bytes : FixedBytes n) : Bool := bytes.1.all (· == 0)

variable (encoded : Bytes)

def positiveU64 (start : Nat) : Result U64 := do
  let bytes ← orFail (fixed? 8 encoded start) corruption
  let value := toUnsigned 64 bytes.1
  demand (value.1 ≠ 0) corruption
  return value

def instanceAt (start : Nat) : Result InstanceId := do
  let bytes ← orFail (fixed? 16 encoded start) corruption
  return ⟨← orFail (Identifier.new bytes) corruption⟩

def arrayAt (n : Nat) (encoded : Bytes) (start : Nat) : Result (FixedBytes n) :=
  orFail (fixed? n encoded start) corruption

def demandShape (length : Nat) (magic : Bytes) : Result PUnit :=
  demand (encoded.length = length ∧ slice? encoded 0 8 = some magic ∧
    slice? encoded 8 10 = some (beBytes 2 1)) corruption

/-- `POSAUDP1`. -/
def checkpointMagic : Bytes := [0x50, 0x4f, 0x53, 0x41, 0x55, 0x44, 0x50, 0x31]

def checkpointEncodedBytes : Nat := 162

namespace GovernanceAuditCheckpoint

def decode : Result GovernanceAuditCheckpoint := do
  demandShape encoded checkpointEncodedBytes checkpointMagic
  let instanceId ← instanceAt encoded 10
  let position ← positiveU64 encoded 26
  let recordHash ← arrayAt 32 encoded 34
  let publicKey ← arrayAt 32 encoded 66
  let signature ← arrayAt 64 encoded 98
  demand (isZero recordHash = false ∧ isZero publicKey = false) corruption
  return ⟨instanceId, position, recordHash, publicKey, signature⟩

end GovernanceAuditCheckpoint

/-- `POSAUDR1`. -/
def retentionMagic : Bytes := [0x50, 0x4f, 0x53, 0x41, 0x55, 0x44, 0x52, 0x31]

/-- `POSAUP01`. -/
def retentionPolicyV1Magic : Bytes := [0x50, 0x4f, 0x53, 0x41, 0x55, 0x50, 0x30, 0x31]

/-- `POSAUP02`. -/
def retentionPolicyMagic : Bytes := [0x50, 0x4f, 0x53, 0x41, 0x55, 0x50, 0x30, 0x32]

/-- `POSAUR01`. -/
def reclamationReceiptMagic : Bytes := [0x50, 0x4f, 0x53, 0x41, 0x55, 0x52, 0x30, 0x31]

def retentionEncodedBytes : Nat := 202
def retentionPolicyV1EncodedBytes : Nat := 34
def retentionPolicyEncodedBytes : Nat := 42
def reclamationReceiptEncodedBytes : Nat := 74
def retentionSigningDomain : Bytes := asciiBytes "positron-governance-audit-retention-anchor-v1" ++ [0]

/-- The trusted system policy and integrity key that authorize a retained suffix. -/
structure AuditRetentionTrust where
  instanceId : InstanceId
  integrityPublicKey : FixedBytes 32
  integrityKeyFingerprint : FixedBytes 32
  systemPolicyGeneration : U64
deriving DecidableEq

def AuditRetentionTrust.new (instanceId : InstanceId)
    (integrityPublicKey integrityKeyFingerprint : FixedBytes 32) (systemPolicyGeneration : U64) :
    Result AuditRetentionTrust := do
  demand (isZero integrityPublicKey = false ∧ isZero integrityKeyFingerprint = false ∧
    systemPolicyGeneration.1 ≠ 0) (.new .invalidInput)
  return ⟨instanceId, integrityPublicKey, integrityKeyFingerprint, systemPolicyGeneration⟩

structure SystemAuditRetentionPolicy where
  instanceId : InstanceId
  generation : U64
  retainedRecordLimit : U64
deriving DecidableEq

namespace SystemAuditRetentionPolicy

/-- The first version has no limit on the retained records. -/
def decode : Result SystemAuditRetentionPolicy :=
  if slice? encoded 0 8 = some retentionPolicyV1Magic then do
    demandShape encoded retentionPolicyV1EncodedBytes retentionPolicyV1Magic
    return ⟨← instanceAt encoded 10, ← positiveU64 encoded 26, Unsigned.maxValue 64⟩
  else do
    demandShape encoded retentionPolicyEncodedBytes retentionPolicyMagic
    return ⟨← instanceAt encoded 10, ← positiveU64 encoded 26, ← positiveU64 encoded 34⟩

def isEncoded (bytes : Bytes) : Bool :=
  retentionPolicyV1Magic.isPrefixOf bytes || retentionPolicyMagic.isPrefixOf bytes

end SystemAuditRetentionPolicy

/-- The signed boundary just before a retained suffix of the audit chain. -/
structure AuditRetentionAnchor where
  instanceId : InstanceId
  integrityKeyFingerprint : FixedBytes 32
  systemPolicyGeneration : U64
  position : U64
  recordHash : Digest
  publicKey : FixedBytes 32
  signature : FixedBytes 64
deriving DecidableEq

def retentionSigningMessage (trust : AuditRetentionTrust) (position : U64) (recordHash : Digest)
    (publicKey : FixedBytes 32) : Result Bytes := do
  demand (position.1 ≠ 0 ∧ isZero recordHash = false) (.new .invalidInput)
  return [retentionSigningDomain, trust.instanceId.id.toBytes, trust.integrityKeyFingerprint.1,
    beBytes 8 trust.systemPolicyGeneration.1, beBytes 8 position.1, recordHash.1, publicKey.1].flatten

namespace AuditRetentionAnchor

def verify (anchor : AuditRetentionAnchor) (trust : AuditRetentionTrust) : Result PUnit := do
  demand (anchor.instanceId = trust.instanceId ∧
    anchor.integrityKeyFingerprint = trust.integrityKeyFingerprint ∧
    anchor.systemPolicyGeneration = trust.systemPolicyGeneration ∧
    anchor.publicKey = trust.integrityPublicKey) (.new .authenticationFailed)
  let message ← retentionSigningMessage trust anchor.position anchor.recordHash anchor.publicKey
  demand (platform.verify trust.integrityPublicKey message anchor.signature) (.new .authenticationFailed)

def decode : Result AuditRetentionAnchor := do
  demandShape encoded retentionEncodedBytes retentionMagic
  let instanceId ← instanceAt encoded 10
  let integrityKeyFingerprint ← arrayAt 32 encoded 26
  let systemPolicyGeneration ← positiveU64 encoded 58
  let position ← positiveU64 encoded 66
  let recordHash ← arrayAt 32 encoded 74
  let publicKey ← arrayAt 32 encoded 106
  let signature ← arrayAt 64 encoded 138
  demand (isZero integrityKeyFingerprint = false ∧ isZero recordHash = false ∧
    isZero publicKey = false) corruption
  return ⟨instanceId, integrityKeyFingerprint, systemPolicyGeneration, position, recordHash, publicKey,
    signature⟩

def isEncoded (bytes : Bytes) : Bool := retentionMagic.isPrefixOf bytes

end AuditRetentionAnchor

/-- The instruction to finish reclaiming the prefix that an anchor authorizes. -/
structure AuditRetentionReclamationReceipt where
  instanceId : InstanceId
  systemPolicyGeneration : U64
  position : U64
  recordHash : Digest
deriving DecidableEq

namespace AuditRetentionReclamationReceipt

def matchesAnchor (receipt : AuditRetentionReclamationReceipt) (anchor : AuditRetentionAnchor) : Prop :=
  receipt.instanceId = anchor.instanceId ∧ receipt.systemPolicyGeneration = anchor.systemPolicyGeneration ∧
    receipt.position = anchor.position ∧ receipt.recordHash = anchor.recordHash

instance (receipt : AuditRetentionReclamationReceipt) (anchor : AuditRetentionAnchor) :
    Decidable (receipt.matchesAnchor anchor) := inferInstanceAs (Decidable (_ ∧ _))

def isEncoded (bytes : Bytes) : Bool := reclamationReceiptMagic.isPrefixOf bytes

def decode : Result AuditRetentionReclamationReceipt := do
  demandShape encoded reclamationReceiptEncodedBytes reclamationReceiptMagic
  let instanceId ← instanceAt encoded 10
  let systemPolicyGeneration ← positiveU64 encoded 26
  let position ← positiveU64 encoded 34
  let recordHash ← arrayAt 32 encoded 42
  demand (isZero recordHash = false) corruption
  return ⟨instanceId, systemPolicyGeneration, position, recordHash⟩

end AuditRetentionReclamationReceipt

/-- The one object of a kind among the objects of a snapshot. Two are corruption. -/
def findUnique {α : Type} (isEncoded : Bytes → Bool) (decode : Bytes → Result α) (objects : List Bytes) :
    Result (Option α) :=
  objects.foldlM (fun found object =>
    if isEncoded object then do
      let value ← decode object
      demand (found.isNone) corruption
      return some value
    else return found) none

def retentionAnchor : Result (Option AuditRetentionAnchor) :=
  findUnique AuditRetentionAnchor.isEncoded AuditRetentionAnchor.decode snapshot.plaintextObjects

def retentionPolicy : Result (Option SystemAuditRetentionPolicy) :=
  findUnique SystemAuditRetentionPolicy.isEncoded SystemAuditRetentionPolicy.decode snapshot.plaintextObjects

/-- A receipt of another anchor is corruption. -/
def retentionReclamationReceipt (anchor : AuditRetentionAnchor) : Result (Option AuditRetentionReclamationReceipt) :=
  findUnique AuditRetentionReclamationReceipt.isEncoded (fun object => do
      let receipt ← AuditRetentionReclamationReceipt.decode object
      demand (receipt.matchesAnchor anchor) corruption
      return receipt)
    snapshot.plaintextObjects

/-- The magics of the eight versions end in their numbers. -/
def isGovernance (bytes : Bytes) : Bool :=
  ["POSGOV01", "POSGOV02", "POSGOV03", "POSGOV04", "POSGOV05", "POSGOV06", "POSGOV07", "POSGOV08"].any
    fun magic => (asciiBytes magic).isPrefixOf bytes

def governanceObject (snapshot : CatalogSnapshot) : Result CatalogGovernanceObject := do
  let found ← findUnique isGovernance (fun bytes => orFail (platform.decodeGovernance bytes) corruption)
    snapshot.plaintextObjects
  orFail found (.new .staleGeneration)

def retentionTrustForPolicy (snapshot : CatalogSnapshot) (instanceId : InstanceId)
    (policy : SystemAuditRetentionPolicy) : Result AuditRetentionTrust := do
  let governance ← governanceObject platform snapshot
  demand (governance.instanceId = instanceId.id.1) corruption
  demand (policy.instanceId = instanceId) corruption
  AuditRetentionTrust.new instanceId governance.integrityPublicKey governance.integrityKeyFingerprint
    policy.generation

def retentionTrust (snapshot : CatalogSnapshot) (instanceId : InstanceId) : Result AuditRetentionTrust := do
  let policy ← orFail (← retentionPolicy snapshot) corruption
  retentionTrustForPolicy platform snapshot instanceId policy

variable (platform : Platform)

/-- The transitional kinds are those of artifacts written while the checkpoint had tag 3. They are
read and never written. -/
inductive ArtifactKind where
  | object
  | audit
  | commit
  | prepared
  | auditCheckpoint
  | exportOutput
  | transitionalCommit
  | transitionalPrepared
  | transitionalAuditCheckpoint
deriving DecidableEq

namespace ArtifactKind

def tag : ArtifactKind → UInt8
  | object => 1
  | audit => 2
  | commit => 3
  | prepared => 4
  | auditCheckpoint => 5
  | exportOutput => 6
  | transitionalCommit => 4
  | transitionalPrepared => 5
  | transitionalAuditCheckpoint => 3

def systemKind : ArtifactKind → SystemObjectKind
  | object | commit | prepared | transitionalCommit | transitionalPrepared => .catalog
  | audit | auditCheckpoint | transitionalAuditCheckpoint => .governanceAudit
  | exportOutput => .exportOutput

def transitional : ArtifactKind → Option ArtifactKind
  | commit => some transitionalCommit
  | prepared => some transitionalPrepared
  | auditCheckpoint => some transitionalAuditCheckpoint
  | _ => none

def ofTag (expected : ArtifactKind) (tag : Option UInt8) : Option ArtifactKind :=
  if tag = some expected.tag then some expected
  else expected.transitional.filter fun kind => tag = some kind.tag

end ArtifactKind

/-- `PARTV003`. -/
def artifactMagic : Bytes := [0x50, 0x41, 0x52, 0x54, 0x56, 0x30, 0x30, 0x33]

def artifactVersion : Bytes := beBytes 2 3
def localProvider : Bytes := beBytes 2 1
def aes256KwpAlgorithm : Bytes := beBytes 2 1
def artifactHeaderBytes : Nat := 247
def dataKeyEpoch : U64 := Unsigned.wrap 64 1
def envelopeContextDomain : Bytes := asciiBytes "positron-catalog-key-envelope-context-v1"

structure Entropy where
  keyId : FixedBytes 32
  key : FixedBytes 32
deriving DecidableEq

structure DecodedHeader where
  providerKeyReference : FixedBytes 16
  rootKeyEpoch : U64
  keyId : FixedBytes 32
  keyEpoch : U64
  contextDigest : Digest
  wrappedPayload : FixedBytes 136
deriving DecidableEq

def mapFrameFailure : FrameFailureCode → CatalogFailure
  | .limitExceeded | .invalidLimit => .new .limitExceeded
  | .authenticationFailed | .openFailed => .new .authenticationFailed
  | .entropyUnavailable | .hashFailed | .sealFailed => .new .storageUnavailable
  | .invalidContext | .malformedFrame | .unsupportedVersion | .unsupportedAlgorithm
  | .checksumMismatch => .new .integrityCorruption

def unauthenticated : CatalogFailure := .new .authenticationFailed

def envelopeContextDigest (instanceId : InstanceId) (kind : ArtifactKind) (contentIdentity : Digest)
    (formatEpoch : FormatEpoch) (keyId : FixedBytes 32) (keyEpoch : U64) : Digest :=
  platform.hash [envelopeContextDomain, instanceId.id.toBytes, [2], [kind.tag], contentIdentity.1,
    beBytes 4 formatEpoch.1.1, keyId.1, beBytes 8 keyEpoch.1].flatten

def artifactContext (kind : ArtifactKind) (contextDigest : Digest) (formatEpoch : FormatEpoch) :
    Result FrameObjectContext := do
  let bytes ← orFail (fixed? 16 contextDigest.1 0) (.new .invalidInput)
  let objectId ← orFail (Identifier.new bytes) corruption
  return ⟨kind.systemKind, objectId, formatEpoch⟩

def wrappedKeyContext (instanceId : InstanceId) (kind : ArtifactKind) (keyId : FixedBytes 32)
    (keyEpoch : U64) (contextDigest : Digest) : Result WrappedKeyContext := do
  demand (keyId.1.all (· == 0) = false ∧ keyEpoch.1 ≠ 0 ∧ contextDigest.1.all (· == 0) = false) corruption
  return ⟨instanceId, kind.systemKind, keyId, keyEpoch, contextDigest⟩

def contextualWrappingKey (key : CatalogWrappingKey) (contextDigest : Digest) : FixedBytes 32 :=
  platform.authenticate key.key contextDigest.1

/-- The header as it is written: the route of the root key, the identity of the object key and the
wrapped object key. -/
def encodeHeader (kind : ArtifactKind) (key : CatalogWrappingKey) (keyId : FixedBytes 32)
    (keyEpoch : U64) (contextDigest : Digest) (wrappedPayload : FixedBytes 136) : List Bytes :=
  [artifactMagic, artifactVersion, [kind.tag], localProvider, aes256KwpAlgorithm,
    key.providerKeyReference.toBytes, beBytes 8 key.keyEpoch.1.1, keyId.1, beBytes 8 keyEpoch.1,
    contextDigest.1, wrappedPayload.1]

def protectArtifact (secret : CatalogSecret) (instanceId : InstanceId) (kind : ArtifactKind)
    (contentIdentity : Digest) (formatEpoch : FormatEpoch) (entropy : Entropy) (plaintext : Bytes) :
    Result Bytes := do
  demand (entropy.keyId.1.all (· == 0) = false) (mapFrameFailure .entropyUnavailable)
  let digest := envelopeContextDigest platform instanceId kind contentIdentity formatEpoch
    entropy.keyId dataKeyEpoch
  let object ← artifactContext kind digest formatEpoch
  let context ← wrappedKeyContext instanceId kind entropy.keyId dataKeyEpoch digest
  let wrapped := platform.wrapKeyPayload (contextualWrappingKey platform secret.wrapping digest)
    entropy.key context
  demand (plaintext.length + frameOverheadBytes < 2 ^ 32) (.new .limitExceeded)
  return (encodeHeader kind secret.wrapping entropy.keyId dataKeyEpoch digest wrapped).flatten ++
    platform.protectFrame entropy.key object plaintext

def decodeHeader (header : Bytes) (expected : ArtifactKind) : Result (DecodedHeader × ArtifactKind) := do
  demand (slice? header 0 8 = some artifactMagic) corruption
  let kind ← orFail (expected.ofTag header[10]?) corruption
  demand (slice? header 8 10 = some artifactVersion ∧ slice? header 11 13 = some localProvider ∧
    slice? header 13 15 = some aes256KwpAlgorithm) (.new .unsupportedFormat)
  let providerKeyReference ← orFail (fixed? 16 header 15) corruption
  let rootKeyEpoch ← orFail (fixed? 8 header 31) corruption
  let keyId ← orFail (fixed? 32 header 39) corruption
  let keyEpoch ← orFail (fixed? 8 header 71) corruption
  let contextDigest ← orFail (fixed? 32 header 79) corruption
  let wrappedPayload ← orFail (fixed? 136 header 111) corruption
  return (⟨providerKeyReference, toUnsigned 64 rootKeyEpoch.1, keyId, toUnsigned 64 keyEpoch.1,
    contextDigest, wrappedPayload⟩, kind)

def DecodedHeader.routedTo (decoded : DecodedHeader) (key : CatalogWrappingKey) : Prop :=
  decoded.providerKeyReference = key.providerKeyReference.1 ∧ decoded.rootKeyEpoch = key.keyEpoch.1

instance (decoded : DecodedHeader) (key : CatalogWrappingKey) : Decidable (decoded.routedTo key) :=
  inferInstanceAs (Decidable (_ ∧ _))

def wrappingKeyForHeader (secret : CatalogSecret) (decoded : DecodedHeader) : Result CatalogWrappingKey :=
  if decoded.routedTo secret.wrapping then .ok secret.wrapping
  else orFail (secret.predecessor.filter fun key => decoded.routedTo key) unauthenticated

/-- The part of reading an artifact that a rotation shares: the check of the envelope against its
context, and the object key. -/
def openEnvelope (key : CatalogWrappingKey) (instanceId : InstanceId) (kind : ArtifactKind)
    (contentIdentity : Digest) (formatEpoch : FormatEpoch) (decoded : DecodedHeader) :
    Result (FrameObjectContext × WrappedKeyContext × FixedBytes 32) := do
  demand (decoded.keyEpoch = dataKeyEpoch) unauthenticated
  let digest := envelopeContextDigest platform instanceId kind contentIdentity formatEpoch
    decoded.keyId decoded.keyEpoch
  demand (decoded.contextDigest = digest) unauthenticated
  let object ← artifactContext kind digest formatEpoch
  let context ← wrappedKeyContext instanceId kind decoded.keyId decoded.keyEpoch digest
  let objectKey ← (platform.unwrapKeyPayload (contextualWrappingKey platform key digest)
    decoded.wrappedPayload context).mapError mapFrameFailure
  return (object, context, objectKey)

def openArtifact (secret : CatalogSecret) (instanceId : InstanceId) (kind : ArtifactKind)
    (contentIdentity : Digest) (formatEpoch : FormatEpoch) (encoded : Bytes) : Result Bytes := do
  demand (artifactHeaderBytes ≤ encoded.length) corruption
  let frame := encoded.drop artifactHeaderBytes
  let (decoded, encodedKind) ← decodeHeader (encoded.take artifactHeaderBytes) kind
  let key ← wrappingKeyForHeader secret decoded
  let (object, _, objectKey) ←
    openEnvelope platform key instanceId encodedKind contentIdentity formatEpoch decoded
  demand (frame.length < 2 ^ 32 ∧ frameOverheadBytes ≤ frame.length) (.new .limitExceeded)
  (platform.openFrame objectKey object frame).mapError mapFrameFailure

end Positron.Catalog
