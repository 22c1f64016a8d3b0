import Positron.Domain
import Positron.Lib.Checks
import Positron.Lib.Runs
import Positron.Lib.Triples

/-! The output of a durable export: a payload file that only grows, two files beside it, and the descriptor in
the catalog that says how much of them counts. Every handle carries its own copy of the descriptor. -/

namespace Positron.Export
open MachineInt ByteCodec Checks Triples

def maxExportBatches : Nat := 1024

def maxExportBatchBytes : Nat := 1048576

def maxContinuationCursorBytes : Nat := 8192

def maxExportManifestBytes : Nat := 42496

def maxExportBytes : Nat := 1073741824

def maxProtectedRecordBytes : Nat := maxExportBatchBytes + maxContinuationCursorBytes + 512

def maxExportTerminalEvidenceBytes : Nat := 256

inductive ExportOutputFailureCode where
  | invalidBinding
  | expired
  | limitExceeded
  | resourceAdmissionRefused
  | storageUnavailable
  | integrityCorruption
  | authenticationFailed
  | idempotencyConflict
  | concurrentWriter
deriving DecidableEq

structure ExportOutputBinding where
  operationId : FixedBytes 16
  tenant : TenantId
  destination : FixedBytes 16
  requestDigest : FixedBytes 32
  snapshotIdentity : FixedBytes 32
  snapshotGeneration : U64
  snapshotFrontier : U64
  lease : SnapshotLeaseId
  leaseStartedAt : U64
  leaseExpiryAt : U64
deriving DecidableEq

/-- The descriptor in the catalog, and the copy in a handle. A digest of zeros stands for none. -/
structure ExportOutput where
  binding : ExportOutputBinding
  nextSequence : Nat
  retainedBytes : Nat
  lastDigest : FixedBytes 32
  terminalEvidenceDigest : FixedBytes 32
  manifestDigest : FixedBytes 32
deriving DecidableEq

def ExportOutput.initial (binding : ExportOutputBinding) : ExportOutput :=
  ⟨binding, 0, 0, zeroBytes 32, zeroBytes 32, zeroBytes 32⟩

structure PayloadRecord where
  sequence : Nat
  digest : FixedBytes 32
  bytes : Bytes
  continuationCursor : Option Bytes
deriving DecidableEq

def PayloadRecord.protectedBytes (record : PayloadRecord) : Nat :=
  247 + 68 + 54 + (record.continuationCursor.getD []).length + record.bytes.length

def PayloadRecord.durableBytes (record : PayloadRecord) : Nat := record.protectedBytes + 4

def payloadBytes (records : List PayloadRecord) : Nat := (records.map PayloadRecord.durableBytes).sum

def PayloadRecord.Decodes (record : PayloadRecord) : Prop :=
  record.protectedBytes ≤ maxProtectedRecordBytes ∧
    (record.continuationCursor.getD []).length ≤ maxContinuationCursorBytes ∧ record.bytes ≠ [] ∧
    record.bytes.length ≤ maxExportBatchBytes ∧ record.digest ≠ zeroBytes 32

instance (record : PayloadRecord) : Decidable record.Decodes := inferInstanceAs (Decidable (_ ∧ _))

def openRecords : Nat → List PayloadRecord → Except ExportOutputFailureCode PUnit
  | _, [] => .ok ⟨⟩
  | count, record :: records => do
    demand (count < maxExportBatches) .limitExceeded
    demand (record.sequence = count) .authenticationFailed
    demand record.Decodes .integrityCorruption
    openRecords (count + 1) records

def scanRecords (payload : List PayloadRecord) (output : ExportOutput) :
    Except ExportOutputFailureCode PUnit := do
  demand (payloadBytes payload ≤ maxExportBytes) .limitExceeded
  openRecords 0 payload
  demand (output.nextSequence ≤ payload.length ∧ payload.length ≤ output.nextSequence + 1) .integrityCorruption
  demand (payload.length = output.nextSequence → payloadBytes payload = output.retainedBytes) .integrityCorruption
  demand (0 < output.nextSequence →
    payload[output.nextSequence - 1]?.map PayloadRecord.digest = some output.lastDigest) .integrityCorruption

def recordsFrom : Nat → List PayloadRecord → Option (List PayloadRecord)
  | 0, records => some records
  | _ + 1, [] => none
  | offset + 1, record :: records =>
    if record.durableBytes ≤ offset + 1 then recordsFrom (offset + 1 - record.durableBytes) records else none

def inspectPayloadTail (payload : List PayloadRecord) (output : ExportOutput) :
    Except ExportOutputFailureCode (Option PayloadRecord) := do
  demand (payloadBytes payload ≤ maxExportBytes ∧ output.retainedBytes ≤ payloadBytes payload) .integrityCorruption
  if payloadBytes payload = output.retainedBytes then return none
  match recordsFrom output.retainedBytes payload with
  | some [orphan] =>
    demand (orphan.sequence = output.nextSequence) .authenticationFailed
    demand orphan.Decodes .integrityCorruption
    return some orphan
  | _ => throw .integrityCorruption

structure World where
  published : Option ExportOutput
  payload : List PayloadRecord
  evidence : Option Bytes
  manifest : Option Bytes
  handles : List ExportOutput
deriving DecidableEq

def World.start : World := ⟨none, [], none, none, []⟩

abbrev ExportM := EStateM ExportOutputFailureCode World

/-- What becomes of a commit: it may become durable without the caller being told. -/
inductive Publication where
  | committed
  | refused (code : ExportOutputFailureCode)
  | unreported (code : ExportOutputFailureCode)
deriving DecidableEq

/-- The surroundings of a call: its time, a refusal before anything is written, and the fate of each write. -/
structure Attempt where
  observedAt : U64
  refusal : Option ExportOutputFailureCode
  evidenceFault : Option ExportOutputFailureCode
  payloadFault : Option ExportOutputFailureCode
  manifestFault : Option ExportOutputFailureCode
  publication : Publication
deriving DecidableEq

def withoutFault (fault : Option ExportOutputFailureCode) : ExportM PUnit :=
  ofExcept (fault.elim (.ok ⟨⟩) .error)

def requireLive (a : Attempt) (output : ExportOutput) : ExportM PUnit :=
  require (output.binding.leaseStartedAt.1 ≤ a.observedAt.1 ∧ a.observedAt.1 ≤ output.binding.leaseExpiryAt.1)
    .expired

def publish (a : Attempt) (output : ExportOutput) : ExportM PUnit :=
  match a.publication with
  | .committed => modify fun w => { w with published := some output }
  | .refused code => throw code
  | .unreported code => do
    modify fun w => { w with published := some output }
    throw code

def reopenUnlocked (a : Attempt) : ExportM ExportOutput := do
  withoutFault a.refusal
  let w ← get
  let output ← ofExcept (orFail w.published .storageUnavailable)
  require (output.nextSequence ≤ maxExportBatches ∧ output.retainedBytes ≤ maxExportBytes ∧
    (output.nextSequence = 0 ↔ output.lastDigest = zeroBytes 32)) .integrityCorruption
  ofExcept (scanRecords w.payload output)
  return output

/-- Creation, with an initial cursor or without, and the recovery of a preparation: what cannot be found is published
anew. -/
def create (a : Attempt) (binding : ExportOutputBinding) : ExportM ExportOutput := do
  match ← attempt (reopenUnlocked a) with
  | .ok existing =>
    require (existing.binding = binding) .idempotencyConflict
    return existing
  | .error .storageUnavailable =>
    publish a (.initial binding)
    return .initial binding
  | .error code => throw code

structure Batch where
  sequence : Nat
  digest : FixedBytes 32
  bytes : Bytes
  continuationCursor : Option Bytes
  terminalEvidence : Option Bytes
deriving DecidableEq

/-- The record that is written. An empty cursor reads back as none. -/
def Batch.record (batch : Batch) : PayloadRecord :=
  ⟨batch.sequence, batch.digest, batch.bytes, batch.continuationCursor.filter (· ≠ [])⟩

def Batch.isRecord (batch : Batch) (record : PayloadRecord) : Prop :=
  record.digest = batch.digest ∧ record.bytes = batch.bytes ∧ record.continuationCursor = batch.continuationCursor

instance (batch : Batch) (record : PayloadRecord) : Decidable (batch.isRecord record) :=
  inferInstanceAs (Decidable (_ ∧ _))

structure ExportBatchReceipt where
  sequence : Nat
  digest : FixedBytes 32
deriving DecidableEq

def Batch.receipt (batch : Batch) : ExportBatchReceipt := ⟨batch.sequence, batch.digest⟩

def validateBatch (batch : Batch) : ExportM PUnit :=
  require (batch.bytes ≠ [] ∧ batch.bytes.length ≤ maxExportBatchBytes ∧ batch.digest ≠ zeroBytes 32 ∧
    (batch.continuationCursor.getD []).length ≤ maxContinuationCursorBytes) .limitExceeded

def validateTerminalEvidence (evidence : Bytes) : ExportM PUnit :=
  require (evidence ≠ [] ∧ evidence.length ≤ maxExportTerminalEvidenceBytes) .limitExceeded

def createTerminalEvidenceFile (a : Attempt) (evidence : Bytes) : ExportM PUnit := do
  let w ← get
  match w.evidence with
  | some existing => require (existing = evidence) .idempotencyConflict
  | none =>
    withoutFault a.evidenceFault
    modify fun w => { w with evidence := some evidence }

section Calls

variable (digestBytes : Bytes → FixedBytes 32)

variable (w : World) (self : ExportOutput)

def readTerminalEvidenceUnlocked : Except ExportOutputFailureCode Bytes := do
  let evidence ← orFail w.evidence .integrityCorruption
  demand (digestBytes evidence = self.terminalEvidenceDigest) .integrityCorruption
  return evidence

def matchesTerminalReplay : Option Bytes → Except ExportOutputFailureCode Bool
  | none => .ok (decide (self.terminalEvidenceDigest = zeroBytes 32))
  | some evidence =>
    if self.terminalEvidenceDigest ≠ digestBytes evidence then .ok false
    else do return decide ((← readTerminalEvidenceUnlocked digestBytes w self) = evidence)

def matchesTerminalOrphan (evidence : Option Bytes) : Except ExportOutputFailureCode Bool := do
  demand (self.terminalEvidenceDigest = zeroBytes 32) .integrityCorruption
  return decide (w.evidence = evidence)

def ExportOutput.counting (sequence bytes : Nat) (digest : FixedBytes 32) (evidence : Option Bytes) : ExportOutput :=
  { self with
    nextSequence := sequence + 1
    retainedBytes := bytes
    lastDigest := digest
    terminalEvidenceDigest := evidence.elim self.terminalEvidenceDigest digestBytes }

variable (a : Attempt)

/-- The last step of every write: the successor becomes the descriptor, and then the handle. -/
def publishAs (successor : ExportOutput) : ExportM ExportOutput := do
  publish a successor
  return successor

/-- The handle as the call leaves it, and the receipt that the caller is given. -/
def appendBatchWithReservation (self : ExportOutput) (batch : Batch) :
    ExportM (ExportOutput × ExportBatchReceipt) := do
  let w ← get
  if batch.sequence < self.nextSequence then
    ofExcept (scanRecords w.payload self)
    let existing ← ofExcept (orFail w.payload[batch.sequence]? .integrityCorruption)
    require (batch.isRecord existing) .idempotencyConflict
    let replayed ← ofExcept (matchesTerminalReplay digestBytes w self batch.terminalEvidence)
    require replayed .idempotencyConflict
    return (self, batch.receipt)
  else
    let orphan ← ofExcept (inspectPayloadTail w.payload self)
    let count := self.nextSequence + orphan.toList.length
    if batch.sequence < count then
      let existing ← ofExcept (orFail orphan .integrityCorruption)
      require (batch.isRecord existing) .idempotencyConflict
      let replayed ← ofExcept (matchesTerminalOrphan w self batch.terminalEvidence)
      require replayed .idempotencyConflict
      let successor ← publishAs a (self.counting digestBytes batch.sequence (payloadBytes w.payload) batch.digest
        batch.terminalEvidence)
      return (successor, batch.receipt)
    else
      require (batch.sequence = count ∧ batch.sequence < maxExportBatches) .idempotencyConflict
      require (batch.terminalEvidence = none ∨
        (batch.continuationCursor = none ∧ self.terminalEvidenceDigest = zeroBytes 32)) .invalidBinding
      batch.terminalEvidence.forM (createTerminalEvidenceFile a)
      require (batch.record.protectedBytes ≤ maxProtectedRecordBytes) .limitExceeded
      require (payloadBytes w.payload + batch.record.durableBytes ≤ maxExportBytes) .limitExceeded
      withoutFault a.payloadFault
      modify fun w => { w with payload := w.payload ++ [batch.record] }
      let successor ← publishAs a (self.counting digestBytes batch.sequence
        (payloadBytes w.payload + batch.record.durableBytes) batch.digest batch.terminalEvidence)
      return (successor, batch.receipt)

def appendBatch (self : ExportOutput) (batch : Batch) : ExportM (ExportOutput × ExportBatchReceipt) := do
  requireLive a self
  validateBatch batch
  batch.terminalEvidence.forM validateTerminalEvidence
  withoutFault a.refusal
  appendBatchWithReservation digestBytes a self batch

def writeTerminalEvidence (self : ExportOutput) (evidence : Bytes) : ExportM ExportOutput := do
  requireLive a self
  validateTerminalEvidence evidence
  withoutFault a.refusal
  if self.terminalEvidenceDigest ≠ zeroBytes 32 then
    require (self.terminalEvidenceDigest = digestBytes evidence) .idempotencyConflict
    let existing ← ofExcept (readTerminalEvidenceUnlocked digestBytes (← get) self)
    require (existing = evidence) .idempotencyConflict
    return self
  else
    createTerminalEvidenceFile a evidence
    publishAs a { self with terminalEvidenceDigest := digestBytes evidence }

/-- Makes a final payload, or the evidence of an export without batches, count after an interrupted write. -/
def recoverTerminalOrphan (self : ExportOutput) : ExportM ExportOutput := do
  requireLive a self
  withoutFault a.refusal
  let w ← get
  if self.terminalEvidenceDigest ≠ zeroBytes 32 then
    let _ ← ofExcept (readTerminalEvidenceUnlocked digestBytes w self)
    return self
  else
    match ← ofExcept (inspectPayloadTail w.payload self), w.evidence with
    | none, some evidence =>
      if payloadBytes w.payload = 0 ∧ self.nextSequence = 0 then
        publishAs a { self with terminalEvidenceDigest := digestBytes evidence }
      else return self
    | some orphan, some evidence =>
      if orphan.continuationCursor.isSome then return self
      else publishAs a (self.counting digestBytes self.nextSequence (payloadBytes w.payload) orphan.digest evidence)
    | _, none => return self

def writeManifest (self : ExportOutput) (bytes : Bytes) : ExportM ExportOutput := do
  requireLive a self
  require (bytes ≠ [] ∧ bytes.length ≤ maxExportManifestBytes) .limitExceeded
  withoutFault a.refusal
  let w ← get
  if self.manifestDigest ≠ zeroBytes 32 then
    let existing ← ofExcept (orFail w.manifest .integrityCorruption)
    require (digestBytes existing = self.manifestDigest) .integrityCorruption
    require (self.manifestDigest = digestBytes bytes ∧ existing = bytes) .idempotencyConflict
    return self
  else
    match w.manifest with
    | some existing => require (existing = bytes) .idempotencyConflict
    | none => do
      withoutFault a.manifestFault
      modify fun w => { w with manifest := some bytes }
    publishAs a { self with manifestDigest := digestBytes bytes }

inductive Call where
  | append (batch : Batch)
  | terminalEvidence (evidence : Bytes)
  | recoverTerminalOrphan
  | manifest (bytes : Bytes)
deriving DecidableEq

def perform (self : ExportOutput) : Call → ExportM ExportOutput
  | .append batch => Prod.fst <$> appendBatch digestBytes a self batch
  | .terminalEvidence evidence => writeTerminalEvidence digestBytes a self evidence
  | .recoverTerminalOrphan => recoverTerminalOrphan digestBytes a self
  | .manifest bytes => writeManifest digestBytes a self bytes

inductive Event where
  | create (a : Attempt) (binding : ExportOutputBinding)
  | reopen (a : Attempt)
  | clone (handle : Nat)
  | call (a : Attempt) (handle : Nat) (call : Call)
deriving DecidableEq

def obtained : EStateM.Result ExportOutputFailureCode World ExportOutput → World
  | .ok output w => { w with handles := w.handles ++ [output] }
  | .error _ w => w

/-- A handle takes over what its call returns, and stays as it is if the call fails. -/
def updated (handle : Nat) : EStateM.Result ExportOutputFailureCode World ExportOutput → World
  | .ok output w => { w with handles := w.handles.set handle output }
  | .error _ w => w

def step : Event → Option World
  | .create a binding => some (obtained ((create a binding).run w))
  | .reopen a => some (obtained ((reopenUnlocked a).run w))
  | .clone handle => w.handles[handle]?.map fun output => { w with handles := w.handles ++ [output] }
  | .call a handle call =>
    w.handles[handle]?.map fun output => updated handle ((perform digestBytes a output call).run w)

end Calls

def readPublished (w : World) (sequence : Nat) : Except ExportOutputFailureCode PayloadRecord := do
  let output ← orFail w.published .storageUnavailable
  demand (sequence < output.nextSequence) .storageUnavailable
  scanRecords w.payload output
  orFail w.payload[sequence]? .integrityCorruption

end Positron.Export
