import Positron.Ledger.Fields
import Positron.Policy.Provenance
import Positron.Value.Layout

/-! Log records and the block codec of the log store. The version byte selects what older blocks did not carry.
Memory for the output is taken for granted. -/

namespace Positron.Logs
open Value Policy MachineInt ByteCodec Decoding Checks Ledger

inductive LogStoreFailure where
  | invalidInput
  | limitExceeded
  | malformedBlock
  | physicalScopeMismatch
  | kernel (code : LedgerFailureCode)
deriving DecidableEq

inductive AttributeRepresentation where
  | generic
  | schemaOverflow
deriving DecidableEq

structure StoredLogAttribute where
  representation : AttributeRepresentation
  occurrences : AttributeOccurrenceSet

def metadataTexts (metadata : LogMetadata) : List String :=
  [metadata.severityText, metadata.eventName, metadata.resourceSchemaUrl, metadata.scopeName,
    metadata.scopeVersion, metadata.scopeSchemaUrl]

def metadataDecodedSizeBytes (metadata : LogMetadata) : Nat :=
  ((metadataTexts metadata).map fun text => (utf8 text).length).sum

/-- A body that has passed the body limits. -/
structure LogBody where
  value : AttributeValue
  validated : ∃ size, validateAttributeValue release1Limits.dynamicValue release1Limits.logBodyBytes.1
    release1Limits.nestingDepth.1 value = .ok size

structure NativeParts where
  eventTime : EventTime
  observedTime : Option ObservedTime
  body : Option LogBody
  attributes : List StoredLogAttribute
  metadata : LogMetadata
  policy : CheckedProvenance

/-- The running totals of a record: its decoded bytes and the values in each namespace. -/
structure NativeRecordValidator where
  maximumOccurrences : Nat
  decodedLimit : Nat
  decodedBytes : Nat
  occurrencesByNamespace : AttributeNamespace → Nat

variable (v : NativeRecordValidator)

namespace NativeRecordValidator

def new (limits : ValueLimitSet) : NativeRecordValidator where
  maximumOccurrences := limits.attributesPerNamespace.1
  decodedLimit := limits.decodedBytes.1
  decodedBytes := 0
  occurrencesByNamespace := fun _ => 0

def addDecoded (bytes : Nat) : Except LogStoreFailure NativeRecordValidator :=
  if v.decodedBytes + bytes ≤ v.decodedLimit then .ok { v with decodedBytes := v.decodedBytes + bytes }
  else .error .limitExceeded

def observeBody (bytes : Nat) : Except LogStoreFailure NativeRecordValidator :=
  v.addDecoded bytes

def observeMetadata (bytes : Nat) : Except LogStoreFailure NativeRecordValidator :=
  v.addDecoded bytes

def countOccurrences (place : AttributeNamespace) (count : Nat) : Except LogStoreFailure NativeRecordValidator :=
  if v.occurrencesByNamespace place + count ≤ v.maximumOccurrences then
    .ok { v with occurrencesByNamespace := fun other =>
      if other = place then v.occurrencesByNamespace place + count else v.occurrencesByNamespace other }
  else .error .limitExceeded

def observeAttribute (place : AttributeNamespace)
    (keyBytes occurrenceCount occurrenceBytes : Nat) : Except LogStoreFailure NativeRecordValidator := do
  let v ← v.countOccurrences place occurrenceCount
  let v ← v.addDecoded keyBytes
  v.addDecoded occurrenceBytes

end NativeRecordValidator

def StoredLogAttribute.occurrenceBytes (stored : StoredLogAttribute) : Nat :=
  (stored.occurrences.occurrences.map AttributeValue.decodedSizeBytes).sum

def observeStored (stored : StoredLogAttribute) : Except LogStoreFailure NativeRecordValidator :=
  v.observeAttribute stored.occurrences.attributeNamespace (utf8 stored.occurrences.key).length
    stored.occurrences.occurrences.length stored.occurrenceBytes

def observeNative (limits : ValueLimitSet) (parts : NativeParts) :
    Except LogStoreFailure NativeRecordValidator := do
  let v ← (NativeRecordValidator.new limits).observeBody
    (parts.body.elim 0 fun body => body.value.decodedSizeBytes)
  let v ← parts.attributes.foldlM observeStored v
  v.observeMetadata (metadataDecodedSizeBytes parts.metadata)

/-- A record that has passed the check under the release profile. -/
structure LogRecord extends NativeParts where
  accepted : ∃ v, observeNative release1Limits toNativeParts = .ok v

def LogRecord.checkedNative (parts : NativeParts) : Except LogStoreFailure LogRecord :=
  match h : observeNative release1Limits parts with
  | .ok v => .ok ⟨parts, v, h⟩
  | .error e => .error e

theorem LogRecord.checkedNative_parts (record : LogRecord) :
    LogRecord.checkedNative record.toNativeParts = .ok record := by
  obtain ⟨v, hv⟩ := record.accepted
  unfold LogRecord.checkedNative
  split
  · rfl
  · rename_i e he
    rw [hv] at he
    cases he

structure StoredLogRecord where
  record : LogRecord
  ingestTime : IngestTime

def magic : Bytes := utf8 "PLOGBL01"

def legacyVersion : Nat := 1

def metadataVersion : Nat := 2

def markerVersion : Nat := 3

def maxBlockBytes : Nat := 1048576

structure CodecLimits where
  records : Nat
  attributeGroups : Nat
  occurrences : Nat
  nestingDepth : Nat
  bodyBytes : Nat
  recordBytes : Nat
  valueBytes : Nat
  keyBytes : Nat
  arrayEntries : Nat
  keyValueListEntries : Nat

def CodecLimits.release1 : CodecLimits where
  records := release1Limits.requestRecords.1
  attributeGroups := release1Limits.attributesPerNamespace.1 * 3
  occurrences := release1Limits.attributesPerNamespace.1
  nestingDepth := release1Limits.nestingDepth.1
  bodyBytes := release1Limits.logBodyBytes.1
  recordBytes := release1Limits.decodedBytes.1
  valueBytes := release1Limits.individualValueBytes.1
  keyBytes := release1Limits.dynamicValue.keyPathBytes.1
  arrayEntries := release1Limits.dynamicValue.arrayEntries.1
  keyValueListEntries := release1Limits.dynamicValue.keyValueListEntries.1

def boundedAdd (left right : Nat) : Except LogStoreFailure Nat :=
  if left + right ≤ maxBlockBytes then .ok (left + right) else .error .limitExceeded

mutual

def encodedLength : Nat → AttributeValue → Except LogStoreFailure Nat
  | _, .marker _ => .ok 3
  | depth, .truncated value _ => do boundedAdd 3 (← encodedLength depth value)
  | _, .null => .ok 1
  | _, .boolean _ => .ok 2
  | _, .signedInteger _ | _, .floatingPointBits _ => .ok 9
  | _, .string value => boundedAdd 5 (utf8 value).length
  | _, .bytes value => boundedAdd 5 value.length
  | depth, .array values =>
    if depth = 0 then .error .limitExceeded else encodedLengthValues (depth - 1) 3 values
  | depth, .keyValueList entries =>
    if depth = 0 then .error .limitExceeded else encodedLengthEntries (depth - 1) 3 entries

def encodedLengthValues (depth : Nat) : Nat → List AttributeValue → Except LogStoreFailure Nat
  | total, [] => .ok total
  | total, value :: values => do
    let total ← boundedAdd total (← encodedLength depth value)
    encodedLengthValues depth total values

def encodedLengthEntries (depth : Nat) : Nat → List (String × AttributeValue) → Except LogStoreFailure Nat
  | total, [] => .ok total
  | total, (key, value) :: entries => do
    let total ← boundedAdd total 4
    let total ← boundedAdd total (utf8 key).length
    let total ← boundedAdd total (← encodedLength depth value)
    encodedLengthEntries depth total entries

end

def metadataEncodedLength (metadata : LogMetadata) : Nat :=
  46 + (metadata.traceId.elim 0 fun _ => 16) + (metadata.spanId.elim 0 fun _ => 8) +
    metadataDecodedSizeBytes metadata

def addAttributeLength (depth total : Nat) (stored : StoredLogAttribute) : Except LogStoreFailure Nat := do
  let total ← boundedAdd total 8
  let total ← boundedAdd total (utf8 stored.occurrences.key).length
  encodedLengthValues depth total stored.occurrences.occurrences

def addRuleLength (total : Nat) (rule : String) : Except LogStoreFailure Nat := do
  let total ← boundedAdd total 4
  boundedAdd total (utf8 rule).length

def addBodyLength (depth total : Nat) : Option LogBody → Except LogStoreFailure Nat
  | none => .ok total
  | some body => do boundedAdd total (← encodedLength depth body.value)

def encodedRecordLength (depth : Nat) (record : LogRecord) : Except LogStoreFailure Nat := do
  let bytes ← boundedAdd (record.eventTime.instant.elim 1 fun _ => 9) (record.observedTime.elim 1 fun _ => 10)
  let bytes ← boundedAdd bytes (metadataEncodedLength record.metadata)
  let bytes ← boundedAdd bytes 9
  let bytes ← addBodyLength depth bytes record.body
  let bytes ← boundedAdd bytes 2
  let bytes ← record.attributes.foldlM (addAttributeLength depth) bytes
  let bytes ← boundedAdd bytes 42
  record.policy.appliedRules.foldlM addRuleLength bytes

def addRecordLength (total : Nat) (record : LogRecord) : Except LogStoreFailure Nat := do
  boundedAdd total (← encodedRecordLength CodecLimits.release1.nestingDepth record)

def encodedBlockLength (records : List LogRecord) : Except LogStoreFailure Nat := do
  demand (records ≠ [] ∧ records.length ≤ CodecLimits.release1.records) .limitExceeded
  records.foldlM addRecordLength 28

def nativeKindTag : AttributeValueKind → Except LogStoreFailure UInt8
  | .marker => .error .invalidInput
  | kind => .ok kind.tag

mutual

def encodeValue : Nat → AttributeValue → Encoder LogStoreFailure PUnit
  | _, .marker m => do
    put [8]
    put [m.action.tag]
    let tag ← check (nativeKindTag m.originalKind)
    put [tag]
  | depth, .truncated value action => do
    put [8]
    put [action.tag]
    let tag ← check (nativeKindTag value.kind)
    put [tag]
    encodeValue depth value
  | _, .null => put [0]
  | _, .boolean value => do
    put [1]
    put [if value then 1 else 0]
  | _, .signedInteger value => do
    put [2]
    put (i64Bytes value)
  | _, .floatingPointBits bits => do
    put [3]
    put (beBytes 8 bits.1)
  | _, .string value => do
    put [4]
    putSized .limitExceeded (utf8 value)
  | _, .bytes value => do
    put [5]
    putSized .limitExceeded value
  | depth, .array values => do
    check (demand (depth ≠ 0) .limitExceeded)
    put [6]
    putCount .limitExceeded values.length
    encodeValues (depth - 1) values
  | depth, .keyValueList entries => do
    check (demand (depth ≠ 0) .limitExceeded)
    put [7]
    putCount .limitExceeded entries.length
    encodeEntries (depth - 1) entries

def encodeValues (depth : Nat) : List AttributeValue → Encoder LogStoreFailure PUnit
  | [] => pure ⟨⟩
  | value :: values => do
    encodeValue depth value
    encodeValues depth values

def encodeEntries (depth : Nat) : List (String × AttributeValue) → Encoder LogStoreFailure PUnit
  | [] => pure ⟨⟩
  | (key, value) :: entries => do
    putSized .limitExceeded (utf8 key)
    encodeValue depth value
    encodeEntries depth entries

end

def encodeMetadata (metadata : LogMetadata) : Encoder LogStoreFailure PUnit := do
  put (i32Bytes metadata.severityNumber)
  putSized .limitExceeded (utf8 metadata.severityText)
  putSized .limitExceeded (utf8 metadata.eventName)
  putOption (fun id => put id.1) metadata.traceId
  putOption (fun id => put id.1) metadata.spanId
  put (beBytes 4 metadata.flags.1)
  put (beBytes 4 metadata.droppedAttributesCount.1)
  put (beBytes 4 metadata.resourceDroppedAttributesCount.1)
  putSized .limitExceeded (utf8 metadata.resourceSchemaUrl)
  putSized .limitExceeded (utf8 metadata.scopeName)
  putSized .limitExceeded (utf8 metadata.scopeVersion)
  put (beBytes 4 metadata.scopeDroppedAttributesCount.1)
  putSized .limitExceeded (utf8 metadata.scopeSchemaUrl)

/-- The instant stands behind the quality only when there is one. -/
def encodeEventTime (time : EventTime) : Encoder LogStoreFailure PUnit := do
  put [qualityTag time.quality]
  put (time.instant.elim [] i64Bytes)

def encodeObservedTime (time : ObservedTime) : Encoder LogStoreFailure PUnit := do
  put [qualityTag time.quality]
  put (i64Bytes time.instant)

def representationTag : AttributeRepresentation → UInt8
  | .generic => 1
  | .schemaOverflow => 2

def namespaceTag : AttributeNamespace → UInt8
  | .resource => 1
  | .instrumentationScope => 2
  | .record => 3
  | .stream => 4

def encodeAttribute (depth : Nat) (stored : StoredLogAttribute) : Encoder LogStoreFailure PUnit := do
  put [representationTag stored.representation]
  put [namespaceTag stored.occurrences.attributeNamespace]
  putSized .limitExceeded (utf8 stored.occurrences.key)
  putCount .limitExceeded stored.occurrences.occurrences.length
  encodeValues depth stored.occurrences.occurrences

def encodeRecord (depth : Nat) (stored : StoredLogRecord) : Encoder LogStoreFailure PUnit := do
  encodeEventTime stored.record.eventTime
  putOption encodeObservedTime stored.record.observedTime
  encodeMetadata stored.record.metadata
  put (i64Bytes stored.ingestTime)
  putOption (fun body => encodeValue depth body.value) stored.record.body
  putCount .limitExceeded stored.record.attributes.length
  putEach (encodeAttribute depth) stored.record.attributes
  encodePolicy .limitExceeded stored.record.policy

def encodeRecords (tenant : TenantId) (records : List StoredLogRecord) : Encoder LogStoreFailure PUnit := do
  put magic
  put (beBytes 2 markerVersion)
  put tenant.id.toBytes
  putCount .limitExceeded records.length
  putEach (encodeRecord CodecLimits.release1.nestingDepth) records

def encodeBlock (tenant : TenantId) (records : List StoredLogRecord) (encodedBytes : Nat) :
    Except LogStoreFailure Bytes := do
  demand (records ≠ [] ∧ records.length ≤ CodecLimits.release1.records) .limitExceeded
  let (_, output) ← encodeRecords tenant records []
  demand (output.length = encodedBytes) .invalidInput
  return output

/-- The remaining depth below a list. -/
def nextDepth (depth : Nat) : Except LogStoreFailure Nat :=
  if depth = 0 then .error .malformedBlock else .ok (depth - 1)

def takeFlag : Decoder LogStoreFailure Bool := do
  let flag ← takeU8 .malformedBlock
  if flag = 0 then pure false else if flag = 1 then pure true else check (.error .malformedBlock)

variable (limits : CodecLimits)

def takeKey : Decoder LogStoreFailure String := do
  let key ← takeText .malformedBlock limits.keyBytes
  check (demand (key.isEmpty = false) .malformedBlock)
  return key

def decodeEntry (value : Decoder LogStoreFailure AttributeValue) :
    Decoder LogStoreFailure (String × AttributeValue) := do
  let key ← takeKey limits
  let value ← value
  return (key, value)

/-- The kind a marker stands for: every kind but a marker has a tag. -/
def decodeNativeKind (tag : UInt8) : Except LogStoreFailure AttributeValueKind :=
  match AttributeValueKind.ofTag tag with
  | some .marker | none => .error .malformedBlock
  | some kind => .ok kind

def decodeMarker (child : Decoder LogStoreFailure AttributeValue) : Decoder LogStoreFailure AttributeValue := do
  let action ← check (orFail (MarkerAction.ofTag (← takeU8 .malformedBlock)) .malformedBlock)
  let originalKind ← check (decodeNativeKind (← takeU8 .malformedBlock))
  if action = .removed ∨ action = .redacted then pure (.marker ⟨originalKind, action⟩)
  else do
    let child ← child
    check (demand (child.kind = originalKind ∧ child.isNative ∧
      truncationActionValid action originalKind) .malformedBlock)
    return .truncated child action

/-- A value of any kind. Every level takes a byte, so the length of the input bounds the levels; a value with
no byte left is malformed. -/
def decodeValue (version valueBytes : Nat) : Nat → Nat → Decoder LogStoreFailure AttributeValue
  | 0, _ => check (.error .malformedBlock)
  | levels + 1, depth => do
    let tag ← takeU8 .malformedBlock
    match AttributeValueKind.ofTag tag with
    | some .null => pure .null
    | some .boolean => .boolean <$> takeFlag
    | some .signedInteger => .signedInteger <$> takeI64 .malformedBlock
    | some .floatingPoint => .floatingPointBits <$> takeU64 .malformedBlock
    | some .string => .string <$> takeText .malformedBlock valueBytes
    | some .bytes => .bytes <$> takeSized .malformedBlock valueBytes
    | some .array => do
      let next ← check (nextDepth depth)
      let count ← takeCount .malformedBlock limits.arrayEntries
      .array <$> takeMany (decodeValue version valueBytes levels next) count
    | some .keyValueList => do
      let next ← check (nextDepth depth)
      let count ← takeCount .malformedBlock limits.keyValueListEntries
      .keyValueList <$> takeMany (decodeEntry limits (decodeValue version valueBytes levels next)) count
    | some .marker =>
      if markerVersion ≤ version then decodeMarker (decodeValue version valueBytes levels depth)
      else check (.error .malformedBlock)
    | none => check (.error .malformedBlock)

def takeValue (version valueBytes : Nat) : Decoder LogStoreFailure AttributeValue :=
  fun input => decodeValue limits version valueBytes input.length limits.nestingDepth input

def decodeEventTime : Decoder LogStoreFailure EventTime := do
  let quality ← check (orFail (decodeQuality (← takeU8 .malformedBlock)) .malformedBlock)
  if quality = .missing then pure .missing
  else do
    let instant ← takeI64 .malformedBlock
    check (orFail (EventTime.newReceived instant quality) .malformedBlock)

def decodeObservedTime : Decoder LogStoreFailure ObservedTime := do
  let quality ← check (orFail (decodeQuality (← takeU8 .malformedBlock)) .malformedBlock)
  let instant ← takeI64 .malformedBlock
  check (orFail (ObservedTime.received instant quality) .malformedBlock)

def decodeFields : Decoder LogStoreFailure LogMetadata := do
  let severityNumber ← takeI32 .malformedBlock
  let severityText ← takeText .malformedBlock limits.recordBytes
  let eventName ← takeText .malformedBlock limits.recordBytes
  let traceId ← takeOption .malformedBlock (takeArray .malformedBlock 16)
  let spanId ← takeOption .malformedBlock (takeArray .malformedBlock 8)
  let flags ← takeU32 .malformedBlock
  let droppedAttributesCount ← takeU32 .malformedBlock
  let resourceDroppedAttributesCount ← takeU32 .malformedBlock
  let resourceSchemaUrl ← takeText .malformedBlock limits.recordBytes
  let scopeName ← takeText .malformedBlock limits.recordBytes
  let scopeVersion ← takeText .malformedBlock limits.recordBytes
  let scopeDroppedAttributesCount ← takeU32 .malformedBlock
  let scopeSchemaUrl ← takeText .malformedBlock limits.recordBytes
  return { severityNumber, severityText, eventName, traceId, spanId, flags, droppedAttributesCount,
           resourceDroppedAttributesCount, resourceSchemaUrl, scopeName, scopeVersion,
           scopeDroppedAttributesCount, scopeSchemaUrl }

theorem unspecified_severity_bounds : -2 ^ 31 ≤ (0 : Int) ∧ (0 : Int) < 2 ^ 31 := by decide

def emptyMetadata : LogMetadata where
  severityNumber := ⟨0, unspecified_severity_bounds⟩
  severityText := ""
  eventName := ""
  traceId := none
  spanId := none
  flags := Unsigned.zero 32
  droppedAttributesCount := Unsigned.zero 32
  resourceDroppedAttributesCount := Unsigned.zero 32
  resourceSchemaUrl := ""
  scopeName := ""
  scopeVersion := ""
  scopeDroppedAttributesCount := Unsigned.zero 32
  scopeSchemaUrl := ""

variable (version : Nat)

def decodeMetadata : Decoder LogStoreFailure LogMetadata :=
  if version = legacyVersion then pure emptyMetadata else decodeFields limits

def LogBody.validate (value : AttributeValue) : Option LogBody :=
  match h : validateAttributeValue release1Limits.dynamicValue release1Limits.logBodyBytes.1
    release1Limits.nestingDepth.1 value with
  | .ok size => some ⟨value, size, h⟩
  | .error _ => none

def decodeBody : Decoder LogStoreFailure (Option LogBody) :=
  takeOption .malformedBlock do
    let value ← takeValue limits version limits.bodyBytes
    check (orFail (LogBody.validate value) .malformedBlock)

def decodeRepresentation (tag : UInt8) : Option AttributeRepresentation :=
  if tag = 1 then some .generic else if tag = 2 then some .schemaOverflow else none

/-- Blocks without metadata know no streams. -/
def decodeNamespace (tag : UInt8) (version : Nat) : Option AttributeNamespace :=
  if tag = 1 then some .resource
  else if tag = 2 then some .instrumentationScope
  else if tag = 3 then some .record
  else if tag = 4 ∧ (version = metadataVersion ∨ version = markerVersion) then some .stream
  else none

def decodeAttribute : Decoder LogStoreFailure StoredLogAttribute := do
  let representation ← check (orFail (decodeRepresentation (← takeU8 .malformedBlock)) .malformedBlock)
  let place ← check (orFail (decodeNamespace (← takeU8 .malformedBlock) version) .malformedBlock)
  let key ← takeKey limits
  let count ← takeCount .malformedBlock limits.occurrences
  check (demand (count ≠ 0) .malformedBlock)
  let values ← takeMany (takeValue limits version limits.valueBytes) count
  let occurrences ← check (orFail (AttributeOccurrenceSet.validate place key values) .malformedBlock)
  return ⟨representation, occurrences⟩

def decodeAttributes : Decoder LogStoreFailure (List StoredLogAttribute) := do
  let count ← takeCount .malformedBlock limits.attributeGroups
  takeMany (decodeAttribute limits version) count

/-- The parts are checked before the provenance is built, which checks them again. -/
def decodeCheckedPolicy : Decoder LogStoreFailure CheckedProvenance := do
  let parts ← takeParts .malformedBlock
  check (demand (validateParts parts.generation parts.digest parts.appliedRules) .malformedBlock)
  check (orFail (CheckedProvenance.new parts.generation parts.digest parts.appliedRules) .malformedBlock)

/-- A record that fails the check of its parts is a malformed one here. -/
def checkedAsDecoded (parts : NativeParts) : Except LogStoreFailure LogRecord :=
  (LogRecord.checkedNative parts).mapError fun _ => .malformedBlock

def decodeRecord : Decoder LogStoreFailure (LogRecord × UnixNanoseconds) := do
  let eventTime ← decodeEventTime
  let observedTime ← takeOption .malformedBlock decodeObservedTime
  let metadata ← decodeMetadata limits version
  let ingestTime ← takeI64 .malformedBlock
  let body ← decodeBody limits version
  let attributes ← decodeAttributes limits version
  let policy ← decodeCheckedPolicy
  let record ← check (checkedAsDecoded { eventTime, observedTime, body, attributes, metadata, policy })
  return (record, ingestTime)

/-! The records beyond the limit of a read are checked without being built. -/

/-- The sizes of a value that is only checked. Keys count as decoded bytes and not as value bytes. -/
structure ValueSummary where
  valueBytes : Nat
  decodedBytes : Nat
  policyRoot : Bool

def ValueSummary.scalar (bytes : Nat) : ValueSummary := ⟨bytes, bytes, false⟩

def ValueSummary.list (summaries : List ValueSummary) : ValueSummary :=
  ⟨(summaries.map ValueSummary.valueBytes).sum, (summaries.map ValueSummary.decodedBytes).sum, false⟩

def validateEntry (value : Decoder LogStoreFailure ValueSummary) : Decoder LogStoreFailure ValueSummary := do
  let key ← takeKey limits
  let summary ← value
  return { summary with decodedBytes := (utf8 key).length + summary.decodedBytes }

def validateMarker (child : Decoder LogStoreFailure ValueSummary) : Decoder LogStoreFailure ValueSummary := do
  let action ← check (orFail (MarkerAction.ofTag (← takeU8 .malformedBlock)) .malformedBlock)
  let originalKind ← check (decodeNativeKind (← takeU8 .malformedBlock))
  if action = .removed ∨ action = .redacted then pure ⟨0, 0, true⟩
  else do
    let summary ← child
    check (demand (summary.policyRoot = false ∧ truncationActionValid action originalKind) .malformedBlock)
    return { summary with policyRoot := true }

def checkSummary (valueBytes : Nat) (summary : ValueSummary) : Decoder LogStoreFailure ValueSummary := do
  check (demand (summary.valueBytes ≤ valueBytes) .malformedBlock)
  return summary

def validateValue (version valueBytes : Nat) : Nat → Nat → Decoder LogStoreFailure ValueSummary
  | 0, _ => check (.error .malformedBlock)
  | levels + 1, depth => do
    let tag ← takeU8 .malformedBlock
    match AttributeValueKind.ofTag tag with
    | some .null => checkSummary valueBytes (.scalar 0)
    | some .boolean => do
      let _ ← takeFlag
      checkSummary valueBytes (.scalar 1)
    | some .signedInteger => do
      let _ ← takeI64 .malformedBlock
      checkSummary valueBytes (.scalar 8)
    | some .floatingPoint => do
      let _ ← takeU64 .malformedBlock
      checkSummary valueBytes (.scalar 8)
    | some .string => do
      let text ← takeText .malformedBlock valueBytes
      checkSummary valueBytes (.scalar (utf8 text).length)
    | some .bytes => do
      let bytes ← takeSized .malformedBlock valueBytes
      checkSummary valueBytes (.scalar bytes.length)
    | some .array => do
      let next ← check (nextDepth depth)
      let count ← takeCount .malformedBlock limits.arrayEntries
      let summaries ← takeMany (validateValue version valueBytes levels next) count
      checkSummary valueBytes (.list summaries)
    | some .keyValueList => do
      let next ← check (nextDepth depth)
      let count ← takeCount .malformedBlock limits.keyValueListEntries
      let summaries ← takeMany (validateEntry limits (validateValue version valueBytes levels next)) count
      checkSummary valueBytes (.list summaries)
    | some .marker =>
      if markerVersion ≤ version then do
        let summary ← validateMarker (validateValue version valueBytes levels depth)
        checkSummary valueBytes summary
      else check (.error .malformedBlock)
    | none => check (.error .malformedBlock)

def takeSummary (version valueBytes : Nat) : Decoder LogStoreFailure ValueSummary :=
  fun input => validateValue limits version valueBytes input.length limits.nestingDepth input

def asMalformed (result : Except LogStoreFailure NativeRecordValidator) :
    Except LogStoreFailure NativeRecordValidator := result.mapError fun _ => .malformedBlock

def validateMetadata : Decoder LogStoreFailure Nat :=
  if version = legacyVersion then pure 0 else metadataDecodedSizeBytes <$> decodeFields limits

def validateAttribute (v : NativeRecordValidator) : Decoder LogStoreFailure NativeRecordValidator := do
  let _ ← check (orFail (decodeRepresentation (← takeU8 .malformedBlock)) .malformedBlock)
  let place ← check (orFail (decodeNamespace (← takeU8 .malformedBlock) version) .malformedBlock)
  let key ← takeKey limits
  let count ← takeCount .malformedBlock limits.occurrences
  check (demand (count ≠ 0) .malformedBlock)
  let summaries ← takeMany (takeSummary limits version limits.valueBytes) count
  check (asMalformed (v.observeAttribute place (utf8 key).length count
    (summaries.map ValueSummary.decodedBytes).sum))

def validateAttributes : Nat → NativeRecordValidator → Decoder LogStoreFailure NativeRecordValidator
  | 0, v => pure v
  | count + 1, v => do
    let v ← validateAttribute limits version v
    validateAttributes count v

def validateStructure : Decoder LogStoreFailure UnixNanoseconds := do
  let _ ← decodeEventTime
  let _ ← takeOption .malformedBlock decodeObservedTime
  let metadataBytes ← validateMetadata limits version
  let v ← check (asMalformed ((NativeRecordValidator.new release1Limits).observeMetadata metadataBytes))
  let ingestTime ← takeI64 .malformedBlock
  let body ← takeOption .malformedBlock (takeSummary limits version limits.bodyBytes)
  let v ← check (asMalformed (v.observeBody (body.elim 0 ValueSummary.decodedBytes)))
  let count ← takeCount .malformedBlock limits.attributeGroups
  let _ ← validateAttributes limits version count v
  let parts ← takeParts .malformedBlock
  check (demand (validateParts parts.generation parts.digest parts.appliedRules) .malformedBlock)
  return ingestTime

def decodeBlockHeader (expectedTenant : TenantId) : Decoder LogStoreFailure (Nat × Nat) := do
  let start ← take .malformedBlock magic.length
  check (demand (start = magic) .malformedBlock)
  let version ← takeU16 .malformedBlock
  check (demand (version.1 = legacyVersion ∨ version.1 = metadataVersion ∨ version.1 = markerVersion)
    .malformedBlock)
  let tenant ← take .malformedBlock 16
  check (demand (tenant = expectedTenant.id.toBytes) .physicalScopeMismatch)
  let count ← takeCount .malformedBlock CodecLimits.release1.records
  check (demand (count ≠ 0) .malformedBlock)
  return (version.1, count)

def confirmedTime (block : CommittedBlock) (encoded : UnixNanoseconds) : Except LogStoreFailure IngestTime :=
  (block.observeIngestTime encoded).mapError .kernel

def decodeStored (block : CommittedBlock) (version : Nat) : Decoder LogStoreFailure StoredLogRecord := do
  let (record, encoded) ← decodeRecord CodecLimits.release1 version
  let ingestTime ← check (confirmedTime block encoded)
  return ⟨record, ingestTime⟩

def validateForObservation (block : CommittedBlock) (version : Nat) : Decoder LogStoreFailure IngestTime := do
  let encoded ← validateStructure CodecLimits.release1 version
  check (confirmedTime block encoded)

/-- The records after the first `skip`, up to `limit` of them. Those before and behind are checked all the
same. -/
def decodeRecords (expectedTenant : TenantId) (block : CommittedBlock) (skip limit : Nat) :
    Decoder LogStoreFailure (List StoredLogRecord) := do
  let (version, count) ← decodeBlockHeader expectedTenant
  let _ ← takeMany (validateForObservation block version) (min skip count)
  let records ← takeMany (decodeStored block version) (min (count - min skip count) limit)
  let _ ← takeMany (validateForObservation block version)
    (count - (min skip count + min (count - min skip count) limit))
  finish .malformedBlock
  return records

def decodeBlock (expectedTenant : TenantId) (block : CommittedBlock) (limit : Nat) :
    Except LogStoreFailure (List StoredLogRecord) :=
  decode (decodeRecords expectedTenant block 0 limit) block.payload

end Positron.Logs
