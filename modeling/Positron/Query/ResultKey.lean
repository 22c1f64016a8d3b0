import Positron.Query.Scan
import Positron.Value.CanonicalCode

/-! The bytes under the digests of result batches. The key of a result row: where a page or a historical batch
ended, and the order of rows. -/

namespace Positron.Query
open MachineInt ByteCodec Checks Value

abbrev Digest := FixedBytes 32

def noBatch : Digest := ⟨List.replicate 32 0, List.length_replicate⟩

inductive CorrelationOutcome where
  | missingLogTraceId
  | missingTraceTarget (traceId : FixedBytes 16) (spanId : Option (FixedBytes 8))
  | matched (traceId : FixedBytes 16) (spanId : Option (FixedBytes 8))
  | ambiguous (traceId : FixedBytes 16) (spanId : Option (FixedBytes 8))
deriving DecidableEq

def projectionColumnTag : ProjectionColumn → UInt8
  | .body => 0
  | .queryTime => 1
  | .eventTime => 3
  | .ingestTime => 4
  | .commitPosition => 2
  | .attribute _ => 8

def columnTypeTag : ProjectionColumn → UInt8
  | .body => 0
  | .queryTime => 6
  | .eventTime => 7
  | .ingestTime => 8
  | .commitPosition => 2
  | .attribute _ => 9

def orderDirectionTag : OrderDirection → UInt8
  | .ascending => 0
  | .descending => 1

def pathContract (path : SchemaPath) : Bytes :=
  namespaceTag path.attributeNamespace :: (beBytes 8 path.segments.length ++
    path.segments.flatMap fun segment => lengthPrefixed (utf8 segment))

def projectionContract : ProjectionColumn → Bytes
  | .body => [projectionColumnTag .body, columnTypeTag .body, 1]
  | .attribute path => [projectionColumnTag (.attribute path), columnTypeTag (.attribute path), 1] ++ pathContract path
  | column => [projectionColumnTag column, columnTypeTag column, 0]

def axisTags : TemporalAxis → Bytes
  | .queryTime => [4, 6]
  | .eventTime => [5, 7]
  | .ingestTime => [7, 8]

def resultContract (plan : LogicalPlan) : Bytes :=
  match plan.aggregate with
  | some columns =>
    beBytes 8 (columns.length + 1) ++ columns.flatMap projectionContract ++ [3, 4, 0] ++ beBytes 8 columns.length ++
      columns.flatMap fun column => projectionContract column ++ [orderDirectionTag .ascending]
  | none =>
    beBytes 8 plan.projection.length ++ plan.projection.flatMap projectionContract ++ beBytes 8 3 ++
      (axisTags plan.axis ++ [orderDirectionTag plan.ordering.primaryDirection]) ++
      [2, 2, orderDirectionTag plan.ordering.commitDirection] ++
      [6, 3, orderDirectionTag plan.ordering.commitDirection]

def queryTimeProvenanceTag : QueryTimeProvenance → UInt8
  | .event => 0
  | .observed => 1
  | .ingest => 2

def sourceTimeQualityTag : SourceTimeQuality → UInt8
  | .usable => 0
  | .missing => 1
  | .zero => 2
  | .outlier => 3
  | .contradictory => 4

def flaggedBytes : Option Bytes → Bytes
  | none => [0]
  | some bytes => 1 :: bytes

def queryTimeBytes (time : QueryTime) : Bytes := i64Bytes time.instant ++ [queryTimeProvenanceTag time.provenance]

def eventTimeBytes (time : EventTime) : Bytes :=
  flaggedBytes (time.instant.map i64Bytes) ++ [sourceTimeQualityTag time.quality]

/-- A value that the plan has selected must be there. -/
def selected {α : Type} (isSelected : Bool) (value : Option α) (bytes : α → Bytes) : Except QueryFailureCode Bytes :=
  if isSelected then do
    let value ← orFail value .internal
    return 1 :: bytes value
  else .ok [0]

def canonical (encoded : Except DomainFailure Bytes) : Except QueryFailureCode Bytes :=
  encoded.mapError fun _ => .resourceExhausted

def bodyBytes (body : Option ValidatedAttributeValue) : Except QueryFailureCode Bytes :=
  match body with
  | none => .ok [0]
  | some value => do return 1 :: (← canonical (visitCanonicalEncoding value.inner))

def projectionBytes : AttributeProjection → Except QueryFailureCode Bytes
  | .intrinsic => .ok []
  | .attribute none => .ok [0]
  | .attribute (some set) => do return 1 :: (← canonical set.visitCanonicalEncoding)

def projectionsBytes : List AttributeProjection → Except QueryFailureCode Bytes
  | [] => .ok []
  | projection :: projections => do return (← projectionBytes projection) ++ (← projectionsBytes projections)

def orderKeyBytes (record : QueryRecord) : Bytes :=
  i64Bytes record.orderingTime ++ (beBytes 8 record.commitPosition.1 ++ beBytes 2 record.recordOrdinal.1)

def countBytes (count : Option U64) : Bytes := flaggedBytes (count.map fun count => beBytes 8 count.1)

def recordBytes (record : QueryRecord) : Except QueryFailureCode Bytes := do
  let body ← bodyBytes record.body
  let queryTime ← selected record.queryTimeSelected record.queryTime queryTimeBytes
  let eventTime ← selected record.eventTimeSelected record.eventTime eventTimeBytes
  let ingestTime ← selected record.ingestTimeSelected record.ingestTime i64Bytes
  let attributes ← projectionsBytes record.attributes
  return orderKeyBytes record ++ (body ++ (queryTime ++ (eventTime ++ (ingestTime ++
    (countBytes record.count ++ attributes)))))

def correlationTarget (traceId : FixedBytes 16) (spanId : Option (FixedBytes 8)) : Bytes :=
  traceId.1 ++ flaggedBytes (spanId.map fun id => id.1)

def correlationBytes : CorrelationOutcome → Bytes
  | .missingLogTraceId => [0]
  | .missingTraceTarget traceId spanId => 1 :: correlationTarget traceId spanId
  | .matched traceId spanId => 2 :: correlationTarget traceId spanId
  | .ambiguous traceId spanId => 3 :: correlationTarget traceId spanId

def rowsBytes : List QueryRecord → List CorrelationOutcome → Except QueryFailureCode Bytes
  | [], _ => .ok []
  | record :: records, outcomes => do
    let row ← recordBytes record
    let rest ← rowsBytes records outcomes.tail
    return row ++ ((outcomes.head?.map correlationBytes).getD [] ++ rest)

def batchBytes (prior : Digest) (sequence : Nat) (plan : LogicalPlan) (records : List QueryRecord)
    (correlations : Option (List CorrelationOutcome)) : Except QueryFailureCode Bytes := do
  demand (correlations.all fun outcomes => outcomes.length == records.length) .internal
  let rows ← rowsBytes records (correlations.getD [])
  return prior.1 ++ beBytes 8 sequence ++ resultContract plan ++ beBytes 8 records.length ++
    [if correlations.isSome then 1 else 0] ++ rows

def batchDigest (hash : Bytes → Digest) (prior : Digest) (sequence : Nat) (plan : LogicalPlan)
    (records : List QueryRecord) (correlations : Option (List CorrelationOutcome)) :
    Except QueryFailureCode Digest :=
  hash <$> batchBytes prior sequence plan records correlations

structure OrderKey where
  orderingTime : UnixNanoseconds
  commitPosition : CommitPosition
  recordOrdinal : RecordOrdinal
deriving DecidableEq

def QueryRecord.orderKey (record : QueryRecord) : OrderKey :=
  ⟨record.orderingTime, record.commitPosition, record.recordOrdinal⟩

def compareOrderKeys (ordering : OrderSpec) (left right : OrderKey) : Ordering :=
  (ordering.primaryDirection.apply (compare left.orderingTime.1 right.orderingTime.1)).then
    ((ordering.commitDirection.apply (compare left.commitPosition.1 right.commitPosition.1)).then
      (ordering.commitDirection.apply (compare left.recordOrdinal.1 right.recordOrdinal.1)))

def compareRecords (left right : QueryRecord) (ordering : OrderSpec) : Ordering :=
  compareOrderKeys ordering left.orderKey right.orderKey

inductive ResultResumeKind where
  | raw
  | aggregate
deriving DecidableEq

structure ResultResumeKey where
  kind : ResultResumeKind
  key : OrderKey
  resultDigest : Digest
deriving DecidableEq

namespace ResultResumeKey

def fromRecord (record : QueryRecord) (resultDigest : Digest) : ResultResumeKey where
  kind := if record.count.isSome then .aggregate else .raw
  key := record.orderKey
  resultDigest := resultDigest

def compareOrdering (left right : ResultResumeKey) (ordering : OrderSpec) : Ordering :=
  compareOrderKeys ordering left.key right.key

end ResultResumeKey

structure HistoricalTotalKey where
  result : ResultResumeKey
  source : VirtualShardId
deriving DecidableEq

namespace HistoricalTotalKey

def fromRecord (record : QueryRecord) (source : VirtualShardId) : HistoricalTotalKey :=
  ⟨.fromRecord record noBatch, source⟩

def compare (left right : HistoricalTotalKey) (ordering : OrderSpec) : Ordering :=
  (left.result.compareOrdering right.result ordering).then (Ord.compare left.source.1.1 right.source.1.1)

end HistoricalTotalKey

end Positron.Query
