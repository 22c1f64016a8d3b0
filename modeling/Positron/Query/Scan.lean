import Mathlib.Data.List.OfFn
import Mathlib.Data.Prod.Lex
import Positron.Logs.Codec

/-! What a query asks for, and the scan of a snapshot in commit order. The search predicates, the body
transforms and the walk along an attribute path are functions here: a plan is any choice of them. -/

namespace Positron.Query
open MachineInt Value Logs List

inductive QueryFailureCode where
  | invalidBudget
  | budgetExhausted
  | invalidCursor
  | resourceExhausted
  | unsupportedQuery
  | storeUnavailable
  | internal
deriving DecidableEq

abbrev RecordOrdinal := {n : Nat // n ≤ 1023}

theorem first_ordinal_bound : 0 ≤ 1023 := Nat.zero_le _

def RecordOrdinal.first : RecordOrdinal := ⟨0, first_ordinal_bound⟩

def originPosition : CommitPosition := Unsigned.zero 64

structure ScannedLogRecord where
  stored : StoredLogRecord
  commitPosition : CommitPosition
  recordOrdinal : RecordOrdinal

inductive QueryTimeProvenance where
  | event
  | observed
  | ingest
deriving DecidableEq

structure QueryTime where
  instant : UnixNanoseconds
  provenance : QueryTimeProvenance
deriving DecidableEq

def QueryTime.forLog (eventTime : EventTime) (observedTime : Option ObservedTime) (ingestTime : IngestTime) :
    QueryTime :=
  match eventTime.usableInstant, observedTime.bind (·.usableInstant) with
  | some instant, _ => ⟨instant, .event⟩
  | none, some instant => ⟨instant, .observed⟩
  | none, none => ⟨ingestTime, .ingest⟩

inductive TemporalAxis where
  | queryTime
  | eventTime
  | ingestTime
deriving DecidableEq

structure TemporalRange where
  startNanoseconds : I64
  endNanoseconds : I64
  nonempty : startNanoseconds.1 < endNanoseconds.1

def TemporalRange.contains (range : TemporalRange) (instant : UnixNanoseconds) : Bool :=
  decide (range.startNanoseconds.1 ≤ instant.1) && decide (instant.1 < range.endNanoseconds.1)

inductive OrderDirection where
  | ascending
  | descending
deriving DecidableEq

def OrderDirection.apply : OrderDirection → Ordering → Ordering
  | .ascending, ordering => ordering
  | .descending, ordering => ordering.swap

structure OrderSpec where
  primaryDirection : OrderDirection
  commitDirection : OrderDirection
deriving DecidableEq

/-- Equality with a value and the text searches look at the body, an attribute predicate at the record. -/
inductive FilterPredicate where
  | body (isMatch : AttributeValue → Bool)
  | attributeEquals (isMatch : StoredLogRecord → Bool)

structure SchemaPath where
  attributeNamespace : AttributeNamespace
  segments : List String
deriving DecidableEq

inductive ProjectionColumn where
  | body
  | queryTime
  | eventTime
  | ingestTime
  | commitPosition
  | attribute (path : SchemaPath)
deriving DecidableEq

structure LogicalPlan where
  correlated : Bool
  axis : TemporalAxis
  range : TemporalRange
  limit : U16
  filter : Option FilterPredicate
  projection : List ProjectionColumn
  /-- The columns that rows are grouped by, for a plan that counts. -/
  aggregate : Option (List ProjectionColumn)
  ordering : OrderSpec
  transform : Option (ValidatedAttributeValue → Except QueryFailureCode ValidatedAttributeValue)
  projectAttribute : SchemaPath → StoredLogRecord → Except QueryFailureCode (Option AttributeOccurrenceSet)
  /-- The parser takes no column twice. -/
  groupDistinct : ∀ columns, aggregate = some columns → columns.Nodup

variable (plan : LogicalPlan)

namespace LogicalPlan

def selectedColumns : List ProjectionColumn := plan.aggregate.getD plan.projection

def selects (column : ProjectionColumn) : Bool := decide (column ∈ plan.selectedColumns)

def orderingTime (record : ScannedLogRecord) (queryTime : QueryTime) : Option UnixNanoseconds :=
  match plan.axis with
  | .queryTime => some queryTime.instant
  | .eventTime => record.stored.record.eventTime.instant
  | .ingestTime => some record.stored.ingestTime

end LogicalPlan

/-- A column's place in a row: the row's own fields, or the values of an attribute. -/
inductive AttributeProjection where
  | intrinsic
  | attribute (value : Option AttributeOccurrenceSet)

structure QueryRecord where
  body : Option ValidatedAttributeValue
  bodySelected : Bool
  queryTime : Option QueryTime
  eventTime : Option EventTime
  ingestTime : Option IngestTime
  orderingTime : UnixNanoseconds
  commitPosition : CommitPosition
  recordOrdinal : RecordOrdinal
  queryTimeSelected : Bool
  eventTimeSelected : Bool
  ingestTimeSelected : Bool
  commitPositionSelected : Bool
  count : Option U64
  attributes : List AttributeProjection
  replayed : Bool

def QueryRecord.markReplayed (record : QueryRecord) : QueryRecord := { record with replayed := true }

theorem body_validated (body : LogBody) : ∃ limits valueBytes remainingDepth size,
    validateAttributeValue limits valueBytes remainingDepth body.value = .ok size := by
  obtain ⟨size, hsize⟩ := body.validated
  exact ⟨_, _, _, size, hsize⟩

def storedBody (record : StoredLogRecord) : Option ValidatedAttributeValue :=
  record.record.body.map fun body => ⟨body.value, body_validated body⟩

def LogicalPlan.transformedBody (record : StoredLogRecord) :
    Except QueryFailureCode (Option ValidatedAttributeValue) :=
  match plan.transform, storedBody record with
  | some transform, some body => some <$> transform body
  | _, body => .ok body

/-- A record without a body passes no filter on the body. -/
def FilterPredicate.matched (filter : FilterPredicate) (record : StoredLogRecord)
    (body : Option ValidatedAttributeValue) : Bool :=
  match filter with
  | .body isMatch => body.any fun value => isMatch value.inner
  | .attributeEquals isMatch => isMatch record

def LogicalPlan.project (record : StoredLogRecord) : ProjectionColumn → Except QueryFailureCode AttributeProjection
  | .attribute path => .attribute <$> plan.projectAttribute path record
  | _ => .ok .intrinsic

def LogicalPlan.row (record : ScannedLogRecord) (queryTime : QueryTime)
    (orderingTime : UnixNanoseconds) (body : Option ValidatedAttributeValue) (attributes : List AttributeProjection) :
    QueryRecord where
  body := if plan.selects .body then body else none
  bodySelected := plan.selects .body
  queryTime := some queryTime
  eventTime := some record.stored.record.eventTime
  ingestTime := some record.stored.ingestTime
  orderingTime := orderingTime
  commitPosition := record.commitPosition
  recordOrdinal := record.recordOrdinal
  queryTimeSelected := plan.selects .queryTime
  eventTimeSelected := plan.selects .eventTime
  ingestTimeSelected := plan.selects .ingestTime
  commitPositionSelected := plan.selects .commitPosition
  count := none
  attributes := attributes
  replayed := false

def queryRecord (predicateApplied : Bool) (record : ScannedLogRecord) :
    Except QueryFailureCode (Option QueryRecord) :=
  let queryTime := QueryTime.forLog record.stored.record.eventTime record.stored.record.observedTime
    record.stored.ingestTime
  match plan.orderingTime record queryTime with
  | none => .ok none
  | some orderingTime =>
    if plan.range.contains orderingTime = false then .ok none
    else do
      let body ← plan.transformedBody record.stored
      if predicateApplied = false ∧ plan.filter.any (fun filter => !filter.matched record.stored body) then .ok none
      else do
        let attributes ← plan.selectedColumns.mapM (plan.project record.stored)
        return some (plan.row record queryTime orderingTime body attributes)

structure LogBlock where
  position : CommitPosition
  records : List StoredLogRecord
  positive : 0 < position.1
  nonempty : records ≠ []
  count : records.length ≤ 1024

/-- The committed blocks of a shard up to its frontier. -/
structure LogSnapshot where
  frontier : CommitPosition
  blocks : List LogBlock
  increasing : blocks.Pairwise fun a b => a.position.1 < b.position.1
  bounded : ∀ block ∈ blocks, block.position.1 ≤ frontier.1

inductive ScanAfter where
  | position (after : CommitPosition)
  | record (after : CommitPosition) (ordinal : RecordOrdinal)

structure LogScan where
  limit : Nat
  after : Option ScanAfter
  frontier : CommitPosition

variable (scan : LogScan)

def includesBlock (position : CommitPosition) : Bool :=
  (match scan.after with
    | some (.record after _) => decide (after.1 ≤ position.1)
    | some (.position after) => decide (after.1 < position.1)
    | none => true) && decide (position.1 ≤ scan.frontier.1)

def skippedRecords (position : CommitPosition) : Nat :=
  match scan.after with
  | some (.record after ordinal) => if after = position then ordinal.1 + 1 else 0
  | _ => 0

variable (block : LogBlock)

namespace LogBlock

theorem index_le_maximum (index : Fin block.records.length) : index.1 ≤ 1023 := by
  have hcount := block.count
  omega

def identified : List ScannedLogRecord :=
  List.ofFn fun index => ⟨block.records.get index, block.position, ⟨index.1, block.index_le_maximum index⟩⟩

def decodeAfter (skipped limit : Nat) : List ScannedLogRecord :=
  (block.identified.drop skipped).take limit

end LogBlock

/-- The walk over the blocks, with the records taken so far. The flag says that nothing was left out. -/
def scanBlocks : List ScannedLogRecord → List LogBlock → List ScannedLogRecord × Bool
  | records, [] => (records, true)
  | records, block :: blocks =>
    if includesBlock scan block.position = false then scanBlocks records blocks
    else
      let remaining := scan.limit - records.length
      if remaining = 0 then (records, false)
      else
        let skipped := skippedRecords scan block.position
        if remaining < block.records.length - skipped then (records ++ block.decodeAfter skipped remaining, false)
        else scanBlocks (records ++ block.decodeAfter skipped remaining) blocks

variable (snapshot : LogSnapshot)

def executeScan (scan : LogScan) : List ScannedLogRecord × Bool :=
  scanBlocks scan [] snapshot.blocks

section Identity

def ScannedLogRecord.identity (record : ScannedLogRecord) : Nat ×ₗ Nat :=
  toLex (record.commitPosition.1, record.recordOrdinal.1)

/-- The last identity that is passed over. Behind a position stand all records of its block. -/
def ScanAfter.bound : ScanAfter → Nat ×ₗ Nat
  | .position after => toLex (after.1, 1023)
  | .record after ordinal => toLex (after.1, ordinal.1)

def LogScan.admitted (record : ScannedLogRecord) : Bool :=
  (scan.after.all fun after => decide (after.bound < record.identity)) &&
    decide (record.commitPosition.1 ≤ scan.frontier.1)

def LogSnapshot.records : List ScannedLogRecord :=
  snapshot.blocks.flatMap LogBlock.identified

variable {a b c d : Nat} {record : ScannedLogRecord}

theorem lex_lt_iff : toLex (a, b) < toLex (c, d) ↔ a < c ∨ a = c ∧ b < d := Prod.Lex.toLex_lt_toLex

theorem lex_le_iff : toLex (a, b) ≤ toLex (c, d) ↔ a < c ∨ a = c ∧ b ≤ d := Prod.Lex.toLex_le_toLex

theorem identity_lt_iff {a b : ScannedLogRecord} :
    a.identity < b.identity ↔ a.commitPosition.1 < b.commitPosition.1 ∨
      a.commitPosition.1 = b.commitPosition.1 ∧ a.recordOrdinal.1 < b.recordOrdinal.1 := lex_lt_iff

theorem mem_identified {block : LogBlock} (h : record ∈ block.identified) :
    record.commitPosition = block.position := by
  obtain ⟨index, rfl⟩ := mem_ofFn.mp h
  rfl

theorem LogBlock.identified_length : block.identified.length = block.records.length :=
  length_ofFn

theorem LogBlock.identified_pairwise : block.identified.Pairwise fun a b => a.identity < b.identity := by
  apply pairwise_ofFn.mpr
  intro i j hij
  exact identity_lt_iff.mpr (.inr ⟨rfl, hij⟩)

theorem LogSnapshot.records_pairwise : snapshot.records.Pairwise fun a b => a.identity < b.identity := by
  apply pairwise_flatMap.mpr
  refine ⟨fun block _ => block.identified_pairwise, ?_⟩
  apply snapshot.increasing.imp
  intro a b hab x hx y hy
  apply identity_lt_iff.mpr
  rw [mem_identified hx, mem_identified hy]
  exact .inl hab

theorem LogSnapshot.mem_records_bounded {snapshot : LogSnapshot}
    (h : record ∈ snapshot.records) : record.commitPosition.1 ≤ snapshot.frontier.1 := by
  obtain ⟨block, hblock, hmem⟩ := mem_flatMap.mp h
  rw [mem_identified hmem]
  exact snapshot.bounded block hblock

end Identity

section Specification

variable {record : ScannedLogRecord} {scan : LogScan}

variable {k : Nat} {block : LogBlock}

theorem filter_eq_drop {α : Type} {p : α → Bool} {l : List α} (hbefore : ∀ x ∈ l.take k, p x = false)
    (hafter : ∀ x ∈ l.drop k, p x) : l.filter p = l.drop k := by
  conv_lhs => rw [← take_append_drop k l]
  rw [filter_append, filter_eq_self.mpr hafter, filter_eq_nil_iff.mpr, nil_append]
  intro x hx
  rw [hbefore x hx]
  exact Bool.false_ne_true

theorem LogBlock.ordinal_identified {i : Nat} (h : i < block.identified.length) :
    block.identified[i].recordOrdinal.1 = i := by
  simp [identified]

theorem LogBlock.ordinal_lt_of_mem_take (h : record ∈ block.identified.take k) :
    record.recordOrdinal.1 < k := by
  obtain ⟨i, hi, rfl⟩ := mem_take_iff_getElem.mp h
  rw [ordinal_identified]
  omega

theorem LogBlock.le_ordinal_of_mem_drop (h : record ∈ block.identified.drop k) :
    k ≤ record.recordOrdinal.1 := by
  obtain ⟨i, hi, rfl⟩ := mem_drop_iff_getElem.mp h
  rw [ordinal_identified]
  omega

theorem admitted_iff : scan.admitted record ↔ includesBlock scan record.commitPosition ∧
      skippedRecords scan record.commitPosition ≤ record.recordOrdinal.1 := by
  obtain ⟨limit, after, frontier⟩ := scan
  have hmax := record.recordOrdinal.2
  rcases after with _ | (after | ⟨after, ordinal⟩)
  · simp [LogScan.admitted, includesBlock, skippedRecords]
  · simp only [LogScan.admitted, Option.all_some, ScanAfter.bound, ScannedLogRecord.identity, includesBlock,
      skippedRecords, Bool.and_eq_true, decide_eq_true_eq, lex_lt_iff]
    omega
  · simp only [LogScan.admitted, Option.all_some, ScanAfter.bound, ScannedLogRecord.identity, includesBlock,
      skippedRecords, Bool.and_eq_true, decide_eq_true_eq, lex_lt_iff]
    split
    · rename_i hsame
      subst hsame
      omega
    · rename_i hother
      have hne : after.1 ≠ record.commitPosition.1 := fun h => hother (Subtype.ext h)
      omega

theorem filter_identified (scan : LogScan) (block : LogBlock) : block.identified.filter scan.admitted =
      if includesBlock scan block.position then block.identified.drop (skippedRecords scan block.position)
      else [] := by
  split
  · rename_i hincludes
    apply filter_eq_drop
    · intro x hx
      have hordinal := LogBlock.ordinal_lt_of_mem_take hx
      rw [Bool.eq_false_iff, Ne, admitted_iff, mem_identified (mem_of_mem_take hx)]
      omega
    · intro x hx
      rw [admitted_iff, mem_identified (mem_of_mem_drop hx)]
      exact ⟨hincludes, LogBlock.le_ordinal_of_mem_drop hx⟩
  · rename_i hexcluded
    apply filter_eq_nil_iff.mpr
    intro x hx
    rw [admitted_iff, mem_identified hx]
    exact fun h => hexcluded h.1

theorem skippedRecords_of_lt {before later : CommitPosition} (hincludes : includesBlock scan before)
    (hlt : before.1 < later.1) : skippedRecords scan later = 0 := by
  obtain ⟨limit, after, frontier⟩ := scan
  rcases after with _ | (after | ⟨after, ordinal⟩)
  · rfl
  · rfl
  · simp only [includesBlock, Bool.and_eq_true, decide_eq_true_eq] at hincludes
    apply if_neg
    rintro rfl
    omega

theorem scanBlocks_eq (hlimit : 0 < scan.limit) {blocks : List LogBlock}
    (hincr : blocks.Pairwise fun a b => a.position.1 < b.position.1) {records : List ScannedLogRecord}
    (hroom : records.length ≤ scan.limit)
    (hskipped : records ≠ [] → ∀ block ∈ blocks, skippedRecords scan block.position = 0) :
    scanBlocks scan records blocks =
      ((records ++ (blocks.flatMap LogBlock.identified).filter scan.admitted).take scan.limit,
        decide ((records ++ (blocks.flatMap LogBlock.identified).filter scan.admitted).length ≤ scan.limit)) := by
  induction blocks generalizing records with
  | nil =>
    rw [scanBlocks, flatMap_nil, filter_nil, append_nil, take_of_length_le hroom]
    rw [decide_eq_true hroom]
  | cons block blocks ih =>
    obtain ⟨hfirst, hrest⟩ := pairwise_cons.mp hincr
    rw [scanBlocks, flatMap_cons, filter_append, filter_identified]
    split
    · rename_i hexcluded
      rw [if_neg (by rw [hexcluded]; exact Bool.false_ne_true)]
      exact ih hrest hroom fun hne later hmem => hskipped hne later (mem_cons_of_mem _ hmem)
    · rename_i hincluded
      have hincludes : includesBlock scan block.position := Bool.not_eq_false _ |>.mp hincluded
      have hlen : (block.identified.drop (skippedRecords scan block.position)).length =
          block.records.length - skippedRecords scan block.position := by
        rw [length_drop, block.identified_length]
      have hlater : ∀ later ∈ blocks, skippedRecords scan later.position = 0 :=
        fun later hmem => skippedRecords_of_lt hincludes (hfirst later hmem)
      rw [← append_assoc]
      dsimp only
      split
      · -- The records so far fill the limit, and the block would add at least one.
        have hexact : records.length = scan.limit := by omega
        have hne : records ≠ [] := fun hnil => by
          rw [hnil, length_nil] at hexact
          omega
        have hpos := length_pos_iff.mpr block.nonempty
        rw [hskipped hne block mem_cons_self, drop_zero, append_assoc, ← hexact, take_left, decide_eq_false]
        simp only [length_append, block.identified_length]
        omega
      · split
        · rw [LogBlock.decodeAfter, append_assoc, take_append, take_of_length_le hroom,
            take_append_of_le_length (by omega), decide_eq_false]
          simp only [length_append, hlen]
          omega
        · have hdec : block.decodeAfter (skippedRecords scan block.position) (scan.limit - records.length) =
              block.identified.drop (skippedRecords scan block.position) :=
            take_of_length_le (by omega)
          rw [hdec]
          apply ih hrest
          · rw [length_append]
            omega
          · exact fun _ => hlater

/-- A scan reads the admitted records in commit order up to its limit, and says whether these were all. -/
theorem executeScan_eq (hlimit : 0 < scan.limit) :
    executeScan snapshot scan = ((snapshot.records.filter scan.admitted).take scan.limit,
      decide ((snapshot.records.filter scan.admitted).length ≤ scan.limit)) :=
  scanBlocks_eq hlimit snapshot.increasing (Nat.zero_le _) fun h => absurd rfl h

end Specification

end Positron.Query
