import Positron.Domain
import Positron.Lib.Wire
import Positron.Value.Profile

/-! The times a producer sends, kept exactly as received, and the bytes of a value inside a block. The signal
stores share this layout and differ in what they check on the way in and out. -/

namespace Positron.Value
open MachineInt ByteCodec Decoding List

inductive SourceTimeQuality where
  | usable
  | missing
  | zero
  | outlier
  | contradictory
deriving DecidableEq

/-- Whether a quality may stand beside a present instant. A zero is marked as one, unless it contradicts
another time. -/
def presentSourceTime (instant : UnixNanoseconds) (quality : SourceTimeQuality) : Bool :=
  decide (quality ≠ .missing) && ((decide (instant.1 = 0) && decide (quality = .contradictory)) ||
      decide (instant.1 = 0) == decide (quality = .zero))

/-- A producer time: absent, received, or a number of nanoseconds beyond the signed range. -/
inductive EventTime where
  | missing
  | received (instant : UnixNanoseconds) (quality : SourceTimeQuality)
      (valid : presentSourceTime instant quality)
  | outOfRange (value : U64) (above : 2 ^ 63 ≤ value.1)

namespace EventTime

def instant : EventTime → Option UnixNanoseconds
  | received instant _ _ => some instant
  | _ => none

def quality : EventTime → SourceTimeQuality
  | missing => .missing
  | received _ quality _ => quality
  | outOfRange _ _ => .outlier

/-- The source's number where it lies beyond the signed range. -/
def rawInstant : EventTime → Option U64
  | outOfRange value _ => some value
  | _ => none

def isUsable (time : EventTime) : Bool :=
  decide (time.quality = .usable) || (decide (time.quality = .outlier) && time.rawInstant.isNone)

def usableInstant (time : EventTime) : Option UnixNanoseconds :=
  if time.isUsable then time.instant else none

def newReceived (instant : UnixNanoseconds) (quality : SourceTimeQuality) : Option EventTime :=
  if h : presentSourceTime instant quality then some (received instant quality h) else none

theorem newReceived_valid {instant : UnixNanoseconds} {quality : SourceTimeQuality}
    (valid : presentSourceTime instant quality) :
    newReceived instant quality = some (received instant quality valid) := dif_pos valid

theorem quality_ne_missing {instant : UnixNanoseconds} {quality : SourceTimeQuality}
    (valid : presentSourceTime instant quality) : quality ≠ .missing := by
  rintro rfl
  cases valid

end EventTime

structure ObservedTime where
  instant : UnixNanoseconds
  quality : SourceTimeQuality
  valid : presentSourceTime instant quality

def ObservedTime.received (instant : UnixNanoseconds) (quality : SourceTimeQuality) : Option ObservedTime :=
  if h : presentSourceTime instant quality then some ⟨instant, quality, h⟩ else none

def ObservedTime.isUsable (time : ObservedTime) : Bool := decide (time.quality = .usable)

def ObservedTime.usableInstant (time : ObservedTime) : Option UnixNanoseconds :=
  if time.isUsable then some time.instant else none

theorem ObservedTime.received_valid (time : ObservedTime) :
    ObservedTime.received time.instant time.quality = some time := dif_pos time.valid

def qualityTag : SourceTimeQuality → UInt8
  | .usable => 1
  | .missing => 2
  | .zero => 3
  | .outlier => 4
  | .contradictory => 5

def decodeQuality (tag : UInt8) : Option SourceTimeQuality :=
  [none, some .usable, some .missing, some .zero, some .outlier, some .contradictory][tag.toNat]?.join

@[simp] theorem decodeQuality_tag (quality : SourceTimeQuality) :
    decodeQuality (qualityTag quality) = some quality := by
  cases quality <;> rfl

def AttributeValueKind.tag (kind : AttributeValueKind) : UInt8 := UInt8.ofNat kind.rank

def AttributeValueKind.ofTag (tag : UInt8) : Option AttributeValueKind :=
  [.null, .boolean, .signedInteger, .floatingPoint, .string, .bytes, .array, .keyValueList, .marker][tag.toNat]?

def MarkerAction.tag (action : MarkerAction) : UInt8 := UInt8.ofNat action.rank

def MarkerAction.ofTag (tag : UInt8) : Option MarkerAction :=
  [.removed, .redacted, .truncatedBytes, .truncatedElements][tag.toNat]?

@[simp] theorem MarkerAction.ofTag_tag (action : MarkerAction) :
    MarkerAction.ofTag action.tag = some action := by
  cases action <;> rfl

theorem reads_markerHead {ε α : Type} {e : ε} {kindOf : UInt8 → Except ε AttributeValueKind} {action : MarkerAction}
    {kind : AttributeValueKind} {next : MarkerAction → AttributeValueKind → Decoder ε α} {bytes : Bytes} {result : α}
    (hkind : kindOf kind.tag = .ok kind) (hnext : Reads (next action kind) bytes result) :
    Reads (takeU8 e >>= fun tag => check (Checks.orFail (MarkerAction.ofTag tag) e) >>= fun action =>
      takeU8 e >>= fun tag => check (kindOf tag) >>= fun kind => next action kind)
      ([action.tag] ++ ([kind.tag] ++ bytes)) result := by
  refine (reads_takeU8 _ _).bind ?_
  rw [MarkerAction.ofTag_tag]
  exact .check_bind rfl ((reads_takeU8 _ _).bind (.check_bind hkind hnext))

theorem RedactionMarker.isValid_iff {m : RedactionMarker} :
    m.isValid ↔ m.originalKind ≠ .marker ∧ (m.action = .removed ∨ m.action = .redacted) := by
  simp only [RedactionMarker.isValid, Bool.and_eq_true, Bool.or_eq_true, decide_eq_true_eq]

theorem RedactionMarker.kind_ne_marker {m : RedactionMarker} (h : m.isValid) : m.originalKind ≠ .marker :=
  (isValid_iff.mp h).1

namespace AttributeValue

variable {value : AttributeValue}

mutual

/-- A tag and the content behind it. A list puts its entries behind their count. -/
def layout : AttributeValue → Bytes
  | .null => [AttributeValueKind.null.tag]
  | .boolean value => [AttributeValueKind.boolean.tag] ++ [if value then 1 else 0]
  | .signedInteger value => [AttributeValueKind.signedInteger.tag] ++ i64Bytes value
  | .floatingPointBits bits => [AttributeValueKind.floatingPoint.tag] ++ beBytes 8 bits.1
  | .string value => [AttributeValueKind.string.tag] ++ sized (utf8 value)
  | .bytes value => [AttributeValueKind.bytes.tag] ++ sized value
  | .array values =>
    [AttributeValueKind.array.tag] ++ (beBytes 2 values.length ++ layoutValues values)
  | .keyValueList entries =>
    [AttributeValueKind.keyValueList.tag] ++ (beBytes 2 entries.length ++ layoutEntries entries)
  | .marker m => [AttributeValueKind.marker.tag] ++ ([m.action.tag] ++ [m.originalKind.tag])
  | .truncated value action =>
    [AttributeValueKind.marker.tag] ++ ([action.tag] ++ ([value.kind.tag] ++ layout value))

def layoutValues : List AttributeValue → Bytes
  | [] => []
  | value :: values => layout value ++ layoutValues values

def layoutEntries : List (String × AttributeValue) → Bytes
  | [] => []
  | (key, value) :: entries => sized (utf8 key) ++ layout value ++ layoutEntries entries

end

def layoutEntry (entry : String × AttributeValue) : Bytes := sized (utf8 entry.1) ++ layout entry.2

theorem layoutValues_eq (values : List AttributeValue) : layoutValues values = values.flatMap layout := by
  induction values with
  | nil => rfl
  | cons value values ih => rw [layoutValues, ih, flatMap_cons]

theorem layoutEntries_eq (entries : List (String × AttributeValue)) :
    layoutEntries entries = entries.flatMap layoutEntry := by
  induction entries with
  | nil => rfl
  | cons entry entries ih =>
    rw [layoutEntries, ih]
    rfl

theorem layout_pos (value : AttributeValue) : 0 < (layout value).length := by
  cases value <;> simp [layout]

theorem length_string (value : String) : (layout (.string value)).length = 5 + (utf8 value).length := by
  rw [layout, length_append, sized_length, length_singleton]
  omega

theorem length_bytes (value : Bytes) : (layout (.bytes value)).length = 5 + value.length := by
  rw [layout, length_append, sized_length, length_singleton]
  omega

theorem length_array (values : List AttributeValue) :
    (layout (.array values)).length = 3 + (layoutValues values).length := by
  simp only [layout, length_append, length_singleton, beBytes_length]
  omega

theorem length_keyValueList (entries : List (String × AttributeValue)) :
    (layout (.keyValueList entries)).length = 3 + (layoutEntries entries).length := by
  simp only [layout, length_append, length_singleton, beBytes_length]
  omega

theorem length_truncated (value : AttributeValue) (action : MarkerAction) :
    (layout (.truncated value action)).length = 3 + (layout value).length := by
  simp only [layout, length_append, length_singleton]
  omega

theorem layout_le_layoutValues {values : List AttributeValue} (h : value ∈ values) :
    (layout value).length ≤ (layoutValues values).length := by
  induction values with
  | nil => exact absurd h not_mem_nil
  | cons head values ih =>
    rw [layoutValues, length_append]
    rcases mem_cons.mp h with rfl | h
    · omega
    · exact (ih h).trans (by omega)

theorem layout_le_layoutEntries {entry : String × AttributeValue} {entries : List (String × AttributeValue)}
    (h : entry ∈ entries) : (layout entry.2).length ≤ (layoutEntries entries).length := by
  induction entries with
  | nil => exact absurd h not_mem_nil
  | cons head entries ih =>
    obtain ⟨key, value⟩ := head
    rw [layoutEntries, length_append, length_append]
    rcases mem_cons.mp h with rfl | h
    · dsimp only
      omega
    · exact (ih h).trans (by omega)

theorem forall_levels {P : Nat → Prop} (h : ∀ levels, value.layout.length ≤ levels + 1 → P (levels + 1)) :
    ∀ levels, value.layout.length ≤ levels → P levels := by
  intro levels hlevels
  cases levels with
  | zero => exact absurd (layout_pos value) (by omega)
  | succ levels => exact h levels hlevels

theorem kind_ne_marker_of_native (h : value.isNative) : value.kind ≠ .marker := by
  cases value <;> simp_all [isNative, kind]

theorem candidateNativeKind_of_native (h : value.isNative) : value.candidateNativeKind = value.kind := by
  cases value <;> first | rfl | cases h

theorem truncation_keeps {action : MarkerAction} {kind : AttributeValueKind}
    (h : truncationActionValid action kind) : ¬(action = .removed ∨ action = .redacted) := by
  rintro (rfl | rfl) <;> cases h

section Reading

variable {ε : Type} {e : ε}

theorem reads_flag (value : Bool) : Reads (do
    let flag ← takeU8 e
    if flag = 0 then pure false else if flag = 1 then pure true else check (.error e))
    [if value then 1 else 0] value := by
  cases value with
  | false => exact (reads_takeU8 _ 0).last (.pure false)
  | true => exact (reads_takeU8 _ 1).last (.pure true)

/-- What stands behind the tag of a value. The stores differ in how they take entries and markers. -/
def takeKind (e : ε) (flag : Decoder ε Bool) (valueBytes : Nat) (next : Except ε Nat)
    (inside : Nat → Decoder ε AttributeValue)
    (entry : Decoder ε AttributeValue → Decoder ε (String × AttributeValue)) (marker : Decoder ε AttributeValue) :
    Option AttributeValueKind → Decoder ε AttributeValue
  | some .null => pure .null
  | some .boolean => .boolean <$> flag
  | some .signedInteger => .signedInteger <$> takeI64 e
  | some .floatingPoint => .floatingPointBits <$> takeU64 e
  | some .string => .string <$> takeText e valueBytes
  | some .bytes => .bytes <$> takeSized e valueBytes
  | some .array => do
    let depth ← check next
    let count ← takeCount e release1Limits.dynamicValue.arrayEntries.1
    .array <$> takeMany (inside depth) count
  | some .keyValueList => do
    let depth ← check next
    let count ← takeCount e release1Limits.dynamicValue.keyValueListEntries.1
    .keyValueList <$> takeMany (entry (inside depth)) count
  | some .marker => marker
  | none => check (.error e)

variable {flag : Decoder ε Bool} {valueBytes depth : Nat} {next : Nat → Except ε Nat}
  {decoder : Nat → Nat → Decoder ε AttributeValue} {marker : Decoder ε AttributeValue → Decoder ε AttributeValue}
  {entry : Decoder ε AttributeValue → Decoder ε (String × AttributeValue)}

/-- A value that validation lets through is read back, when every level of its bytes may be entered. -/
theorem reads_of_kinds (hword : valueBytes < 2 ^ 32) (hdecoder : ∀ levels depth, decoder (levels + 1) depth = do
      let tag ← takeU8 e
      takeKind e flag valueBytes (next depth) (decoder levels) entry (marker (decoder levels depth))
        (AttributeValueKind.ofTag tag))
    (hnext : ∀ depth, next (depth + 1) = .ok depth) (hflag : ∀ value, Reads flag [if value then 1 else 0] value)
    (hentry : ∀ {key value child}, key.isEmpty = false ∧
      (utf8 key).length ≤ release1Limits.dynamicValue.keyPathBytes.1 →
      Reads child (layout value) value → Reads (entry child) (layoutEntry (key, value)) (key, value))
    (hmarker : ∀ {m} child, m.isValid → Reads (marker child) ([m.action.tag] ++ [m.originalKind.tag]) (.marker m))
    (htruncated : ∀ {value action child}, truncationActionValid action value.candidateNativeKind → value.isNative →
      Reads child (layout value) value →
      Reads (marker child) ([action.tag] ++ ([value.kind.tag] ++ layout value)) (.truncated value action))
    (hfits : value.Fits release1Limits.dynamicValue valueBytes depth) :
    ∀ levels, value.layout.length ≤ levels → Reads (decoder levels depth) value.layout value := by
  have hstep : ∀ {value : AttributeValue} {depth : Nat}, (∀ levels, value.layout.length ≤ levels + 1 → Reads (do
      let tag ← takeU8 e
      takeKind e flag valueBytes (next depth) (decoder levels) entry (marker (decoder levels depth))
        (AttributeValueKind.ofTag tag)) value.layout value) →
      ∀ levels, value.layout.length ≤ levels → Reads (decoder levels depth) value.layout value :=
    fun h => forall_levels fun levels hlevels => hdecoder levels _ ▸ h levels hlevels
  induction hfits with
  | null depth => exact hstep fun levels _ => (reads_takeU8 _ _).last (.pure _)
  | boolean depth value => exact hstep fun levels _ => (reads_takeU8 _ _).bind ((hflag value).map _)
  | signedInteger depth value =>
    exact hstep fun levels _ => (reads_takeU8 _ _).bind ((reads_takeI64 _ value).map _)
  | floatingPointBits depth bits => exact hstep fun levels _ => (reads_takeU8 _ _).bind ((reads_takeU64 _ bits).map _)
  | string depth value hbytes =>
    exact hstep fun levels _ =>
      (reads_takeU8 _ _).bind ((reads_takeText _ (lt_of_le_of_lt hbytes hword) hbytes).map _)
  | bytes depth value hbytes =>
    exact hstep fun levels _ =>
      (reads_takeU8 _ _).bind ((reads_takeSized _ (lt_of_le_of_lt hbytes hword) hbytes).map _)
  | array depth values hcount hvals ih =>
    refine hstep fun levels hlevels => ?_
    rw [length_array] at hlevels
    have hread : ∀ value ∈ values, Reads (decoder levels depth) (layout value) value := by
      intro value hmem
      have hle := layout_le_layoutValues hmem
      exact ih value hmem levels (by omega)
    rw [layout, layoutValues_eq]
    exact (reads_takeU8 _ _).bind (.check_bind (hnext depth)
      ((reads_takeCount _ (lt_of_le_of_lt hcount (by decide)) hcount).bind ((reads_takeMany hread).map _)))
  | keyValueList depth entries hcount hkeys hvals ih =>
    refine hstep fun levels hlevels => ?_
    rw [length_keyValueList] at hlevels
    have hread : ∀ item ∈ entries, Reads (entry (decoder levels depth)) (layoutEntry item) item := by
      intro item hmem
      have hle := layout_le_layoutEntries hmem
      exact hentry (hkeys item hmem) (ih item hmem levels (by omega))
    rw [layout, layoutEntries_eq]
    exact (reads_takeU8 _ _).bind (.check_bind (hnext depth)
      ((reads_takeCount _ (lt_of_le_of_lt hcount (by decide)) hcount).bind ((reads_takeMany hread).map _)))
  | marker depth m hvalid => exact hstep fun levels _ => (reads_takeU8 _ _).bind (hmarker _ hvalid)
  | truncated depth value action haction hnative hval ih =>
    refine hstep fun levels hlevels => ?_
    rw [length_truncated] at hlevels
    exact (reads_takeU8 _ _).bind (htruncated haction hnative (ih levels (by omega)))

end Reading

mutual

def decodedSizeBytes : AttributeValue → Nat
  | .null => 0
  | .boolean _ => 1
  | .signedInteger _ | .floatingPointBits _ => 8
  | .string value => (utf8 value).length
  | .bytes value => value.length
  | .array values => decodedSizeValues values
  | .keyValueList entries => decodedSizeEntries entries
  | .marker _ => 0
  | .truncated value _ => decodedSizeBytes value

def decodedSizeValues : List AttributeValue → Nat
  | [] => 0
  | value :: values => decodedSizeBytes value + decodedSizeValues values

def decodedSizeEntries : List (String × AttributeValue) → Nat
  | [] => 0
  | (key, value) :: entries => (utf8 key).length + decodedSizeBytes value + decodedSizeEntries entries

end

end AttributeValue

end Positron.Value
