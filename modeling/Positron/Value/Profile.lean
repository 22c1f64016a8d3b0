import Positron.Lib.Bytes
import Positron.Lib.Checks

/-! Dynamic attribute values: native values of any nesting, and the markers that policies leave in their place. A
tenant may only lower the limits of the system, and those stay under the release maximum, so whatever some profile
lets through fits under that maximum. -/

namespace Positron.Value
open MachineInt ByteCodec Checks List

inductive AttributeNamespace where
  | stream
  | resource
  | instrumentationScope
  | record
deriving DecidableEq

inductive AttributeValueKind where
  | null
  | boolean
  | signedInteger
  | floatingPoint
  | string
  | bytes
  | array
  | keyValueList
  | marker
deriving DecidableEq

def AttributeValueKind.rank : AttributeValueKind → Nat
  | .null => 0
  | .boolean => 1
  | .signedInteger => 2
  | .floatingPoint => 3
  | .string => 4
  | .bytes => 5
  | .array => 6
  | .keyValueList => 7
  | .marker => 8

inductive MarkerAction where
  | removed
  | redacted
  | truncatedBytes
  | truncatedElements
deriving DecidableEq

def MarkerAction.rank : MarkerAction → Nat
  | .removed => 0
  | .redacted => 1
  | .truncatedBytes => 2
  | .truncatedElements => 3

/-- What a policy leaves in place of a value: its kind, and nothing of its content. -/
structure RedactionMarker where
  originalKind : AttributeValueKind
  action : MarkerAction
deriving DecidableEq

def RedactionMarker.isValid (m : RedactionMarker) : Bool :=
  decide (m.originalKind ≠ .marker) && (decide (m.action = .removed) || decide (m.action = .redacted))

/-- A value as a producer sends it and, once validated, as it is stored. Keys of a list repeat and keep
their order. -/
inductive AttributeValue where
  | null
  | boolean (value : Bool)
  | signedInteger (value : I64)
  | floatingPointBits (bits : U64)
  | string (value : String)
  | bytes (value : Bytes)
  | array (values : List AttributeValue)
  | keyValueList (entries : List (String × AttributeValue))
  | marker (marker : RedactionMarker)
  | truncated (value : AttributeValue) (action : MarkerAction)

def utf8 (text : String) : Bytes := text.toUTF8.data.toList

namespace AttributeValue

/-- The kind of a value. A truncated value keeps its kind. -/
def kind : AttributeValue → AttributeValueKind
  | null => .null
  | boolean _ => .boolean
  | signedInteger _ => .signedInteger
  | floatingPointBits _ => .floatingPoint
  | string _ => .string
  | bytes _ => .bytes
  | array _ => .array
  | keyValueList _ => .keyValueList
  | marker _ => .marker
  | truncated value _ => value.kind

/-- The native kind of a candidate: a marker stands for the kind it replaced. -/
def candidateNativeKind : AttributeValue → AttributeValueKind
  | null => .null
  | boolean _ => .boolean
  | signedInteger _ => .signedInteger
  | floatingPointBits _ => .floatingPoint
  | string _ => .string
  | bytes _ => .bytes
  | array _ => .array
  | keyValueList _ => .keyValueList
  | marker m => m.originalKind
  | truncated value _ => value.candidateNativeKind

def untruncated : AttributeValue → AttributeValue
  | truncated value _ => value.untruncated
  | value => value

/-- Induction over a value and everything in it. -/
@[elab_as_elim]
theorem induct {P : AttributeValue → Prop} (null : P null) (boolean : ∀ b, P (boolean b))
    (signedInteger : ∀ v, P (signedInteger v)) (floatingPointBits : ∀ bits, P (floatingPointBits bits))
    (string : ∀ s, P (string s)) (bytes : ∀ b, P (bytes b))
    (array : ∀ values, (∀ value ∈ values, P value) → P (array values))
    (keyValueList : ∀ entries, (∀ entry ∈ entries, P entry.2) → P (keyValueList entries))
    (marker : ∀ m, P (marker m)) (truncated : ∀ value action, P value → P (truncated value action))
    (value : AttributeValue) : P value := by
  refine @AttributeValue.rec P (fun values => ∀ value ∈ values, P value)
    (fun entries => ∀ entry ∈ entries, P entry.2) (fun entry => P entry.2)
    null boolean signedInteger floatingPointBits string bytes array keyValueList marker truncated
    ?_ ?_ ?_ ?_ ?_ value
  · exact fun value hmem => absurd hmem List.not_mem_nil
  · intro head tail hhead htail value hmem
    rcases List.mem_cons.mp hmem with rfl | hmem
    · exact hhead
    · exact htail value hmem
  · exact fun entry hmem => absurd hmem List.not_mem_nil
  · intro head tail hhead htail entry hmem
    rcases List.mem_cons.mp hmem with rfl | hmem
    · exact hhead
    · exact htail entry hmem
  · exact fun key value hval => hval

mutual

def containsPolicyMarker : AttributeValue → Bool
  | .marker _ | .truncated _ _ => true
  | .array values => anyMarker values
  | .keyValueList entries => anyEntryMarker entries
  | _ => false

def anyMarker : List AttributeValue → Bool
  | [] => false
  | value :: values => containsPolicyMarker value || anyMarker values

def anyEntryMarker : List (String × AttributeValue) → Bool
  | [] => false
  | (_, value) :: entries => containsPolicyMarker value || anyEntryMarker entries

end

end AttributeValue

inductive DomainFailure where
  | valueLimitExceeded
deriving DecidableEq

structure DynamicValueLimits where
  keyPathBytes : U32
  arrayEntries : U32
  keyValueListEntries : U32

def truncationActionValid : MarkerAction → AttributeValueKind → Bool
  | .truncatedBytes, .string | .truncatedBytes, .bytes => true
  | .truncatedElements, .array | .truncatedElements, .keyValueList => true
  | _, _ => false

def AttributeValue.isNative : AttributeValue → Bool
  | .marker _ | .truncated _ _ => false
  | _ => true

mutual

def validateAttributeValue (limits : DynamicValueLimits) (valueBytes : Nat) :
    Nat → AttributeValue → Except DomainFailure Nat
  | _, .null => .ok 0
  | _, .boolean _ => .ok 1
  | _, .signedInteger _ | _, .floatingPointBits _ => .ok 8
  | _, .string value =>
    if valueBytes < (utf8 value).length then .error .valueLimitExceeded else .ok (utf8 value).length
  | _, .bytes value => if valueBytes < value.length then .error .valueLimitExceeded else .ok value.length
  | remainingDepth, .array values =>
    if remainingDepth = 0 ∨ limits.arrayEntries.1 < values.length then .error .valueLimitExceeded
    else validateAttributeArray limits valueBytes (remainingDepth - 1) 0 values
  | remainingDepth, .keyValueList entries =>
    if remainingDepth = 0 ∨ limits.keyValueListEntries.1 < entries.length then .error .valueLimitExceeded
    else validateKeyValueList limits valueBytes (remainingDepth - 1) 0 entries
  | _, .marker m => if m.isValid then .ok 0 else .error .valueLimitExceeded
  | remainingDepth, .truncated value action =>
    if truncationActionValid action value.candidateNativeKind = false ∨ value.isNative = false then
      .error .valueLimitExceeded
    else validateAttributeValue limits valueBytes remainingDepth value

def validateAttributeArray (limits : DynamicValueLimits) (valueBytes childDepth : Nat) :
    Nat → List AttributeValue → Except DomainFailure Nat
  | valueSizeBytes, [] => .ok valueSizeBytes
  | valueSizeBytes, value :: values => do
    let size ← validateAttributeValue limits valueBytes childDepth value
    if valueBytes < valueSizeBytes + size then .error .valueLimitExceeded
    else validateAttributeArray limits valueBytes childDepth (valueSizeBytes + size) values

def validateKeyValueList (limits : DynamicValueLimits) (valueBytes childDepth : Nat) :
    Nat → List (String × AttributeValue) → Except DomainFailure Nat
  | valueSizeBytes, [] => .ok valueSizeBytes
  | valueSizeBytes, (key, value) :: entries =>
    if key.isEmpty ∨ limits.keyPathBytes.1 < (utf8 key).length then .error .valueLimitExceeded
    else do
      let size ← validateAttributeValue limits valueBytes childDepth value
      if valueBytes < valueSizeBytes + size then .error .valueLimitExceeded
      else validateKeyValueList limits valueBytes childDepth (valueSizeBytes + size) entries

end

/-- A value that some profile has let through. -/
structure ValidatedAttributeValue where
  inner : AttributeValue
  validated : ∃ limits valueBytes remainingDepth size,
    validateAttributeValue limits valueBytes remainingDepth inner = .ok size

structure ValueLimitSet where
  requestRecords : U32
  encodedBytes : U32
  decodedBytes : U32
  logBodyBytes : U32
  individualValueBytes : U32
  attributesPerNamespace : U32
  nestingDepth : U16
  dynamicValue : DynamicValueLimits

/-- Every limit is at most the limit of the other set. -/
structure ValueLimitSet.Within (limits system : ValueLimitSet) : Prop where
  requestRecords : limits.requestRecords.1 ≤ system.requestRecords.1
  encodedBytes : limits.encodedBytes.1 ≤ system.encodedBytes.1
  decodedBytes : limits.decodedBytes.1 ≤ system.decodedBytes.1
  logBodyBytes : limits.logBodyBytes.1 ≤ system.logBodyBytes.1
  individualValueBytes : limits.individualValueBytes.1 ≤ system.individualValueBytes.1
  attributesPerNamespace : limits.attributesPerNamespace.1 ≤ system.attributesPerNamespace.1
  nestingDepth : limits.nestingDepth.1 ≤ system.nestingDepth.1
  keyPathBytes : limits.dynamicValue.keyPathBytes.1 ≤ system.dynamicValue.keyPathBytes.1
  arrayEntries : limits.dynamicValue.arrayEntries.1 ≤ system.dynamicValue.arrayEntries.1
  keyValueListEntries : limits.dynamicValue.keyValueListEntries.1 ≤ system.dynamicValue.keyValueListEntries.1

theorem ValueLimitSet.Within.refl (limits : ValueLimitSet) : limits.Within limits := by
  constructor <;> exact le_refl _

theorem ValueLimitSet.Within.trans {a b c : ValueLimitSet} (hab : a.Within b) (hbc : b.Within c) :
    a.Within c where
  requestRecords := hab.requestRecords.trans hbc.requestRecords
  encodedBytes := hab.encodedBytes.trans hbc.encodedBytes
  decodedBytes := hab.decodedBytes.trans hbc.decodedBytes
  logBodyBytes := hab.logBodyBytes.trans hbc.logBodyBytes
  individualValueBytes := hab.individualValueBytes.trans hbc.individualValueBytes
  attributesPerNamespace := hab.attributesPerNamespace.trans hbc.attributesPerNamespace
  nestingDepth := hab.nestingDepth.trans hbc.nestingDepth
  keyPathBytes := hab.keyPathBytes.trans hbc.keyPathBytes
  arrayEntries := hab.arrayEntries.trans hbc.arrayEntries
  keyValueListEntries := hab.keyValueListEntries.trans hbc.keyValueListEntries

def release1Limits : ValueLimitSet where
  requestRecords := ⟨1024, by decide⟩
  encodedBytes := ⟨1048576, by decide⟩
  decodedBytes := ⟨1048576, by decide⟩
  logBodyBytes := ⟨262144, by decide⟩
  individualValueBytes := ⟨65536, by decide⟩
  attributesPerNamespace := ⟨1024, by decide⟩
  nestingDepth := ⟨128, by decide⟩
  dynamicValue := ⟨⟨65536, by decide⟩, ⟨1024, by decide⟩, ⟨1024, by decide⟩⟩

/-- A profile that respects the ceilings of the system. -/
structure ValueLimitProfile where
  system : ValueLimitSet
  tenant : Option ValueLimitSet
  systemWithin : system.Within release1Limits
  tenantWithin : ∀ limits ∈ tenant, limits.Within system

namespace ValueLimitProfile

def release1SystemMaximum : ValueLimitProfile where
  system := release1Limits
  tenant := none
  systemWithin := ValueLimitSet.Within.refl release1Limits
  tenantWithin := by
    intro limits hmem
    cases hmem

def effectiveLimits (profile : ValueLimitProfile) : ValueLimitSet :=
  match profile.tenant with
  | some tenant => tenant
  | none => profile.system

theorem effectiveLimits_within (profile : ValueLimitProfile) :
    profile.effectiveLimits.Within release1Limits := by
  unfold effectiveLimits
  split
  · rename_i tenant htenant
    exact (profile.tenantWithin tenant htenant).trans profile.systemWithin
  · exact profile.systemWithin

end ValueLimitProfile

namespace AttributeValue

/-- What a value that validation lets through looks like, level by level. -/
inductive Fits (limits : DynamicValueLimits) (valueBytes : Nat) : Nat → AttributeValue → Prop
  | null (depth : Nat) : Fits limits valueBytes depth .null
  | boolean (depth : Nat) (value : Bool) : Fits limits valueBytes depth (.boolean value)
  | signedInteger (depth : Nat) (value : I64) : Fits limits valueBytes depth (.signedInteger value)
  | floatingPointBits (depth : Nat) (bits : U64) : Fits limits valueBytes depth (.floatingPointBits bits)
  | string (depth : Nat) (value : String) (hbytes : (utf8 value).length ≤ valueBytes) :
    Fits limits valueBytes depth (.string value)
  | bytes (depth : Nat) (value : Bytes) (hbytes : value.length ≤ valueBytes) :
    Fits limits valueBytes depth (.bytes value)
  | array (depth : Nat) (values : List AttributeValue) (hcount : values.length ≤ limits.arrayEntries.1)
    (hvalues : ∀ value ∈ values, Fits limits valueBytes depth value) :
    Fits limits valueBytes (depth + 1) (.array values)
  | keyValueList (depth : Nat) (entries : List (String × AttributeValue))
    (hcount : entries.length ≤ limits.keyValueListEntries.1)
    (hkeys : ∀ entry ∈ entries, entry.1.isEmpty = false ∧ (utf8 entry.1).length ≤ limits.keyPathBytes.1)
    (hvalues : ∀ entry ∈ entries, Fits limits valueBytes depth entry.2) :
    Fits limits valueBytes (depth + 1) (.keyValueList entries)
  | marker (depth : Nat) (m : RedactionMarker) (hmarker : m.isValid) :
    Fits limits valueBytes depth (.marker m)
  | truncated (depth : Nat) (value : AttributeValue) (action : MarkerAction)
    (haction : truncationActionValid action value.candidateNativeKind)
    (hnative : value.isNative) (hvalue : Fits limits valueBytes depth value) :
    Fits limits valueBytes depth (.truncated value action)

end AttributeValue

section Validation

variable {limits : DynamicValueLimits} {valueBytes depth total size : Nat}

theorem validateAttributeArray_eq (values : List AttributeValue) :
    validateAttributeArray limits valueBytes depth total values =
      addUpWithin (validateAttributeValue limits valueBytes depth) valueBytes .valueLimitExceeded total values := by
  induction values generalizing total with
  | nil => rfl
  | cons value values ih => simp only [validateAttributeArray, addUpWithin, ih]

/-- The size of an entry, whose key is checked first. -/
def entrySize (limits : DynamicValueLimits) (size : AttributeValue → Except DomainFailure Nat)
    (entry : String × AttributeValue) : Except DomainFailure Nat :=
  if entry.1.isEmpty ∨ limits.keyPathBytes.1 < (utf8 entry.1).length then .error .valueLimitExceeded else size entry.2

theorem entrySize_ok_iff {found : AttributeValue → Except DomainFailure Nat} {entry : String × AttributeValue} :
    entrySize limits found entry = .ok size ↔
      (entry.1.isEmpty = false ∧ (utf8 entry.1).length ≤ limits.keyPathBytes.1) ∧ found entry.2 = .ok size := by
  rw [← Nat.not_lt, ← Bool.not_eq_true, ← not_or, entrySize]
  split <;> simp_all

theorem validateKeyValueList_eq (entries : List (String × AttributeValue)) :
    validateKeyValueList limits valueBytes depth total entries =
      addUpWithin (entrySize limits (validateAttributeValue limits valueBytes depth)) valueBytes .valueLimitExceeded
        total entries := by
  induction entries generalizing total with
  | nil => rfl
  | cons entry entries ih =>
    rw [validateKeyValueList, addUpWithin, entrySize]
    split
    · rfl
    · simp only [ih]

theorem AttributeValue.fits_of_validate {value : AttributeValue}
    (h : validateAttributeValue limits valueBytes depth value = .ok size) :
    value.Fits limits valueBytes depth := by
  induction value using AttributeValue.induct generalizing depth size with
  | null => exact .null depth
  | boolean value => exact .boolean depth value
  | signedInteger value => exact .signedInteger depth value
  | floatingPointBits bits => exact .floatingPointBits depth bits
  | string value =>
    obtain ⟨hle, h⟩ := unless_ok h
    exact .string depth value (by omega)
  | bytes value =>
    obtain ⟨hle, h⟩ := unless_ok h
    exact .bytes depth value (by omega)
  | array values ih =>
    obtain ⟨hbounds, h⟩ := unless_ok h
    obtain ⟨hdepth, hcount⟩ := not_or.mp hbounds
    obtain ⟨next, rfl⟩ := Nat.exists_eq_succ_of_ne_zero hdepth
    have hvalues := addUpWithin_ok ((validateAttributeArray_eq values).symm.trans h)
    exact .array next values (Nat.le_of_not_lt hcount) fun value hmem =>
      ih value hmem (hvalues value hmem).choose_spec
  | keyValueList entries ih =>
    obtain ⟨hbounds, h⟩ := unless_ok h
    obtain ⟨hdepth, hcount⟩ := not_or.mp hbounds
    obtain ⟨next, rfl⟩ := Nat.exists_eq_succ_of_ne_zero hdepth
    have hents entry (hmem : entry ∈ entries) := entrySize_ok_iff.mp
      (addUpWithin_ok ((validateKeyValueList_eq entries).symm.trans h) entry hmem).choose_spec
    exact .keyValueList next entries (Nat.le_of_not_lt hcount) (fun entry hmem => (hents entry hmem).1)
      fun entry hmem => ih entry hmem (hents entry hmem).2
  | marker m =>
    rw [validateAttributeValue] at h
    split at h
    · exact .marker depth m (by assumption)
    · cases h
  | truncated value action ih =>
    obtain ⟨hwrapped, h⟩ := unless_ok h
    obtain ⟨haction, hnative⟩ := not_or.mp hwrapped
    exact .truncated depth value action (Bool.eq_true_of_not_eq_false haction)
      (Bool.eq_true_of_not_eq_false hnative) (ih h)

end Validation

def sizeWithin (valueBytes size : Nat) : Except DomainFailure Nat :=
  if valueBytes < size then .error .valueLimitExceeded else .ok size

mutual

/-- The check of a validated value against a profile that may be lower. -/
def validatedSizeAgainst (limits : DynamicValueLimits) (valueBytes : Nat) :
    Nat → AttributeValue → Except DomainFailure Nat
  | _, .null => sizeWithin valueBytes 0
  | _, .boolean _ => sizeWithin valueBytes 1
  | _, .signedInteger _ | _, .floatingPointBits _ => sizeWithin valueBytes 8
  | _, .marker _ => sizeWithin valueBytes 0
  | depth, .truncated value _ => do sizeWithin valueBytes (← validatedSizeAgainst limits valueBytes depth value)
  | _, .string value => sizeWithin valueBytes (utf8 value).length
  | _, .bytes value => sizeWithin valueBytes value.length
  | depth, .array values =>
    if depth = 0 ∨ limits.arrayEntries.1 < values.length then .error .valueLimitExceeded
    else do sizeWithin valueBytes (← validatedSizeValues limits valueBytes (depth - 1) 0 values)
  | depth, .keyValueList entries =>
    if depth = 0 ∨ limits.keyValueListEntries.1 < entries.length then .error .valueLimitExceeded
    else do sizeWithin valueBytes (← validatedSizeEntries limits valueBytes (depth - 1) 0 entries)

def validatedSizeValues (limits : DynamicValueLimits) (valueBytes depth : Nat) :
    Nat → List AttributeValue → Except DomainFailure Nat
  | total, [] => .ok total
  | total, value :: values => do
    let size ← validatedSizeAgainst limits valueBytes depth value
    validatedSizeValues limits valueBytes depth (total + size) values

def validatedSizeEntries (limits : DynamicValueLimits) (valueBytes depth : Nat) :
    Nat → List (String × AttributeValue) → Except DomainFailure Nat
  | total, [] => .ok total
  | total, (key, value) :: entries =>
    if key.isEmpty ∨ limits.keyPathBytes.1 < (utf8 key).length then .error .valueLimitExceeded
    else do
      let size ← validatedSizeAgainst limits valueBytes depth value
      validatedSizeEntries limits valueBytes depth (total + size) entries

end

variable {limits : DynamicValueLimits} {valueBytes depth total size : Nat}

theorem sizeWithin_ok_iff : sizeWithin valueBytes total = .ok size ↔ total ≤ valueBytes ∧ size = total := by
  unfold sizeWithin
  split
  · constructor
    · intro h
      cases h
    · exact fun h => absurd h.1 (by omega)
  · constructor
    · intro h
      cases h
      exact ⟨by omega, rfl⟩
    · rintro ⟨-, rfl⟩
      rfl

theorem validatedSizeValues_eq (values : List AttributeValue) :
    validatedSizeValues limits valueBytes depth total values =
    addUp (validatedSizeAgainst limits valueBytes depth) total values := by
  induction values generalizing total with
  | nil => rfl
  | cons value values ih => simp only [validatedSizeValues, addUp, ih]

theorem validatedSizeEntries_eq (entries : List (String × AttributeValue)) :
    validatedSizeEntries limits valueBytes depth total entries =
      addUp (entrySize limits (validatedSizeAgainst limits valueBytes depth)) total entries := by
  induction entries generalizing total with
  | nil => rfl
  | cons entry entries ih =>
    rw [validatedSizeEntries, addUp, entrySize]
    split
    · rfl
    · simp only [ih]

variable {value : AttributeValue}

/-- A value that was let in passes again, unless it is a number that the profile leaves no room for. -/
theorem validatedSizeAgainst_of_validate (hsize : size ≤ valueBytes)
    (h : validateAttributeValue limits valueBytes depth value = .ok size) :
    validatedSizeAgainst limits valueBytes depth value = .ok size := by
  induction value using AttributeValue.induct generalizing depth size with
  | null | boolean value | signedInteger value | floatingPointBits bits =>
    cases h
    exact sizeWithin_ok_iff.mpr ⟨hsize, rfl⟩
  | string value => exact h
  | bytes value => exact h
  | array values ih =>
    obtain ⟨hbounds, h⟩ := unless_ok h
    rw [validateAttributeArray_eq, addUpWithin_iff (Nat.zero_le _)] at h
    have hvalues := addUp_transfer (fun value hmem bytes hle hv => ih value hmem hle hv) h.2 h.1
    rw [validatedSizeAgainst, if_neg hbounds, validatedSizeValues_eq, bind_eq_of_ok hvalues]
    exact sizeWithin_ok_iff.mpr ⟨hsize, rfl⟩
  | keyValueList entries ih =>
    obtain ⟨hbounds, h⟩ := unless_ok h
    rw [validateKeyValueList_eq, addUpWithin_iff (Nat.zero_le _)] at h
    have hents := addUp_transfer (fun entry hmem bytes hle hentry => entrySize_ok_iff.mpr
      ((entrySize_ok_iff.mp hentry).imp_right (ih entry hmem hle))) h.2 h.1
    rw [validatedSizeAgainst, if_neg hbounds, validatedSizeEntries_eq, bind_eq_of_ok hents]
    exact sizeWithin_ok_iff.mpr ⟨hsize, rfl⟩
  | marker m =>
    rw [validateAttributeValue] at h
    split at h
    · cases h
      exact sizeWithin_ok_iff.mpr ⟨hsize, rfl⟩
    · cases h
  | truncated value action ih =>
    obtain ⟨-, h⟩ := unless_ok h
    rw [validatedSizeAgainst, bind_eq_of_ok (ih hsize h)]
    exact sizeWithin_ok_iff.mpr ⟨hsize, rfl⟩

/-- What a value takes before anything is held against a limit: only booleans and numbers do. -/
def AttributeValue.fixedBytes : AttributeValue → Nat
  | .boolean _ => 1
  | .signedInteger _ | .floatingPointBits _ => 8
  | _ => 0

theorem size_le_of_validate (hfixed : value.fixedBytes ≤ valueBytes)
    (h : validateAttributeValue limits valueBytes depth value = .ok size) : size ≤ valueBytes := by
  induction value using AttributeValue.induct generalizing size with
  | null | boolean | signedInteger | floatingPointBits =>
    cases h
    exact hfixed
  | string | bytes =>
    obtain ⟨hle, h⟩ := unless_ok h
    cases h
    omega
  | array values =>
    obtain ⟨-, h⟩ := unless_ok h
    rw [validateAttributeArray_eq, addUpWithin_iff (Nat.zero_le _)] at h
    exact h.2
  | keyValueList entries =>
    obtain ⟨-, h⟩ := unless_ok h
    rw [validateKeyValueList_eq, addUpWithin_iff (Nat.zero_le _)] at h
    exact h.2
  | marker m =>
    rw [validateAttributeValue] at h
    split at h
    · cases h
      exact Nat.zero_le _
    · cases h
  | truncated value action ih =>
    obtain ⟨hwrapped, h⟩ := unless_ok h
    refine ih ?_ h
    -- Only strings, bytes and collections are truncated, and these take nothing up front.
    cases value <;> first
      | exact Nat.zero_le _
      | cases action <;> simp [truncationActionValid, AttributeValue.candidateNativeKind] at hwrapped

def validateOccurrences (limits : ValueLimitSet) (key : String) (occurrences : List AttributeValue) :
    Except DomainFailure PUnit :=
  if key.isEmpty ∨ limits.dynamicValue.keyPathBytes.1 < (utf8 key).length ∨ occurrences.isEmpty ∨
      limits.attributesPerNamespace.1 < occurrences.length then .error .valueLimitExceeded
  else forM occurrences fun value => do
    let _ ← validateAttributeValue limits.dynamicValue limits.individualValueBytes.1 limits.nestingDepth.1 value
    return ⟨⟩

/-- What passes as the values of one attribute. -/
structure OccurrencesFit (limits : ValueLimitSet) (key : String) (occurrences : List AttributeValue) : Prop where
  keyNonempty : key.isEmpty = false
  keyBytes : (utf8 key).length ≤ limits.dynamicValue.keyPathBytes.1
  nonempty : occurrences ≠ []
  count : occurrences.length ≤ limits.attributesPerNamespace.1
  values : ∀ value ∈ occurrences, ∃ size, validateAttributeValue limits.dynamicValue
    limits.individualValueBytes.1 limits.nestingDepth.1 value = .ok size

theorem validateEach_ok_iff {limits : DynamicValueLimits} {valueBytes depth : Nat}
    {values : List AttributeValue} :
    (forM values fun value => do
      let _ ← validateAttributeValue limits valueBytes depth value
      return ⟨⟩) = Except.ok ⟨⟩ ↔
      ∀ value ∈ values, ∃ size, validateAttributeValue limits valueBytes depth value = .ok size := by
  induction values with
  | nil => exact ⟨fun _ value hmem => absurd hmem not_mem_nil, fun _ => rfl⟩
  | cons head values ih =>
    rw [forM_cons, forall_mem_cons, ← ih]
    cases hhead : validateAttributeValue limits valueBytes depth head with
    | error e =>
      constructor
      · intro h
        cases h
      · rintro ⟨⟨size, h⟩, -⟩
        cases h
    | ok size => exact ⟨fun h => ⟨⟨size, rfl⟩, h⟩, fun h => h.2⟩

theorem validateOccurrences_ok_iff {limits : ValueLimitSet} {key : String} {occurrences : List AttributeValue} :
    validateOccurrences limits key occurrences = .ok ⟨⟩ ↔ OccurrencesFit limits key occurrences := by
  unfold validateOccurrences
  split
  · rename_i hbad
    constructor
    · intro h
      cases h
    · intro hfit
      rcases hbad with h | h | h | h
      · rw [hfit.keyNonempty] at h
        cases h
      · exact absurd hfit.keyBytes (by omega)
      · exact absurd (isEmpty_iff.mp h) hfit.nonempty
      · exact absurd hfit.count (by omega)
  · rename_i hgood
    simp only [not_or, Bool.not_eq_true, Nat.not_lt] at hgood
    obtain ⟨hkey, hbytes, hne, hcount⟩ := hgood
    rw [validateEach_ok_iff]
    constructor
    · intro h
      exact ⟨hkey, hbytes, fun hnil => by simp [hnil] at hne, hcount, h⟩
    · exact fun hfit => hfit.values

theorem OccurrencesFit.values_fit {key : String} {occurrences : List AttributeValue}
    (h : OccurrencesFit release1Limits key occurrences) :
    ∀ value ∈ occurrences, value.Fits release1Limits.dynamicValue release1Limits.individualValueBytes.1
      release1Limits.nestingDepth.1 := by
  intro value hmem
  obtain ⟨size, hsize⟩ := h.values value hmem
  exact AttributeValue.fits_of_validate hsize

/-- The values of one attribute after validation under some profile. -/
structure AttributeOccurrenceSet where
  attributeNamespace : AttributeNamespace
  key : String
  occurrences : List AttributeValue
  fits : OccurrencesFit release1Limits key occurrences

def AttributeOccurrenceSet.validate (place : AttributeNamespace) (key : String)
    (occurrences : List AttributeValue) : Option AttributeOccurrenceSet :=
  match h : validateOccurrences release1Limits key occurrences with
  | .ok _ => some ⟨place, key, occurrences, validateOccurrences_ok_iff.mp h⟩
  | .error _ => none

theorem AttributeOccurrenceSet.validate_self (set : AttributeOccurrenceSet) :
    AttributeOccurrenceSet.validate set.attributeNamespace set.key set.occurrences = some set := by
  have hok := validateOccurrences_ok_iff.mpr set.fits
  unfold AttributeOccurrenceSet.validate
  split
  · rfl
  · rename_i e he
    rw [hok] at he
    cases he

end Positron.Value
