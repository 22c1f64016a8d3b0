import Positron.Value.Profile

/-! The check of a candidate's shape, which builds nothing, beside the validation that builds the value and
the check of a value built before. -/

namespace Positron.Value
open MachineInt Checks

inductive ValueLimitDimension where
  | keyPathBytes
  | individualValueBytes
  | nestingDepth
  | arrayEntries
  | keyValueListEntries
deriving DecidableEq

structure ValueLimitViolation where
  dimension : ValueLimitDimension
  actual : Nat
  allowed : Nat
deriving DecidableEq

inductive CandidateShapeFailure where
  | invalid
  | limit (violation : ValueLimitViolation)
deriving DecidableEq

def limitFailure (dimension : ValueLimitDimension) (actual allowed : Nat) : CandidateShapeFailure :=
  .limit ⟨dimension, actual, allowed⟩

def depthLimitFailure (remainingDepth : Nat) : CandidateShapeFailure :=
  limitFailure .nestingDepth (remainingDepth + 1) remainingDepth

def shapeWithin (valueBytes size : Nat) : Except CandidateShapeFailure Nat := do
  demand (size ≤ valueBytes) (limitFailure .individualValueBytes size valueBytes)
  return size

mutual

def validateCandidate (limits : DynamicValueLimits) (valueBytes : Nat) :
    Nat → AttributeValue → Except CandidateShapeFailure Nat
  | _, .null => shapeWithin valueBytes 0
  | _, .boolean _ => shapeWithin valueBytes 1
  | _, .signedInteger _ | _, .floatingPointBits _ => shapeWithin valueBytes 8
  | _, .string value => shapeWithin valueBytes (utf8 value).length
  | _, .bytes value => shapeWithin valueBytes value.length
  | remainingDepth, .array values => do
    demand (remainingDepth ≠ 0) (depthLimitFailure remainingDepth)
    demand (values.length ≤ limits.arrayEntries.1)
      (limitFailure .arrayEntries values.length limits.arrayEntries.1)
    shapeWithin valueBytes (← validateCandidateValues limits valueBytes (remainingDepth - 1) 0 values)
  | remainingDepth, .keyValueList entries => do
    demand (remainingDepth ≠ 0) (depthLimitFailure remainingDepth)
    demand (entries.length ≤ limits.keyValueListEntries.1)
      (limitFailure .keyValueListEntries entries.length limits.keyValueListEntries.1)
    shapeWithin valueBytes (← validateCandidateEntries limits valueBytes (remainingDepth - 1) 0 entries)
  | _, .marker m => do
    demand (m.isValid) .invalid
    shapeWithin valueBytes 0
  | remainingDepth, .truncated value action => do
    demand (value.isNative ∧ truncationActionValid action value.candidateNativeKind) .invalid
    shapeWithin valueBytes (← validateCandidate limits valueBytes remainingDepth value)

def validateCandidateValues (limits : DynamicValueLimits) (valueBytes childDepth : Nat) :
    Nat → List AttributeValue → Except CandidateShapeFailure Nat
  | total, [] => .ok total
  | total, value :: values => do
    let childSize ← validateCandidate limits valueBytes childDepth value
    validateCandidateValues limits valueBytes childDepth (total + childSize) values

def validateCandidateEntries (limits : DynamicValueLimits) (valueBytes childDepth : Nat) :
    Nat → List (String × AttributeValue) → Except CandidateShapeFailure Nat
  | total, [] => .ok total
  | total, (key, value) :: entries => do
    demand (key.isEmpty = false) .invalid
    demand ((utf8 key).length ≤ limits.keyPathBytes.1)
      (limitFailure .keyPathBytes (utf8 key).length limits.keyPathBytes.1)
    let childSize ← validateCandidate limits valueBytes childDepth value
    validateCandidateEntries limits valueBytes childDepth (total + childSize) entries

end

namespace ValueLimitProfile

variable (profile : ValueLimitProfile)

def validateShapeDetailed (candidate : AttributeValue) : Except CandidateShapeFailure PUnit := do
  let limits := profile.effectiveLimits
  let _ ← validateCandidate limits.dynamicValue limits.individualValueBytes.1 limits.nestingDepth.1 candidate
  return ⟨⟩

def validateShape (candidate : AttributeValue) : Except DomainFailure PUnit :=
  (profile.validateShapeDetailed candidate).mapError fun _ => .valueLimitExceeded

def validateAttribute (candidate : AttributeValue) : Except DomainFailure ValidatedAttributeValue :=
  match h : validateAttributeValue profile.effectiveLimits.dynamicValue
      profile.effectiveLimits.individualValueBytes.1 profile.effectiveLimits.nestingDepth.1 candidate with
  | .ok size => .ok ⟨candidate, _, _, _, size, h⟩
  | .error failure => .error failure

def fromValidated (place : AttributeNamespace) (key : String) (occurrences : List ValidatedAttributeValue) :
    Except DomainFailure (AttributeNamespace × String × List ValidatedAttributeValue) := do
  let limits := profile.effectiveLimits
  demand (key.isEmpty = false ∧ (utf8 key).length ≤ limits.dynamicValue.keyPathBytes.1 ∧
    occurrences.isEmpty = false ∧ occurrences.length ≤ limits.attributesPerNamespace.1) .valueLimitExceeded
  forM occurrences fun occurrence => do
    let _ ← validatedSizeAgainst limits.dynamicValue limits.individualValueBytes.1 limits.nestingDepth.1
      occurrence.inner
    return ⟨⟩
  return (place, key, occurrences)

end ValueLimitProfile

section Agreement

variable {limits : DynamicValueLimits} {valueBytes depth total size : Nat}

theorem shapeWithin_ok_iff : shapeWithin valueBytes total = .ok size ↔ total ≤ valueBytes ∧ size = total := by
  constructor
  · intro h
    obtain ⟨u, hle, hsize⟩ := bind_ok h
    cases hsize
    exact ⟨demand_eq_ok_iff.mp hle, rfl⟩
  · rintro ⟨hle, rfl⟩
    exact demand_bind hle _ _

theorem validateCandidateValues_eq (values : List AttributeValue) :
    validateCandidateValues limits valueBytes depth total values =
      addUp (validateCandidate limits valueBytes depth) total values := by
  induction values generalizing total with
  | nil => rfl
  | cons value values ih => simp only [validateCandidateValues, addUp, ih]

def candidateEntrySize (limits : DynamicValueLimits) (valueBytes depth : Nat) (entry : String × AttributeValue) :
    Except CandidateShapeFailure Nat := do
  demand (entry.1.isEmpty = false) .invalid
  demand ((utf8 entry.1).length ≤ limits.keyPathBytes.1)
    (limitFailure .keyPathBytes (utf8 entry.1).length limits.keyPathBytes.1)
  validateCandidate limits valueBytes depth entry.2

theorem candidateEntrySize_ok_iff {entry : String × AttributeValue} :
    candidateEntrySize limits valueBytes depth entry = .ok size ↔
      (entry.1.isEmpty = false ∧ (utf8 entry.1).length ≤ limits.keyPathBytes.1) ∧
        validateCandidate limits valueBytes depth entry.2 = .ok size := by
  constructor
  · intro h
    obtain ⟨_, hne, h⟩ := bind_ok h
    obtain ⟨_, hkey, h⟩ := bind_ok h
    exact ⟨⟨demand_eq_ok_iff.mp hne, demand_eq_ok_iff.mp hkey⟩, h⟩
  · rintro ⟨⟨hne, hkey⟩, h⟩
    rw [candidateEntrySize, demand_bind hne, demand_bind hkey, h]

theorem validateCandidateEntries_eq (entries : List (String × AttributeValue)) :
    validateCandidateEntries limits valueBytes depth total entries =
      addUp (candidateEntrySize limits valueBytes depth) total entries := by
  induction entries generalizing total with
  | nil => rfl
  | cons entry entries ih => simp only [validateCandidateEntries, addUp, candidateEntrySize, ih, bind_assoc]

/-- One check holds the running total against the limit at every element, the other only at the end. -/
theorem addUp_ok_iff {α : Type} {shape : α → Except CandidateShapeFailure Nat}
    {validated : α → Except DomainFailure Nat}
    {xs : List α} (h : ∀ x ∈ xs, ∀ bytes, shape x = .ok bytes ↔ validated x = .ok bytes ∧ bytes ≤ valueBytes) :
    addUp shape 0 xs = .ok size ∧ size ≤ valueBytes ↔
      addUpWithin validated valueBytes .valueLimitExceeded 0 xs = .ok size := by
  rw [addUpWithin_iff (Nat.zero_le _)]
  constructor
  · exact fun ⟨hsum, hle⟩ => ⟨addUp_transfer (fun x hmem bytes _ hx => ((h x hmem bytes).mp hx).1) hle hsum, hle⟩
  · exact fun ⟨hsum, hle⟩ =>
      ⟨addUp_transfer (fun x hmem bytes hbytes hx => (h x hmem bytes).mpr ⟨hx, hbytes⟩) hle hsum, hle⟩

theorem shapeWithin_ok_iff_and (n : Nat) : shapeWithin valueBytes n = .ok size ↔
    (Except.ok n : Except DomainFailure Nat) = .ok size ∧ size ≤ valueBytes := by
  rw [shapeWithin_ok_iff, Except.ok.injEq]
  omega

/-- Both checks enter a collection under the same conditions, so they agree on it when they agree inside. -/
theorem collection_ok_iff {count limit : Nat} {tooDeep tooMany : CandidateShapeFailure}
    {shape : Except CandidateShapeFailure Nat} {validated : Except DomainFailure Nat}
    (hinside : ∀ size, shape = .ok size ∧ size ≤ valueBytes ↔ validated = .ok size) :
    (do demand (depth ≠ 0) tooDeep; demand (count ≤ limit) tooMany; shapeWithin valueBytes (← shape)) = .ok size ↔
      (if depth = 0 ∨ limit < count then .error .valueLimitExceeded else validated) = .ok size ∧
        size ≤ valueBytes := by
  constructor
  · intro h
    obtain ⟨u, hdepth, h⟩ := bind_ok h
    obtain ⟨v, hcount, h⟩ := bind_ok h
    obtain ⟨bytes, hbytes, h⟩ := bind_ok h
    obtain ⟨hle, rfl⟩ := shapeWithin_ok_iff.mp h
    rw [if_neg (not_or.mpr ⟨demand_eq_ok_iff.mp hdepth, Nat.not_lt.mpr (demand_eq_ok_iff.mp hcount)⟩)]
    exact ⟨(hinside _).mp ⟨hbytes, hle⟩, hle⟩
  · rintro ⟨h, hle⟩
    obtain ⟨hbounds, h⟩ := unless_ok h
    obtain ⟨hdepth, hcount⟩ := not_or.mp hbounds
    rw [demand_bind hdepth, demand_bind (Nat.le_of_not_lt hcount), bind_eq_of_ok ((hinside size).mpr h).1]
    exact shapeWithin_ok_iff.mpr ⟨hle, rfl⟩

variable {value : AttributeValue}

/-- The shape check lets through what validation lets through, except numbers that the limit leaves no
room for. -/
theorem validateCandidate_ok_iff : validateCandidate limits valueBytes depth value = .ok size ↔
      validateAttributeValue limits valueBytes depth value = .ok size ∧ size ≤ valueBytes := by
  induction value using AttributeValue.induct generalizing depth size with
  | null | boolean | signedInteger | floatingPointBits => exact shapeWithin_ok_iff_and _
  | string | bytes =>
    rw [validateCandidate, validateAttributeValue, shapeWithin_ok_iff]
    split <;> simp only [Except.ok.injEq, reduceCtorEq, false_and, iff_false] <;> omega
  | array values ih =>
    refine collection_ok_iff fun size => ?_
    rw [validateCandidateValues_eq, validateAttributeArray_eq]
    exact addUp_ok_iff fun value hmem bytes => ih value hmem
  | keyValueList entries ih =>
    refine collection_ok_iff fun size => ?_
    rw [validateCandidateEntries_eq, validateKeyValueList_eq]
    refine addUp_ok_iff fun entry hmem bytes => ?_
    rw [candidateEntrySize_ok_iff, entrySize_ok_iff, ih entry hmem, ← and_assoc]
  | marker m =>
    rw [validateCandidate, validateAttributeValue]
    by_cases hvalid : m.isValid
    · rw [demand_bind hvalid, if_pos hvalid]
      exact shapeWithin_ok_iff_and 0
    · simp [demand, hvalid, bind, Except.bind]
  | truncated value action ih =>
    rw [validateCandidate, validateAttributeValue]
    constructor
    · intro h
      obtain ⟨u, hwrapped, h⟩ := bind_ok h
      obtain ⟨bytes, hbytes, h⟩ := bind_ok h
      obtain ⟨-, rfl⟩ := shapeWithin_ok_iff.mp h
      obtain ⟨hnative, haction⟩ := demand_eq_ok_iff.mp hwrapped
      rw [if_neg (by simp [hnative, haction])]
      exact ih.mp hbytes
    · rintro ⟨h, hle⟩
      obtain ⟨hwrapped, h⟩ := unless_ok h
      obtain ⟨haction, hnative⟩ := not_or.mp hwrapped
      rw [demand_bind ⟨Bool.eq_true_of_not_eq_false hnative, Bool.eq_true_of_not_eq_false haction⟩,
        bind_eq_of_ok (ih.mpr ⟨h, hle⟩)]
      exact shapeWithin_ok_iff.mpr ⟨hle, rfl⟩

end Agreement

namespace ValueLimitProfile

variable {profile : ValueLimitProfile} {candidate : AttributeValue}

/-- The three checks agree on a candidate under a profile. -/
structure ValidatorsAgree (profile : ValueLimitProfile) (candidate : AttributeValue) : Prop where
  shape : profile.validateShape candidate = .ok ⟨⟩ ↔ ∃ value, profile.validateAttribute candidate = .ok value
  wrapped : ∀ value, profile.validateAttribute candidate = .ok value → ∀ place key, key.isEmpty = false →
    (utf8 key).length ≤ profile.effectiveLimits.dynamicValue.keyPathBytes.1 →
      profile.fromValidated place key [value] = .ok (place, key, [value])

theorem validateShape_ok_iff : profile.validateShape candidate = .ok ⟨⟩ ↔
    ∃ size, validateCandidate profile.effectiveLimits.dynamicValue profile.effectiveLimits.individualValueBytes.1
      profile.effectiveLimits.nestingDepth.1 candidate = .ok size := by
  unfold validateShape validateShapeDetailed
  dsimp only
  cases validateCandidate profile.effectiveLimits.dynamicValue profile.effectiveLimits.individualValueBytes.1
    profile.effectiveLimits.nestingDepth.1 candidate with
  | error failure =>
    constructor
    · intro h
      cases h
    · rintro ⟨size, h⟩
      cases h
  | ok size => exact ⟨fun _ => ⟨size, rfl⟩, fun _ => rfl⟩

theorem validateAttribute_ok {value : ValidatedAttributeValue} (h : profile.validateAttribute candidate = .ok value) :
    value.inner = candidate ∧ ∃ size, validateAttributeValue profile.effectiveLimits.dynamicValue
      profile.effectiveLimits.individualValueBytes.1 profile.effectiveLimits.nestingDepth.1 candidate = .ok size := by
  unfold validateAttribute at h
  split at h
  · rename_i size hsize
    cases h
    exact ⟨rfl, size, hsize⟩
  · cases h

theorem exists_validateAttribute {size : Nat} (h : validateAttributeValue profile.effectiveLimits.dynamicValue
    profile.effectiveLimits.individualValueBytes.1 profile.effectiveLimits.nestingDepth.1 candidate = .ok size) :
    ∃ value, profile.validateAttribute candidate = .ok value := by
  unfold validateAttribute
  split
  · exact ⟨_, rfl⟩
  · rename_i failure hfail
    rw [h] at hfail
    cases hfail

/-- The checks agree exactly on the candidates that are no number or find room for one. -/
theorem shape_validators_agree_iff (hpositive : 0 < profile.effectiveLimits.attributesPerNamespace.1) :
    profile.ValidatorsAgree candidate ↔
      candidate.fixedBytes ≤ profile.effectiveLimits.individualValueBytes.1 := by
  constructor
  · intro hagree
    by_contra hnarrow
    have hscalar : ∀ limits valueBytes depth, validateAttributeValue limits valueBytes depth candidate =
        .ok candidate.fixedBytes := by
      intro limits valueBytes depth
      cases candidate <;> first | rfl | exact absurd (Nat.zero_le _) hnarrow
    obtain ⟨size, hsize⟩ := validateShape_ok_iff.mp (hagree.shape.mpr (exists_validateAttribute (hscalar _ _ _)))
    obtain ⟨hvalidated, hle⟩ := validateCandidate_ok_iff.mp hsize
    rw [hscalar] at hvalidated
    cases hvalidated
    exact hnarrow hle
  · intro hroom
    constructor
    · rw [validateShape_ok_iff]
      constructor
      · rintro ⟨size, h⟩
        exact exists_validateAttribute (validateCandidate_ok_iff.mp h).1
      · rintro ⟨value, h⟩
        obtain ⟨-, size, hsize⟩ := validateAttribute_ok h
        exact ⟨size, validateCandidate_ok_iff.mpr ⟨hsize, size_le_of_validate hroom hsize⟩⟩
    · intro value h place key hempty hkey
      obtain ⟨hinner, size, hsize⟩ := validateAttribute_ok h
      have hagainst := validatedSizeAgainst_of_validate (size_le_of_validate hroom hsize) hsize
      unfold fromValidated
      rw [demand_bind ⟨hempty, hkey, rfl, hpositive⟩, List.forM_cons, hinner, hagainst]
      rfl

def nestedCandidate : AttributeValue :=
  .keyValueList [("kinds", .array [.boolean true, .string "log", .null]), ("size", .signedInteger I64.zero)]

theorem release1_validators_agree : release1SystemMaximum.ValidatorsAgree nestedCandidate ∧
    (∃ value, release1SystemMaximum.validateAttribute nestedCandidate = .ok value) ∧
    release1SystemMaximum.validateShape nestedCandidate = .ok ⟨⟩ :=
  ⟨(shape_validators_agree_iff (by decide)).mpr (by decide), ⟨_, rfl⟩, rfl⟩

def fourBytes : ValueLimitProfile where
  system := { release1Limits with individualValueBytes := Unsigned.wrap 32 4 }
  tenant := none
  systemWithin := { ValueLimitSet.Within.refl release1Limits with individualValueBytes := by decide }
  tenantWithin := fun limits hmem => absurd hmem (Option.not_mem_none limits)

/-- A number becomes a value under a profile whose shape check and whose wrapping refuse it. -/
theorem fourBytes_validators_disagree :
    (∃ value, fourBytes.validateAttribute (.signedInteger I64.zero) = .ok value ∧
      fourBytes.fromValidated .record "k" [value] = .error .valueLimitExceeded) ∧
    fourBytes.validateShape (.signedInteger I64.zero) = .error .valueLimitExceeded :=
  ⟨⟨_, rfl, rfl⟩, rfl⟩

end ValueLimitProfile

end Positron.Value
