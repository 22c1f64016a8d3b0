import Positron.Policy.Redaction
import Positron.Value.Shapes

/-! What a policy makes of a value has the shape that the value had: transformations leave the collections
and wrappers they pass through in place, and what they put at the end of a path is no greater. -/

namespace Positron.Policy
open MachineInt ByteCodec Checks Value List PolicyRecord

section Values

variable {limits : DynamicValueLimits} {valueBytes depth total size : Nat} {value : AttributeValue}
  {f : AttributeValue → AttributeValue × Bool}

/-- The second value passes the check under the same limits, and is found to be no greater. -/
def ShapeKept (limits : DynamicValueLimits) (valueBytes : Nat) (before after : AttributeValue) : Prop :=
  ∀ depth size, validateCandidate limits valueBytes depth before = .ok size →
    ∃ size' ≤ size, validateCandidate limits valueBytes depth after = .ok size'

theorem ShapeKept.refl (value : AttributeValue) : ShapeKept limits valueBytes value value :=
  fun _ size h => ⟨size, le_rfl, h⟩

theorem prefixWithin_append (limit : Nat) (text : List Char) :
    ∃ rest, text = prefixWithin limit text ++ rest := by
  induction text generalizing limit with
  | nil => exact ⟨[], rfl⟩
  | cons c text ih =>
    rw [prefixWithin]
    split
    · obtain ⟨rest, hrest⟩ := ih (limit - c.utf8Size)
      exact ⟨rest, congrArg (c :: ·) hrest⟩
    · exact ⟨c :: text, rfl⟩

theorem utf8_prefixWithin_le (limit : Nat) (text : String) :
    (utf8 (String.ofList (prefixWithin limit text.toList))).length ≤ (utf8 text).length := by
  obtain ⟨rest, hrest⟩ := prefixWithin_append limit text.toList
  have htext : text = String.ofList (prefixWithin limit text.toList) ++ String.ofList rest := by
    rw [← String.ofList_append, ← hrest, String.ofList_toList]
  conv_rhs => rw [htext]
  simp [utf8]

/-- A collection of fewer values that add up to less is entered as the other one was. -/
theorem collection_kept {count count' limit : Nat} {tooDeep tooMany tooMany' : CandidateShapeFailure}
    {shape shape' : Except CandidateShapeFailure Nat} (hcount : count' ≤ count)
    (hinside : ∀ bytes, shape = .ok bytes → ∃ bytes' ≤ bytes, shape' = .ok bytes')
    (h : (do demand (depth ≠ 0) tooDeep; demand (count ≤ limit) tooMany; shapeWithin valueBytes (← shape)) = .ok size) :
    ∃ size' ≤ size,
      (do demand (depth ≠ 0) tooDeep; demand (count' ≤ limit) tooMany'; shapeWithin valueBytes (← shape')) =
        .ok size' := by
  obtain ⟨_, hdepth, h⟩ := bind_ok h
  obtain ⟨_, hlimit, h⟩ := bind_ok h
  obtain ⟨bytes, hbytes, h⟩ := bind_ok h
  obtain ⟨hle, rfl⟩ := shapeWithin_ok_iff.mp h
  obtain ⟨bytes', hless, hbytes'⟩ := hinside _ hbytes
  refine ⟨bytes', hless, ?_⟩
  rw [demand_bind (demand_eq_ok_iff.mp hdepth), demand_bind (hcount.trans (demand_eq_ok_iff.mp hlimit)),
    bind_eq_of_ok hbytes']
  exact shapeWithin_ok_iff.mpr ⟨hless.trans hle, rfl⟩

theorem shapeKept_array {values values' : List AttributeValue} (hlen : values'.length ≤ values.length)
    (hkept : ∀ (i : Nat) after, values'[i]? = some after →
      ∃ before, values[i]? = some before ∧ ShapeKept limits valueBytes before after) :
    ShapeKept limits valueBytes (.array values) (.array values') := by
  refine fun depth size h => collection_kept hlen (fun bytes hbytes => ?_) h
  rw [validateCandidateValues_eq] at hbytes ⊢
  exact addUp_kept (fun i after hafter => (hkept i after hafter).imp fun _ h => h.imp_right fun h => h _) le_rfl hbytes

theorem shapeKept_keyValueList {entries entries' : List (String × AttributeValue)}
    (hlen : entries'.length ≤ entries.length)
    (hkept : ∀ (i : Nat) after, entries'[i]? = some after →
      ∃ before, entries[i]? = some before ∧ before.1 = after.1 ∧ ShapeKept limits valueBytes before.2 after.2) :
    ShapeKept limits valueBytes (.keyValueList entries) (.keyValueList entries') := by
  refine fun depth size h => collection_kept hlen (fun bytes hbytes => ?_) h
  rw [validateCandidateEntries_eq] at hbytes ⊢
  refine addUp_kept (fun i after hafter => ?_) le_rfl hbytes
  obtain ⟨before, hbefore, hkey, hshape⟩ := hkept i after hafter
  refine ⟨before, hbefore, fun bytes hentry => ?_⟩
  obtain ⟨hkeyFits, hvalue⟩ := candidateEntrySize_ok_iff.mp hentry
  obtain ⟨bytes', hle, hvalue'⟩ := hshape _ bytes hvalue
  exact ⟨bytes', hle, candidateEntrySize_ok_iff.mpr ⟨hkey ▸ hkeyFits, hvalue'⟩⟩

theorem ShapeKept.truncated {before after : AttributeValue} {action : MarkerAction}
    (h : ShapeKept limits valueBytes before after) (hnative : after.isNative)
    (haction : truncationActionValid action after.candidateNativeKind) :
    ShapeKept limits valueBytes before (.truncated after action) := by
  intro depth size hsize
  obtain ⟨size', hle, hsize'⟩ := h depth size hsize
  refine ⟨size', hle, ?_⟩
  rw [validateCandidate, demand_bind ⟨hnative, haction⟩, bind_eq_of_ok hsize']
  exact shapeWithin_ok_iff.mpr ⟨(validateCandidate_ok_iff.mp hsize').2, rfl⟩

theorem shapeKept_transformLeaf (t : Transformation) (value : AttributeValue) :
    ShapeKept limits valueBytes value (transformLeaf t value).1 := by
  have hchange := transformLeaf_change t value
  generalize transformLeaf t value = result at hchange
  cases hchange with
  | same => exact .refl value
  | marked value action haction hkind =>
    intro depth size h
    refine ⟨0, Nat.zero_le _, ?_⟩
    rw [validateCandidate, demand_bind]
    · exact shapeWithin_ok_iff.mpr ⟨Nat.zero_le _, rfl⟩
    · rcases haction with rfl | rfl <;> simp [RedactionMarker.isValid, hkind]
  | string text limit =>
    refine .truncated (fun depth size h => ?_) rfl rfl
    obtain ⟨hle, rfl⟩ := shapeWithin_ok_iff.mp h
    have hshort := utf8_prefixWithin_le limit text
    exact ⟨_, hshort, shapeWithin_ok_iff.mpr ⟨hshort.trans hle, rfl⟩⟩
  | bytes bytes limit =>
    refine .truncated (fun depth size h => ?_) rfl rfl
    obtain ⟨hle, rfl⟩ := shapeWithin_ok_iff.mp h
    have hshort := length_take_le' limit bytes
    exact ⟨_, hshort, shapeWithin_ok_iff.mpr ⟨hshort.trans hle, rfl⟩⟩
  | array values limit =>
    refine .truncated (shapeKept_array (length_take_le' limit values) ?_) rfl rfl
    exact fun i after hafter => ⟨after, getElem?_of_take hafter, .refl after⟩
  | keyValueList entries limit =>
    refine .truncated (shapeKept_keyValueList (length_take_le' limit entries) ?_) rfl rfl
    exact fun i after hafter => ⟨after, getElem?_of_take hafter, rfl, .refl after.2⟩

theorem shapeKept_transformChildren (hf : ∀ value, ShapeKept limits valueBytes value (f value).1)
    (segment : PolicyPathSegment) (value : AttributeValue) :
    ShapeKept limits valueBytes value (transformChildren f segment value).1 := by
  cases segment with
  | key key =>
    cases value with
    | keyValueList entries =>
      refine shapeKept_keyValueList (length_map _).le ?_
      intro i after hafter
      rw [getElem?_map] at hafter
      obtain ⟨before, hbefore, rfl⟩ := Option.map_eq_some_iff.mp hafter
      refine ⟨before, hbefore, ?_⟩
      split
      · exact ⟨rfl, hf before.2⟩
      · exact ⟨rfl, .refl before.2⟩
    | _ => exact .refl _
  | arrayIndex index =>
    cases value with
    | array values =>
      refine shapeKept_array (length_modify _ _ _).le ?_
      intro i after hafter
      rw [getElem?_modify] at hafter
      obtain ⟨before, hbefore, rfl⟩ := Option.map_eq_some_iff.mp hafter
      refine ⟨before, hbefore, ?_⟩
      split
      · exact hf before
      · exact .refl before
    | _ => exact .refl _

theorem transformChildren_isNative (segment : PolicyPathSegment) (value : AttributeValue) :
    (transformChildren f segment value).1.isNative = value.isNative := by
  cases segment <;> cases value <;> rfl

theorem transformChildren_candidateNativeKind (segment : PolicyPathSegment) (value : AttributeValue) :
    (transformChildren f segment value).1.candidateNativeKind = value.candidateNativeKind := by
  cases segment <;> cases value <;> rfl

theorem throughTruncation_of_isNative (hnative : value.isNative) : throughTruncation f value = f value := by
  cases value with
  | truncated => cases hnative
  | _ => rfl

/-- A path leads on from the one wrapper that may stand around a value, and what it leads to stays of the
kind that the wrapper is for. -/
theorem shapeKept_throughTruncation (hf : ∀ value, ShapeKept limits valueBytes value (f value).1)
    (segment : PolicyPathSegment) (value : AttributeValue) :
    ShapeKept limits valueBytes value (throughTruncation (transformChildren f segment) value).1 := by
  cases value with
  | truncated value action =>
    intro depth size h
    obtain ⟨_, hwrapped, h⟩ := bind_ok h
    obtain ⟨bytes, hbytes, h⟩ := bind_ok h
    obtain ⟨-, rfl⟩ := shapeWithin_ok_iff.mp h
    obtain ⟨hnative, haction⟩ := demand_eq_ok_iff.mp hwrapped
    rw [throughTruncation, throughTruncation_of_isNative hnative]
    refine (shapeKept_transformChildren hf segment value).truncated ?_ ?_ depth _ hbytes
    · rw [transformChildren_isNative, hnative]
    · rw [transformChildren_candidateNativeKind, haction]
  | _ => exact shapeKept_transformChildren hf segment _

theorem shapeKept_transformValue (t : Transformation) (segments : List PolicyPathSegment) (value : AttributeValue) :
    ShapeKept limits valueBytes value (transformValue t segments value).1 := by
  induction segments generalizing value with
  | nil => exact shapeKept_transformLeaf t value
  | cons segment segments ih => exact shapeKept_throughTruncation ih segment value

end Values

section Records

variable {C : Type} [PolicyRecord C] {profile : ValueLimitProfile} {record : C}

theorem validateShape_of_kept {before after : AttributeValue} (hshape : profile.validateShape before = .ok ⟨⟩)
    (hkept : ShapeKept profile.effectiveLimits.dynamicValue profile.effectiveLimits.individualValueBytes.1
      before after) : profile.validateShape after = .ok ⟨⟩ := by
  obtain ⟨size, hsize⟩ := ValueLimitProfile.validateShape_ok_iff.mp hshape
  obtain ⟨size', -, hsize'⟩ := hkept _ _ hsize
  exact ValueLimitProfile.validateShape_ok_iff.mpr ⟨size', hsize'⟩

/-- The body and every occurrence of an attribute pass the shape check of the profile. -/
structure ShapesValid (profile : ValueLimitProfile) (record : C) : Prop where
  body : ∀ body, PolicyRecord.body record = some body → profile.validateShape body = .ok ⟨⟩
  occurrences : ∀ attr ∈ PolicyRecord.attributes record, ∀ value ∈ attr.occurrences,
    profile.validateShape value = .ok ⟨⟩

theorem ShapesValid.transformTarget (h : ShapesValid profile record) (target : PolicyTarget) (t : Transformation) :
    ShapesValid profile (transformTarget record target t).1 := by
  cases target with
  | body =>
    refine ⟨?_, ?_⟩
    · intro body hbody
      rw [Policy.transformTarget, body_withBody] at hbody
      obtain ⟨before, hbefore, rfl⟩ := Option.map_eq_some_iff.mp hbody
      exact validateShape_of_kept (h.body before hbefore) (shapeKept_transformLeaf t before)
    · rw [Policy.transformTarget, attributes_withBody]
      exact h.occurrences
  | attributePath path =>
    refine ⟨?_, ?_⟩
    · rw [Policy.transformTarget, body_withAttributes]
      exact h.body
    · intro attr hattr value hval
      rw [Policy.transformTarget, attributes_withAttributes] at hattr
      obtain ⟨index, hindex⟩ := mem_iff_getElem?.mp hattr
      rcases transformFirst_getElem? t path (PolicyRecord.attributes record) index with
        hsame | ⟨before, hbefore, -, hafter⟩
      · rw [hsame] at hindex
        exact h.occurrences attr (mem_of_getElem? hindex) value hval
      · rw [hafter] at hindex
        cases hindex
        obtain ⟨place, hplace⟩ := mem_iff_getElem?.mp hval
        rw [transformSelected, getElem?_mapIdx] at hplace
        obtain ⟨found, hfound, rfl⟩ := Option.map_eq_some_iff.mp hplace
        have hshape := h.occurrences before (mem_of_getElem? hbefore) found (mem_of_getElem? hfound)
        split
        · exact validateShape_of_kept hshape (shapeKept_transformValue t path.segments found)
        · exact hshape

/-- Whatever the rules of a compiled policy are, evaluation ends within the budget, and what it accepts has
values of the shapes that the profile lets through. -/
theorem policy_output_keeps_shape {digestEncoded : Bytes → FixedBytes 32} {generation : U64}
    {rules : List PolicyRule} {policy : IngestPolicy} (hcompiled : compile digestEncoded generation rules = .ok policy)
    (hfree : containsMarker record = false) (hshapes : ShapesValid profile record) (receiver : PolicyReceiver) :
    (∃ result, policy.evaluateRecord record receiver = .ok result) ∧
      ∀ out provenance, policy.evaluateRecord record receiver = .ok ⟨some out, provenance⟩ →
        ShapesValid profile out := by
  refine ⟨evaluateRecord_total hcompiled hfree, ?_⟩
  intro out provenance haccepted
  exact evaluateRules_invariant (I := fun _ record => ShapesValid profile record) (fun _ _ _ h => h)
    (fun _ _ target t _ _ _ h => h.transformTarget target t) (evaluateRecord_accepted hfree haccepted) hshapes

def shortenToken : PolicyRule := ⟨"shorten-token", [], .truncateBytes (.attributePath tokenPath) (Unsigned.wrap 32 3)⟩

theorem shortened_token_keeps_shape :
    ∃ policy, compile zeroDigest ⟨1, one_lt_word⟩ [shortenToken] = .ok policy ∧ ∃ out provenance,
      policy.evaluateRecord (tokenLog "alpha") .otlpGrpc = .ok ⟨some out, provenance⟩ ∧
        out.attributes = [⟨.record, "token", [.truncated (.string "alp") .truncatedBytes]⟩] ∧
        ShapesValid .release1SystemMaximum out := by
  refine ⟨_, rfl, _, _, rfl, rfl, ?_⟩
  have hshapes : ShapesValid .release1SystemMaximum (tokenLog "alpha") := by
    refine ⟨?_, ?_⟩
    · intro body hbody
      cases hbody
      rfl
    · intro attr hattr value hval
      cases mem_singleton.mp hattr
      cases mem_singleton.mp hval
      rfl
  exact (@policy_output_keeps_shape NativeLogCandidate _ .release1SystemMaximum (tokenLog "alpha") zeroDigest
    ⟨1, one_lt_word⟩ [shortenToken] _ rfl rfl hshapes .otlpGrpc).2 _ _ rfl

end Records

end Positron.Policy
