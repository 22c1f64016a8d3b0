import Positron.Domain
import Positron.Value.Profile

/-! Compilation of an ingest policy, with the canonical bytes that its digest is taken of, and its evaluation on
one record: the rules in order, each on the record that the rules before it have left. Copies of kept
content are taken to succeed. -/

namespace Positron.Policy
open MachineInt ByteCodec Checks Value

abbrev I32 := {v : Int // -2 ^ 31 ≤ v ∧ v < 2 ^ 31}

def maxRules : Nat := 64
def maxCompiledPolicyBytes : Nat := 1048576
def maxEvaluationSteps : Nat := 100000000
def maxNativeRecordBytes : Nat := 1048576
def maxActivatedPolicyObjectBytes : Nat := 1048576

def textHeaderBytes : Nat := 24

inductive PolicyOccurrence where
  | all
  | index (index : U16)
deriving DecidableEq

inductive PolicyPathSegment where
  | key (key : String)
  | arrayIndex (index : U16)
deriving DecidableEq

structure PolicyAttributePath where
  attributeNamespace : AttributeNamespace
  key : String
  occurrence : PolicyOccurrence
  segments : List PolicyPathSegment
deriving DecidableEq

inductive PolicyReceiver where
  | otlpGrpc
  | otlpHttpProtobuf
  | otlpHttpJson
  | lokiPushJson
  | lokiPushProtobuf
  | lokiOtlpProtobuf
  | lokiOtlpJson
deriving DecidableEq

inductive PolicyPredicate where
  | attributeExists (path : PolicyAttributePath)
  | bodyExactText (expected : String)
  | signalStore (signal : SignalKind)
  | receiver (expected : PolicyReceiver)
  | attributeType (path : PolicyAttributePath) (expected : AttributeValueKind)
  | serviceIdentity (expected : String)
  | logSeverity (expected : I32)

inductive PolicyTarget where
  | body
  | attributePath (path : PolicyAttributePath)
deriving DecidableEq

inductive PolicyAction where
  | accept
  | reject
  | remove (target : PolicyTarget)
  | redact (target : PolicyTarget)
  | truncateBytes (target : PolicyTarget) (limit : U32)
  | truncateElements (target : PolicyTarget) (limit : U16)

structure PolicyRule where
  id : String
  predicates : List PolicyPredicate
  action : PolicyAction

structure PolicyBudget where
  evaluationSteps : Nat
  retainedBytes : Nat
  scratchBytes : Nat
  provenanceBytes : Nat
deriving DecidableEq

structure IngestPolicy where
  generation : U64
  digest : FixedBytes 32
  rules : List PolicyRule
  budget : PolicyBudget

inductive PolicyCompileFailure where
  | invalidIdentity
  | ruleBoundExceeded
  | invalidRuleId
  | invalidPredicate
  | policyBytesExceeded
  | protectedTarget
  | evaluationBudgetExceeded
deriving DecidableEq

def checkedAddWord (total value : Nat) : Option Nat :=
  if total + value < 2 ^ 64 then some (total + value) else none

def saturate (value : Nat) : Nat := min value (2 ^ 64 - 1)

def PolicyPathSegment.boundedBytes : PolicyPathSegment → Nat
  | .key name => (utf8 name).length
  | .arrayIndex _ => 2

def PolicyAttributePath.boundedBytes (path : PolicyAttributePath) : Nat :=
  path.segments.foldl (fun bytes segment => saturate (bytes + segment.boundedBytes)) (utf8 path.key).length

def PolicyAttributePath.worstCaseSteps (path : PolicyAttributePath) : Nat :=
  saturate (maxNativeRecordBytes * saturate (path.segments.length + 2))

def PolicyTarget.boundedBytes : PolicyTarget → Nat
  | .body => 1
  | .attributePath path => path.boundedBytes

def PolicyTarget.worstCaseSteps : PolicyTarget → Nat
  | .body => 1
  | .attributePath path => path.worstCaseSteps

/-- The identity of the service a record comes from may be looked into but not replaced. -/
def PolicyTarget.isProtected : PolicyTarget → Bool
  | .body => false
  | .attributePath path =>
    decide (path.attributeNamespace = .resource) && decide (path.key = "service.name") &&
      path.segments.isEmpty

def PolicyPredicate.boundedBytes : PolicyPredicate → Nat
  | .attributeExists path => path.boundedBytes
  | .bodyExactText expected => (utf8 expected).length
  | .signalStore _ | .receiver _ | .logSeverity _ => 4
  | .attributeType path _ => saturate (path.boundedBytes + 1)
  | .serviceIdentity expected => (utf8 expected).length

def PolicyPredicate.worstCaseSteps : PolicyPredicate → Nat
  | .attributeExists path | .attributeType path _ => path.worstCaseSteps
  | .serviceIdentity _ => maxNativeRecordBytes
  | .bodyExactText expected => max (saturate (utf8 expected).length) 1
  | .signalStore _ | .receiver _ | .logSeverity _ => 1

def PolicyAction.boundedBytes : PolicyAction → Nat
  | .accept | .reject => 1
  | .remove target | .redact target => target.boundedBytes
  | .truncateBytes target _ => saturate (target.boundedBytes + 4)
  | .truncateElements target _ => saturate (target.boundedBytes + 2)

def PolicyAction.worstCaseSteps : PolicyAction → Nat
  | .accept | .reject => 1
  | .remove target | .redact target | .truncateBytes target _ | .truncateElements target _ =>
    target.worstCaseSteps

def PolicyAction.hasProtectedTarget : PolicyAction → Bool
  | .accept | .reject => false
  | .remove target | .redact target | .truncateBytes target _ | .truncateElements target _ =>
    target.isProtected

def PolicyRule.worstCaseSteps (rule : PolicyRule) : Except PolicyCompileFailure Nat := do
  let predicates ← orFail (rule.predicates.foldlM
    (fun total predicate => checkedAddWord total predicate.worstCaseSteps) 0) .evaluationBudgetExceeded
  orFail (checkedAddWord predicates rule.action.worstCaseSteps) .evaluationBudgetExceeded

def PolicyRule.boundedBytes (rule : PolicyRule) : Except PolicyCompileFailure Nat := do
  let predicates ← orFail (rule.predicates.foldlM
    (fun total predicate => checkedAddWord total predicate.boundedBytes) 0) .policyBytesExceeded
  orFail (do
    let bytes ← checkedAddWord predicates (utf8 rule.id).length
    checkedAddWord bytes rule.action.boundedBytes) .policyBytesExceeded

abbrev Encoded := Except PolicyCompileFailure Bytes

/-- The text "positron-ingest-policy-v1" and a zero. -/
def magic : Bytes := utf8 "positron-ingest-policy-v1" ++ [0]

def pushText (value : String) : Encoded := do
  demand ((utf8 value).length < 2 ^ 32) .policyBytesExceeded
  pure (beBytes 4 (utf8 value).length ++ utf8 value)

def pushU16 (value : Nat) : Encoded := do
  demand (value < 2 ^ 16) .policyBytesExceeded
  pure (beBytes 2 value)

def encodeAll {α : Type} (encode : α → Encoded) : List α → Encoded
  | [] => pure []
  | x :: xs => do
    let first ← encode x
    let rest ← encodeAll encode xs
    pure (first ++ rest)

def namespaceTag : AttributeNamespace → UInt8
  | .stream => 1
  | .resource => 2
  | .instrumentationScope => 3
  | .record => 4

def receiverTag : PolicyReceiver → UInt8
  | .otlpGrpc => 1
  | .otlpHttpProtobuf => 2
  | .otlpHttpJson => 3
  | .lokiPushJson => 4
  | .lokiPushProtobuf => 5
  | .lokiOtlpProtobuf => 6
  | .lokiOtlpJson => 7

def policySignalTag : SignalKind → UInt8
  | .logs => 1
  | .traces => 2

def kindTag : AttributeValueKind → Except PolicyCompileFailure UInt8
  | .null => .ok 1
  | .boolean => .ok 2
  | .signedInteger => .ok 3
  | .floatingPoint => .ok 4
  | .string => .ok 5
  | .bytes => .ok 6
  | .array => .ok 7
  | .keyValueList => .ok 8
  | .marker => .error .invalidPredicate

def encodeOccurrence : PolicyOccurrence → Bytes
  | .all => [0]
  | .index index => 1 :: beBytes 2 index.1

def encodeSegment : PolicyPathSegment → Encoded
  | .key key => do
    let text ← pushText key
    pure (1 :: text)
  | .arrayIndex index => pure (2 :: beBytes 2 index.1)

def encodePath (path : PolicyAttributePath) : Encoded := do
  let key ← pushText path.key
  let count ← pushU16 path.segments.length
  let segments ← encodeAll encodeSegment path.segments
  pure (namespaceTag path.attributeNamespace :: key ++ encodeOccurrence path.occurrence ++ count ++ segments)

def encodeTarget : PolicyTarget → Encoded
  | .body => pure [1]
  | .attributePath path => do
    let path ← encodePath path
    pure (2 :: path)

def encodePredicate : PolicyPredicate → Encoded
  | .attributeExists path => do
    let path ← encodePath path
    pure (1 :: path)
  | .bodyExactText expected => do
    let text ← pushText expected
    pure (2 :: text)
  | .signalStore signal => pure [3, policySignalTag signal]
  | .receiver expected => pure [4, receiverTag expected]
  | .attributeType path expected => do
    let path ← encodePath path
    let kind ← kindTag expected
    pure (5 :: path ++ [kind])
  | .serviceIdentity expected => do
    let text ← pushText expected
    pure (6 :: text)
  | .logSeverity expected => pure (7 :: beBytes 4 (expected.1 % 2 ^ 32).toNat)

def encodeAction : PolicyAction → Encoded
  | .accept => pure [1]
  | .reject => pure [2]
  | .remove target => do
    let target ← encodeTarget target
    pure (3 :: target)
  | .redact target => do
    let target ← encodeTarget target
    pure (4 :: target)
  | .truncateBytes target limit => do
    let target ← encodeTarget target
    pure (5 :: target ++ beBytes 4 limit.1)
  | .truncateElements target limit => do
    let target ← encodeTarget target
    pure (6 :: target ++ beBytes 2 limit.1)

def encodeRule (rule : PolicyRule) : Encoded := do
  let id ← pushText rule.id
  let count ← pushU16 rule.predicates.length
  let predicates ← encodeAll encodePredicate rule.predicates
  let action ← encodeAction rule.action
  pure (id ++ count ++ predicates ++ action)

def encode (rules : List PolicyRule) : Encoded := do
  let count ← pushU16 rules.length
  let rules ← encodeAll encodeRule rules
  pure (magic ++ count ++ rules)

structure CompileTotals where
  policyBytes : Nat
  evaluationSteps : Nat
  provenanceBytes : Nat

def compileRules (ids : List String) (totals : CompileTotals) :
    List PolicyRule → Except PolicyCompileFailure CompileTotals
  | [] => .ok totals
  | rule :: rules => do
    demand (rule.id ∉ ids) .invalidRuleId
    let bytes ← rule.boundedBytes
    demand (totals.policyBytes + bytes ≤ maxCompiledPolicyBytes) .policyBytesExceeded
    demand (rule.action.hasProtectedTarget = false) .protectedTarget
    let steps ← rule.worstCaseSteps
    demand (totals.evaluationSteps + steps ≤ maxEvaluationSteps) .evaluationBudgetExceeded
    demand (totals.provenanceBytes + (utf8 rule.id).length + textHeaderBytes < 2 ^ 64) .policyBytesExceeded
    compileRules (rule.id :: ids) ⟨totals.policyBytes + bytes, totals.evaluationSteps + steps,
        totals.provenanceBytes + (utf8 rule.id).length + textHeaderBytes⟩ rules

def compile (digestEncoded : Bytes → FixedBytes 32) (generation : U64) (rules : List PolicyRule) :
    Except PolicyCompileFailure IngestPolicy := do
  demand (generation.1 ≠ 0) .invalidIdentity
  demand (rules.length ≤ maxRules) .ruleBoundExceeded
  let totals ← compileRules [] ⟨0, 0, 0⟩ rules
  let encoded ← encode rules
  demand (encoded.length ≤ maxActivatedPolicyObjectBytes - 32) .policyBytesExceeded
  pure { generation := generation, digest := digestEncoded encoded, rules := rules,
         budget := { evaluationSteps := totals.evaluationSteps, retainedBytes := maxNativeRecordBytes,
                     scratchBytes := rules.length * textHeaderBytes,
                     provenanceBytes := totals.provenanceBytes } }

section Budget

def totalSteps : List PolicyRule → Except PolicyCompileFailure Nat
  | [] => .ok 0
  | rule :: rules => do
    let steps ← rule.worstCaseSteps
    let rest ← totalSteps rules
    pure (steps + rest)

variable {rules : List PolicyRule}

theorem compileRules_steps {ids : List String} {totals totals' : CompileTotals}
    (h : compileRules ids totals rules = .ok totals') :
    ∃ steps, totalSteps rules = .ok steps ∧ totals'.evaluationSteps = totals.evaluationSteps + steps := by
  induction rules generalizing ids totals with
  | nil =>
    cases h
    exact ⟨0, rfl, rfl⟩
  | cons rule rules ih =>
    simp only [compileRules, bind_eq_ok_iff] at h
    obtain ⟨_, _, _, _, _, _, _, _, steps, hsteps, _, _, _, _, h⟩ := h
    obtain ⟨rest, hrest, htotal⟩ := ih h
    refine ⟨steps + rest, ?_, ?_⟩
    · rw [totalSteps, hsteps, hrest]
      rfl
    · rw [htotal]
      dsimp only
      omega

theorem compile_steps {digestEncoded : Bytes → FixedBytes 32} {generation : U64}
    {policy : IngestPolicy} (h : compile digestEncoded generation rules = .ok policy) :
    policy.rules = rules ∧ totalSteps rules = .ok policy.budget.evaluationSteps := by
  simp only [compile, bind_eq_ok_iff] at h
  obtain ⟨_, _, _, _, totals, hrules, _, _, _, _, h⟩ := h
  obtain ⟨steps, hsteps, htotal⟩ := compileRules_steps hrules
  cases h
  refine ⟨rfl, ?_⟩
  rw [hsteps, htotal, Nat.zero_add]

end Budget

@[ext]
structure NativePolicyAttribute where
  attributeNamespace : AttributeNamespace
  key : String
  occurrences : List AttributeValue

/-- The record types that policies are evaluated on. Their other parts no policy can reach. -/
class PolicyRecord (C : Type) where
  attributes : C → List NativePolicyAttribute
  withAttributes : C → List NativePolicyAttribute → C
  body : C → Option AttributeValue
  withBody : C → Option AttributeValue → C
  signal : C → SignalKind
  logSeverity : C → Option I32
  attributes_withAttributes : ∀ c a, attributes (withAttributes c a) = a
  attributes_withBody : ∀ c b, attributes (withBody c b) = attributes c
  body_withBody : ∀ c b, body (withBody c b) = b
  body_withAttributes : ∀ c a, body (withAttributes c a) = body c
  withAttributes_attributes : ∀ c, withAttributes c (attributes c) = c
  withAttributes_withAttributes : ∀ c a a', withAttributes (withAttributes c a) a' = withAttributes c a'
  withBody_body : ∀ c, withBody c (body c) = c
  withBody_withBody : ∀ c b b', withBody (withBody c b) b' = withBody c b'
  withBody_withAttributes : ∀ c a b, withBody (withAttributes c a) b = withAttributes (withBody c b) a

attribute [simp] PolicyRecord.attributes_withAttributes PolicyRecord.attributes_withBody
  PolicyRecord.body_withBody PolicyRecord.body_withAttributes PolicyRecord.withAttributes_attributes
  PolicyRecord.withAttributes_withAttributes PolicyRecord.withBody_body PolicyRecord.withBody_withBody

structure LogMetadata where
  severityNumber : I32
  severityText : String
  eventName : String
  traceId : Option (FixedBytes 16)
  spanId : Option (FixedBytes 8)
  flags : U32
  droppedAttributesCount : U32
  resourceDroppedAttributesCount : U32
  resourceSchemaUrl : String
  scopeName : String
  scopeVersion : String
  scopeDroppedAttributesCount : U32
  scopeSchemaUrl : String

structure NativeLogCandidate where
  eventTimeUnixNanos : Option I64
  observedTimeUnixNanos : Option I64
  body : Option AttributeValue
  attributes : List NativePolicyAttribute
  metadata : LogMetadata

structure NativeTraceCandidate where
  body : Option AttributeValue
  attributes : List NativePolicyAttribute

instance : PolicyRecord NativeLogCandidate where
  attributes := (·.attributes)
  withAttributes c a := { c with attributes := a }
  body := (·.body)
  withBody c b := { c with body := b }
  signal _ := .logs
  logSeverity c := some c.metadata.severityNumber
  attributes_withAttributes _ _ := rfl
  attributes_withBody _ _ := rfl
  body_withBody _ _ := rfl
  body_withAttributes _ _ := rfl
  withAttributes_attributes _ := rfl
  withAttributes_withAttributes _ _ _ := rfl
  withBody_body _ := rfl
  withBody_withBody _ _ _ := rfl
  withBody_withAttributes _ _ _ := rfl

instance : PolicyRecord NativeTraceCandidate where
  attributes := (·.attributes)
  withAttributes c a := { c with attributes := a }
  body := (·.body)
  withBody c b := { c with body := b }
  signal _ := .traces
  logSeverity _ := none
  attributes_withAttributes _ _ := rfl
  attributes_withBody _ _ := rfl
  body_withBody _ _ := rfl
  body_withAttributes _ _ := rfl
  withAttributes_attributes _ := rfl
  withAttributes_withAttributes _ _ _ := rfl
  withBody_body _ := rfl
  withBody_withBody _ _ _ := rfl
  withBody_withAttributes _ _ _ := rfl

def PolicyOccurrence.includes : PolicyOccurrence → Nat → Bool
  | .all, _ => true
  | .index expected, position => decide (position = expected.1)

def PolicyAttributePath.names (path : PolicyAttributePath) (attr : NativePolicyAttribute) : Bool :=
  decide (attr.attributeNamespace = path.attributeNamespace) && decide (attr.key = path.key)

def selected {α : Type} (values : List α) (occurrence : PolicyOccurrence) : List α :=
  values.zipIdx.filterMap fun entry => if occurrence.includes entry.2 then some entry.1 else none

def children : PolicyPathSegment → AttributeValue → List AttributeValue
  | .key key, .keyValueList entries => (entries.filter fun entry => decide (entry.1 = key)).map (·.2)
  | .arrayIndex index, .array values => values[index.1]?.toList
  | _, _ => []

/-- The values that the segments of a path lead to. A path looks through truncation wrappers. -/
def valuesAt : List PolicyPathSegment → AttributeValue → List AttributeValue
  | [], value => [value]
  | segment :: rest, value => (children segment value.untruncated).flatMap (valuesAt rest)

def valuePathExists (segments : List PolicyPathSegment) (value : AttributeValue) : Bool :=
  (valuesAt segments value).any fun _ => true

def valuePathHasType (expected : AttributeValueKind) (segments : List PolicyPathSegment)
    (value : AttributeValue) : Bool :=
  (valuesAt segments value).any fun found => decide (found.kind = expected)

variable {C : Type} [PolicyRecord C]

def findAttribute (record : C) (path : PolicyAttributePath) : Option NativePolicyAttribute :=
  (PolicyRecord.attributes record).find? path.names

def pathExists (record : C) (path : PolicyAttributePath) : Bool :=
  (findAttribute record path).any fun attr =>
    (selected attr.occurrences path.occurrence).any (valuePathExists path.segments)

def pathHasType (record : C) (path : PolicyAttributePath) (expected : AttributeValueKind) : Bool :=
  (findAttribute record path).any fun attr =>
    (selected attr.occurrences path.occurrence).any (valuePathHasType expected path.segments)

def candidateText : AttributeValue → Option String
  | .string value => some value
  | .truncated value _ => candidateText value
  | _ => none

/-- The service name itself, not looked for under a wrapper. -/
def isServiceName (expected : String) : AttributeValue → Bool
  | .string actual => decide (actual = expected)
  | _ => false

def PolicyPredicate.holds (record : C) (receiver : PolicyReceiver) : PolicyPredicate → Bool
  | .attributeExists path => pathExists record path
  | .bodyExactText expected =>
    ((PolicyRecord.body record).bind candidateText).any fun actual => decide (actual = expected)
  | .signalStore signal => decide (signal = PolicyRecord.signal record)
  | .receiver expected => decide (expected = receiver)
  | .attributeType path expected => pathHasType record path expected
  | .serviceIdentity expected =>
    (PolicyRecord.attributes record).any fun attr =>
      decide (attr.attributeNamespace = .resource) && decide (attr.key = "service.name") &&
        attr.occurrences.any (isServiceName expected)
  | .logSeverity expected => decide (PolicyRecord.logSeverity record = some expected)

/-- Whether every predicate of the rule holds; `matches` of the source. -/
def PolicyRule.applies (rule : PolicyRule) (record : C) (receiver : PolicyReceiver) : Bool :=
  rule.predicates.all fun predicate => predicate.holds record receiver

inductive Transformation where
  | remove
  | redact
  | truncateBytes (limit : U32)
  | truncateElements (limit : U16)

/-- Replaces the value by a marker of its kind, unless it is one already. -/
def mark (action : MarkerAction) (value : AttributeValue) : AttributeValue × Bool :=
  if value.kind = .marker then (value, false) else (.marker ⟨value.kind, action⟩, true)

/-- The longest prefix of whole characters within the limit, counted in bytes. -/
def prefixWithin : Nat → List Char → List Char
  | _, [] => []
  | limit, c :: cs => if c.utf8Size ≤ limit then c :: prefixWithin (limit - c.utf8Size) cs else []

def truncateBytes (limit : Nat) : AttributeValue → AttributeValue × Bool
  | .string text =>
    if limit < (utf8 text).length then
      (.truncated (.string (String.ofList (prefixWithin limit text.toList))) .truncatedBytes, true)
    else (.string text, false)
  | .bytes bytes =>
    if limit < bytes.length then (.truncated (.bytes (bytes.take limit)) .truncatedBytes, true)
    else (.bytes bytes, false)
  | value => (value, false)

def truncateElements (limit : Nat) : AttributeValue → AttributeValue × Bool
  | .array values =>
    if limit < values.length then (.truncated (.array (values.take limit)) .truncatedElements, true)
    else (.array values, false)
  | .keyValueList entries =>
    if limit < entries.length then
      (.truncated (.keyValueList (entries.take limit)) .truncatedElements, true)
    else (.keyValueList entries, false)
  | value => (value, false)

def transformLeaf : Transformation → AttributeValue → AttributeValue × Bool
  | .remove, value => mark .removed value
  | .redact, value => mark .redacted value
  | .truncateBytes limit, value => truncateBytes limit.1 value
  | .truncateElements limit, value => truncateElements limit.1 value

def throughTruncation (f : AttributeValue → AttributeValue × Bool) : AttributeValue → AttributeValue × Bool
  | .truncated value action =>
    (.truncated (throughTruncation f value).1 action, (throughTruncation f value).2)
  | value => f value

def transformChildren (f : AttributeValue → AttributeValue × Bool) :
    PolicyPathSegment → AttributeValue → AttributeValue × Bool
  | .key key, .keyValueList entries =>
    (.keyValueList (entries.map fun entry => if entry.1 = key then (entry.1, (f entry.2).1) else entry),
      entries.any fun entry => decide (entry.1 = key) && (f entry.2).2)
  | .arrayIndex index, .array values =>
    (.array (values.modify index.1 fun value => (f value).1), values[index.1]?.any fun value => (f value).2)
  | _, value => (value, false)

def transformValue (transformation : Transformation) :
    List PolicyPathSegment → AttributeValue → AttributeValue × Bool
  | [], value => transformLeaf transformation value
  | segment :: rest, value =>
    throughTruncation (transformChildren (transformValue transformation rest) segment) value

def transformSelected (transformation : Transformation) (path : PolicyAttributePath)
    (attr : NativePolicyAttribute) : NativePolicyAttribute × Bool :=
  ({ attr with
      occurrences := attr.occurrences.mapIdx fun index value =>
        if path.occurrence.includes index then (transformValue transformation path.segments value).1
        else value },
    (selected attr.occurrences path.occurrence).any fun value =>
      (transformValue transformation path.segments value).2)

def transformFirst (transformation : Transformation) (path : PolicyAttributePath) :
    List NativePolicyAttribute → List NativePolicyAttribute × Bool
  | [] => ([], false)
  | attr :: attributes =>
    if path.names attr then
      ((transformSelected transformation path attr).1 :: attributes,
        (transformSelected transformation path attr).2)
    else
      (attr :: (transformFirst transformation path attributes).1,
        (transformFirst transformation path attributes).2)

def transformTarget (record : C) (target : PolicyTarget) (transformation : Transformation) : C × Bool :=
  match target with
  | .body =>
    (PolicyRecord.withBody record
        ((PolicyRecord.body record).map fun body => (transformLeaf transformation body).1),
      (PolicyRecord.body record).any fun body => (transformLeaf transformation body).2)
  | .attributePath path =>
    (PolicyRecord.withAttributes record
        (transformFirst transformation path (PolicyRecord.attributes record)).1,
      (transformFirst transformation path (PolicyRecord.attributes record)).2)

inductive PolicyEvaluationFailure where
  | stepBudgetExhausted
  | untrustedMarker
deriving DecidableEq

structure PolicyProvenance where
  generation : U64
  digest : FixedBytes 32
  appliedRules : List String

inductive PolicyEvaluation (C : Type) where
  | accepted (record : C) (provenance : PolicyProvenance)
  | rejected

inductive Outcome (C : Type) where
  | accept
  | reject
  | continues (record : C) (changed : Bool)

def PolicyAction.perform (record : C) : PolicyAction → Outcome C
  | .accept => .accept
  | .reject => .reject
  | .remove target =>
    .continues (transformTarget record target .remove).1 (transformTarget record target .remove).2
  | .redact target =>
    .continues (transformTarget record target .redact).1 (transformTarget record target .redact).2
  | .truncateBytes target limit =>
    .continues (transformTarget record target (.truncateBytes limit)).1
      (transformTarget record target (.truncateBytes limit)).2
  | .truncateElements target limit =>
    .continues (transformTarget record target (.truncateElements limit)).1
      (transformTarget record target (.truncateElements limit)).2

def charge (rule : PolicyRule) : Except PolicyEvaluationFailure Nat :=
  match rule.worstCaseSteps with
  | .ok steps => .ok steps
  | .error _ => .error .stepBudgetExhausted

def consume (steps amount : Nat) : Except PolicyEvaluationFailure Nat :=
  if amount ≤ steps then .ok (steps - amount) else .error .stepBudgetExhausted

/-- The rules in order, with the steps left and the rules applied so far. The record is absent once a
rule rejects it. -/
def evaluateRules (receiver : PolicyReceiver) :
    List PolicyRule → Nat → List String → C → Except PolicyEvaluationFailure (Option C × List String)
  | [], _, applied, record => .ok (some record, applied)
  | rule :: rules, steps, applied, record => do
    let amount ← charge rule
    let steps ← consume steps amount
    if rule.applies record receiver then
      match rule.action.perform record with
      | .accept => .ok (some record, applied ++ [rule.id])
      | .reject => .ok (none, applied ++ [rule.id])
      | .continues record changed =>
        evaluateRules receiver rules steps (if changed then applied ++ [rule.id] else applied) record
    else evaluateRules receiver rules steps applied record

/-- Whether a producer has put a mark of its own into the record. -/
def containsMarker (record : C) : Bool :=
  (PolicyRecord.body record).any (·.containsPolicyMarker) || (PolicyRecord.attributes record).any fun attr =>
      attr.occurrences.any (·.containsPolicyMarker)

/-- What evaluation leaves of a record, which is absent when a rule has rejected it, and the rules applied. -/
structure EvaluationRecord (C : Type) where
  record : Option C
  provenance : PolicyProvenance

def IngestPolicy.evaluateRecord (policy : IngestPolicy) (record : C) (receiver : PolicyReceiver) :
    Except PolicyEvaluationFailure (EvaluationRecord C) := do
  demand (containsMarker record = false) .untrustedMarker
  let (record, applied) ← evaluateRules receiver policy.rules policy.budget.evaluationSteps [] record
  return ⟨record, policy.generation, policy.digest, applied⟩

def EvaluationRecord.evaluation : EvaluationRecord C → PolicyEvaluation C
  | ⟨none, _⟩ => .rejected
  | ⟨some record, provenance⟩ => .accepted record provenance

def IngestPolicy.evaluate (policy : IngestPolicy) (record : NativeLogCandidate)
    (receiver : PolicyReceiver) : Except PolicyEvaluationFailure (PolicyEvaluation NativeLogCandidate) :=
  EvaluationRecord.evaluation <$> policy.evaluateRecord record receiver

def IngestPolicy.evaluateTrace (policy : IngestPolicy) (record : NativeTraceCandidate)
    (receiver : PolicyReceiver) : Except PolicyEvaluationFailure (PolicyEvaluation NativeTraceCandidate) :=
  EvaluationRecord.evaluation <$> policy.evaluateRecord record receiver

/-- `preview_log` and `preview_trace`: whether the record is accepted, and the rules applied in either case. -/
def IngestPolicy.preview (policy : IngestPolicy) (record : C) (receiver : PolicyReceiver) :
    Except PolicyEvaluationFailure (Bool × PolicyProvenance) :=
  (fun evaluated => (evaluated.record.isSome, evaluated.provenance)) <$> policy.evaluateRecord record receiver

end Positron.Policy
