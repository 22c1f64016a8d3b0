import Mathlib.Data.List.Dedup
import Positron.Lib.Runs
import Positron.Policy.Redaction

/-! The preview of a policy: a policy built from a JSON document, and the report of what changes from one to
another. The report looks rules up by their identifiers, while evaluation takes them in order: two orders of the same
rules evaluate alike unless rules interact that they have in opposite orders. How the text of a document or of a rule
is decoded is left open. -/

namespace Positron.Policy.Preview
open MachineInt Checks ByteCodec Runs List

deriving instance DecidableEq for PolicyPredicate, PolicyAction

inductive PolicyPreviewFailure where
  | requestTooLarge
  | malformedCandidate
  | invalidPolicy

structure PreviewRule where
  predicates : List PolicyPredicate
  action : PolicyAction
deriving DecidableEq

structure PolicyPreviewPolicy where
  compiled : IngestPolicy
  rules : List (String × PreviewRule)

structure RuleLists where
  compiled : List PolicyRule
  preview : List (String × PreviewRule)

section Building

variable (digestEncoded : Bytes → FixedBytes 32) {Json : Type}
  (parseJson : Bytes → Except PolicyPreviewFailure (U64 × List Json))
  (parseRule : Json → Except PolicyPreviewFailure PolicyRule)

def addRule (rules : RuleLists) (value : Json) : Except PolicyPreviewFailure RuleLists := do
  let rule ← parseRule value
  demand (rules.preview.lookup rule.id = none) .invalidPolicy
  return ⟨rules.compiled ++ [rule], rules.preview ++ [(rule.id, ⟨rule.predicates, rule.action⟩)]⟩

def fromJson (bytes : Bytes) : Except PolicyPreviewFailure PolicyPreviewPolicy := do
  demand (bytes.length ≤ 65536) .requestTooLarge
  let (generation, values) ← parseJson bytes
  let rules ← values.foldlM (addRule parseRule) ⟨[], []⟩
  match compile digestEncoded generation rules.compiled with
  | .ok compiled => .ok ⟨compiled, rules.preview⟩
  | .error _ => .error .invalidPolicy

end Building

def actionName : PolicyAction → String
  | .accept => "accept"
  | .reject => "reject"
  | .remove _ => "remove"
  | .redact _ => "redact"
  | .truncateBytes _ _ => "truncate_bytes"
  | .truncateElements _ _ => "truncate_elements"

inductive PolicyPreviewSemanticChange where
  | generationChanged (old new : U64)
  | ruleAdded (ruleId action : String)
  | ruleRemoved (ruleId action : String)
  | rulePredicatesChanged (ruleId : String)
  | ruleActionChanged (old new : String)

def ruleChanges (id : String) : Option PreviewRule → Option PreviewRule → List PolicyPreviewSemanticChange
  | none, some rule => [.ruleAdded id (actionName rule.action)]
  | some rule, none => [.ruleRemoved id (actionName rule.action)]
  | some left, some right =>
    (if left.predicates = right.predicates then [] else [.rulePredicatesChanged id]) ++
      if left.action = right.action then [] else [.ruleActionChanged (actionName left.action) (actionName right.action)]
  | none, none => []

/-- The identifiers come in order and each once. -/
def diff (before after : PolicyPreviewPolicy) : List PolicyPreviewSemanticChange :=
  (if before.compiled.generation = after.compiled.generation then []
    else [.generationChanged before.compiled.generation after.compiled.generation]) ++
  ((map Prod.fst (before.rules ++ after.rules)).dedup.mergeSort (· ≤ ·)).flatMap fun id =>
    ruleChanges id (before.rules.lookup id) (after.rules.lookup id)

variable {digestEncoded : Bytes → FixedBytes 32} {Json : Type} {id : String}
  {parseJson : Bytes → Except PolicyPreviewFailure (U64 × List Json)}
  {parseRule : Json → Except PolicyPreviewFailure PolicyRule} {policy before after : PolicyPreviewPolicy}

theorem ruleChanges_eq_nil_iff {left right : Option PreviewRule} :
    ruleChanges id left right = [] ↔ left = right := by
  cases left with
  | none => cases right <;> simp [ruleChanges]
  | some left =>
    cases right with
    | none => simp [ruleChanges]
    | some right =>
      cases left
      cases right
      simp [ruleChanges]

theorem lookup_eq_none_iff_notMem {rules : List (String × PreviewRule)} :
    rules.lookup id = none ↔ id ∉ rules.map Prod.fst := by
  simp only [lookup_eq_none_iff, mem_map, bne_iff_ne, ne_comm, not_exists, not_and, ne_eq]

theorem diff_eq_nil_iff : diff before after = [] ↔ before.compiled.generation = after.compiled.generation ∧
    ∀ id, before.rules.lookup id = after.rules.lookup id := by
  simp only [diff, append_eq_nil_iff, flatMap_eq_nil_iff, mem_mergeSort, mem_dedup, ruleChanges_eq_nil_iff,
    ite_eq_left_iff, cons_ne_nil, imp_false, not_not, map_append, mem_append]
  refine and_congr_right fun _ => ⟨fun h id => ?_, fun h id _ => h id⟩
  by_cases hid : id ∈ before.rules.map Prod.fst ∨ id ∈ after.rules.map Prod.fst
  · exact h id hid
  · obtain ⟨hleft, hright⟩ := not_or.mp hid
    rw [lookup_eq_none_iff_notMem.mpr hleft, lookup_eq_none_iff_notMem.mpr hright]

def listed (rules : List PolicyRule) : List (String × PreviewRule) :=
  rules.map fun rule => (rule.id, ⟨rule.predicates, rule.action⟩)

theorem map_fst_listed (rules : List PolicyRule) : (listed rules).map Prod.fst = rules.map (·.id) := map_map

theorem addRule_listed {rules rules' : RuleLists} {value : Json} (h : addRule parseRule rules value = .ok rules')
    (hlisted : rules.preview = listed rules.compiled ∧ (rules.compiled.map (·.id)).Nodup) :
    rules'.preview = listed rules'.compiled ∧ (rules'.compiled.map (·.id)).Nodup := by
  obtain ⟨hpreview, hnodup⟩ := hlisted
  obtain ⟨rule, _, h⟩ := bind_ok h
  obtain ⟨_, hnew, h⟩ := bind_ok h
  cases h
  have hnew := lookup_eq_none_iff_notMem.mp (demand_eq_ok_iff.mp hnew)
  rw [hpreview, map_fst_listed] at hnew
  refine ⟨?_, ?_⟩
  · rw [hpreview, listed, listed, map_append]
    rfl
  · rw [map_append]
    exact nodup_append.mpr ⟨hnodup, nodup_singleton _, by simpa using hnew⟩

theorem fromJson_ok {bytes : Bytes} (h : fromJson digestEncoded parseJson parseRule bytes = .ok policy) :
    compile digestEncoded policy.compiled.generation policy.compiled.rules = .ok policy.compiled ∧
      policy.rules = listed policy.compiled.rules ∧ (policy.compiled.rules.map (·.id)).Nodup := by
  obtain ⟨_, _, h⟩ := bind_ok h
  obtain ⟨⟨generation, values⟩, _, h⟩ := bind_ok h
  obtain ⟨rules, hrules, h⟩ := bind_ok h
  have hlisted := foldlM_keeps (b := ⟨[], []⟩) _ (fun _ _ _ hkept hadd => addRule_listed hadd hkept)
    ⟨rfl, nodup_nil⟩ hrules
  split at h
  · rename_i compiled hcompile
    cases h
    have hgeneration : compiled.generation = generation := by
      simp only [compile, bind_eq_ok_iff] at hcompile
      obtain ⟨_, _, _, _, _, _, _, _, _, _, hcompiled⟩ := hcompile
      cases hcompiled
      rfl
    rw [hgeneration, (compile_steps hcompile).1]
    exact ⟨hcompile, hlisted⟩
  · cases h

/-- Rules with distinct identifiers are known, but for their order, from what stands under each identifier. -/
theorem perm_of_lookup_eq {rules rules' : List PolicyRule} (hnodup : (rules.map (·.id)).Nodup)
    (hnodup' : (rules'.map (·.id)).Nodup) (h : ∀ id, (listed rules).lookup id = (listed rules').lookup id) :
    rules.Perm rules' := by
  have hmem : ∀ {rules : List PolicyRule}, (rules.map (·.id)).Nodup → ∀ rule,
      rule ∈ rules ↔ (listed rules).lookup rule.id = some ⟨rule.predicates, rule.action⟩ := by
    intro rules hnodup rule
    induction rules with
    | nil => exact iff_of_false not_mem_nil (by simp [listed])
    | cons head rules ih =>
      obtain ⟨hnew, hnodup⟩ := nodup_cons.mp hnodup
      have hlisted : listed (head :: rules) = (head.id, ⟨head.predicates, head.action⟩) :: listed rules := rfl
      rw [mem_cons, ih hnodup, hlisted, lookup_cons]
      by_cases hid : rule.id = head.id
      · have hrest : (listed rules).lookup rule.id = none := by
          rwa [hid, lookup_eq_none_iff_notMem, map_fst_listed]
        rw [hrest, hid, beq_self_eq_true]
        cases rule
        cases head
        simp only at hid
        simp [hid, eq_comm]
      · rw [beq_false_of_ne hid]
        exact or_iff_right fun heq => hid (congrArg (·.id) heq)
  refine (perm_ext_iff_of_nodup hnodup.of_map hnodup'.of_map).mpr fun rule => ?_
  rw [hmem hnodup, hmem hnodup', h]

section Courses

variable {C : Type} [PolicyRecord C] {receiver : PolicyReceiver} {p q rule : PolicyRule} {rules : List PolicyRule}
  {record : C}

variable (receiver) in
/-- Whether the rule does something to the record: it accepts or rejects it, or it changes it. -/
def acts (rule : PolicyRule) (record : C) : Bool :=
  rule.applies record receiver && match rule.action.perform record with
    | .continues _ changed => changed
    | _ => true

/-- The record that the rule leaves to the rules behind it. One that accepts or rejects leaves none. -/
def leaves (rule : PolicyRule) (record : C) : Option C :=
  match rule.action.perform record with
  | .continues record _ => some record
  | _ => none

variable (receiver) in
/-- Both rules act on the record, or the second one on what the first one leaves of it. -/
def ActsAfter (p q : PolicyRule) (record : C) : Prop :=
  acts receiver p record ∧ (acts receiver q record ∨ ∃ next ∈ leaves p record, acts receiver q next)

variable (receiver) in
def Interact (p q : PolicyRule) (record : C) : Prop :=
  ActsAfter receiver p q record ∨ ActsAfter receiver q p record

variable (receiver) in
/-- What becomes of a record, with the rules that act on it. -/
def course : List PolicyRule → C → Option C × List String
  | [], record => (some record, [])
  | rule :: rules, record =>
    if acts receiver rule record then
      match rule.action.perform record with
      | .accept => (some record, [rule.id])
      | .reject => (none, [rule.id])
      | .continues next _ => ((course rules next).1, rule.id :: (course rules next).2)
    else course rules record

theorem course_of_inert (h : acts receiver rule record = false) :
    course receiver (rule :: rules) record = course receiver rules record := by
  rw [course, h]
  rfl

theorem course_of_leaves {next : C} (h : acts receiver rule record = true) (hnext : leaves rule record = some next) :
    course receiver (rule :: rules) record =
      ((course receiver rules next).1, rule.id :: (course receiver rules next).2) := by
  rw [course, h, if_pos rfl]
  unfold leaves at hnext
  split at hnext
  · rename_i hperform
    cases hnext
    rw [hperform]
  · cases hnext

theorem course_of_stops (h : acts receiver rule record = true) (hnext : leaves rule record = none)
    (rules rules' : List PolicyRule) :
    course receiver (rule :: rules) record = course receiver (rule :: rules') record ∧
      (course receiver (rule :: rules) record).2 = [rule.id] := by
  rw [course, course, h, if_pos rfl, if_pos rfl]
  unfold leaves at hnext
  cases hperform : rule.action.perform record with
  | accept => exact ⟨rfl, rfl⟩
  | reject => exact ⟨rfl, rfl⟩
  | continues next changed =>
    rw [hperform] at hnext
    cases hnext

/-- A rule that acts alone of the two acts alike before and behind the other. -/
theorem course_swap_of_acts {rest : List PolicyRule} (hp : acts receiver p record = true)
    (h : ¬ ActsAfter receiver p q record) :
    course receiver (p :: q :: rest) record = course receiver (q :: p :: rest) record := by
  have hq : acts receiver q record = false := Bool.eq_false_iff.mpr fun hacts => h ⟨hp, .inl hacts⟩
  rw [course_of_inert hq]
  cases hnext : leaves p record with
  | none => exact (course_of_stops hp hnext _ _).1
  | some next =>
    have hinert : acts receiver q next = false :=
      Bool.eq_false_iff.mpr fun hacts => h ⟨hp, .inr ⟨next, hnext, hacts⟩⟩
    rw [course_of_leaves hp hnext, course_of_leaves hp hnext, course_of_inert hinert]

theorem course_swap {rest : List PolicyRule} (h : ¬ Interact receiver p q record) :
    course receiver (p :: q :: rest) record = course receiver (q :: p :: rest) record := by
  obtain ⟨hpq, hqp⟩ := not_or.mp h
  cases hp : acts receiver p record with
  | true => exact course_swap_of_acts hp hpq
  | false =>
    cases hq : acts receiver q record with
    | true => exact (course_swap_of_acts hq hqp).symm
    | false => rw [course_of_inert hp, course_of_inert hq, course_of_inert hq, course_of_inert hp]

theorem course_congr {rules' : List PolicyRule} (rule : PolicyRule)
    (h : ∀ record : C, course receiver rules record = course receiver rules' record) (record : C) :
    course receiver (rule :: rules) record = course receiver (rule :: rules') record := by
  cases hacts : acts receiver rule record with
  | false => rw [course_of_inert hacts, course_of_inert hacts, h]
  | true =>
    cases hnext : leaves rule record with
    | none => exact (course_of_stops hacts hnext _ _).1
    | some next => rw [course_of_leaves hacts hnext, course_of_leaves hacts hnext, h]

theorem course_skip {front : List PolicyRule} (h : ∀ rule ∈ front, acts receiver rule record = false) :
    course receiver (front ++ rules) record = course receiver rules record := by
  induction front with
  | nil => rfl
  | cons rule front ih =>
    obtain ⟨hhead, htail⟩ := forall_mem_cons.mp h
    rw [cons_append, course_of_inert hhead, ih htail]

theorem course_ids {id : String} (h : id ∈ (course receiver rules record).2) : id ∈ rules.map (·.id) := by
  induction rules generalizing record with
  | nil => cases h
  | cons rule rules ih =>
    rw [map_cons, mem_cons]
    cases hacts : acts receiver rule record with
    | false =>
      rw [course_of_inert hacts] at h
      exact .inr (ih h)
    | true =>
      cases hnext : leaves rule record with
      | none =>
        rw [(course_of_stops hacts hnext rules rules).2] at h
        exact .inl (mem_singleton.mp h)
      | some next =>
        rw [course_of_leaves hacts hnext] at h
        exact (mem_cons.mp h).imp_right ih

/-- With steps for every rule, evaluation takes the course of the record. -/
theorem evaluateRules_course {steps total : Nat} (htotal : totalSteps rules = .ok total) (hsteps : total ≤ steps)
    (applied : List String) (record : C) : evaluateRules receiver rules steps applied record =
      .ok ((course receiver rules record).1, applied ++ (course receiver rules record).2) := by
  induction rules generalizing steps total applied record with
  | nil => rw [evaluateRules, course, append_nil]
  | cons rule rules ih =>
    obtain ⟨amount, hamount, htotal⟩ := bind_ok htotal
    obtain ⟨rest, hrest, htotal⟩ := bind_ok htotal
    cases htotal
    have hcharge : charge rule = .ok amount := by rw [charge, hamount]
    have hconsume : consume steps amount = .ok (steps - amount) := if_pos (by omega)
    have hleft : rest ≤ steps - amount := by omega
    rw [evaluateRules, bind_eq_of_ok hcharge, bind_eq_of_ok hconsume, course, acts]
    by_cases happlies : rule.applies record receiver = true
    · rw [if_pos happlies, happlies, Bool.true_and]
      rcases perform_cases rule.action record with ⟨_, haccept | hreject⟩ | ⟨target, t, _, hperform⟩
      · rw [haccept]
        rfl
      · rw [hreject]
        rfl
      · rw [hperform]
        dsimp only
        split
        · rw [ih hrest hleft, append_assoc]
          rfl
        · rename_i hchanged
          rw [transformTarget_unchanged (Bool.eq_false_iff.mpr hchanged)]
          exact ih hrest hleft applied record
    · rw [if_neg happlies, Bool.eq_false_iff.mpr happlies, Bool.false_and]
      exact ih hrest hleft applied record

theorem evaluateRecord_course {digestEncoded : Bytes → FixedBytes 32} {generation : U64} {policy : IngestPolicy}
    (hcompiled : compile digestEncoded generation rules = .ok policy) (hfree : containsMarker record = false) :
    policy.evaluateRecord record receiver = .ok ⟨(course receiver rules record).1, policy.generation, policy.digest,
      (course receiver rules record).2⟩ := by
  obtain ⟨hrules, htotal⟩ := compile_steps hcompiled
  rw [evaluateRecord_eq hfree, hrules, evaluateRules_course htotal (Nat.le_refl _)]
  rfl

theorem course_cons_of_acts (h : acts receiver rule record = true) (rules : List PolicyRule) :
    ∃ tail, (course receiver (rule :: rules) record).2 = rule.id :: tail := by
  cases hnext : leaves rule record with
  | none => exact ⟨[], (course_of_stops h hnext rules rules).2⟩
  | some next => exact ⟨_, congrArg Prod.snd (course_of_leaves h hnext)⟩

/-- None of the other rules acts on the record or on what one of the two leaves of it. -/
def Alone (receiver : PolicyReceiver) (rules : List PolicyRule) (p q : PolicyRule) (record : C) : Prop :=
  ∀ rule ∈ rules, rule ≠ p → rule ≠ q →
    ∀ found, found = record ∨ found ∈ leaves p record ∨ found ∈ leaves q record → acts receiver rule found = false

theorem Alone.symm (h : Alone receiver rules p q record) : Alone receiver rules q p record :=
  fun rule hmem hq hp found hfound => h rule hmem hp hq found (hfound.imp_right Or.symm)

theorem exists_of_pair_sublist {α : Type} {xs : List α} {a b : α} (h : [a, b].Sublist xs) :
    ∃ front middle back, xs = front ++ a :: (middle ++ b :: back) := by
  obtain ⟨before, behind, rfl, ha, hb⟩ := cons_sublist_iff.mp h
  obtain ⟨front, middle, rfl⟩ := append_of_mem ha
  obtain ⟨middle', back, rfl⟩ := append_of_mem (singleton_sublist.mp hb)
  exact ⟨front, middle ++ middle', back, by simp⟩

theorem apart_of_nodup {front middle back : List PolicyRule}
    (h : ((front ++ p :: (middle ++ q :: back)).map (·.id)).Nodup) :
    p.id ≠ q.id ∧ (∀ rule ∈ front ++ middle, rule ≠ p ∧ rule ≠ q) ∧ p.id ∉ back.map (·.id) := by
  simp only [map_append, map_cons, nodup_append, nodup_cons, mem_append, mem_cons, mem_map] at h
  obtain ⟨-, ⟨hp, -, -, hmiddle⟩, hfront⟩ := h
  refine ⟨fun heq => hp (.inr (.inl heq)), fun rule hmem => ⟨?_, ?_⟩, ?_⟩
  · rintro rfl
    rcases mem_append.mp hmem with hmem | hmem
    · exact hfront _ ⟨rule, hmem, rfl⟩ _ (.inl rfl) rfl
    · exact hp (.inl ⟨rule, hmem, rfl⟩)
  · rintro rfl
    rcases mem_append.mp hmem with hmem | hmem
    · exact hfront _ ⟨rule, hmem, rfl⟩ _ (.inr (.inr (.inl rfl))) rfl
    · exact hmiddle _ ⟨rule, hmem, rfl⟩ _ (.inl rfl) rfl
  · intro hback
    exact hp (.inr (.inr (mem_map.mp hback)))

/-- Two orders of two rules that interact on a record differ on it, where no other rule takes part. -/
theorem course_ne_of_actsAfter {rules' : List PolicyRule} (hopposed : Opposed rules rules' p q)
    (hnodup : (rules.map (·.id)).Nodup) (hnodup' : (rules'.map (·.id)).Nodup)
    (halone : Alone receiver rules p q record) (halone' : Alone receiver rules' p q record)
    (h : ActsAfter receiver p q record) : (course receiver rules record).2 ≠ (course receiver rules' record).2 := by
  obtain ⟨front, middle, back, rfl⟩ := exists_of_pair_sublist hopposed.1
  obtain ⟨front', middle', back', rfl⟩ := exists_of_pair_sublist hopposed.2
  obtain ⟨hpq, hothers, -⟩ := apart_of_nodup hnodup
  obtain ⟨-, hothers', hbehind⟩ := apart_of_nodup hnodup'
  obtain ⟨hp, hafter⟩ := h
  have hfront : ∀ rule ∈ front, acts receiver rule record = false := fun rule hmem =>
    halone rule (by simp [hmem]) (hothers rule (mem_append_left _ hmem)).1
      (hothers rule (mem_append_left _ hmem)).2 record (.inl rfl)
  have hfront' : ∀ rule ∈ front' ++ middle', acts receiver rule record = false := by
    intro rule hmem
    refine halone' rule ?_ (hothers' rule hmem).2 (hothers' rule hmem).1 record (.inl rfl)
    rcases mem_append.mp hmem with hmem | hmem <;> simp [hmem]
  obtain ⟨tail, htail⟩ := course_cons_of_acts hp (middle ++ q :: back)
  rw [course_skip hfront, course_skip fun rule hmem => hfront' rule (mem_append_left _ hmem)]
  cases hq : acts receiver q record with
  | true =>
    obtain ⟨tail', htail'⟩ := course_cons_of_acts hq (middle' ++ p :: back')
    rw [htail, htail']
    exact fun heq => hpq (cons.inj heq).1
  | false =>
    obtain ⟨next, hnext, hacts⟩ := hafter.resolve_left (by rw [hq]; exact Bool.false_ne_true)
    have hmiddle : ∀ rule ∈ middle, acts receiver rule next = false := fun rule hmem =>
      halone rule (by simp [hmem]) (hothers rule (mem_append_right _ hmem)).1
        (hothers rule (mem_append_right _ hmem)).2 next (.inr (.inl hnext))
    obtain ⟨tail', htail'⟩ := course_cons_of_acts hacts back
    rw [course_of_inert hq, course_skip fun rule hmem => hfront' rule (mem_append_right _ hmem),
      course_of_leaves hp hnext, course_of_leaves hp hnext, course_skip hmiddle, htail']
    intro heq
    exact hbehind (course_ids ((cons.inj heq).2 ▸ mem_cons_self))

end Courses

/-- What the rules make of the record, and which of them were applied. -/
def SameResult {C : Type} [PolicyRecord C] (before after : IngestPolicy) (record : C) (receiver : PolicyReceiver) :
    Prop :=
  (before.evaluateRecord record receiver).map (fun found => (found.record, found.provenance.appliedRules)) =
    (after.evaluateRecord record receiver).map fun found => (found.record, found.provenance.appliedRules)

/-- Documents with the same two rules in one order or the other. -/
def twoRules (first second : PolicyRule) (bytes : Bytes) : Except PolicyPreviewFailure (U64 × List PolicyRule) :=
  .ok (Unsigned.wrap 64 1, if bytes = [0] then [first, second] else [second, first])

def anyDigest (_ : Bytes) : FixedBytes 32 := ⟨replicate 32 5, length_replicate⟩

theorem swapped_diff_eq_nil {first second : PolicyRule} (hne : first.id ≠ second.id)
    {before after : PolicyPreviewPolicy}
    (hgeneration : before.compiled.generation = after.compiled.generation)
    (hbefore : before.rules = listed [first, second]) (hafter : after.rules = listed [second, first]) :
    diff before after = [] := by
  refine diff_eq_nil_iff.mpr ⟨hgeneration, fun id => ?_⟩
  rw [hbefore, hafter]
  simp only [listed, map_cons, map_nil, lookup_cons, lookup_nil]
  by_cases hfirst : id = first.id
  · rw [hfirst, beq_self_eq_true, beq_false_of_ne hne]
  · rw [beq_false_of_ne hfirst]

def fromReceiver (id : String) (receiver : PolicyReceiver) (action : PolicyAction) : PolicyRule :=
  ⟨id, [.receiver receiver], action⟩

theorem receiver_of_acts {C : Type} [PolicyRecord C] {id : String} {expected receiver : PolicyReceiver}
    {action : PolicyAction} {record : C} (h : acts receiver (fromReceiver id expected action) record = true) :
    expected = receiver := by
  have happlies := ((Bool.and_eq_true _ _).mp h).1
  simpa [PolicyRule.applies, fromReceiver, PolicyPredicate.holds] using happlies

def grpcRule : PolicyRule := fromReceiver "grpc" .otlpGrpc .reject

def jsonRule : PolicyRule := fromReceiver "json" .otlpHttpJson (.remove .body)

end Positron.Policy.Preview
