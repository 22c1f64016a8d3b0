import Positron.Policy.Transforms

/-! A policy that starts by redacting or removing what a path leads to tells nothing about it: whatever
the later rules look at, they look at markers. -/

namespace Positron.Policy
open MachineInt ByteCodec Checks Value List PolicyRecord

variable {C : Type} [PolicyRecord C]
variable {rules : List PolicyRule} {receiver : PolicyReceiver} {target : PolicyTarget}

inductive RecordPlace where
  | body (location : List Nat)
  | occurrence (index position : Nat) (location : List Nat)

def occurrenceAt (attributes : List NativePolicyAttribute) (index position : Nat) :
    Option AttributeValue :=
  attributes[index]?.bind fun attr => attr.occurrences[position]?

def PolicyTarget.SelectsIn (record : C) : PolicyTarget → RecordPlace → Prop
  | .body, .body location => location = []
  | .attributePath path, .occurrence index position location =>
    ∃ attr value, (PolicyRecord.attributes record)[index]? = some attr ∧ path.names attr ∧
      path.occurrence.includes position ∧ attr.occurrences[position]? = some value ∧
      Selects path.segments value location
  | _, _ => False

/-- The values that a target selects in a record, looking through truncation wrappers. -/
def valuesIn (record : C) : PolicyTarget → List AttributeValue
  | .body => (PolicyRecord.body record).toList
  | .attributePath path =>
    ((PolicyRecord.attributes record).filter path.names).flatMap fun attr =>
      (selected attr.occurrences path.occurrence).flatMap (valuesAt path.segments)

def Marked (target : PolicyTarget) (record : C) : Prop :=
  ∀ value ∈ valuesIn record target, ∃ m, value = .marker m

/-- Names and values of the second record are those of the first, but for the places and what is inside
them. -/
structure UnchangedOutside (places : RecordPlace → Prop) (record record' : C) : Prop where
  rest : record' = PolicyRecord.withBody
    (PolicyRecord.withAttributes record (PolicyRecord.attributes record')) (PolicyRecord.body record')
  names : (PolicyRecord.attributes record').map (fun attr => (attr.attributeNamespace, attr.key)) =
    (PolicyRecord.attributes record).map fun attr => (attr.attributeNamespace, attr.key)
  body : Option.Rel (SameOutside fun location => places (.body location)) (PolicyRecord.body record)
    (PolicyRecord.body record')
  occurrences : ∀ index position,
    Option.Rel (SameOutside fun location => places (.occurrence index position location))
      (occurrenceAt (PolicyRecord.attributes record) index position)
      (occurrenceAt (PolicyRecord.attributes record') index position)

def UniqueAttributes (record : C) : Prop :=
  (PolicyRecord.attributes record).Pairwise fun attr attr' =>
    ¬ (attr.attributeNamespace = attr'.attributeNamespace ∧ attr.key = attr'.key)

/-- The records differ only in the contents of the values that the target selects, all occurrences of
them, and these have the same kinds. -/
def DifferOnlyIn (record record' : C) : PolicyTarget → Prop
  | .body =>
    record' = PolicyRecord.withBody record (PolicyRecord.body record') ∧
      Option.Rel (DifferAt []) (PolicyRecord.body record) (PolicyRecord.body record')
  | .attributePath path =>
    record' = PolicyRecord.withAttributes record (PolicyRecord.attributes record') ∧
      List.Forall₂ (fun attr attr' =>
        attr.attributeNamespace = attr'.attributeNamespace ∧ attr.key = attr'.key ∧ if path.names attr then
            List.Forall₂ (DifferAt path.segments) attr.occurrences attr'.occurrences
          else attr.occurrences = attr'.occurrences)
        (PolicyRecord.attributes record) (PolicyRecord.attributes record')

def PolicyTarget.AllOccurrences : PolicyTarget → Prop
  | .body => True
  | .attributePath path => path.occurrence = .all

def PolicyAction.change? : PolicyAction → Option (PolicyTarget × Transformation)
  | .accept | .reject => none
  | .remove target => some (target, .remove)
  | .redact target => some (target, .redact)
  | .truncateBytes target limit => some (target, .truncateBytes limit)
  | .truncateElements target limit => some (target, .truncateElements limit)

section Attributes

variable {t : Transformation} {path : PolicyAttributePath}

theorem mem_selected {α : Type} {values : List α} {occurrence : PolicyOccurrence} {value : α} :
    value ∈ selected values occurrence ↔ ∃ i, values[i]? = some value ∧ occurrence.includes i := by
  unfold selected
  rw [mem_filterMap]
  constructor
  · rintro ⟨entry, hentry, hsome⟩
    split at hsome
    · rename_i hincluded
      cases hsome
      exact ⟨entry.2, mem_zipIdx_iff_getElem?.mp hentry, hincluded⟩
    · cases hsome
  · rintro ⟨i, hval, hincluded⟩
    exact ⟨(value, i), mem_zipIdx_iff_getElem?.mpr hval, if_pos hincluded⟩

theorem transformSelected_getElem? (attr : NativePolicyAttribute) (position : Nat) :
    (transformSelected t path attr).1.occurrences[position]? = attr.occurrences[position]?.map fun value =>
        if path.occurrence.includes position then (transformValue t path.segments value).1 else value :=
  getElem?_mapIdx

theorem transformFirst_getElem? (t : Transformation) (path : PolicyAttributePath)
    (attributes : List NativePolicyAttribute) (index : Nat) :
    (transformFirst t path attributes).1[index]? = attributes[index]? ∨
      ∃ attr, attributes[index]? = some attr ∧ path.names attr ∧
        (transformFirst t path attributes).1[index]? = some (transformSelected t path attr).1 := by
  induction attributes generalizing index with
  | nil => exact .inl rfl
  | cons attr attributes ih =>
    rw [transformFirst]
    split
    · rename_i hnamed
      cases index with
      | zero => exact .inr ⟨attr, rfl, hnamed, rfl⟩
      | succ index => exact .inl rfl
    · cases index with
      | zero => exact .inl rfl
      | succ index => exact ih index

theorem transformFirst_names (attributes : List NativePolicyAttribute) :
    (transformFirst t path attributes).1.map (fun attr => (attr.attributeNamespace, attr.key)) =
      attributes.map fun attr => (attr.attributeNamespace, attr.key) := by
  induction attributes with
  | nil => rfl
  | cons attr attributes ih =>
    rw [transformFirst]
    split
    · rfl
    · rw [map_cons, map_cons, ih]

theorem names_eq_of_same {attr attr' : NativePolicyAttribute}
    (h : (attr.attributeNamespace, attr.key) = (attr'.attributeNamespace, attr'.key)) :
    path.names attr = path.names attr' := by
  have hns : attr.attributeNamespace = attr'.attributeNamespace := congrArg Prod.fst h
  have hkey : attr.key = attr'.key := congrArg Prod.snd h
  unfold PolicyAttributePath.names
  rw [hns, hkey]

/-- With one attribute for each namespace and key, the path names no attribute but the first. -/
theorem transformFirst_of_unique {attributes : List NativePolicyAttribute}
    (hunique : attributes.Pairwise fun attr attr' =>
      ¬ (attr.attributeNamespace = attr'.attributeNamespace ∧ attr.key = attr'.key)) {index : Nat}
    {attr : NativePolicyAttribute} (hattr : attributes[index]? = some attr) (hnamed : path.names attr) :
    (transformFirst t path attributes).1[index]? = some (transformSelected t path attr).1 := by
  induction attributes generalizing index with
  | nil => cases hattr
  | cons head tail ih =>
    rw [pairwise_cons] at hunique
    rw [transformFirst]
    cases index with
    | zero =>
      cases hattr
      rw [if_pos hnamed]
      rfl
    | succ index =>
      have hhead : ¬ path.names head := by
        intro hhead
        simp only [PolicyAttributePath.names, Bool.and_eq_true, decide_eq_true_eq] at hhead hnamed
        exact hunique.1 attr (mem_of_getElem? hattr)
          ⟨hhead.1.trans hnamed.1.symm, hhead.2.trans hnamed.2.symm⟩
      rw [if_neg hhead]
      exact ih hunique.2 hattr

end Attributes

section Steps

variable {record record' : C} {places : RecordPlace → Prop} {α : Type}

theorem optionRel_refl {r : α → α → Prop} (h : ∀ a, r a a) (o : Option α) : Option.Rel r o o := by
  cases o with
  | none => exact .none
  | some a => exact .some (h a)

theorem optionRel_map {r r' : α → α → Prop} {o o' : Option α} {f : α → α} (h : Option.Rel r o o')
    (himp : ∀ a, o = some a → ∀ b, r a b → r' a (f b)) : Option.Rel r' o (o'.map f) := by
  cases h with
  | none => exact .none
  | some hr => exact .some (himp _ rfl _ hr)

theorem optionRel_mono {r r' : α → α → Prop} {o o' : Option α} (h : Option.Rel r o o')
    (himp : ∀ a b, r a b → r' a b) : Option.Rel r' o o' := by
  cases h with
  | none => exact .none
  | some hr => exact .some (himp _ _ hr)

theorem UnchangedOutside.refl (places : RecordPlace → Prop) (record : C) :
    UnchangedOutside places record record where
  rest := by simp
  names := rfl
  body := optionRel_refl (SameOutside.refl _) _
  occurrences _ _ := optionRel_refl (SameOutside.refl _) _

variable (h : UnchangedOutside places record record')
include h

theorem UnchangedOutside.mono {places' : RecordPlace → Prop}
    (hsub : ∀ place, places place → places' place) : UnchangedOutside places' record record' where
  rest := h.rest
  names := h.names
  body := optionRel_mono h.body fun _ _ hsame => hsame.mono fun _ => hsub _
  occurrences index position :=
    optionRel_mono (h.occurrences index position) fun _ _ hsame => hsame.mono fun _ => hsub _

theorem UnchangedOutside.attribute {index : Nat}
    {attr' : NativePolicyAttribute} (hattr : (PolicyRecord.attributes record')[index]? = some attr') :
    ∃ attr, (PolicyRecord.attributes record)[index]? = some attr ∧
      (attr'.attributeNamespace, attr'.key) = (attr.attributeNamespace, attr.key) := by
  have hnames := congrArg (·[index]?) h.names
  simp only [getElem?_map, hattr, Option.map_some] at hnames
  obtain ⟨attr, hattr, hsame⟩ := Option.map_eq_some_iff.mp hnames.symm
  exact ⟨attr, hattr, hsame.symm⟩

theorem UnchangedOutside.transformBody (t : Transformation) :
    UnchangedOutside (fun place => places place ∨ PolicyTarget.body.SelectsIn record place) record
      (transformTarget record' .body t).1 := by
  refine ⟨?_, ?_, ?_, ?_⟩
  · simp only [Policy.transformTarget, attributes_withBody, body_withBody]
    exact (congrArg (PolicyRecord.withBody · _) h.rest).trans (withBody_withBody _ _ _)
  · simp only [Policy.transformTarget, attributes_withBody]
    exact h.names
  · simp only [Policy.transformTarget, body_withBody]
    exact optionRel_map h.body fun _ _ _ hsame => hsame.transformValue t []
  · intro index position
    simp only [Policy.transformTarget, attributes_withBody]
    exact optionRel_mono (h.occurrences index position) fun _ _ hsame =>
      hsame.mono fun _ hplace => Or.inl hplace

theorem UnchangedOutside.transformPath (path : PolicyAttributePath) (t : Transformation) :
    UnchangedOutside (fun place => places place ∨ (PolicyTarget.attributePath path).SelectsIn record place) record
      (transformTarget record' (.attributePath path) t).1 := by
  refine ⟨?_, ?_, ?_, ?_⟩
  · simp only [Policy.transformTarget, attributes_withAttributes, body_withAttributes]
    refine (congrArg (PolicyRecord.withAttributes · _) h.rest).trans ?_
    rw [withBody_withAttributes, withAttributes_withAttributes, withBody_withAttributes]
  · simp only [Policy.transformTarget, attributes_withAttributes]
    rw [transformFirst_names, h.names]
  · simp only [Policy.transformTarget, body_withAttributes]
    exact optionRel_mono h.body fun _ _ hsame => hsame.mono fun _ hplace => Or.inl hplace
  · intro index position
    have hsame := h.occurrences index position
    simp only [Policy.transformTarget, attributes_withAttributes]
    unfold occurrenceAt at hsame ⊢
    rcases transformFirst_getElem? t path (PolicyRecord.attributes record') index with
      heq | ⟨attr', hattr', hnamed, heq⟩
    · rw [heq]
      exact optionRel_mono hsame fun _ _ hsame => hsame.mono fun _ hplace => Or.inl hplace
    · obtain ⟨attr, hattr, hnames⟩ := h.attribute hattr'
      rw [hattr, hattr'] at hsame
      rw [hattr, heq, Option.bind_some, Option.bind_some, transformSelected_getElem?]
      apply optionRel_map hsame
      intro value hval value' hsame
      split
      · rename_i hincluded
        apply (hsame.transformValue t path.segments).mono
        rintro place (hplace | hplace)
        · exact .inl hplace
        · refine .inr ⟨attr, value, hattr, ?_, hincluded, hval, hplace⟩
          rw [← names_eq_of_same hnames]
          exact hnamed
      · exact hsame.mono fun _ hplace => Or.inl hplace

/-- A transformation of the second record changes no more than its target selects in the first. -/
theorem UnchangedOutside.transformTarget (target : PolicyTarget)
    (t : Transformation) : UnchangedOutside (fun place => places place ∨ target.SelectsIn record place) record
      (transformTarget record' target t).1 := by
  cases target with
  | body => exact h.transformBody t
  | attributePath path => exact h.transformPath path t

end Steps

section Marked

variable {t : Transformation} {path : PolicyAttributePath}
variable {record : C}

theorem marked_path_iff : Marked (.attributePath path) record ↔
      ∀ (index position : Nat) (attr : NativePolicyAttribute) (value : AttributeValue),
        (PolicyRecord.attributes record)[index]? = some attr → path.names attr →
        path.occurrence.includes position → attr.occurrences[position]? = some value →
        AllMarkers path.segments value := by
  unfold Marked valuesIn AllMarkers
  simp only [mem_flatMap, mem_filter, mem_selected]
  constructor
  · intro h index position attr value hattr hnamed hincluded hval found hfound
    exact h found ⟨attr, ⟨mem_of_getElem? hattr, hnamed⟩, value, ⟨position, hval, hincluded⟩, hfound⟩
  · intro h found hfound
    obtain ⟨attr, ⟨hmem, hnamed⟩, value, ⟨position, hval, hincluded⟩, hfound⟩ := hfound
    obtain ⟨index, hattr⟩ := getElem?_of_mem hmem
    exact h index position attr value hattr hnamed hincluded hval found hfound

theorem Marked.transformTarget (h : Marked target record) (target' : PolicyTarget)
    (t : Transformation) : Marked target (transformTarget record target' t).1 := by
  cases target with
  | body =>
    cases target' with
    | attributePath path =>
      intro value hval
      simp only [valuesIn, Policy.transformTarget, body_withAttributes] at hval
      exact h value hval
    | body =>
      intro value hval
      simp only [valuesIn, Policy.transformTarget, body_withBody, Option.mem_toList,
        Option.map_eq_some_iff] at hval
      obtain ⟨body, hbody, rfl⟩ := hval
      obtain ⟨m, rfl⟩ := h body (Option.mem_toList.mpr hbody)
      exact ⟨m, congrArg Prod.fst (transformValue_marker [] m)⟩
  | attributePath path =>
    rw [marked_path_iff] at h ⊢
    cases target' with
    | body =>
      simp only [Policy.transformTarget, attributes_withBody]
      exact h
    | attributePath path' =>
      intro index position attr' value' hattr' hnamed hincluded hval'
      simp only [Policy.transformTarget, attributes_withAttributes] at hattr'
      rcases transformFirst_getElem? t path' (PolicyRecord.attributes record) index with
        heq | ⟨attr, hattr, _, heq⟩
      · rw [heq] at hattr'
        exact h index position attr' value' hattr' hnamed hincluded hval'
      · rw [heq] at hattr'
        cases hattr'
        rw [transformSelected_getElem?] at hval'
        obtain ⟨value, hval, rfl⟩ := Option.map_eq_some_iff.mp hval'
        have hbefore := h index position attr value hattr hnamed hincluded hval
        split
        · exact hbefore.transformValue path'.segments
        · exact hbefore

theorem occurrence_markerFree (h : containsMarker record = false) {attr : NativePolicyAttribute}
    (hattr : attr ∈ PolicyRecord.attributes record) {value : AttributeValue} (hval : value ∈ attr.occurrences) :
    value.containsPolicyMarker = false := by
  simp only [containsMarker, Bool.or_eq_false_iff, any_eq_false, any_eq_true, not_exists,
    not_and, Bool.not_eq_true] at h
  exact h.2 attr hattr value hval

theorem body_markerFree (h : containsMarker record = false) {body : AttributeValue}
    (hbody : PolicyRecord.body record = some body) : body.containsPolicyMarker = false := by
  simp only [containsMarker, Bool.or_eq_false_iff, hbody] at h
  exact h.1

theorem marked_transformTarget (ht : t.Marks) (hfree : containsMarker record = false)
    (hunique : UniqueAttributes record) (target : PolicyTarget) :
    Marked target (transformTarget record target t).1 := by
  cases target with
  | body =>
    intro value hval
    simp only [valuesIn, transformTarget, body_withBody, Option.mem_toList, Option.map_eq_some_iff] at hval
    obtain ⟨body, hbody, rfl⟩ := hval
    obtain ⟨action, hleaf⟩ := transformLeaf_of_marks ht (kind_ne_marker (body_markerFree hfree hbody))
    exact ⟨_, congrArg Prod.fst hleaf⟩
  | attributePath path =>
    rw [marked_path_iff]
    intro index position attr' value' hattr' hnamed hincluded hval'
    simp only [transformTarget, attributes_withAttributes] at hattr'
    obtain ⟨attr, hattr, heq⟩ : ∃ attr, (PolicyRecord.attributes record)[index]? = some attr ∧
        attr' = (transformSelected t path attr).1 := by
      rcases transformFirst_getElem? t path (PolicyRecord.attributes record) index with
        heq | ⟨attr, hattr, _, heq⟩
      · rw [heq] at hattr'
        have hfirst := transformFirst_of_unique (t := t) hunique hattr' hnamed
        rw [heq, hattr'] at hfirst
        exact ⟨attr', hattr', Option.some.inj hfirst⟩
      · rw [heq] at hattr'
        exact ⟨attr, hattr, (Option.some.inj hattr').symm⟩
    rw [heq, transformSelected_getElem?] at hval'
    obtain ⟨value, hval, rfl⟩ := Option.map_eq_some_iff.mp hval'
    rw [if_pos hincluded]
    exact allMarkers_transformValue ht
      (occurrence_markerFree hfree (mem_of_getElem? hattr) (mem_of_getElem? hval))

end Marked

section Pairs

variable {t : Transformation} {path : PolicyAttributePath}

theorem selected_all {α : Type} (values : List α) : selected values .all = values := by
  unfold selected
  simp only [PolicyOccurrence.includes, if_true]
  induction values with
  | nil => rfl
  | cons value values ih => simp

theorem occurrences_congr (ht : t.Marks) {segments : List PolicyPathSegment}
    {values values' : List AttributeValue} (h : List.Forall₂ (DifferAt segments) values values')
    (hfree : ∀ value ∈ values, value.containsPolicyMarker = false)
    (hfree' : ∀ value ∈ values', value.containsPolicyMarker = false) :
    values.map (transformValue t segments) = values'.map (transformValue t segments) := by
  induction h with
  | nil => rfl
  | cons hdiffer _ ih =>
    have hhead := transformValue_congr ht (hfree _ mem_cons_self) (hfree' _ mem_cons_self) hdiffer
    have htail := ih (fun value hmem => hfree value (mem_cons_of_mem _ hmem))
      (fun value hmem => hfree' value (mem_cons_of_mem _ hmem))
    rw [map_cons, map_cons, hhead, htail]

theorem transformSelected_all (hall : path.occurrence = .all) (attr : NativePolicyAttribute) :
    transformSelected t path attr = (⟨attr.attributeNamespace, attr.key,
        (attr.occurrences.map (transformValue t path.segments)).map (·.1)⟩,
        (attr.occurrences.map (transformValue t path.segments)).any (·.2)) := by
  have hvals : (transformSelected t path attr).1.occurrences =
      (attr.occurrences.map (transformValue t path.segments)).map (·.1) := by
    apply ext_getElem?
    intro position
    rw [transformSelected_getElem?, hall, map_map, getElem?_map]
    rfl
  rw [← hvals, any_map]
  unfold transformSelected
  rw [hall, selected_all]
  rfl

theorem transformFirst_congr (ht : t.Marks) (hall : path.occurrence = .all)
    {attributes attributes' : List NativePolicyAttribute} (h : List.Forall₂ (fun attr attr' =>
      attr.attributeNamespace = attr'.attributeNamespace ∧ attr.key = attr'.key ∧ if path.names attr then
          List.Forall₂ (DifferAt path.segments) attr.occurrences attr'.occurrences
        else attr.occurrences = attr'.occurrences) attributes attributes')
    (hunique : attributes.Pairwise fun attr attr' =>
      ¬ (attr.attributeNamespace = attr'.attributeNamespace ∧ attr.key = attr'.key))
    (hfree : ∀ attr ∈ attributes, ∀ value ∈ attr.occurrences, value.containsPolicyMarker = false)
    (hfree' : ∀ attr ∈ attributes', ∀ value ∈ attr.occurrences, value.containsPolicyMarker = false) :
    transformFirst t path attributes = transformFirst t path attributes' := by
  induction h with
  | nil => rfl
  | @cons attr attr' tail tail' hhead htail ih =>
    obtain ⟨hns, hkey, hoccs⟩ := hhead
    rw [pairwise_cons] at hunique
    have hnames : path.names attr = path.names attr' :=
      names_eq_of_same (by rw [hns, hkey])
    by_cases hnamed : path.names attr
    · -- No later attribute is named, so the later ones are the same.
      have hlater : tail = tail' := by
        have hnone : ∀ later ∈ tail, ¬ path.names later := by
          intro later hmem hlater
          simp only [PolicyAttributePath.names, Bool.and_eq_true, decide_eq_true_eq] at hnamed hlater
          exact hunique.1 later hmem ⟨hnamed.1.trans hlater.1.symm, hnamed.2.trans hlater.2.symm⟩
        clear ih hunique hfree hfree'
        induction htail with
        | nil => rfl
        | @cons later later' rest rest' hlater _ ih =>
          obtain ⟨hns, hkey, hoccs⟩ := hlater
          rw [if_neg (hnone later mem_cons_self)] at hoccs
          rw [NativePolicyAttribute.ext hns hkey hoccs, ih fun later hmem => hnone later (mem_cons_of_mem _ hmem)]
      rw [if_pos hnamed] at hoccs
      have hvals := occurrences_congr ht hoccs (hfree attr mem_cons_self) (hfree' attr' mem_cons_self)
      rw [transformFirst, transformFirst, if_pos hnamed, if_pos (hnames ▸ hnamed),
        transformSelected_all hall, transformSelected_all hall, hvals, hlater, hns, hkey]
    · rw [if_neg hnamed] at hoccs
      have hsame : attr = attr' := NativePolicyAttribute.ext hns hkey hoccs
      rw [transformFirst, transformFirst, if_neg hnamed, if_neg (hnames ▸ hnamed), hsame,
        ih hunique.2 (fun attr hmem => hfree attr (mem_cons_of_mem _ hmem))
          (fun attr hmem => hfree' attr (mem_cons_of_mem _ hmem))]

theorem transformTarget_congr (ht : t.Marks) (hall : target.AllOccurrences)
    {record record' : C} (hfree : containsMarker record = false) (hfree' : containsMarker record' = false)
    (hunique : UniqueAttributes record) (h : DifferOnlyIn record record' target) :
    transformTarget record target t = transformTarget record' target t := by
  cases target with
  | body =>
    obtain ⟨hrest, hbody⟩ := h
    have hleaf : (PolicyRecord.body record).map (transformLeaf t) =
        (PolicyRecord.body record').map (transformLeaf t) := by
      have hfreeBody : ∀ body, PolicyRecord.body record = some body → body.containsPolicyMarker = false :=
        fun body => body_markerFree hfree
      have hfreeBody' : ∀ body, PolicyRecord.body record' = some body →
          body.containsPolicyMarker = false := fun body => body_markerFree hfree'
      generalize PolicyRecord.body record = b at hbody hfreeBody
      generalize PolicyRecord.body record' = b' at hbody hfreeBody'
      cases hbody with
      | none => rfl
      | some hdiffer =>
        exact congrArg some (transformValue_congr ht (hfreeBody _ rfl) (hfreeBody' _ rfl) hdiffer)
    have hvals := congrArg (Option.map Prod.fst) hleaf
    have hchanged := congrArg (Option.any Prod.snd) hleaf
    rw [Option.map_map, Option.map_map] at hvals
    rw [Option.any_map, Option.any_map] at hchanged
    apply Prod.ext
    · refine (congrArg (PolicyRecord.withBody record) hvals).trans ?_
      conv_rhs => rw [transformTarget, hrest]
      simp only [withBody_withBody, body_withBody]
      rfl
    · exact hchanged
  | attributePath path =>
    obtain ⟨hrest, hattrs⟩ := h
    have hfirst := transformFirst_congr ht hall hattrs hunique
      (fun attr hattr value hval => occurrence_markerFree hfree hattr hval)
      (fun attr hattr value hval => occurrence_markerFree hfree' hattr hval)
    apply Prod.ext
    · refine (congrArg (fun pair => PolicyRecord.withAttributes record pair.1) hfirst).trans ?_
      conv_rhs => rw [transformTarget, hrest]
      simp only [withAttributes_withAttributes, attributes_withAttributes]
    · exact congrArg (·.2) hfirst

end Pairs

section Runs

variable {receiver : PolicyReceiver}

theorem perform_cases (action : PolicyAction) (record : C) :
    (action.change? = none ∧ (action.perform record = .accept ∨ action.perform record = .reject)) ∨
      ∃ target t, action.change? = some (target, t) ∧ action.perform record =
          .continues (transformTarget record target t).1 (transformTarget record target t).2 := by
  cases action with
  | accept => exact .inl ⟨rfl, Or.inl rfl⟩
  | reject => exact .inl ⟨rfl, Or.inr rfl⟩
  | remove target => exact .inr ⟨target, .remove, rfl, rfl⟩
  | redact target => exact .inr ⟨target, .redact, rfl, rfl⟩
  | truncateBytes target limit => exact .inr ⟨target, .truncateBytes limit, rfl, rfl⟩
  | truncateElements target limit => exact .inr ⟨target, .truncateElements limit, rfl, rfl⟩

variable {t : Transformation}

theorem transformFirst_unchanged {path : PolicyAttributePath} {attributes : List NativePolicyAttribute}
    (h : (transformFirst t path attributes).2 = false) : (transformFirst t path attributes).1 = attributes := by
  induction attributes with
  | nil => rfl
  | cons attr attributes ih =>
    rw [transformFirst] at h ⊢
    split at h
    · rename_i hnamed
      rw [if_pos hnamed]
      have hvals : (transformSelected t path attr).1.occurrences = attr.occurrences := by
        apply ext_getElem?
        intro position
        rw [transformSelected_getElem?]
        cases hval : attr.occurrences[position]? with
        | none => rfl
        | some value =>
          rw [Option.map_some]
          split
          · rename_i hincluded
            have hsame := any_eq_false.mp h value (mem_selected.mpr ⟨position, hval, hincluded⟩)
            rw [transformValue_unchanged (Bool.eq_false_iff.mpr hsame)]
          · rfl
      have hsame : (transformSelected t path attr).1 = attr := NativePolicyAttribute.ext rfl rfl hvals
      rw [hsame]
    · rename_i hnamed
      rw [if_neg hnamed, ih h]

theorem transformTarget_unchanged {record : C}
    (h : (transformTarget record target t).2 = false) : (transformTarget record target t).1 = record := by
  cases target with
  | body =>
    have hbody : (PolicyRecord.body record).map (fun body => (transformLeaf t body).1) =
        PolicyRecord.body record := by
      rw [transformTarget] at h
      cases hbody : PolicyRecord.body record with
      | none => rfl
      | some body =>
        rw [hbody] at h
        exact congrArg some (transformLeaf_unchanged h)
    rw [transformTarget, hbody, withBody_body]
  | attributePath path =>
    rw [transformTarget, transformFirst_unchanged h, withAttributes_attributes]

theorem evaluateRules_invariant {I : List String → C → Prop} {rules : List PolicyRule}
    (hid : ∀ applied record id, I applied record → I (applied ++ [id]) record)
    (hstep : ∀ rule ∈ rules, ∀ target t applied record, rule.action.change? = some (target, t) →
      I applied record → I (applied ++ [rule.id]) (transformTarget record target t).1)
    {steps : Nat} {applied applied' : List String} {record out : C}
    (h : evaluateRules receiver rules steps applied record = .ok (some out, applied'))
    (hI : I applied record) : I applied' out := by
  induction rules generalizing steps applied record with
  | nil =>
    cases h
    exact hI
  | cons rule rules ih =>
    have hlater := fun rule hmem => hstep rule (mem_cons_of_mem _ hmem)
    simp only [evaluateRules, bind_eq_ok_iff] at h
    obtain ⟨amount, _, steps', _, h⟩ := h
    split at h
    · rcases perform_cases rule.action record with
        ⟨_, haccept | hreject⟩ | ⟨target, t, hchange, hperform⟩
      · rw [haccept] at h
        cases h
        exact hid _ _ _ hI
      · rw [hreject] at h
        cases h
      · rw [hperform] at h
        apply ih hlater h
        split
        · exact hstep rule mem_cons_self target t applied record hchange hI
        · rename_i hchanged
          rw [transformTarget_unchanged (Bool.eq_false_iff.mpr hchanged)]
          exact hI
    · exact ih hlater h hI

/-- With steps for every rule, evaluation ends with a result. -/
theorem evaluateRules_total (receiver : PolicyReceiver) {rules : List PolicyRule} {steps total : Nat}
    (htotal : totalSteps rules = .ok total) (hsteps : total ≤ steps) (applied : List String) (record : C) :
    ∃ result, evaluateRules receiver rules steps applied record = .ok result := by
  induction rules generalizing steps total applied record with
  | nil => exact ⟨_, rfl⟩
  | cons rule rules ih =>
    rw [totalSteps, bind_eq_ok_iff] at htotal
    obtain ⟨amount, hamount, htotal⟩ := htotal
    rw [bind_eq_ok_iff] at htotal
    obtain ⟨rest, hrest, htotal⟩ := htotal
    cases htotal
    have hcharge : charge rule = .ok amount := by rw [charge, hamount]
    have hconsume : consume steps amount = .ok (steps - amount) := if_pos (by omega)
    have hleft : rest ≤ steps - amount := by omega
    simp only [evaluateRules, hcharge, hconsume, bind, Except.bind]
    split
    · rcases perform_cases rule.action record with
        ⟨_, haccept | hreject⟩ | ⟨target, t, _, hperform⟩
      · rw [haccept]
        exact ⟨_, rfl⟩
      · rw [hreject]
        exact ⟨_, rfl⟩
      · rw [hperform]
        exact ih hrest hleft _ _
    · exact ih hrest hleft applied record

end Runs

def PolicyAction.target? (action : PolicyAction) : Option PolicyTarget := action.change?.map (·.1)

/-- The places that the targets of the rules with these identities select in a record. -/
def AppliedPlaces (rules : List PolicyRule) (applied : List String) (record : C) (place : RecordPlace) :
    Prop :=
  ∃ rule ∈ rules, rule.id ∈ applied ∧
    ∃ target, rule.action.target? = some target ∧ target.SelectsIn record place

variable {applied : List String} {record out : C} {policy : IngestPolicy}

theorem AppliedPlaces.append {place : RecordPlace} (h : AppliedPlaces rules applied record place)
    (id : String) : AppliedPlaces rules (applied ++ [id]) record place := by
  obtain ⟨rule, hrule, hid, htarget⟩ := h
  exact ⟨rule, hrule, mem_append_left _ hid, htarget⟩

theorem evaluateRules_unchanged {steps : Nat}
    (h : evaluateRules receiver rules steps [] record = .ok (some out, applied)) :
    UnchangedOutside (AppliedPlaces rules applied record) record out := by
  refine evaluateRules_invariant
    (I := fun applied current => UnchangedOutside (AppliedPlaces rules applied record) record current)
    ?_ ?_ h (.refl _ record)
  · intro applied current id hunchanged
    exact hunchanged.mono fun place hplace => hplace.append id
  · intro rule hrule target t applied current hchange hunchanged
    apply (hunchanged.transformTarget target t).mono
    rintro place (hplace | hplace)
    · exact hplace.append rule.id
    · refine ⟨rule, hrule, mem_append_right _ (mem_singleton.mpr rfl), target, ?_, hplace⟩
      rw [PolicyAction.target?, hchange]
      rfl

/-- Unconditionally redacting or removing what a target selects: the rule applies, whatever the record. -/
theorem evaluateRules_marking {rule : PolicyRule} {t : Transformation}
    (hpredicates : rule.predicates = []) (hchange : rule.action.change? = some (target, t)) (steps : Nat) (record : C) :
    evaluateRules receiver (rule :: rules) steps [] record = (do
      let amount ← charge rule
      let steps ← consume steps amount
      evaluateRules receiver rules steps (if (transformTarget record target t).2 then [rule.id] else [])
        (transformTarget record target t).1) := by
  have happlies : rule.applies record receiver := by
    rw [PolicyRule.applies, hpredicates]
    rfl
  have hperform : rule.action.perform record =
      .continues (transformTarget record target t).1 (transformTarget record target t).2 := by
    rcases perform_cases rule.action record with ⟨hnone, _⟩ | ⟨target', t', hchange', hperform⟩
    · rw [hnone] at hchange
      cases hchange
    · rw [hchange] at hchange'
      cases hchange'
      exact hperform
  rw [evaluateRules, happlies, hperform]
  rfl

theorem evaluateRecord_eq (hfree : containsMarker record = false) :
    policy.evaluateRecord record receiver = (do
      let (record, applied) ← evaluateRules receiver policy.rules policy.budget.evaluationSteps [] record
      return ⟨record, policy.generation, policy.digest, applied⟩) := by
  rw [IngestPolicy.evaluateRecord, demand, if_pos hfree]
  rfl

theorem evaluateRecord_accepted {provenance : PolicyProvenance} (hfree : containsMarker record = false)
    (h : policy.evaluateRecord record receiver = .ok ⟨some out, provenance⟩) :
    evaluateRules receiver policy.rules policy.budget.evaluationSteps [] record =
      .ok (some out, provenance.appliedRules) := by
  rw [evaluateRecord_eq hfree, bind_eq_ok_iff] at h
  obtain ⟨⟨result, applied⟩, hrules, h⟩ := h
  cases h
  exact hrules

theorem evaluateRecord_total {digestEncoded : Bytes → FixedBytes 32} {generation : U64}
    (hcompiled : compile digestEncoded generation rules = .ok policy) (hfree : containsMarker record = false) :
    ∃ result, policy.evaluateRecord record receiver = .ok result := by
  obtain ⟨hrules, htotal⟩ := compile_steps hcompiled
  obtain ⟨result, hresult⟩ := evaluateRules_total receiver htotal (Nat.le_refl _) [] record
  rw [evaluateRecord_eq hfree, hrules, hresult]
  exact ⟨_, rfl⟩

/-- A compiled policy that first redacts or removes, without a condition, what a target selects returns
the same result for records that differ only there. In what it accepts everything the target selects is
a marker, and nothing has changed but what the targets of applied rules select. -/
theorem redaction_leaks_nothing {digestEncoded : Bytes → FixedBytes 32} {generation : U64}
    {rule : PolicyRule} {rules : List PolicyRule} {policy : IngestPolicy}
    (hcompiled : compile digestEncoded generation (rule :: rules) = .ok policy)
    (hpredicates : rule.predicates = []) {target : PolicyTarget}
    (haction : rule.action = .redact target ∨ rule.action = .remove target)
    (hall : target.AllOccurrences) {record record' : C} (hfree : containsMarker record = false)
    (hfree' : containsMarker record' = false) (hunique : UniqueAttributes record)
    (hdiffer : DifferOnlyIn record record' target) (receiver : PolicyReceiver) :
    (∃ result, policy.evaluateRecord record receiver = .ok result ∧
      policy.evaluateRecord record' receiver = .ok result) ∧
    ∀ out provenance, policy.evaluateRecord record receiver = .ok ⟨some out, provenance⟩ →
      Marked target out ∧
        UnchangedOutside (AppliedPlaces policy.rules provenance.appliedRules record) record out := by
  obtain ⟨hrules, -⟩ := compile_steps hcompiled
  obtain ⟨t, ht, hchange⟩ : ∃ t : Transformation, t.Marks ∧ rule.action.change? = some (target, t) := by
    rcases haction with haction | haction
    · exact ⟨.redact, Or.inr rfl, by rw [haction]; rfl⟩
    · exact ⟨.remove, Or.inl rfl, by rw [haction]; rfl⟩
  refine ⟨?_, ?_⟩
  · have hsame : policy.evaluateRecord record' receiver = policy.evaluateRecord record receiver := by
      rw [evaluateRecord_eq hfree, evaluateRecord_eq hfree', hrules,
        evaluateRules_marking hpredicates hchange, evaluateRules_marking hpredicates hchange,
        transformTarget_congr ht hall hfree hfree' hunique hdiffer]
    obtain ⟨result, hresult⟩ := evaluateRecord_total hcompiled hfree
    exact ⟨result, hresult, hsame.trans hresult⟩
  · intro out provenance haccepted
    have hrun := evaluateRecord_accepted hfree haccepted
    refine ⟨?_, evaluateRules_unchanged hrun⟩
    rw [hrules, evaluateRules_marking hpredicates hchange, bind_eq_ok_iff] at hrun
    obtain ⟨amount, _, hrun⟩ := hrun
    rw [bind_eq_ok_iff] at hrun
    obtain ⟨steps, _, hrun⟩ := hrun
    refine evaluateRules_invariant (I := fun _ current => Marked target current)
      (fun _ _ _ hmarked => hmarked) ?_ hrun (marked_transformTarget ht hfree hunique target)
    intro later _ target' t' _ current _ hmarked
    exact hmarked.transformTarget target' t'

def tokenPath : PolicyAttributePath := ⟨.record, "token", .all, []⟩

def redactToken : PolicyRule := ⟨"redact-token", [], .redact (.attributePath tokenPath)⟩

def rejectText : PolicyRule := ⟨"reject-text", [.attributeType tokenPath .string], .reject⟩

def zeroDigest (_ : Bytes) : FixedBytes 32 := zeroBytes 32

def tokenLog (token : String) : NativeLogCandidate where
  eventTimeUnixNanos := none
  observedTimeUnixNanos := none
  body := some (.string "ready")
  attributes := [⟨.record, "token", [.string token]⟩]
  metadata := ⟨⟨0, by decide⟩, "", "", none, none, Unsigned.zero 32, Unsigned.zero 32, Unsigned.zero 32, "", "",
    "", Unsigned.zero 32, ""⟩

theorem token_not_leaked :
    ∃ policy, compile zeroDigest ⟨1, one_lt_word⟩ [redactToken, rejectText] = .ok policy ∧
      ∃ result, policy.evaluate (tokenLog "alpha") .otlpGrpc = .ok result ∧
        policy.evaluate (tokenLog "beta") .otlpGrpc = .ok result := by
  refine ⟨_, rfl, ?_⟩
  have hdiffer : DifferOnlyIn (tokenLog "alpha") (tokenLog "beta") (.attributePath tokenPath) :=
    ⟨rfl, .cons ⟨rfl, rfl, .cons rfl .nil⟩ .nil⟩
  have hunique : UniqueAttributes (tokenLog "alpha") := pairwise_singleton _ _
  obtain ⟨result, halpha, hbeta⟩ := (@redaction_leaks_nothing NativeLogCandidate _ zeroDigest ⟨1, one_lt_word⟩
    redactToken [rejectText] _ rfl rfl (.attributePath tokenPath) (.inl rfl) rfl (tokenLog "alpha") (tokenLog "beta")
    rfl rfl hunique hdiffer .otlpGrpc).1
  exact ⟨result.evaluation, congrArg (EvaluationRecord.evaluation <$> ·) halpha,
    congrArg (EvaluationRecord.evaluation <$> ·) hbeta⟩

end Positron.Policy
