import Positron.Policy.Evaluation

/-! What one transformation does to one value: the values its path leads to become markers or are cut,
markers stay markers, and everything outside those values stays as it was. -/

namespace Positron.Policy
open Value List AttributeValue

variable {segment : PolicyPathSegment} {segments : List PolicyPathSegment}

section Reaching

variable {f : AttributeValue → AttributeValue × Bool} {value child : AttributeValue}

theorem children_transformChildren {segment segment' : PolicyPathSegment}
    (h : child ∈ children segment (transformChildren f segment' value).1) :
    ∃ before ∈ children segment value, child = before ∨ child = (f before).1 := by
  cases segment' with
  | key key' =>
    cases value with
    | keyValueList entries =>
      cases segment with
      | arrayIndex index => exact absurd h not_mem_nil
      | key key =>
        simp only [transformChildren, children, mem_map, mem_filter] at h ⊢
        obtain ⟨_, ⟨⟨entry, hentry, rfl⟩, hkey⟩, rfl⟩ := h
        split at hkey
        · rename_i hnamed
          refine ⟨entry.2, ⟨entry, ⟨hentry, hkey⟩, rfl⟩, Or.inr ?_⟩
          rw [if_pos hnamed]
        · rename_i hnamed
          refine ⟨entry.2, ⟨entry, ⟨hentry, hkey⟩, rfl⟩, Or.inl ?_⟩
          rw [if_neg hnamed]
    | _ => exact ⟨child, h, Or.inl rfl⟩
  | arrayIndex index' =>
    cases value with
    | array values =>
      cases segment with
      | key key => exact absurd h not_mem_nil
      | arrayIndex index =>
        simp only [transformChildren, children, Option.mem_toList, getElem?_modify] at h ⊢
        obtain ⟨before, hbefore, hchild⟩ := Option.map_eq_some_iff.mp h
        refine ⟨before, hbefore, ?_⟩
        split at hchild
        · exact .inr hchild.symm
        · exact .inl hchild.symm
    | _ => exact ⟨child, h, Or.inl rfl⟩

theorem children_transformChildren_same (h : child ∈ children segment (transformChildren f segment value).1) :
    ∃ before ∈ children segment value, child = (f before).1 := by
  cases segment with
  | key key =>
    cases value with
    | keyValueList entries =>
      simp only [transformChildren, children, mem_map, mem_filter, decide_eq_true_eq] at h ⊢
      obtain ⟨_, ⟨⟨entry, hentry, rfl⟩, hkey⟩, rfl⟩ := h
      split at hkey
      · rename_i hnamed
        refine ⟨entry.2, ⟨entry, ⟨hentry, hnamed⟩, rfl⟩, ?_⟩
        rw [if_pos hnamed]
      · rename_i hnamed
        exact absurd hkey hnamed
    | _ => exact absurd h not_mem_nil
  | arrayIndex index =>
    cases value with
    | array values =>
      simp only [transformChildren, children, Option.mem_toList, getElem?_modify, if_true] at h ⊢
      obtain ⟨before, hbefore, rfl⟩ := Option.map_eq_some_iff.mp h
      exact ⟨before, hbefore, rfl⟩
    | _ => exact absurd h not_mem_nil

theorem untruncated_throughTruncation (segment : PolicyPathSegment) (value : AttributeValue) :
    (throughTruncation (transformChildren f segment) value).1.untruncated =
      (transformChildren f segment value.untruncated).1 := by
  induction value using induct with
  | truncated value action ih => exact ih
  | _ => cases segment <;> rfl

end Reaching

section Marking

variable {t : Transformation}
variable {value : AttributeValue}

def AllMarkers (segments : List PolicyPathSegment) (value : AttributeValue) : Prop :=
  ∀ found ∈ valuesAt segments value, ∃ m, found = .marker m

theorem allMarkers_cons {rest : List PolicyPathSegment} :
    AllMarkers (segment :: rest) value ↔ ∀ child ∈ children segment value.untruncated, AllMarkers rest child := by
  unfold AllMarkers
  simp only [valuesAt, mem_flatMap]
  exact ⟨fun h child hchild found hfound => h found ⟨child, hchild, hfound⟩, fun h found hfound => by
      obtain ⟨child, hchild, hfound⟩ := hfound
      exact h child hchild found hfound⟩

theorem transformValue_marker (segments : List PolicyPathSegment) (m : RedactionMarker) :
    transformValue t segments (.marker m) = (.marker m, false) := by
  cases segments with
  | nil => cases t <;> rfl
  | cons segment rest => cases segment <;> rfl

theorem getElem?_of_take {α : Type} {xs : List α} {n i : Nat} {x : α} (h : (xs.take n)[i]? = some x) :
    xs[i]? = some x := by
  rw [getElem?_take] at h
  split at h
  · exact h
  · cases h

/-- What a transformation can make of the value at the end of its path. -/
inductive LeafChange : AttributeValue → AttributeValue × Bool → Prop
  | same (value : AttributeValue) : LeafChange value (value, false)
  | marked (value : AttributeValue) (action : MarkerAction) (haction : action = .removed ∨ action = .redacted)
    (hkind : value.kind ≠ .marker) : LeafChange value (.marker ⟨value.kind, action⟩, true)
  | string (text : String) (limit : Nat) : LeafChange (.string text)
    (.truncated (.string (String.ofList (prefixWithin limit text.toList))) .truncatedBytes, true)
  | bytes (bytes : ByteCodec.Bytes) (limit : Nat) :
    LeafChange (.bytes bytes) (.truncated (.bytes (bytes.take limit)) .truncatedBytes, true)
  | array (values : List AttributeValue) (limit : Nat) :
    LeafChange (.array values) (.truncated (.array (values.take limit)) .truncatedElements, true)
  | keyValueList (entries : List (String × AttributeValue)) (limit : Nat) :
    LeafChange (.keyValueList entries) (.truncated (.keyValueList (entries.take limit)) .truncatedElements, true)

theorem transformLeaf_change (t : Transformation) (value : AttributeValue) :
    LeafChange value (transformLeaf t value) := by
  cases t with
  | remove | redact =>
    rw [transformLeaf, mark]
    split
    · exact .same value
    · rename_i hkind
      exact .marked value _ (by decide) hkind
  | truncateBytes limit =>
    cases value with
    | string text | bytes bytes =>
      rw [transformLeaf, truncateBytes]
      split
      · constructor
      · exact .same _
    | _ => exact .same _
  | truncateElements limit =>
    cases value with
    | array values | keyValueList entries =>
      rw [transformLeaf, truncateElements]
      split
      · constructor
      · exact .same _
    | _ => exact .same _

theorem children_transformLeaf {value child : AttributeValue}
    (h : child ∈ children segment (transformLeaf t value).1.untruncated) :
    child ∈ children segment value.untruncated := by
  have hchange := transformLeaf_change t value
  generalize transformLeaf t value = result at h hchange
  cases hchange with
  | same => exact h
  | marked | string | bytes => cases segment <;> exact absurd h not_mem_nil
  | array values limit =>
    cases segment with
    | key key => exact absurd h not_mem_nil
    | arrayIndex index => exact Option.mem_toList.mpr (getElem?_of_take (Option.mem_toList.mp h))
  | keyValueList entries limit =>
    cases segment with
    | key key =>
      obtain ⟨entry, hentry, rfl⟩ := mem_map.mp h
      have hkept := mem_filter.mp hentry
      exact mem_map.mpr ⟨entry, mem_filter.mpr ⟨mem_of_mem_take hkept.1, hkept.2⟩, rfl⟩
    | arrayIndex index => exact absurd h not_mem_nil

theorem AllMarkers.transformValue (h : AllMarkers segments value)
    (segments' : List PolicyPathSegment) : AllMarkers segments (transformValue t segments' value).1 := by
  induction segments generalizing value segments' with
  | nil =>
    obtain ⟨m, rfl⟩ := h value (mem_singleton.mpr rfl)
    rw [transformValue_marker]
    exact h
  | cons segment rest ih =>
    rw [allMarkers_cons] at h ⊢
    intro child hchild
    cases segments' with
    | nil => exact h child (children_transformLeaf hchild)
    | cons segment' rest' =>
      rw [Policy.transformValue, untruncated_throughTruncation] at hchild
      obtain ⟨before, hbefore, rfl | rfl⟩ := children_transformChildren hchild
      · exact h child hbefore
      · exact ih (h before hbefore) rest'

def Transformation.Marks (t : Transformation) : Prop := t = .remove ∨ t = .redact

theorem transformLeaf_of_marks (ht : t.Marks) (hkind : value.kind ≠ .marker) :
    ∃ action, transformLeaf t value = (.marker ⟨value.kind, action⟩, true) := by
  rcases ht with rfl | rfl
  · exact ⟨.removed, if_neg hkind⟩
  · exact ⟨.redacted, if_neg hkind⟩

end Marking

section MarkerFree

variable {value : AttributeValue}

theorem kind_ne_marker (h : value.containsPolicyMarker = false) : value.kind ≠ .marker := by
  cases value with
  | marker m => cases h
  | truncated value action => cases h
  | _ => exact fun hkind => by cases hkind

theorem untruncated_of_markerFree (h : value.containsPolicyMarker = false) : value.untruncated = value := by
  cases value with
  | truncated value action => cases h
  | _ => rfl

theorem throughTruncation_of_markerFree {f : AttributeValue → AttributeValue × Bool}
    (h : value.containsPolicyMarker = false) : throughTruncation f value = f value := by
  cases value with
  | truncated value action => cases h
  | _ => rfl

theorem anyMarker_eq_false_iff {values : List AttributeValue} :
    anyMarker values = false ↔ ∀ value ∈ values, value.containsPolicyMarker = false := by
  induction values with
  | nil => simp [anyMarker]
  | cons value values ih => simp [anyMarker, ih]

theorem anyEntryMarker_eq_false_iff {entries : List (String × AttributeValue)} :
    anyEntryMarker entries = false ↔ ∀ entry ∈ entries, entry.2.containsPolicyMarker = false := by
  induction entries with
  | nil => simp [anyEntryMarker]
  | cons entry entries ih => simp [anyEntryMarker, ih]

theorem markerFree_of_mem_children {value child : AttributeValue}
    (h : value.containsPolicyMarker = false) (hchild : child ∈ children segment value) :
    child.containsPolicyMarker = false := by
  cases segment with
  | key key =>
    cases value with
    | keyValueList entries =>
      obtain ⟨entry, hentry, rfl⟩ := mem_map.mp hchild
      exact anyEntryMarker_eq_false_iff.mp h entry (mem_filter.mp hentry).1
    | _ => exact absurd hchild not_mem_nil
  | arrayIndex index =>
    cases value with
    | array values =>
      exact anyMarker_eq_false_iff.mp h child (mem_of_getElem? (Option.mem_toList.mp hchild))
    | _ => exact absurd hchild not_mem_nil

theorem allMarkers_transformValue {t : Transformation} (ht : t.Marks)
    (hfree : value.containsPolicyMarker = false) : AllMarkers segments (transformValue t segments value).1 := by
  induction segments generalizing value with
  | nil =>
    intro found hfound
    obtain ⟨action, hleaf⟩ := transformLeaf_of_marks ht (kind_ne_marker hfree)
    rw [transformValue, hleaf] at hfound
    exact ⟨_, mem_singleton.mp hfound⟩
  | cons segment rest ih =>
    rw [allMarkers_cons]
    intro child hchild
    rw [transformValue, untruncated_throughTruncation, untruncated_of_markerFree hfree] at hchild
    obtain ⟨before, hbefore, rfl⟩ := children_transformChildren_same hchild
    exact ih (markerFree_of_mem_children hfree hbefore)

end MarkerFree

section Pairs

variable {f : AttributeValue → AttributeValue × Bool}

/-- The two values differ only in the values that the segments lead to, which have the same kinds. -/
def DifferAt : List PolicyPathSegment → AttributeValue → AttributeValue → Prop
  | [], value, value' => value.kind = value'.kind
  | .key key :: rest, .keyValueList entries, .keyValueList entries' =>
    List.Forall₂ (fun entry entry' => entry.1 = entry'.1 ∧
      (if entry.1 = key then DifferAt rest entry.2 entry'.2 else entry.2 = entry'.2)) entries entries'
  | .arrayIndex index :: rest, .array values, .array values' =>
    (∀ i, i ≠ index.1 → values[i]? = values'[i]?) ∧
      Option.Rel (DifferAt rest) values[index.1]? values'[index.1]?
  | _, value, value' => value = value'

variable {rest : List PolicyPathSegment} {value value' : AttributeValue}

theorem entries_congr {key : String} {entries entries' : List (String × AttributeValue)}
    (h : List.Forall₂ (fun entry entry' => entry.1 = entry'.1 ∧
      (if entry.1 = key then DifferAt rest entry.2 entry'.2 else entry.2 = entry'.2)) entries entries')
    (hf : ∀ entry ∈ entries, entry.1 = key → ∀ entry' ∈ entries', entry'.1 = key →
      DifferAt rest entry.2 entry'.2 → f entry.2 = f entry'.2) :
    entries.map (fun entry => if entry.1 = key then (entry.1, (f entry.2).1) else entry) =
      entries'.map (fun entry => if entry.1 = key then (entry.1, (f entry.2).1) else entry) ∧
    (entries.any fun entry => decide (entry.1 = key) && (f entry.2).2) =
      entries'.any fun entry => decide (entry.1 = key) && (f entry.2).2 := by
  induction h with
  | nil => exact ⟨rfl, rfl⟩
  | @cons entry entry' tail tail' hentry _ ih =>
    obtain ⟨hkey, hentry⟩ := hentry
    have htail := ih fun x hx hxkey x' hx' =>
      hf x (mem_cons_of_mem _ hx) hxkey x' (mem_cons_of_mem _ hx')
    rw [map_cons, map_cons, any_cons, any_cons, htail.1, htail.2, ← hkey]
    by_cases hnamed : entry.1 = key
    · rw [if_pos hnamed] at hentry
      have hsame := hf entry mem_cons_self hnamed entry' mem_cons_self (hkey ▸ hnamed) hentry
      rw [if_pos hnamed, if_pos hnamed, hsame]
      exact ⟨rfl, rfl⟩
    · rw [if_neg hnamed] at hentry
      have hsame : entry = entry' := Prod.ext hkey hentry
      rw [if_neg hnamed, if_neg hnamed, hsame]
      exact ⟨rfl, rfl⟩

theorem elements_congr {index : Nat} {values values' : List AttributeValue}
    (hother : ∀ i, i ≠ index → values[i]? = values'[i]?)
    (hf : Option.map f values[index]? = Option.map f values'[index]?) :
    (values.modify index fun value => (f value).1) = (values'.modify index fun value => (f value).1) ∧
      (values[index]?.any fun value => (f value).2) = values'[index]?.any fun value => (f value).2 := by
  constructor
  · apply ext_getElem?
    intro i
    rw [getElem?_modify, getElem?_modify]
    by_cases hi : index = i
    · subst hi
      simp only [if_true]
      have hfirst := congrArg (Option.map Prod.fst) hf
      rw [Option.map_map, Option.map_map] at hfirst
      exact hfirst
    · rw [hother i (Ne.symm hi)]
  · have hany := congrArg (fun o => Option.any (fun pair : AttributeValue × Bool => pair.2) o) hf
    simpa only [Option.any_map] using hany

theorem transformChildren_congr (h : DifferAt (segment :: rest) value value')
    (hf : ∀ child ∈ children segment value, ∀ child' ∈ children segment value',
      DifferAt rest child child' → f child = f child') :
    transformChildren f segment value = transformChildren f segment value' := by
  cases segment with
  | key key =>
    cases value with
    | keyValueList entries =>
      cases value' with
      | keyValueList entries' =>
        simp only [children, mem_map, mem_filter, decide_eq_true_eq] at hf
        have hpair := entries_congr h fun entry hentry hkey entry' hentry' hkey' =>
          hf entry.2 ⟨entry, ⟨hentry, hkey⟩, rfl⟩ entry'.2 ⟨entry', ⟨hentry', hkey'⟩, rfl⟩
        rw [transformChildren, transformChildren, hpair.1, hpair.2]
      | _ => cases h
    | _ => cases h; rfl
  | arrayIndex index =>
    cases value with
    | array values =>
      cases value' with
      | array values' =>
        obtain ⟨hother, hchild⟩ : (∀ i, i ≠ index.1 → values[i]? = values'[i]?) ∧
            Option.Rel (DifferAt rest) values[index.1]? values'[index.1]? := h
        have hsame : Option.map f values[index.1]? = Option.map f values'[index.1]? := by
          simp only [children, Option.mem_toList] at hf
          generalize values[index.1]? = x at hchild hf
          generalize values'[index.1]? = x' at hchild hf
          cases hchild with
          | none => rfl
          | some hrel => exact congrArg some (hf _ rfl _ rfl hrel)
        have hpair := elements_congr hother hsame
        rw [transformChildren, transformChildren, hpair.1, hpair.2]
      | _ => cases h
    | _ => cases h; rfl

theorem transformValue_congr {t : Transformation} (ht : t.Marks) (hfree : value.containsPolicyMarker = false)
    (hfree' : value'.containsPolicyMarker = false) (h : DifferAt segments value value') :
    transformValue t segments value = transformValue t segments value' := by
  induction segments generalizing value value' with
  | nil =>
    have hkind : value.kind = value'.kind := h
    rcases ht with rfl | rfl <;>
      simp only [transformValue, transformLeaf, mark, hkind, if_neg (kind_ne_marker hfree')]
  | cons segment rest ih =>
    rw [transformValue, transformValue, throughTruncation_of_markerFree hfree,
      throughTruncation_of_markerFree hfree']
    apply transformChildren_congr h
    intro child hchild child' hchild' hdiffer
    exact ih (markerFree_of_mem_children hfree hchild) (markerFree_of_mem_children hfree' hchild') hdiffer

end Pairs

section Locations

variable {value value' : AttributeValue}

def childAt : AttributeValue → Nat → Option AttributeValue
  | .array values, i => values[i]?
  | .keyValueList entries, i => entries[i]?.map (·.2)
  | _, _ => none

def valueAt : AttributeValue → List Nat → Option AttributeValue
  | value, [] => some value
  | value, i :: location => (childAt value i).bind fun child => valueAt child location

/-- The content of a value apart from the values in it: its keys and how many values it holds. -/
def own : AttributeValue → AttributeValue
  | .array values => .array (values.map fun _ => .null)
  | .keyValueList entries => .keyValueList (entries.map fun entry => (entry.1, .null))
  | .truncated _ action => .truncated .null action
  | value => value

/-- The locations that the segments of a path lead to. -/
def Selects : List PolicyPathSegment → AttributeValue → List Nat → Prop
  | [], _, location => location = []
  | .key key :: rest, .keyValueList entries, i :: location =>
    ∃ child, entries[i]? = some (key, child) ∧ Selects rest child location
  | .arrayIndex index :: rest, .array values, i :: location =>
    i = index.1 ∧ ∃ child, values[i]? = some child ∧ Selects rest child location
  | _, _, _ => False

/-- The values have the same content at every location that is neither in `places` nor inside one of
them. -/
def SameOutside (places : List Nat → Prop) (value value' : AttributeValue) : Prop :=
  ∀ location, (∀ place, place <+: location → ¬ places place) →
    (valueAt value location).map own = (valueAt value' location).map own

theorem SameOutside.refl (places : List Nat → Prop) (value : AttributeValue) : SameOutside places value value :=
  fun _ _ => rfl

theorem SameOutside.mono {places places' : List Nat → Prop} (h : SameOutside places value value')
    (hsub : ∀ place, places place → places' place) : SameOutside places' value value' :=
  fun location hloc => h location fun place hstart hplace => hloc place hstart (hsub place hplace)

variable {places : List Nat → Prop}

/-- Values with the same own content whose children agree agree everywhere. -/
theorem sameOutside_of_children (hown : own value = own value') (hkids : ∀ i, ¬ places [] →
      Option.Rel (SameOutside fun place => places (i :: place)) (childAt value i) (childAt value' i)) :
    SameOutside places value value' := by
  intro location hloc
  cases location with
  | nil => exact congrArg some hown
  | cons i location =>
    have hchild := hkids i (hloc [] nil_prefix)
    rw [valueAt, valueAt]
    generalize childAt value i = x at hchild
    generalize childAt value' i = x' at hchild
    cases hchild with
    | none => rfl
    | some hsame =>
      apply hsame
      intro place hstart
      exact hloc (i :: place) (cons_prefix_cons.mpr ⟨rfl, hstart⟩)

theorem sameOutside_transformValue (t : Transformation) (segments : List PolicyPathSegment)
    (value : AttributeValue) :
    SameOutside (Selects segments value) value (transformValue t segments value).1 := by
  induction segments generalizing value with
  | nil =>
    intro location hloc
    exact absurd rfl (hloc [] nil_prefix)
  | cons segment rest ih =>
    cases value with
    | truncated inner action =>
      have hwrapped : ∀ changed, SameOutside (Selects (segment :: rest) (.truncated inner action))
          (.truncated inner action) (.truncated changed action) :=
        fun changed => sameOutside_of_children rfl fun _ _ => .none
      exact hwrapped _
    | keyValueList entries =>
      cases segment with
      | arrayIndex index => exact .refl _ _
      | key key =>
        have howned : own (.keyValueList entries) = own (transformValue t (.key key :: rest)
            (.keyValueList entries)).1 := by
          simp only [transformValue, throughTruncation, transformChildren, own, map_map]
          congr 1
          apply map_congr_left
          intro entry _
          rw [Function.comp_apply]
          split <;> rfl
        apply sameOutside_of_children howned
        intro i _
        simp only [childAt, transformValue, throughTruncation, transformChildren, getElem?_map]
        cases hentry : entries[i]? with
        | none => exact .none
        | some entry =>
          apply Option.Rel.some
          dsimp only
          split
          · rename_i hnamed
            apply (ih entry.2).mono
            intro place hplace
            exact ⟨entry.2, by rw [hentry, ← hnamed], hplace⟩
          · exact .refl _ _
    | array values =>
      cases segment with
      | key key => exact .refl _ _
      | arrayIndex index =>
        have howned : own (.array values) = own (transformValue t (.arrayIndex index :: rest)
            (.array values)).1 := by
          simp [transformValue, throughTruncation, transformChildren, own, map_const']
        apply sameOutside_of_children howned
        intro i _
        simp only [childAt, transformValue, throughTruncation, transformChildren, getElem?_modify]
        cases hval : values[i]? with
        | none => exact .none
        | some child =>
          apply Option.Rel.some
          split
          · rename_i hindex
            apply (ih child).mono
            intro place hplace
            exact ⟨hindex.symm, child, hval, hplace⟩
          · exact .refl _ _
    | _ => cases segment <;> exact .refl _ _

/-- What a path selects in a value it also selected before, if nothing on the way has changed. -/
theorem Selects.before {place : List Nat} (h : Selects segments value' place)
    (hsame : ∀ above, above <+: place → (valueAt value above).map own = (valueAt value' above).map own) :
    Selects segments value place := by
  induction segments generalizing value value' place with
  | nil => exact h
  | cons segment rest ih =>
    have hown : own value = own value' := Option.some.inj (hsame [] nil_prefix)
    cases segment with
    | key key =>
      cases value' with
      | keyValueList entries' =>
        cases place with
        | nil => exact h.elim
        | cons i location =>
          obtain ⟨child', hchild', hrest⟩ := h
          cases value with
          | keyValueList entries =>
            have hkeys : entries.map (fun entry => (entry.1, null)) =
                entries'.map fun entry => (entry.1, null) := by
              injection hown
            have hat := congrArg (·[i]?) hkeys
            simp only [getElem?_map, hchild', Option.map_some] at hat
            obtain ⟨entry, hentry, hkey⟩ := Option.map_eq_some_iff.mp hat
            refine ⟨entry.2, ?_, ?_⟩
            · have hnamed : entry.1 = key := congrArg Prod.fst hkey
              rw [hentry, ← hnamed]
            · apply ih hrest
              intro above habove
              have hbelow := hsame (i :: above) (cons_prefix_cons.mpr ⟨rfl, habove⟩)
              simpa only [valueAt, childAt, hentry, hchild', Option.map_some, Option.bind_some] using hbelow
          | _ => cases hown
      | _ => exact h.elim
    | arrayIndex index =>
      cases value' with
      | array values' =>
        cases place with
        | nil => exact h.elim
        | cons i location =>
          obtain ⟨hindex, child', hchild', hrest⟩ := h
          cases value with
          | array values =>
            have hblank : values.map (fun _ => null) = values'.map fun _ => null := by
              injection hown
            have hat := congrArg (·[i]?) hblank
            simp only [getElem?_map, hchild', Option.map_some] at hat
            obtain ⟨child, hchild, _⟩ := Option.map_eq_some_iff.mp hat
            refine ⟨hindex, child, hchild, ?_⟩
            apply ih hrest
            intro above habove
            have hbelow := hsame (i :: above) (cons_prefix_cons.mpr ⟨rfl, habove⟩)
            simpa only [valueAt, childAt, hchild, hchild', Option.map_some, Option.bind_some] using hbelow
          | _ => cases hown
      | _ => exact h.elim

/-- One more transformation changes no more than its path selected in the first value. -/
theorem SameOutside.transformValue (h : SameOutside places value value')
    (t : Transformation) (segments : List PolicyPathSegment) :
    SameOutside (fun place => places place ∨ Selects segments value place) value
      (transformValue t segments value').1 := by
  intro location hloc
  have hbefore : ∀ above, above <+: location →
      (valueAt value above).map own = (valueAt value' above).map own := by
    intro above habove
    apply h
    intro place hstart hplace
    exact hloc place (hstart.trans habove) (.inl hplace)
  rw [hbefore location (prefix_refl location)]
  apply sameOutside_transformValue
  intro place hstart hselected
  refine hloc place hstart (.inr (hselected.before ?_))
  exact fun above habove => hbefore above (habove.trans hstart)

end Locations

section Unchanged

variable {value : AttributeValue} {t : Transformation} {f : AttributeValue → AttributeValue × Bool}

theorem transformLeaf_unchanged (h : (transformLeaf t value).2 = false) :
    (transformLeaf t value).1 = value := by
  have hchange := transformLeaf_change t value
  generalize transformLeaf t value = result at h hchange
  cases hchange with
  | same => rfl
  | _ => cases h

theorem transformChildren_unchanged (hf : ∀ value, (f value).2 = false → (f value).1 = value)
    (h : (transformChildren f segment value).2 = false) : (transformChildren f segment value).1 = value := by
  cases segment with
  | key key =>
    cases value with
    | keyValueList entries =>
      have hnone := any_eq_false.mp h
      have hents : ∀ entry ∈ entries,
          (if entry.1 = key then (entry.1, (f entry.2).1) else entry) = entry := by
        intro entry hmem
        split
        · rename_i hnamed
          have hsame : (f entry.2).2 = false := by
            have hentry := hnone entry hmem
            rw [decide_eq_true hnamed, Bool.not_eq_true] at hentry
            exact hentry
          rw [hf entry.2 hsame]
        · rfl
      rw [transformChildren, map_congr_left hents, map_id']
    | _ => rfl
  | arrayIndex index =>
    cases value with
    | array values =>
      have hvals : (values.modify index.1 fun value => (f value).1) = values := by
        apply ext_getElem?
        intro i
        rw [getElem?_modify]
        cases hval : values[i]? with
        | none => rfl
        | some child =>
          by_cases hi : index.1 = i
          · subst hi
            rw [transformChildren, hval] at h
            simp only [if_true]
            exact congrArg some (hf child h)
          · simp only [if_neg hi]
            rfl
      rw [transformChildren, hvals]
    | _ => rfl

theorem throughTruncation_unchanged (hf : ∀ value, (f value).2 = false → (f value).1 = value)
    (h : (throughTruncation f value).2 = false) : (throughTruncation f value).1 = value := by
  induction value using induct with
  | truncated value action ih =>
    have hinner := ih h
    rw [throughTruncation, hinner]
  | _ => exact hf _ h

theorem transformValue_unchanged
    (h : (transformValue t segments value).2 = false) : (transformValue t segments value).1 = value := by
  induction segments generalizing value with
  | nil => exact transformLeaf_unchanged h
  | cons segment rest ih =>
    exact throughTruncation_unchanged (fun _ => transformChildren_unchanged fun _ => ih) h

end Unchanged

end Positron.Policy
