import Positron.Lib.OrderCode
import Positron.Value.Layout

/-! The order of attribute values and the bytes that are compared in its place. Both look through a truncation, and they
agree unless the order turns on two markers: the bytes put the action first, the order the kind. The canonical bytes
tell a value apart from every other, whatever follows them. -/

namespace Positron.Value
open MachineInt ByteCodec OrderCode List Decoding AttributeValue

/-- The key by which floating-point numbers are totally ordered: a negative number has all bits but its
sign flipped. -/
def totalOrderKey (bits : U64) : I64 :=
  I64.ofBits (bits.1 ^^^ (if bits.1 < 2 ^ 63 then 0 else 2 ^ 63 - 1))

def totalCmp (left right : U64) : Ordering := compare (totalOrderKey left).1 (totalOrderKey right).1

def RedactionMarker.cmp (left right : RedactionMarker) : Ordering :=
  (compare left.originalKind.rank right.originalKind.rank).then
    (compare left.action.rank right.action.rank)

mutual

/-- Order of two values, the second without wrappers around it. -/
def cmpUntruncated : AttributeValue → AttributeValue → Ordering
  | .null, .null => .eq
  | .boolean left, .boolean right => compare left right
  | .signedInteger left, .signedInteger right => compare left.1 right.1
  | .floatingPointBits left, .floatingPointBits right => totalCmp left right
  | .string left, .string right => compare (utf8 left) (utf8 right)
  | .bytes left, .bytes right => compare left right
  | .array left, .array right => cmpValues left right
  | .keyValueList left, .keyValueList right => cmpEntries left right
  | .marker left, .marker right => left.cmp right
  | .truncated value _, other => cmpUntruncated value other
  | left, right => compare left.kind.rank right.kind.rank

def cmpValues : List AttributeValue → List AttributeValue → Ordering
  | [], [] => .eq
  | [], _ :: _ => .lt
  | _ :: _, [] => .gt
  | left :: lefts, right :: rights =>
    (cmpUntruncated left right.untruncated).then (cmpValues lefts rights)

def cmpEntries : List (String × AttributeValue) → List (String × AttributeValue) → Ordering
  | [], [] => .eq
  | [], _ :: _ => .lt
  | _ :: _, [] => .gt
  | (key, left) :: lefts, right :: rights =>
    ((compare (utf8 key) (utf8 right.1)).then (cmpUntruncated left right.2.untruncated)).then
      (cmpEntries lefts rights)

end

def AttributeValue.cmp (left right : AttributeValue) : Ordering :=
  cmpUntruncated left right.untruncated

def comparisonMarkerActionTag : MarkerAction → UInt8
  | .removed => 0
  | .redacted => 1
  | .truncatedBytes => 2
  | .truncatedElements => 3

def comparisonNativeKindTag : AttributeValueKind → UInt8
  | .null => 0
  | .boolean => 1
  | .signedInteger => 2
  | .floatingPoint => 3
  | .string => 4
  | .bytes => 5
  | .array => 6
  | .keyValueList => 7
  | .marker => 0

def orderedInteger (value : I64) : Nat := (value.1 % 2 ^ 64).toNat ^^^ 2 ^ 63

def orderedFloat (bits : U64) : Nat :=
  if bits.1 < 2 ^ 63 then bits.1 ^^^ 2 ^ 63 else 2 ^ 64 - 1 - bits.1

variable (bytes : Bytes)

def visitComparisonSequence : Bytes := OrderCode.sequence (fun byte => [byte]) bytes

mutual

def visitComparisonEncoding : AttributeValue → Bytes
  | .null => [0]
  | .boolean value => [1, if value then 1 else 0]
  | .signedInteger value => 2 :: beBytes 8 (orderedInteger value)
  | .floatingPointBits bits => 3 :: beBytes 8 (orderedFloat bits)
  | .string value => 4 :: visitComparisonSequence (utf8 value)
  | .bytes value => 5 :: visitComparisonSequence value
  | .array values => 6 :: visitValues values
  | .keyValueList entries => 7 :: visitEntries entries
  | .marker m => [8, comparisonMarkerActionTag m.action, comparisonNativeKindTag m.originalKind]
  | .truncated value _ => visitComparisonEncoding value

def visitValues : List AttributeValue → Bytes
  | [] => [0]
  | value :: values => 1 :: (visitComparisonEncoding value ++ visitValues values)

def visitEntries : List (String × AttributeValue) → Bytes
  | [] => [0]
  | (key, value) :: entries =>
    1 :: (visitComparisonSequence (utf8 key) ++ visitComparisonEncoding value ++ visitEntries entries)

end

def checkedDecodedAdd (total value : Nat) : Except DomainFailure Nat :=
  if total + value < 2 ^ 64 then .ok (total + value) else .error .valueLimitExceeded

def comparisonBareSequenceSize (length : Nat) : Except DomainFailure Nat :=
  if length * 2 < 2 ^ 64 then checkedDecodedAdd (length * 2) 1 else .error .valueLimitExceeded

def comparisonSequenceSize (length : Nat) : Except DomainFailure Nat := do
  let bare ← comparisonBareSequenceSize length
  checkedDecodedAdd 1 bare

mutual

def comparisonEncodedSizeBytes : AttributeValue → Except DomainFailure Nat
  | .null => .ok 1
  | .boolean _ => .ok 2
  | .signedInteger _ | .floatingPointBits _ => .ok 9
  | .marker _ => .ok 3
  | .truncated value _ => comparisonEncodedSizeBytes value
  | .string value => comparisonSequenceSize (utf8 value).length
  | .bytes value => comparisonSequenceSize value.length
  | .array values => foldValueSizes 2 values
  | .keyValueList entries => foldEntrySizes 2 entries

def foldValueSizes (total : Nat) : List AttributeValue → Except DomainFailure Nat
  | [] => .ok total
  | value :: values => do
    let total ← checkedDecodedAdd total 1
    let size ← comparisonEncodedSizeBytes value
    let total ← checkedDecodedAdd total size
    foldValueSizes total values

def foldEntrySizes (total : Nat) : List (String × AttributeValue) → Except DomainFailure Nat
  | [] => .ok total
  | (key, value) :: entries => do
    let total ← checkedDecodedAdd total 1
    let keySize ← comparisonBareSequenceSize (utf8 key).length
    let total ← checkedDecodedAdd total keySize
    let size ← comparisonEncodedSizeBytes value
    let total ← checkedDecodedAdd total size
    foldEntrySizes total entries

end

variable {a b : AttributeValue}

theorem xor_signBit {n : Nat} (h : n < 2 ^ 64) : n ^^^ 2 ^ 63 = (n + 2 ^ 63) % 2 ^ 64 := by
  have hdiv : (n ^^^ 2 ^ 63) / 2 ^ 63 = n / 2 ^ 63 ^^^ 1 := by
    rw [Nat.xor_div_two_pow, Nat.div_self (Nat.two_pow_pos 63)]
  have hmod : (n ^^^ 2 ^ 63) % 2 ^ 63 = n % 2 ^ 63 := by
    rw [Nat.xor_mod_two_pow, Nat.mod_self, Nat.xor_zero]
  have hbit : n / 2 ^ 63 = 0 ∨ n / 2 ^ 63 = 1 := by omega
  rcases hbit with hbit | hbit
  · have hone : 0 ^^^ 1 = 1 := rfl
    rw [hbit] at hdiv
    omega
  · have hzero : 1 ^^^ 1 = 0 := rfl
    rw [hbit] at hdiv
    omega

theorem ones_xor {w m : Nat} (h : m < 2 ^ w) : (2 ^ w - 1) ^^^ m = 2 ^ w - (m + 1) := by
  apply Nat.eq_of_testBit_eq
  intro i
  rw [Nat.testBit_xor, Nat.testBit_two_pow_sub_one, Nat.testBit_two_pow_sub_succ h]
  by_cases hi : i < w
  · simp [hi]
  · have hpow : m < 2 ^ i := Nat.lt_of_lt_of_le h (Nat.pow_le_pow_right (by omega) (by omega))
    simp [hi, Nat.testBit_lt_two_pow hpow]

theorem xor_lowBits {n : Nat} (h : n < 2 ^ 64) (hsign : 2 ^ 63 ≤ n) :
    n ^^^ (2 ^ 63 - 1) = 2 ^ 64 - 1 - n + 2 ^ 63 := by
  have hdiv : (n ^^^ (2 ^ 63 - 1)) / 2 ^ 63 = 1 := by
    have hbit : n / 2 ^ 63 = 1 := by omega
    rw [Nat.xor_div_two_pow, hbit]
    rfl
  have hmod : (n ^^^ (2 ^ 63 - 1)) % 2 ^ 63 = 2 ^ 63 - (n % 2 ^ 63 + 1) := by
    have hlow : (2 ^ 63 - 1) % 2 ^ 63 = 2 ^ 63 - 1 := by omega
    rw [Nat.xor_mod_two_pow, hlow, Nat.xor_comm, ones_xor (Nat.mod_lt _ (Nat.two_pow_pos 63))]
  omega

theorem orderedInteger_eq (value : I64) : (orderedInteger value : Int) = value.1 + 2 ^ 63 := by
  obtain ⟨value, hlow, hhigh⟩ := value
  have hword : (value % 2 ^ 64).toNat < 2 ^ 64 := by omega
  unfold orderedInteger
  rw [xor_signBit hword]
  dsimp only
  omega

theorem orderedFloat_eq (bits : U64) : (orderedFloat bits : Int) = (totalOrderKey bits).1 + 2 ^ 63 := by
  obtain ⟨bits, hbits⟩ := bits
  unfold orderedFloat totalOrderKey
  dsimp only
  split
  · rw [xor_signBit hbits, Nat.xor_zero]
    unfold I64.ofBits
    rw [dif_pos (by omega)]
    dsimp only
    omega
  · rw [xor_lowBits hbits (by omega)]
    unfold I64.ofBits
    rw [dif_neg (by omega)]
    dsimp only
    omega

theorem codes_shifted {m n : Nat} {a b : Int} (hm : (m : Int) = a + 2 ^ 63) (hn : (n : Int) = b + 2 ^ 63)
    (ha : a < 2 ^ 63) (hb : b < 2 ^ 63) : Codes (compare a b) (beBytes 8 m) (beBytes 8 n) := by
  have hcompare : compare a b = compare m n := by
    rcases Int.lt_trichotomy a b with h | h | h
    · rw [Int.compare_eq_lt.mpr h, Nat.compare_eq_lt.mpr (by omega)]
    · rw [Int.compare_eq_eq.mpr h, Nat.compare_eq_eq.mpr (by omega)]
    · rw [Int.compare_eq_gt.mpr h, Nat.compare_eq_gt.mpr (by omega)]
  rw [hcompare]
  exact .beBytes_of_lt (by omega) (by omega)

mutual

def AttributeValue.markers : AttributeValue → List RedactionMarker
  | .marker m => [m]
  | .truncated value _ => value.markers
  | .array values => markersOfValues values
  | .keyValueList entries => markersOfEntries entries
  | _ => []

def markersOfValues : List AttributeValue → List RedactionMarker
  | [] => []
  | value :: values => value.markers ++ markersOfValues values

def markersOfEntries : List (String × AttributeValue) → List RedactionMarker
  | [] => []
  | (_, value) :: entries => value.markers ++ markersOfEntries entries

end

variable {m : RedactionMarker}

theorem mem_markersOfValues {values : List AttributeValue} :
    m ∈ markersOfValues values ↔ ∃ value ∈ values, m ∈ value.markers := by
  induction values with
  | nil => simp [markersOfValues]
  | cons value values ih => simp [markersOfValues, ih]

theorem mem_markersOfEntries {entries : List (String × AttributeValue)} :
    m ∈ markersOfEntries entries ↔ ∃ entry ∈ entries, m ∈ entry.2.markers := by
  induction entries with
  | nil => simp [markersOfEntries]
  | cons entry entries ih => simp [markersOfEntries, ih]

theorem visitValues_eq (values : List AttributeValue) :
    visitValues values = OrderCode.sequence visitComparisonEncoding values := by
  induction values with
  | nil => rfl
  | cons value values ih => rw [visitValues, ih, OrderCode.sequence]

theorem visitValues_length_ne_zero (values : List AttributeValue) : (visitValues values).length ≠ 0 := by
  rw [visitValues_eq, length_sequence]
  omega

def visitEntry (entry : String × AttributeValue) : Bytes :=
  visitComparisonSequence (utf8 entry.1) ++ visitComparisonEncoding entry.2

theorem visitEntries_eq (entries : List (String × AttributeValue)) :
    visitEntries entries = OrderCode.sequence visitEntry entries := by
  induction entries with
  | nil => rfl
  | cons entry entries ih => rw [visitEntries, ih, OrderCode.sequence, visitEntry]

theorem visitEntries_length_ne_zero (entries : List (String × AttributeValue)) :
    (visitEntries entries).length ≠ 0 := by
  rw [visitEntries_eq, length_sequence]
  omega

theorem cmpValues_eq (lefts rights : List AttributeValue) :
    cmpValues lefts rights = lefts.compareLex AttributeValue.cmp rights := by
  induction lefts generalizing rights with
  | nil =>
    cases rights with
    | nil => rfl
    | cons right rights => rfl
  | cons left lefts ih =>
    cases rights with
    | nil => rfl
    | cons right rights => rw [cmpValues, ih, List.compareLex_cons_cons, AttributeValue.cmp]

def cmpEntry (left right : String × AttributeValue) : Ordering :=
  (compare (utf8 left.1) (utf8 right.1)).then (left.2.cmp right.2)

theorem cmpEntries_eq (lefts rights : List (String × AttributeValue)) :
    cmpEntries lefts rights = lefts.compareLex cmpEntry rights := by
  induction lefts generalizing rights with
  | nil =>
    cases rights with
    | nil => rfl
    | cons right rights => rfl
  | cons left lefts ih =>
    cases rights with
    | nil => rfl
    | cons right rights =>
      rw [cmpEntries, ih, List.compareLex_cons_cons, cmpEntry, AttributeValue.cmp]

variable (value : AttributeValue)

theorem visitComparisonEncoding_untruncated :
    visitComparisonEncoding value.untruncated = visitComparisonEncoding value := by
  induction value using induct with
  | truncated value action ih => exact ih
  | _ => rfl

theorem markers_untruncated : value.untruncated.markers = value.markers := by
  induction value using induct with
  | truncated value action ih => exact ih
  | _ => rfl

theorem untruncated_ne_truncated : ∀ inner action, value.untruncated ≠ .truncated inner action := by
  induction value using induct with
  | truncated value action ih => exact ih
  | _ => exact fun inner action h => by cases h

theorem exists_visitComparisonEncoding :
    ∃ rest, visitComparisonEncoding value = UInt8.ofNat value.kind.rank :: rest := by
  induction value using induct with
  | truncated value action ih => exact ih
  | _ => exact ⟨_, rfl⟩

theorem rank_lt (kind : AttributeValueKind) : kind.rank < 9 := by
  cases kind <;> decide

theorem codes_of_rank_ne (h : a.kind.rank ≠ b.kind.rank) :
    Codes (compare a.kind.rank b.kind.rank) (visitComparisonEncoding a) (visitComparisonEncoding b) := by
  obtain ⟨x, hx⟩ := exists_visitComparisonEncoding a
  obtain ⟨y, hy⟩ := exists_visitComparisonEncoding b
  have ha := rank_lt a.kind
  have hb := rank_lt b.kind
  have hcompare := compare_ofNat a.kind.rank b.kind.rank
  rw [Nat.mod_eq_of_lt (by omega), Nat.mod_eq_of_lt (by omega)] at hcompare
  rw [hx, hy, ← hcompare]
  apply Codes.first
  intro heq
  rw [heq, Std.ReflOrd.compare_self] at hcompare
  exact h (Nat.compare_eq_eq.mp hcompare.symm)

/-- The order of the bytes of two markers. -/
def RedactionMarker.encodedCmp (m n : RedactionMarker) : Ordering :=
  (compare (comparisonMarkerActionTag m.action) (comparisonMarkerActionTag n.action)).then
    (compare (comparisonNativeKindTag m.originalKind) (comparisonNativeKindTag n.originalKind))

mutual

/-- Whether two values are the same but for their truncations, the second without wrappers around it. -/
def alikeUntruncated : AttributeValue → AttributeValue → Bool
  | .null, .null => true
  | .boolean left, .boolean right => left == right
  | .signedInteger left, .signedInteger right => decide (left = right)
  | .floatingPointBits left, .floatingPointBits right => decide (left = right)
  | .string left, .string right => decide (left = right)
  | .bytes left, .bytes right => decide (left = right)
  | .array lefts, .array rights => alikeValues lefts rights
  | .keyValueList lefts, .keyValueList rights => alikeEntries lefts rights
  | .marker left, .marker right => decide (left = right)
  | .truncated value _, other => alikeUntruncated value other
  | _, _ => false

def alikeValues : List AttributeValue → List AttributeValue → Bool
  | [], [] => true
  | left :: lefts, right :: rights => alikeUntruncated left right.untruncated && alikeValues lefts rights
  | _, _ => false

def alikeEntries : List (String × AttributeValue) → List (String × AttributeValue) → Bool
  | [], [] => true
  | (key, left) :: lefts, right :: rights =>
    (decide (key = right.1) && alikeUntruncated left right.2.untruncated) && alikeEntries lefts rights
  | _, _ => false

end

def AttributeValue.alike (left right : AttributeValue) : Bool := alikeUntruncated left right.untruncated

def alikeEntry (left right : String × AttributeValue) : Bool := decide (left.1 = right.1) && left.2.alike right.2

mutual

/-- The two markers that stand where the values first differ, if markers stand there in both. -/
def decidingUntruncated : AttributeValue → AttributeValue → Option (RedactionMarker × RedactionMarker)
  | .marker left, .marker right => if left = right then none else some (left, right)
  | .array lefts, .array rights => decidingInValues lefts rights
  | .keyValueList lefts, .keyValueList rights => decidingInEntries lefts rights
  | .truncated value _, other => decidingUntruncated value other
  | _, _ => none

def decidingInValues : List AttributeValue → List AttributeValue → Option (RedactionMarker × RedactionMarker)
  | left :: lefts, right :: rights =>
    if left.alike right then decidingInValues lefts rights else decidingUntruncated left right.untruncated
  | _, _ => none

def decidingInEntries :
    List (String × AttributeValue) → List (String × AttributeValue) → Option (RedactionMarker × RedactionMarker)
  | (key, left) :: lefts, right :: rights =>
    if alikeEntry (key, left) right then decidingInEntries lefts rights
    else if key = right.1 then decidingUntruncated left right.2.untruncated else none
  | _, _ => none

end

def AttributeValue.decidingMarkers (left right : AttributeValue) : Option (RedactionMarker × RedactionMarker) :=
  decidingUntruncated left right.untruncated

def decidingInEntry (left right : String × AttributeValue) : Option (RedactionMarker × RedactionMarker) :=
  if left.1 = right.1 then left.2.decidingMarkers right.2 else none

theorem alikeValues_eq (lefts rights : List AttributeValue) :
    alikeValues lefts rights = lefts.isEqv rights AttributeValue.alike := by
  induction lefts generalizing rights with
  | nil => cases rights <;> rfl
  | cons left lefts ih =>
    cases rights with
    | nil => rfl
    | cons right rights => rw [alikeValues, ih, isEqv, AttributeValue.alike]

theorem alikeEntries_eq (lefts rights : List (String × AttributeValue)) :
    alikeEntries lefts rights = lefts.isEqv rights alikeEntry := by
  induction lefts generalizing rights with
  | nil => cases rights <;> rfl
  | cons left lefts ih =>
    cases rights with
    | nil => rfl
    | cons right rights => rw [alikeEntries, ih, isEqv, alikeEntry, AttributeValue.alike]

theorem decidingInValues_eq (lefts rights : List AttributeValue) :
    decidingInValues lefts rights =
      firstDifference AttributeValue.alike AttributeValue.decidingMarkers lefts rights := by
  induction lefts generalizing rights with
  | nil => rfl
  | cons left lefts ih =>
    cases rights with
    | nil => rfl
    | cons right rights => rw [decidingInValues, ih, firstDifference, AttributeValue.decidingMarkers]

theorem decidingInEntries_eq (lefts rights : List (String × AttributeValue)) :
    decidingInEntries lefts rights = firstDifference alikeEntry decidingInEntry lefts rights := by
  induction lefts generalizing rights with
  | nil => rfl
  | cons left lefts ih =>
    cases rights with
    | nil => rfl
    | cons right rights =>
      rw [decidingInEntries, ih, firstDifference, decidingInEntry, AttributeValue.decidingMarkers]

theorem utf8_injective {a b : String} (h : utf8 a = utf8 b) : a = b := by
  have ha := ofUtf8?_toUTF8 a
  have hb := ofUtf8?_toUTF8 b
  unfold utf8 at h
  rw [h, hb] at ha
  exact (Option.some.inj ha).symm

theorem compare_bytes_eq_iff {left right : Bytes} : compare left right = .eq ↔ left = right :=
  ⟨Std.LawfulEqOrd.eq_of_compare, fun h => by rw [h, Std.ReflOrd.compare_self]⟩

theorem compare_utf8_eq_iff {left right : String} : compare (utf8 left) (utf8 right) = .eq ↔ left = right := by
  rw [compare_bytes_eq_iff]
  exact ⟨fun h => utf8_injective h, fun h => by rw [h]⟩

theorem rank_injective {left right : AttributeValueKind} (h : left.rank = right.rank) : left = right := by
  cases left <;> cases right <;> first | rfl | cases h

theorem actionRank_injective {left right : MarkerAction} (h : left.rank = right.rank) : left = right := by
  cases left <;> cases right <;> first | rfl | cases h

theorem RedactionMarker.cmp_eq_iff {left right : RedactionMarker} : left.cmp right = .eq ↔ left = right := by
  obtain ⟨leftKind, leftAction⟩ := left
  obtain ⟨rightKind, rightAction⟩ := right
  rw [RedactionMarker.cmp, Ordering.then_eq_eq, Nat.compare_eq_eq, Nat.compare_eq_eq, RedactionMarker.mk.injEq]
  exact ⟨fun h => ⟨rank_injective h.1, actionRank_injective h.2⟩, fun h => ⟨by rw [h.1], by rw [h.2]⟩⟩

theorem compare_actionTag (left right : MarkerAction) :
    compare (comparisonMarkerActionTag left) (comparisonMarkerActionTag right) = compare left.rank right.rank := by
  cases left <;> cases right <;> rfl

theorem compare_kindTag {left right : AttributeValueKind} (hleft : left ≠ .marker) (hright : right ≠ .marker) :
    compare (comparisonNativeKindTag left) (comparisonNativeKindTag right) = compare left.rank right.rank := by
  cases left <;> cases right <;> first | rfl | exact absurd rfl hleft | exact absurd rfl hright

theorem totalOrderKey_injective {left right : U64} (h : (totalOrderKey left).1 = (totalOrderKey right).1) :
    left = right := by
  have hleft := orderedFloat_eq left
  have hright := orderedFloat_eq right
  have hcode : orderedFloat left = orderedFloat right := by omega
  have hleft := xor_signBit left.2
  have hright := xor_signBit right.2
  unfold orderedFloat at hcode
  apply Subtype.ext
  split at hcode <;> split at hcode <;> omega

/-- The order finds no difference exactly between values that are alike. -/
theorem cmpUntruncated_eq_iff (hb : ∀ inner action, b ≠ .truncated inner action) :
    cmpUntruncated a b = .eq ↔ alikeUntruncated a b = true := by
  induction a using induct generalizing b
  case truncated value action ih => exact ih hb
  all_goals cases b
  case null.null => exact ⟨fun _ => rfl, fun _ => rfl⟩
  case boolean.boolean left right => cases left <;> cases right <;> decide
  case signedInteger.signedInteger left right =>
    rw [cmpUntruncated, alikeUntruncated, Int.compare_eq_eq, decide_eq_true_eq]
    exact ⟨Subtype.ext, fun h => by rw [h]⟩
  case floatingPointBits.floatingPointBits left right =>
    rw [cmpUntruncated, alikeUntruncated, totalCmp, Int.compare_eq_eq, decide_eq_true_eq]
    exact ⟨totalOrderKey_injective, fun h => by rw [h]⟩
  case string.string left right =>
    rw [cmpUntruncated, alikeUntruncated, compare_utf8_eq_iff, decide_eq_true_eq]
  case bytes.bytes left right =>
    rw [cmpUntruncated, alikeUntruncated, compare_bytes_eq_iff, decide_eq_true_eq]
  case array.array lefts ih rights =>
    rw [cmpUntruncated, alikeUntruncated, cmpValues_eq, alikeValues_eq]
    exact compareLex_eq_iff fun left hleft right _ => ih left hleft (untruncated_ne_truncated right)
  case keyValueList.keyValueList lefts ih rights =>
    rw [cmpUntruncated, alikeUntruncated, cmpEntries_eq, alikeEntries_eq]
    refine compareLex_eq_iff fun left hleft right _ => ?_
    rw [cmpEntry, alikeEntry, Ordering.then_eq_eq, Bool.and_eq_true, decide_eq_true_eq, compare_utf8_eq_iff]
    exact and_congr_right fun _ => ih left hleft (untruncated_ne_truncated right.2)
  case marker.marker m n =>
    rw [cmpUntruncated, alikeUntruncated, RedactionMarker.cmp_eq_iff, decide_eq_true_eq]
  -- Off the diagonal the ranks differ.
  all_goals first
    | exact absurd rfl (hb _ _)
    | exact iff_of_false (fun h => by cases h) (fun h => by cases h)

theorem cmp_eq_iff (a b : AttributeValue) : a.cmp b = .eq ↔ a.alike b = true :=
  cmpUntruncated_eq_iff (untruncated_ne_truncated b)

theorem cmpEntry_eq_iff (left right : String × AttributeValue) :
    cmpEntry left right = .eq ↔ alikeEntry left right = true := by
  rw [cmpEntry, alikeEntry, Ordering.then_eq_eq, Bool.and_eq_true, decide_eq_true_eq, compare_utf8_eq_iff, cmp_eq_iff]

/-- The deciding markers are different markers of the two values, and the values are ordered as they are. -/
theorem decidingUntruncated_eq_some {m n : RedactionMarker} (h : decidingUntruncated a b = some (m, n)) :
    m ≠ n ∧ m ∈ a.markers ∧ n ∈ b.markers ∧ cmpUntruncated a b = m.cmp n := by
  induction a using induct generalizing b
  case truncated value action ih => exact ih h
  all_goals cases b
  case array.array lefts ih rights =>
    rw [decidingUntruncated, decidingInValues_eq] at h
    obtain ⟨left, hleft, right, hright, hfound, hlex⟩ := firstDifference_eq_some (fun x _ y _ => cmp_eq_iff x y) h
    obtain ⟨hne, hm, hn, hcmp⟩ := ih left hleft hfound
    rw [markers_untruncated] at hn
    rw [cmpUntruncated, cmpValues_eq, hlex]
    exact ⟨hne, mem_markersOfValues.mpr ⟨left, hleft, hm⟩, mem_markersOfValues.mpr ⟨right, hright, hn⟩, hcmp⟩
  case keyValueList.keyValueList lefts ih rights =>
    rw [decidingUntruncated, decidingInEntries_eq] at h
    obtain ⟨left, hleft, right, hright, hfound, hlex⟩ :=
      firstDifference_eq_some (fun x _ y _ => cmpEntry_eq_iff x y) h
    unfold decidingInEntry at hfound
    split at hfound
    · rename_i hkey
      obtain ⟨hne, hm, hn, hcmp⟩ := ih left hleft hfound
      rw [markers_untruncated] at hn
      rw [cmpUntruncated, cmpEntries_eq, hlex, cmpEntry, compare_utf8_eq_iff.mpr hkey]
      exact ⟨hne, mem_markersOfEntries.mpr ⟨left, hleft, hm⟩, mem_markersOfEntries.mpr ⟨right, hright, hn⟩, hcmp⟩
    · cases hfound
  case marker.marker left right =>
    rw [decidingUntruncated] at h
    split at h
    · cases h
    · rename_i hne
      cases h
      exact ⟨hne, mem_singleton.mpr rfl, mem_singleton.mpr rfl, rfl⟩
  all_goals cases h

theorem decidingMarkers_eq_none (h : a.alike b = true) : a.decidingMarkers b = none := by
  cases hfound : a.decidingMarkers b with
  | none => rfl
  | some found =>
    obtain ⟨hne, -, -, hcmp⟩ := decidingUntruncated_eq_some hfound
    have heq := ((cmp_eq_iff a b).mpr h).symm.trans hcmp
    exact absurd (RedactionMarker.cmp_eq_iff.mp heq.symm) hne

theorem encodedCmp_ne_eq {m n : RedactionMarker} (hm : m.isValid) (hn : n.isValid) (h : m ≠ n) :
    m.encodedCmp n ≠ .eq := by
  intro heq
  rw [RedactionMarker.encodedCmp, compare_actionTag,
    compare_kindTag (RedactionMarker.kind_ne_marker hm) (RedactionMarker.kind_ne_marker hn), Ordering.then_eq_eq] at heq
  exact h (RedactionMarker.cmp_eq_iff.mp (Ordering.then_eq_eq.mpr heq.symm))

theorem encodedCmp_of_deciding (hvalid : ∀ m ∈ a.markers, m.isValid) (hvalid' : ∀ n ∈ b.markers, n.isValid)
    {found : RedactionMarker × RedactionMarker} (h : a.decidingMarkers b = some found) :
    found.1.encodedCmp found.2 ≠ .eq := by
  obtain ⟨hne, hm, hn, -⟩ := decidingUntruncated_eq_some h
  rw [markers_untruncated] at hn
  exact encodedCmp_ne_eq (hvalid _ hm) (hvalid' _ hn) hne

/-- The encodings compare as the values do, except that deciding markers are taken as their bytes are. -/
theorem codes_encodedCmp (hb : ∀ inner action, b ≠ .truncated inner action) (hvalid : ∀ m ∈ a.markers, m.isValid)
    (hvalid' : ∀ n ∈ b.markers, n.isValid) :
    Codes ((decidingUntruncated a b).elim (cmpUntruncated a b) fun found => found.1.encodedCmp found.2)
      (visitComparisonEncoding a) (visitComparisonEncoding b) := by
  induction a using induct generalizing b
  case truncated value action ih => exact ih hb hvalid hvalid'
  all_goals cases b
  case null.null => exact .head 0 .nil
  case boolean.boolean left right =>
    apply Codes.head 1
    cases left <;> cases right <;> exact .byte _ _
  case signedInteger.signedInteger left right =>
    exact .head 2 (codes_shifted (orderedInteger_eq left) (orderedInteger_eq right) left.2.2 right.2.2)
  case floatingPointBits.floatingPointBits left right =>
    exact .head 3 (codes_shifted (orderedFloat_eq left) (orderedFloat_eq right) (totalOrderKey left).2.2
      (totalOrderKey right).2.2)
  case string.string left right => exact .head 4 (.bytes _ _)
  case bytes.bytes left right => exact .head 5 (.bytes _ _)
  case array.array lefts ih rights =>
    have hvalid : ∀ left ∈ lefts, ∀ m ∈ left.markers, m.isValid :=
      fun left hleft m hm => hvalid m (mem_markersOfValues.mpr ⟨left, hleft, hm⟩)
    have hvalid' : ∀ right ∈ rights, ∀ n ∈ right.markers, n.isValid :=
      fun right hright n hn => hvalid' n (mem_markersOfValues.mpr ⟨right, hright, hn⟩)
    have hcodes : ∀ left ∈ lefts, ∀ right ∈ rights,
        Codes ((left.decidingMarkers right).elim (left.cmp right) fun found => found.1.encodedCmp found.2)
          (visitComparisonEncoding left) (visitComparisonEncoding right) := by
      intro left hleft right hright
      rw [← visitComparisonEncoding_untruncated right]
      refine ih left hleft (untruncated_ne_truncated right) (hvalid left hleft) ?_
      rw [markers_untruncated]
      exact hvalid' right hright
    apply Codes.head 6
    rw [decidingUntruncated, cmpUntruncated, decidingInValues_eq, cmpValues_eq, visitValues_eq, visitValues_eq,
      ← compareLex_firstDifference (fun x _ y _ => cmp_eq_iff x y) (fun x _ y _ => decidingMarkers_eq_none)]
    · exact .sequence hcodes
    · exact fun left hleft right hright found => encodedCmp_of_deciding (hvalid left hleft) (hvalid' right hright)
  case keyValueList.keyValueList lefts ih rights =>
    have hvalid : ∀ left ∈ lefts, ∀ m ∈ left.2.markers, m.isValid :=
      fun left hleft m hm => hvalid m (mem_markersOfEntries.mpr ⟨left, hleft, hm⟩)
    have hvalid' : ∀ right ∈ rights, ∀ n ∈ right.2.markers, n.isValid :=
      fun right hright n hn => hvalid' n (mem_markersOfEntries.mpr ⟨right, hright, hn⟩)
    have hcodes : ∀ left ∈ lefts, ∀ right ∈ rights,
        Codes ((decidingInEntry left right).elim (cmpEntry left right) fun found => found.1.encodedCmp found.2)
          (visitEntry left) (visitEntry right) := by
      intro left hleft right hright
      have hvalue := ih left hleft (untruncated_ne_truncated right.2) (hvalid left hleft)
      rw [markers_untruncated, visitComparisonEncoding_untruncated] at hvalue
      have hvalue := hvalue (hvalid' right hright)
      have hentry := (Codes.bytes (utf8 left.1) (utf8 right.1)).append hvalue
      unfold decidingInEntry cmpEntry
      split
      · rename_i hkey
        rw [compare_utf8_eq_iff.mpr hkey] at hentry ⊢
        exact hentry
      · rename_i hkey
        have hne : compare (utf8 left.1) (utf8 right.1) ≠ .eq := fun heq => hkey (compare_utf8_eq_iff.mp heq)
        rw [then_of_ne hne] at hentry
        rw [Option.elim_none, then_of_ne hne]
        exact hentry
    apply Codes.head 7
    rw [decidingUntruncated, cmpUntruncated, decidingInEntries_eq, cmpEntries_eq, visitEntries_eq, visitEntries_eq,
      ← compareLex_firstDifference (fun x _ y _ => cmpEntry_eq_iff x y)]
    · exact .sequence hcodes
    · intro left _ right _ hsame
      unfold decidingInEntry
      obtain ⟨hkey, halike⟩ := (Bool.and_eq_true _ _).mp hsame
      rw [if_pos (of_decide_eq_true hkey), decidingMarkers_eq_none halike]
    · intro left hleft right hright found hfound
      unfold decidingInEntry at hfound
      split at hfound
      · exact encodedCmp_of_deciding (hvalid left hleft) (hvalid' right hright) hfound
      · cases hfound
  case marker.marker m n =>
    apply Codes.head 8
    have hcodes := Codes.append (.byte (comparisonMarkerActionTag m.action) (comparisonMarkerActionTag n.action))
      (.byte (comparisonNativeKindTag m.originalKind) (comparisonNativeKindTag n.originalKind))
    rw [decidingUntruncated]
    split
    · rename_i hsame
      subst hsame
      rw [Std.ReflOrd.compare_self, Std.ReflOrd.compare_self] at hcodes
      rw [Option.elim_none, cmpUntruncated, RedactionMarker.cmp_eq_iff.mpr rfl]
      exact hcodes
    · exact hcodes
  -- Off the diagonal the ranks differ.
  all_goals first
    | exact absurd rfl (hb _ _)
    | exact codes_of_rank_ne (Nat.ne_of_beq_eq_false rfl)

section Sizes

def wordSized (length : Nat) : Except DomainFailure Nat :=
  if length < 2 ^ 64 then .ok length else .error .valueLimitExceeded

theorem checkedDecodedAdd_eq (total value : Nat) : checkedDecodedAdd total value = wordSized (total + value) := rfl

theorem wordSized_bind {length : Nat} {f : Nat → Except DomainFailure Nat} {bound : Nat}
    (hbound : length ≤ bound) (hf : length < 2 ^ 64 → f length = wordSized bound) :
    (wordSized length >>= f) = wordSized bound := by
  by_cases hlen : length < 2 ^ 64
  · have hok : wordSized length = .ok length := if_pos hlen
    rw [hok]
    exact hf hlen
  · have herror : wordSized length = .error .valueLimitExceeded := if_neg hlen
    have hbounds : wordSized bound = .error .valueLimitExceeded := if_neg (by omega)
    rw [herror, hbounds]
    rfl

theorem length_visitComparisonSequence : (visitComparisonSequence bytes).length = bytes.length * 2 + 1 := by
  unfold visitComparisonSequence
  rw [length_sequence]
  simp [map_const']

theorem comparisonBareSequenceSize_eq :
    comparisonBareSequenceSize bytes.length = wordSized (visitComparisonSequence bytes).length := by
  rw [length_visitComparisonSequence, comparisonBareSequenceSize]
  split
  · rfl
  · exact (if_neg (by omega)).symm

theorem comparisonSequenceSize_eq :
    comparisonSequenceSize bytes.length = wordSized ((visitComparisonSequence bytes).length + 1) := by
  unfold comparisonSequenceSize
  rw [comparisonBareSequenceSize_eq]
  apply wordSized_bind (Nat.le_add_right _ 1)
  intro _
  rw [checkedDecodedAdd_eq, Nat.add_comm]

variable {total : Nat}

theorem foldValueSizes_eq {values : List AttributeValue}
    (h : ∀ value ∈ values, comparisonEncodedSizeBytes value = wordSized (visitComparisonEncoding value).length)
    (htotal : total < 2 ^ 64) :
    foldValueSizes total values = wordSized (total + ((visitValues values).length - 1)) := by
  induction values generalizing total with
  | nil => exact (if_pos htotal).symm
  | cons value values ih =>
    have hlen := visitValues_length_ne_zero values
    rw [foldValueSizes, visitValues, length_cons, length_append, h value mem_cons_self]
    apply wordSized_bind (by omega)
    intro _
    apply wordSized_bind (by omega)
    intro _
    apply wordSized_bind (by omega)
    intro hfits
    rw [ih (fun value hmem => h value (mem_cons_of_mem _ hmem)) hfits]
    congr 1
    omega

theorem foldEntrySizes_eq {entries : List (String × AttributeValue)} (h : ∀ entry ∈ entries,
      comparisonEncodedSizeBytes entry.2 = wordSized (visitComparisonEncoding entry.2).length)
    (htotal : total < 2 ^ 64) :
    foldEntrySizes total entries = wordSized (total + ((visitEntries entries).length - 1)) := by
  induction entries generalizing total with
  | nil => exact (if_pos htotal).symm
  | cons entry entries ih =>
    have hlen := visitEntries_length_ne_zero entries
    rw [foldEntrySizes, visitEntries, length_cons, length_append, length_append,
      comparisonBareSequenceSize_eq, h entry mem_cons_self]
    apply wordSized_bind (by omega)
    intro _
    apply wordSized_bind (by omega)
    intro _
    apply wordSized_bind (by omega)
    intro _
    apply wordSized_bind (by omega)
    intro _
    apply wordSized_bind (by omega)
    intro hfits
    rw [ih (fun entry hmem => h entry (mem_cons_of_mem _ hmem)) hfits]
    congr 1
    omega

theorem comparisonEncodedSizeBytes_eq :
    comparisonEncodedSizeBytes value = wordSized (visitComparisonEncoding value).length := by
  induction value using induct with
  | null | boolean | marker => rfl
  | signedInteger value | floatingPointBits bits =>
    simp [comparisonEncodedSizeBytes, visitComparisonEncoding, wordSized]
  | string value => exact comparisonSequenceSize_eq (utf8 value)
  | bytes value => exact comparisonSequenceSize_eq value
  | array values ih =>
    have hlen := visitValues_length_ne_zero values
    rw [comparisonEncodedSizeBytes, foldValueSizes_eq ih (by decide), visitComparisonEncoding, length_cons]
    congr 1
    omega
  | keyValueList entries ih =>
    have hlen := visitEntries_length_ne_zero entries
    rw [comparisonEncodedSizeBytes, foldEntrySizes_eq ih (by decide), visitComparisonEncoding, length_cons]
    congr 1
    omega
  | truncated value action ih => exact ih

end Sizes

/-- Validation lets no marker through that a policy would not leave. -/
theorem AttributeValue.Fits.markers_isValid {limits : DynamicValueLimits} {valueBytes depth : Nat}
    {value : AttributeValue} (h : value.Fits limits valueBytes depth) : ∀ m ∈ value.markers, m.isValid := by
  induction h with
  | array _ values _ _ ih =>
    intro m hm
    obtain ⟨value, hval, hm⟩ := mem_markersOfValues.mp hm
    exact ih value hval m hm
  | keyValueList _ entries _ _ _ ih =>
    intro m hm
    obtain ⟨entry, hentry, hm⟩ := mem_markersOfEntries.mp hm
    exact ih entry hentry m hm
  | marker _ marker hmarker =>
    intro m hm
    rw [mem_singleton.mp hm]
    exact hmarker
  | truncated _ _ _ _ _ _ ih => exact ih
  | _ => exact fun m hm => absurd hm not_mem_nil

/-- Neither of the two markers has the earlier kind and the later action. -/
def RedactionMarker.Agrees (m n : RedactionMarker) : Prop :=
  (m.originalKind.rank < n.originalKind.rank → m.action.rank ≤ n.action.rank) ∧
    (n.originalKind.rank < m.originalKind.rank → n.action.rank ≤ m.action.rank)

instance (m n : RedactionMarker) : Decidable (m.Agrees n) := inferInstanceAs (Decidable (_ ∧ _))

/-- Two comparisons that never disagree may be made in either order. -/
theorem compare_then_comm {k k' a a' : Nat} :
    (compare k k').then (compare a a') = (compare a a').then (compare k k') ↔
      (k < k' → a ≤ a') ∧ (k' < k → a' ≤ a) := by
  rcases Nat.lt_trichotomy k k' with hk | hk | hk <;> rcases Nat.lt_trichotomy a a' with ha | ha | ha <;>
    simp [Nat.compare_eq_lt.mpr, Nat.compare_eq_gt.mpr, hk, ha] <;> omega

/-- Of valid markers, the ones that agree are those whose bytes compare as they do. -/
theorem encodedCmp_eq_iff {m n : RedactionMarker} (hm : m.isValid) (hn : n.isValid) :
    m.encodedCmp n = m.cmp n ↔ m.Agrees n := by
  rw [RedactionMarker.encodedCmp, RedactionMarker.cmp, compare_actionTag,
    compare_kindTag (RedactionMarker.kind_ne_marker hm) (RedactionMarker.kind_ne_marker hn), eq_comm]
  exact compare_then_comm

/-- The encoding has the announced length. Comparing encodings gives the order of the values exactly when it is not
two markers with their kinds and their actions in opposite orders that stand where the values first differ. -/
theorem comparison_encoding_ordered (a b : ValidatedAttributeValue) :
    comparisonEncodedSizeBytes a.inner = wordSized (visitComparisonEncoding a.inner).length ∧
      (compare (visitComparisonEncoding a.inner) (visitComparisonEncoding b.inner) = a.inner.cmp b.inner ↔
        ∀ m n, a.inner.decidingMarkers b.inner = some (m, n) → m.Agrees n) := by
  obtain ⟨_, _, _, _, ha⟩ := a.validated
  obtain ⟨_, _, _, _, hb⟩ := b.validated
  have hvalid := (fits_of_validate ha).markers_isValid
  have hvalid' := (fits_of_validate hb).markers_isValid
  have hcodes := codes_encodedCmp (untruncated_ne_truncated b.inner) hvalid
    (by rw [markers_untruncated]; exact hvalid')
  rw [visitComparisonEncoding_untruncated] at hcodes
  refine ⟨comparisonEncodedSizeBytes_eq a.inner, ?_⟩
  rw [hcodes.compare_eq]
  cases hfound : decidingUntruncated a.inner b.inner.untruncated with
  | none =>
    refine iff_of_true rfl fun m n hsome => ?_
    cases hfound.symm.trans hsome
  | some found =>
    obtain ⟨m, n⟩ := found
    obtain ⟨-, hm, hn, hcmp⟩ := decidingUntruncated_eq_some hfound
    rw [markers_untruncated] at hn
    have hagrees := encodedCmp_eq_iff (hvalid m hm) (hvalid' n hn)
    rw [← hcmp] at hagrees
    refine hagrees.trans ⟨fun h m' n' hsome => ?_, fun h => h m n hfound⟩
    cases hfound.symm.trans hsome
    exact h

def openLimits : DynamicValueLimits := ⟨Unsigned.maxValue 32, Unsigned.maxValue 32, Unsigned.maxValue 32⟩

def leftMarker (kind : AttributeValueKind) (action : MarkerAction)
    (h : RedactionMarker.isValid ⟨kind, action⟩) : ValidatedAttributeValue :=
  ⟨.marker ⟨kind, action⟩, openLimits, 0, 0, 0, if_pos h⟩

def redactedNull : ValidatedAttributeValue := leftMarker .null .redacted rfl

def removedBoolean : ValidatedAttributeValue := leftMarker .boolean .removed rfl

/-- A redacted null comes before a removed boolean, and its encoding after. -/
theorem redacted_null_encoded_after_removed_boolean :
    redactedNull.inner.cmp removedBoolean.inner = .lt ∧ compare (visitComparisonEncoding redactedNull.inner)
        (visitComparisonEncoding removedBoolean.inner) = .gt := by
  decide

def truncatedArray : ValidatedAttributeValue :=
  ⟨.truncated (.array [.boolean true, .marker ⟨.string, .redacted⟩]) .truncatedElements,
    openLimits, 1, 1, 1, rfl⟩

def markedArray : ValidatedAttributeValue :=
  ⟨.array [.boolean false, .marker ⟨.keyValueList, .removed⟩], openLimits, 1, 1, 1, rfl⟩

-- The markers are in opposite orders, but the flags before them decide.
theorem marked_array_encoded_before_truncated_array :
    compare (visitComparisonEncoding markedArray.inner) (visitComparisonEncoding truncatedArray.inner) = .lt := by
  refine ((comparison_encoding_ordered markedArray truncatedArray).2.mpr fun m n hfound => ?_).trans (by decide)
  have hnone : markedArray.inner.decidingMarkers truncatedArray.inner = none := by decide
  cases hnone.symm.trans hfound

def markerActionTag : MarkerAction → UInt8
  | .removed => 0
  | .redacted => 1
  | .truncatedBytes => 2
  | .truncatedElements => 3

/-- A marker stands for no marker. -/
def nativeKindTag : AttributeValueKind → Except DomainFailure UInt8
  | .null => .ok 0
  | .boolean => .ok 1
  | .signedInteger => .ok 2
  | .floatingPoint => .ok 3
  | .string => .ok 4
  | .bytes => .ok 5
  | .array => .ok 6
  | .keyValueList => .ok 7
  | .marker => .error .valueLimitExceeded

def namespaceTag : AttributeNamespace → UInt8
  | .stream => 0
  | .resource => 1
  | .instrumentationScope => 2
  | .record => 3

def lengthPrefixed : Bytes := beBytes 8 bytes.length ++ bytes

mutual

def visitCanonicalEncoding : AttributeValue → Except DomainFailure Bytes
  | .null => .ok [0]
  | .boolean value => .ok [1, if value then 1 else 0]
  | .signedInteger value => .ok (2 :: i64Bytes value)
  | .floatingPointBits bits => .ok (3 :: beBytes 8 bits.1)
  | .string value => .ok (4 :: lengthPrefixed (utf8 value))
  | .bytes value => .ok (5 :: lengthPrefixed value)
  | .array values => do return 6 :: (beBytes 8 values.length ++ (← visitCanonicalValues values))
  | .keyValueList entries => do return 7 :: (beBytes 8 entries.length ++ (← visitCanonicalEntries entries))
  | .marker m => do return [8, markerActionTag m.action, ← nativeKindTag m.originalKind]
  | .truncated value action => do
    return 8 :: markerActionTag action :: (← nativeKindTag value.kind) :: (← visitCanonicalEncoding value)

def visitCanonicalValues : List AttributeValue → Except DomainFailure Bytes
  | [] => .ok []
  | value :: values => do return (← visitCanonicalEncoding value) ++ (← visitCanonicalValues values)

def visitCanonicalEntries : List (String × AttributeValue) → Except DomainFailure Bytes
  | [] => .ok []
  | (key, value) :: entries => do
    return lengthPrefixed (utf8 key) ++ (← visitCanonicalEncoding value) ++ (← visitCanonicalEntries entries)

end

def checkedAdd (left right : Nat) : Except DomainFailure Nat :=
  if left + right < 2 ^ 64 then .ok (left + right) else .error .valueLimitExceeded

/-- A tag and a length. Every length fits its word. -/
def canonicalPrefixSize : Nat := 9

def canonicalSequenceSize (payload : Nat) : Except DomainFailure Nat := checkedAdd canonicalPrefixSize payload

mutual

def canonicalEncodedSizeBytes : AttributeValue → Except DomainFailure Nat
  | .null => .ok 1
  | .boolean _ => .ok 2
  | .signedInteger _ | .floatingPointBits _ => .ok 9
  | .marker _ => .ok 3
  | .truncated value _ => do checkedAdd 3 (← canonicalEncodedSizeBytes value)
  | .string value => canonicalSequenceSize (utf8 value).length
  | .bytes value => canonicalSequenceSize value.length
  | .array values => canonicalSizeValues canonicalPrefixSize values
  | .keyValueList entries => canonicalSizeEntries canonicalPrefixSize entries

def canonicalSizeValues : Nat → List AttributeValue → Except DomainFailure Nat
  | total, [] => .ok total
  | total, value :: values => do
    let size ← canonicalEncodedSizeBytes value
    let total ← checkedAdd total size
    canonicalSizeValues total values

def canonicalSizeEntries : Nat → List (String × AttributeValue) → Except DomainFailure Nat
  | total, [] => .ok total
  | total, (key, value) :: entries => do
    let total ← checkedAdd total 8
    let total ← checkedAdd total (utf8 key).length
    let size ← canonicalEncodedSizeBytes value
    let total ← checkedAdd total size
    canonicalSizeEntries total entries

end

def AttributeOccurrenceSet.canonicalEncodedSizeBytes (set : AttributeOccurrenceSet) :
    Except DomainFailure Nat := do
  let total ← checkedAdd 17 (utf8 set.key).length
  canonicalSizeValues total set.occurrences

def AttributeOccurrenceSet.visitCanonicalEncoding (set : AttributeOccurrenceSet) : Except DomainFailure Bytes := do
  return namespaceTag set.attributeNamespace :: (lengthPrefixed (utf8 set.key) ++
    (beBytes 8 set.occurrences.length ++ (← visitCanonicalValues set.occurrences)))

def AttributeValue.Validated : Prop :=
  ∃ (limits : DynamicValueLimits) (valueBytes : U32) (remainingDepth size : Nat),
    validateAttributeValue limits valueBytes.1 remainingDepth value = .ok size

namespace AttributeValue

mutual

def canonicalBytes : AttributeValue → Bytes
  | .null => [0]
  | .boolean value => [1, if value then 1 else 0]
  | .signedInteger value => 2 :: i64Bytes value
  | .floatingPointBits bits => 3 :: beBytes 8 bits.1
  | .string value => 4 :: lengthPrefixed (utf8 value)
  | .bytes value => 5 :: lengthPrefixed value
  | .array values => 6 :: (beBytes 8 values.length ++ canonicalValues values)
  | .keyValueList entries => 7 :: (beBytes 8 entries.length ++ canonicalEntries entries)
  | .marker m => [8, markerActionTag m.action, m.originalKind.tag]
  | .truncated value action => 8 :: markerActionTag action :: value.kind.tag :: canonicalBytes value

def canonicalValues : List AttributeValue → Bytes
  | [] => []
  | value :: values => canonicalBytes value ++ canonicalValues values

def canonicalEntries : List (String × AttributeValue) → Bytes
  | [] => []
  | (key, value) :: entries => lengthPrefixed (utf8 key) ++ canonicalBytes value ++ canonicalEntries entries

end

def canonicalEntry (entry : String × AttributeValue) : Bytes :=
  lengthPrefixed (utf8 entry.1) ++ canonicalBytes entry.2

theorem canonicalValues_eq (values : List AttributeValue) :
    canonicalValues values = values.flatMap canonicalBytes := by
  induction values with
  | nil => rfl
  | cons value values ih => rw [canonicalValues, ih, flatMap_cons]

theorem canonicalEntries_eq (entries : List (String × AttributeValue)) :
    canonicalEntries entries = entries.flatMap canonicalEntry := by
  induction entries with
  | nil => rfl
  | cons entry entries ih =>
    rw [canonicalEntries, ih]
    rfl

end AttributeValue

section Visits

variable {limits : DynamicValueLimits} {valueBytes depth : Nat} {value : AttributeValue}

theorem nativeKindTag_eq {kind : AttributeValueKind} (h : kind ≠ .marker) : nativeKindTag kind = .ok kind.tag := by
  cases kind <;> first | rfl | exact absurd rfl h

theorem visitCanonicalValues_eq {values : List AttributeValue}
    (h : ∀ value ∈ values, visitCanonicalEncoding value = .ok value.canonicalBytes) :
    visitCanonicalValues values = .ok (canonicalValues values) := by
  induction values with
  | nil => rfl
  | cons value values ih =>
    obtain ⟨hval, hvals⟩ := forall_mem_cons.mp h
    rw [visitCanonicalValues, hval, ih hvals]
    rfl

theorem visitCanonicalEntries_eq {entries : List (String × AttributeValue)}
    (h : ∀ entry ∈ entries, visitCanonicalEncoding entry.2 = .ok entry.2.canonicalBytes) :
    visitCanonicalEntries entries = .ok (canonicalEntries entries) := by
  induction entries with
  | nil => rfl
  | cons entry entries ih =>
    obtain ⟨hval, hents⟩ := forall_mem_cons.mp h
    rw [visitCanonicalEntries, hval, ih hents]
    rfl

theorem visitCanonicalEncoding_eq (h : value.Fits limits valueBytes depth) :
    visitCanonicalEncoding value = .ok value.canonicalBytes := by
  induction h with
  | null | boolean | signedInteger | floatingPointBits | string | bytes => rfl
  | array _ values _ _ ih =>
    rw [visitCanonicalEncoding, visitCanonicalValues_eq ih]
    rfl
  | keyValueList _ entries _ _ _ ih =>
    rw [visitCanonicalEncoding, visitCanonicalEntries_eq ih]
    rfl
  | marker _ m hmarker =>
    rw [visitCanonicalEncoding, nativeKindTag_eq (RedactionMarker.kind_ne_marker hmarker)]
    rfl
  | truncated _ value _ _ hnative _ ih =>
    rw [visitCanonicalEncoding, ih, nativeKindTag_eq (kind_ne_marker_of_native hnative)]
    rfl

end Visits

section Sizes

theorem checkedAdd_eq (left right : Nat) : checkedAdd left right = wordSized (left + right) := rfl

theorem length_lengthPrefixed : (lengthPrefixed bytes).length = 8 + bytes.length := by
  rw [lengthPrefixed, length_append, beBytes_length]

variable {total : Nat}

theorem canonicalSizeValues_eq {values : List AttributeValue}
    (h : ∀ value ∈ values, canonicalEncodedSizeBytes value = wordSized value.canonicalBytes.length)
    (htotal : total < 2 ^ 64) :
    canonicalSizeValues total values = wordSized (total + (canonicalValues values).length) := by
  induction values generalizing total with
  | nil => exact (if_pos htotal).symm
  | cons value values ih =>
    obtain ⟨hval, hvals⟩ := forall_mem_cons.mp h
    rw [canonicalSizeValues, canonicalValues, length_append, hval]
    apply wordSized_bind (by omega)
    intro _
    apply wordSized_bind (by omega)
    intro hfits
    rw [ih hvals hfits]
    congr 1
    omega

theorem canonicalSizeEntries_eq {entries : List (String × AttributeValue)}
    (h : ∀ entry ∈ entries, canonicalEncodedSizeBytes entry.2 = wordSized entry.2.canonicalBytes.length)
    (htotal : total < 2 ^ 64) :
    canonicalSizeEntries total entries = wordSized (total + (canonicalEntries entries).length) := by
  induction entries generalizing total with
  | nil => exact (if_pos htotal).symm
  | cons entry entries ih =>
    obtain ⟨hval, hents⟩ := forall_mem_cons.mp h
    simp only [canonicalSizeEntries, canonicalEntries, length_append,
      length_lengthPrefixed, hval, checkedAdd_eq]
    apply wordSized_bind (by omega)
    intro _
    apply wordSized_bind (by omega)
    intro _
    apply wordSized_bind (by omega)
    intro _
    apply wordSized_bind (by omega)
    intro hfits
    rw [ih hents hfits]
    congr 1
    omega

theorem canonicalEncodedSizeBytes_eq : canonicalEncodedSizeBytes value = wordSized value.canonicalBytes.length := by
  have hseq : ∀ bytes : Bytes, canonicalSequenceSize bytes.length =
      wordSized ((lengthPrefixed bytes).length + 1) := by
    intro bytes
    rw [canonicalSequenceSize, checkedAdd_eq, length_lengthPrefixed, canonicalPrefixSize]
    congr 1
    omega
  induction value using induct with
  | null | boolean | marker => rfl
  | signedInteger value | floatingPointBits bits => simp [canonicalEncodedSizeBytes, canonicalBytes, wordSized]
  | string value => exact hseq (utf8 value)
  | bytes value => exact hseq value
  | array values ih =>
    rw [canonicalEncodedSizeBytes, canonicalSizeValues_eq ih (by decide), canonicalBytes,
      length_cons, length_append, beBytes_length, canonicalPrefixSize]
    congr 1
    omega
  | keyValueList entries ih =>
    rw [canonicalEncodedSizeBytes, canonicalSizeEntries_eq ih (by decide), canonicalBytes,
      length_cons, length_append, beBytes_length, canonicalPrefixSize]
    congr 1
    omega
  | truncated value action ih =>
    rw [canonicalEncodedSizeBytes, ih, canonicalBytes]
    apply wordSized_bind (by simp only [length_cons]; omega)
    intro _
    rw [checkedAdd_eq, Nat.add_comm]
    rfl

end Sizes

section Unambiguous

theorem delimits_lengthPrefixed {x y : Bytes} (hx : x.length < 2 ^ 64) (hy : y.length < 2 ^ 64) :
    Delimits (x = y) (lengthPrefixed x) (lengthPrefixed y) :=
  ((Delimits.beBytes (w := 8) hx hy).append Delimits.of_length).imp And.right

theorem delimits_text {a b : String} (ha : (utf8 a).length < 2 ^ 64) (hb : (utf8 b).length < 2 ^ 64) :
    Delimits (a = b) (lengthPrefixed (utf8 a)) (lengthPrefixed (utf8 b)) :=
  (delimits_lengthPrefixed ha hb).imp utf8_injective

theorem markerActionTag_injective {a b : MarkerAction} (h : markerActionTag a = markerActionTag b) : a = b := by
  cases a <;> cases b <;> first | rfl | exact absurd h (by decide)

theorem kind_tag_injective {a b : AttributeValueKind} (h : a.tag = b.tag) : a = b := by
  cases a <;> cases b <;> first | rfl | exact absurd h (by decide)

/-- A marker stands for a value that a policy took out, not for one that it shortened. -/
theorem marker_action_ne {m : RedactionMarker} {action : MarkerAction} {kind : AttributeValueKind}
    (hmarker : m.isValid) (haction : truncationActionValid action kind) :
    markerActionTag m.action ≠ markerActionTag action := by
  intro heq
  rw [← markerActionTag_injective heq] at haction
  rcases (RedactionMarker.isValid_iff.mp hmarker).2 with h | h <;> rw [h] at haction <;> cases haction

variable {limits limits' : DynamicValueLimits} {bound bound' depth depth' : Nat} {a b : AttributeValue}

/-- Values that validation let through are told apart by their canonical bytes. -/
theorem delimits_canonicalBytes (hbound : bound < 2 ^ 64) (hbound' : bound' < 2 ^ 64)
    (ha : a.Fits limits bound depth) (hb : b.Fits limits' bound' depth') :
    Delimits (a = b) a.canonicalBytes b.canonicalBytes := by
  have hcount : ∀ limit : U32, ∀ count ≤ limit.1, count < 2 ^ 64 := by
    omega
  induction ha generalizing b depth' with
  | null =>
    cases hb with
    | null => exact (Delimits.of_length rfl).imp fun _ => rfl
    | _ => exact .apart (by decide)
  | boolean _ value =>
    cases hb with
    | boolean _ value' =>
      refine .cons 1 (Delimits.nil.head.imp fun h => ?_)
      cases value <;> cases value' <;> first | rfl | exact absurd h.1 (by decide)
    | _ => exact .apart (by decide)
  | signedInteger _ value =>
    cases hb with
    | signedInteger _ value' =>
      refine .cons 2 ((Delimits.of_length (by rw [i64Bytes_length, i64Bytes_length])).imp fun h => ?_)
      rw [← toI64_i64Bytes value, h, toI64_i64Bytes]
    | _ => exact .apart (by decide)
  | floatingPointBits _ bits =>
    cases hb with
    | floatingPointBits _ bits' =>
      refine .cons 3 ((Delimits.beBytes bits.2 bits'.2).imp fun h => ?_)
      rw [Subtype.ext h]
    | _ => exact .apart (by decide)
  | string _ value hval =>
    cases hb with
    | string _ value' hval' =>
      refine .cons 4 ((delimits_text (by omega) (by omega)).imp fun h => ?_)
      rw [h]
    | _ => exact .apart (by decide)
  | bytes _ value hval =>
    cases hb with
    | bytes _ value' hval' =>
      refine .cons 5 ((delimits_lengthPrefixed (by omega) (by omega)).imp fun h => ?_)
      rw [h]
    | _ => exact .apart (by decide)
  | array _ values hlen _ ih =>
    cases hb with
    | array _ values' hlen' hvals' =>
      refine .cons 6 (((Delimits.beBytes (w := 8) (hcount _ _ hlen) (hcount _ _ hlen')).append
        fun hsame => ?_).imp fun h => congrArg array h.2)
      rw [canonicalValues_eq, canonicalValues_eq]
      exact .flatMap hsame fun value hmem value' hmem' => ih value hmem (hvals' value' hmem')
    | _ => exact .apart (by decide)
  | keyValueList _ entries hlen hkeys _ ih =>
    cases hb with
    | keyValueList _ entries' hlen' hkeys' hvals' =>
      refine .cons 7 (((Delimits.beBytes (w := 8) (hcount _ _ hlen) (hcount _ _ hlen')).append
        fun hsame => ?_).imp fun h => congrArg keyValueList h.2)
      rw [canonicalEntries_eq, canonicalEntries_eq]
      refine .flatMap hsame fun entry hmem entry' hmem' => ?_
      have hkey := delimits_text (hcount _ _ (hkeys entry hmem).2) (hcount _ _ (hkeys' entry' hmem').2)
      exact (hkey.append fun _ => ih entry hmem (hvals' entry' hmem')).imp fun h => Prod.ext h.1 h.2
    | _ => exact .apart (by decide)
  | marker _ m hmarker =>
    cases hb with
    | marker _ m' hmarker' =>
      refine .cons 8 (Delimits.nil.head.head.imp ?_)
      rintro ⟨haction, hkind, -⟩
      have hsame : m = m' := by
        rw [RedactionMarker.mk.injEq]
        exact ⟨kind_tag_injective hkind, markerActionTag_injective haction⟩
      rw [hsame]
    | truncated _ value' action' haction' => exact .cons 8 (.apart (marker_action_ne hmarker haction'))
    | _ => exact .apart (by decide)
  | truncated _ value action haction _ _ ih =>
    cases hb with
    | marker _ m' hmarker' => exact .cons 8 (.apart (marker_action_ne hmarker' haction).symm)
    | truncated _ value' action' _ _ hval' =>
      refine .cons 8 ((ih hval').head.head.imp ?_)
      rintro ⟨hsame, -, rfl⟩
      rw [markerActionTag_injective hsame]
    | _ => exact .apart (by decide)

theorem AttributeValue.Validated.fits {value : AttributeValue} (h : value.Validated) :
    ∃ limits bound depth, bound < 2 ^ 64 ∧ value.Fits limits bound depth := by
  obtain ⟨limits, valueBytes, depth, size, hsize⟩ := h
  exact ⟨limits, valueBytes.1, depth, by omega, fits_of_validate hsize⟩

def AttributeOccurrenceSet.canonicalBytes (set : AttributeOccurrenceSet) : Bytes :=
  namespaceTag set.attributeNamespace :: (lengthPrefixed (utf8 set.key) ++
    (beBytes 8 set.occurrences.length ++ canonicalValues set.occurrences))

theorem AttributeOccurrenceSet.visitCanonicalEncoding_eq (set : AttributeOccurrenceSet) :
    set.visitCanonicalEncoding = .ok set.canonicalBytes := by
  rw [visitCanonicalEncoding, visitCanonicalValues_eq fun value hmem =>
    Value.visitCanonicalEncoding_eq (set.fits.values_fit value hmem)]
  rfl

theorem AttributeOccurrenceSet.canonicalEncodedSizeBytes_eq (set : AttributeOccurrenceSet) :
    set.canonicalEncodedSizeBytes = wordSized set.canonicalBytes.length := by
  simp only [canonicalEncodedSizeBytes, canonicalBytes, checkedAdd_eq, length_cons, length_append,
    length_lengthPrefixed, beBytes_length]
  apply wordSized_bind (by omega)
  intro hfits
  rw [canonicalSizeValues_eq (fun value _ => Value.canonicalEncodedSizeBytes_eq value) hfits]
  congr 1
  omega

theorem namespaceTag_injective {a b : AttributeNamespace} (h : namespaceTag a = namespaceTag b) : a = b := by
  cases a <;> cases b <;> first | rfl | exact absurd h (by decide)

theorem delimits_occurrenceSets (a b : AttributeOccurrenceSet) :
    Delimits (a = b) a.canonicalBytes b.canonicalBytes := by
  have hkey : ∀ set : AttributeOccurrenceSet, (utf8 set.key).length < 2 ^ 64 := fun set =>
    Nat.lt_of_le_of_lt set.fits.keyBytes (by decide)
  have hcount : ∀ set : AttributeOccurrenceSet, set.occurrences.length < 2 ^ 64 := fun set =>
    Nat.lt_of_le_of_lt set.fits.count (by decide)
  have hvals := fun hsame : a.occurrences.length = b.occurrences.length =>
    Delimits.flatMap hsame fun value hmem value' hmem' => delimits_canonicalBytes (by decide) (by decide)
      (a.fits.values_fit value hmem) (b.fits.values_fit value' hmem')
  rw [← canonicalValues_eq, ← canonicalValues_eq] at hvals
  have hcounted := (Delimits.beBytes (w := 8) (hcount a) (hcount b)).append hvals
  refine ((delimits_text (hkey a) (hkey b)).append fun _ => hcounted).head.imp ?_
  rintro ⟨hplace, hsame, -, hoccs⟩
  cases b
  cases hsame
  cases hoccs
  cases namespaceTag_injective hplace
  rfl

/-- The canonical bytes of a validated value, and of an occurrence set, are as many as announced, and
no other value has bytes that agree with them whatever follows. -/
theorem canonical_encoding_unambiguous : (∀ a b : AttributeValue, a.Validated → b.Validated → ∃ x y,
      visitCanonicalEncoding a = .ok x ∧ visitCanonicalEncoding b = .ok y ∧
      canonicalEncodedSizeBytes a = wordSized x.length ∧ ∀ s t, x ++ s = y ++ t → a = b ∧ s = t) ∧
    ∀ a b : AttributeOccurrenceSet, ∃ x y,
      a.visitCanonicalEncoding = .ok x ∧ b.visitCanonicalEncoding = .ok y ∧
      a.canonicalEncodedSizeBytes = wordSized x.length ∧ ∀ s t, x ++ s = y ++ t → a = b ∧ s = t := by
  constructor
  · intro a b ha hb
    obtain ⟨_, _, _, hbound, hfits⟩ := ha.fits
    obtain ⟨_, _, _, hbound', hfits'⟩ := hb.fits
    exact ⟨_, _, visitCanonicalEncoding_eq hfits, visitCanonicalEncoding_eq hfits',
      canonicalEncodedSizeBytes_eq a, delimits_canonicalBytes hbound hbound' hfits hfits'⟩
  · intro a b
    exact ⟨_, _, a.visitCanonicalEncoding_eq, b.visitCanonicalEncoding_eq,
      a.canonicalEncodedSizeBytes_eq, delimits_occurrenceSets a b⟩

/-- A removed value and a shortened one share their tag. -/
theorem removed_and_truncated_told_apart : ∃ x y,
    visitCanonicalEncoding (.marker ⟨.bytes, .removed⟩) = .ok x ∧
    visitCanonicalEncoding (.truncated (.bytes [1]) .truncatedBytes) = .ok y ∧
    canonicalEncodedSizeBytes (.marker ⟨.bytes, .removed⟩) = wordSized x.length ∧
    ∀ s t, x ++ s = y ++ t → marker ⟨.bytes, .removed⟩ = .truncated (.bytes [1]) .truncatedBytes ∧ s = t :=
  canonical_encoding_unambiguous.1 _ _
    ⟨release1Limits.dynamicValue, release1Limits.individualValueBytes, 0, 0, rfl⟩
    ⟨release1Limits.dynamicValue, release1Limits.individualValueBytes, 0, 1, rfl⟩

end Unambiguous

end Positron.Value
