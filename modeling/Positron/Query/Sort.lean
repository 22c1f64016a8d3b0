import Positron.Lib.Heaps
import Positron.Lib.Triples
import Positron.Query.ResultKey

/-! The rows of a result in their order: a heap sort in place, which moves the correlation outcomes with the rows. -/

namespace Positron.Query
open MachineInt Checks Triples Heaps

variable {σ : Type} {n : Nat}

structure RecordBuffer (n : Nat) where
  records : Vector QueryRecord n
  correlations : Option (Vector CorrelationOutcome n)

/-- A part of the execution, with what cancellation and the budget of work know. -/
abbrev Execution (σ : Type) := EStateM QueryFailureCode σ

def RecordBuffer.get (rows : RecordBuffer n) (place : Nat) : Execution σ QueryRecord :=
  ofExcept (orFail rows.records[place]? .internal)

def RecordBuffer.swap (rows : RecordBuffer n) (first second : Nat) : Execution σ (RecordBuffer n) :=
  if h : first < n ∧ second < n then
    return ⟨rows.records.swap first second h.1 h.2, rows.correlations.map (·.swap first second h.1 h.2)⟩
  else throw .internal

section Calls

variable (observe : Execution σ PUnit) (ordering : OrderSpec)

def compareWithWork (left right : QueryRecord) : Execution σ Ordering := do
  observe
  return compareRecords left right ordering

def greaterChild (rows : RecordBuffer n) (leftChild last : Nat) : Execution σ Nat := do
  let left ← rows.get leftChild
  if leftChild + 1 < last then
    let order ← compareWithWork observe ordering left (← rows.get (leftChild + 1))
    return if order = .lt then leftChild + 1 else leftChild
  else return leftChild

/-- Every turn goes down a level, so the number of places bounds the turns. Twice a place of a buffer fits a word. -/
def siftDown (last : Nat) : Nat → Nat → RecordBuffer n → Execution σ (RecordBuffer n)
  | 0, _, _ => throw .internal
  | turns + 1, root, rows => do
    if last ≤ 2 * root + 1 then return rows
    let greater ← greaterChild observe ordering rows (2 * root + 1) last
    let order ← compareWithWork observe ordering (← rows.get root) (← rows.get greater)
    if order ≠ .lt then return rows
    siftDown last turns greater (← rows.swap root greater)

def heapify : Nat → RecordBuffer n → Execution σ (RecordBuffer n)
  | 0, rows => return rows
  | root + 1, rows => do heapify root (← siftDown observe ordering n n root rows)

def extract : Nat → RecordBuffer n → Execution σ (RecordBuffer n)
  | 0, rows => return rows
  | last + 1, rows => do
    let rows ← rows.swap 0 (last + 1)
    extract last (← siftDown observe ordering (last + 1) n 0 rows)

def sortRecords (rows : RecordBuffer n) : Execution σ (RecordBuffer n) := do
  if n < 2 then return rows
  extract observe ordering (n - 1) (← heapify observe ordering (n / 2) rows)

end Calls

abbrev Row := Option QueryRecord × Option (Option CorrelationOutcome)

def RecordBuffer.row (rows : RecordBuffer n) (place : Nat) : Row :=
  (rows.records[place]?, rows.correlations.map (·[place]?))

/-- One permutation of the places before `last` has moved the rows. -/
def Permuted (last : Nat) (rows rows' : RecordBuffer n) : Prop :=
  ∃ places : Equiv.Perm Nat, (∀ k, last ≤ k → places k = k) ∧ rows'.row = rows.row ∘ places

def Below (ordering : OrderSpec) (x y : Row) : Prop :=
  ∀ a ∈ x.1, ∃ b ∈ y.1, (compareRecords a b ordering).isLE = true

/-- What stands behind `last` is in order and not below anything before it. -/
def Settled (ordering : OrderSpec) (rows : RecordBuffer n) (last : Nat) : Prop :=
  ∀ i j, i < j → last ≤ j → j < n → Below ordering (rows.row i) (rows.row j)

/-- The call succeeds, and what it gives satisfies `P`. -/
def Gives {α : Type} (m : Execution σ α) (P : α → Prop) : Prop :=
  Triple (fun _ => True) m (fun a _ => P a) fun _ _ => False

namespace Gives

variable {α β : Type} {m : Execution σ α} {f : α → Execution σ β} {P : α → Prop} {Q : β → Prop} {a : α}

theorem of_pure (h : P a) : Gives (pure a : Execution σ α) P := Triple.returns fun _ _ => h

theorem bind (h : Gives m P) (hf : ∀ a, P a → Gives (f a) Q) : Gives (m >>= f) Q :=
  Triple.bind h fun a s ha => hf a ha s trivial

end Gives

section Order

variable {a b c : QueryRecord} {ordering : OrderSpec} {x y z : Row}

theorem compareRecords_swap : compareRecords b a ordering = (compareRecords a b ordering).swap := by
  obtain ⟨_ | _, _ | _⟩ := ordering <;>
    simp only [compareRecords, compareOrderKeys, OrderDirection.apply, Ordering.swap_then, Int.compare_swap,
      Nat.compare_swap]

theorem compareRecords_trans (hab : (compareRecords a b ordering).isLE = true)
    (hbc : (compareRecords b c ordering).isLE = true) : (compareRecords a c ordering).isLE = true := by
  obtain ⟨_ | _, _ | _⟩ := ordering <;>
    simp only [compareRecords, compareOrderKeys, OrderDirection.apply, Ordering.isLE_then_iff_or, Int.compare_swap,
      Nat.compare_swap, Int.compare_eq_lt, Int.compare_eq_eq, Nat.compare_eq_lt, Nat.compare_eq_eq, Nat.isLE_compare]
      at * <;>
    omega

theorem below_of_not_lt (hx : x.1 = some a) (hy : y.1 = some b) (h : compareRecords b a ordering ≠ .lt) :
    Below ordering x y := by
  intro found hfound
  cases hx.symm.trans hfound
  refine ⟨b, hy, ?_⟩
  rw [compareRecords_swap]
  cases hba : compareRecords b a ordering with
  | lt => exact absurd hba h
  | eq | gt => rfl

theorem below_of_lt (hx : x.1 = some a) (hy : y.1 = some b) (h : compareRecords a b ordering = .lt) :
    Below ordering x y :=
  below_of_not_lt hx hy (by rw [compareRecords_swap, h]; decide)

theorem below_refl (x : Row) : Below ordering x x := by
  intro a ha
  refine below_of_not_lt ha ha (fun h => ?_) a ha
  have hswap := h.symm.trans compareRecords_swap
  rw [h] at hswap
  cases hswap

theorem Below.trans (h : Below ordering x y) (h' : Below ordering y z) : Below ordering x z := by
  intro a ha
  obtain ⟨b, hb, hab⟩ := h a ha
  obtain ⟨c, hc, hbc⟩ := h' b hb
  exact ⟨c, hc, compareRecords_trans hab hbc⟩

end Order

section Rows

variable {observe : Execution σ PUnit} {ordering : OrderSpec} {rows rows' rows'' : RecordBuffer n}
  {last first second low root : Nat}

theorem gives_get (h : first < n) : Gives (rows.get first : Execution σ _) ((rows.row first).1 = some ·) := by
  rw [RecordBuffer.get, Vector.getElem?_eq_getElem h]
  exact Gives.of_pure (Vector.getElem?_eq_getElem h)

theorem gives_swap (hfirst : first < n) (hsecond : second < n) :
    Gives (rows.swap first second : Execution σ _) (·.row = rows.row ∘ Equiv.swap first second) := by
  rw [RecordBuffer.swap, dif_pos ⟨hfirst, hsecond⟩]
  refine .of_pure (funext fun k => ?_)
  have hmoved : ∀ {α : Type} (xs : Vector α n),
      (xs.swap first second hfirst hsecond)[k]? = xs[Equiv.swap first second k]? := by
    intro α xs
    rw [Vector.getElem?_swap, Equiv.swap_apply_def]
    split_ifs <;> first | omega | subst_vars; exact (Vector.getElem?_eq_getElem (by omega)).symm | rfl
  refine Prod.ext (hmoved _) ((Option.map_map ..).trans ?_)
  exact congrArg (Option.map · rows.correlations) (funext hmoved)

theorem Permuted.refl (rows : RecordBuffer n) : Permuted last rows rows := ⟨Equiv.refl _, fun _ _ => rfl, rfl⟩

theorem Permuted.trans {wider : Nat} (h : Permuted wider rows rows') (h' : Permuted last rows' rows'')
    (hle : last ≤ wider) : Permuted wider rows rows'' := by
  obtain ⟨places, hfixed, hrow⟩ := h
  obtain ⟨places', hfixed', hrow'⟩ := h'
  refine ⟨places'.trans places, fun k hk => ?_, ?_⟩
  · rw [Equiv.trans_apply, hfixed' k (hle.trans hk), hfixed k hk]
  · rw [hrow', hrow]
    rfl

theorem permuted_swap (hfirst : first < last) (hsecond : second < last)
    (h : rows'.row = rows.row ∘ Equiv.swap first second) : Permuted last rows rows' :=
  ⟨_, fun _ hk => Equiv.swap_apply_of_ne_of_ne (by omega) (by omega), h⟩

theorem Settled.permuted (h : Settled ordering rows last) (hrows : Permuted last rows rows') :
    Settled ordering rows' last := by
  obtain ⟨places, hfixed, hrow⟩ := hrows
  intro i j hij hj hn
  have hi : places i < j := by
    by_contra hge
    have hsame := places.injective (hfixed (places i) (by omega))
    omega
  rw [hrow, Function.comp, Function.comp, hfixed j hj]
  exact h _ j hi hj hn

variable (hobserve : Gives observe fun _ => True)
include hobserve

theorem gives_compare {a b : QueryRecord} :
    Gives (compareWithWork observe ordering a b) (· = compareRecords a b ordering) :=
  hobserve.bind fun _ _ => .of_pure rfl

theorem gives_greaterChild (hchild : 2 * root + 1 < last) (hlast : last ≤ n) :
    Gives (greaterChild observe ordering rows (2 * root + 1) last) fun child => Child root child ∧ child < last ∧
      ∀ j, Child root j → j < last → Below ordering (rows.row j) (rows.row child) := by
  refine (gives_get (by omega)).bind fun left hleft => ?_
  split
  · refine (gives_get (by omega)).bind fun right hright => (gives_compare hobserve).bind ?_
    rintro _ rfl
    refine .of_pure ?_
    split
    · rename_i hless
      refine ⟨.inr rfl, by omega, ?_⟩
      rintro j (rfl | rfl) _
      · exact below_of_lt hleft hright hless
      · exact below_refl _
    · rename_i hless
      refine ⟨.inl rfl, by omega, ?_⟩
      rintro j (rfl | rfl) _
      · exact below_refl _
      · exact below_of_not_lt hright hleft hless
  · refine .of_pure ⟨.inl rfl, by omega, ?_⟩
    rintro j (rfl | rfl) hj
    · exact below_refl _
    · omega

/-- A sift puts the heap in order and moves nothing behind it. -/
theorem gives_siftDown (turns : Nat) (hlast : last ≤ n) (hroot : root < last) (hturns : last ≤ root + turns)
    (h : Sifting (Below ordering) rows.row low root last) : Gives (siftDown observe ordering last turns root rows)
      fun rows' => Permuted last rows rows' ∧ Ordered (Below ordering) rows'.row low last := by
  induction turns generalizing rows root with
  | zero => omega
  | succ turns ih =>
    rw [siftDown]
    split
    · exact .of_pure ⟨.refl _, h.finish fun j hj hlt => by unfold Child at hj; omega⟩
    refine (gives_greaterChild hobserve (by omega) hlast).bind ?_
    rintro child ⟨hchild, hlt, hgreatest⟩
    refine (gives_get (by omega)).bind fun a ha => (gives_get (by omega)).bind fun b hb =>
      (gives_compare hobserve).bind ?_
    rintro _ rfl
    split
    · rename_i hless
      exact .of_pure ⟨.refl _, h.finish fun j hj hlt => (hgreatest j hj hlt).trans (below_of_not_lt hb ha hless)⟩
    · rename_i hless
      refine (gives_swap (by omega) (by omega)).bind fun rows' hrow => ?_
      have hmoved := h.move hchild hlt (below_of_lt ha hb (not_not.mp hless)) hgreatest
      rw [← hrow] at hmoved
      refine (ih hlt (by unfold Child at hchild; omega) hmoved).weaken (fun _ h => h) ?_ fun _ _ h => h
      exact fun _ _ h => ⟨(permuted_swap hroot hlt hrow).trans h.1 (Nat.le_refl _), h.2⟩

theorem gives_heapify (root : Nat) (hroot : root ≤ n) (h : Ordered (Below ordering) rows.row root n)
    (hrows : Permuted n rows' rows) : Gives (heapify observe ordering root rows)
      fun rows'' => Permuted n rows' rows'' ∧ Ordered (Below ordering) rows''.row 0 n := by
  induction root generalizing rows with
  | zero => exact .of_pure ⟨hrows, h⟩
  | succ root ih =>
    refine (gives_siftDown hobserve n (Nat.le_refl _) hroot (by omega) h.sifting).bind fun next hnext => ?_
    exact ih (by omega) hnext.2 (hrows.trans hnext.1 (Nat.le_refl _))

theorem gives_extract (last : Nat) (hlast : last < n) (h : Ordered (Below ordering) rows.row 0 (last + 1))
    (hsettled : Settled ordering rows (last + 1)) (hrows : Permuted n rows' rows) :
    Gives (extract observe ordering last rows) fun rows'' => Permuted n rows' rows'' ∧ Settled ordering rows'' 1 := by
  induction last generalizing rows with
  | zero => exact .of_pure ⟨hrows, hsettled⟩
  | succ last ih =>
    refine (gives_swap (by omega) hlast).bind fun swapped hrow => ?_
    have hswap : Permuted (last + 1 + 1) rows swapped := permuted_swap (by omega) (by omega) hrow
    have hsifting := h.sifting_swap
    rw [← hrow] at hsifting
    -- The greatest of the heap stands in front of what is settled.
    have hgreatest : Settled ordering swapped (last + 1) := by
      intro i j hij hj hn
      rcases Nat.lt_or_ge (last + 1) j with hlt | hge
      · exact hsettled.permuted hswap i j hij hlt hn
      · obtain rfl : j = last + 1 := by omega
        rw [hrow, Function.comp, Function.comp, Equiv.swap_apply_right]
        refine h.top below_refl Below.trans _ ?_
        rw [Equiv.swap_apply_def]
        split_ifs <;> omega
    refine (gives_siftDown hobserve n (by omega) (by omega) (by omega) hsifting).bind fun next hnext => ?_
    exact ih (by omega) hnext.2 (hgreatest.permuted hnext.1)
      ((hrows.trans hswap hlast).trans hnext.1 (by omega))

theorem gives_sortRecords (rows : RecordBuffer n) : Gives (sortRecords observe ordering rows)
    fun rows' => Permuted n rows rows' ∧ Settled ordering rows' 1 := by
  unfold sortRecords
  split
  · exact .of_pure ⟨.refl _, fun i j hij hj hn => by omega⟩
  · have hleaves : Ordered (Below ordering) rows.row (n / 2) n := fun i j hij hlow hj => by unfold Child at hij; omega
    refine (gives_heapify hobserve _ (by omega) hleaves (.refl rows)).bind fun heap hheap => ?_
    have hlen : n - 1 + 1 = n := by omega
    exact gives_extract hobserve _ (by omega) (hlen.symm ▸ hheap.2) (fun i j _ hj hn => by omega) hheap.1

end Rows

/-- The rows end in order, and one permutation of the places has moved the records and their outcomes. -/
theorem sorted_permutation (observe : Execution σ PUnit) (hobserve : ∀ work, ∃ work', observe.run work = .ok ⟨⟩ work')
    (ordering : OrderSpec) (rows : RecordBuffer n) (work : σ) :
    ∃ rows' work', (sortRecords observe ordering rows).run work = .ok rows' work' ∧
      (∃ places : Equiv.Perm Nat, ∀ k : Nat, rows'.records[k]? = rows.records[places k]? ∧
        rows'.correlations.map (·[k]?) = rows.correlations.map (·[places k]?)) ∧
      ∀ (i j : Nat) (a b : QueryRecord), i < j → rows'.records[i]? = some a → rows'.records[j]? = some b →
        (compareRecords a b ordering).isLE = true := by
  have hobserved : Gives observe fun _ => True := by
    intro work _
    obtain ⟨work', hrun⟩ := hobserve work
    rw [hrun]
    trivial
  obtain ⟨rows', work', hrun, ⟨places, -, hrow⟩, hsettled⟩ := (gives_sortRecords hobserved rows work trivial).returned
  refine ⟨rows', work', hrun, ⟨places, fun k => Prod.ext_iff.mp (congrFun hrow k)⟩, fun i j a b hij ha hb => ?_⟩
  obtain ⟨b', hb', hle⟩ := hsettled i j hij (by omega) (Vector.getElem?_eq_some_iff.mp hb).1 a ha
  cases hb.symm.trans hb'
  exact hle

/-- Two rows out of order, each with its outcome. -/
def swappedRows : RecordBuffer 2 :=
  ⟨#v[1, 0].map fun position => ⟨none, false, none, none, none, I64.zero, Unsigned.wrap 64 position, .first,
    false, false, false, false, none, [], false⟩,
    some #v[.missingLogTraceId, .matched ⟨List.replicate 16 9, rfl⟩ none]⟩

theorem swappedRows_sorted : ∃ rows work,
    (sortRecords (pure ⟨⟩) ⟨.ascending, .ascending⟩ swappedRows).run PUnit.unit = .ok rows work ∧
      ∀ a b, rows.records[0]? = some a → rows.records[1]? = some b →
        (compareRecords a b ⟨.ascending, .ascending⟩).isLE = true := by
  obtain ⟨rows, work, hrun, -, hsorted⟩ :=
    sorted_permutation (pure ⟨⟩) (fun work => ⟨work, rfl⟩) ⟨.ascending, .ascending⟩ swappedRows PUnit.unit
  exact ⟨rows, work, hrun, fun a b => hsorted 0 1 a b (by decide)⟩

end Positron.Query
