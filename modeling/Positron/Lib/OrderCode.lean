import Positron.Lib.Bytes

/-! Byte encodings that compare as what they encode. Each code ends where it ends, whatever follows
it, so that codes can be put one after the other. -/

namespace OrderCode
open ByteCodec List

/-- The codes `x` and `y` compare as `o`, and only where they are equal does what follows decide. -/
def Codes (o : Ordering) (x y : Bytes) : Prop :=
  ∀ u v : Bytes, compare (x ++ u) (y ++ v) = o.then (compare u v)

namespace Codes

variable {o p : Ordering} {x y x' y' : Bytes}

theorem compare_eq (h : Codes o x y) : compare x y = o := by
  have hnil := h [] []
  rw [List.append_nil, List.append_nil, List.compare_eq_compareLex, List.compareLex_nil_nil] at hnil
  rw [List.compare_eq_compareLex, hnil, Ordering.then_eq]

theorem nil : Codes .eq [] [] := fun _ _ => rfl

theorem append (h : Codes o x y) (h' : Codes p x' y') : Codes (o.then p) (x ++ x') (y ++ y') := by
  intro u v
  rw [append_assoc, append_assoc, h, h', Ordering.then_assoc]

theorem cons (b c : UInt8) (h : b = c → Codes o x y) : Codes ((compare b c).then o) (b :: x) (c :: y) := by
  intro u v
  rw [List.cons_append, List.cons_append, List.compare_eq_compareLex, List.compareLex_cons_cons]
  cases hbytes : compare b c with
  | lt => rfl
  | gt => rfl
  | eq => exact h (Std.LawfulEqOrd.eq_of_compare hbytes) u v

theorem first {b c : UInt8} (h : b ≠ c) (x y : Bytes) : Codes (compare b c) (b :: x) (c :: y) := by
  have hcons : Codes ((compare b c).then .eq) (b :: x) (c :: y) := cons b c fun heq => absurd heq h
  rw [Ordering.then_eq] at hcons
  exact hcons

theorem head (b : UInt8) (h : Codes o x y) : Codes o (b :: x) (b :: y) := by
  have hcons := cons b b fun _ => h
  rw [Std.ReflOrd.compare_self] at hcons
  exact hcons

theorem byte (b c : UInt8) : Codes (compare b c) [b] [c] := by
  have hcons := cons b c fun _ => nil
  rw [Ordering.then_eq] at hcons
  exact hcons

end Codes

/-- Every element after a one, and a zero at the end. -/
def sequence {α : Type} (code : α → Bytes) : List α → Bytes
  | [] => [0]
  | x :: xs => 1 :: (code x ++ sequence code xs)

theorem length_sequence {α : Type} (code : α → Bytes) (xs : List α) :
    (sequence code xs).length = (xs.map fun x => (code x).length + 1).sum + 1 := by
  induction xs with
  | nil => rfl
  | cons x xs ih =>
    rw [sequence, length_cons, length_append, map_cons, sum_cons]
    omega

theorem Codes.sequence {α : Type} {cmp : α → α → Ordering} {code : α → Bytes} {xs ys : List α}
    (h : ∀ x ∈ xs, ∀ y ∈ ys, Codes (cmp x y) (code x) (code y)) :
    Codes (xs.compareLex cmp ys) (sequence code xs) (sequence code ys) := by
  induction xs generalizing ys with
  | nil =>
    cases ys with
    | nil => exact .head 0 .nil
    | cons y ys => exact first (by decide : (0 : UInt8) ≠ 1) _ _
  | cons x xs ih =>
    cases ys with
    | nil => exact first (by decide : (1 : UInt8) ≠ 0) _ _
    | cons y ys =>
      have hhead := h x mem_cons_self y mem_cons_self
      have htail := @ih ys fun a ha b hb =>
        h a (mem_cons_of_mem _ ha) b (mem_cons_of_mem _ hb)
      rw [List.compareLex_cons_cons]
      exact .head 1 (hhead.append htail)

theorem Codes.bytes (xs ys : Bytes) :
    Codes (compare xs ys) (OrderCode.sequence (fun b => [b]) xs) (OrderCode.sequence (fun b => [b]) ys) := by
  exact .sequence fun x _ y _ => .byte x y

section Differences

variable {α β : Type}

/-- What decides between two lists: what does so between the first elements that are not the same. -/
def firstDifference (same : α → α → Bool) (deciding : α → α → Option β) : List α → List α → Option β
  | x :: xs, y :: ys => if same x y then firstDifference same deciding xs ys else deciding x y
  | _, _ => none

variable {same : α → α → Bool} {deciding : α → α → Option β} {cmp : α → α → Ordering} {xs ys : List α}

theorem compareLex_eq_iff (h : ∀ x ∈ xs, ∀ y ∈ ys, cmp x y = .eq ↔ same x y = true) :
    xs.compareLex cmp ys = .eq ↔ xs.isEqv ys same = true := by
  induction xs generalizing ys with
  | nil => cases ys <;> simp [isEqv, List.compareLex_nil_nil, List.compareLex_nil_cons]
  | cons x xs ih =>
    cases ys with
    | nil => simp [isEqv, List.compareLex_cons_nil]
    | cons y ys =>
      rw [List.compareLex_cons_cons, Ordering.then_eq_eq, isEqv, Bool.and_eq_true, h x mem_cons_self y mem_cons_self,
        ih fun x hx y hy => h x (mem_cons_of_mem _ hx) y (mem_cons_of_mem _ hy)]

theorem then_of_ne {o p : Ordering} (h : o ≠ .eq) : o.then p = o := by
  cases o with
  | eq => exact absurd rfl h
  | lt | gt => rfl

/-- Whatever decides between the lists decides between two of their elements, and the lists compare as these. -/
theorem firstDifference_eq_some {found : β} (h : ∀ x ∈ xs, ∀ y ∈ ys, cmp x y = .eq ↔ same x y = true)
    (hfound : firstDifference same deciding xs ys = some found) :
    ∃ x ∈ xs, ∃ y ∈ ys, deciding x y = some found ∧ xs.compareLex cmp ys = cmp x y := by
  induction xs generalizing ys with
  | nil => cases hfound
  | cons x xs ih =>
    cases ys with
    | nil => cases hfound
    | cons y ys =>
      have hxy := h x mem_cons_self y mem_cons_self
      rw [firstDifference] at hfound
      rw [List.compareLex_cons_cons]
      split at hfound
      · rename_i hsame
        obtain ⟨x', hx', y', hy', hdecide, hlex⟩ :=
          ih (fun x hx y hy => h x (mem_cons_of_mem _ hx) y (mem_cons_of_mem _ hy)) hfound
        refine ⟨x', mem_cons_of_mem _ hx', y', mem_cons_of_mem _ hy', hdecide, ?_⟩
        rw [hxy.mpr hsame]
        exact hlex
      · rename_i hdiffer
        exact ⟨x, mem_cons_self, y, mem_cons_self, hfound, then_of_ne fun heq => hdiffer (hxy.mp heq)⟩

/-- When what decides is ordered by another code, the lists are ordered by it as their elements are. -/
theorem compareLex_firstDifference {code : β → Ordering}
    (h : ∀ x ∈ xs, ∀ y ∈ ys, cmp x y = .eq ↔ same x y = true)
    (hsame : ∀ x ∈ xs, ∀ y ∈ ys, same x y = true → deciding x y = none)
    (hcode : ∀ x ∈ xs, ∀ y ∈ ys, ∀ found, deciding x y = some found → code found ≠ .eq) :
    xs.compareLex (fun x y => (deciding x y).elim (cmp x y) code) ys =
      (firstDifference same deciding xs ys).elim (xs.compareLex cmp ys) code := by
  induction xs generalizing ys with
  | nil => cases ys <;> rfl
  | cons x xs ih =>
    cases ys with
    | nil => rfl
    | cons y ys =>
      have hxy := h x mem_cons_self y mem_cons_self
      rw [List.compareLex_cons_cons, List.compareLex_cons_cons, firstDifference,
        ih (fun x hx y hy => h x (mem_cons_of_mem _ hx) y (mem_cons_of_mem _ hy))
          (fun x hx y hy => hsame x (mem_cons_of_mem _ hx) y (mem_cons_of_mem _ hy))
          (fun x hx y hy => hcode x (mem_cons_of_mem _ hx) y (mem_cons_of_mem _ hy))]
      split
      · rename_i halike
        rw [hsame x mem_cons_self y mem_cons_self halike, Option.elim_none, hxy.mpr halike]
        rfl
      · rename_i hdiffer
        cases hdecide : deciding x y with
        | none =>
          rw [Option.elim_none, Option.elim_none, then_of_ne fun heq => hdiffer (hxy.mp heq),
            then_of_ne fun heq => hdiffer (hxy.mp heq)]
        | some found => exact then_of_ne (hcode x mem_cons_self y mem_cons_self found hdecide)

end Differences

theorem compare_ofNat (m n : Nat) : compare (UInt8.ofNat m) (UInt8.ofNat n) = compare (m % 256) (n % 256) := by
  have hm : (UInt8.ofNat m).toNat = m % 256 := UInt8.toNat_ofNat'
  have hn : (UInt8.ofNat n).toNat = n % 256 := UInt8.toNat_ofNat'
  have hlt : UInt8.ofNat m < UInt8.ofNat n ↔ m % 256 < n % 256 := by
    rw [UInt8.lt_iff_toNat_lt, hm, hn]
  have heq : UInt8.ofNat m = UInt8.ofNat n ↔ m % 256 = n % 256 := by
    rw [← UInt8.toNat_inj, hm, hn]
  simp only [compare, compareOfLessAndEq, hlt, heq]

theorem compare_digit {base d d' r r' : Nat} (hr : r < base) (hr' : r' < base) :
    compare (d * base + r) (d' * base + r') = (compare d d').then (compare r r') := by
  rcases Nat.lt_trichotomy d d' with hlt | rfl | hgt
  · have hmul : (d + 1) * base ≤ d' * base := Nat.mul_le_mul_right _ hlt
    rw [Nat.compare_eq_lt.mpr hlt, Nat.compare_eq_lt.mpr (by rw [Nat.add_mul] at hmul; omega)]
    rfl
  · rw [Nat.compare_eq_eq.mpr rfl]
    rcases Nat.lt_trichotomy r r' with h | rfl | h
    · rw [Nat.compare_eq_lt.mpr h, Nat.compare_eq_lt.mpr (by omega)]
      rfl
    · rw [Nat.compare_eq_eq.mpr rfl, Nat.compare_eq_eq.mpr rfl]
      rfl
    · rw [Nat.compare_eq_gt.mpr h, Nat.compare_eq_gt.mpr (by omega)]
      rfl
  · have hmul : (d' + 1) * base ≤ d * base := Nat.mul_le_mul_right _ hgt
    rw [Nat.compare_eq_gt.mpr hgt, Nat.compare_eq_gt.mpr (by rw [Nat.add_mul] at hmul; omega)]
    rfl

theorem Codes.beBytes (w m n : Nat) :
    Codes (compare (m % 256 ^ w) (n % 256 ^ w)) (ByteCodec.beBytes w m) (ByteCodec.beBytes w n) := by
  induction w with
  | zero =>
    rw [Nat.pow_zero, Nat.mod_one, Nat.mod_one]
    exact .nil
  | succ w ih =>
    have hdigits : ∀ k, k % 256 ^ (w + 1) = k / 256 ^ w % 256 * 256 ^ w + k % 256 ^ w := by
      intro k
      rw [Nat.pow_succ, Nat.mod_mul, Nat.mul_comm, Nat.add_comm]
    have hpos : 0 < 256 ^ w := Nat.pow_pos (by decide)
    rw [hdigits m, hdigits n, compare_digit (Nat.mod_lt _ hpos) (Nat.mod_lt _ hpos), ← compare_ofNat]
    exact .cons _ _ fun _ => ih

theorem Codes.beBytes_of_lt {w m n : Nat} (hm : m < 256 ^ w) (hn : n < 256 ^ w) :
    Codes (compare m n) (ByteCodec.beBytes w m) (ByteCodec.beBytes w n) := by
  have h := Codes.beBytes w m n
  rw [Nat.mod_eq_of_lt hm, Nat.mod_eq_of_lt hn] at h
  exact h

end OrderCode
