import Mathlib.Tactic.Ring
import Positron.Lib.MachineInt

/-! Byte strings, big-endian integers and checked slices, with the lemmas that read a field
back out of a concatenation. Last, strings that are told apart whatever stands behind them. -/

namespace ByteCodec
open MachineInt List

abbrev Bytes := List UInt8

instance (bytes : Bytes) (objects : List Bytes) : Decidable (bytes ∈ objects) := inferInstance

/-- Byte arrays of a fixed length. -/
abbrev FixedBytes (n : Nat) := {b : Bytes // b.length = n}

def zeroBytes (n : Nat) : FixedBytes n := ⟨List.replicate n 0, List.length_replicate⟩

/-- The `w` low bytes of `n`, most significant first. -/
def beBytes : Nat → Nat → Bytes
  | 0, _ => []
  | w + 1, n => UInt8.ofNat (n / 256 ^ w) :: beBytes w n

def ofBe : Bytes → Nat
  | [] => 0
  | b :: bytes => b.toNat * 256 ^ bytes.length + ofBe bytes

def toUnsigned (w : Nat) (bytes : Bytes) : Unsigned w := Unsigned.wrap w (ofBe bytes)

/-- Two's complement bytes of a signed value. -/
def i64Bytes (v : I64) : Bytes := beBytes 8 (v.1 % 2 ^ 64).toNat

def toI64 (bytes : Bytes) : I64 := I64.ofBits (ofBe bytes)

def slice? (bytes : Bytes) (start stop : Nat) : Option Bytes :=
  if start ≤ stop ∧ stop ≤ bytes.length then some ((bytes.drop start).take (stop - start)) else none

/-- The `n` bytes from `start` on, as an array. -/
def fixed? (n : Nat) (bytes : Bytes) (start : Nat) : Option (FixedBytes n) :=
  if h : start + n ≤ bytes.length then
    some ⟨(bytes.drop start).take n, by rw [List.length_take, List.length_drop]; omega⟩
  else none

@[simp] theorem beBytes_length (w n : Nat) : (beBytes w n).length = w := by
  induction w with
  | zero => rfl
  | succ w ih => rw [beBytes, length_cons, ih]

@[simp] theorem i64Bytes_length (v : I64) : (i64Bytes v).length = 8 := beBytes_length _ _

theorem ofBe_beBytes (w n : Nat) : ofBe (beBytes w n) = n % 256 ^ w := by
  induction w with
  | zero => simp [beBytes, ofBe, Nat.mod_one]
  | succ w ih =>
    have hdigit : (UInt8.ofNat (n / 256 ^ w)).toNat = n / 256 ^ w % 256 := UInt8.toNat_ofNat'
    rw [beBytes, ofBe, beBytes_length, ih, hdigit, Nat.pow_succ, Nat.mod_mul]
    ring

theorem ofBe_beBytes_of_lt {w n : Nat} (h : n < 256 ^ w) : ofBe (beBytes w n) = n := by
  rw [ofBe_beBytes, Nat.mod_eq_of_lt h]

theorem ofBe_lt (bytes : Bytes) : ofBe bytes < 256 ^ bytes.length := by
  induction bytes with
  | nil => decide
  | cons b bytes ih =>
    have hb : b.toNat < 256 := b.toNat_lt
    rw [ofBe, length_cons, Nat.pow_succ]
    nlinarith

theorem ofBe_injective {x y : Bytes} (hlen : x.length = y.length) (h : ofBe x = ofBe y) : x = y := by
  induction x generalizing y with
  | nil => exact (length_eq_zero_iff.mp hlen.symm).symm
  | cons a x ih =>
    cases y with
    | nil => cases hlen
    | cons b y =>
      have hrest : x.length = y.length := Nat.succ.inj hlen
      have hx := ofBe_lt x
      have hy := ofBe_lt y
      rw [ofBe, ofBe, ← hrest] at h
      rw [← hrest] at hy
      have htail : ofBe x = ofBe y := by
        rw [← Nat.mul_add_mod_of_lt hx, h, Nat.mul_add_mod_of_lt hy]
      rw [htail] at h
      have hhead := Nat.eq_of_mul_eq_mul_right (Nat.pow_pos (by decide)) (Nat.add_right_cancel h)
      rw [ih hrest htail, UInt8.toNat_inj.mp hhead]

theorem beBytes_ofBe {x : Bytes} {w : Nat} (h : x.length = w) : beBytes w (ofBe x) = x := by
  subst h
  exact ofBe_injective (beBytes_length _ _) (ofBe_beBytes_of_lt (ofBe_lt x))

theorem toUnsigned_beBytes {w k : Nat} (hw : 2 ^ w = 256 ^ k) (n : Unsigned w) : toUnsigned w (beBytes k n.1) = n := by
  apply Subtype.ext
  simp only [toUnsigned, Unsigned.wrap]
  rw [ofBe_beBytes_of_lt (hw ▸ n.2), Nat.mod_eq_of_lt n.2]

@[simp] theorem toUnsigned_beBytes_u64 (n : U64) : toUnsigned 64 (beBytes 8 n.1) = n := toUnsigned_beBytes rfl n

@[simp] theorem toUnsigned_beBytes_u32 (n : U32) : toUnsigned 32 (beBytes 4 n.1) = n := toUnsigned_beBytes rfl n

@[simp] theorem toUnsigned_beBytes_u16 (n : U16) : toUnsigned 16 (beBytes 2 n.1) = n := toUnsigned_beBytes rfl n

@[simp] theorem toI64_i64Bytes (v : I64) : toI64 (i64Bytes v) = v := by
  have hrange : (v.1 % 2 ^ 64).toNat < 256 ^ 8 := by omega
  unfold toI64 i64Bytes
  rw [ofBe_beBytes_of_lt hrange]
  exact I64.ofBits_emod v

variable {x y : Bytes} {start : Nat} {n : Nat} {fields : List Bytes}

theorem slice?_append_right {a b : Nat} (hx : x.length ≤ a) (hab : a ≤ b) :
    slice? (x ++ y) a b = slice? y (a - x.length) (b - x.length) := by
  unfold slice?
  have hcond : (a ≤ b ∧ b ≤ (x ++ y).length) ↔ (a - x.length ≤ b - x.length ∧ b - x.length ≤ y.length) := by
    rw [length_append]
    omega
  rw [if_congr hcond rfl rfl, drop_append, drop_eq_nil_of_le hx, nil_append]
  have hwidth : b - x.length - (a - x.length) = b - a := by omega
  rw [hwidth]

theorem fixed?_append_right (hx : x.length ≤ start) :
    fixed? n (x ++ y) start = fixed? n y (start - x.length) := by
  unfold fixed?
  have hcond : start + n ≤ (x ++ y).length ↔ start - x.length + n ≤ y.length := by
    rw [length_append]
    omega
  have hdrop : (x ++ y).drop start = y.drop (start - x.length) := by
    rw [drop_append, drop_eq_nil_of_le hx, nil_append]
  by_cases h : start + n ≤ (x ++ y).length
  · rw [dif_pos h, dif_pos (hcond.mp h)]
    simp only [hdrop]
  · rw [dif_neg h, dif_neg fun h' => h (hcond.mpr h')]

theorem fixed?_append_left (x : FixedBytes n) (y : Bytes) : fixed? n (x.1 ++ y) 0 = some x := by
  obtain ⟨x, hx⟩ := x
  subst hx
  simp [fixed?]

theorem fixed?_bytes {x : Bytes} (hx : x.length = n) (y : Bytes) : fixed? n (x ++ y) 0 = some ⟨x, hx⟩ :=
  fixed?_append_left ⟨x, hx⟩ y

/-- A record is the concatenation of its fields, and a field is read back at the sum of the lengths
of the fields before it. -/
theorem fixed?_flatten (i : Nat) {x : Bytes}
    (hfield : fields[i]? = some x) (hstart : ((fields.map List.length).take i).sum = start)
    (hx : x.length = n) : fixed? n fields.flatten start = some ⟨x, hx⟩ := by
  obtain ⟨hi, hget⟩ := List.getElem?_eq_some_iff.mp hfield
  have hsplit : fields = fields.take i ++ x :: fields.drop (i + 1) := by
    rw [← hget, getElem_cons_drop, take_append_drop]
  have hlen : (fields.take i).flatten.length = start := by
    rw [length_flatten, map_take, hstart]
  rw [hsplit, flatten_append, flatten_cons, fixed?_append_right (le_of_eq hlen), hlen,
    Nat.sub_self, fixed?_bytes hx]

theorem sum_length_take_succ {i : Nat} {x : Bytes}
    (hfield : fields[i]? = some x) (hstart : ((fields.map List.length).take i).sum = start) :
    ((fields.map List.length).take (i + 1)).sum = start + x.length := by
  rw [take_add_one, getElem?_map, hfield, sum_append, hstart]
  rfl

theorem getElem?_flatten (i : Nat) {b : UInt8} (hfield : fields[i]? = some [b])
    (hstart : ((fields.map List.length).take i).sum = start) : fields.flatten[start]? = some b := by
  obtain ⟨hi, hget⟩ := List.getElem?_eq_some_iff.mp hfield
  have hsplit : fields = fields.take i ++ [b] :: fields.drop (i + 1) := by
    rw [← hget, getElem_cons_drop, take_append_drop]
  have hlen : (fields.take i).flatten.length = start := by
    rw [length_flatten, map_take, hstart]
  rw [hsplit, flatten_append, getElem?_append_right (le_of_eq hlen), hlen, Nat.sub_self]
  rfl

/-- Before any two tails the strings only agree where `P` holds, and then the tails agree too. -/
def Delimits (P : Prop) (x y : Bytes) : Prop := ∀ s t, x ++ s = y ++ t → P ∧ s = t

namespace Delimits

variable {P Q : Prop} {x y x' y' : Bytes}

theorem imp (h : Delimits P x y) (himp : P → Q) : Delimits Q x y := by
  intro s t heq
  obtain ⟨hP, hst⟩ := h s t heq
  exact ⟨himp hP, hst⟩

theorem of_length (h : x.length = y.length) : Delimits (x = y) x y := fun _ _ heq => List.append_inj heq h

theorem append (h : Delimits P x y) (hrest : P → Delimits Q x' y') : Delimits (P ∧ Q) (x ++ x') (y ++ y') := by
  intro s t heq
  rw [List.append_assoc, List.append_assoc] at heq
  obtain ⟨hP, heq⟩ := h _ _ heq
  obtain ⟨hQ, hst⟩ := hrest hP s t heq
  exact ⟨⟨hP, hQ⟩, hst⟩

theorem apart {a b : UInt8} (h : a ≠ b) : Delimits P (a :: x) (b :: y) := fun _ _ heq =>
  absurd (List.cons.inj heq).1 h

theorem cons (a : UInt8) (h : Delimits P x y) : Delimits P (a :: x) (a :: y) := fun s t heq =>
  h s t (List.cons.inj heq).2

theorem nil : Delimits True [] [] := fun _ _ heq => ⟨trivial, heq⟩

theorem head {a b : UInt8} (h : Delimits P x y) : Delimits (a = b ∧ P) (a :: x) (b :: y) := by
  intro s t heq
  obtain ⟨hab, heq⟩ := List.cons.inj heq
  obtain ⟨hP, hst⟩ := h s t heq
  exact ⟨⟨hab, hP⟩, hst⟩

theorem beBytes {w m n : Nat} (hm : m < 256 ^ w) (hn : n < 256 ^ w) :
    Delimits (m = n) (beBytes w m) (beBytes w n) := by
  refine (of_length (by rw [beBytes_length, beBytes_length])).imp fun heq => ?_
  rw [← ofBe_beBytes_of_lt hm, heq, ofBe_beBytes_of_lt hn]

/-- Lists of one length, when their elements are told apart. -/
theorem flatMap {α : Type} {f : α → Bytes} {as bs : List α} (hlen : as.length = bs.length)
    (h : ∀ a ∈ as, ∀ b ∈ bs, Delimits (a = b) (f a) (f b)) :
    Delimits (as = bs) (as.flatMap f) (bs.flatMap f) := by
  induction as generalizing bs with
  | nil =>
    cases bs with
    | nil => exact fun s t heq => ⟨rfl, heq⟩
    | cons b bs => cases hlen
  | cons a as ih =>
    cases bs with
    | nil => cases hlen
    | cons b bs =>
      have hhead := h a List.mem_cons_self b List.mem_cons_self
      have htail := ih (Nat.succ.inj hlen) fun a ha b hb =>
        h a (List.mem_cons_of_mem _ ha) b (List.mem_cons_of_mem _ hb)
      refine (hhead.append fun _ => htail).imp ?_
      rintro ⟨rfl, rfl⟩
      rfl

end Delimits

end ByteCodec
