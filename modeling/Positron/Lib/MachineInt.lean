import Mathlib.Tactic.Linarith

/-! Fixed-width integers as exact integers that carry their own range. The checked
operations are the exact ones, cut off at the border of the type. -/

namespace MachineInt

/-- Unsigned integers of `w` bits. -/
abbrev Unsigned (w : Nat) := {n : Nat // n < 2 ^ w}

abbrev U16 := Unsigned 16
abbrev U32 := Unsigned 32
abbrev U64 := Unsigned 64

theorem one_lt_word : 1 < 2 ^ 64 := by decide

instance (w : Nat) : Min (Unsigned w) := inferInstanceAs (Min {n : Nat // n < 2 ^ w})

instance (w : Nat) : Max (Unsigned w) := inferInstanceAs (Max {n : Nat // n < 2 ^ w})

/-- Signed integers of 64 bits. -/
abbrev I64 := {v : Int // -2 ^ 63 ≤ v ∧ v < 2 ^ 63}

instance : Min I64 := inferInstanceAs (Min {v : Int // -2 ^ 63 ≤ v ∧ v < 2 ^ 63})

instance : Max I64 := inferInstanceAs (Max {v : Int // -2 ^ 63 ≤ v ∧ v < 2 ^ 63})

instance (a b : I64) : Decidable (a ≤ b) := inferInstanceAs (Decidable (a.1 ≤ b.1))

namespace Unsigned

variable {w : Nat}

def ofNat? (w : Nat) (n : Nat) : Option (Unsigned w) :=
  if h : n < 2 ^ w then some ⟨n, h⟩ else none

def checkedAdd (a b : Unsigned w) : Option (Unsigned w) := ofNat? w (a.1 + b.1)

def checkedSub (a b : Unsigned w) : Option (Unsigned w) :=
  if b.1 ≤ a.1 then some ⟨a.1 - b.1, by have := a.2; omega⟩ else none

def saturatingAdd (a b : Unsigned w) : Unsigned w :=
  if h : a.1 + b.1 < 2 ^ w then ⟨a.1 + b.1, h⟩ else ⟨2 ^ w - 1, by have := a.2; omega⟩

def zero (w : Nat) : Unsigned w := ⟨0, Nat.two_pow_pos w⟩

def wrap (w n : Nat) : Unsigned w := ⟨n % 2 ^ w, Nat.mod_lt _ (Nat.two_pow_pos w)⟩

def maxValue (w : Nat) : Unsigned w := ⟨2 ^ w - 1, by have := Nat.two_pow_pos w; omega⟩

variable {n : Nat} {a b : Unsigned w}

theorem ofNat?_eq_some_iff {c : Unsigned w} : ofNat? w n = some c ↔ c.1 = n := by
  unfold ofNat?
  split
  · rw [Option.some_inj, Subtype.ext_iff]
    exact eq_comm
  · rename_i hn
    simp only [reduceCtorEq, false_iff]
    rintro rfl
    exact hn c.2

theorem ofNat?_eq_none_iff : ofNat? w n = none ↔ 2 ^ w ≤ n := by
  unfold ofNat?
  split
  · rename_i hn
    simpa using hn
  · rename_i hn
    simpa using hn

theorem checkedAdd_eq_some_iff {a b c : Unsigned w} : checkedAdd a b = some c ↔ c.1 = a.1 + b.1 :=
  ofNat?_eq_some_iff

theorem checkedAdd_eq_none_iff : checkedAdd a b = none ↔ 2 ^ w ≤ a.1 + b.1 :=
  ofNat?_eq_none_iff

theorem checkedSub_eq_some_iff {a b c : Unsigned w} :
    checkedSub a b = some c ↔ b.1 ≤ a.1 ∧ c.1 = a.1 - b.1 := by
  unfold checkedSub
  split
  · rename_i hle
    rw [Option.some_inj, Subtype.ext_iff]
    exact ⟨fun h => ⟨hle, h.symm⟩, fun h => h.2.symm⟩
  · rename_i hle
    simp [hle]

theorem checkedSub_eq_none_iff : checkedSub a b = none ↔ a.1 < b.1 := by
  unfold checkedSub
  split
  · rename_i hle
    simpa using hle
  · rename_i hle
    simpa using hle

theorem checkedSub_of_le (h : b.1 ≤ a.1) : ∃ c, checkedSub a b = some c ∧ c.1 = a.1 - b.1 :=
  ⟨⟨_, (Nat.sub_le _ _).trans_lt a.2⟩, checkedSub_eq_some_iff.mpr ⟨h, rfl⟩, rfl⟩

theorem val_min (a b : Unsigned w) : (min a b).1 = min a.1 b.1 := by
  rcases le_total a b with h | h
  · rw [min_eq_left h, min_eq_left (Subtype.coe_le_coe.mpr h)]
  · rw [min_eq_right h, min_eq_right (Subtype.coe_le_coe.mpr h)]

end Unsigned

namespace I64

def ofInt? (v : Int) : Option I64 :=
  if h : -2 ^ 63 ≤ v ∧ v < 2 ^ 63 then some ⟨v, h⟩ else none

def checkedAdd (a b : I64) : Option I64 := ofInt? (a.1 + b.1)

def checkedSub (a b : I64) : Option I64 := ofInt? (a.1 - b.1)

def absDiff (a b : I64) : Nat := (a.1 - b.1).natAbs

def ofU64? (n : U64) : Option I64 := ofInt? n.1

def toU64? (v : I64) : Option U64 :=
  if 0 ≤ v.1 then Unsigned.ofNat? 64 v.1.toNat else none

def zero : I64 := ⟨0, by omega⟩

/-- The signed value of 64 bits in two's complement. -/
def ofBits (n : Nat) : I64 :=
  if h : n % 2 ^ 64 < 2 ^ 63 then ⟨(n % 2 ^ 64 : Nat), by omega⟩
  else ⟨(n % 2 ^ 64 : Nat) - 2 ^ 64, by omega⟩

theorem ofInt?_eq_some_iff {v : Int} {c : I64} : ofInt? v = some c ↔ c.1 = v := by
  unfold ofInt?
  split
  · rw [Option.some_inj, Subtype.ext_iff]
    exact eq_comm
  · rename_i hv
    simp only [reduceCtorEq, false_iff]
    rintro rfl
    exact hv c.2

variable {a b c : I64}

theorem checkedAdd_eq_some_iff : checkedAdd a b = some c ↔ c.1 = a.1 + b.1 :=
  ofInt?_eq_some_iff

theorem checkedSub_eq_some_iff : checkedSub a b = some c ↔ c.1 = a.1 - b.1 :=
  ofInt?_eq_some_iff

theorem ofU64?_eq_some_iff {n : U64} {c : I64} : ofU64? n = some c ↔ c.1 = n.1 :=
  ofInt?_eq_some_iff

theorem ofBits_emod (v : I64) : ofBits (v.1 % 2 ^ 64).toNat = v := by
  obtain ⟨v, hlo, hhi⟩ := v
  apply Subtype.ext
  unfold ofBits
  dsimp only
  split
  · dsimp only
    omega
  · dsimp only
    omega

@[simp] theorem val_max (a b : I64) : (max a b).1 = max a.1 b.1 := by
  rcases le_total a b with h | h
  · rw [max_eq_right h, max_eq_right (Subtype.coe_le_coe.mpr h)]
  · rw [max_eq_left h, max_eq_left (Subtype.coe_le_coe.mpr h)]

end I64

end MachineInt
