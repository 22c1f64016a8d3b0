import Positron.Lib.Bytes

/-! Names made of bytes: fixed-width decimal numbers and hexadecimal digits, and the order of byte
arrays as keys. -/

namespace ByteNames
open MachineInt ByteCodec

/-- The bytes of a text constant. -/
def asciiBytes (text : String) : Bytes := text.toUTF8.data.toList

section Keys

variable {n : Nat}

def cmpBytes (a b : FixedBytes n) : Ordering := compare a.1 b.1

instance : Std.TransCmp (cmpBytes (n := n)) where
  eq_swap {a b} := Std.OrientedOrd.eq_swap (a := a.1) (b := b.1)
  isLE_trans {a b c} := Std.TransOrd.isLE_trans (a := a.1) (b := b.1) (c := c.1)

instance : Std.LawfulEqCmp (cmpBytes (n := n)) where
  compare_self {a} := Std.ReflOrd.compare_self (a := a.1)
  eq_of_compare h := Subtype.ext (Std.LawfulEqOrd.eq_of_compare h)

end Keys

/-- The `width` low decimal digits of a number, most significant first. -/
def decimal : Nat → Nat → Bytes
  | 0, _ => []
  | width + 1, n => UInt8.ofNat (48 + n / 10 ^ width % 10) :: decimal width n

def decimalDigit? (byte : UInt8) : Option Nat :=
  if 48 ≤ byte.toNat ∧ byte.toNat ≤ 57 then some (byte.toNat - 48) else none

/-- The 64-bit number that the digits spell. -/
def parseDecimal (digits : Bytes) : Option U64 :=
  digits.foldlM (fun number byte => do Unsigned.ofNat? 64 (number.1 * 10 + (← decimalDigit? byte)))
    (Unsigned.zero 64)

def hexDigit (nibble : Nat) : UInt8 :=
  if nibble < 10 then UInt8.ofNat (48 + nibble) else UInt8.ofNat (97 + (nibble - 10))

def hex (bytes : Bytes) : Bytes :=
  bytes.flatMap fun byte => [hexDigit (byte.toNat / 16), hexDigit (byte.toNat % 16)]

/-- Lower-case digits only. -/
def hexValue? (byte : UInt8) : Option Nat :=
  if 48 ≤ byte.toNat ∧ byte.toNat ≤ 57 then some (byte.toNat - 48)
  else if 97 ≤ byte.toNat ∧ byte.toNat ≤ 102 then some (byte.toNat - 97 + 10)
  else none

def parseHex : Bytes → Option Bytes
  | high :: low :: rest => do
    let h ← hexValue? high
    let l ← hexValue? low
    return UInt8.ofNat (h * 16 + l) :: (← parseHex rest)
  | _ => some []

end ByteNames
