import Positron.Lib.Bytes
import Positron.Lib.Checks

/-! Encoders that append fields to a byte string and decoders that take them back off and fail on a short one,
with the rules that run them over a concatenation of fields. -/

namespace Decoding
open MachineInt ByteCodec List

abbrev Decoder (ε α : Type) := StateT Bytes (Except ε) α

variable {ε α β : Type}

/-- The decoder applied to a whole byte string. -/
def decode (decoder : Decoder ε α) (bytes : Bytes) : Except ε α := Prod.fst <$> decoder bytes

def take (e : ε) (n : Nat) : Decoder ε Bytes := fun bytes =>
  if n ≤ bytes.length then .ok (bytes.take n, bytes.drop n) else .error e

def takeArray (e : ε) (n : Nat) : Decoder ε (FixedBytes n) := fun bytes =>
  if h : n ≤ bytes.length then .ok (⟨bytes.take n, List.length_take_of_le h⟩, bytes.drop n)
  else .error e

def takeU16 (e : ε) : Decoder ε U16 := (fun bytes => toUnsigned 16 bytes.1) <$> takeArray e 2

def takeU32 (e : ε) : Decoder ε U32 := (fun bytes => toUnsigned 32 bytes.1) <$> takeArray e 4

def takeU64 (e : ε) : Decoder ε U64 := (fun bytes => toUnsigned 64 bytes.1) <$> takeArray e 8

def finish (e : ε) : Decoder ε PUnit := fun bytes =>
  if bytes = [] then .ok (⟨⟩, []) else .error e

/-- The check of a value read before. -/
def check (x : Except ε α) : Decoder ε α := fun bytes => (fun a => (a, bytes)) <$> x

def takeArrays (e : ε) (n : Nat) : Nat → Decoder ε (List (FixedBytes n))
  | 0 => pure []
  | count + 1 => do
    let array ← takeArray e n
    return array :: (← takeArrays e n count)

variable {a : α} {e : ε} {n : Nat}

theorem bind_of_ok {decoder : Decoder ε α} {f : α → Decoder ε β} {bytes rest : Bytes}
    (h : decoder bytes = .ok (a, rest)) : (decoder >>= f) bytes = f a rest := by
  change (decoder bytes >>= fun p => f p.1 p.2) = _
  rw [h]
  rfl

theorem map_of_ok {decoder : Decoder ε α} {f : α → β} {bytes rest : Bytes}
    (h : decoder bytes = .ok (a, rest)) : (f <$> decoder) bytes = .ok (f a, rest) := by
  change (decoder bytes >>= fun p => pure (f p.1, p.2)) = _
  rw [h]
  rfl

theorem take_append {x : Bytes} (hx : x.length = n) (rest : Bytes) : take e n (x ++ rest) = .ok (x, rest) := by
  subst hx
  unfold take
  rw [if_pos (by rw [length_append]; omega), take_left, drop_left]

theorem takeArray_append (x : FixedBytes n) (rest : Bytes) : takeArray e n (x.1 ++ rest) = .ok (x, rest) := by
  have hx := x.2
  have hle : n ≤ (x.1 ++ rest).length := by rw [length_append]; omega
  unfold takeArray
  rw [dif_pos hle]
  congr 2
  · exact Subtype.ext (take_left' hx)
  · exact drop_left' hx

theorem takeU16_append (n : U16) (rest : Bytes) : takeU16 e (beBytes 2 n.1 ++ rest) = .ok (n, rest) := by
  rw [takeU16, map_of_ok (takeArray_append ⟨beBytes 2 n.1, beBytes_length 2 n.1⟩ rest),
    toUnsigned_beBytes_u16]

theorem takeU32_append (n : U32) (rest : Bytes) : takeU32 e (beBytes 4 n.1 ++ rest) = .ok (n, rest) := by
  rw [takeU32, map_of_ok (takeArray_append ⟨beBytes 4 n.1, beBytes_length 4 n.1⟩ rest),
    toUnsigned_beBytes_u32]

theorem takeU64_append (n : U64) (rest : Bytes) : takeU64 e (beBytes 8 n.1 ++ rest) = .ok (n, rest) := by
  rw [takeU64, map_of_ok (takeArray_append ⟨beBytes 8 n.1, beBytes_length 8 n.1⟩ rest),
    toUnsigned_beBytes_u64]

theorem check_of_ok {x : Except ε α} (h : x = .ok a) (bytes : Bytes) : check x bytes = .ok (a, bytes) := by
  rw [h]
  rfl

section Inversion

variable {decoder : Decoder ε α} {bytes rest : Bytes}

/-! A decoder that succeeds has taken as many bytes as it says. -/

variable {f : α → Decoder ε β} {a : α} {e : ε}

theorem bind_ok_iff {b : β} : (decoder >>= f) bytes = .ok (b, rest) ↔
      ∃ a middle, decoder bytes = .ok (a, middle) ∧ f a middle = .ok (b, rest) := by
  change (decoder bytes >>= fun p => f p.1 p.2) = .ok (b, rest) ↔ _
  rw [Checks.bind_eq_ok_iff]
  constructor
  · rintro ⟨⟨a, middle⟩, hfirst, hrest⟩
    exact ⟨a, middle, hfirst, hrest⟩
  · rintro ⟨a, middle, hfirst, hrest⟩
    exact ⟨(a, middle), hfirst, hrest⟩

theorem decode_ok_iff {bytes : Bytes} :
    decode decoder bytes = .ok a ↔ ∃ rest, decoder bytes = .ok (a, rest) := by
  unfold decode
  cases hrun : decoder bytes with
  | error e =>
    constructor
    · intro h
      cases h
    · rintro ⟨rest, h⟩
      cases h
  | ok p =>
    obtain ⟨b, rest⟩ := p
    constructor
    · intro h
      cases h
      exact ⟨rest, rfl⟩
    · rintro ⟨rest', h⟩
      cases h
      rfl

/-- Whatever the decoder returns, it takes `n` bytes. -/
def Takes (decoder : Decoder ε α) (n : Nat) : Prop :=
  ∀ bytes a rest, decoder bytes = .ok (a, rest) → bytes.length = n + rest.length

theorem Takes.bind {m n : Nat} (h : Takes decoder m) (hf : ∀ a, Takes (f a) n) :
    Takes (decoder >>= f) (m + n) := by
  intro bytes b rest hrun
  obtain ⟨a, middle, hfirst, hrest⟩ := bind_ok_iff.mp hrun
  rw [h bytes a middle hfirst, hf a middle b rest hrest]
  omega

theorem Takes.pure (a : α) : Takes (Pure.pure a : Decoder ε α) 0 := by
  intro bytes b rest hrun
  cases hrun
  omega

theorem takes_takeArray (e : ε) (n : Nat) : Takes (takeArray e n) n := by
  intro bytes a rest h
  unfold takeArray at h
  split at h
  · cases h
    rw [length_drop]
    omega
  · cases h

theorem Takes.map {n : Nat} (h : Takes decoder n) (f : α → β) : Takes (f <$> decoder) n := by
  exact h.bind fun a => Takes.pure (f a)

theorem takes_takeU16 (e : ε) : Takes (takeU16 e) 2 := (takes_takeArray e 2).map _

theorem takes_takeU32 (e : ε) : Takes (takeU32 e) 4 := (takes_takeArray e 4).map _

theorem takes_takeU64 (e : ε) : Takes (takeU64 e) 8 := (takes_takeArray e 8).map _

theorem check_ok_iff {x : Except ε α} : check x bytes = .ok (a, rest) ↔ x = .ok a ∧ rest = bytes := by
  cases x with
  | error e =>
    constructor
    · intro h
      cases h
    · intro h
      cases h.1
  | ok b =>
    constructor
    · intro h
      cases h
      exact ⟨rfl, rfl⟩
    · rintro ⟨h, rfl⟩
      cases h
      rfl

theorem takes_check (x : Except ε α) : Takes (check x) 0 := by
  intro bytes a rest h
  rw [(check_ok_iff.mp h).2]
  omega

theorem finish_ok {u : PUnit} (h : finish e bytes = .ok (u, rest)) : bytes = [] ∧ rest = [] := by
  unfold finish at h
  split at h
  · rename_i hnil
    cases h
    exact ⟨hnil, rfl⟩
  · cases h

theorem takeArrays_length {n count : Nat} {arrays : List (FixedBytes n)}
    (h : takeArrays e n count bytes = .ok (arrays, rest)) :
    bytes.length = n * count + rest.length ∧ arrays.length = count := by
  induction count generalizing bytes rest arrays with
  | zero =>
    cases h
    exact ⟨by omega, rfl⟩
  | succ count ih =>
    obtain ⟨array, middle, hfirst, h⟩ := bind_ok_iff.mp h
    obtain ⟨others, middle', hothers, h⟩ := bind_ok_iff.mp h
    cases h
    obtain ⟨hlen, hcount⟩ := ih hothers
    rw [takes_takeArray e n bytes array middle hfirst, length_cons, Nat.mul_succ]
    omega

end Inversion

variable {ε α β : Type}

/-- An encoder appends to the bytes written so far. -/
abbrev Encoder (ε α : Type) := StateT Bytes (Except ε) α

/-- Signed integers of 32 bits. -/
abbrev Signed32 := {v : Int // -2 ^ 31 ≤ v ∧ v < 2 ^ 31}

def i32Bytes (v : Signed32) : Bytes := beBytes 4 (v.1 % 2 ^ 32).toNat

def toI32 (bytes : Bytes) : Signed32 :=
  if h : ofBe bytes % 2 ^ 32 < 2 ^ 31 then ⟨(ofBe bytes % 2 ^ 32 : Nat), by omega⟩
  else ⟨(ofBe bytes % 2 ^ 32 : Nat) - 2 ^ 32, by omega⟩

theorem toI32_i32Bytes (v : Signed32) : toI32 (i32Bytes v) = v := by
  obtain ⟨v, hlow, hhigh⟩ := v
  have hbits : ofBe (i32Bytes ⟨v, hlow, hhigh⟩) = (v % 2 ^ 32).toNat :=
    ofBe_beBytes_of_lt (by omega)
  apply Subtype.ext
  unfold toI32
  split
  · dsimp only
    omega
  · dsimp only
    omega

def sized (bytes : Bytes) : Bytes := beBytes 4 bytes.length ++ bytes

@[simp] theorem sized_length (bytes : Bytes) : (sized bytes).length = 4 + bytes.length := by
  rw [sized, length_append, beBytes_length]

/-- The text of a byte string, if it is one. -/
def ofUtf8? (bytes : Bytes) : Option String := String.fromUTF8? ⟨bytes.toArray⟩

theorem ofUtf8?_toUTF8 (text : String) : ofUtf8? text.toUTF8.data.toList = some text := by
  exact dif_pos text.isValidUTF8

def takeU8 (e : ε) : Decoder ε UInt8
  | [] => .error e
  | byte :: rest => .ok (byte, rest)

def takeI32 (e : ε) : Decoder ε Signed32 := (fun bytes => toI32 bytes.1) <$> takeArray e 4

def takeI64 (e : ε) : Decoder ε I64 := (fun bytes => toI64 bytes.1) <$> takeArray e 8

def takeCount (e : ε) (maximum : Nat) : Decoder ε Nat := do
  let count ← takeU16 e
  check (Checks.demand (count.1 ≤ maximum) e)
  return count.1

def takeSized (e : ε) (maximum : Nat) : Decoder ε Bytes := do
  let count ← takeU32 e
  check (Checks.demand (count.1 ≤ maximum) e)
  take e count.1

def takeText (e : ε) (maximum : Nat) : Decoder ε String := do
  let bytes ← takeSized e maximum
  check (Checks.orFail (ofUtf8? bytes) e)

def takeMany (decoder : Decoder ε α) : Nat → Decoder ε (List α)
  | 0 => pure []
  | count + 1 => do
    let value ← decoder
    let values ← takeMany decoder count
    return value :: values

def put (bytes : Bytes) : Encoder ε PUnit := fun output => .ok (⟨⟩, output ++ bytes)

def putCount (e : ε) (count : Nat) : Encoder ε PUnit := do
  check (Checks.demand (count < 2 ^ 16) e)
  put (beBytes 2 count)

def putSized (e : ε) (bytes : Bytes) : Encoder ε PUnit := do
  check (Checks.demand (bytes.length < 2 ^ 32) e)
  put (sized bytes)

def putEach (encoder : α → Encoder ε PUnit) : List α → Encoder ε PUnit
  | [] => pure ⟨⟩
  | value :: values => do
    encoder value
    putEach encoder values

def takeOption (e : ε) (decoder : Decoder ε α) : Decoder ε (Option α) := do
  let flag ← takeU8 e
  if flag = 0 then pure none else if flag = 1 then some <$> decoder else check (.error e)

def putOption (encoder : α → Encoder ε PUnit) : Option α → Encoder ε PUnit
  | none => put [0]
  | some value => do
    put [1]
    encoder value

def flagged (layout : α → Bytes) : Option α → Bytes
  | none => [0]
  | some value => [1] ++ layout value

section Reading

variable {decoder : Decoder ε α} {f : α → Decoder ε β} {layout : α → Bytes}
  {bytes : Bytes} {a : α} {b : β} {x : Except ε α} {count maximum : Nat}

theorem bind_of_error {e : ε} (h : decoder bytes = .error e) (f : α → Decoder ε β) :
    (decoder >>= f) bytes = .error e := by
  change (decoder bytes >>= fun p => f p.1 p.2) = _
  rw [h]
  rfl

/-- On every input that starts with `bytes` the decoder returns `a` and leaves what follows. -/
def Reads (decoder : Decoder ε α) (bytes : Bytes) (a : α) : Prop :=
  ∀ rest, decoder (bytes ++ rest) = .ok (a, rest)

theorem Reads.bind {x y : Bytes} (h : Reads decoder x a) (hf : Reads (f a) y b) :
    Reads (decoder >>= f) (x ++ y) b := by
  intro rest
  rw [append_assoc, bind_of_ok (h (y ++ rest))]
  exact hf rest

theorem Reads.pure (a : α) : Reads (Pure.pure a : Decoder ε α) [] a := fun _ => rfl

theorem Reads.map {x : Bytes} (h : Reads decoder x a) (f : α → β) : Reads (f <$> decoder) x (f a) :=
  fun rest => map_of_ok (h rest)

theorem Reads.last {x : Bytes} (h : Reads decoder x a) (hf : Reads (f a) [] b) : Reads (decoder >>= f) x b := by
  have hbind := h.bind hf
  rwa [append_nil] at hbind

theorem Reads.check_bind {y : Bytes} (h : x = .ok a) (hf : Reads (f a) y b) : Reads (check x >>= f) y b := by
  intro rest
  rw [bind_of_ok (check_of_ok h (y ++ rest))]
  exact hf rest

theorem Reads.check (h : x = .ok a) : Reads (Decoding.check x) [] a :=
  fun rest => check_of_ok h rest

/-- What stands behind a part that is read may still be refused. -/
theorem demand_of {c : Prop} [Decidable c] (hc : c) (e : ε) : Checks.demand c e = .ok ⟨⟩ :=
  Checks.demand_eq_ok_iff.mpr hc

theorem reads_takeU8 (e : ε) (byte : UInt8) : Reads (takeU8 e) [byte] byte := fun _ => rfl

theorem reads_takeArray (e : ε) {n : Nat} (x : FixedBytes n) : Reads (takeArray e n) x.1 x :=
  takeArray_append x

theorem reads_takeU16 (e : ε) (n : U16) : Reads (takeU16 e) (beBytes 2 n.1) n := takeU16_append n

theorem reads_takeU32 (e : ε) (n : U32) : Reads (takeU32 e) (beBytes 4 n.1) n := takeU32_append n

theorem reads_takeU64 (e : ε) (n : U64) : Reads (takeU64 e) (beBytes 8 n.1) n := takeU64_append n

theorem reads_takeI32 (e : ε) (v : Signed32) : Reads (takeI32 e) (i32Bytes v) v := by
  have hread := (reads_takeArray e ⟨i32Bytes v, beBytes_length 4 _⟩).map fun bytes => toI32 bytes.1
  rwa [toI32_i32Bytes] at hread

theorem reads_takeI64 (e : ε) (v : I64) : Reads (takeI64 e) (i64Bytes v) v := by
  have hread := (reads_takeArray e ⟨i64Bytes v, i64Bytes_length v⟩).map fun bytes => toI64 bytes.1
  rwa [toI64_i64Bytes] at hread

theorem reads_takeCount (e : ε) (hword : count < 2 ^ 16) (hmax : count ≤ maximum) :
    Reads (takeCount e maximum) (beBytes 2 count) count :=
  (reads_takeU16 e ⟨count, hword⟩).last (.check_bind (demand_of hmax e) (.pure count))

theorem takeCount_above (e : ε) (hword : count < 2 ^ 16) (hmax : maximum < count)
    (rest : Bytes) : takeCount e maximum (beBytes 2 count ++ rest) = .error e := by
  rw [takeCount, bind_of_ok (reads_takeU16 e ⟨count, hword⟩ rest)]
  have hdemand : Checks.demand (count ≤ maximum) e = .error e := if_neg (by omega)
  rw [hdemand]
  rfl

theorem reads_takeSized (e : ε) {maximum : Nat} (hword : bytes.length < 2 ^ 32)
    (hmax : bytes.length ≤ maximum) : Reads (takeSized e maximum) (sized bytes) bytes :=
  (reads_takeU32 e ⟨bytes.length, hword⟩).bind
    (.check_bind (demand_of hmax e) fun rest => take_append rfl rest)

theorem reads_takeText (e : ε) {text : String} {maximum : Nat}
    (hword : text.toUTF8.data.toList.length < 2 ^ 32) (hmax : text.toUTF8.data.toList.length ≤ maximum) :
    Reads (takeText e maximum) (sized text.toUTF8.data.toList) text := by
  apply (reads_takeSized e hword hmax).last
  rw [ofUtf8?_toUTF8]
  exact Reads.check rfl

theorem reads_takeMany {values : List α} (h : ∀ value ∈ values, Reads decoder (layout value) value) :
    Reads (takeMany decoder values.length) (values.flatMap layout) values := by
  induction values with
  | nil => exact .pure []
  | cons value values ih =>
    obtain ⟨hval, hvals⟩ := forall_mem_cons.mp h
    exact hval.bind ((ih hvals).last (.pure _))

theorem reads_takeOption (e : ε) {value : Option α} (h : ∀ a ∈ value, Reads decoder (layout a) a) :
    Reads (takeOption e decoder) (flagged layout value) value := by
  cases value with
  | none => exact (reads_takeU8 e 0).last (.pure none)
  | some a => exact (reads_takeU8 e 1).bind ((h a rfl).map some)

end Reading

section Results

variable {decoder : Decoder ε α} {f : α → Decoder ε β} {P : α → Prop} {Q : β → Prop}

/-- Whatever the decoder returns has the property. -/
def Yields (decoder : Decoder ε α) (P : α → Prop) : Prop := ∀ bytes a rest, decoder bytes = .ok (a, rest) → P a

theorem yields_true (decoder : Decoder ε α) : Yields decoder fun _ => True := fun _ _ _ _ => trivial

theorem Yields.bind (h : Yields decoder P) (hf : ∀ a, P a → Yields (f a) Q) : Yields (decoder >>= f) Q := by
  intro bytes b rest hrun
  obtain ⟨a, middle, hfirst, hrest⟩ := bind_ok_iff.mp hrun
  exact hf a (h bytes a middle hfirst) middle b rest hrest

/-- The rule for a field whose value does not matter. -/
theorem Yields.after (hf : ∀ a, Yields (f a) Q) : Yields (decoder >>= f) Q :=
  (yields_true decoder).bind fun a _ => hf a

theorem yields_pure {a : α} (h : P a) : Yields (pure a : Decoder ε α) P := by
  intro bytes b rest hrun
  cases hrun
  exact h

theorem yields_check {x : Except ε α} (h : ∀ a, x = .ok a → P a) : Yields (check x) P :=
  fun _ a _ hrun => h a (check_ok_iff.mp hrun).1

theorem yields_takeCount (e : ε) (maximum : Nat) : Yields (takeCount e maximum) (· ≤ maximum) :=
  .after fun _ => (yields_check fun _ hdemand => Checks.demand_eq_ok_iff.mp hdemand).bind fun _ hle => yields_pure hle

theorem yields_takeMany (h : Yields decoder P) (count : Nat) :
    Yields (takeMany decoder count) fun values => values.length = count ∧ ∀ value ∈ values, P value := by
  induction count with
  | zero => exact yields_pure ⟨rfl, fun _ hmem => absurd hmem not_mem_nil⟩
  | succ count ih =>
    refine h.bind fun value hvalue => ih.bind fun values hvalues => yields_pure ⟨?_, ?_⟩
    · rw [length_cons, hvalues.1]
    · exact forall_mem_cons.mpr ⟨hvalue, hvalues.2⟩

end Results

section Writing

variable {encoder : α → Encoder ε PUnit} {layout : α → Bytes}

/-- Whatever is there, the encoder appends `bytes` to it. -/
def Puts (encoder : Encoder ε PUnit) (bytes : Bytes) : Prop :=
  ∀ output, encoder output = .ok (⟨⟩, output ++ bytes)

variable {first second : Encoder ε PUnit} {f : α → Encoder ε PUnit} {x : Except ε α} {y : Bytes} {a : α}
  {values : List α} {bytes output : Bytes} {u : PUnit}

theorem Puts.bind {x y : Bytes} (hfirst : Puts first x) (hsecond : Puts second y) :
    Puts (first >>= fun _ => second) (x ++ y) := by
  intro output
  rw [bind_of_ok (hfirst output), hsecond, append_assoc]

theorem puts_put (bytes : Bytes) : Puts (put bytes : Encoder ε PUnit) bytes := fun _ => rfl

theorem Puts.check_bind (h : x = .ok a) (hf : Puts (f a) y) : Puts (check x >>= f) y := by
  intro output
  rw [bind_of_ok (check_of_ok h output)]
  exact hf output

theorem puts_pure : Puts (pure ⟨⟩ : Encoder ε PUnit) [] := by
  intro output
  rw [append_nil]
  rfl

theorem puts_putCount (e : ε) {count : Nat} (hword : count < 2 ^ 16) :
    Puts (putCount e count) (beBytes 2 count) :=
  Puts.check_bind (demand_of hword e) (puts_put _)

theorem puts_putSized (e : ε) {bytes : Bytes} (hword : bytes.length < 2 ^ 32) :
    Puts (putSized e bytes) (sized bytes) :=
  Puts.check_bind (demand_of hword e) (puts_put _)

theorem puts_putEach (h : ∀ value ∈ values, Puts (encoder value) (layout value)) :
    Puts (putEach encoder values) (values.flatMap layout) := by
  induction values with
  | nil => exact puts_pure
  | cons value values ih =>
    obtain ⟨hval, hvals⟩ := forall_mem_cons.mp h
    exact hval.bind (ih hvals)

theorem puts_putOption {value : Option α} (h : ∀ a ∈ value, Puts (encoder a) (layout a)) :
    Puts (putOption encoder value) (flagged layout value) := by
  cases value with
  | none => exact puts_put [0]
  | some a => exact (puts_put [1]).bind (h a rfl)

end Writing

end Decoding
