import Positron.Domain

/-! The fields that the records of the ledger share: fixed-width arrays, integers and scopes, with
the lemmas that read them back out of a record. The retention frontier of a scope: the latest instant that
destructive retention may rely on. -/

namespace Positron.Ledger
open MachineInt ByteCodec

/-- What a segment knows of the ingest times of its blocks. -/
inductive SegmentRetention where
  | empty
  | unavailable
  | complete (time : IngestTime)
deriving DecidableEq

structure CommittedBlock where
  payload : Bytes
  blockRetention : SegmentRetention

namespace CommittedBlock

/-- A time read from the block's records, held against what the kernel knows. Old blocks carry no evidence. -/
def observeIngestTime (block : CommittedBlock) (encoded : UnixNanoseconds) : Except LedgerFailureCode IngestTime :=
  match block.blockRetention with
  | .complete expected => if expected = encoded then .ok expected else .error .integrityCorruption
  | .unavailable => .ok encoded
  | .empty => .error .unsupportedFormat

theorem observeIngestTime_ok {block : CommittedBlock} {time : IngestTime}
    (h : block.blockRetention = .complete time ∨ block.blockRetention = .unavailable) :
    block.observeIngestTime time = .ok time := by
  unfold observeIngestTime
  rcases h with h | h
  · rw [h]
    exact if_pos rfl
  · rw [h]

end CommittedBlock

def signalTag : SignalKind → UInt8
  | .logs => 1
  | .traces => 2

def signalFromTag : UInt8 → LedgerResult SignalKind
  | 1 => .ok .logs
  | 2 => .ok .traces
  | _ => reject .integrityCorruption

def exact (n : Nat) (bytes : Bytes) (start : Nat) : LedgerResult (FixedBytes n) :=
  match fixed? n bytes start with
  | some field => .ok field
  | none => reject .integrityCorruption

variable (bytes : Bytes) (start : Nat)

def exactU64 : LedgerResult U64 := do
  let field ← exact 8 bytes start
  return toUnsigned 64 field.1

def exactU16 : LedgerResult U16 := do
  let field ← exact 2 bytes start
  return toUnsigned 16 field.1

def exactIdentifier (code : LedgerFailureCode) (bytes : Bytes) (start : Nat) :
    LedgerResult Identifier := do
  let field ← exact 16 bytes start
  match Identifier.new field with
  | some id => .ok id
  | none => reject code

def readSignal : LedgerResult SignalKind :=
  match (bytes[start]? : Option UInt8) with
  | some tag => signalFromTag tag
  | none => reject .integrityCorruption

def readShard : LedgerResult VirtualShardId := do
  let field ← exact 4 bytes start
  match VirtualShardId.new (toUnsigned 32 field.1) with
  | some shard => .ok shard
  | none => reject .integrityCorruption

def readScope : LedgerResult SegmentScope := do
  let tenant ← exactIdentifier .integrityCorruption bytes start
  let signal ← readSignal bytes (start + 16)
  let shard ← readShard bytes (start + 17)
  return ⟨⟨tenant⟩, signal, shard⟩

def scopeFields (scope : SegmentScope) : List Bytes :=
  [scope.tenant.id.toBytes, [signalTag scope.signal], beBytes 4 scope.shard.1.1]

@[simp] theorem signalFromTag_signalTag (signal : SignalKind) :
    signalFromTag (signalTag signal) = .ok signal := by
  cases signal <;> rfl

section Records

variable {fields : List Bytes} {start : Nat} (i : Nat)

theorem exact_flatten {n : Nat} {x : Bytes} (hfield : fields[i]? = some x)
    (hstart : ((fields.map List.length).take i).sum = start) (hx : x.length = n) :
    ∃ field, exact n fields.flatten start = .ok field ∧ field.1 = x := by
  refine ⟨⟨x, hx⟩, ?_, rfl⟩
  unfold exact
  rw [fixed?_flatten i hfield hstart hx]

theorem exactU64_flatten {n : U64} (hfield : fields[i]? = some (beBytes 8 n.1))
    (hstart : ((fields.map List.length).take i).sum = start) : exactU64 fields.flatten start = .ok n := by
  obtain ⟨field, hread, hval⟩ := exact_flatten i hfield hstart (beBytes_length 8 n.1)
  unfold exactU64
  rw [hread, ok_bind, hval, toUnsigned_beBytes_u64]
  rfl

theorem exactU16_flatten {n : U16} (hfield : fields[i]? = some (beBytes 2 n.1))
    (hstart : ((fields.map List.length).take i).sum = start) : exactU16 fields.flatten start = .ok n := by
  obtain ⟨field, hread, hval⟩ := exact_flatten i hfield hstart (beBytes_length 2 n.1)
  unfold exactU16
  rw [hread, ok_bind, hval, toUnsigned_beBytes_u16]
  rfl

theorem exactIdentifier_flatten {id : Identifier} (code : LedgerFailureCode)
    (hfield : fields[i]? = some id.toBytes) (hstart : ((fields.map List.length).take i).sum = start) :
    exactIdentifier code fields.flatten start = .ok id := by
  obtain ⟨field, hread, hval⟩ := exact_flatten i hfield hstart id.toBytes_length
  have hsame : field = id.1 := Subtype.ext hval
  unfold exactIdentifier
  rw [hread, ok_bind, hsame, Identifier.new_val]

theorem readSignal_flatten {signal : SignalKind} (hfield : fields[i]? = some [signalTag signal])
    (hstart : ((fields.map List.length).take i).sum = start) :
    readSignal fields.flatten start = .ok signal := by
  unfold readSignal
  rw [getElem?_flatten i hfield hstart]
  exact signalFromTag_signalTag signal

theorem readShard_flatten {shard : VirtualShardId} (hfield : fields[i]? = some (beBytes 4 shard.1.1))
    (hstart : ((fields.map List.length).take i).sum = start) : readShard fields.flatten start = .ok shard := by
  obtain ⟨field, hread, hval⟩ := exact_flatten i hfield hstart (beBytes_length 4 shard.1.1)
  unfold readShard
  rw [hread, ok_bind, hval, VirtualShardId.new_beBytes]

theorem readScope_flatten {scope : SegmentScope} (hfields : (fields.drop i).take 3 = scopeFields scope)
    (hstart : ((fields.map List.length).take i).sum = start) : readScope fields.flatten start = .ok scope := by
  have hfield : ∀ j < 3, fields[i + j]? = (scopeFields scope)[j]? := by
    intro j hj
    rw [← hfields, List.getElem?_take_of_lt hj, List.getElem?_drop]
  have htenant : fields[i]? = some scope.tenant.id.toBytes := hfield 0 (by omega)
  have hsignal : fields[i + 1]? = some [signalTag scope.signal] := hfield 1 (by omega)
  have hshard : fields[i + 2]? = some (beBytes 4 scope.shard.1.1) := hfield 2 (by omega)
  have hstart₁ := sum_length_take_succ htenant hstart
  rw [Identifier.toBytes_length] at hstart₁
  have hstart₂ : ((fields.map List.length).take (i + 2)).sum = start + 17 :=
    sum_length_take_succ hsignal hstart₁
  unfold readScope
  rw [exactIdentifier_flatten i _ htenant hstart, readSignal_flatten (i + 1) hsignal hstart₁,
    readShard_flatten (i + 2) hshard hstart₂]
  rfl

end Records

namespace RetentionFrontier

/-- `PRETFR01`. -/
def magic : Bytes := [0x50, 0x52, 0x45, 0x54, 0x46, 0x52, 0x30, 0x31]

def version : Bytes := [0, 1]

def recordBytes : Nat := 39

def fields (scope : SegmentScope) (frontier : IngestTime) : List Bytes :=
  [magic, version] ++ scopeFields scope ++ [i64Bytes frontier]

def encode (scope : SegmentScope) (frontier : IngestTime) : Bytes := (fields scope frontier).flatten

def decode (bytes : Bytes) : LedgerResult (Option (SegmentScope × IngestTime)) :=
  if magic.isPrefixOf bytes then
    if bytes.length ≠ recordBytes ∨ slice? bytes 8 10 ≠ some version then reject .unsupportedFormat
    else do
      let scope ← readScope bytes 10
      let instant ← exact 8 bytes 31
      return some (scope, toI64 instant.1)
  else .ok none

/-- The frontier of one scope; two records for it are corruption. -/
def recoverFrom (scope : SegmentScope) : List Bytes → Option IngestTime → LedgerResult (Option IngestTime)
  | [], recovered => .ok recovered
  | bytes :: objects, recovered =>
    match decode bytes with
    | .error failure => .error failure
    | .ok none => recoverFrom scope objects recovered
    | .ok (some (candidate, instant)) =>
      if candidate = scope then
        if recovered.isSome then reject .integrityCorruption
        else recoverFrom scope objects (some instant)
      else recoverFrom scope objects recovered

def recover (objects : List Bytes) (scope : SegmentScope) : LedgerResult (Option IngestTime) :=
  recoverFrom scope objects none

theorem decode_encode (scope : SegmentScope) (frontier : IngestTime) :
    decode (encode scope frontier) = .ok (some (scope, frontier)) := by
  have hmagic : magic.isPrefixOf (encode scope frontier) := rfl
  have hlen : (encode scope frontier).length = recordBytes := by
    simp [encode, fields, scopeFields, magic, version, recordBytes]
  have hver : slice? (encode scope frontier) 8 10 = some version := by
    rfl
  have hscope : readScope (encode scope frontier) 10 = .ok scope := readScope_flatten 2 rfl rfl
  obtain ⟨field, hfield, hval⟩ : ∃ field, exact 8 (encode scope frontier) 31 = .ok field ∧
      field.1 = i64Bytes frontier := by
    refine exact_flatten 5 rfl ?_ (i64Bytes_length frontier)
    simp [fields, scopeFields, magic, version]
  unfold decode
  rw [if_pos hmagic, if_neg (by simp [hlen, hver]), hscope, ok_bind, hfield, ok_bind, hval, toI64_i64Bytes]
  rfl

end RetentionFrontier

end Positron.Ledger
