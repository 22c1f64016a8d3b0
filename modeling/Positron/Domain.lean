import Positron.Lib.Bytes

/-! The identities, scopes, positions and instants shared by every part of the kernel. The
constructors of the source reject reserved values; here the types exclude them. -/

namespace Positron
open MachineInt ByteCodec

/-- A 16-byte identity. The all-zero value is reserved. -/
abbrev Identifier := {b : FixedBytes 16 // b.1.all (· == 0) = false}

def Identifier.new (bytes : FixedBytes 16) : Option Identifier :=
  if h : bytes.1.all (· == 0) = false then some ⟨bytes, h⟩ else none

def Identifier.toBytes (id : Identifier) : Bytes := id.1.1

@[simp] theorem Identifier.toBytes_length (id : Identifier) : id.toBytes.length = 16 := id.1.2

@[simp] theorem Identifier.new_val (id : Identifier) : Identifier.new id.1 = some id := by
  simp [Identifier.new, id.2]

structure TenantId where
  id : Identifier
deriving DecidableEq

structure SegmentId where
  id : Identifier
deriving DecidableEq

structure StoreBlockIdentity where
  id : Identifier
deriving DecidableEq

structure SnapshotLeaseId where
  id : Identifier
deriving DecidableEq

inductive SignalKind where
  | logs
  | traces
deriving DecidableEq

/-- Zero is a sentinel and no shard. -/
abbrev VirtualShardId := {n : U32 // n.1 ≠ 0}

def VirtualShardId.new (value : U32) : Option VirtualShardId :=
  if h : value.1 ≠ 0 then some ⟨value, h⟩ else none

@[simp] theorem VirtualShardId.new_val (shard : VirtualShardId) : VirtualShardId.new shard.1 = some shard := by
  simp [VirtualShardId.new, shard.2]

theorem VirtualShardId.new_beBytes (shard : VirtualShardId) :
    VirtualShardId.new (toUnsigned 32 (beBytes 4 shard.1.1)) = some shard := by
  rw [toUnsigned_beBytes_u32, VirtualShardId.new_val]

structure SegmentScope where
  tenant : TenantId
  signal : SignalKind
  shard : VirtualShardId
deriving DecidableEq

def SegmentScope.sample : SegmentScope where
  tenant := ⟨⟨⟨List.replicate 16 7, rfl⟩, rfl⟩⟩
  signal := .logs
  shard := ⟨Unsigned.wrap 32 1, by decide⟩

/-- The place of a committed block in its scope. The origin, zero, comes before every block. -/
abbrev CommitPosition := U64

abbrev CatalogGenerationId := FixedBytes 32

abbrev UnixNanoseconds := I64

/-- Kernel-assigned time. Only authenticated observations exist outside test builds, so the
instant is all there is. -/
abbrev IngestTime := UnixNanoseconds

def maxRetainedBlocks : Nat := 1024

/-- The number of tenants an instance admits, also the size of the clock's scope table. -/
def maxTenantQuotas : Nat := 1024

/-- The stable class of an active-segment operation failure. -/
inductive LedgerFailureCode where
  | invalidInput
  | physicalScopeMismatch
  | limitExceeded
  | resourceAdmissionRefused
  | storageUnavailable
  | integrityCorruption
  | authenticationFailed
  | concurrentWriter
  | unsupportedFormat
  | storageExhausted
  | idempotencyConflict
  | staleGeneration
  | recoveryRequired
  | cancelled
  | snapshotExpired
  | staleResumeMarker
  | clockUncertain
deriving DecidableEq

/-- Whether the failed call is safe to retry in place or requires recovery. -/
inductive LedgerCompletionState where
  | rejectedBeforeMutation
  | recoveryRequired
  | commitAmbiguous
deriving DecidableEq

structure LedgerFailure where
  code : LedgerFailureCode
  completion : LedgerCompletionState
deriving DecidableEq

namespace LedgerFailure

def new (code : LedgerFailureCode) : LedgerFailure := ⟨code, .rejectedBeforeMutation⟩

def postMutation (code : LedgerFailureCode) : LedgerFailure := ⟨code, .recoveryRequired⟩

def ambiguous (code : LedgerFailureCode) : LedgerFailure := ⟨code, .commitAmbiguous⟩

end LedgerFailure

abbrev LedgerResult (α : Type) := Except LedgerFailure α

theorem ok_bind {ε α β : Type} (x : α) (f : α → Except ε β) : ((.ok x : Except ε α) >>= f) = f x := rfl

def reject {α : Type} (code : LedgerFailureCode) : LedgerResult α := .error (.new code)

end Positron
