import Positron.Clock.Anchor
import Positron.Ledger.Retention

/-! The records of the kernel in the catalog are canonical: what a decoder accepts is what the encoder
writes for it. Clock anchors of the first version and anchors with filled absent fields are exceptions. -/

namespace Positron.Ledger
open MachineInt ByteCodec Checks Clock List RetentionFrontier

/-- `PSEGMET1`. -/
def metadataMagic : Bytes := [0x50, 0x53, 0x45, 0x47, 0x4D, 0x45, 0x54, 0x31]

def metadataBytes : Nat := 56

def segmentStateTag : SegmentState → UInt8
  | .active => 1
  | .sealed => 2
  | .retired => 3

def readSegmentState (bytes : Bytes) (start : Nat) : LedgerResult SegmentState :=
  match bytes[start]? with
  | some 1 => .ok .active
  | some 2 => .ok .sealed
  | some 3 => .ok .retired
  | _ => reject .integrityCorruption

def encodeMetadata (scope : SegmentScope) (metadata : SegmentMetadata) : Bytes :=
  metadataMagic ++ ([0, 1] ++ ([segmentStateTag metadata.state] ++ ((scopeFields scope).flatten ++
    (metadata.id.id.toBytes ++ beBytes 8 metadata.basePosition.1))))

/-- Tenant and shard are read before the segment but checked after it. -/
def decodeMetadata (bytes : Bytes) : LedgerResult (Option (SegmentScope × SegmentMetadata)) :=
  if metadataMagic.isPrefixOf bytes then
    if bytes.length ≠ metadataBytes ∨ slice? bytes 8 10 ≠ some [0, 1] then reject .unsupportedFormat
    else do
      let state ← readSegmentState bytes 10
      let tenant ← exact 16 bytes 11
      let signal ← readSignal bytes 27
      let shard ← exact 4 bytes 28
      let id ← exactIdentifier .invalidInput bytes 32
      let base ← exactU64 bytes 48
      let tenant ← orFail (Identifier.new tenant) (.new .integrityCorruption)
      let shard ← orFail (VirtualShardId.new (toUnsigned 32 shard.1)) (.new .integrityCorruption)
      return some (⟨⟨tenant⟩, signal, shard⟩, ⟨⟨id⟩, state, base⟩)
  else .ok none

section Fields

variable {bytes x : Bytes} {start stop n : Nat}

theorem append_drop_of_isPrefixOf (h : x.isPrefixOf bytes) : x ++ bytes.drop x.length = bytes :=
  prefix_iff_eq_append.mp <| isPrefixOf_iff_prefix.mp h

theorem drop_of_getElem? {b : UInt8} (h : bytes[start]? = some b) :
    bytes.drop start = [b] ++ bytes.drop (start + 1) := by
  obtain ⟨hlt, rfl⟩ := List.getElem?_eq_some_iff.mp h
  exact drop_eq_getElem_cons hlt

theorem drop_of_slice? (h : slice? bytes start stop = some x) :
    x.length = stop - start ∧ bytes.drop start = x ++ bytes.drop stop := by
  unfold slice? at h
  split at h
  · rename_i hrange
    cases h
    have hsplit := take_append_drop (stop - start) (bytes.drop start)
    rw [drop_drop, Nat.add_sub_of_le hrange.1] at hsplit
    exact ⟨by rw [length_take, length_drop]; omega, hsplit.symm⟩
  · cases h

theorem drop_of_exact {field : FixedBytes n} (h : exact n bytes start = .ok field) :
    bytes.drop start = field.1 ++ bytes.drop (start + n) := by
  unfold exact fixed? at h
  split at h
  · rename_i hfield
    split at hfield
    · cases hfield
      cases h
      rw [← drop_drop, take_append_drop]
    · cases hfield
  · cases h

theorem drop_of_readSignal {signal : SignalKind} (h : readSignal bytes start = .ok signal) :
    bytes.drop start = [signalTag signal] ++ bytes.drop (start + 1) := by
  unfold readSignal signalFromTag at h
  split at h
  · rename_i tag htag
    apply drop_of_getElem?
    split at h <;> cases h <;> exact htag
  · cases h

theorem Identifier.eq_of_new {field : FixedBytes 16} {id : Identifier} (h : Identifier.new field = some id) :
    id.1 = field := by
  unfold Identifier.new at h
  split at h <;> cases h
  rfl

theorem drop_of_exactIdentifier {code : LedgerFailureCode} {id : Identifier}
    (h : exactIdentifier code bytes start = .ok id) :
    bytes.drop start = id.toBytes ++ bytes.drop (start + 16) := by
  obtain ⟨field, hfield, h⟩ := bind_ok h
  rw [drop_of_exact hfield]
  split at h <;> cases h
  rename_i hid
  rw [Identifier.toBytes, Identifier.eq_of_new hid]

theorem beBytes_toUnsigned {w m : Nat} (hw : 2 ^ m = 256 ^ w) (hx : x.length = w) :
    beBytes w (toUnsigned m x).1 = x := by
  have hlt := ofBe_lt x
  rw [hx, ← hw] at hlt
  have hvalue : (toUnsigned m x).1 = ofBe x := Nat.mod_eq_of_lt hlt
  rw [hvalue, beBytes_ofBe hx]

theorem beBytes_shard {field : FixedBytes 4} {shard : VirtualShardId}
    (h : VirtualShardId.new (toUnsigned 32 field.1) = some shard) : beBytes 4 shard.1.1 = field.1 := by
  unfold VirtualShardId.new at h
  split at h <;> cases h
  exact beBytes_toUnsigned rfl field.2

theorem i64Bytes_toI64 (hx : x.length = 8) : i64Bytes (toI64 x) = x := by
  have hlt := ofBe_lt x
  rw [hx] at hlt
  have hbits : ((toI64 x).1 % 2 ^ 64).toNat = ofBe x := by
    unfold toI64 I64.ofBits
    split <;> dsimp only <;> omega
  rw [i64Bytes, hbits, beBytes_ofBe hx]

end Fields

section Records

variable {bytes : Bytes}

theorem encodeMetadata_of_decode {scope : SegmentScope} {metadata : SegmentMetadata}
    (h : decodeMetadata bytes = .ok (some (scope, metadata))) : encodeMetadata scope metadata = bytes := by
  unfold decodeMetadata at h
  split at h
  swap
  · cases h
  rename_i hmagic
  split at h
  · cases h
  rename_i hformat
  rw [not_or, not_not, not_not] at hformat
  obtain ⟨state, hstate, h⟩ := bind_ok h
  obtain ⟨tenant, htenant, h⟩ := bind_ok h
  obtain ⟨signal, hsignal, h⟩ := bind_ok h
  obtain ⟨shard, hshard, h⟩ := bind_ok h
  obtain ⟨id, hid, h⟩ := bind_ok h
  obtain ⟨base, hbase, h⟩ := bind_ok h
  obtain ⟨tenantId, htenantId, h⟩ := bind_ok h
  obtain ⟨shardId, hshardId, h⟩ := bind_ok h
  cases h
  obtain ⟨baseField, hbaseField, hbase⟩ := bind_ok hbase
  cases hbase
  have hstateTag : bytes[10]? = some (segmentStateTag state) := by
    unfold readSegmentState at hstate
    split at hstate <;> cases hstate <;> assumption
  have hrest : bytes.drop (48 + 8) = [] := drop_eq_nil_of_le (le_of_eq hformat.1)
  have hwhole : metadataMagic ++ bytes.drop 8 = bytes := append_drop_of_isPrefixOf hmagic
  rw [(drop_of_slice? hformat.2).2, drop_of_getElem? hstateTag, drop_of_exact htenant,
    drop_of_readSignal hsignal, drop_of_exact hshard, drop_of_exactIdentifier hid, drop_of_exact hbaseField,
    hrest, append_nil] at hwhole
  rw [← hwhole, encodeMetadata, scopeFields, Identifier.toBytes, Identifier.eq_of_new (orFail_eq_ok_iff.mp htenantId),
    beBytes_shard (orFail_eq_ok_iff.mp hshardId), beBytes_toUnsigned rfl baseField.2]
  simp only [flatten_cons, flatten_nil, append_nil, append_assoc]

theorem encode_of_decodeFrontier {scope : SegmentScope} {frontier : IngestTime}
    (h : decode bytes = .ok (some (scope, frontier))) :
    encode scope frontier = bytes := by
  unfold decode at h
  split at h
  swap
  · cases h
  rename_i hmagic
  split at h
  · cases h
  rename_i hformat
  rw [not_or, not_not, not_not] at hformat
  obtain ⟨scope', hscope, h⟩ := bind_ok h
  obtain ⟨instant, hinstant, h⟩ := bind_ok h
  cases h
  obtain ⟨tenant, htenant, hscope⟩ := bind_ok hscope
  obtain ⟨signal, hsignal, hscope⟩ := bind_ok hscope
  obtain ⟨shard, hshard, hscope⟩ := bind_ok hscope
  cases hscope
  obtain ⟨field, hfield, hshard⟩ := bind_ok hshard
  split at hshard <;> cases hshard
  rename_i hshard
  have hrest : bytes.drop (31 + 8) = [] := drop_eq_nil_of_le (le_of_eq hformat.1)
  have hwhole : magic ++ bytes.drop 8 = bytes := append_drop_of_isPrefixOf hmagic
  rw [(drop_of_slice? hformat.2).2, drop_of_exactIdentifier htenant, drop_of_readSignal hsignal, drop_of_exact hfield,
    drop_of_exact hinstant, hrest, append_nil] at hwhole
  rw [← hwhole, encode, fields, scopeFields, beBytes_shard hshard, i64Bytes_toI64 instant.2]
  simp only [flatten_cons, flatten_nil, append_nil, cons_append, nil_append]

variable {start : Nat}

theorem drop_of_readI64 {v : I64} (h : readI64 bytes start = .ok v) :
    bytes.drop start = i64Bytes v ++ bytes.drop (start + 8) := by
  unfold readI64 at h
  split at h <;> cases h
  rename_i hslice
  obtain ⟨hlen, hdrop⟩ := drop_of_slice? hslice
  rw [i64Bytes_toI64 (hlen.trans (Nat.add_sub_cancel_left _ _)), hdrop]

theorem drop_of_readState {state : LifecycleClockState} (h : readState bytes start = .ok state) :
    bytes.drop start = [encodeState state] ++ bytes.drop (start + 1) := by
  apply drop_of_getElem?
  unfold readState at h
  split at h <;> cases h <;> assumption

/-- An absent field is written as zeros. -/
def ZeroFilled (bytes : Bytes) (start : Nat) : Prop :=
  bytes[start]? = some 0 → slice? bytes (start + 1) (start + 9) = some (i64Bytes I64.zero)

theorem drop_of_readOptionalI64 {v : Option I64} (hfilled : ZeroFilled bytes start)
    (h : readOptionalI64 bytes start = .ok v) :
    bytes.drop start = encodeOptionalI64 v ++ bytes.drop (start + 9) := by
  unfold readOptionalI64 at h
  split at h
  · rename_i htag
    cases h
    rw [drop_of_getElem? htag, (drop_of_slice? (hfilled htag)).2]
    rfl
  · rename_i htag
    cases hread : readI64 bytes (start + 1) with
    | error failure =>
      rw [hread] at h
      cases h
    | ok v =>
      rw [hread] at h
      cases h
      rw [drop_of_getElem? htag, drop_of_readI64 hread]
      rfl
  · cases h

variable {safety : LifecycleClockSafety}

/-- All that an accepted anchor has been read from. Only the correction depends on the version. -/
theorem decodeCatalogAnchor_ok (h : decodeCatalogAnchor bytes = .ok (some safety)) :
    clockAnchorMagic.isPrefixOf bytes ∧ durableFields safety = safety ∧ readState bytes 9 = .ok safety.state ∧
      readI64 bytes 10 = .ok safety.anchor ∧ readOptionalI64 bytes 18 = .ok safety.lastWallClock ∧
      readOptionalI64 bytes 27 = .ok safety.observedOffsetNanoseconds ∧
      (bytes[8]? = some 1 ∧ bytes.length = clockAnchorV1Bytes ∧ safety.wallClockCorrectionNanoseconds = I64.zero ∨
        bytes[8]? = some 2 ∧ bytes.length = clockAnchorBytes ∧
          readI64 bytes clockAnchorV1Bytes = .ok safety.wallClockCorrectionNanoseconds) := by
  unfold decodeCatalogAnchor at h
  split at h
  swap
  · cases h
  rename_i hmagic
  obtain ⟨version, hread, h⟩ := bind_ok h
  unfold readVersion at hread
  split at hread
  · cases hread
  rename_i found hversion
  obtain ⟨hlen, rfl⟩ := ite_eq_ok_iff.mp hread
  obtain ⟨state, hstate, h⟩ := bind_ok h
  obtain ⟨anchor, hanchor, h⟩ := bind_ok h
  obtain ⟨wall, hwall, h⟩ := bind_ok h
  obtain ⟨offset, hoffset, h⟩ := bind_ok h
  rcases hlen with ⟨rfl, hlen⟩ | ⟨rfl, hlen⟩
  · cases h
    exact ⟨hmagic, rfl, hstate, hanchor, hwall, hoffset, .inl ⟨hversion, hlen, rfl⟩⟩
  · obtain ⟨correction, hlast, h⟩ := bind_ok (show (readI64 bytes 36 >>= _) = _ from h)
    cases h
    exact ⟨hmagic, rfl, hstate, hanchor, hwall, hoffset, .inr ⟨hversion, hlen, hlast⟩⟩

/-- The bytes of an accepted anchor up to the correction, field by field. -/
theorem fields_of_decodeAnchor {version : UInt8} (hversion : bytes[8]? = some version)
    (hwall : ZeroFilled bytes 18) (hoffset : ZeroFilled bytes 27)
    (h : decodeCatalogAnchor bytes = .ok (some safety)) :
    clockAnchorMagic ++ ([version] ++ ([encodeState safety.state] ++ (i64Bytes safety.anchor ++
      (encodeOptionalI64 safety.lastWallClock ++ (encodeOptionalI64 safety.observedOffsetNanoseconds ++
        bytes.drop clockAnchorV1Bytes))))) = bytes := by
  obtain ⟨hmagic, -, hstate, hanchor, hwallRead, hoffsetRead, -⟩ := decodeCatalogAnchor_ok h
  have hwhole : clockAnchorMagic ++ bytes.drop 8 = bytes := append_drop_of_isPrefixOf hmagic
  rw [drop_of_getElem? hversion, drop_of_readState hstate, drop_of_readI64 hanchor,
    drop_of_readOptionalI64 hwall hwallRead, drop_of_readOptionalI64 hoffset hoffsetRead] at hwhole
  exact hwhole

theorem zeroFilled_skip {x y : Bytes} (hx : x.length ≤ start) (h : ZeroFilled y (start - x.length)) :
    ZeroFilled (x ++ y) start := by
  have hnext : start + 1 - x.length = start - x.length + 1 := by omega
  have hstop : start + 9 - x.length = start - x.length + 9 := by omega
  intro htag
  rw [getElem?_append_right hx] at htag
  rw [slice?_append_right (by omega) (by omega), hnext, hstop]
  exact h htag

theorem zeroFilled_here (v : Option I64) (y : Bytes) : ZeroFilled (encodeOptionalI64 v ++ y) 0 := by
  intro htag
  cases v with
  | none => rfl
  | some v => cases htag

/-- The encoder itself fills the absent fields with zeros. -/
theorem encodeCatalogAnchor_zeroFilled (safety : LifecycleClockSafety) :
    ZeroFilled (encodeCatalogAnchor safety) 18 ∧ ZeroFilled (encodeCatalogAnchor safety) 27 := by
  unfold encodeCatalogAnchor
  constructor
  · iterate 3 refine zeroFilled_skip (by simp) ?_
    exact zeroFilled_here _ _
  · iterate 4 refine zeroFilled_skip (by simp) ?_
    simp only [i64Bytes_length, encodeOptionalI64_length]
    exact zeroFilled_here _ _

theorem encodeCatalogAnchor_eq_iff (h : decodeCatalogAnchor bytes = .ok (some safety)) :
    encodeCatalogAnchor safety = bytes ↔ bytes[8]? = some 2 ∧ ZeroFilled bytes 18 ∧ ZeroFilled bytes 27 := by
  constructor
  · rintro rfl
    exact ⟨rfl, encodeCatalogAnchor_zeroFilled safety⟩
  · rintro ⟨hversion, hwall, hoffset⟩
    have hfields := fields_of_decodeAnchor hversion hwall hoffset h
    obtain ⟨-, -, -, -, -, -, ⟨hone, -⟩ | ⟨-, hlen, hlast⟩⟩ := decodeCatalogAnchor_ok h
    · rw [hversion] at hone
      cases hone
    · have hrest : bytes.drop (clockAnchorV1Bytes + 8) = [] := drop_eq_nil_of_le (le_of_eq hlen)
      rw [drop_of_readI64 hlast, hrest, append_nil] at hfields
      exact hfields

/-- An anchor of the first version is written with the version changed and a correction of zero added. -/
theorem encodeCatalogAnchor_of_first (hversion : bytes[8]? = some 1) (hwall : ZeroFilled bytes 18)
    (hoffset : ZeroFilled bytes 27) (h : decodeCatalogAnchor bytes = .ok (some safety)) :
    encodeCatalogAnchor safety = clockAnchorMagic ++ 2 :: (bytes.drop 9 ++ i64Bytes I64.zero) := by
  have hfields := fields_of_decodeAnchor hversion hwall hoffset h
  obtain ⟨-, -, -, -, -, -, ⟨-, hlen, hzero⟩ | ⟨htwo, -⟩⟩ := decodeCatalogAnchor_ok h
  · rw [drop_eq_nil_of_le (le_of_eq hlen), append_nil] at hfields
    rw [← hfields, encodeCatalogAnchor, hzero]
    simp [clockAnchorMagic]
  · rw [hversion] at htwo
    cases htwo

theorem decode_encode_of_decodeAnchor (h : decodeCatalogAnchor bytes = .ok (some safety)) :
    decodeCatalogAnchor (encodeCatalogAnchor safety) = .ok (some safety) := by
  obtain ⟨-, hdurable, -⟩ := decodeCatalogAnchor_ok h
  rw [decode_encodeCatalogAnchor, hdurable]

/-- Accepted segment records and retention frontiers are what their encoders write. An accepted clock anchor is, when it
is of the current version and its absent fields are zeros; one of the first version is rewritten in the current one, and
is read back as the same anchor. -/
theorem kernel_records_canonical :
    (∀ bytes scope metadata, decodeMetadata bytes = .ok (some (scope, metadata)) →
      encodeMetadata scope metadata = bytes) ∧
    (∀ bytes scope frontier, decode bytes = .ok (some (scope, frontier)) → encode scope frontier = bytes) ∧
    ∀ bytes safety, decodeCatalogAnchor bytes = .ok (some safety) →
      (encodeCatalogAnchor safety = bytes ↔ bytes[8]? = some 2 ∧ ZeroFilled bytes 18 ∧ ZeroFilled bytes 27) ∧
      (bytes[8]? = some 1 → ZeroFilled bytes 18 → ZeroFilled bytes 27 →
        encodeCatalogAnchor safety = clockAnchorMagic ++ 2 :: (bytes.drop 9 ++ i64Bytes I64.zero)) ∧
      decodeCatalogAnchor (encodeCatalogAnchor safety) = .ok (some safety) :=
  ⟨fun _ _ _ => encodeMetadata_of_decode, fun _ _ _ => encode_of_decodeFrontier, fun _ _ h =>
    ⟨encodeCatalogAnchor_eq_iff h, fun hversion hwall hoffset => encodeCatalogAnchor_of_first hversion hwall hoffset h,
      decode_encode_of_decodeAnchor h⟩⟩

/-- A sealed log segment that starts at position five. -/
def sealedSegment : Bytes :=
  metadataMagic ++ [0, 1, 2] ++ replicate 16 7 ++ [signalTag .logs, 0, 0, 0, 1] ++ replicate 16 9 ++ beBytes 8 5

def sampleFrontier : Bytes :=
  magic ++ [0, 1] ++ replicate 16 7 ++ [signalTag .logs, 0, 0, 0, 1] ++ beBytes 8 1000

/-- An uncertain anchor that has read a wall clock and has no offset. -/
def currentAnchor : Bytes :=
  clockAnchorMagic ++ [2, 1] ++ beBytes 8 1000 ++ 1 :: beBytes 8 400 ++ replicate 9 0 ++ beBytes 8 3

/-- An anchor of the first version, at the epoch and with nothing observed. -/
def firstAnchor : Bytes := clockAnchorMagic ++ 1 :: replicate 27 0

theorem sample_records_canonical :
    (∃ scope metadata, decodeMetadata sealedSegment = .ok (some (scope, metadata)) ∧
      encodeMetadata scope metadata = sealedSegment) ∧
    (∃ scope frontier, decode sampleFrontier = .ok (some (scope, frontier)) ∧ encode scope frontier = sampleFrontier) ∧
    (∃ safety, decodeCatalogAnchor currentAnchor = .ok (some safety) ∧ encodeCatalogAnchor safety = currentAnchor) ∧
    ∃ safety, decodeCatalogAnchor firstAnchor = .ok (some safety) ∧
      encodeCatalogAnchor safety = clockAnchorMagic ++ 2 :: (firstAnchor.drop 9 ++ i64Bytes I64.zero) := by
  obtain ⟨hsegments, hfrontiers, hanchors⟩ := kernel_records_canonical
  refine ⟨⟨_, _, rfl, hsegments _ _ _ rfl⟩, ⟨_, _, rfl, hfrontiers _ _ _ rfl⟩, ⟨_, rfl, ?_⟩, ⟨_, rfl, ?_⟩⟩
  · have hwall : ZeroFilled currentAnchor 18 := by
      intro htag
      cases htag
    exact (hanchors currentAnchor _ rfl).1.mpr ⟨rfl, hwall, fun _ => rfl⟩
  · exact (hanchors firstAnchor _ rfl).2.1 rfl (fun _ => rfl) (fun _ => rfl)

/-- The first version is accepted and written back in the current one. -/
theorem first_anchor_rewritten :
    ∃ safety, decodeCatalogAnchor firstAnchor = .ok (some safety) ∧ encodeCatalogAnchor safety ≠ firstAnchor := by
  refine ⟨_, rfl, ?_⟩
  decide

end Records

end Positron.Ledger
