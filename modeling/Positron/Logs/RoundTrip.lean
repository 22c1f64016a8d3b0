import Positron.Logs.Codec

/-! Values and blocks of log records. A value is written with its length and read back. A block whose length was found
is written with that length, and read back unless a record has more attributes than the decoder counts, or an
event time that the bytes cannot hold. -/

namespace Positron.Logs
open Decoding Checks Value AttributeValue MachineInt ByteCodec Policy Ledger List
open NativeRecordValidator SegmentScope LogStoreFailure

theorem boundedAdd_ok_iff {left right total : Nat} :
    boundedAdd left right = .ok total ↔ left + right ≤ maxBlockBytes ∧ total = left + right := ite_eq_ok_iff

theorem after_boundedAdd {β : Type} {left right : Nat} {next : Nat → Except LogStoreFailure β} {result : β}
    (h : (boundedAdd left right >>= next) = .ok result) :
    left + right ≤ maxBlockBytes ∧ next (left + right) = .ok result := by
  obtain ⟨total, htotal, hafter⟩ := bind_ok h
  obtain ⟨hbound, rfl⟩ := boundedAdd_ok_iff.mp htotal
  exact ⟨hbound, hafter⟩

section Writing

/-- The length of a value was found, and the encoder writes its layout, of that length. -/
def Written (depth : Nat) (value : AttributeValue) : Prop :=
  ∀ length, encodedLength depth value = .ok length →
    Puts (encodeValue depth value) value.layout ∧ value.layout.length = length

variable {depth : Nat}

theorem encodeValues_written {values : List AttributeValue} (hvals : ∀ value ∈ values, Written depth value) :
    ∀ {total length : Nat}, encodedLengthValues depth total values = .ok length →
      Puts (encodeValues depth values) (layoutValues values) ∧ total + (layoutValues values).length = length := by
  induction values with
  | nil =>
    intro total length h
    cases h
    exact ⟨puts_pure, rfl⟩
  | cons value values ih =>
    intro total length h
    obtain ⟨hval, hvals⟩ := List.forall_mem_cons.mp hvals
    obtain ⟨bytes, hbytes, hafter⟩ := bind_ok h
    obtain ⟨-, hafter⟩ := after_boundedAdd hafter
    obtain ⟨hputs, hlen⟩ := hval bytes hbytes
    obtain ⟨hputsAll, hlenAll⟩ := ih hvals hafter
    refine ⟨hputs.bind hputsAll, ?_⟩
    rw [layoutValues, List.length_append]
    omega

theorem encodeEntries_written {entries : List (String × AttributeValue)}
    (hents : ∀ entry ∈ entries, Written depth entry.2) :
    ∀ {total length : Nat}, encodedLengthEntries depth total entries = .ok length →
      Puts (encodeEntries depth entries) (layoutEntries entries) ∧
        total + (layoutEntries entries).length = length := by
  induction entries with
  | nil =>
    intro total length h
    cases h
    exact ⟨puts_pure, rfl⟩
  | cons entry entries ih =>
    intro total length h
    obtain ⟨key, value⟩ := entry
    obtain ⟨hval, hents⟩ := List.forall_mem_cons.mp hents
    obtain ⟨-, hafter⟩ := after_boundedAdd h
    obtain ⟨hbound, hafter⟩ := after_boundedAdd hafter
    obtain ⟨bytes, hbytes, hafter⟩ := bind_ok hafter
    obtain ⟨-, hafter⟩ := after_boundedAdd hafter
    obtain ⟨hputs, hlen⟩ := hval bytes hbytes
    obtain ⟨hputsAll, hlenAll⟩ := ih hents hafter
    have hkey : (utf8 key).length < 2 ^ 32 := by unfold maxBlockBytes at hbound; omega
    constructor
    · rw [layoutEntries, List.append_assoc]
      exact (puts_putSized _ hkey).bind (hputs.bind hputsAll)
    · change value.layout.length = bytes at hlen
      rw [layoutEntries, List.length_append, List.length_append, sized_length]
      omega

theorem nativeKindTag_of_ne {kind : AttributeValueKind} (h : kind ≠ .marker) : nativeKindTag kind = .ok kind.tag := by
  cases kind <;> first | rfl | exact absurd rfl h

theorem written_of_fits {valueBytes depth : Nat} {value : AttributeValue}
    (hfits : value.Fits release1Limits.dynamicValue valueBytes depth) : Written depth value := by
  induction hfits with
  | null depth =>
    intro length h
    cases h
    exact ⟨puts_put _, rfl⟩
  | boolean depth value =>
    intro length h
    cases h
    exact ⟨(puts_put _).bind (puts_put _), rfl⟩
  | signedInteger depth value =>
    intro length h
    cases h
    refine ⟨(puts_put _).bind (puts_put _), ?_⟩
    rfl
  | floatingPointBits depth bits =>
    intro length h
    cases h
    refine ⟨(puts_put _).bind (puts_put _), ?_⟩
    rfl
  | string depth value hbytes =>
    intro length h
    obtain ⟨hbound, rfl⟩ := boundedAdd_ok_iff.mp h
    have hword : (utf8 value).length < 2 ^ 32 := by unfold maxBlockBytes at hbound; omega
    refine ⟨(puts_put _).bind (puts_putSized _ hword), ?_⟩
    rw [length_string]
  | bytes depth value hbytes =>
    intro length h
    obtain ⟨hbound, rfl⟩ := boundedAdd_ok_iff.mp h
    have hword : value.length < 2 ^ 32 := by unfold maxBlockBytes at hbound; omega
    refine ⟨(puts_put _).bind (puts_putSized _ hword), ?_⟩
    rw [length_bytes]
  | array depth values hcount hvals ih =>
    intro length h
    obtain ⟨hputs, hlen⟩ := encodeValues_written ih h
    have hword : values.length < 2 ^ 16 := lt_of_le_of_lt hcount (by decide)
    constructor
    · exact .check_bind (demand_of (by omega) _) ((puts_put _).bind ((puts_putCount _ hword).bind hputs))
    · rw [length_array]
      omega
  | keyValueList depth entries hcount hkeys hvals ih =>
    intro length h
    obtain ⟨hputs, hlen⟩ := encodeEntries_written ih h
    have hword : entries.length < 2 ^ 16 := lt_of_le_of_lt hcount (by decide)
    constructor
    · exact .check_bind (demand_of (by omega) _) ((puts_put _).bind ((puts_putCount _ hword).bind hputs))
    · rw [length_keyValueList]
      omega
  | marker depth m hmarker =>
    intro length h
    cases h
    refine ⟨?_, rfl⟩
    have htag := nativeKindTag_of_ne (RedactionMarker.kind_ne_marker hmarker)
    exact (puts_put _).bind ((puts_put _).bind (.check_bind htag (puts_put _)))
  | truncated depth value action haction hnative hval ih =>
    intro length h
    obtain ⟨bytes, hbytes, hafter⟩ := bind_ok h
    obtain ⟨-, rfl⟩ := boundedAdd_ok_iff.mp hafter
    obtain ⟨hputs, hlen⟩ := ih bytes hbytes
    have htag := nativeKindTag_of_ne (kind_ne_marker_of_native hnative)
    constructor
    · exact (puts_put _).bind ((puts_put _).bind (.check_bind htag ((puts_put _).bind hputs)))
    · rw [length_truncated]
      omega

end Writing

section Reading

variable {value : AttributeValue}

theorem reads_takeKey {key : String} (hempty : key.isEmpty = false)
    (hbytes : (utf8 key).length ≤ CodecLimits.release1.keyBytes) :
    Reads (takeKey CodecLimits.release1) (sized (utf8 key)) key := by
  have hword : (utf8 key).length < 2 ^ 32 := lt_of_le_of_lt hbytes (by decide)
  exact (reads_takeText _ hword hbytes).last (.check_bind (demand_of hempty _) (.pure key))

theorem decodeNativeKind_tag {kind : AttributeValueKind} (h : kind ≠ .marker) :
    decodeNativeKind kind.tag = .ok kind := by
  cases kind <;> first | rfl | exact absurd rfl h

theorem reads_marker {m : RedactionMarker} (h : m.isValid) (child : Decoder LogStoreFailure AttributeValue) :
    Reads (decodeMarker child) ([m.action.tag] ++ [m.originalKind.tag]) (.marker m) := by
  obtain ⟨hkind, haction⟩ := RedactionMarker.isValid_iff.mp h
  refine reads_markerHead (decodeNativeKind_tag hkind) ?_
  rw [if_pos haction]
  exact .pure _

theorem reads_truncated {action : MarkerAction} {child : Decoder LogStoreFailure AttributeValue}
    (haction : truncationActionValid action value.candidateNativeKind) (hnative : value.isNative)
    (hchild : Reads child value.layout value) :
    Reads (decodeMarker child) ([action.tag] ++ ([value.kind.tag] ++ value.layout)) (.truncated value action) := by
  have hkind := decodeNativeKind_tag (kind_ne_marker_of_native hnative)
  rw [candidateNativeKind_of_native hnative] at haction
  refine reads_markerHead hkind ?_
  rw [if_neg (truncation_keeps haction)]
  exact hchild.last (.check_bind (demand_of ⟨rfl, hnative, haction⟩ _) (.pure _))

theorem reads_takeValue {valueBytes : Nat} (hword : valueBytes < 2 ^ 32)
    (hfits : value.Fits release1Limits.dynamicValue valueBytes release1Limits.nestingDepth.1) :
    Reads (takeValue CodecLimits.release1 markerVersion valueBytes) value.layout value := by
  intro rest
  exact reads_of_kinds hword (fun _ _ => rfl) (fun _ => rfl) reads_flag
    (fun hkey hchild => (reads_takeKey hkey.1 hkey.2).bind (hchild.last (.pure _)))
    (fun child hvalid => reads_marker hvalid child) reads_truncated hfits _ (by rw [List.length_append]; omega) rest

end Reading

def eventTimeLayout (time : EventTime) : Bytes := [qualityTag time.quality] ++ time.instant.elim [] i64Bytes

def observedTimeLayout (time : ObservedTime) : Bytes := [qualityTag time.quality] ++ i64Bytes time.instant

def metadataLayout (metadata : LogMetadata) : Bytes :=
  i32Bytes metadata.severityNumber ++ (sized (utf8 metadata.severityText) ++ (sized (utf8 metadata.eventName) ++
    (flagged Subtype.val metadata.traceId ++ (flagged Subtype.val metadata.spanId ++
    (beBytes 4 metadata.flags.1 ++ (beBytes 4 metadata.droppedAttributesCount.1 ++
    (beBytes 4 metadata.resourceDroppedAttributesCount.1 ++ (sized (utf8 metadata.resourceSchemaUrl) ++
    (sized (utf8 metadata.scopeName) ++ (sized (utf8 metadata.scopeVersion) ++
    (beBytes 4 metadata.scopeDroppedAttributesCount.1 ++ sized (utf8 metadata.scopeSchemaUrl))))))))))))

def attributeLayout (stored : StoredLogAttribute) : Bytes :=
  [representationTag stored.representation] ++ ([namespaceTag stored.occurrences.attributeNamespace] ++
    (sized (utf8 stored.occurrences.key) ++ (beBytes 2 stored.occurrences.occurrences.length ++
    layoutValues stored.occurrences.occurrences)))

def recordLayout (stored : StoredLogRecord) : Bytes :=
  eventTimeLayout stored.record.eventTime ++ (flagged observedTimeLayout stored.record.observedTime ++
    (metadataLayout stored.record.metadata ++ (i64Bytes stored.ingestTime ++
    (flagged (fun body : LogBody => body.value.layout) stored.record.body ++
    (beBytes 2 stored.record.attributes.length ++ (stored.record.attributes.flatMap attributeLayout ++
    stored.record.policy.layout))))))

def blockLayout (tenant : TenantId) (records : List StoredLogRecord) : Bytes :=
  magic ++ (beBytes 2 markerVersion ++ (tenant.id.toBytes ++ (beBytes 2 records.length ++
    records.flatMap recordLayout)))

theorem eventTimeLayout_length (time : EventTime) :
    (eventTimeLayout time).length = time.instant.elim 1 fun _ => 9 := by
  unfold eventTimeLayout
  cases time.instant with
  | none => rfl
  | some instant =>
    rfl

theorem observedTimeLayout_length (time : Option ObservedTime) :
    (flagged observedTimeLayout time).length = time.elim 1 fun _ => 10 := by
  cases time with
  | none => rfl
  | some time => simp [flagged, observedTimeLayout]

theorem metadataLayout_length (metadata : LogMetadata) :
    (metadataLayout metadata).length = metadataEncodedLength metadata := by
  have hid : ∀ {n : Nat} (id : Option (FixedBytes n)),
      (flagged Subtype.val id).length = 1 + id.elim 0 fun _ => n := by
    intro n id
    cases id with
    | none => rfl
    | some id =>
      rw [flagged, length_append, id.2]
      rfl
  have hnum : (i32Bytes metadata.severityNumber).length = 4 := beBytes_length 4 _
  simp only [metadataLayout, metadataEncodedLength, metadataDecodedSizeBytes, metadataTexts, length_append,
    sized_length, beBytes_length, hid, hnum, map_cons, map_nil, sum_cons, sum_nil]
  omega

section Writing

variable {total length : Nat}

theorem text_word {text : Nat} (h : text ≤ maxBlockBytes) : text < 2 ^ 32 := lt_of_le_of_lt h (by decide)

theorem puts_encodeMetadata {metadata : LogMetadata} (h : metadataDecodedSizeBytes metadata ≤ maxBlockBytes) :
    Puts (encodeMetadata metadata) (metadataLayout metadata) := by
  simp only [metadataDecodedSizeBytes, metadataTexts, map_cons, map_nil, sum_cons, sum_nil] at h
  have hid : ∀ {n : Nat} (id : Option (FixedBytes n)),
      Puts (putOption (fun id : FixedBytes n => put id.1) id : Encoder LogStoreFailure PUnit)
        (flagged Subtype.val id) := fun id => puts_putOption fun a _ => puts_put a.1
  exact (puts_put _).bind ((puts_putSized _ (text_word (by omega))).bind
    ((puts_putSized _ (text_word (by omega))).bind ((hid _).bind ((hid _).bind ((puts_put _).bind
    ((puts_put _).bind ((puts_put _).bind ((puts_putSized _ (text_word (by omega))).bind
    ((puts_putSized _ (text_word (by omega))).bind ((puts_putSized _ (text_word (by omega))).bind
    ((puts_put _).bind (puts_putSized _ (text_word (by omega))))))))))))))

theorem AttributeOccurrenceSet.values_fit (set : AttributeOccurrenceSet) :
    ∀ value ∈ set.occurrences, value.Fits release1Limits.dynamicValue
      release1Limits.individualValueBytes.1 release1Limits.nestingDepth.1 := by
  intro value hmem
  obtain ⟨size, hsize⟩ := set.fits.values value hmem
  exact fits_of_validate hsize

theorem LogBody.fits (body : LogBody) : body.value.Fits release1Limits.dynamicValue
    release1Limits.logBodyBytes.1 release1Limits.nestingDepth.1 := by
  obtain ⟨size, hsize⟩ := body.validated
  exact fits_of_validate hsize

theorem encodeAttribute_written {stored : StoredLogAttribute}
    (h : addAttributeLength release1Limits.nestingDepth.1 total stored = .ok length) :
    Puts (encodeAttribute release1Limits.nestingDepth.1 stored) (attributeLayout stored) ∧
      total + (attributeLayout stored).length = length := by
  obtain ⟨-, hafter⟩ := after_boundedAdd h
  obtain ⟨hkey, hafter⟩ := after_boundedAdd hafter
  obtain ⟨hputs, hlength⟩ := encodeValues_written
    (fun value hmem => written_of_fits (AttributeOccurrenceSet.values_fit stored.occurrences value hmem)) hafter
  have hcount : stored.occurrences.occurrences.length < 2 ^ 16 :=
    lt_of_le_of_lt stored.occurrences.fits.count (by decide)
  constructor
  · exact (puts_put _).bind ((puts_put _).bind ((puts_putSized _ (text_word (by omega))).bind
      ((puts_putCount _ hcount).bind hputs)))
  · simp only [attributeLayout, length_append, length_singleton, sized_length, beBytes_length]
    omega

theorem encodeAttributes_written {attributes : List StoredLogAttribute}
    (h : attributes.foldlM (addAttributeLength release1Limits.nestingDepth.1) total = .ok length) :
    Puts (putEach (encodeAttribute release1Limits.nestingDepth.1) attributes) (attributes.flatMap attributeLayout) ∧
      total + (attributes.flatMap attributeLayout).length = length := by
  obtain ⟨hputs, hlen⟩ := foldlM_counts (fun _ _ _ _ hone => encodeAttribute_written hone) h
  exact ⟨puts_putEach hputs, hlen⟩

theorem addRuleLengths {rules : List String} (h : rules.foldlM addRuleLength total = .ok length) :
    total + (rules.flatMap fun rule => sized (utf8 rule)).length = length := by
  refine (foldlM_counts (P := fun _ => True) (fun rule _ total length hrule => ⟨trivial, ?_⟩) h).2
  obtain ⟨-, rfl⟩ := boundedAdd_ok_iff.mp (after_boundedAdd hrule).2
  rw [sized_length, Nat.add_assoc]

theorem encodeBody_written {body : Option LogBody}
    (h : addBodyLength release1Limits.nestingDepth.1 total body = .ok length) :
    Puts (putOption (fun body : LogBody => encodeValue release1Limits.nestingDepth.1 body.value) body)
        (flagged (fun body : LogBody => body.value.layout) body) ∧
      total + (flagged (fun body : LogBody => body.value.layout) body).length = length + 1 := by
  cases body with
  | none =>
    cases h
    exact ⟨puts_put [0], rfl⟩
  | some body =>
    obtain ⟨bytes, hbytes, hafter⟩ := bind_ok h
    obtain ⟨-, rfl⟩ := boundedAdd_ok_iff.mp hafter
    obtain ⟨hputs, hlength⟩ := written_of_fits (LogBody.fits body) bytes hbytes
    refine ⟨(puts_put [1]).bind hputs, ?_⟩
    rw [flagged, length_append, length_singleton]
    omega

def NativeRecordValidator.occurrences (v : NativeRecordValidator) : Nat :=
  v.occurrencesByNamespace .stream + v.occurrencesByNamespace .resource +
    v.occurrencesByNamespace .instrumentationScope + v.occurrencesByNamespace .record

variable {v v' : NativeRecordValidator} {records : List StoredLogRecord}

theorem NativeRecordValidator.addDecoded_ok {bytes : Nat} (h : v.addDecoded bytes = .ok v') :
    v'.occurrencesByNamespace = v.occurrencesByNamespace ∧ v'.maximumOccurrences = v.maximumOccurrences := by
  unfold addDecoded at h
  split at h
  · cases h
    exact ⟨rfl, rfl⟩
  · cases h

theorem NativeRecordValidator.observeAttribute_ok {place : AttributeNamespace}
    {keyBytes count bytes : Nat} (h : v.observeAttribute place keyBytes count bytes = .ok v')
    (hmax : ∀ other, v.occurrencesByNamespace other ≤ v.maximumOccurrences) :
    v'.occurrences = v.occurrences + count ∧ v'.maximumOccurrences = v.maximumOccurrences ∧
      ∀ other, v'.occurrencesByNamespace other ≤ v'.maximumOccurrences := by
  obtain ⟨v₁, hcount, hafter⟩ := bind_ok h
  obtain ⟨v₂, hkey, hafter⟩ := bind_ok hafter
  obtain ⟨hoccs₂, hmax₂⟩ := addDecoded_ok hkey
  obtain ⟨hoccs₃, hmax₃⟩ := addDecoded_ok hafter
  unfold countOccurrences at hcount
  split at hcount
  · rename_i hle
    cases hcount
    unfold occurrences
    rw [hmax₃, hmax₂, hoccs₃, hoccs₂]
    refine ⟨?_, rfl, ?_⟩
    · cases place <;> simp <;> omega
    · intro other
      dsimp only
      split
      · exact hle
      · exact hmax other
  · cases hcount

theorem LogRecord.attributes_count (record : LogRecord) : record.attributes.length ≤ 4096 := by
  obtain ⟨v, hv⟩ := record.accepted
  obtain ⟨v₁, hbody, hafter⟩ := bind_ok hv
  obtain ⟨v₂, hattrs, -⟩ := bind_ok hafter
  obtain ⟨hoccs, hmax⟩ := addDecoded_ok hbody
  have hstart : ([] : List StoredLogAttribute).length ≤ v₁.occurrences ∧ v₁.maximumOccurrences = 1024 ∧
      ∀ other, v₁.occurrencesByNamespace other ≤ v₁.maximumOccurrences := by
    refine ⟨Nat.zero_le _, hmax, fun other => ?_⟩
    rw [hoccs]
    exact Nat.zero_le _
  have hend := foldlM_invariant (fun (seen : List StoredLogAttribute) (v : NativeRecordValidator) =>
    seen.length ≤ v.occurrences ∧ v.maximumOccurrences = 1024 ∧
      ∀ other, v.occurrencesByNamespace other ≤ v.maximumOccurrences) ?_ hstart hattrs
  · obtain ⟨hlength, hmax, hbounds⟩ := hend
    have hstream := hbounds .stream
    have hresource := hbounds .resource
    have hscope := hbounds .instrumentationScope
    have hrec := hbounds .record
    simp only [nil_append, occurrences] at hlength
    omega
  · intro seen stored v v' hinv hstep
    obtain ⟨hlength, hmax, hbounds⟩ := hinv
    obtain ⟨hcount, hmax', hbounds'⟩ := observeAttribute_ok hstep hbounds
    have hnonempty := length_pos_iff.mpr stored.occurrences.fits.nonempty
    refine ⟨?_, hmax'.trans hmax, hbounds'⟩
    rw [length_append, length_singleton]
    omega

theorem encodeRecord_written {stored : StoredLogRecord} {length : Nat}
    (h : encodedRecordLength release1Limits.nestingDepth.1 stored.record = .ok length) :
    Puts (encodeRecord release1Limits.nestingDepth.1 stored) (recordLayout stored) ∧
      (recordLayout stored).length = length := by
  obtain ⟨-, hafter⟩ := after_boundedAdd h
  obtain ⟨hmeta, hafter⟩ := after_boundedAdd hafter
  obtain ⟨-, hafter⟩ := after_boundedAdd hafter
  obtain ⟨bytes₄, hbody, hafter⟩ := bind_ok hafter
  obtain ⟨-, hafter⟩ := after_boundedAdd hafter
  obtain ⟨bytes₆, hattrs, hafter⟩ := bind_ok hafter
  obtain ⟨-, hafter⟩ := after_boundedAdd hafter
  obtain ⟨hputsBody, hlenBody⟩ := encodeBody_written hbody
  obtain ⟨hputsAttrs, hlenAttrs⟩ := encodeAttributes_written hattrs
  have hlenRules := addRuleLengths hafter
  have hcount := stored.record.attributes_count
  have htexts : metadataDecodedSizeBytes stored.record.metadata ≤ maxBlockBytes := by
    unfold metadataEncodedLength at hmeta
    omega
  constructor
  · exact ((puts_put _).bind (puts_put _)).bind
      ((puts_putOption fun time _ => (puts_put _).bind (puts_put _)).bind ((puts_encodeMetadata htexts).bind
      ((puts_put _).bind (hputsBody.bind ((puts_putCount _ (by omega)).bind (hputsAttrs.bind
      (puts_encodePolicy _ _)))))))
  · simp only [recordLayout, CheckedProvenance.layout, length_append, eventTimeLayout_length,
      observedTimeLayout_length, metadataLayout_length, i64Bytes_length, beBytes_length,
      stored.record.policy.digest.2]
    omega

theorem encodeRecords_written
    (h : (records.map StoredLogRecord.record).foldlM addRecordLength total = .ok length) :
    Puts (putEach (encodeRecord release1Limits.nestingDepth.1) records) (records.flatMap recordLayout) ∧
      total + (records.flatMap recordLayout).length = length := by
  rw [foldlM_map] at h
  refine (foldlM_counts (fun stored _ total length hstored => ?_) h).imp_left puts_putEach
  obtain ⟨bytes, hbytes, htotal⟩ := bind_ok hstored
  obtain ⟨-, rfl⟩ := boundedAdd_ok_iff.mp htotal
  obtain ⟨hputs, rfl⟩ := encodeRecord_written hbytes
  exact ⟨hputs, rfl⟩

theorem encodeBlock_written (tenant : TenantId) {length : Nat}
    (h : encodedBlockLength (records.map StoredLogRecord.record) = .ok length) :
    encodeBlock tenant records length = .ok (blockLayout tenant records) ∧
      (blockLayout tenant records).length = length ∧ records ≠ [] ∧ records.length ≤ 1024 := by
  obtain ⟨_, hdemand, hafter⟩ := bind_ok h
  obtain ⟨hnonempty, hcount⟩ := demand_eq_ok_iff.mp hdemand
  rw [length_map] at hcount
  have hnonempty : records ≠ [] := fun hnil => hnonempty (by rw [hnil]; rfl)
  obtain ⟨hputs, hlength⟩ := encodeRecords_written hafter
  have hword : records.length < 2 ^ 16 := lt_of_le_of_lt hcount (by decide)
  have hrun : encodeRecords tenant records [] = .ok (⟨⟩, blockLayout tenant records) :=
    ((puts_put magic).bind ((puts_put _).bind ((puts_put _).bind ((puts_putCount _ hword).bind hputs)))) []
  have hblock : (blockLayout tenant records).length = length := by
    have hmagic : magic.length = 8 := by decide
    simp only [blockLayout, length_append, hmagic, beBytes_length, Identifier.toBytes_length]
    omega
  refine ⟨?_, hblock, hnonempty, hcount⟩
  unfold encodeBlock
  rw [demand_bind ⟨hnonempty, hcount⟩, bind_eq_of_ok hrun]
  exact demand_bind hblock _ _

end Writing

section Reading

variable {v v' : NativeRecordValidator}

theorem NativeRecordValidator.addDecoded_le {bytes : Nat}
    (h : v.addDecoded bytes = .ok v') : bytes ≤ v.decodedLimit ∧ v'.decodedLimit = v.decodedLimit := by
  unfold addDecoded at h
  split at h
  · cases h
    exact ⟨by omega, rfl⟩
  · cases h

theorem NativeRecordValidator.observeAttribute_limit {place : AttributeNamespace} {keyBytes count bytes : Nat}
    (h : v.observeAttribute place keyBytes count bytes = .ok v') : v'.decodedLimit = v.decodedLimit := by
  obtain ⟨v₁, hcount, hafter⟩ := bind_ok h
  obtain ⟨v₂, hkey, hafter⟩ := bind_ok hafter
  rw [(addDecoded_le hafter).2, (addDecoded_le hkey).2]
  unfold countOccurrences at hcount
  split at hcount
  · cases hcount
    rfl
  · cases hcount

theorem LogRecord.metadata_size (record : LogRecord) :
    metadataDecodedSizeBytes record.metadata ≤ CodecLimits.release1.recordBytes := by
  obtain ⟨v, hv⟩ := record.accepted
  obtain ⟨v₁, hbody, hafter⟩ := bind_ok hv
  obtain ⟨v₂, hattrs, hmeta⟩ := bind_ok hafter
  have hlimit := foldlM_keeps (fun v : NativeRecordValidator => v.decodedLimit = v₁.decodedLimit)
    (fun stored v v' hinv hstep => (observeAttribute_limit hstep).trans hinv) rfl hattrs
  have hle := (addDecoded_le hmeta).1
  rw [hlimit, (addDecoded_le hbody).2] at hle
  exact hle

/-- An event time whose bytes hold it: one that is missing, or a received instant. -/
def EventTime.inRange : EventTime → Bool
  | .outOfRange _ _ => false
  | _ => true

theorem reads_decodeEventTime {time : EventTime} (h : EventTime.inRange time) :
    Reads decodeEventTime (eventTimeLayout time) time := by
  cases time with
  | missing =>
    refine (reads_takeU8 _ _).bind ?_
    exact .check_bind rfl (.pure _)
  | received instant quality valid =>
    refine (reads_takeU8 _ _).bind ?_
    rw [decodeQuality_tag]
    change Reads (if quality = .missing then _ else _) (i64Bytes instant) _
    rw [if_neg (EventTime.quality_ne_missing valid)]
    have hnew : orFail (EventTime.newReceived instant quality) malformedBlock =
        .ok (.received instant quality valid) := by
      rw [EventTime.newReceived_valid valid]
      rfl
    exact (reads_takeI64 _ instant).last (.check hnew)
  | outOfRange value above => cases h

theorem reads_decodeObservedTime (time : ObservedTime) :
    Reads decodeObservedTime (observedTimeLayout time) time := by
  refine (reads_takeU8 _ _).bind ?_
  rw [decodeQuality_tag]
  refine .check_bind rfl ((reads_takeI64 _ time.instant).last ?_)
  rw [ObservedTime.received_valid]
  exact .check rfl

theorem reads_decodeFields {metadata : LogMetadata}
    (h : metadataDecodedSizeBytes metadata ≤ CodecLimits.release1.recordBytes) :
    Reads (decodeFields CodecLimits.release1) (metadataLayout metadata) metadata := by
  simp only [metadataDecodedSizeBytes, metadataTexts, map_cons, map_nil, sum_cons, sum_nil] at h
  have htext : ∀ text : String, (utf8 text).length ≤ CodecLimits.release1.recordBytes →
      Reads (takeText malformedBlock CodecLimits.release1.recordBytes) (sized (utf8 text)) text :=
    fun text hle => reads_takeText _ (lt_of_le_of_lt hle (by decide)) hle
  have hid : ∀ {n : Nat} (id : Option (FixedBytes n)),
      Reads (takeOption malformedBlock (takeArray .malformedBlock n)) (flagged Subtype.val id) id :=
    fun id => reads_takeOption _ fun a _ => reads_takeArray _ a
  exact (reads_takeI32 _ _).bind ((htext _ (by omega)).bind ((htext _ (by omega)).bind ((hid _).bind
    ((hid _).bind ((reads_takeU32 _ _).bind ((reads_takeU32 _ _).bind ((reads_takeU32 _ _).bind
    ((htext _ (by omega)).bind ((htext _ (by omega)).bind ((htext _ (by omega)).bind ((reads_takeU32 _ _).bind
    ((htext _ (by omega)).last (.pure _)))))))))))))

theorem reads_decodeMetadata (record : LogRecord) :
    Reads (decodeMetadata CodecLimits.release1 markerVersion) (metadataLayout record.metadata) record.metadata := by
  exact reads_decodeFields record.metadata_size

theorem LogBody.validate_value (body : LogBody) : LogBody.validate body.value = some body := by
  obtain ⟨size, hsize⟩ := body.validated
  unfold LogBody.validate
  split
  · rfl
  · rename_i e he
    rw [hsize] at he
    cases he

theorem reads_decodeBody (body : Option LogBody) : Reads (decodeBody CodecLimits.release1 markerVersion)
      (flagged (fun body : LogBody => body.value.layout) body) body := by
  apply reads_takeOption
  intro body _
  apply (reads_takeValue (by decide) (LogBody.fits body)).last
  rw [LogBody.validate_value]
  exact .check rfl

theorem reads_decodeAttribute (stored : StoredLogAttribute) :
    Reads (decodeAttribute CodecLimits.release1 markerVersion) (attributeLayout stored) stored := by
  have hfits := stored.occurrences.fits
  have hcount : stored.occurrences.occurrences.length < 2 ^ 16 := lt_of_le_of_lt hfits.count (by decide)
  have hnonempty : stored.occurrences.occurrences.length ≠ 0 :=
    fun hzero => hfits.nonempty (eq_nil_of_length_eq_zero hzero)
  have hrepr : decodeRepresentation (representationTag stored.representation) =
      some stored.representation := by
    cases stored.representation <;> rfl
  have hplace : decodeNamespace (namespaceTag stored.occurrences.attributeNamespace) markerVersion =
      some stored.occurrences.attributeNamespace := by
    cases stored.occurrences.attributeNamespace <;> rfl
  have hvals : Reads (takeMany (takeValue CodecLimits.release1 markerVersion CodecLimits.release1.valueBytes)
      stored.occurrences.occurrences.length) (layoutValues stored.occurrences.occurrences)
      stored.occurrences.occurrences := by
    rw [layoutValues_eq]
    exact reads_takeMany fun value hmem =>
      reads_takeValue (by decide) (AttributeOccurrenceSet.values_fit stored.occurrences value hmem)
  refine (reads_takeU8 _ _).bind ?_
  rw [hrepr]
  refine .check_bind rfl ((reads_takeU8 _ _).bind ?_)
  rw [hplace]
  refine .check_bind rfl ((reads_takeKey hfits.keyNonempty hfits.keyBytes).bind
    ((reads_takeCount _ hcount hfits.count).bind (.check_bind (demand_of hnonempty _) (hvals.last ?_))))
  rw [AttributeOccurrenceSet.validate_self]
  exact .check_bind rfl (.pure stored)

theorem reads_decodeCheckedPolicy (policy : CheckedProvenance) :
    Reads decodeCheckedPolicy policy.layout policy := by
  refine (reads_takeParts _ policy).last (.check_bind (demand_of policy.valid _) ?_)
  rw [CheckedProvenance.new_parts]
  exact .check rfl

/-- The records that the decoder reads back. -/
structure Readable (record : LogRecord) : Prop where
  eventTime : EventTime.inRange record.eventTime
  attributes : record.attributes.length ≤ CodecLimits.release1.attributeGroups

theorem reads_decodeRecord {stored : StoredLogRecord} (h : Readable stored.record) :
    Reads (decodeRecord CodecLimits.release1 markerVersion) (recordLayout stored)
      (stored.record, stored.ingestTime) := by
  have hcount : stored.record.attributes.length < 2 ^ 16 := lt_of_le_of_lt h.attributes (by decide)
  have hattrs : Reads (decodeAttributes CodecLimits.release1 markerVersion)
      (beBytes 2 stored.record.attributes.length ++ stored.record.attributes.flatMap attributeLayout)
      stored.record.attributes :=
    (reads_takeCount _ hcount h.attributes).bind (reads_takeMany fun stored _ => reads_decodeAttribute stored)
  have hchecked : checkedAsDecoded stored.record.toNativeParts = .ok stored.record := by
    rw [checkedAsDecoded, LogRecord.checkedNative_parts]
    rfl
  exact (reads_decodeEventTime h.eventTime).bind
    ((reads_takeOption _ fun time _ => reads_decodeObservedTime time).bind
    ((reads_decodeMetadata stored.record).bind ((reads_takeI64 _ _).bind
    ((reads_decodeBody stored.record.body).bind (hattrs.bind ((reads_decodeCheckedPolicy _).last
    (.check_bind hchecked (.pure _))))))))

end Reading

section Results

variable {limits : CodecLimits} {version : Nat}

theorem yields_decodeEventTime : Yields decodeEventTime fun time => EventTime.inRange time := by
  refine .after fun tag => .after fun quality => ?_
  split
  · exact yields_pure rfl
  · refine .after fun instant => yields_check fun time hnew => ?_
    unfold EventTime.newReceived at hnew
    split at hnew
    · cases hnew
      rfl
    · cases hnew

theorem yields_decodeAttributes :
    Yields (decodeAttributes limits version) fun attributes => attributes.length ≤ limits.attributeGroups := by
  refine (yields_takeCount _ _).bind fun count hcount => ?_
  intro bytes attributes rest hrun
  rw [(yields_takeMany (yields_true _) count bytes attributes rest hrun).1]
  exact hcount

theorem checkedNative_toNativeParts {parts : NativeParts} {record : LogRecord}
    (h : checkedAsDecoded parts = .ok record) : record.toNativeParts = parts := by
  unfold checkedAsDecoded LogRecord.checkedNative at h
  split at h
  · cases h
    rfl
  · cases h

/-- Whatever bytes it is given, the decoder returns readable records only. -/
theorem yields_decodeRecord :
    Yields (decodeRecord CodecLimits.release1 version) fun decoded => Readable decoded.1 := by
  refine yields_decodeEventTime.bind fun eventTime htime => .after fun observedTime => .after fun metadata =>
    .after fun ingestTime => .after fun body => yields_decodeAttributes.bind fun attributes hattributes =>
    .after fun policy => (yields_check fun record hchecked => ?_).bind fun record hreadable => yields_pure hreadable
  have hparts := checkedNative_toNativeParts hchecked
  refine ⟨?_, ?_⟩
  · rw [hparts]
    exact htime
  · rw [hparts]
    exact hattributes

theorem decodeBlock_readable {tenant : TenantId} {block : CommittedBlock} {limit : Nat}
    {records : List StoredLogRecord} (h : decodeBlock tenant block limit = .ok records) :
    ∀ stored ∈ records, Readable stored.record := by
  have hstored : ∀ version, Yields (decodeStored block version) fun stored => Readable stored.record := by
    intro version
    exact yields_decodeRecord.bind fun decoded hreadable => .after fun _ => yields_pure hreadable
  have hrecords : Yields (decodeRecords tenant block 0 limit)
      fun records => ∀ stored ∈ records, Readable stored.record := by
    refine .after fun header => .after fun _ => (yields_takeMany (hstored header.1) _).bind fun records hall => ?_
    exact .after fun _ => .after fun _ => yields_pure hall.2
  obtain ⟨rest, hrun⟩ := decode_ok_iff.mp h
  exact hrecords _ _ _ hrun

end Results

section Blocks

variable {block : CommittedBlock}

theorem reads_decodeBlockHeader (tenant : TenantId) (count : Nat) (hcount : count ≤ 1024) (hnonzero : count ≠ 0) :
    Reads (decodeBlockHeader tenant)
      (magic ++ (beBytes 2 markerVersion ++ (tenant.id.toBytes ++ beBytes 2 count))) (markerVersion, count) := by
  have hword : count < 2 ^ 16 := by omega
  have hver : Reads (takeU16 malformedBlock) (beBytes 2 markerVersion)
      (⟨markerVersion, by decide⟩ : U16) := reads_takeU16 _ ⟨markerVersion, by decide⟩
  exact .bind (fun rest => take_append rfl rest) (.check_bind (demand_of rfl _)
    (hver.bind (.check_bind (demand_of (.inr (.inr rfl)) _)
    (.bind (fun rest => take_append tenant.id.toBytes_length rest) (.check_bind (demand_of rfl _)
    ((reads_takeCount _ hword hcount).last (.check_bind (demand_of hnonzero _) (.pure _))))))))

theorem reads_decodeStored {stored : StoredLogRecord} (h : Readable stored.record)
    (hingest : confirmedTime block stored.ingestTime = .ok stored.ingestTime) :
    Reads (decodeStored block markerVersion) (recordLayout stored) stored :=
  (reads_decodeRecord h).last (.check_bind hingest (.pure stored))

theorem confirmedTime_ok {time : IngestTime}
    (h : block.blockRetention = .complete time ∨ block.blockRetention = .unavailable) :
    confirmedTime block time = .ok time := by
  rw [confirmedTime, CommittedBlock.observeIngestTime_ok h]
  rfl

theorem decodeBlock_layout {tenant : TenantId} {records : List StoredLogRecord} {limit : Nat}
    (hpayload : block.payload = blockLayout tenant records) (hnonempty : records ≠ [])
    (hcount : records.length ≤ 1024) (hlimit : records.length ≤ limit)
    (hreadable : ∀ stored ∈ records, Readable stored.record)
    (hingest : ∀ stored ∈ records, confirmedTime block stored.ingestTime = .ok stored.ingestTime) :
    decodeBlock tenant block limit = .ok records := by
  have hnonzero : records.length ≠ 0 := fun hzero => hnonempty (eq_nil_of_length_eq_zero hzero)
  have hrecs : Reads (takeMany (decodeStored block markerVersion) records.length)
      (records.flatMap recordLayout) records :=
    reads_takeMany fun stored hmem => reads_decodeStored (hreadable stored hmem) (hingest stored hmem)
  have hblock : blockLayout tenant records =
      (magic ++ (beBytes 2 markerVersion ++ (tenant.id.toBytes ++ beBytes 2 records.length))) ++
        (records.flatMap recordLayout ++ []) := by
    simp only [blockLayout, append_assoc, append_nil]
  have hall : min (records.length - min 0 records.length) limit = records.length := by omega
  have htail : records.length - (min 0 records.length + records.length) = 0 := by omega
  rw [decodeBlock, decode, hpayload, hblock, decodeRecords,
    bind_of_ok (reads_decodeBlockHeader tenant _ hcount hnonzero _)]
  dsimp only
  rw [hall, htail, bind_of_ok (a := []) rfl, bind_of_ok (hrecs [])]
  rfl

/-- A block is written with the length that was found for it, and it is read back whole exactly when all its
records are readable. -/
theorem log_block_round_trip (tenant : TenantId) (ingestTime : IngestTime) (records : List LogRecord)
    (retention : SegmentRetention) (length limit : Nat) (hlength : encodedBlockLength records = .ok length)
    (hlimit : records.length ≤ limit) (hretention : retention = .complete ingestTime ∨ retention = .unavailable) :
    ∃ bytes, encodeBlock tenant (records.map fun record => ⟨record, ingestTime⟩) length = .ok bytes ∧
      bytes.length = length ∧
      (decodeBlock tenant ⟨bytes, retention⟩ limit = .ok (records.map fun record => ⟨record, ingestTime⟩) ↔
        ∀ record ∈ records, Readable record) := by
  have hrecs : (records.map fun record => (⟨record, ingestTime⟩ : StoredLogRecord)).map
      StoredLogRecord.record = records := by
    rw [map_map]
    exact map_id records
  rw [← hrecs] at hlength
  obtain ⟨hencode, hbytes, hnonempty, hcount⟩ := encodeBlock_written tenant hlength
  refine ⟨_, hencode, hbytes, fun hdecode record hmem => ?_, fun hreadable => ?_⟩
  · exact decodeBlock_readable hdecode ⟨record, ingestTime⟩ (mem_map.mpr ⟨record, hmem, rfl⟩)
  · apply decodeBlock_layout rfl hnonempty hcount
    · rwa [length_map]
    · intro stored hmem
      obtain ⟨record, hrec, rfl⟩ := mem_map.mp hmem
      exact hreadable record hrec
    · intro stored hmem
      obtain ⟨record, -, rfl⟩ := mem_map.mp hmem
      exact confirmedTime_ok hretention

def sampleProvenance : CheckedProvenance where
  generation := Unsigned.wrap 64 1
  digest := ⟨List.replicate 32 7, rfl⟩
  appliedRules := []
  valid := by decide

def bareRecord : LogRecord where
  eventTime := .missing
  observedTime := none
  body := none
  attributes := []
  metadata := emptyMetadata
  policy := sampleProvenance
  accepted := ⟨_, rfl⟩

theorem exists_ok {ε α : Type} {x : Except ε α} (h : x.toOption.isSome = true) : ∃ a, x = .ok a := by
  cases x with
  | error e => cases h
  | ok a => exact ⟨a, rfl⟩

/-- A list with a list in it, a redacted entry and a truncated one. -/
def nestedValue : AttributeValue :=
  .keyValueList [
    ("user", .array [.string "ana", .signedInteger ⟨-3, by decide⟩, .floatingPointBits (Unsigned.wrap 64 9)]),
    ("secret", .marker ⟨.string, .redacted⟩), ("page", .truncated (.bytes [1, 2, 3]) .truncatedBytes),
    ("empty", .null)]

def nestedBody : LogBody := ⟨nestedValue, exists_ok (by decide +kernel)⟩

def detailedParts : NativeParts where
  eventTime := .received ⟨1700, by decide⟩ .usable (by decide)
  observedTime := some ⟨⟨1800, by decide⟩, .outlier, by decide⟩
  body := some nestedBody
  attributes := [
    ⟨.schemaOverflow, .resource, "host", [.string "a", nestedValue], validateOccurrences_ok_iff.mp (by decide +kernel)⟩,
    ⟨.generic, .stream, "job", [.boolean true], validateOccurrences_ok_iff.mp (by decide +kernel)⟩]
  metadata := { emptyMetadata with severityText := "warn", traceId := some ⟨List.replicate 16 5, rfl⟩ }
  policy := ⟨⟨Unsigned.wrap 64 2, ⟨List.replicate 32 8, rfl⟩, ["mask-secret"]⟩, by decide +kernel⟩

def detailedRecord : LogRecord := ⟨detailedParts, exists_ok (by decide +kernel)⟩

theorem detailed_block_round_trip : ∃ bytes, encodeBlock sample.tenant
      [⟨detailedRecord, I64.zero⟩, ⟨bareRecord, I64.zero⟩] 477 = .ok bytes ∧ bytes.length = 477 ∧
      decodeBlock sample.tenant ⟨bytes, .complete I64.zero⟩ 2 =
        .ok [⟨detailedRecord, I64.zero⟩, ⟨bareRecord, I64.zero⟩] := by
  obtain ⟨bytes, hencode, hlength, hdecode⟩ := log_block_round_trip sample.tenant I64.zero
    [detailedRecord, bareRecord] (.complete I64.zero) 477 2 (by decide +kernel) (by decide) (.inl rfl)
  refine ⟨bytes, hencode, hlength, hdecode.mpr fun record hmem => ?_⟩
  rcases mem_cons.mp hmem with rfl | hmem
  · exact ⟨rfl, by decide⟩
  · obtain rfl := mem_singleton.mp hmem
    exact ⟨rfl, by decide⟩

section Crowded

variable {stored : StoredLogRecord}

/-- A count of attributes beyond the decoder's maximum makes a record unreadable. -/
theorem decodeRecord_crowded (htime : EventTime.inRange stored.record.eventTime)
    (hcrowded : CodecLimits.release1.attributeGroups < stored.record.attributes.length) (rest : Bytes) :
    decodeRecord CodecLimits.release1 markerVersion (recordLayout stored ++ rest) = .error .malformedBlock := by
  have hcount := stored.record.attributes_count
  have htotal := takeCount_above malformedBlock (by omega) hcrowded
    (stored.record.attributes.flatMap attributeLayout ++ (stored.record.policy.layout ++ rest))
  have hattrs := bind_of_error htotal (takeMany (decodeAttribute CodecLimits.release1 markerVersion))
  simp only [recordLayout, append_assoc]
  rw [decodeRecord, bind_of_ok (reads_decodeEventTime htime _),
    bind_of_ok (reads_takeOption _ (fun time _ => reads_decodeObservedTime time) _),
    bind_of_ok (reads_decodeMetadata stored.record _), bind_of_ok (reads_takeI64 _ _ _),
    bind_of_ok (reads_decodeBody stored.record.body _)]
  exact bind_of_error hattrs _

theorem decodeBlock_crowded {tenant : TenantId} {block : CommittedBlock}
    {records : List StoredLogRecord} {limit : Nat} (hpayload : block.payload = blockLayout tenant (stored :: records))
    (hcount : (stored :: records).length ≤ 1024) (hlimit : 1 ≤ limit)
    (htime : EventTime.inRange stored.record.eventTime)
    (hcrowded : CodecLimits.release1.attributeGroups < stored.record.attributes.length) :
    decodeBlock tenant block limit = .error .malformedBlock := by
  have hheader := reads_decodeBlockHeader tenant _ hcount (Nat.succ_ne_zero records.length)
    (recordLayout stored ++ records.flatMap recordLayout)
  have hstored := bind_of_error (decodeRecord_crowded htime hcrowded (records.flatMap recordLayout))
    (fun p => do
      let ingestTime ← check (confirmedTime block p.2)
      return (⟨p.1, ingestTime⟩ : StoredLogRecord))
  have hblock : blockLayout tenant (stored :: records) =
      (magic ++ (beBytes 2 markerVersion ++ (tenant.id.toBytes ++ beBytes 2 (stored :: records).length))) ++
        (recordLayout stored ++ records.flatMap recordLayout) := by
    simp only [blockLayout, append_assoc, flatMap_cons]
  obtain ⟨others, hothers⟩ : ∃ others,
      min ((stored :: records).length - min 0 (stored :: records).length) limit = others + 1 :=
    ⟨min records.length (limit - 1), by rw [length_cons]; omega⟩
  have hmany : takeMany (decodeStored block markerVersion) (others + 1)
      (recordLayout stored ++ records.flatMap recordLayout) = .error .malformedBlock := by
    exact bind_of_error hstored _
  rw [decodeBlock, decode, hpayload, hblock, decodeRecords, bind_of_ok hheader]
  dsimp only
  rw [hothers, bind_of_ok (a := []) rfl, bind_of_error hmany]
  rfl

def nullAttribute (place : AttributeNamespace) : StoredLogAttribute where
  representation := .generic
  occurrences := ⟨place, "a", [.null], validateOccurrences_ok_iff.mp (by decide +kernel)⟩

def crowdedAttributes : List StoredLogAttribute :=
  List.replicate 1024 (nullAttribute .stream) ++ (List.replicate 1024 (nullAttribute .resource) ++
    (List.replicate 1024 (nullAttribute .instrumentationScope) ++ List.replicate 1024 (nullAttribute .record)))

def StoredLogAttribute.countIn (place : AttributeNamespace) (stored : StoredLogAttribute) : Nat :=
  if place = stored.occurrences.attributeNamespace then stored.occurrences.occurrences.length else 0

def StoredLogAttribute.bytes (stored : StoredLogAttribute) : Nat :=
  (utf8 stored.occurrences.key).length + stored.occurrenceBytes

/-- Attributes within the counts of their namespaces and the bytes of a record pass the check. -/
theorem observe_within (attributes : List StoredLogAttribute) : ∀ v : NativeRecordValidator,
    (∀ place, v.occurrencesByNamespace place + (attributes.map (·.countIn place)).sum ≤ v.maximumOccurrences) →
    v.decodedBytes + (attributes.map (·.bytes)).sum ≤ v.decodedLimit →
    ∃ v', attributes.foldlM observeStored v = .ok v' ∧
      v'.decodedBytes = v.decodedBytes + (attributes.map (·.bytes)).sum ∧ v'.decodedLimit = v.decodedLimit := by
  induction attributes with
  | nil => exact fun v _ _ => ⟨v, rfl, rfl, rfl⟩
  | cons stored attributes ih =>
    intro v hcounts hbytes
    simp only [map_cons, sum_cons] at hcounts hbytes ⊢
    have hplace := hcounts stored.occurrences.attributeNamespace
    rw [StoredLogAttribute.countIn, if_pos rfl] at hplace
    have hstored : stored.bytes = (utf8 stored.occurrences.key).length + stored.occurrenceBytes := rfl
    rw [foldlM_cons, observeStored, observeAttribute, countOccurrences, if_pos (by omega)]
    dsimp only [Bind.bind, Except.bind]
    rw [addDecoded, if_pos (by dsimp only; omega)]
    dsimp only
    rw [addDecoded, if_pos (by dsimp only; omega)]
    have hnext : ∀ place, (if place = stored.occurrences.attributeNamespace then
        v.occurrencesByNamespace stored.occurrences.attributeNamespace + stored.occurrences.occurrences.length
        else v.occurrencesByNamespace place) + (attributes.map (·.countIn place)).sum ≤ v.maximumOccurrences := by
      intro place
      have hcount := hcounts place
      rw [StoredLogAttribute.countIn] at hcount
      split_ifs at hcount ⊢ with hsame
      · subst hsame
        omega
      · omega
    obtain ⟨v', hrun, hsum, hlimit⟩ := ih ⟨_, v.decodedLimit, v.decodedBytes +
      (utf8 stored.occurrences.key).length + stored.occurrenceBytes, _⟩ hnext (by dsimp only; omega)
    refine ⟨v', hrun, ?_, hlimit⟩
    rw [hsum, hstored]
    dsimp only
    omega

theorem crowded_accepted : ∃ v,
    observeNative release1Limits { bareRecord.toNativeParts with attributes := crowdedAttributes } = .ok v := by
  have hstart : (new release1Limits).observeBody 0 = .ok (new release1Limits) := rfl
  obtain ⟨v, hattrs, hbytes, hlimit⟩ := observe_within crowdedAttributes (new release1Limits)
    (fun place => by cases place <;> decide +kernel) (by decide +kernel)
  have hsum : (crowdedAttributes.map (·.bytes)).sum = 4096 := by decide +kernel
  refine ⟨{ v with decodedBytes := v.decodedBytes + 0 }, ?_⟩
  change ((new release1Limits).observeBody 0 >>= fun v => _) = _
  rw [bind_eq_of_ok hstart, bind_eq_of_ok hattrs]
  refine if_pos ?_
  rw [hbytes, hsum, hlimit]
  decide +kernel

/-- A record with as many attributes as validation lets into each of the four namespaces. -/
def crowdedRecord : LogRecord where
  toNativeParts := { bareRecord.toNativeParts with attributes := crowdedAttributes }
  accepted := crowded_accepted

theorem crowded_length : encodedRecordLength release1Limits.nestingDepth.1 crowdedRecord = .ok 41061 := by
  decide +kernel

theorem crowded_count : CodecLimits.release1.attributeGroups < crowdedRecord.attributes.length := by
  change 3072 < crowdedAttributes.length
  rw [crowdedAttributes]
  simp only [length_append, length_replicate]
  omega

/-- Its block is written, and no read of it succeeds. -/
theorem crowded_block_unreadable : ∃ bytes, encodedBlockLength [crowdedRecord] = .ok bytes.length ∧
      encodeBlock sample.tenant [⟨crowdedRecord, I64.zero⟩] bytes.length = .ok bytes ∧
      ∀ limit, 1 ≤ limit →
        decodeBlock sample.tenant ⟨bytes, .complete I64.zero⟩ limit = .error .malformedBlock := by
  have hlength : encodedBlockLength ([⟨crowdedRecord, I64.zero⟩].map StoredLogRecord.record) = .ok 41089 := by
    have hone : addRecordLength 28 crowdedRecord = .ok 41089 := by
      exact (bind_eq_of_ok crowded_length _).trans (boundedAdd_ok_iff.mpr ⟨by decide, rfl⟩)
    change encodedBlockLength [crowdedRecord] = _
    rw [encodedBlockLength, foldlM_cons, bind_eq_of_ok hone]
    rfl
  obtain ⟨hencode, hbytes, -, -⟩ := encodeBlock_written sample.tenant hlength
  refine ⟨blockLayout sample.tenant [⟨crowdedRecord, I64.zero⟩], ?_, ?_, ?_⟩
  · rw [hbytes]
    exact hlength
  · rw [hbytes]
    exact hencode
  · intro limit hlimit
    exact decodeBlock_crowded rfl (by decide) hlimit rfl crowded_count

end Crowded

def farRecord : LogRecord where
  toNativeParts := { bareRecord.toNativeParts with eventTime := .outOfRange (Unsigned.maxValue 64) (by decide) }
  accepted := ⟨_, rfl⟩

-- Only the quality of such a time is written, and the fields behind it are read as its instant.
example : (do
    let bytes ← encodeBlock sample.tenant [⟨farRecord, I64.zero⟩] 129
    let records ← decodeBlock sample.tenant ⟨bytes, .complete I64.zero⟩ 1
    return records.length) = Except.error .malformedBlock := by decide +kernel

end Blocks

end Positron.Logs
