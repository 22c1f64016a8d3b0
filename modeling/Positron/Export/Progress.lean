import Positron.Export.Output

/-! Through handles that carry the published descriptor, published progress never goes back. Which published batches
may be appended again. -/

namespace Positron.Export
open MachineInt ByteCodec Checks Triples Runs List Triple

section Payload

variable {payload : List PayloadRecord} {output : ExportOutput}

theorem PayloadRecord.durableBytes_pos (record : PayloadRecord) : 0 < record.durableBytes := by
  unfold PayloadRecord.durableBytes
  omega

theorem payloadBytes_append (first second : List PayloadRecord) :
    payloadBytes (first ++ second) = payloadBytes first + payloadBytes second := by
  simp [payloadBytes]

theorem eq_nil_of_payloadBytes (h : payloadBytes payload = 0) : payload = [] := by
  cases payload with
  | nil => rfl
  | cons record records =>
    have hpos := record.durableBytes_pos
    simp only [payloadBytes, map_cons, sum_cons] at h
    omega

theorem recordsFrom_take (count : Nat) (payload : List PayloadRecord) :
    recordsFrom (payloadBytes (payload.take count)) payload = some (payload.drop count) := by
  induction count generalizing payload with
  | zero =>
    unfold payloadBytes recordsFrom
    rfl
  | succ count ih =>
    cases payload with
    | nil => rfl
    | cons record records =>
      obtain ⟨before, hbefore⟩ := Nat.exists_eq_succ_of_ne_zero record.durableBytes_pos.ne'
      have hbytes : payloadBytes ((record :: records).take (count + 1)) =
          payloadBytes (records.take count) + before + 1 := by
        simp only [payloadBytes, take_succ_cons, map_cons, sum_cons, hbefore]
        omega
      rw [hbytes, recordsFrom, if_pos (by omega), drop_succ_cons, ← ih records]
      congr 1
      omega

/-- The descriptor counts all records of the file but at most the last, and every record can be opened in its
place. -/
structure Covers (output : ExportOutput) (payload : List PayloadRecord) : Prop where
  opened : ∀ place record, payload[place]? = some record →
    place < maxExportBatches ∧ record.sequence = place ∧ record.Decodes
  bytes : payloadBytes payload ≤ maxExportBytes
  counted : output.nextSequence ≤ payload.length ∧ payload.length ≤ output.nextSequence + 1
  retained : payloadBytes (payload.take output.nextSequence) = output.retainedBytes
  last : 0 < output.nextSequence →
    payload[output.nextSequence - 1]?.map PayloadRecord.digest = some output.lastDigest

theorem openRecords_ok (count : Nat) (h : ∀ place record, payload[place]? = some record →
    count + place < maxExportBatches ∧ record.sequence = count + place ∧ record.Decodes) :
    openRecords count payload = .ok ⟨⟩ := by
  induction payload generalizing count with
  | nil => rfl
  | cons record records ih =>
    obtain ⟨hcount, hseq, hdecodes⟩ := h 0 record rfl
    rw [Nat.add_zero] at hcount hseq
    rw [openRecords, demand_bind hcount, demand_bind hseq, demand_bind hdecodes]
    apply ih
    intro place later hlater
    have hplace := h (place + 1) later hlater
    rw [Nat.add_right_comm]
    exact hplace

theorem Covers.scanRecords (h : Covers output payload) : scanRecords payload output = .ok ⟨⟩ := by
  have hopened : openRecords 0 payload = .ok ⟨⟩ := by
    apply openRecords_ok
    intro place record hplace
    rw [Nat.zero_add]
    exact h.opened place record hplace
  have hretained : payload.length = output.nextSequence → payloadBytes payload = output.retainedBytes := by
    intro hlen
    rw [← h.retained, take_of_length_le hlen.le]
  unfold Export.scanRecords
  rw [demand_bind h.bytes, bind_eq_of_ok hopened, demand_bind h.counted, demand_bind hretained]
  exact demand_eq_ok_iff.mpr h.last

/-- Behind a covered file stands nothing, or the one record that does not count yet. -/
theorem Covers.inspectPayloadTail (h : Covers output payload) {orphan : Option PayloadRecord}
    (hinspect : inspectPayloadTail payload output = .ok orphan) :
    payload.drop output.nextSequence = orphan.toList ∧ payload.length = output.nextSequence + orphan.toList.length := by
  have hlen : payload.length = output.nextSequence + (payload.drop output.nextSequence).length := by
    have hcounted := h.counted.1
    rw [length_drop]
    omega
  suffices hdrop : payload.drop output.nextSequence = orphan.toList by
    rw [hdrop] at hlen
    exact ⟨hdrop, hlen⟩
  obtain ⟨_, _, hinspect⟩ := bind_ok hinspect
  split at hinspect
  · rename_i hbytes
    cases hinspect
    rw [← h.retained, ← payload.take_append_drop output.nextSequence, payloadBytes_append,
      take_left' (by rw [length_take]; exact Nat.min_eq_left h.counted.1)] at hbytes
    exact eq_nil_of_payloadBytes (by omega)
  · rw [← h.retained, recordsFrom_take] at hinspect
    split at hinspect
    · rename_i last hlast
      obtain ⟨_, _, hinspect⟩ := bind_ok hinspect
      obtain ⟨_, _, hinspect⟩ := bind_ok hinspect
      cases hinspect
      exact Option.some.inj hlast
    · cases hinspect

/-- A record behind a covered file, or the one that stands there already, comes to count. -/
theorem Covers.counting {self : ExportOutput} (h : Covers self payload) {extended : List PayloadRecord}
    (record : PayloadRecord) (hextended : extended = payload.take self.nextSequence ++ [record])
    (hopened : self.nextSequence < maxExportBatches ∧ record.sequence = self.nextSequence ∧ record.Decodes)
    (hbytes : payloadBytes extended ≤ maxExportBytes) (digestBytes : Bytes → FixedBytes 32) (evidence : Option Bytes) :
    Covers (self.counting digestBytes self.nextSequence (payloadBytes extended) record.digest evidence) extended := by
  have hlen : (payload.take self.nextSequence).length = self.nextSequence := by
    rw [length_take]
    exact Nat.min_eq_left h.counted.1
  have hall : extended.length = self.nextSequence + 1 := by
    rw [hextended, length_append, hlen]
    rfl
  refine ⟨?_, hbytes, ⟨hall.ge, hall.le.trans (Nat.le_succ _)⟩, ?_, fun _ => ?_⟩
  · intro place found hfound
    rw [hextended] at hfound
    rcases Nat.lt_trichotomy place self.nextSequence with hlt | rfl | hgt
    · rw [getElem?_append_left (by omega), getElem?_take_of_lt hlt] at hfound
      exact h.opened place found hfound
    · rw [getElem?_append_right hlen.le, hlen, Nat.sub_self] at hfound
      cases hfound
      exact hopened
    · rw [getElem?_eq_none (by rw [length_append, hlen]; exact hgt)] at hfound
      cases hfound
  · exact congrArg payloadBytes (take_of_length_le hall.le)
  · rw [hextended]
    change ((payload.take self.nextSequence ++ [record])[self.nextSequence]?).map _ = _
    rw [getElem?_append_right hlen.le, hlen, Nat.sub_self]
    rfl

theorem Covers.promoted {self : ExportOutput} (h : Covers self payload) {orphan : PayloadRecord}
    (horphan : Export.inspectPayloadTail payload self = .ok (some orphan)) (digestBytes : Bytes → FixedBytes 32)
    (evidence : Option Bytes) :
    Covers (self.counting digestBytes self.nextSequence (payloadBytes payload) orphan.digest evidence) payload := by
  have hdrop := (h.inspectPayloadTail horphan).1
  have hplace : payload[self.nextSequence]? = some orphan := by
    rw [← Nat.add_zero self.nextSequence, ← getElem?_drop, hdrop]
    rfl
  refine h.counting orphan ?_ (h.opened _ _ hplace) h.bytes digestBytes evidence
  exact (take_append_drop self.nextSequence payload).symm.trans (congrArg _ hdrop)

theorem Covers.behind {self counted : ExportOutput} {record : PayloadRecord} (h : Covers self payload)
    (hlen : payload.length = self.nextSequence) (hcounted : Covers counted (payload ++ [record])) :
    Covers self (payload ++ [record]) := by
  have hall : (payload ++ [record]).length = self.nextSequence + 1 := by
    rw [length_append, hlen]
    rfl
  refine ⟨hcounted.opened, hcounted.bytes, ⟨by omega, hall.le⟩, ?_, fun hpos => ?_⟩
  · rw [take_append_of_le_length hlen.ge]
    exact h.retained
  · rw [getElem?_append_left (by omega)]
    exact h.last hpos

theorem length_filtered_le (cursor : Option Bytes) :
    ((cursor.filter (· ≠ [])).getD []).length ≤ (cursor.getD []).length := by
  cases cursor with
  | none => exact Nat.le_refl _
  | some cursor =>
    cases cursor with
    | nil => exact Nat.le_refl _
    | cons byte bytes => exact Nat.le_refl _

end Payload

/-- What a later descriptor may not take back. -/
structure ExportOutput.Grows (earlier later : ExportOutput) : Prop where
  count : earlier.nextSequence ≤ later.nextSequence
  evidence : earlier.terminalEvidenceDigest ≠ zeroBytes 32 →
    later.terminalEvidenceDigest = earlier.terminalEvidenceDigest
  manifest : earlier.manifestDigest ≠ zeroBytes 32 → later.manifestDigest = earlier.manifestDigest

theorem ExportOutput.Grows.refl (output : ExportOutput) : output.Grows output :=
  ⟨Nat.le_refl _, fun _ => rfl, fun _ => rfl⟩

theorem ExportOutput.Grows.trans {first second third : ExportOutput} (h : first.Grows second)
    (h' : second.Grows third) : first.Grows third := by
  refine ⟨h.count.trans h'.count, fun hne => ?_, fun hne => ?_⟩
  · have hsame := h.evidence hne
    exact (h'.evidence (hsame.symm ▸ hne)).trans hsame
  · have hsame := h.manifest hne
    exact (h'.manifest (hsame.symm ▸ hne)).trans hsame

def Advanced (self : ExportOutput) (payload : List PayloadRecord) (w : World) : Prop :=
  ∃ output, w.published = some output ∧ Covers output w.payload ∧ self.Grows output ∧ payload <+: w.payload

section Calls

variable {self : ExportOutput} {payload : List PayloadRecord} {w : World} {a : Attempt}

/-- However the computation ends, nothing published is taken back. -/
abbrev Advances {α : Type} (self : ExportOutput) (payload : List PayloadRecord) (w : World) (m : ExportM α) : Prop :=
  Triple (· = w) m (fun _ => Advanced self payload) fun _ => Advanced self payload

theorem Advanced.same {w' : World} (h : Advanced self payload w) (hpublished : w'.published = w.published)
    (hpayload : w'.payload = w.payload) : Advanced self payload w' := by
  unfold Advanced
  rw [hpublished, hpayload]
  exact h

theorem Advanced.requires {α : Type} {c : Prop} [Decidable c] {code : ExportOutputFailureCode} {f : PUnit → ExportM α}
    (hw : Advanced self payload w) (h : c → Advances self payload w (f ⟨⟩)) :
    Advances self payload w (require c code >>= f) := bind_require h fun _ => hw

theorem Advanced.lifts {α β : Type} {x : Except ExportOutputFailureCode α} {f : α → ExportM β}
    (hw : Advanced self payload w) (h : ∀ result, x = .ok result → Advances self payload w (f result)) :
    Advances self payload w (ofExcept x >>= f) := bind_lift h fun _ _ => hw

theorem publishAs_advances {successor : ExportOutput} (hw : Advanced self payload w)
    (hcovers : Covers successor w.payload) (hgrows : self.Grows successor) (hfile : payload <+: w.payload) :
    Advances self payload w (publishAs a successor) := by
  have hdone : Advanced self payload { w with published := some successor } := ⟨successor, rfl, hcovers, hgrows, hfile⟩
  unfold publishAs publish
  rintro _ rfl
  cases a.publication with
  | committed => exact hdone
  | refused code => exact hw
  | unreported code => exact hdone

theorem publishAs_digests (h : Advanced self payload w) (hpublished : w.published = some self)
    {evidence manifest : FixedBytes 32}
    (hevid : self.terminalEvidenceDigest ≠ zeroBytes 32 → evidence = self.terminalEvidenceDigest)
    (hmanifest : self.manifestDigest ≠ zeroBytes 32 → manifest = self.manifestDigest) :
    Advances self payload w
      (publishAs a { self with terminalEvidenceDigest := evidence, manifestDigest := manifest }) := by
  obtain ⟨output, houtput, hcovers, _, hfile⟩ := id h
  cases hpublished.symm.trans houtput
  exact publishAs_advances h ⟨hcovers.opened, hcovers.bytes, hcovers.counted, hcovers.retained, hcovers.last⟩
    ⟨Nat.le_refl _, hevid, hmanifest⟩ hfile

theorem createTerminalEvidenceFile_same (evidence : Bytes) :
    Triple (· = w) (createTerminalEvidenceFile a evidence)
      (fun _ w' => w'.published = w.published ∧ w'.payload = w.payload)
      fun _ w' => w'.published = w.published ∧ w'.payload = w.payload := by
  apply bind_get
  split
  · exact .requires (fun _ _ h => h ▸ ⟨rfl, rfl⟩) fun _ _ h => h ▸ ⟨rfl, rfl⟩
  · apply bind_lift
    · exact fun _ _ => .changes fun _ h => h ▸ ⟨rfl, rfl⟩
    · exact fun _ _ => ⟨rfl, rfl⟩

variable {digestBytes : Bytes → FixedBytes 32}

theorem counting_grows {sequence bytes : Nat} {digest : FixedBytes 32} {evidence : Option Bytes}
    (hseq : self.nextSequence ≤ sequence) (hevid : evidence = none ∨ self.terminalEvidenceDigest = zeroBytes 32) :
    self.Grows (self.counting digestBytes sequence bytes digest evidence) := by
  refine ⟨Nat.le_succ_of_le hseq, fun hne => ?_, fun _ => rfl⟩
  rcases hevid with rfl | hzero
  · rfl
  · exact absurd hzero hne

theorem appendBatchWithReservation_advances (hpublished : w.published = some self) (hcovers : Covers self w.payload)
    {batch : Batch} (hseq : batch.sequence ≤ self.nextSequence)
    (hbatch : batch.bytes ≠ [] ∧ batch.bytes.length ≤ maxExportBatchBytes ∧ batch.digest ≠ zeroBytes 32 ∧
      (batch.continuationCursor.getD []).length ≤ maxContinuationCursorBytes) :
    Advances self w.payload w (appendBatchWithReservation digestBytes a self batch) := by
  have hstays : Advanced self w.payload w := ⟨self, hpublished, hcovers, .refl self, prefix_rfl⟩
  apply bind_get
  split
  · refine hstays.lifts fun _ _ => ?_
    refine hstays.lifts fun _ _ => ?_
    refine hstays.requires fun _ => ?_
    refine hstays.lifts fun _ _ => ?_
    exact hstays.requires fun _ => .pure_known hstays
  refine hstays.lifts fun orphan horphan => ?_
  have hlen := (hcovers.inspectPayloadTail horphan).2
  dsimp only
  split
  · refine hstays.lifts fun existing hexisting => ?_
    obtain rfl := orFail_eq_ok_iff.mp hexisting
    refine hstays.requires fun hrec => ?_
    refine hstays.lifts fun _ hevid => ?_
    refine hstays.requires fun _ => ?_
    obtain ⟨_, hzero, _⟩ := bind_ok hevid
    have hnext : batch.sequence = self.nextSequence := by omega
    rw [hnext, ← hrec.1]
    refine .bind ?_ fun _ => .returns fun _ h => h
    exact publishAs_advances hstays (hcovers.promoted horphan _ _)
      (counting_grows (Nat.le_refl _) (.inr (demand_eq_ok_iff.mp hzero))) prefix_rfl
  · refine hstays.requires fun hcount => ?_
    refine hstays.requires fun hevid => ?_
    obtain rfl : orphan = none := by
      cases orphan with
      | none => rfl
      | some orphan =>
        simp only [Option.toList_some, length_singleton] at hcount
        omega
    have hlen : w.payload.length = self.nextSequence := hlen
    have hnext : batch.sequence = self.nextSequence := hcount.1
    refine .bind (Q := fun _ w' => w'.published = w.published ∧ w'.payload = w.payload) ?_ fun _ w' hw' => ?_
    · cases batch.terminalEvidence with
      | none => exact .returns fun _ h => h ▸ ⟨rfl, rfl⟩
      | some evidence =>
        exact (createTerminalEvidenceFile_same evidence).weaken (fun _ h => h) (fun _ _ h => h)
          fun _ _ h => hstays.same h.1 h.2
    obtain ⟨hpub', hpayload'⟩ := hw'
    have hstays' := hstays.same hpub' hpayload'
    refine Triple.ends (P := (· = w')) ?_ rfl
    refine hstays'.requires fun hprot => ?_
    refine hstays'.requires fun hbytes => ?_
    refine hstays'.lifts fun _ _ => ?_
    apply bind_modify
    have hsum : payloadBytes (w.payload ++ [batch.record]) = payloadBytes w.payload + batch.record.durableBytes :=
      payloadBytes_append _ _
    have hcounted : Covers (self.counting digestBytes self.nextSequence (payloadBytes (w.payload ++ [batch.record]))
        batch.digest batch.terminalEvidence) (w.payload ++ [batch.record]) := by
      refine hcovers.counting batch.record ?_ ⟨hnext ▸ hcount.2, hnext, ⟨hprot, ?_, hbatch.1, hbatch.2.1,
        hbatch.2.2.1⟩⟩ (hsum ▸ hbytes) _ _
      · rw [take_of_length_le hlen.le]
      · exact (length_filtered_le _).trans hbatch.2.2.2
    rw [hnext, ← hsum]
    refine .bind ?_ fun _ => .returns fun _ h => h
    refine publishAs_advances ⟨self, hpub'.trans hpublished, ?_, .refl self, ?_⟩ ?_
      (counting_grows (Nat.le_refl _) (hevid.imp_right And.right)) ?_ <;> dsimp only <;> rw [hpayload']
    · exact hcovers.behind hlen hcounted
    · exact prefix_append _ _
    · exact hcounted
    · exact prefix_append _ _

theorem perform_advances (hpublished : w.published = some self) (hcovers : Covers self w.payload) {call : Call}
    (hcall : ∀ batch, call = .append batch → batch.sequence ≤ self.nextSequence) :
    Advances self w.payload w (perform digestBytes a self call) := by
  have hstays : Advanced self w.payload w := ⟨self, hpublished, hcovers, .refl self, prefix_rfl⟩
  cases call with
  | append batch =>
    apply Triple.maps
    refine hstays.requires fun _ => ?_
    refine hstays.requires fun hbatch => ?_
    refine .bind (Q := fun _ w' => w' = w) ?_ fun _ => ?_
    · cases batch.terminalEvidence with
      | none => exact .returns fun _ h => h
      | some evidence => exact .requires (fun _ _ h => h) fun _ _ h => h ▸ hstays
    refine hstays.lifts fun _ _ => ?_
    exact appendBatchWithReservation_advances hpublished hcovers (hcall batch rfl) hbatch
  | terminalEvidence evidence =>
    refine hstays.requires fun _ => ?_
    refine hstays.requires fun _ => ?_
    refine hstays.lifts fun _ _ => ?_
    split
    · refine hstays.requires fun _ => ?_
      apply bind_get
      refine hstays.lifts fun _ _ => ?_
      exact hstays.requires fun _ => .pure_known hstays
    · rename_i hzero
      refine .bind (Q := fun _ w' => w'.published = w.published ∧ w'.payload = w.payload) ?_ fun _ w' hw' => ?_
      · exact (createTerminalEvidenceFile_same evidence).weaken (fun _ h => h) (fun _ _ h => h)
          fun _ _ h => hstays.same h.1 h.2
      refine Triple.ends (P := (· = w'))
        (publishAs_digests (hstays.same hw'.1 hw'.2) (hw'.1.trans hpublished) ?_ ?_) rfl
      · exact fun hne => absurd (not_not.mp hzero) hne
      · exact fun _ => rfl
  | recoverTerminalOrphan =>
    refine hstays.requires fun _ => ?_
    refine hstays.lifts fun _ _ => ?_
    apply bind_get
    split
    · exact hstays.lifts fun _ _ => .pure_known hstays
    · rename_i hzero
      have hzero := not_not.mp hzero
      refine hstays.lifts fun orphan horphan => ?_
      split
      · split
        · exact publishAs_digests hstays hpublished (fun hne => absurd hzero hne) fun _ => rfl
        · exact .pure_known hstays
      · split
        · exact .pure_known hstays
        · exact publishAs_advances hstays (hcovers.promoted horphan _ _) (counting_grows (Nat.le_refl _) (.inr hzero))
            prefix_rfl
      · exact .pure_known hstays
  | manifest bytes =>
    refine hstays.requires fun _ => ?_
    refine hstays.requires fun _ => ?_
    refine hstays.lifts fun _ _ => ?_
    apply bind_get
    split
    · refine hstays.lifts fun _ _ => ?_
      refine hstays.requires fun _ => ?_
      exact hstays.requires fun _ => .pure_known hstays
    · rename_i hzero
      have hmanifest : self.manifestDigest ≠ zeroBytes 32 → digestBytes bytes = self.manifestDigest :=
        fun hne => absurd (not_not.mp hzero) hne
      split
      · refine hstays.requires fun _ => ?_
        exact publishAs_digests hstays hpublished (fun _ => rfl) hmanifest
      · refine hstays.lifts fun _ _ => ?_
        apply bind_modify
        have hstays' : Advanced self w.payload { w with manifest := some bytes } := hstays.same rfl rfl
        exact publishAs_digests hstays' hpublished (fun _ => rfl) hmanifest

end Calls

section Runs

/-- A call is made through a handle that carries the published descriptor, an append does not pass over a record that
does not count yet, and a creation is not kept from finding the output by a failure of the storage. -/
def Current (w : World) : Event → Prop
  | .create a _ => w.published = none ∨ a.refusal ≠ some .storageUnavailable
  | .call _ handle (.append batch) =>
    w.handles[handle]? = w.published ∧ ∀ output ∈ w.published, batch.sequence ≤ output.nextSequence
  | .call _ handle _ => w.handles[handle]? = w.published
  | _ => True

/-- The file holds what the descriptor says, and nothing before there is one. -/
def Sound (w : World) : Prop :=
  (w.published = none → w.payload = []) ∧ ∀ output, w.published = some output → Covers output w.payload

variable {digestBytes : Bytes → FixedBytes 32} {w w' : World} {a : Attempt}

theorem Advanced.trans {self : ExportOutput} {payload : List PayloadRecord} (h : Advanced self payload w)
    (hnext : ∀ output, w.published = some output → Advanced output w.payload w') : Advanced self payload w' := by
  obtain ⟨output, hpublished, _, hgrows, hfile⟩ := h
  obtain ⟨later, hlater, hcovers, hgrows', hfile'⟩ := hnext output hpublished
  exact ⟨later, hlater, hcovers, hgrows.trans hgrows', hfile.trans hfile'⟩

theorem reopenUnlocked_same (hw : Sound w) : Triple (· = w) (reopenUnlocked a) (fun _ w' => w' = w)
    fun code w' => w' = w ∧ (code = .storageUnavailable → a.refusal = some code ∨ w.published = none) := by
  refine bind_lift (fun _ _ => ?_) fun code hcode => ?_
  · apply bind_get
    refine bind_lift (fun output houtput => ?_) fun code hcode => ?_
    · refine bind_require (fun _ => ?_) fun _ => ⟨rfl, fun h => by cases h⟩
      rw [(hw.2 output (orFail_eq_ok_iff.mp houtput)).scanRecords]
      exact .pure_known rfl
    · exact ⟨rfl, fun _ => .inr (orFail_eq_error_iff.mp hcode).1⟩
  · refine ⟨rfl, fun _ => .inl ?_⟩
    cases hrefusal : a.refusal with
    | none =>
      rw [hrefusal] at hcode
      cases hcode
    | some refusal =>
      rw [hrefusal] at hcode
      cases hcode
      rfl

/-- What holds after a step: the state is sound, and nothing that was published before is taken back. -/
def Moved (w w' : World) : Prop :=
  Sound w' ∧ ∀ output, w.published = some output → Advanced output w.payload w'

theorem Sound.moved (hw : Sound w) (hpublished : w'.published = w.published) (hpayload : w'.payload = w.payload) :
    Moved w w' := by
  refine ⟨?_, fun output houtput => ?_⟩
  · unfold Sound
    rw [hpublished, hpayload]
    exact hw
  · refine ⟨output, hpublished.trans houtput, ?_, .refl output, ?_⟩
    · rw [hpayload]
      exact hw.2 output houtput
    · exact hpayload.symm ▸ prefix_rfl

theorem Moved.of_advanced {self : ExportOutput} (hpublished : w.published = some self)
    (h : Advanced self w.payload w') : Moved w w' := by
  refine ⟨⟨fun hnone => ?_, fun output houtput => ?_⟩, fun output houtput => ?_⟩
  · obtain ⟨later, hlater, _⟩ := h
    cases hlater.symm.trans hnone
  · obtain ⟨later, hlater, hcovers, _⟩ := h
    cases hlater.symm.trans houtput
    exact hcovers
  · cases hpublished.symm.trans houtput
    exact h

theorem Moved.handled {r : EStateM.Result ExportOutputFailureCode World ExportOutput}
    (h : Ends (fun _ => Moved w) (fun _ => Moved w) r) :
    Moved w (obtained r) ∧ ∀ handle, Moved w (updated handle r) := by
  cases r with
  | ok output w' => exact ⟨h, fun _ => h⟩
  | error code w' => exact ⟨h, fun _ => h⟩

theorem create_moves (hw : Sound w) {binding : ExportOutputBinding}
    (hcurrent : w.published = none ∨ a.refusal ≠ some .storageUnavailable) :
    Triple (· = w) (create a binding) (fun _ => Moved w) fun _ => Moved w := by
  have hstays : Moved w w := hw.moved rfl rfl
  refine .bind (Q := fun result w' => w' = w ∧ (result = .error .storageUnavailable → w.published = none)) ?_ ?_
  · refine .attempts ((reopenUnlocked_same hw).weaken (fun _ h => h) (fun _ _ h => ⟨h, fun h => by cases h⟩) ?_)
    rintro code _ ⟨rfl, hcode⟩
    refine ⟨rfl, fun herror => ?_⟩
    cases herror
    rcases hcode rfl with hrefusal | hnone
    · exact hcurrent.resolve_right fun h => h hrefusal
    · exact hnone
  rintro result w ⟨rfl, hresult⟩
  split
  · exact Triple.ends (bind_require (fun _ => .pure_known hstays) fun _ => hstays) rfl
  · have hnone := hresult rfl
    have hcovers : Covers (.initial binding) w.payload := by
      rw [hw.1 hnone]
      exact ⟨fun _ _ h => (by cases h), Nat.zero_le _, ⟨Nat.le_refl _, Nat.zero_le _⟩, rfl,
        fun h => absurd h (Nat.lt_irrefl 0)⟩
    have hdone : Moved w { w with published := some (.initial binding) } := by
      refine ⟨⟨fun h => (by cases h), fun output houtput => ?_⟩, fun output houtput => ?_⟩
      · cases houtput
        exact hcovers
      · rw [hnone] at houtput
        cases houtput
    unfold publish
    cases a.publication with
    | committed => exact hdone
    | refused code => exact hstays
    | unreported code => exact hdone
  · exact hstays

theorem step_moves {event : Event} (hw : Sound w) (hcurrent : Current w event)
    (hstep : step digestBytes w event = some w') : Moved w w' := by
  cases event with
  | create a binding =>
    cases hstep
    exact (Moved.handled ((create_moves hw hcurrent).ends rfl)).1
  | reopen a =>
    cases hstep
    refine (Moved.handled (((reopenUnlocked_same hw).ends rfl).weaken ?_ ?_)).1
    · rintro _ _ rfl
      exact hw.moved rfl rfl
    · rintro _ _ ⟨rfl, _⟩
      exact hw.moved rfl rfl
  | clone handle =>
    obtain ⟨output, _, rfl⟩ := Option.map_eq_some_iff.mp hstep
    exact hw.moved rfl rfl
  | call a handle call =>
    obtain ⟨self, hself, rfl⟩ := Option.map_eq_some_iff.mp hstep
    have hpublished : w.published = some self := by
      rw [← hself]
      cases call with
      | append batch => exact hcurrent.1.symm
      | terminalEvidence evidence => exact hcurrent.symm
      | recoverTerminalOrphan => exact hcurrent.symm
      | manifest bytes => exact hcurrent.symm
    have hcall : ∀ batch, call = .append batch → batch.sequence ≤ self.nextSequence := by
      rintro batch rfl
      exact hcurrent.2 self hpublished
    have hends : Ends _ _ ((perform digestBytes a self call).run w) :=
      (perform_advances hpublished (hw.2 self hpublished) hcall).ends rfl
    exact (Moved.handled (hends.weaken (fun _ _ => .of_advanced hpublished) fun _ _ => .of_advanced hpublished)).2
      handle

theorem Covers.readPublished {output : ExportOutput} {sequence : Nat} {record : PayloadRecord}
    (hpublished : w.published = some output) (h : Covers output w.payload) (hseq : sequence < output.nextSequence)
    (hrec : w.payload[sequence]? = some record) : readPublished w sequence = .ok record := by
  unfold Export.readPublished
  rw [hpublished, orFail_some_bind, demand_bind hseq, bind_eq_of_ok h.scanRecords, hrec]
  rfl

theorem sound_of_run {events : List Event} (hrun : run (step digestBytes) World.start events = some w)
    (hcurrent : EveryStep (step digestBytes) Current World.start events) : Sound w :=
  run_invariant Sound Current (fun _ _ _ hs he hstep => (step_moves hs he hstep).1)
    ⟨fun _ => rfl, fun _ h => by cases h⟩ hcurrent hrun

/-- As long as every call goes through a handle of the published descriptor, the published progress never goes back
and every published batch stays readable as it was. -/
theorem published_progress_kept (digestBytes : Bytes → FixedBytes 32) (before after : List Event) {w w' : World}
    (hbefore : run (step digestBytes) World.start before = some w)
    (hcurrent : EveryStep (step digestBytes) Current World.start before)
    (hafter : run (step digestBytes) w after = some w') (hcurrent' : EveryStep (step digestBytes) Current w after)
    {output : ExportOutput} (hpublished : w.published = some output) :
    ∃ later, w'.published = some later ∧ output.Grows later ∧ ∀ sequence < output.nextSequence,
      ∃ record, readPublished w sequence = .ok record ∧ readPublished w' sequence = .ok record := by
  have hw := sound_of_run hbefore hcurrent
  have hcovers := hw.2 output hpublished
  have hmoved : Sound w' ∧ Advanced output w.payload w' := by
    refine run_invariant (fun s => Sound s ∧ Advanced output w.payload s) Current ?_
      ⟨hw, output, hpublished, hcovers, .refl output, prefix_rfl⟩ hcurrent' hafter
    rintro s event s' ⟨hs, hadvanced⟩ he hstep
    have hmoved := step_moves hs he hstep
    exact ⟨hmoved.1, hadvanced.trans hmoved.2⟩
  obtain ⟨later, hlater, hcovers', hgrows, hfile⟩ := hmoved.2
  refine ⟨later, hlater, hgrows, fun sequence hseq => ?_⟩
  have hrec := getElem?_eq_getElem (hseq.trans_le hcovers.counted.1)
  refine ⟨_, hcovers.readPublished hpublished hseq hrec, ?_⟩
  refine hcovers'.readPublished hlater (hseq.trans_le hgrows.count) ?_
  obtain ⟨rest, hrest⟩ := hfile
  rw [← hrest, getElem?_append_left (hseq.trans_le hcovers.counted.1)]
  exact hrec

end Runs

section Replays

variable {digestBytes : Bytes → FixedBytes 32} {w : World} {output : ExportOutput} {a : Attempt} {batch : Batch}

/-- The evidence that the descriptor vouches for: none, or what stands in the file. -/
inductive Vouched (digestBytes : Bytes → FixedBytes 32) (w : World) (output : ExportOutput) : Option Bytes → Prop
  | none (h : output.terminalEvidenceDigest = zeroBytes 32) : Vouched digestBytes w output none
  | some {evidence : Bytes} (hfile : w.evidence = some evidence)
      (hdigest : digestBytes evidence = output.terminalEvidenceDigest) : Vouched digestBytes w output (some evidence)

/-- A batch as it counts: its record in its place, and the evidence that the descriptor vouches for. -/
structure Batch.Published (digestBytes : Bytes → FixedBytes 32) (w : World) (output : ExportOutput) (batch : Batch) :
    Prop where
  record : ∃ record, w.payload[batch.sequence]? = some record ∧ batch.isRecord record
  evidence : Vouched digestBytes w output batch.terminalEvidence
  valid : ∀ evidence ∈ batch.terminalEvidence, evidence ≠ [] ∧ evidence.length ≤ maxExportTerminalEvidenceBytes

theorem matchesTerminalReplay_iff {evidence : Option Bytes} :
    matchesTerminalReplay digestBytes w output evidence = .ok true ↔ Vouched digestBytes w output evidence := by
  constructor
  · intro h
    cases evidence with
    | none => exact .none (of_decide_eq_true (Except.ok.inj h))
    | some evidence =>
      rw [matchesTerminalReplay] at h
      split at h
      · cases h
      · obtain ⟨found, hread, h⟩ := bind_ok h
        obtain ⟨file, hfile, hread⟩ := bind_ok hread
        obtain ⟨_, hdigest, hread⟩ := bind_ok hread
        cases hread
        cases of_decide_eq_true (Except.ok.inj h)
        exact .some (orFail_eq_ok_iff.mp hfile) (demand_eq_ok_iff.mp hdigest)
  · intro h
    cases h with
    | none hzero => exact congrArg Except.ok (decide_eq_true hzero)
    | some hfile hdigest =>
      rw [matchesTerminalReplay, if_neg (not_not.mpr hdigest.symm), readTerminalEvidenceUnlocked, hfile,
        orFail_some_bind, demand_bind hdigest]
      exact congrArg Except.ok (decide_eq_true rfl)

/-- A batch behind the count is taken exactly as it counts, changes nothing and is answered by its receipt. -/
theorem appendBatch_replays (hcovers : Covers output w.payload) (hseq : batch.sequence < output.nextSequence) :
    Triple (· = w) (appendBatch digestBytes a output batch)
      (fun answer w' => answer = (output, batch.receipt) ∧ w' = w ∧ batch.Published digestBytes w output)
      fun _ w' => w' = w ∧ (output.binding.leaseStartedAt.1 ≤ a.observedAt.1 ∧
        a.observedAt.1 ≤ output.binding.leaseExpiryAt.1 → a.refusal = none →
          ¬ batch.Published digestBytes w output) := by
  have hplace := getElem?_eq_getElem (hseq.trans_le hcovers.counted.1)
  refine bind_require (fun _ => ?_) fun h => ⟨rfl, fun hlive => absurd hlive h⟩
  refine bind_require (fun _ => ?_) fun h => ⟨rfl, fun _ _ hpub => ?_⟩
  swap
  · obtain ⟨record, hrecord, hdigest, hbytes, hcursor⟩ := hpub.record
    obtain ⟨_, hcursorBytes, hne, hlen, hzero⟩ := (hcovers.opened _ record hrecord).2.2
    rw [hdigest, hbytes, hcursor] at *
    exact h ⟨hne, hlen, hzero, hcursorBytes⟩
  refine .bind (Q := fun _ w' => w' = w ∧ ∀ evidence ∈ batch.terminalEvidence,
    evidence ≠ [] ∧ evidence.length ≤ maxExportTerminalEvidenceBytes) ?_ fun _ => assuming fun hvalid => ?_
  · cases hevidence : batch.terminalEvidence with
    | none => exact .returns fun _ h => ⟨h, fun _ h => by cases h⟩
    | some evidence =>
      refine .requires (fun hvalid _ h => ⟨h, fun found hfound => ?_⟩) fun hinvalid _ h => ⟨h, fun _ _ hpub => ?_⟩
      · cases hfound
        exact hvalid
      · exact hinvalid (hpub.valid evidence hevidence)
  refine bind_lift (fun _ _ => ?_) fun code hcode => ⟨rfl, fun _ hrefusal => ?_⟩
  swap
  · rw [hrefusal] at hcode
    cases hcode
  apply bind_get
  rw [if_pos hseq, hcovers.scanRecords, hplace]
  refine bind_require (fun hrec => ?_) fun h => ⟨rfl, fun _ _ hpub => ?_⟩
  swap
  · obtain ⟨record, hrecord, hrec⟩ := hpub.record
    cases hplace.symm.trans hrecord
    exact h hrec
  refine bind_lift (fun replayed hreplayed => ?_) fun code hcode => ⟨rfl, fun _ _ hpub => ?_⟩
  swap
  · cases hcode.symm.trans (matchesTerminalReplay_iff.mpr hpub.evidence)
  refine bind_require (fun htrue => ?_) fun h => ⟨rfl, fun _ _ hpub => ?_⟩
  · subst htrue
    exact .pure_known ⟨rfl, rfl, ⟨_, hplace, hrec⟩, matchesTerminalReplay_iff.mp hreplayed, hvalid⟩
  · cases hreplayed.symm.trans (matchesTerminalReplay_iff.mpr hpub.evidence)
    exact h rfl

end Replays

def sampleBinding : ExportOutputBinding where
  operationId := zeroBytes 16
  tenant := SegmentScope.sample.tenant
  destination := zeroBytes 16
  requestDigest := zeroBytes 32
  snapshotIdentity := zeroBytes 32
  snapshotGeneration := ⟨1, one_lt_word⟩
  snapshotFrontier := ⟨1, one_lt_word⟩
  lease := ⟨SegmentScope.sample.tenant.id⟩
  leaseStartedAt := ⟨1, one_lt_word⟩
  leaseExpiryAt := ⟨1, one_lt_word⟩

def sampleAttempt : Attempt := ⟨⟨1, one_lt_word⟩, none, none, none, none, .committed⟩

def sampleDigest (_ : Bytes) : FixedBytes 32 := ⟨List.replicate 32 1, List.length_replicate⟩

def sampleBatch : Batch := ⟨0, sampleDigest [], [7], none, none⟩

def lastBatch : Batch := { sampleBatch with sequence := 1, terminalEvidence := some [3] }

/-- A handle that was cloned before the first append writes its manifest with the count it knows. -/
theorem stale_handle_takes_count_back : ∃ w w', run (step sampleDigest) World.start
      [.create sampleAttempt sampleBinding, .clone 0, .call sampleAttempt 0 (.append sampleBatch)] = some w ∧
    step sampleDigest w (.call sampleAttempt 1 (.manifest [7])) = some w' ∧
    w.published.map ExportOutput.nextSequence = some 1 ∧ w'.published.map ExportOutput.nextSequence = some 0 :=
  ⟨_, _, rfl, rfl, rfl, rfl⟩

/-- An export of two batches, the second with the terminal evidence. -/
def sampleRun : List Event := [.create sampleAttempt sampleBinding, .call sampleAttempt 0 (.append sampleBatch),
  .call sampleAttempt 0 (.append lastBatch)]

theorem sample_current : EveryStep (step sampleDigest) Current World.start sampleRun := by
  refine ⟨.inl rfl, fun s hs => ?_⟩
  cases hs
  refine ⟨⟨rfl, ?_⟩, fun s hs => ?_⟩
  · rintro _ ⟨⟩
    exact Nat.le_refl _
  cases hs
  refine ⟨⟨rfl, ?_⟩, fun _ _ => trivial⟩
  rintro _ ⟨⟩
  exact Nat.le_refl _

theorem sample_progress_kept : ∃ w w' output, run (step sampleDigest) World.start sampleRun = some w ∧
    step sampleDigest w (.call sampleAttempt 0 (.manifest [7])) = some w' ∧ w.published = some output ∧
    output.nextSequence = 2 ∧ output.terminalEvidenceDigest = sampleDigest [3] ∧
    ∃ later, w'.published = some later ∧ output.Grows later ∧ ∀ sequence < output.nextSequence,
      ∃ record, readPublished w sequence = .ok record ∧ readPublished w' sequence = .ok record :=
  ⟨_, _, _, rfl, rfl, rfl, rfl, rfl, published_progress_kept sampleDigest sampleRun
    [.call sampleAttempt 0 (.manifest [7])] rfl sample_current rfl ⟨rfl, fun _ _ => trivial⟩ rfl⟩

end Positron.Export
