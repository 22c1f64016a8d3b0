import Positron.Lease.Reservations
import Positron.Lib.Checks

/-! Resume markers never go back. What the durable record of a lease says of its marked resumes, read from its bytes,
changes only when a marked resume is published, and then by one, whether or not the process learns of it. -/

namespace Positron.Lease
open MachineInt ByteCodec Ledger Triples Runs Checks List

section Records

/-- The boundary that a marked resume names: a sequence, and the digest of what comes before it. -/
abbrev ResumeMark := U64 × FixedBytes 32

/-- What a lease record says of the marked resumes of its lease. -/
structure Resumes where
  count : U64
  repeats : U64
  last : Option ResumeMark
deriving DecidableEq

def Resumes.of (count repeats : U64) (mark : ResumeMark) : Resumes :=
  ⟨count, repeats, if 0 < count.1 then some mark else none⟩

def LeaseRecord.resumes (record : LeaseRecord) : Resumes :=
  .of record.resumeCount record.repeatedBatchCount
    (record.lastResumeSequence.getD noSequence, record.lastResumePriorDigest)

def readMarks (version : LeaseVersion) (bytes : Bytes) : LedgerResult Resumes :=
  if version.hasMarker then do
    let count ← exactU64 bytes 111
    let repeats ← exactU64 bytes 119
    let sequence ← exactU64 bytes 127
    let digest ← exact 32 bytes 135
    return .of count repeats (sequence, digest)
  else .ok (.of (Unsigned.zero 64) (Unsigned.zero 64) (noSequence, noDigest))

/-- The identity and the resumes in the bytes of a lease record, also of one that the decoder turns
down for its marker. -/
def readResumes (bytes : Bytes) : LedgerResult (SnapshotLeaseId × Resumes) :=
  if leaseMagic.isPrefixOf bytes then do
    let tag ← exactU16 bytes 8
    let version ← (LeaseVersion.ofTag tag).elim (reject .integrityCorruption) .ok
    let resumes ← readMarks version bytes
    let identity ← exactIdentifier .invalidInput bytes 10
    return (⟨identity⟩, resumes)
  else reject .integrityCorruption

section Bytes

variable {bytes : Bytes} {record : LeaseRecord} {version : LeaseVersion}

theorem readMarks_of_readMarker {count repeats : U64} {sequence : Option U64} {digest : FixedBytes 32}
    (h : readMarker version bytes = .ok (count, repeats, sequence, digest)) :
    readMarks version bytes = .ok (.of count repeats (sequence.getD noSequence, digest)) ∧
      repeats ≤ count ∧ (0 < count.1 → sequence.isSome = true) := by
  unfold readMarker at h
  unfold readMarks
  split at h
  · rename_i hversion
    obtain ⟨count, hcount, h⟩ := bind_ok h
    obtain ⟨repeats, hrepeats, h⟩ := bind_ok h
    obtain ⟨sequence, hsequence, h⟩ := bind_ok h
    split at h
    · cases h
    · rename_i hgood
      obtain ⟨digest, hdigest, h⟩ := bind_ok h
      cases h
      rw [if_pos hversion, hcount, ok_bind, hrepeats, ok_bind, hsequence, ok_bind, hdigest]
      simp only [not_or, not_and, not_lt] at hgood
      by_cases hnone : sequence = noSequence
      · rw [if_pos hnone, hnone]
        exact ⟨rfl, hgood.1, fun hpos => absurd hnone (hgood.2.2 hpos)⟩
      · rw [if_neg hnone]
        exact ⟨rfl, hgood.1, fun _ => rfl⟩
  · rename_i hversion
    cases h
    rw [if_neg hversion]
    exact ⟨rfl, le_refl _, fun hpos => absurd hpos (lt_irrefl 0)⟩

/-- A record that the decoder accepts says what its bytes say. -/
theorem decode_resumes (h : decode bytes = .ok (some record)) :
    readResumes bytes = .ok (record.identity, record.resumes) ∧ record.repeatedBatchCount ≤ record.resumeCount ∧
      (0 < record.resumeCount.1 → record.lastResumeSequence.isSome = true) := by
  have hmagic := decode_eq_some_magic h
  unfold decode at h
  unfold readResumes
  rw [if_pos hmagic] at h ⊢
  obtain ⟨tag, htag, h⟩ := bind_ok h
  rw [htag, ok_bind]
  split at h
  · cases h
  · rename_i version hversion
    rw [hversion, Option.elim_some, ok_bind]
    obtain ⟨found, hfound, h⟩ := bind_ok h
    cases h
    unfold decodeVersion at hfound
    obtain ⟨count, _, h⟩ := bind_ok hfound
    split at h
    · cases h
    obtain ⟨scope, _, h⟩ := bind_ok h
    obtain ⟨blocks, _, h⟩ := bind_ok h
    obtain ⟨window, _, h⟩ := bind_ok h
    obtain ⟨⟨resumeCount, repeats, sequence, digest⟩, hmarker, h⟩ := bind_ok h
    obtain ⟨usage, _, h⟩ := bind_ok h
    obtain ⟨identity, hidentity, h⟩ := bind_ok h
    obtain ⟨catalogIdentity, _, h⟩ := bind_ok h
    obtain ⟨generation, _, h⟩ := bind_ok h
    obtain ⟨frontier, _, h⟩ := bind_ok h
    cases h
    obtain ⟨hmarks, hrest⟩ := readMarks_of_readMarker hmarker
    refine ⟨?_, hrest⟩
    dsimp only
    rw [hmarks, ok_bind, hidentity, ok_bind]
    rfl

/-- What is encoded says in its bytes what the record says. -/
theorem encode_resumes (h : encode record = .ok bytes) (hrepeats : record.repeatedBatchCount ≤ record.resumeCount) :
    readResumes bytes = .ok (record.identity, record.resumes) := by
  obtain ⟨_, _, rfl⟩ := encode_eq_ok_iff.mp h
  have htag : exactU16 (leaseFields record.version record).flatten 8 = .ok record.version.tag :=
    exactU16_flatten 1 rfl (by simp [leaseFields_lengths])
  have hofTag : LeaseVersion.ofTag record.version.tag = some record.version := by
    cases record.version <;> rfl
  have hidentity : exactIdentifier .invalidInput (leaseFields record.version record).flatten 10 =
      .ok record.identity.id := exactIdentifier_flatten 2 _ rfl (by simp [leaseFields_lengths])
  have hmarks : readMarks record.version (leaseFields record.version record).flatten = .ok record.resumes := by
    unfold readMarks
    cases hmarker : record.version.hasMarker with
    | false =>
      obtain ⟨hcount, _⟩ := LeaseRecord.version_marker hmarker
      have hresumes : record.resumeCount = Unsigned.zero 64 := Subtype.ext hcount
      have hrepeated : record.repeatedBatchCount = Unsigned.zero 64 :=
        Subtype.ext (Nat.le_zero.mp (hcount ▸ hrepeats))
      unfold LeaseRecord.resumes
      rw [hresumes, hrepeated]
      rfl
    | true =>
      obtain ⟨hcount, hrepeats, hsequence, hdigest⟩ := markerFields_read hmarker record
      rw [if_pos rfl, hcount, ok_bind, hrepeats, ok_bind, hsequence, ok_bind, hdigest]
      rfl
  have hmagic : leaseMagic.isPrefixOf (leaseFields record.version record).flatten = true := rfl
  unfold readResumes
  rw [if_pos hmagic, htag, ok_bind, hofTag, Option.elim_some, ok_bind, hmarks, ok_bind, hidentity]
  rfl

theorem resumes_of_decode {found : Option LeaseRecord} (h : decode bytes = .ok found)
    {identity : SnapshotLeaseId} {resumes : Resumes} (hread : readResumes bytes = .ok (identity, resumes)) :
    ∃ record, found = some record ∧ record.identity = identity ∧ record.resumes = resumes := by
  cases found with
  | some record =>
    rw [(decode_resumes h).1] at hread
    cases hread
    exact ⟨record, rfl, rfl, rfl⟩
  | none =>
    unfold readResumes at hread
    split at hread
    · rename_i hmagic
      unfold decode at h
      rw [if_pos hmagic] at h
      obtain ⟨tag, _, h⟩ := bind_ok h
      split at h
      · cases h
      · obtain ⟨record, _, h⟩ := bind_ok h
        cases h
    · cases hread

end Bytes

/-- The later boundary is not before the earlier one. -/
def NotBack (before after : ResumeMark) : Prop := before.1 < after.1 ∨ before = after

theorem NotBack.trans {a b c : ResumeMark} (h : NotBack a b) (h' : NotBack b c) : NotBack a c := by
  rcases h with h | rfl
  · rcases h' with h' | rfl
    · exact .inl (h.trans h')
    · exact .inl h
  · exact h'

/-- One more marked resume. -/
structure Resumes.Next (old : Resumes) (mark : ResumeMark) (new : Resumes) : Prop where
  count : new.count.1 = old.count.1 + 1
  repeats : new.repeats.1 = old.repeats.1 + if old.last = some mark then 1 else 0
  last : new.last = some mark
  forward : ∀ before ∈ old.last, NotBack before mark

variable {mark : ResumeMark}

theorem Resumes.Next.repeats_le {old new : Resumes} (h : old.Next mark new)
    (hold : old.repeats ≤ old.count) : new.repeats ≤ new.count := by
  have hcount := h.count
  have hrepeats := h.repeats
  change old.repeats.1 ≤ old.count.1 at hold
  change new.repeats.1 ≤ new.count.1
  split at hrepeats <;> omega

theorem nextMarker_next {record : LeaseRecord}
    (hmarker : 0 < record.resumeCount.1 → record.lastResumeSequence.isSome = true)
    {count repeats : U64} (h : nextMarker (resumeMarkerFor record) mark.1 mark.2 = .ok (count, repeats)) :
    record.resumes.Next mark (.of count repeats mark) := by
  unfold nextMarker at h
  split at h
  · cases h
  · rename_i hforward
    dsimp only at h
    split at h
    · rename_i hcount hrepeats
      cases h
      have hone := Unsigned.checkedAdd_eq_some_iff.mp hcount
      have hadded := Unsigned.checkedAdd_eq_some_iff.mp hrepeats
      change count.1 = record.resumeCount.1 + 1 at hone
      change repeats.1 = record.repeatedBatchCount.1 + _ at hadded
      have hlast : record.resumes.last = if 0 < (resumeMarkerFor record).attempts.1 then
          some ((resumeMarkerFor record).sequence, (resumeMarkerFor record).priorDigest) else none := by
        unfold LeaseRecord.resumes Resumes.of
        dsimp only
        split
        · rename_i hpos
          obtain ⟨sequence, hsequence⟩ := Option.isSome_iff_exists.mp (hmarker hpos)
          rw [if_pos (show 0 < (resumeMarkerFor record).attempts.1 from hpos)]
          simp only [resumeMarkerFor, hsequence, Option.getD_some]
        · rename_i hzero
          exact (if_neg hzero).symm
      have hrepeated : record.resumes.last = some mark ↔ 0 < (resumeMarkerFor record).attempts.1 ∧
          (resumeMarkerFor record).sequence = mark.1 ∧ (resumeMarkerFor record).priorDigest = mark.2 := by
        rw [hlast, Option.ite_none_right_eq_some, Option.some.injEq, Prod.ext_iff]
      refine ⟨hone, ?_, if_pos (by omega), ?_⟩
      · change repeats.1 = record.repeatedBatchCount.1 + _
        rw [hadded]
        by_cases hsame : record.resumes.last = some mark
        · rw [if_pos hsame, if_pos (decide_eq_true (hrepeated.mp hsame))]
        · rw [if_neg hsame, if_neg fun h => hsame (hrepeated.mpr (of_decide_eq_true h))]
          rfl
      · intro before hbefore
        rw [hlast, Option.mem_def, Option.ite_none_right_eq_some] at hbefore
        obtain ⟨hpos, hbefore⟩ := hbefore
        cases hbefore
        rw [not_and, not_or, not_lt, not_and, not_not] at hforward
        obtain ⟨hle, hsame⟩ := hforward hpos
        rcases hle.lt_or_eq with hlt | heq
        · exact .inl hlt
        · exact .inr (Prod.ext heq (hsame heq.symm).symm)
    · cases h

end Records

/-- What every record of a lease says. Where there is one, `held` is so. -/
structure Account where
  identity : SnapshotLeaseId
  resumes : Resumes
  held : Prop

def Account.Of (a : Account) (objects : List Bytes) : Prop :=
  ∀ bytes ∈ objects, ∀ found, readResumes bytes = .ok (a.identity, found) → found = a.resumes ∧ a.held

/-- The account is of the durable catalog. The generations `known` have been read. -/
structure Durably (a : Account) (known : List Generation) (catalog : Catalog) : Prop where
  current : Known catalog catalog.current
  known : ∀ basis ∈ known, Known catalog basis
  account : a.Of catalog.durable.objects

abbrev Marked (a : Account) (known : List Generation) (w : World) : Prop := Durably a known w.catalog

def Shown (identity : SnapshotLeaseId) (w : World) : Prop :=
  ∃ bytes ∈ w.catalog.durable.objects, ∃ found, readResumes bytes = .ok (identity, found)

/-- How an operation ends that may resume the lease at `marker`: nothing is said anew, or one more
resume. With a grant it is the latter. -/
def Ended (granted : Bool) (a : Account) (marker : Option ResumeMark) (w : World) : Prop :=
  Marked a [] w ∧ (granted = true → marker = none) ∨
    ∃ mark ∈ marker, ∃ new, a.resumes.Next mark new ∧ Marked { a with resumes := new } [] w ∧ Shown a.identity w

/-- A record of the lease that is asked for. -/
structure Found (a : Account) (subject : SnapshotLeaseId) (record : LeaseRecord) : Prop where
  named : record.identity = subject
  repeats : record.repeatedBatchCount ≤ record.resumeCount
  marker : 0 < record.resumeCount.1 → record.lastResumeSequence.isSome = true
  resumes : subject = a.identity → record.resumes = a.resumes ∧ a.held

/-- A part of an operation that may resume the lease at `marker`. -/
abbrev Tracks {α : Type} (a : Account) (marker : Option ResumeMark) (known : List Generation) (m : LeaseM α)
    (Q : α → World → Prop) : Prop := Triple (Marked a known) m Q fun _ => Ended false a marker

variable {a : Account} {marker : Option ResumeMark} {known : List Generation}

section Rules

variable {basis : Generation} {record : LeaseRecord} {α β : Type} {w w' : World}

theorem Account.of_nil : a.Of [] := fun _ hmem => absurd hmem not_mem_nil

theorem Marked.mono {known' : List Generation} (h : Marked a known w) (hknown : ∀ basis ∈ known', basis ∈ known) :
    Marked a known' w := ⟨h.current, fun basis hbasis => h.known basis (hknown basis hbasis), h.account⟩

theorem Marked.forget (h : Marked a known w) : Marked a [] w :=
  h.mono fun _ hmem => absurd hmem not_mem_nil

theorem Marked.cons (h : Marked a known w) (hbasis : Known w.catalog basis) : Marked a (basis :: known) w :=
  ⟨h.current, forall_mem_cons.mpr ⟨hbasis, h.known⟩, h.account⟩

theorem Marked.failed (h : Marked a known w) : Ended false a marker w :=
  .inl ⟨h.forget, fun hgranted => by cases hgranted⟩

theorem Marked.quiet (h : Quiet w w') (hw : Marked a known w) : Marked a known w' :=
  ⟨h.current_known hw.current, fun basis hbasis => (hw.known basis hbasis).quiet h, h.durable ▸ hw.account⟩

theorem Marked.took {remove : List SnapshotLeaseId} {add : List Bytes} (h : Took remove add w w')
    (hw : Marked a known w) (hadd : a.Of add) : Marked a (w'.catalog.durable :: known) w' := by
  have hcurrent := h.current_known
  obtain ⟨catalog, _, happlied, rfl⟩ := h
  refine Marked.cons ⟨hcurrent, fun basis hbasis => happlied.known (hw.known basis hbasis), ?_⟩ (.inl rfl)
  intro bytes hbytes
  rcases happlied.origin bytes hbytes with hold | hnew
  · exact hw.account bytes hold
  · exact hadd bytes hnew

theorem Ended.quiet {granted : Bool} (h : Quiet w w') (hw : Ended granted a marker w) :
    Ended granted a marker w' := by
  rcases hw with ⟨hmarked, hnone⟩ | ⟨mark, hmark, new, hnext, hmarked, hshown⟩
  · exact .inl ⟨hmarked.quiet h, hnone⟩
  · refine .inr ⟨mark, hmark, new, hnext, hmarked.quiet h, ?_⟩
    unfold Shown
    rw [h.durable]
    exact hshown

namespace Tracks

variable {Q : β → World → Prop} {m : LeaseM α} {f : α → LeaseM β}

theorem quiet (h : Within Quiet m) : Tracks a marker known m fun _ => Marked a known :=
  (h.keeps fun _ _ hquiet hw => Marked.quiet hquiet hw).weaken (fun _ hw => hw) (fun _ _ hw => hw)
    fun _ _ hw => hw.failed

/-- The rules of a walk: each takes the next statement off the operation. -/
theorem quietly (h : Within Quiet m) (hf : ∀ x, Tracks a marker known (f x) Q) : Tracks a marker known (m >>= f) Q :=
  Triple.bind (quiet h) hf

theorem bind {K : α → List Generation} {φ : α → Prop}
    (hm : Tracks a marker known m fun x w => Marked a (K x) w ∧ φ x)
    (hf : ∀ x, φ x → Tracks a marker (K x) (f x) Q) : Tracks a marker known (m >>= f) Q :=
  Triple.bind hm fun x => Triple.assuming (hf x)

theorem lifts {x : LedgerResult α} (hf : ∀ y, x = .ok y → Tracks a marker known (f y) Q) :
    Tracks a marker known (ofExcept x >>= f) Q :=
  bind (Triple.lifts (fun _ hok _ hw => ⟨hw, hok⟩) fun _ _ _ hw => hw.failed) hf

theorem leases {g : LeaseState → LeaseState} {f : Unit → LeaseM β} (hf : Tracks a marker known (f ()) Q) :
    Tracks a marker known (modifyLeases g >>= f) Q :=
  Triple.bind (Triple.changes (Q := fun _ => Marked a known) fun _ hw => hw) fun _ => hf

theorem encodes {f : Bytes → LeaseM β} (hf : ∀ bytes, encode record = .ok bytes → Tracks a marker known (f bytes) Q) :
    Tracks a marker known (encodeRecord record >>= f) Q := by
  refine bind (K := fun _ => known) (fun w hw => ?_) hf
  rw [encodeRecord_run]
  cases hencode : encode record with
  | error failure => exact hw.failed
  | ok bytes => exact ⟨hw, rfl⟩

theorem pins {f : Generation → LeaseM β} (hf : ∀ basis, Tracks a marker (basis :: known) (f basis) Q) :
    Tracks a marker known (pin >>= f) Q := fun w hw => hf w.catalog.current w (hw.cons hw.current)

/-- What is read after a refresh is what is durable. -/
theorem reads {code : Option LedgerFailureCode} {f : Generation → LeaseM β}
    (hf : ∀ basis, a.Of basis.objects → Tracks a marker (basis :: known) (f basis) Q) :
    Tracks a marker known (refreshState code >>= fun _ => pin >>= f) Q := by
  refine Triple.bind (Q := fun _ w => Marked a known w ∧ w.catalog.current = w.catalog.durable) ?_ fun _ => ?_
  · intro w hw
    cases code with
    | some code => exact hw.failed
    | none =>
      change Durably _ _ (readCatalog w.catalog) ∧ (readCatalog w.catalog).current = (readCatalog w.catalog).durable
      rw [readCatalog_known hw.current]
      exact ⟨⟨.inl rfl, hw.known, hw.account⟩, rfl⟩
  · exact fun w hw => hf w.catalog.current (hw.2 ▸ hw.1.account) w (hw.1.cons hw.1.current)

variable {remove : List SnapshotLeaseId} {outcome : PublicationOutcome} {add : List Bytes}

/-- A publication that says nothing new of the lease. -/
theorem publishes {reconcile : Bool} (hbasis : basis ∈ known) (hadd : a.Of basis.objects → a.Of add) :
    Tracks a marker known (publishManyInner basis basis.identity remove add reconcile outcome)
      fun generation => Marked a (generation :: known) := by
  intro w hw
  have hcommits : ∀ w', Commits basis remove add w w' → Marked a (w'.catalog.durable :: known) w' :=
    fun w' h => Marked.took h.took hw (hadd (h.basis ▸ hw.account))
  refine (publishManyInner_cases hw.current (hw.known basis hbasis) remove add reconcile outcome).weaken ?_ ?_
  · rintro generation w' ⟨h | ⟨_, rfl⟩, rfl⟩
    · exact hcommits w' h
    · exact Marked.cons ⟨.inl rfl, hw.known, hw.account⟩ (.inl rfl)
  · rintro failure w' (h | ⟨h, _⟩)
    · exact (hw.quiet h.quiet).failed
    · exact (hcommits w' h).failed

theorem discards {f : Unit → LeaseM β} (hbasis : basis ∈ known) (hadd : a.Of basis.objects → a.Of add)
    (hf : Tracks a marker known (f ()) Q) :
    Tracks a marker known (discard (publishMany basis remove add outcome) >>= f) Q :=
  Triple.bind (Triple.discards ((publishes hbasis hadd).weaken (fun _ hw => hw)
    (fun _ _ hw => Marked.mono hw fun _ => mem_cons_of_mem _) fun _ _ h => h)) fun _ => hf

end Tracks

end Rules

section Operations

variable {subject : SnapshotLeaseId} {record : LeaseRecord} {basis : Generation}

theorem retryPendingReleases_tracks (env : Surroundings) :
    Tracks a marker [] (retryPendingReleases env) fun _ => Marked a [] := by
  refine Tracks.quietly Within.reads fun seen => ?_
  refine Triple.ite (fun _ => Triple.returns fun _ hw => hw) fun _ => Tracks.reads fun basis _ => ?_
  refine Tracks.lifts fun recorded _ => Triple.ite (fun _ => ?_) fun _ => Triple.changes fun _ hw => hw.forget
  exact Tracks.discards mem_cons_self (fun _ => Account.of_nil) (Triple.changes fun _ hw => hw.forget)

theorem pruneIfExpired_tracks (hbasis : basis ∈ known) (expired : List SnapshotLeaseId) (env : Surroundings) :
    Tracks a marker known (pruneIfExpired basis expired env) fun pruned => Marked a pruned.toList := by
  refine Triple.ite (fun _ => Triple.returns fun _ hw => hw.forget) fun _ => Triple.maps ?_
  refine Tracks.quietly (registerAllPending_quiet expired) fun _ => ?_
  refine Triple.bind (Triple.attempts (Q := fun result w => Ended false a marker w ∧
    ∀ generation, result = .ok generation → Marked a [generation] w) ((Tracks.publishes hbasis fun _ =>
      Account.of_nil).weaken (fun _ hw => hw) (fun generation w hw => ⟨hw.failed, ?_⟩)
      fun _ _ hw => ⟨hw, fun _ h => by cases h⟩)) fun result => ?_
  · rintro _ ⟨⟩
    exact Marked.cons hw.forget (hw.known _ mem_cons_self)
  cases result with
  | ok generation =>
    exact Triple.bind (Triple.changes (Q := fun _ => Marked a [generation]) fun _ hw => hw.2 _ rfl) fun _ =>
      Triple.returns fun _ hw => hw
  | error failure =>
    exact Triple.ite (fun _ => Triple.bind (Triple.changes fun _ hw => hw.1) fun _ => Triple.fails fun _ hw => hw)
      fun _ => Triple.fails fun _ hw => hw.1

variable {bytes : Bytes} {others : List Bytes}

theorem Found.of_encoded (h : Found a subject record) (hencode : encode record = .ok bytes) : a.Of [bytes] := by
  intro other hother found hread
  rw [mem_singleton.mp hother, encode_resumes hencode h.repeats, Except.ok.injEq, Prod.mk.injEq] at hread
  obtain ⟨hnamed, rfl⟩ := hread
  exact h.resumes (h.named.symm.trans hnamed)

theorem normalizeIfLegacy_tracks (hrecord : Found a subject record) (now : U64) (env : Surroundings) :
    Tracks a marker known (normalizeIfLegacy record now env)
      fun normalized w => Marked a known w ∧ Found a subject normalized := by
  refine Triple.ite (fun _ => ?_) fun _ => Triple.returns fun _ hw => ⟨hw, hrecord⟩
  have hnormalized : Found a subject { record with observedAt := now } :=
    ⟨hrecord.named, hrecord.repeats, hrecord.marker, hrecord.resumes⟩
  refine Tracks.encodes fun encoded hencode => Tracks.lifts fun amounts _ => ?_
  refine Tracks.quietly (Within.requires _ _) fun _ => Tracks.reads fun basis _ => ?_
  refine Tracks.discards mem_cons_self (fun _ => hnormalized.of_encoded hencode) ?_
  refine Tracks.quietly Within.reads fun seen => Tracks.leases (Tracks.quietly (Within.requires _ _) fun _ => ?_)
  exact Triple.returns fun _ hw => ⟨hw.mono fun _ => mem_cons_of_mem _, hnormalized⟩

/-- The marker of an operation, for the lease that it resumes. -/
def markerOf (identity subject : SnapshotLeaseId) (marker : Option ResumeMark) : Option ResumeMark :=
  if subject = identity then marker else none

/-- The publication of a record with one more resume. -/
theorem publishMark_tracks (hbasis : basis ∈ known) {new : Resumes} {mark : ResumeMark}
    (hread : readResumes bytes = .ok (subject, new)) (hnext : subject = a.identity → a.resumes.Next mark new ∧ a.held)
    (outcome : PublicationOutcome) :
    Tracks a (markerOf a.identity subject (some mark)) known (publishMany basis [subject] [bytes] outcome)
      fun _ => Ended true a (markerOf a.identity subject (some mark)) := by
  by_cases hsubject : subject = a.identity
  · obtain ⟨hnext, hheld⟩ := hnext hsubject
    rw [markerOf, if_pos hsubject]
    intro w hw
    have hcommits : ∀ granted w', Commits basis [subject] [bytes] w w' → Ended granted a (some mark) w' := by
      intro granted w' h
      obtain ⟨kept, hkept, hobjects⟩ := h.objects
      refine .inr ⟨mark, rfl, new, hnext, ⟨h.took.current_known, fun _ hmem => absurd hmem not_mem_nil, ?_⟩,
        bytes, ?_, new, hsubject ▸ hread⟩
      · -- what is carried over is of other leases
        intro other hother found hfound
        rw [hobjects] at hother
        rcases mem_append.mp hother with hother | hother
        · obtain ⟨_, decoded, hdecode, hremoved⟩ := (carriedOver_mem hkept).1 other hother
          obtain ⟨record, rfl, hidentity, _⟩ := resumes_of_decode hdecode hfound
          exact absurd (mem_singleton.mpr (hidentity.trans hsubject.symm)) (hremoved record rfl)
        · rw [mem_singleton.mp hother, hread] at hfound
          cases hfound
          exact ⟨rfl, hheld⟩
      · rw [hobjects]
        exact mem_append_right _ mem_cons_self
    refine (publishManyInner_cases hw.current (hw.known basis hbasis) [subject] [bytes] true outcome).weaken ?_ ?_
    · rintro generation w' ⟨h | ⟨hvisible, rfl⟩, _⟩
      · exact hcommits true w' h
      · -- the record was not there before, since it counts one more
        have hold := (hw.account bytes (publicationVisible_added hvisible bytes mem_cons_self) new
          (hsubject ▸ hread)).1
        have hcount := hnext.count
        rw [hold] at hcount
        omega
    · rintro failure w' (h | ⟨h, _⟩)
      · exact (hw.quiet h.quiet).failed
      · exact hcommits false w' h
  · rw [markerOf, if_neg hsubject]
    refine (Tracks.publishes hbasis ?_).weaken (fun _ hw => hw)
      (fun _ _ hw => .inl ⟨hw.forget, fun _ => rfl⟩) fun _ _ h => h
    intro _ other hother found hfound
    rw [mem_singleton.mp hother, hread] at hfound
    cases hfound
    exact absurd rfl hsubject

theorem markResume_tracks (hrecord : Found a subject record) (mark : ResumeMark)
    (expected : Option (CatalogGenerationId × U64)) (pruned : Option Generation) (env : Surroundings) :
    Tracks a (markerOf a.identity subject (some mark)) pruned.toList
      (markResume record mark.1 mark.2 expected pruned env)
      fun _ => Ended true a (markerOf a.identity subject (some mark)) := by
  obtain ⟨rfl, hrepeats, hmarker, hresumes⟩ := hrecord
  refine Tracks.leases (Tracks.lifts fun counts hcounts => ?_)
  obtain ⟨resumeCount, repeatedBatchCount⟩ := counts
  have hnext := nextMarker_next hmarker hcounts
  refine Tracks.encodes fun encoded hencode => Tracks.lifts fun amounts _ => Tracks.pins fun current => ?_
  have hbasis : pruned.getD current ∈ current :: pruned.toList := by
    cases pruned with
    | none => exact mem_cons_self
    | some basis => exact mem_cons_of_mem _ mem_cons_self
  refine Tracks.quietly (Within.requires _ _) fun _ => Tracks.quietly (beginTransaction_quiet _) fun original => ?_
  refine Tracks.quietly (resizeOrCancel_quiet _ _ _) fun _ => ?_
  refine Triple.bind (Triple.attempts (Q := fun result (w : World) => Ended result.isOk a
    (markerOf a.identity record.identity (some mark)) w) (publishMark_tracks hbasis
      (encode_resumes hencode (hnext.repeats_le hrepeats)) ?_ env.publish)) fun result => ?_
  · intro hsubject
    obtain ⟨hsame, hheld⟩ := hresumes hsubject
    exact ⟨hsame ▸ hnext, hheld⟩
  cases result with
  | ok generation =>
    refine Triple.bind (Triple.changes (Q := fun _ (w : World) => Ended true a
      (markerOf a.identity record.identity (some mark)) w) fun _ hw => hw) fun _ => ?_
    exact Triple.bind (Triple.changes fun _ hw => hw) fun _ => Triple.returns fun _ hw => hw
  | error failure =>
    refine Triple.ite (fun _ => ?_) fun _ => ?_
    · exact Triple.bind (Triple.changes fun _ hw => hw) fun _ => Triple.fails fun _ hw => hw
    · exact Triple.bind ((rollbackTransaction_quiet _ _ _).keeps fun _ _ h hw => Ended.quiet h hw)
        fun _ => Triple.fails fun _ hw => hw

theorem resumeBody_tracks (subject : SnapshotLeaseId) (now : U64) (marker : Option ResumeMark)
    (expected : Option (CatalogGenerationId × U64)) (env : Surroundings) :
    Tracks a (markerOf a.identity subject marker) [] (resumeBody subject now marker expected env)
      fun _ => Ended true a (markerOf a.identity subject marker) := by
  refine Tracks.reads fun basis hread => Tracks.quietly (Within.requires _ _) fun _ => ?_
  refine Tracks.lifts fun recorded hrecords => Tracks.quietly Within.reads fun seen => ?_
  refine Triple.bind (pruneIfExpired_tracks mem_cons_self _ env) fun pruned => Tracks.leases ?_
  refine Tracks.bind (K := fun _ => pruned.toList) (φ := Found a subject) ?_ fun record hfound => ?_
  · intro w hw
    cases hfind : findRecord subject seen.scope (recorded.filter fun record =>
        decide (record.identity ∉ expiredInScope recorded seen.scope now)) with
    | none => exact hw.failed
    | some record =>
      obtain ⟨bytes, hbytes, hdecode⟩ := (records_mem hrecords record).mp
        (mem_filter.mp (mem_of_find?_eq_some hfind)).1
      have hsubject : record.identity = subject ∧ record.scope = seen.scope := by
        simpa using find?_some hfind
      obtain ⟨hresumes, hrepeats, hmarker⟩ := decode_resumes hdecode
      refine ⟨hw, hsubject.1, hrepeats, hmarker, fun hidentity => hread bytes hbytes _ ?_⟩
      rw [hresumes, hsubject.1, hidentity]
  refine Tracks.lifts fun _ _ => Tracks.quietly Within.reads fun reserved => ?_
  refine Tracks.quietly (Within.requires _ _) fun _ => ?_
  refine Tracks.bind (normalizeIfLegacy_tracks hfound now env) fun normalized hnormalized => ?_
  refine Tracks.lifts fun _ _ => ?_
  cases marker with
  | none => exact Triple.returns fun _ hw => .inl ⟨hw.forget, fun _ => ite_self none⟩
  | some mark =>
    exact Triple.bind (markResume_tracks hnormalized mark expected pruned env) fun _ => Triple.returns fun _ hw => hw

theorem resumeSnapshotLeaseMarked_tracks (subject : SnapshotLeaseId) (now : LedgerResult U64)
    (marker : Option ResumeMark) (expected : Option (CatalogGenerationId × U64)) (env : Surroundings) :
    Tracks a (markerOf a.identity subject marker) [] (resumeSnapshotLeaseMarked subject now marker expected env)
      fun _ => Ended true a (markerOf a.identity subject marker) := by
  refine Tracks.lifts fun now _ => Tracks.quietly requireHealthy_quiet fun _ => ?_
  refine Triple.bind (retryPendingReleases_tracks env) fun _ => Tracks.quietly Within.reads fun seen => ?_
  refine Tracks.quietly (Within.requires _ _) fun _ => ?_
  refine Triple.ite (fun _ => ?_) fun _ => resumeBody_tracks subject _ marker expected env
  refine Tracks.quietly (acquireAttempt_quiet subject) fun _ => ?_
  refine Triple.bind (Triple.attempts (Q := fun result => Ended result.isOk a (markerOf a.identity subject marker))
    (resumeBody_tracks subject _ marker expected env)) fun result => ?_
  cases result with
  | ok grant => exact Triple.returns fun _ hw => hw
  | error failure => exact Triple.bind (Triple.changes fun _ hw => hw) fun _ => Triple.fails fun _ hw => hw

theorem encodeRecords_tracks {found : List LeaseRecord}
    (hfound : ∀ record ∈ found, record.repeatedBatchCount ≤ record.resumeCount) :
    Tracks a marker known (encodeRecords found) fun additions w => Marked a known w ∧
      ∀ bytes ∈ additions, ∃ record ∈ found, readResumes bytes = .ok (record.identity, record.resumes) := by
  induction found with
  | nil => exact Triple.returns fun _ hw => ⟨hw, fun _ hmem => absurd hmem not_mem_nil⟩
  | cons record found ih =>
    obtain ⟨hrecord, hfound⟩ := forall_mem_cons.mp hfound
    refine Tracks.encodes fun bytes hencode => Tracks.bind (ih hfound) fun later hlater => ?_
    refine Triple.returns fun _ hw => ⟨hw, forall_mem_cons.mpr ⟨?_, fun other hother => ?_⟩⟩
    · exact ⟨record, mem_cons_self, encode_resumes hencode hrecord⟩
    · exact (hlater other hother).imp fun _ h => ⟨mem_cons_of_mem _ h.1, h.2⟩

theorem publishSegments_tracks (hothers : ∀ bytes ∈ others, leaseMagic.isPrefixOf bytes = false)
    (outcome : CommitOutcome) : Tracks a marker [] (publishSegments others outcome) fun _ => Marked a [] := by
  intro w hw
  have htook : ∀ w', Took [] others w w' → Marked a [] w' := by
    refine fun w' h => (Marked.took h hw ?_).forget
    intro bytes hbytes found hread
    rw [readResumes, hothers bytes hbytes] at hread
    cases hread
  refine (publishSegments_spec hw.current others outcome).weaken (fun _ w' h => htook w' h.1) ?_
  rintro _ w' (h | h)
  · exact (Marked.quiet h.quiet hw).failed
  · exact (htook w' h).failed

theorem observeRecovered_tracks {active : List LeaseRecord}
    (hactive : ∀ record ∈ active, ∃ bytes ∈ basis.objects, decode bytes = .ok (some record))
    (expired : List SnapshotLeaseId) (env : Surroundings) (now : Option U64) :
    Tracks a marker [basis] (observeRecovered basis active expired env now) fun _ => Marked a [] := by
  cases now with
  | none => exact Triple.returns fun _ hw => hw.forget
  | some now =>
    refine Triple.ite (fun _ => Triple.returns fun _ hw => hw.forget) fun _ => ?_
    refine Tracks.bind (encodeRecords_tracks ?_) fun additions hadditions => ?_
    · intro record hrecord
      obtain ⟨original, horiginal, rfl⟩ := mem_map.mp hrecord
      obtain ⟨bytes, _, hdecode⟩ := hactive original horiginal
      exact (decode_resumes hdecode).2.1
    refine Tracks.discards mem_cons_self ?_ (Triple.returns fun _ hw => hw.forget)
    -- an observed record says what the one before it says
    intro haccount bytes hbytes found hfound
    obtain ⟨record, hrecord, hread⟩ := hadditions bytes hbytes
    obtain ⟨original, horiginal, rfl⟩ := mem_map.mp hrecord
    obtain ⟨before, hbefore, hdecode⟩ := hactive original horiginal
    exact haccount before hbefore found ((decode_resumes hdecode).1.trans (hread.symm.trans hfound))

/-- A restart reads the leases back from the catalog. -/
theorem openLedger_tracks (clock : LeaseRecoveryClock) (frontier : CommitPosition) (blocks : List LeaseBlock)
    (hothers : ∀ bytes ∈ others, leaseMagic.isPrefixOf bytes = false)
    (segments : CommitOutcome) (env : Surroundings) :
    Tracks a marker [] (openLedger clock frontier blocks others segments env) fun _ => Marked a [] := by
  refine Tracks.leases (Triple.bind (Q := fun _ => Marked a []) ?_ fun recovered =>
    Triple.bind (publishSegments_tracks hothers segments) fun _ => Triple.changes fun _ hw => hw)
  refine Triple.bind (Triple.reads (Q := fun seen => Marked a [seen.catalog.current]) fun w hw =>
    Marked.cons hw hw.current) fun seen => Tracks.lifts fun recorded hrecords => ?_
  refine Tracks.quietly (Within.requires _ _) fun _ => Tracks.lifts fun _ _ => ?_
  refine Tracks.quietly (Within.requires _ _) fun _ => ?_
  refine Triple.bind (observeRecovered_tracks ?_ _ env _) fun active =>
    (reserveRecovered_triple env active _).weaken (fun _ hw => hw) (fun _ _ hw => hw.1) fun _ _ hw => Marked.failed hw
  intro record hrecord
  exact (records_mem hrecords record).mp (mem_filter.mp (mem_filter.mp hrecord).1).1

end Operations

/-- Resumes, releases, restarts, and what happens around the leases. -/
def Operation.Resuming : Operation → Bool
  | .resume .. | .release .. | .dropAttempt _ | .openLedger .. | .advance .. | .poison | .publishOthers _ => true
  | _ => false

/-- The boundary at which the operation is to resume the lease. -/
def Operation.markFor (identity : SnapshotLeaseId) : Operation → Option ResumeMark
  | .resume subject _ marker _ _ => markerOf identity subject marker
  | _ => none

theorem Tracks.ended {m : LeaseM Unit} (h : Tracks a none [] m fun _ => Marked a []) :
    Tracks a none [] m fun _ => Ended true a none :=
  h.weaken (fun _ hw => hw) (fun _ _ hw => .inl ⟨hw, fun _ => rfl⟩) fun _ _ hw => hw

variable {operation : Operation}

theorem perform_tracks (hkind : operation.Resuming = true) (hadmits : admits operation = true) :
    Tracks a (operation.markFor a.identity) [] (perform operation)
      fun _ => Ended true a (operation.markFor a.identity) := by
  cases operation with
  | resume subject now marker expected env =>
    exact Triple.discards (resumeSnapshotLeaseMarked_tracks subject now marker expected env)
  | release subject env =>
    exact Tracks.ended (Tracks.quietly requireHealthy_quiet fun _ =>
      Tracks.quietly (registerAllPending_quiet _) fun _ => retryPendingReleases_tracks env)
  | openLedger clock frontier blocks others segments env =>
    exact Tracks.ended (openLedger_tracks clock frontier blocks (others_of_admits hadmits) segments env)
  | publishOthers others =>
    exact Tracks.ended (Tracks.quietly (refreshState_quiet none) fun _ =>
      publishSegments_tracks (others_of_admits hadmits) .committed)
  | dropAttempt | advance | poison => exact Tracks.ended (Triple.changes fun _ hw => hw)
  | create | usage | recordUsage | prepare | commit | rollback => cases hkind

def World.succeeds (w : World) (operation : Operation) : Bool :=
  match (perform operation).run w with
  | .ok _ _ => true
  | .error _ _ => false

theorem after_ended {w : World} (hkind : operation.Resuming = true)
    (hadmits : admits operation = true) (hw : Marked a [] w) :
    Ended (w.succeeds operation) a (operation.markFor a.identity) (w.after operation) := by
  have hends := perform_tracks hkind hadmits w hw
  unfold World.succeeds World.after
  cases hrun : (perform operation).run w with
  | ok _ w' =>
    rw [hrun] at hends
    exact hends
  | error failure w' =>
    rw [hrun] at hends
    exact hends

/-- What the durable record of the lease says, if there is one. -/
def durableResumes (identity : SnapshotLeaseId) (w : World) : Option Resumes :=
  w.catalog.durable.objects.findSome? fun bytes =>
    match readResumes bytes with
    | .ok (found, resumes) => if found = identity then some resumes else none
    | .error _ => none

/-- The boundary of a marked resume of the lease with which another record of it becomes durable. -/
def publishedMark (identity : SnapshotLeaseId) (w : World) (operation : Operation) : Option ResumeMark :=
  (operation.markFor identity).filter fun _ =>
    (durableResumes identity w).any fun old =>
      (durableResumes identity (w.after operation)).any fun new => decide (new ≠ old)

/-- The boundary of a marked resume of the lease that is granted. -/
def grantedMark (identity : SnapshotLeaseId) (w : World) (operation : Operation) : Option ResumeMark :=
  (operation.markFor identity).filter fun _ => w.succeeds operation

def marksAlong (mark : World → Operation → Option ResumeMark) : World → List Operation → List ResumeMark
  | _, [] => []
  | w, operation :: operations => (mark w operation).toList ++ marksAlong mark (w.after operation) operations

/-- How many of the boundaries equal the one just before. -/
def repeatsFrom : Option ResumeMark → List ResumeMark → Nat
  | _, [] => 0
  | last, mark :: marks => (if last = some mark then 1 else 0) + repeatsFrom (some mark) marks

section Runs

variable {identity : SnapshotLeaseId} {w w' : World} {old : Resumes}

theorem Marked.durable {resumes : Resumes} (h : Marked a known w) (hresumes : durableResumes a.identity w = some resumes) :
    resumes = a.resumes ∧ a.held := by
  obtain ⟨bytes, hbytes, hread⟩ := exists_of_findSome?_eq_some hresumes
  refine h.account bytes hbytes resumes ?_
  split at hread
  · rename_i found resumes' hfound
    rw [Option.ite_none_right_eq_some] at hread
    obtain ⟨rfl, hsame⟩ := hread
    cases hsame
    exact hfound
  · cases hread

theorem Shown.durable (h : Shown identity w) : ∃ resumes, durableResumes identity w = some resumes := by
  obtain ⟨bytes, hbytes, found, hread⟩ := h
  rw [← Option.isSome_iff_exists, ← Option.ne_none_iff_isSome]
  intro hnone
  have hmissed := findSome?_eq_none_iff.mp hnone bytes hbytes
  rw [hread] at hmissed
  simp at hmissed

/-- What one operation does to the durable record of the lease, and what it counts as. -/
theorem step_resumes {operation : Operation} (hkind : operation.Resuming = true)
    (hadmits : admits operation = true) (hw : Marked ⟨identity, old, True⟩ [] w) :
    publishedMark identity w operation = none ∧ grantedMark identity w operation = none ∧
      Marked ⟨identity, old, True⟩ [] (w.after operation) ∨
    ∃ mark new, publishedMark identity w operation = some mark ∧
      (grantedMark identity w operation).toList.Sublist [mark] ∧ old.Next mark new ∧
      Marked ⟨identity, new, True⟩ [] (w.after operation) := by
  have hshown : Marked ⟨identity, old, Shown identity w⟩ [] w :=
    ⟨hw.current, hw.known, fun bytes hbytes found hread =>
      ⟨(hw.account bytes hbytes found hread).1, bytes, hbytes, found, hread⟩⟩
  have hforget : ∀ {new}, Marked ⟨identity, new, Shown identity w⟩ [] (w.after operation) →
      Marked ⟨identity, new, True⟩ [] (w.after operation) := fun h =>
    ⟨h.current, h.known, fun bytes hbytes found hread => ⟨(h.account bytes hbytes found hread).1, trivial⟩⟩
  unfold publishedMark grantedMark
  rcases after_ended hkind hadmits hshown with ⟨hmarked, hnone⟩ | ⟨mark, hmark, new, hnext, hmarked, hafter⟩
  · refine .inl ⟨?_, ?_, hforget hmarked⟩ <;> rw [Option.filter_eq_none_iff]
    · intro mark _ hpublished
      simp only [Option.any_eq_true, decide_eq_true_eq] at hpublished
      obtain ⟨before, hbefore, after, hafter, hne⟩ := hpublished
      exact hne ((Marked.durable hmarked hafter).1.trans (Marked.durable hw hbefore).1.symm)
    · intro mark hmark hgranted
      rw [hnone hgranted] at hmark
      cases hmark
  · obtain ⟨after, hdurable⟩ := hafter.durable
    obtain ⟨rfl, hheld⟩ := Marked.durable hmarked hdurable
    obtain ⟨before, hbefore⟩ := Shown.durable hheld
    obtain rfl := (Marked.durable hw hbefore).1
    have hne : after ≠ before := fun h => by
      have hcount := hnext.count
      rw [h] at hcount
      exact absurd hcount (Nat.ne_of_lt (Nat.lt_succ_self _))
    simp only [Option.mem_def] at hmark hdurable
    refine .inr ⟨mark, after, ?_, ?_, hnext, hforget hmarked⟩
    · simp [hmark, hbefore, hdurable, hne]
    · rw [hmark, Option.filter_some]
      split
      · exact List.Sublist.refl _
      · exact nil_sublist _

theorem run_resumes {operations : List Operation} (hw : Marked ⟨identity, old, True⟩ [] w)
    (hkinds : ∀ operation ∈ operations, operation.Resuming = true)
    (hrun : run World.step w operations = some w') :
    (marksAlong (grantedMark identity) w operations).Sublist (marksAlong (publishedMark identity) w operations) ∧
      (old.last.toList ++ marksAlong (publishedMark identity) w operations).Pairwise NotBack ∧
      ∃ new, Marked ⟨identity, new, True⟩ [] w' ∧
        new.count.1 = old.count.1 + (marksAlong (publishedMark identity) w operations).length ∧
        new.repeats.1 = old.repeats.1 + repeatsFrom old.last (marksAlong (publishedMark identity) w operations) := by
  induction operations generalizing w old with
  | nil =>
    cases hrun
    refine ⟨List.Sublist.refl _, ?_, old, hw, rfl, rfl⟩
    cases old.last with
    | none => exact List.Pairwise.nil
    | some mark => exact pairwise_singleton _ _
  | cons operation operations ih =>
    obtain ⟨hkind, hkinds⟩ := forall_mem_cons.mp hkinds
    obtain ⟨next, hstep, hrun⟩ := run_cons hrun
    obtain ⟨hadmits, hnext⟩ := Option.ite_none_right_eq_some.mp hstep
    cases hnext
    unfold marksAlong
    rcases step_resumes hkind hadmits hw with ⟨hpublished, hgranted, hmarked⟩ |
      ⟨mark, new, hpublished, hgranted, hnext, hmarked⟩
    · rw [hpublished, hgranted]
      exact ih hmarked hkinds hrun
    · obtain ⟨hsublist, hordered, final, hfinal, hcount, hrepeats⟩ := ih hmarked hkinds hrun
      rw [hpublished]
      rw [hnext.last] at hordered hrepeats
      refine ⟨hgranted.append hsublist, ?_, final, hfinal, ?_, ?_⟩
      · have hforward := hnext.forward
        cases hlast : old.last with
        | none => exact hordered
        | some before =>
          -- every later boundary is compared with this one through the one published now
          have hnow := hforward before hlast
          refine pairwise_cons.mpr ⟨forall_mem_cons.mpr ⟨hnow, fun later hlater => ?_⟩, hordered⟩
          exact hnow.trans ((pairwise_cons.mp hordered).1 later hlater)
      · rw [hcount, hnext.count, length_append]
        simp only [Option.toList_some, length_singleton]
        omega
      · rw [hrepeats, hnext.repeats]
        simp only [Option.toList_some, cons_append, nil_append, repeatsFrom]
        omega

end Runs

/-- From any state that a run reaches, in which the durable record of a lease says `old`: through resumes,
failures, restarts and releases no marked resume is granted at a boundary before that of an earlier one, and
the record counts every resume that was published, known or unknown to the process. -/
theorem resume_markers_never_go_back {scope : SegmentScope} {retentionTime : Bool} {catalog : Generation}
    (hcatalog : ∀ bytes ∈ catalog.objects, leaseMagic.isPrefixOf bytes = false) {setup operations : List Operation}
    {w w' : World} (hsetup : run World.step (World.start scope retentionTime catalog) setup = some w)
    {identity : SnapshotLeaseId} {old : Resumes} (hlease : ∀ bytes ∈ w.catalog.durable.objects, ∀ found,
      readResumes bytes = .ok (identity, found) → found = old)
    (hkinds : ∀ operation ∈ operations, operation.Resuming = true) (hrun : run World.step w operations = some w') :
    (marksAlong (grantedMark identity) w operations).Pairwise NotBack ∧
    (marksAlong (grantedMark identity) w operations).Sublist (marksAlong (publishedMark identity) w operations) ∧
    (old.last.toList ++ marksAlong (publishedMark identity) w operations).Pairwise NotBack ∧
    ∀ new, durableResumes identity w' = some new →
      new.count.1 = old.count.1 + (marksAlong (publishedMark identity) w operations).length ∧
      new.repeats.1 = old.repeats.1 + repeatsFrom old.last (marksAlong (publishedMark identity) w operations) := by
  have hinv : Inv (fun _ => True) False scope w :=
    run_inv (fun hB => hB.elim) hcatalog (fun _ _ _ _ => trivial) (fun hB => hB.elim) hsetup
  have hw : Marked ⟨identity, old, True⟩ [] w :=
    ⟨hinv.sound.known, fun _ hmem => absurd hmem not_mem_nil,
      fun bytes hbytes found hread => ⟨hlease bytes hbytes found hread, trivial⟩⟩
  obtain ⟨hsublist, hordered, new, hmarked, hcount, hrepeats⟩ := run_resumes hw hkinds hrun
  refine ⟨(pairwise_append.mp hordered).2.1.sublist hsublist, hsublist, hordered, ?_⟩
  intro found hfound
  rw [(Marked.durable hmarked hfound).1]
  exact ⟨hcount, hrepeats⟩

def sampleResume (sequence : U64) (publish : PublicationOutcome) : List Operation :=
  [.resume sampleIdentity (.ok (.wrap 64 11)) (some (sequence, noDigest)) none (calm sampleIdentity publish),
    .dropAttempt sampleIdentity]

/-- Two resumes at one boundary, of which the process does not learn of the second, a restart, and a third
resume further on. -/
def sampleResumes : List Operation :=
  sampleResume (.wrap 64 5) ⟨.committed, true⟩ ++ sampleResume (.wrap 64 5) ⟨.unacknowledged, false⟩ ++
    [.publishOthers [], .openLedger (.strict none) (Unsigned.zero 64) [] [] .committed
      (calm sampleIdentity ⟨.committed, true⟩)] ++ sampleResume (.wrap 64 7) ⟨.committed, true⟩

theorem sample_resumes_counted :
    ∃ w w', run World.step (World.start .sample true emptyCatalog) ((resumedAt noSequence).take 2) = some w ∧
      run World.step w sampleResumes = some w' ∧
      (marksAlong (grantedMark sampleIdentity) w sampleResumes).map (·.1.1) = [5, 7] ∧
      ∃ new, durableResumes sampleIdentity w' = some new ∧ new.repeats.1 = 1 ∧
        new.count.1 = (marksAlong (publishedMark sampleIdentity) w sampleResumes).length := by
  have hruns : ((run World.step (World.start .sample true emptyCatalog) ((resumedAt noSequence).take 2)).any fun w =>
      decide (w.catalog.durable.objects.map readResumes =
        [.ok (sampleIdentity, ⟨Unsigned.zero 64, Unsigned.zero 64, none⟩)] ∧
        (marksAlong (grantedMark sampleIdentity) w sampleResumes).map (·.1.1) = [5, 7]) &&
      (run World.step w sampleResumes).any fun w' =>
        (durableResumes sampleIdentity w').any fun new => decide (new.repeats.1 = 1)) = true := by
    decide +kernel
  obtain ⟨w, hsetup, hfacts⟩ := (Option.any_eq_true _ _).mp hruns
  rw [Bool.and_eq_true, decide_eq_true_eq] at hfacts
  obtain ⟨⟨hlease, hgranted⟩, hfacts⟩ := hfacts
  obtain ⟨w', hrun, hfacts⟩ := (Option.any_eq_true _ _).mp hfacts
  obtain ⟨new, hnew, hrepeats⟩ := (Option.any_eq_true _ _).mp hfacts
  have hlease : ∀ bytes ∈ w.catalog.durable.objects, ∀ found, readResumes bytes = .ok (sampleIdentity, found) →
      found = ⟨Unsigned.zero 64, Unsigned.zero 64, none⟩ := by
    intro bytes hbytes found hread
    have hmem := hlease ▸ mem_map_of_mem hbytes
    rw [hread, mem_singleton] at hmem
    cases hmem
    rfl
  have hcounted := (resume_markers_never_go_back (fun _ h => absurd h not_mem_nil) hsetup hlease
    (by decide) hrun).2.2.2 new hnew
  exact ⟨w, w', hsetup, hrun, hgranted, new, hnew, of_decide_eq_true hrepeats, hcounted.1.trans (Nat.zero_add _)⟩

end Positron.Lease
