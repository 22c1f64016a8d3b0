import Positron.Tail.Merge

/-! The live phase of a tail. Its invariant says what is acknowledged of each shard and what a waiting batch holds, and
every step keeps it. One flag of the cursor says for all shards whether a position stands for a record or for its block,
so the invariant needs a condition on the blocks at the start. -/

namespace Positron.Tail
open MachineInt Checks Query List Keyed TailSession

section Reading

variable {plan : LogicalPlan} {base source : Source} {bound : Nat ×ₗ Nat} {acknowledged : List TailCandidate}

def selectedBetween (plan : LogicalPlan) (source : Source) (low high : Nat ×ₗ Nat) : List TailCandidate :=
  (recordsBetween source low high).filterMap (candidateOf plan false source.shard)

variable {record : ScannedLogRecord} {low middle high : Nat ×ₗ Nat}

theorem identity_le_blockEnd (h : record ∈ source.snapshot.records) :
    record.identity ≤ blockEnd source.snapshot.frontier := by
  apply not_lt.mp
  rw [blockEnd_lt_iff]
  exact not_lt.mpr (LogSnapshot.mem_records_bounded h)

/-- Where the reading of a source stands that began at the frontier of the base. -/
structure Reads (plan : LogicalPlan) (base source : Source) (bound : Nat ×ₗ Nat) (acknowledged : List TailCandidate) :
    Prop where
  acknowledged_eq : acknowledged = selectedBetween plan source (blockEnd base.snapshot.frontier) bound
  beyond : ∀ record ∈ source.snapshot.records, bound < record.identity →
    blockEnd base.snapshot.frontier < record.identity
  behind : bound ≤ blockEnd source.snapshot.frontier
  kept : ∀ record ∈ source.snapshot.records, record.commitPosition.1 ≤ base.snapshot.frontier.1 →
    record ∈ base.snapshot.records

theorem extendSnapshot_records (snapshot : LogSnapshot) (block : LogBlock)
    (h : snapshot.frontier.1 < block.position.1) :
    (extendSnapshot snapshot block h).records = snapshot.records ++ block.identified := by
  simp [LogSnapshot.records, extendSnapshot]

theorem commitOn_cases (shard : VirtualShardId) (block : LogBlock) (source : Source) :
    commitOn shard block source = source ∨ ∃ h : source.snapshot.frontier.1 < block.position.1,
      commitOn shard block source = ⟨source.shard, extendSnapshot source.snapshot block h⟩ := by
  unfold commitOn Source.commit
  split
  · split
    · rename_i h
      exact .inr ⟨h, rfl⟩
    · exact .inl rfl
  · exact .inl rfl

theorem blockEnd_lt_new {snapshot : LogSnapshot} {block : LogBlock} (h : snapshot.frontier.1 < block.position.1)
    (hmem : record ∈ block.identified) : blockEnd snapshot.frontier < record.identity := by
  apply blockEnd_lt_iff.mpr
  rw [mem_identified hmem]
  exact h

theorem selectedBetween_extend (hhigh : high ≤ blockEnd source.snapshot.frontier)
    (block : LogBlock) (h : source.snapshot.frontier.1 < block.position.1) :
    selectedBetween plan ⟨source.shard, extendSnapshot source.snapshot block h⟩ low high =
      selectedBetween plan source low high := by
  unfold selectedBetween recordsBetween
  rw [extendSnapshot_records, between_append_of_lt fun record hmem => lt_of_le_of_lt hhigh (blockEnd_lt_new h hmem)]

theorem Reads.extend (hreads : Reads plan base source bound acknowledged) (hbase : base.snapshot.frontier.1 ≤
    source.snapshot.frontier.1) (block : LogBlock) (h : source.snapshot.frontier.1 < block.position.1) :
    Reads plan base ⟨source.shard, extendSnapshot source.snapshot block h⟩ bound acknowledged := by
  refine ⟨?_, ?_, ?_, ?_⟩
  · rw [selectedBetween_extend hreads.behind]
    exact hreads.acknowledged_eq
  · intro record hmem hlt
    rw [extendSnapshot_records] at hmem
    rcases mem_append.mp hmem with hold | hnew
    · exact hreads.beyond record hold hlt
    · apply blockEnd_lt_iff.mpr
      exact Nat.lt_of_le_of_lt hbase (blockEnd_lt_iff.mp (blockEnd_lt_new h hnew))
  · exact le_trans hreads.behind (le_of_lt (lex_lt_iff.mpr (.inl h)))
  · intro record hmem hle
    rw [extendSnapshot_records] at hmem
    rcases mem_append.mp hmem with hold | hnew
    · exact hreads.kept record hold hle
    · have hlt := blockEnd_lt_iff.mp (blockEnd_lt_new h hnew)
      omega

theorem recordsBetween_split
    (hlow : ∀ record ∈ source.snapshot.records, middle < record.identity → low < record.identity)
    (hhigh : middle ≤ high) :
    recordsBetween source low high = recordsBetween source low middle ++ recordsBetween source middle high :=
  between_split source.snapshot.records_pairwise hlow hhigh

theorem selectedBetween_split
    (hlow : ∀ record ∈ source.snapshot.records, middle < record.identity → low < record.identity)
    (hhigh : middle ≤ high) : selectedBetween plan source low high =
      selectedBetween plan source low middle ++ selectedBetween plan source middle high := by
  unfold selectedBetween
  rw [recordsBetween_split hlow hhigh, filterMap_append]

theorem Reads.advance (hreads : Reads plan base source bound acknowledged) {high : Nat ×ₗ Nat} (hlt : bound < high)
    (hbehind : high ≤ blockEnd source.snapshot.frontier) :
    Reads plan base source high (acknowledged ++ selectedBetween plan source bound high) := by
  refine ⟨?_, fun record hmem h => hreads.beyond record hmem (lt_trans hlt h), hbehind, hreads.kept⟩
  rw [hreads.acknowledged_eq, ← selectedBetween_split hreads.beyond (le_of_lt hlt)]

/-- Only the first record of a frontier's block may be passed over as one record. -/
def SingleFrontier (base : Source) : Prop :=
  ∀ record ∈ base.snapshot.records, record.commitPosition = base.snapshot.frontier → record.recordOrdinal.1 = 0

theorem selectedBetween_of_le (h : high ≤ low) : selectedBetween plan source low high = [] := by
  unfold selectedBetween recordsBetween
  rw [between_of_le h]
  rfl

theorem Reads.rebind (hsingle : SingleFrontier base)
    (hreads : Reads plan base source (blockEnd base.snapshot.frontier) acknowledged) :
    Reads plan base source (toLex (base.snapshot.frontier.1, 0)) acknowledged := by
  have hle : toLex (base.snapshot.frontier.1, 0) ≤ blockEnd base.snapshot.frontier :=
    lex_le_iff.mpr (.inr ⟨rfl, Nat.zero_le _⟩)
  refine ⟨?_, ?_, le_trans hle hreads.behind, hreads.kept⟩
  · rw [hreads.acknowledged_eq, selectedBetween_of_le le_rfl, selectedBetween_of_le hle]
  · intro record hmem hlt
    apply blockEnd_lt_iff.mpr
    by_contra hnot
    have hpos : record.commitPosition = base.snapshot.frontier := by
      apply Subtype.ext
      have hcases := lex_lt_iff.mp hlt
      omega
    have hzero := hsingle record (hreads.kept record hmem (Nat.not_lt.mp hnot)) hpos
    have hcases := lex_lt_iff.mp hlt
    omega

end Reading

section World

variable {query : TailQuery} {start : TailSourceSet} {world : TailWorld}

/-- Of a source the waiting batch holds what stands between the bound and the position that it moves to. -/
def Waits (plan : LogicalPlan) (source : Source) (bound : Nat ×ₗ Nat) (candidates : List TailCandidate) :
    Option TailPosition → Prop
  | none => candidates = []
  | some position => bound < position.identity ∧
      (∃ record ∈ source.snapshot.records, record.identity = position.identity) ∧
      candidates = selectedBetween plan source bound position.identity

structure SourceSound (query : TailQuery) (world : TailWorld) (base source : Source) (entry : TailPosition) : Prop where
  same : base.shard = source.shard
  found : lookup source.shard world.session.state.positions = some entry
  grown : base.snapshot.frontier.1 ≤ source.snapshot.frontier.1
  reads : Reads query.plan base source (world.session.scanAfter entry).bound (taken world.acknowledged source.shard)
  fresh : world.session.state.recordBound = false → entry = .new base.shard base.snapshot.frontier
  waits : ∀ pending, world.session.pendingBatch = some pending →
    Waits query.plan source (world.session.scanAfter entry).bound (taken pending.candidates source.shard)
      (lookup source.shard pending.positions)

structure PendingLive (query : TailQuery) (readers : List Source) (state : TailCursorState) (pending : PendingBatch) :
    Prop where
  ongoing : pending.historicalComplete = false
  distinct : (pending.positions.map (·.shard)).Nodup
  known : ∀ position ∈ pending.positions, position.shard ∈ readers.map (·.shard)
  nonempty : pending.candidates ≠ []
  sourced : ∀ candidate ∈ pending.candidates, candidate.position.shard ∈ readers.map (·.shard)
  affordable : state.outputRows.1 + pending.candidates.length ≤ query.outputRows.1

structure LiveSound (query : TailQuery) (start : TailSourceSet) (world : TailWorld) : Prop where
  live : world.session.historicalFrontiers = []
  unmarked : world.session.state.historicalMarkers = none
  unreplayed : world.session.replay = false ∧ world.session.replayDelivery = none ∧
    world.session.state.unacknowledgedDelivery = none
  /-- No batch is without a row. -/
  counted : world.session.state.sequence.1 ≤ world.session.state.outputRows.1
  arranged : Arranged world.session.state.positions
  sources : ∀ source ∈ world.sources.readers, ∃ base ∈ start.readers, ∃ entry, SourceSound query world base source entry
  shards : world.sources.readers.map (·.shard) = start.readers.map (·.shard)
  pending : ∀ pending, world.session.pendingBatch = some pending →
    PendingLive query world.sources.readers world.session.state pending

/-- The positions of an untouched block are read as a block, or the frontier blocks hold one record each. -/
def FrontiersHold (start : TailSourceSet) : Prop :=
  start.readers.length = 1 ∨ ∀ base ∈ start.readers, SingleFrontier base

theorem TailSourceSet.distinct (sources : TailSourceSet) : (sources.readers.map (·.shard)).Nodup := by
  apply pairwise_map.mpr
  exact sources.ordered.imp fun hab heq => absurd (congrArg (·.1.1) heq) (Nat.ne_of_lt hab)

theorem identity_le_bound (session : TailSession) (entry : TailPosition) :
    entry.identity ≤ (session.scanAfter entry).bound := by
  unfold scanAfter
  split
  · exact le_rfl
  · exact lex_le_iff.mpr (.inr ⟨rfl, entry.ordinal.2⟩)

/-- What a fill delivers waits behind the bound of its source. -/
theorem waits_of_delivers (hunreplayed : world.session.replay = false) {source : Source} {entry : TailPosition}
    (hfound : lookup source.shard world.session.state.positions = some entry) {limit : Nat}
    {candidates : List TailCandidate} {position : Option TailPosition}
    (h : Delivers query.plan world.session.replay source.shard
      (unread world.session limit source) candidates position) :
    Waits query.plan source (world.session.scanAfter entry).bound candidates position := by
  rw [hunreplayed] at h
  cases position with
  | none => exact h
  | some position =>
    obtain ⟨-, ⟨record, hrec, hid⟩, hcands⟩ := h
    have hremaining := mem_of_mem_take hrec
    rw [remaining_eq hfound] at hremaining
    obtain ⟨hrecs, hlt, hle⟩ := mem_between.mp hremaining
    have htake := filter_take_le (remaining_ascending world.session source) hrec
    rw [hid, remaining_eq hfound] at htake
    have hbetween := htake.trans (filter_between_le (hid ▸ hle))
    rw [← remaining_eq hfound] at hbetween
    refine ⟨hid ▸ hlt, ⟨record, hrecs, hid⟩, hcands.trans ?_⟩
    exact congrArg _ hbetween

theorem Waits.behind {plan : LogicalPlan} {source : Source} {bound : Nat ×ₗ Nat} {candidates : List TailCandidate}
    {position : TailPosition} (h : Waits plan source bound candidates (some position)) :
    position.identity ≤ blockEnd source.snapshot.frontier := by
  obtain ⟨-, ⟨record, hrec, hid⟩, -⟩ := h
  exact hid ▸ identity_le_blockEnd hrec

end World

section Steps

variable {query : TailQuery} {start : TailSourceSet} {world : TailWorld}
  {positions : List TailPosition} {position : TailPosition} {candidates : List TailCandidate}
  {updates : List TailPosition}

theorem lookup_some {shard : VirtualShardId}
    (h : lookup shard positions = some position) : position ∈ positions ∧ position.shard = shard := by
  have hfound := find?_some h
  exact ⟨mem_of_find?_eq_some h, of_decide_eq_true hfound⟩

theorem lookup_of_mem (hdist : (positions.map (·.shard)).Nodup) (hmem : position ∈ positions) :
    lookup position.shard positions = some position := by
  cases h : lookup position.shard positions with
  | none => exact absurd (decide_eq_true rfl) (find?_eq_none.mp h position hmem)
  | some other =>
    obtain ⟨hother, hshard⟩ := lookup_some h
    rw [inj_on_of_nodup_map hdist hother hmem hshard]

theorem lookup_override {positions updates : List TailPosition} (shard : VirtualShardId) :
    lookup shard (positions.map (override updates)) = (lookup shard positions).map (override updates) := by
  unfold lookup
  rw [find?_map]
  congr 2
  funext entry
  simp [override_shard]

variable (h : LiveSound query start world)
include h

section Batch

variable
    (hknown : ∀ position ∈ updates, position.shard ∈ world.sources.readers.map (·.shard))
    (hwaits : ∀ source ∈ world.sources.readers, ∀ entry,
      lookup source.shard world.session.state.positions = some entry →
      Waits query.plan source (world.session.scanAfter entry).bound (taken candidates source.shard)
        (lookup source.shard updates))
include hknown hwaits

theorem LiveSound.forward (hdist : (updates.map (·.shard)).Nodup) : Forward world.session.state.positions updates := by
  refine ⟨hdist, fun update hupdate => ?_⟩
  obtain ⟨source, hsource, hshard⟩ := mem_map.mp (hknown update hupdate)
  obtain ⟨base, -, entry, hsound⟩ := h.sources source hsource
  have hwaits := hwaits source hsource entry hsound.found
  rw [hshard, lookup_of_mem hdist hupdate] at hwaits
  obtain ⟨hmem, hentry⟩ := lookup_some hsound.found
  exact ⟨entry, hmem, hentry.trans hshard, le_of_lt (lt_of_le_of_lt (identity_le_bound _ entry) hwaits.1)⟩

/-- A batch is taken into account, or an empty one passes over the records that were looked at. -/
theorem LiveSound.advance (hfrontiers : FrontiersHold start) (hne : updates ≠ [])
    (session : TailSession)
    (hpositions : session.state.positions = world.session.state.positions.map (override updates))
    (hbound : session.state.recordBound) (hlive : session.historicalFrontiers = [])
    (hunmarked : session.state.historicalMarkers = none)
    (hunreplayed : session.replay = false ∧ session.replayDelivery = none ∧ session.state.unacknowledgedDelivery = none)
    (hcounted : session.state.sequence.1 ≤ session.state.outputRows.1) (hpending : session.pendingBatch = none) :
    LiveSound query start ⟨world.sources, session, world.acknowledged ++ candidates⟩ := by
  refine ⟨hlive, hunmarked, hunreplayed, hcounted, hpositions ▸ h.arranged.map_override, ?_, h.shards,
    fun pending hsome => by rw [hpending] at hsome; cases hsome⟩
  intro source hsource
  obtain ⟨base, hbase, entry, hsound⟩ := h.sources source hsource
  have hwaits := hwaits source hsource entry hsound.found
  have hafter : ∀ position, (session.scanAfter position).bound = position.identity := by
    intro position
    unfold scanAfter
    rw [hbound]
    rfl
  have hshard := (lookup_some hsound.found).2
  have htaken : taken (world.acknowledged ++ candidates) source.shard =
      taken world.acknowledged source.shard ++ taken candidates source.shard := filter_append ..
  refine ⟨base, hbase, override updates entry, hsound.same, ?_, hsound.grown, ?_,
    fun hfalse => absurd (hbound.symm.trans hfalse) Bool.true_eq_false.mp, fun pending hsome => by
      rw [hpending] at hsome; cases hsome⟩
  · rw [hpositions, lookup_override, hsound.found]
    rfl
  · rw [hafter, htaken]
    have hoverride : override updates entry = (lookup source.shard updates).getD entry := by rw [← hshard]; rfl
    rw [hoverride]
    cases hupdate : lookup source.shard updates with
    | some update =>
      rw [hupdate] at hwaits
      have hbehind := hwaits.behind
      obtain ⟨hlt, -, hcands⟩ := hwaits
      rw [hcands]
      exact hsound.reads.advance hlt hbehind
    | none =>
      rw [hupdate] at hwaits
      rw [show taken candidates source.shard = [] from hwaits, append_nil]
      have hreads := hsound.reads
      unfold scanAfter at hreads
      split at hreads
      · exact hreads
      · -- The flag turns a block that no batch has touched into its first record.
        rename_i hblock
        have hentry := hsound.fresh (Bool.eq_false_iff.mpr hblock)
        rw [hentry] at hreads ⊢
        refine .rebind ?_ hreads
        rcases hfrontiers with hone | hsingle
        · obtain ⟨update, hmem⟩ := exists_mem_of_ne_nil _ hne
          have hlen : (world.sources.readers.map (·.shard)).length = 1 := by
            rw [h.shards, length_map, hone]
          obtain ⟨only, honly⟩ := length_eq_one_iff.mp hlen
          have hupdateShard := hknown update hmem
          have hsourceShard := mem_map_of_mem (f := (·.shard)) hsource
          rw [honly, mem_singleton] at hupdateShard hsourceShard
          have hnone := find?_eq_none.mp hupdate update hmem
          exact absurd (decide_eq_true (hupdateShard.trans hsourceShard.symm)) hnone
        · exact hsingle base hbase

end Batch

theorem LiveSound.frame {session : TailSession} (hsame : SameProgress world.session session)
    (hpending : session.pendingBatch = none ∨ session.pendingBatch = world.session.pendingBatch) :
    LiveSound query start { world with session := session } := by
  have hbound : ∀ entry, session.scanAfter entry = world.session.scanAfter entry := by
    intro entry
    unfold scanAfter
    rw [hsame.state]
  have hwaiting : ∀ pending, session.pendingBatch = some pending → world.session.pendingBatch = some pending := by
    intro pending hsome
    rcases hpending with hnone | heq
    · rw [hnone] at hsome
      cases hsome
    · rw [← heq, hsome]
  refine ⟨hsame.frontiers.trans h.live, hsame.state ▸ h.unmarked, ⟨hsame.replay.trans h.unreplayed.1,
    hsame.replayDelivery.trans h.unreplayed.2.1, hsame.state ▸ h.unreplayed.2.2⟩, hsame.state ▸ h.counted,
    hsame.state ▸ h.arranged, ?_, h.shards, fun pending hsome =>
      hsame.state ▸ h.pending pending (hwaiting pending hsome)⟩
  · intro source hsource
    obtain ⟨base, hbase, entry, hsound⟩ := h.sources source hsource
    refine ⟨base, hbase, entry, hsound.same, ?_, hsound.grown, ?_, ?_, ?_⟩
    · rw [hsame.state]
      exact hsound.found
    · rw [hbound]
      exact hsound.reads
    · rw [hsame.state]
      exact hsound.fresh
    · rw [hbound]
      exact fun pending hsome => hsound.waits pending (hwaiting pending hsome)

theorem LiveSound.commit (shard : VirtualShardId) (block : LogBlock) :
    LiveSound query start (tailStep query world (.commit shard block)) := by
  have hshards : (world.sources.readers.map (commitOn shard block)).map (·.shard) =
      world.sources.readers.map (·.shard) := by
    rw [map_map]
    exact map_congr_left fun source _ => commitOn_shard shard block source
  refine ⟨h.live, h.unmarked, h.unreplayed, h.counted, h.arranged, ?_, hshards.trans h.shards, fun pending hsome => ?_⟩
  · intro grown hgrown
    obtain ⟨source, hsource, rfl⟩ := mem_map.mp hgrown
    obtain ⟨base, hbase, entry, hsound⟩ := h.sources source hsource
    refine ⟨base, hbase, entry, ?_⟩
    rcases commitOn_cases shard block source with heq | ⟨hlt, heq⟩
    · rw [heq]
      exact ⟨hsound.same, hsound.found, hsound.grown, hsound.reads, hsound.fresh, hsound.waits⟩
    · rw [heq]
      refine ⟨hsound.same, hsound.found, Nat.le_of_lt (Nat.lt_of_le_of_lt hsound.grown hlt),
        hsound.reads.extend hsound.grown block hlt, hsound.fresh, fun pending hsome => ?_⟩
      have hwaits := hsound.waits pending hsome
      cases hpos : lookup source.shard pending.positions with
      | none =>
        rw [hpos] at hwaits
        exact hwaits
      | some position =>
        rw [hpos] at hwaits
        have hbehind := hwaits.behind
        obtain ⟨hafter, ⟨record, hrec, hid⟩, hcands⟩ := hwaits
        refine ⟨hafter, ⟨record, ?_, hid⟩, ?_⟩
        · rw [extendSnapshot_records]
          exact mem_append_left _ hrec
        · rw [selectedBetween_extend hbehind]
          exact hcands
  · have hbatch := h.pending pending hsome
    refine ⟨hbatch.ongoing, hbatch.distinct, ?_, hbatch.nonempty, ?_, hbatch.affordable⟩
    · exact fun position hmem => hshards.symm ▸ hbatch.known position hmem
    · exact fun candidate hmem => hshards.symm ▸ hbatch.sourced candidate hmem

section Acknowledged

variable {pending : PendingBatch} (hpending : world.session.pendingBatch = some pending)
include hpending

theorem LiveSound.waits : ∀ source ∈ world.sources.readers, ∀ entry,
    lookup source.shard world.session.state.positions = some entry →
    Waits query.plan source (world.session.scanAfter entry).bound (taken pending.candidates source.shard)
      (lookup source.shard pending.positions) := by
  intro source hsource entry hentry
  obtain ⟨base, -, other, hsound⟩ := h.sources source hsource
  cases hsound.found.symm.trans hentry
  exact hsound.waits pending hpending

theorem LiveSound.pending_positions_ne_nil : pending.positions ≠ [] := by
  intro hnil
  have hbatch := h.pending pending hpending
  obtain ⟨candidate, hcand⟩ := exists_mem_of_ne_nil _ hbatch.nonempty
  obtain ⟨source, hsource, hshard⟩ := mem_map.mp (hbatch.sourced candidate hcand)
  obtain ⟨base, -, entry, hsound⟩ := h.sources source hsource
  have hwaits := hsound.waits pending hpending
  rw [hnil] at hwaits
  have htaken : candidate ∈ taken pending.candidates source.shard := mem_filter.mpr ⟨hcand, decide_eq_true hshard.symm⟩
  rw [show taken pending.candidates source.shard = [] from hwaits] at htaken
  cases htaken

/-- The cursor behind a waiting batch. -/
theorem LiveSound.candidateAdvance_eq {outputRows : U64}
    (hrows : world.session.checkedOutputTotals query pending.candidates.length = .ok outputRows) :
    ∃ sequence : U64, sequence.1 = world.session.state.sequence.1 + 1 ∧ sequence.1 ≤ outputRows.1 ∧
      world.session.candidateAdvance pending outputRows =
        .ok ⟨world.session.state.positions.map (override pending.positions), true, sequence, pending.digest, outputRows,
          world.session.state.historicalMarkers, pending.historicalKey.or world.session.state.historicalKey, none⟩ := by
  have hbatch := h.pending pending hpending
  obtain ⟨htotal, hle⟩ := checkedOutputTotals_ok_iff.mp hrows
  have hcounted := h.counted
  have hpos := length_pos_iff.mpr hbatch.nonempty
  have hword := query.outputRows.2
  obtain ⟨sequence, hsequence⟩ : ∃ sequence : U64, sequence.1 = world.session.state.sequence.1 + 1 :=
    ⟨⟨world.session.state.sequence.1 + 1, by omega⟩, rfl⟩
  refine ⟨sequence, hsequence, by omega, ?_⟩
  let paid : TailCursorState := { world.session.state with
    historicalKey := pending.historicalKey.or world.session.state.historicalKey, outputRows := outputRows }
  have harranged : Arranged paid.positions := h.arranged
  have hforward := h.forward hbatch.known (h.waits hpending) hbatch.distinct
  unfold TailSession.candidateAdvance
  rw [bind_eq_of_ok (TailCursorState.advanceBatch_eq harranged (h.pending_positions_ne_nil hpending) hforward
    hsequence pending.digest), hbatch.ongoing]
  rfl

theorem LiveSound.acknowledge_pending : ∃ session, tailStep query world
      (.acknowledge world.session.state.sequence pending.digest) =
        ⟨world.sources, session, world.acknowledged ++ pending.candidates⟩ ∧
    session.state.positions = world.session.state.positions.map (override pending.positions) ∧
    session.state.recordBound ∧
      session.state.outputRows.1 = world.session.state.outputRows.1 + pending.candidates.length ∧
    session.terminal = world.session.terminal ∧ session.terminalEmitted = world.session.terminalEmitted ∧
    session.header = world.session.header := by
  have haffordable := (h.pending pending hpending).affordable
  obtain ⟨outputRows, hrows⟩ : ∃ outputRows, world.session.checkedOutputTotals query pending.candidates.length =
      .ok outputRows :=
    ⟨⟨_, lt_of_le_of_lt haffordable query.outputRows.2⟩, checkedOutputTotals_ok_iff.mpr ⟨rfl, haffordable⟩⟩
  obtain ⟨sequence, -, -, hadvance⟩ := h.candidateAdvance_eq hpending hrows
  refine ⟨{ world.session with
    state := ⟨world.session.state.positions.map (override pending.positions), true, sequence, pending.digest,
      outputRows, world.session.state.historicalMarkers,
      pending.historicalKey.or world.session.state.historicalKey, none⟩
    deliveryCursor := none
    historicalFrontiers := if pending.historicalComplete then [] else world.session.historicalFrontiers
    pendingBatch := none
    lastAcknowledged := some (world.session.state.sequence, pending.digest) }, ?_, rfl, rfl,
    (checkedOutputTotals_ok_iff.mp hrows).1, rfl, rfl, rfl⟩
  have hanswer : ¬ (world.session.state.sequence ≠ world.session.state.sequence ∨ pending.digest ≠ pending.digest) :=
    not_or.mpr ⟨not_not.mpr rfl, not_not.mpr rfl⟩
  unfold tailStep TailSession.acknowledge
  dsimp only
  rw [hpending]
  dsimp only
  rw [if_neg hanswer, hrows]
  dsimp only
  rw [hadvance]

end Acknowledged

theorem LiveSound.acknowledge (hfrontiers : FrontiersHold start) (sequence : U64)
    (digest : Digest) : LiveSound query start (tailStep query world (.acknowledge sequence digest)) := by
  rcases step_acknowledge_cases sequence digest with ⟨session, hstep, hsame, hpending⟩ |
    ⟨pending, outputRows, state, hpending, hrows, hstate, hstep⟩
  · rw [hstep]
    exact h.frame hsame (.inr hpending)
  · rw [hstep]
    have hbatch := h.pending pending hpending
    obtain ⟨next, -, hcounted, hadvance⟩ := h.candidateAdvance_eq hpending hrows
    cases hadvance.symm.trans hstate
    refine h.advance hbatch.known (h.waits hpending) hfrontiers (h.pending_positions_ne_nil hpending) _ rfl rfl ?_
      h.unmarked ⟨h.unreplayed.1, h.unreplayed.2.1, rfl⟩ hcounted rfl
    rw [hbatch.ongoing]
    exact h.live

section Filling

variable {filled : TailSession}

/-- The rows that a poll may still deliver. -/
def pollLimit (query : TailQuery) (session : TailSession) : Nat :=
  min maxTailBatchRows (query.outputRows.1 - session.state.outputRows.1)

theorem LiveSound.reached_waits (limit : Nat) : ∀ source ∈ world.sources.readers, ∀ entry,
    lookup source.shard world.session.state.positions = some entry →
    Waits query.plan source (world.session.scanAfter entry).bound
      (taken (mergeOf query world.session limit world.sources.readers).records source.shard)
      (lookup source.shard (reached query world.session limit world.sources.readers)) := fun _ hsource _ hentry =>
  waits_of_delivers h.unreplayed.1 hentry (merge_delivers world.sources.distinct hsource)

theorem LiveSound.reached_forward (limit : Nat) :
    Forward world.session.state.positions (reached query world.session limit world.sources.readers) := by
  obtain ⟨hdist, hknown⟩ := @reached_sound query world.session limit _ world.sources.distinct
  exact h.forward hknown (h.reached_waits limit) hdist

/-- The session that has passed over the records of an empty merge. -/
def passedOver (query : TailQuery) (world : TailWorld) : TailSession :=
  let state := world.session.state
  { world.session with
    state := ⟨state.positions.map (override (reached query world.session (pollLimit query world.session)
      world.sources.readers)), true, state.sequence, state.priorDigest, state.outputRows, state.historicalMarkers,
      state.historicalKey, none⟩ }

/-- What a fill does: it finds nothing, passes over records that are not selected, or delivers a batch. -/
inductive Fills (query : TailQuery) (world : TailWorld) : TailSession → Prop where
  | nothing (hnil : reached query world.session (pollLimit query world.session) world.sources.readers = []) :
      Fills query world world.session
  | passed (hempty : (mergeOf query world.session (pollLimit query world.session) world.sources.readers).records = [])
      (hne : reached query world.session (pollLimit query world.session) world.sources.readers ≠ []) :
      Fills query world (passedOver query world)
  | delivered {filled : TailSession}
      (hne : (mergeOf query world.session (pollLimit query world.session) world.sources.readers).records ≠ [])
      (hdelivered : world.session.deliverRecords query
        (mergeOf query world.session (pollLimit query world.session) world.sources.readers).records
        (reached query world.session (pollLimit query world.session) world.sources.readers) false none = .ok filled) :
      Fills query world filled

theorem LiveSound.fills (hfill : world.session.fillSources query world.sources.readers maxTailBatchRows = .ok filled) :
    0 < pollLimit query world.session ∧ Fills query world filled := by
  obtain ⟨_, hlimit, hfill⟩ := bind_ok hfill
  have hlimit : 0 < pollLimit query world.session := Nat.pos_of_ne_zero (demand_eq_ok_iff.mp hlimit)
  refine ⟨hlimit, ?_⟩
  rw [if_pos h.live] at hfill
  obtain ⟨queues, hqueues, hfill⟩ := bind_ok hfill
  cases readSources_ok hlimit hqueues
  change (if (mergeOf query world.session (pollLimit query world.session) world.sources.readers).records = [] then _
    else _) = _ at hfill
  split at hfill
  · rename_i hempty
    obtain ⟨_, -, hfill⟩ := bind_ok hfill
    split at hfill
    · rename_i hnil
      cases hfill
      exact .nothing hnil
    · rename_i hne
      obtain ⟨state, hstate, hfill⟩ := bind_ok hfill
      cases hfill
      cases (TailCursorState.advancePositions_eq h.arranged hne (h.reached_forward _)).symm.trans hstate
      exact .passed hempty hne
  · rename_i hne
    exact .delivered hne hfill

theorem LiveSound.passedOver (hfrontiers : FrontiersHold start) (hnone : world.session.pendingBatch = none)
    (hempty : (mergeOf query world.session (pollLimit query world.session) world.sources.readers).records = [])
    (hne : reached query world.session (pollLimit query world.session) world.sources.readers ≠ []) :
    LiveSound query start { world with session := passedOver query world } := by
  obtain ⟨hdist, hknown⟩ := @reached_sound query world.session (pollLimit query world.session) _ world.sources.distinct
  have hadvance := h.advance hknown (h.reached_waits _) hfrontiers hne (Tail.passedOver query world) rfl rfl h.live
    h.unmarked ⟨h.unreplayed.1, h.unreplayed.2.1, rfl⟩ h.counted hnone
  rw [hempty, append_nil] at hadvance
  exact hadvance

theorem LiveSound.delivered
    (hne : (mergeOf query world.session (pollLimit query world.session) world.sources.readers).records ≠ [])
    (hdelivered : world.session.deliverRecords query
      (mergeOf query world.session (pollLimit query world.session) world.sources.readers).records
      (reached query world.session (pollLimit query world.session) world.sources.readers) false none = .ok filled) :
    LiveSound query start { world with session := filled } := by
  obtain ⟨hdist, hknown⟩ := @reached_sound query world.session (pollLimit query world.session) _ world.sources.distinct
  obtain ⟨haffordable, digest, rfl⟩ := deliverRecords_ok hdelivered
  refine ⟨h.live, h.unmarked, ⟨by rw [h.unreplayed.1]; rfl, rfl, h.unreplayed.2.2⟩, h.counted, h.arranged, ?_,
    h.shards, ?_⟩
  · intro source hsource
    obtain ⟨base, hbase, entry, hsound⟩ := h.sources source hsource
    refine ⟨base, hbase, entry, hsound.same, hsound.found, hsound.grown, hsound.reads, hsound.fresh, ?_⟩
    intro pending hsome
    cases hsome
    exact h.reached_waits _ source hsource entry hsound.found
  · intro pending hsome
    cases hsome
    exact ⟨rfl, hdist, hknown, hne, fun _ hmem => merge_sourced world.sources.distinct hmem, haffordable⟩

theorem LiveSound.fill (hfrontiers : FrontiersHold start) (hnone : world.session.pendingBatch = none)
    (hfill : world.session.fillSources query world.sources.readers maxTailBatchRows = .ok filled) :
    LiveSound query start { world with session := filled } := by
  cases (h.fills hfill).2 with
  | nothing => exact h
  | passed hempty hne => exact h.passedOver hfrontiers hnone hempty hne
  | delivered hne hdelivered => exact h.delivered hne hdelivered

end Filling

theorem LiveSound.resume : LiveSound query start (tailStep query world .resume) := by
  obtain ⟨session, hstep, hnone, hsame | hopened⟩ := step_resume_cases h.unreplayed.2.2
  · rw [hstep]
    exact h.frame hsame (.inl hnone)
  · rw [hstep]
    subst hopened
    refine h.frame ⟨rfl, rfl, ?_, h.unreplayed.1.symm, h.unreplayed.2.1.symm⟩ (.inl hnone)
    rw [h.live]
    simp [openSession, h.unmarked]

theorem LiveSound.step (hfrontiers : FrontiersHold start) (step : TailStep) :
    LiveSound query start (tailStep query world step) := by
  cases step with
  | commit shard block => exact h.commit shard block
  | poll =>
    rcases poll_cases world.sources.readers with ⟨hsame, hpending⟩ | ⟨hnone, hfill⟩
    · exact h.frame hsame (.inr hpending)
    · exact h.fill hfrontiers hnone hfill
  | acknowledge sequence digest => exact h.acknowledge hfrontiers sequence digest
  | resume => exact h.resume

omit h

def startPositions (start : TailSourceSet) : List TailPosition :=
  start.readers.map fun source => .new source.shard source.snapshot.frontier

theorem startPositions_arranged (start : TailSourceSet) : Arranged (startPositions start) := by
  refine ⟨fun h => start.nonempty (map_eq_nil_iff.mp h), ?_, pairwise_map.mpr start.ordered⟩
  rw [startPositions, length_map]
  exact start.count

def startSession (start : TailSourceSet) : TailSession :=
  openSession ⟨startPositions start, false, Unsigned.zero 64, noBatch, Unsigned.zero 64, none, none, none⟩ start.readers
    none

theorem admitTail_now (query : TailQuery) (start : TailSourceSet) :
    admitTail query start .now = .ok (startSession start) := by
  unfold admitTail TailCursorState.new
  have harrange := (startPositions_arranged start).arrange_eq
  unfold startSession startPositions at *
  rw [harrange]
  rfl

theorem liveSound_start (query : TailQuery) (start : TailSourceSet) :
    LiveSound query start ⟨start, startSession start, []⟩ := by
  refine ⟨rfl, rfl, ⟨rfl, rfl, rfl⟩, le_rfl, startPositions_arranged start, ?_, rfl, fun _ hsome => by cases hsome⟩
  intro source hsource
  refine ⟨source, hsource, .new source.shard source.snapshot.frontier, rfl, ?_, le_rfl, ⟨?_, fun _ _ h => h, le_rfl,
    fun _ hmem _ => hmem⟩, fun _ => rfl, fun _ hsome => by cases hsome⟩
  · have hdist : ((startPositions start).map (·.shard)).Nodup := by
      rw [startPositions, map_map]
      exact start.distinct
    exact lookup_of_mem hdist (mem_map_of_mem (f := fun source : Source =>
      TailPosition.new source.shard source.snapshot.frontier) hsource)
  · exact (selectedBetween_of_le le_rfl).symm

end Steps

end Positron.Tail
