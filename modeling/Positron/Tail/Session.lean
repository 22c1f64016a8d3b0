import Mathlib.Data.List.Sort
import Positron.Query.ResultKey

/-! A tail and its cursor. Batches are delivered one at a time, first the history up to the handoff frontiers, in the
order of the plan, then new blocks in the order of their commit. An acknowledged batch moves the cursor, and a cursor
starts another session. -/

namespace Positron.Tail
open MachineInt Checks Query List ByteCodec

def maxShards : Nat := 64

def maxTailBatchRows : Nat := 1024

/-- The last record read on a shard. Whether only this record or its whole block is meant is a matter of the
cursor. -/
@[ext]
structure TailPosition where
  shard : VirtualShardId
  position : CommitPosition
  ordinal : RecordOrdinal
deriving DecidableEq

namespace TailPosition

def new (shard : VirtualShardId) (position : CommitPosition) : TailPosition := ⟨shard, position, .first⟩

def identity (position : TailPosition) : Nat ×ₗ Nat := toLex (position.position.1, position.ordinal.1)

def place (position : TailPosition) : Nat ×ₗ (Nat ×ₗ Nat) := toLex (position.shard.1.1, position.identity)

end TailPosition

/-- The part of a shard that is history for a tail. -/
structure HistoricalMarker where
  lowerBound : CommitPosition
  handoffFrontier : CommitPosition
deriving DecidableEq

def HistoricalMarker.new (lowerBound handoffFrontier : CommitPosition) : Except QueryFailureCode HistoricalMarker :=
  if handoffFrontier.1 < lowerBound.1 then .error .invalidCursor else .ok ⟨lowerBound, handoffFrontier⟩

structure TailCursorState where
  positions : List TailPosition
  recordBound : Bool
  sequence : U64
  priorDigest : Digest
  outputRows : U64
  historicalMarkers : Option (List HistoricalMarker)
  historicalKey : Option HistoricalTotalKey
  unacknowledgedDelivery : Option (U64 × Digest)

variable (state : TailCursorState)

namespace TailCursorState

def arrange (positions : List TailPosition) : Except QueryFailureCode (List TailPosition) := do
  demand (positions ≠ [] ∧ positions.length ≤ maxShards) .invalidCursor
  let arranged := positions.insertionSort fun a b => a.place ≤ b.place
  demand (arranged.IsChain fun a b => a.shard ≠ b.shard) .invalidCursor
  return arranged

def new (positions : List TailPosition) (sequence : U64) (priorDigest : Digest) :
    Except QueryFailureCode TailCursorState := do
  let positions ← arrange positions
  return ⟨positions, false, sequence, priorDigest, Unsigned.zero 64, none, none, none⟩

/-- The entry of the update's shard moves on. It never moves back. -/
def advanceEntry : List TailPosition → TailPosition → Except QueryFailureCode (List TailPosition)
  | [], _ => .error .invalidCursor
  | entry :: entries, update =>
    if entry.shard = update.shard then
      if update.identity < entry.identity then .error .invalidCursor else .ok (update :: entries)
    else (entry :: ·) <$> advanceEntry entries update

def movedPositions (updates : List TailPosition) : Except QueryFailureCode (List TailPosition) := do
  demand (updates ≠ []) .invalidCursor
  updates.foldlM advanceEntry state.positions

def renewed (positions : List TailPosition) (sequence : U64) (priorDigest : Digest) :
    Except QueryFailureCode TailCursorState := do
  let fresh ← new positions sequence priorDigest
  return { fresh with
    recordBound := true, outputRows := state.outputRows, historicalMarkers := state.historicalMarkers,
    historicalKey := state.historicalKey }

def advanceBatch (updates : List TailPosition) (digest : Digest) : Except QueryFailureCode TailCursorState := do
  let positions ← state.movedPositions updates
  let sequence ← orFail (state.sequence.checkedAdd ⟨1, one_lt_word⟩) .invalidCursor
  state.renewed positions sequence digest

def advancePositions (updates : List TailPosition) : Except QueryFailureCode TailCursorState := do
  let positions ← state.movedPositions updates
  state.renewed positions state.sequence state.priorDigest

/-- Blocks are read as a whole from here on. -/
def enterLive : TailCursorState :=
  { state with recordBound := false, historicalMarkers := none, historicalKey := none }

end TailCursorState

section Moves

variable {positions updates : List TailPosition}

/-- The positions of distinct shards, by shard. -/
def Arranged (positions : List TailPosition) : Prop :=
  positions ≠ [] ∧ positions.length ≤ maxShards ∧ positions.Pairwise fun a b => a.shard.1.1 < b.shard.1.1

/-- The update of a position's shard, or the position itself. -/
def override (updates : List TailPosition) (entry : TailPosition) : TailPosition :=
  (updates.find? fun update => decide (update.shard = entry.shard)).getD entry

theorem override_shard (entry : TailPosition) : (override updates entry).shard = entry.shard := by
  unfold override
  cases h : updates.find? fun update => decide (update.shard = entry.shard) with
  | none => rfl
  | some update =>
    have hfound := find?_some h
    exact of_decide_eq_true hfound

theorem override_of_not_mem {entry : TailPosition} (h : entry.shard ∉ updates.map (·.shard)) :
    override updates entry = entry := by
  unfold override
  rw [find?_eq_none.mpr]
  · rfl
  · intro update hmem heq
    exact h (mem_map.mpr ⟨update, hmem, of_decide_eq_true heq⟩)

variable {update entry : TailPosition}

theorem override_cons_of_eq (h : update.shard = entry.shard) : override (update :: updates) entry = update := by
  simp [override, h]

/-- Every update goes on from the position of its shard. -/
def Forward (positions updates : List TailPosition) : Prop :=
  (updates.map (·.shard)).Nodup ∧
    ∀ update ∈ updates, ∃ entry ∈ positions, entry.shard = update.shard ∧ entry.identity ≤ update.identity

theorem Arranged.map_override (h : Arranged positions) : Arranged (positions.map (override updates)) := by
  refine ⟨fun hnil => h.1 (map_eq_nil_iff.mp hnil), by rw [length_map]; exact h.2.1, ?_⟩
  apply pairwise_map.mpr
  apply h.2.2.imp
  intro a b hab
  rw [override_shard, override_shard]
  exact hab

theorem Arranged.arrange_eq (h : Arranged positions) : TailCursorState.arrange positions = .ok positions := by
  have hsorted : positions.Pairwise fun a b => a.place ≤ b.place := h.2.2.imp fun hab =>
    le_of_lt (Prod.Lex.toLex_lt_toLex.mpr (.inl hab))
  have hchain : positions.IsChain fun a b => a.shard ≠ b.shard :=
    (h.2.2.imp fun hab heq => absurd (congrArg (·.1.1) heq) (Nat.ne_of_lt hab)).isChain
  unfold TailCursorState.arrange
  rw [demand_bind ⟨h.1, h.2.1⟩, List.Pairwise.insertionSort_eq hsorted]
  exact demand_bind hchain _ _

theorem advanceEntry_eq (hdist : (positions.map (·.shard)).Nodup)
    (hmem : entry ∈ positions) (hshard : entry.shard = update.shard) (hle : entry.identity ≤ update.identity) :
    TailCursorState.advanceEntry positions update = .ok (positions.map (override [update])) := by
  induction positions with
  | nil => cases hmem
  | cons first positions ih =>
    obtain ⟨hfirst, hrest⟩ := nodup_cons.mp hdist
    unfold TailCursorState.advanceEntry
    rcases mem_cons.mp hmem with rfl | hmem
    · have hothers : ∀ other ∈ positions, override [update] other = other := fun other hother =>
        override_of_not_mem fun h => hfirst (mem_map.mpr ⟨other, hother,
          (mem_singleton.mp h).trans hshard.symm⟩)
      rw [if_pos hshard, if_neg (not_lt.mpr hle), map_cons, override_cons_of_eq hshard.symm,
        map_congr_left hothers, map_id']
    · have hne : first.shard ≠ update.shard := fun h =>
        hfirst (mem_map.mpr ⟨entry, hmem, hshard.trans h.symm⟩)
      rw [if_neg hne, ih hrest hmem, map_cons, override_of_not_mem fun h => hne (mem_singleton.mp h)]
      rfl

theorem override_cons {update : TailPosition} (hnew : update.shard ∉ updates.map (·.shard)) (entry : TailPosition) :
    override updates (override [update] entry) = override (update :: updates) entry := by
  by_cases h : update.shard = entry.shard
  · rw [override_cons_of_eq h, override_cons_of_eq h, override_of_not_mem hnew]
  · simp [override, h]

theorem foldlM_advanceEntry (hdist : (positions.map (·.shard)).Nodup) (h : Forward positions updates) :
    updates.foldlM TailCursorState.advanceEntry positions = .ok (positions.map (override updates)) := by
  induction updates generalizing positions with
  | nil =>
    exact congrArg Except.ok (map_id positions).symm
  | cons update updates ih =>
    obtain ⟨hnodup, hforward⟩ := h
    obtain ⟨hnew, hrest⟩ := nodup_cons.mp hnodup
    obtain ⟨entry, hmem, hshard, hle⟩ := hforward update mem_cons_self
    rw [foldlM_cons, bind_eq_of_ok (advanceEntry_eq hdist hmem hshard hle), ih]
    · rw [map_map]
      exact congrArg _ (map_congr_left fun entry _ => override_cons hnew entry)
    · rw [map_map]
      exact (map_congr_left fun entry _ => override_shard entry) ▸ hdist
    · refine ⟨hrest, fun later hlater => ?_⟩
      obtain ⟨entry, hmem, hshard, hle⟩ := hforward later (mem_cons_of_mem _ hlater)
      have hsame : override [update] entry = entry := override_of_not_mem fun h =>
        hnew (mem_map.mpr ⟨later, hlater, hshard.symm.trans (mem_singleton.mp h)⟩)
      exact ⟨entry, mem_map.mpr ⟨entry, hmem, hsame⟩, hshard, hle⟩

variable {state : TailCursorState} (harranged : Arranged state.positions)
include harranged

theorem TailCursorState.movedPositions_eq (hne : updates ≠ []) (h : Forward state.positions updates) :
    state.movedPositions updates = .ok (state.positions.map (override updates)) := by
  have hdist : (state.positions.map (·.shard)).Nodup := by
    apply pairwise_map.mpr
    exact harranged.2.2.imp fun hab heq => absurd (congrArg (·.1.1) heq) (Nat.ne_of_lt hab)
  unfold movedPositions
  rw [demand_bind hne, foldlM_advanceEntry hdist h]

theorem TailCursorState.renewed_eq (sequence : U64) (digest : Digest) :
    state.renewed (state.positions.map (override updates)) sequence digest =
      .ok ⟨state.positions.map (override updates), true, sequence, digest, state.outputRows, state.historicalMarkers,
        state.historicalKey, none⟩ := by
  unfold renewed new
  rw [bind_eq_of_ok harranged.map_override.arrange_eq]
  rfl

theorem TailCursorState.advancePositions_eq (hne : updates ≠ []) (h : Forward state.positions updates) :
    state.advancePositions updates = .ok ⟨state.positions.map (override updates), true, state.sequence,
      state.priorDigest, state.outputRows, state.historicalMarkers, state.historicalKey, none⟩ := by
  unfold advancePositions
  rw [bind_eq_of_ok (movedPositions_eq harranged hne h), renewed_eq harranged]

theorem TailCursorState.advanceBatch_eq (hne : updates ≠ []) (h : Forward state.positions updates) {sequence : U64}
    (hsequence : sequence.1 = state.sequence.1 + 1) (digest : Digest) :
    state.advanceBatch updates digest = .ok ⟨state.positions.map (override updates), true, sequence, digest,
      state.outputRows, state.historicalMarkers, state.historicalKey, none⟩ := by
  unfold advanceBatch
  rw [bind_eq_of_ok (movedPositions_eq harranged hne h), Unsigned.checkedAdd_eq_some_iff.mpr hsequence,
    orFail_some_bind, renewed_eq harranged]

end Moves

structure Source where
  shard : VirtualShardId
  snapshot : LogSnapshot

def extendSnapshot (snapshot : LogSnapshot) (block : LogBlock) (h : snapshot.frontier.1 < block.position.1) :
    LogSnapshot where
  frontier := block.position
  blocks := snapshot.blocks ++ [block]
  increasing := List.pairwise_append.mpr ⟨snapshot.increasing, List.pairwise_singleton _ _, fun earlier hmem _ hlater =>
    List.mem_singleton.mp hlater ▸ Nat.lt_of_le_of_lt (snapshot.bounded earlier hmem) h⟩
  bounded := fun other hmem => (List.mem_append.mp hmem).elim
    (fun hmem => Nat.le_of_lt (Nat.lt_of_le_of_lt (snapshot.bounded other hmem) h))
    (fun hmem => Nat.le_of_eq (congrArg (·.position.1) (List.mem_singleton.mp hmem)))

def Source.commit (source : Source) (block : LogBlock) : Source :=
  if h : source.snapshot.frontier.1 < block.position.1 then
    { source with snapshot := extendSnapshot source.snapshot block h }
  else source

/-- The sources of a tail: distinct shards in order. -/
structure TailSourceSet where
  readers : List Source
  nonempty : readers ≠ []
  count : readers.length ≤ maxShards
  ordered : readers.Pairwise fun a b => a.shard.1.1 < b.shard.1.1

theorem Source.commit_shard (source : Source) (block : LogBlock) : (source.commit block).shard = source.shard := by
  unfold commit
  split <;> rfl

def commitOn (shard : VirtualShardId) (block : LogBlock) (source : Source) : Source :=
  if source.shard = shard then source.commit block else source

theorem commitOn_shard (shard : VirtualShardId) (block : LogBlock) (source : Source) :
    (commitOn shard block source).shard = source.shard := by
  unfold commitOn
  split
  · exact source.commit_shard block
  · rfl

def TailSourceSet.commit (sources : TailSourceSet) (shard : VirtualShardId) (block : LogBlock) : TailSourceSet where
  readers := sources.readers.map (commitOn shard block)
  nonempty := fun h => sources.nonempty (List.map_eq_nil_iff.mp h)
  count := (List.length_map (commitOn shard block)).symm ▸ sources.count
  ordered := List.pairwise_map.mpr (sources.ordered.imp fun {a b} hab =>
    (commitOn_shard shard block a).symm ▸ (commitOn_shard shard block b).symm ▸ hab)

structure TailQuery where
  plan : LogicalPlan
  outputRows : U64
  hash : Bytes → Digest

structure TailCandidate where
  record : QueryRecord
  position : TailPosition

/-- The candidates among scanned records, and the last record that was looked at. -/
def materializeRecords (plan : LogicalPlan) (replay : Bool) (shard : VirtualShardId) (limit : Nat) :
    List TailCandidate → Option TailPosition → List ScannedLogRecord →
    Except QueryFailureCode (List TailCandidate × Option TailPosition)
  | candidates, lastScanned, [] => .ok (candidates, lastScanned)
  | candidates, _, record :: records => do
    let position : TailPosition := ⟨shard, record.commitPosition, record.recordOrdinal⟩
    let row ← queryRecord plan false record
    let found := row.toList.map fun row => ⟨if replay then row.markReplayed else row, position⟩
    let candidates := candidates ++ found
    if limit ≤ candidates.length then return (candidates, some position)
    else materializeRecords plan replay shard limit candidates (some position) records

def materializeSnapshot (plan : LogicalPlan) (replay : Bool) (source : Source) (after : ScanAfter)
    (frontier : CommitPosition) (limit : Nat) :
    Except QueryFailureCode (List TailCandidate × Option TailPosition × Bool) := do
  let scan := executeScan source.snapshot ⟨limit, some after, frontier⟩
  let (candidates, lastScanned) ← materializeRecords plan replay source.shard limit [] none scan.1
  return (candidates, lastScanned, scan.2)

/-- The order of the live phase: by commit, then by shard. -/
def compareCandidates (left right : TailCandidate) : Ordering :=
  (compare left.position.position.1 right.position.position.1).then
    ((compare left.position.ordinal.1 right.position.ordinal.1).then
      (compare left.position.shard.1.1 right.position.shard.1.1))

/-- A candidate sinks below the greater ones. The list is in reverse. -/
def sink (candidate : TailCandidate) : List TailCandidate → List TailCandidate
  | [] => [candidate]
  | previous :: before =>
    if compareCandidates previous candidate = .gt then previous :: sink candidate before
    else candidate :: previous :: before

def sortCandidates (candidates : List TailCandidate) : List TailCandidate :=
  (candidates.foldl (fun sorted candidate => sink candidate sorted) []).reverse

/-- What was read from a shard, and what of it waits to be selected. -/
structure SourceQueue where
  shard : VirtualShardId
  queue : List TailCandidate
  scanned : Option TailPosition
  hadCandidates : Bool
  selected : Bool

structure Merge where
  queues : List SourceQueue
  positions : List TailPosition
  records : List TailCandidate

/-- The place of the first candidate that no later queue undercuts. -/
def bestFrom : Nat → Option (Nat × TailCandidate) → List SourceQueue → Option (Nat × TailCandidate)
  | _, best, [] => best
  | index, best, source :: sources =>
    match source.queue with
    | [] => bestFrom (index + 1) best sources
    | left :: _ =>
      if best.all fun right => compareCandidates left right.2 == .lt then
        bestFrom (index + 1) (some (index, left)) sources
      else bestFrom (index + 1) best sources

/-- A position is kept per shard, the greatest one. -/
def updatePosition : List TailPosition → TailPosition → List TailPosition
  | [], candidate => [candidate]
  | position :: positions, candidate =>
    if position.shard = candidate.shard then
      (if position.place < candidate.place then candidate else position) :: positions
    else position :: updatePosition positions candidate

def SourceQueue.popped (source : SourceQueue) : SourceQueue :=
  { source with queue := source.queue.tail, selected := true }

def mergeLoop : Nat → Merge → Merge
  | 0, merge => merge
  | rounds + 1, merge =>
    match bestFrom 0 none merge.queues with
    | none => merge
    | some (index, candidate) =>
      mergeLoop rounds ⟨merge.queues.modify index SourceQueue.popped, updatePosition merge.positions candidate.position,
        merge.records ++ [candidate]⟩

/-- A shard whose queue is used up has been read up to the last scanned record. -/
def exhausted (positions : List TailPosition) (source : SourceQueue) : List TailPosition :=
  match source.scanned with
  | some scanned =>
    if source.queue.isEmpty ∧ (source.hadCandidates = false ∨ source.selected) then updatePosition positions scanned
    else positions
  | none => positions

/-- A candidate takes its place in a window of the first candidates. The flag says that one was left out. -/
def insertHistoricalCandidate (ordering : OrderSpec) (limit : Nat) (candidates : List TailCandidate)
    (candidate : TailCandidate) : List TailCandidate × Bool :=
  let key (c : TailCandidate) := HistoricalTotalKey.fromRecord c.record c.position.shard
  let insertion := candidates.findIdx fun existing => (key candidate).compare (key existing) ordering == .lt
  if insertion = candidates.length ∧ limit ≤ candidates.length then (candidates, true)
  else if candidates.length < limit then (candidates.insertIdx insertion candidate, false)
  else (candidates.dropLast.insertIdx insertion candidate, true)

def collectHistorical (ordering : OrderSpec) (limit : Nat) (after : Option HistoricalTotalKey)
    (window : List TailCandidate × Bool) (candidate : TailCandidate) : List TailCandidate × Bool :=
  if after.any fun key =>
      (HistoricalTotalKey.fromRecord candidate.record candidate.position.shard).compare key ordering != .gt
  then window
  else
    let (candidates, overflow) := insertHistoricalCandidate ordering limit window.1 candidate
    (candidates, window.2 || overflow)

variable (query : TailQuery)

/-- The history of one shard is read in pieces of the limit. The number of pieces is bounded by the caller. -/
def scanHistory (replay : Bool) (limit : Nat) (key : Option HistoricalTotalKey) (source : Source)
    (frontier : CommitPosition) : Nat → ScanAfter → List TailCandidate × Bool →
    Except QueryFailureCode (List TailCandidate × Bool)
  | 0, _, _ => .error .internal
  | pieces + 1, after, window => do
    let (candidates, lastScanned, complete) ←
      materializeSnapshot query.plan replay source after frontier (min limit maxTailBatchRows)
    let window := candidates.foldl (collectHistorical query.plan.ordering limit key) window
    if complete then return window
    else
      let lastScanned ← orFail lastScanned .budgetExhausted
      scanHistory replay limit key source frontier pieces (.record lastScanned.position lastScanned.ordinal) window

structure PendingBatch where
  candidates : List TailCandidate
  positions : List TailPosition
  digest : Digest
  historicalComplete : Bool
  historicalKey : Option HistoricalTotalKey

/-- The counters of a session are those of its cursor. The leases hold the sources as they were at the start. -/
structure TailSession where
  state : TailCursorState
  leases : List Source
  historicalFrontiers : List TailPosition
  pendingBatch : Option PendingBatch
  deliveryCursor : Option TailCursorState
  header : Bool
  terminal : Option QueryFailureCode
  terminalEmitted : Bool
  replay : Bool
  replayDelivery : Option (U64 × Digest)
  lastAcknowledged : Option (U64 × Digest)

inductive TailStart where
  | now
  | historical (maxRows : Nat)

inductive TailEvent where
  | header
  | batch (sequence : U64) (records : List QueryRecord) (priorDigest digest : Digest)
  | idle
  | terminal (failure : QueryFailureCode)

namespace TailSession

variable (query : TailQuery) (session : TailSession)

/-- A replayed batch must be the one that was delivered before. -/
def publishDeliveryCursor (digest : Digest) : Except QueryFailureCode TailSession := do
  demand (session.replayDelivery.all fun expected => expected == (session.state.sequence, digest)) .invalidCursor
  return { session with
    replay := session.replay && session.replayDelivery.isNone
    replayDelivery := none
    deliveryCursor := some { session.state with unacknowledgedDelivery := some (session.state.sequence, digest) } }

def checkedOutputTotals (rows : Nat) : Except QueryFailureCode U64 := do
  let outputRows ← orFail (Unsigned.ofNat? 64 (session.state.outputRows.1 + rows)) .budgetExhausted
  demand (outputRows.1 ≤ query.outputRows.1) .budgetExhausted
  return outputRows

def deliverRecords (candidates : List TailCandidate) (positions : List TailPosition) (historicalComplete : Bool)
    (historicalKey : Option HistoricalTotalKey) : Except QueryFailureCode TailSession := do
  let _ ← session.checkedOutputTotals query candidates.length
  let digest ← batchDigest query.hash session.state.priorDigest session.state.sequence.1 query.plan
    (candidates.map (·.record)) none
  publishDeliveryCursor
    { session with pendingBatch := some ⟨candidates, positions, digest, historicalComplete, historicalKey⟩ } digest

def scanAfter (position : TailPosition) : ScanAfter :=
  if session.state.recordBound then .record position.position position.ordinal else .position position.position

def readSource (limit : Nat) (source : Source) : Except QueryFailureCode SourceQueue := do
  let position ← orFail (session.state.positions.find? fun position => position.shard = source.shard) .internal
  let (candidates, scanned, _) ← materializeSnapshot query.plan session.replay source (session.scanAfter position)
    source.snapshot.frontier limit
  let queue := sortCandidates candidates
  return ⟨source.shard, queue, scanned, !queue.isEmpty, false⟩

def fillLiveSources (readers : List Source) (limit : Nat) : Except QueryFailureCode TailSession := do
  let queues ← readers.mapM (readSource query session limit)
  let merge := mergeLoop limit ⟨queues, [], []⟩
  let positions := merge.queues.foldl exhausted merge.positions
  if merge.records = [] then do
    demand session.replayDelivery.isNone .storeUnavailable
    if positions = [] then return session
    else return { session with state := ← session.state.advancePositions positions }
  else deliverRecords query session merge.records positions false none

def markerOf (shard : VirtualShardId) : Option HistoricalMarker := do
  let markers ← session.state.historicalMarkers
  markers[session.state.positions.findIdx fun position => position.shard = shard]?

def collectSource (limit : Nat) (window : List TailCandidate × Bool) (source : Source) :
    Except QueryFailureCode (List TailCandidate × Bool) := do
  let marker ← orFail (session.markerOf source.shard) .internal
  scanHistory query session.replay limit session.state.historicalKey source marker.handoffFrontier
    (source.snapshot.records.length + 1) (.position marker.lowerBound) window

def fillHistoricalSources (limit : Nat) : Except QueryFailureCode TailSession := do
  let (candidates, overflow) ← session.leases.foldlM (collectSource query session limit) ([], false)
  match candidates.getLast? with
  | none => do
    let state ← session.state.advancePositions session.historicalFrontiers
    return { session with state := state.enterLive, historicalFrontiers := [] }
  | some last =>
    deliverRecords query session candidates session.state.positions (!overflow)
      (some (.fromRecord last.record last.position.shard))

def fillSources (readers : List Source) (limit : Nat) : Except QueryFailureCode TailSession := do
  let limit := min limit (query.outputRows.1 - session.state.outputRows.1)
  demand (limit ≠ 0) .budgetExhausted
  if session.historicalFrontiers = [] then fillLiveSources query session readers limit
  else fillHistoricalSources query session limit

def candidateAdvance (pending : PendingBatch) (outputRows : U64) : Except QueryFailureCode TailCursorState := do
  let state ← TailCursorState.advanceBatch { session.state with
    historicalKey := pending.historicalKey.or session.state.historicalKey
    outputRows := outputRows } pending.positions pending.digest
  if pending.historicalComplete then return (← state.advancePositions session.historicalFrontiers).enterLive
  else return state

def acknowledge (sequence : U64) (digest : Digest) : Except QueryFailureCode Unit × TailSession :=
  match session.pendingBatch with
  | none => (if session.lastAcknowledged = some (sequence, digest) then .ok () else .error .invalidCursor, session)
  | some pending =>
    if sequence ≠ session.state.sequence ∨ digest ≠ pending.digest then (.error .invalidCursor, session)
    else
      match session.checkedOutputTotals query pending.candidates.length with
      | .error failure => (.error failure, session)
      | .ok outputRows =>
        match session.candidateAdvance pending outputRows with
        | .error failure => (.error failure, { session with deliveryCursor := none, terminal := some failure })
        | .ok state => (.ok (), { session with
            state := state
            deliveryCursor := none
            historicalFrontiers := if pending.historicalComplete then [] else session.historicalFrontiers
            pendingBatch := none
            lastAcknowledged := some (sequence, digest) })

def batchEvent (pending : PendingBatch) : TailEvent :=
  .batch session.state.sequence (pending.candidates.map (·.record)) session.state.priorDigest pending.digest

def poll (readers : List Source) : Option TailEvent × TailSession :=
  if session.terminalEmitted then (none, session)
  else if session.header then (some .header, { session with header := false })
  else
    match session.terminal, session.pendingBatch with
    | some failure, _ => (some (.terminal failure), { session with terminal := none, terminalEmitted := true })
    | none, some pending => (some (session.batchEvent pending), session)
    | none, none =>
      match fillSources query session readers maxTailBatchRows with
      | .error failure => (some (.terminal failure), { session with terminalEmitted := true })
      | .ok filled => ((filled.pendingBatch.map filled.batchEvent).getD .idle, filled)

end TailSession

def openSession (leases : List Source) (replayDelivery : Option (U64 × Digest)) : TailSession where
  state := state
  leases := leases
  historicalFrontiers := (state.historicalMarkers.getD []).zipWith (fun marker lease =>
    .new lease.shard marker.handoffFrontier) leases
  pendingBatch := none
  deliveryCursor := none
  header := true
  terminal := none
  terminalEmitted := false
  replay := replayDelivery.isSome
  replayDelivery := replayDelivery
  lastAcknowledged := none

def admitTail (sources : TailSourceSet) : TailStart → Except QueryFailureCode TailSession
  | .now => do
    let state ← TailCursorState.new (sources.readers.map fun source => .new source.shard source.snapshot.frontier)
      (Unsigned.zero 64) noBatch
    return openSession state sources.readers none
  | .historical maxRows => do
    demand (maxRows ≠ 0 ∧ maxRows ≤ maxTailBatchRows) .invalidBudget
    let state ← TailCursorState.new (sources.readers.map fun source => .new source.shard originPosition)
      (Unsigned.zero 64) noBatch
    let markers ← sources.readers.mapM fun source => HistoricalMarker.new originPosition source.snapshot.frontier
    let session := openSession { state with historicalMarkers := some markers } sources.readers none
    session.fillSources query sources.readers maxRows

/-- The blocks that a cursor goes on from are still there. -/
def validateResumeSource (source : Source) : Except QueryFailureCode Unit := do
  let index := state.positions.findIdx fun position => position.shard = source.shard
  let position ← orFail state.positions[index]? .invalidCursor
  demand (position.position.1 ≤ source.snapshot.frontier.1) .storeUnavailable
  match state.historicalMarkers with
  | some markers => do
    let marker ← orFail markers[index]? .invalidCursor
    demand (marker.handoffFrontier.1 ≤ source.snapshot.frontier.1) .storeUnavailable
    demand (marker.handoffFrontier.1 ≤ marker.lowerBound.1 ∨ source.snapshot.blocks.any fun block =>
      decide (marker.lowerBound.1 ≤ block.position.1 ∧ block.position.1 ≤ marker.handoffFrontier.1)) .storeUnavailable
  | none =>
    demand (state.recordBound = false ∨ position.position = originPosition ∨
      source.snapshot.blocks.any fun block => decide (block.position = position.position)) .storeUnavailable

def resumeTail (leases : List Source) (sources : TailSourceSet) (cursor : TailCursorState) :
    Except QueryFailureCode TailSession := do
  sources.readers.forM (validateResumeSource cursor)
  demand (cursor.positions.length = sources.readers.length ∧ ∀ position ∈ cursor.positions,
    ∃ source ∈ sources.readers, source.shard = position.shard) .invalidCursor
  demand (cursor.unacknowledgedDelivery.all fun delivery => delivery.1 == cursor.sequence) .invalidCursor
  return openSession { cursor with unacknowledgedDelivery := none } leases cursor.unacknowledgedDelivery

/-- The sources, the session that reads them and what its client has acknowledged. -/
structure TailWorld where
  sources : TailSourceSet
  session : TailSession
  acknowledged : List TailCandidate

inductive TailStep where
  | commit (shard : VirtualShardId) (block : LogBlock)
  | poll
  | acknowledge (sequence : U64) (digest : Digest)
  /-- Another session starts at the acknowledged cursor. -/
  | resume

def tailStep (world : TailWorld) : TailStep → TailWorld
  | .commit shard block => { world with sources := world.sources.commit shard block }
  | .poll => { world with session := (world.session.poll query world.sources.readers).2 }
  | .acknowledge sequence digest =>
    let answer := world.session.acknowledge query sequence digest
    match answer.1, world.session.pendingBatch with
    | .ok _, some pending => { world with
        session := answer.2
        acknowledged := world.acknowledged ++ pending.candidates }
    | _, _ => { world with session := answer.2 }
  | .resume =>
    match resumeTail world.session.leases world.sources world.session.state with
    | .ok session => { world with session := session }
    | .error failure => { world with session := { world.session with pendingBatch := none, terminal := some failure } }

def runTail (world : TailWorld) (steps : List TailStep) : TailWorld :=
  steps.foldl (tailStep query) world

/-- What holds at the start and is kept by every step holds throughout. -/
theorem runTail_keeps {query : TailQuery} (P : TailWorld → Prop)
    (hstep : ∀ world step, P world → P (tailStep query world step))
    {world : TailWorld} (h : P world) (steps : List TailStep) : P (runTail query world steps) := by
  induction steps generalizing world with
  | nil => exact h
  | cons step steps ih => exact ih (hstep world step h)

section Frames

variable {query : TailQuery} {session : TailSession}

/-- Two sessions that differ in what they have told the client at most. -/
structure SameProgress (before after : TailSession) : Prop where
  state : after.state = before.state
  leases : after.leases = before.leases
  frontiers : after.historicalFrontiers = before.historicalFrontiers
  replay : after.replay = before.replay
  replayDelivery : after.replayDelivery = before.replayDelivery

theorem checkedOutputTotals_ok_iff {rows : Nat} {outputRows : U64} :
    session.checkedOutputTotals query rows = .ok outputRows ↔
      outputRows.1 = session.state.outputRows.1 + rows ∧ outputRows.1 ≤ query.outputRows.1 := by
  unfold TailSession.checkedOutputTotals
  constructor
  · intro h
    obtain ⟨total, htotal, h⟩ := bind_ok h
    obtain ⟨_, hle, h⟩ := bind_ok h
    cases h
    exact ⟨Unsigned.ofNat?_eq_some_iff.mp (orFail_eq_ok_iff.mp htotal), demand_eq_ok_iff.mp hle⟩
  · rintro ⟨htotal, hle⟩
    rw [Unsigned.ofNat?_eq_some_iff.mpr htotal, orFail_some_bind, demand_bind hle]
    rfl

theorem poll_cases (readers : List Source) : (SameProgress session (session.poll query readers).2 ∧
      (session.poll query readers).2.pendingBatch = session.pendingBatch) ∨ session.pendingBatch = none ∧
      session.fillSources query readers maxTailBatchRows = .ok (session.poll query readers).2 := by
  unfold TailSession.poll
  split
  · exact .inl ⟨⟨rfl, rfl, rfl, rfl, rfl⟩, rfl⟩
  · split
    · exact .inl ⟨⟨rfl, rfl, rfl, rfl, rfl⟩, rfl⟩
    · split
      · exact .inl ⟨⟨rfl, rfl, rfl, rfl, rfl⟩, rfl⟩
      · exact .inl ⟨⟨rfl, rfl, rfl, rfl, rfl⟩, rfl⟩
      · rename_i hpending
        split
        · exact .inl ⟨⟨rfl, rfl, rfl, rfl, rfl⟩, rfl⟩
        · rename_i hfill
          exact .inr ⟨hpending, hfill⟩

theorem deliverRecords_ok {candidates : List TailCandidate} {positions : List TailPosition} {complete : Bool}
    {key : Option HistoricalTotalKey} {filled : TailSession}
    (h : session.deliverRecords query candidates positions complete key = .ok filled) :
    session.state.outputRows.1 + candidates.length ≤ query.outputRows.1 ∧ ∃ digest, filled = { session with
      pendingBatch := some ⟨candidates, positions, digest, complete, key⟩
      replay := session.replay && session.replayDelivery.isNone
      replayDelivery := none
      deliveryCursor :=
        some { session.state with unacknowledgedDelivery := some (session.state.sequence, digest) } } := by
  obtain ⟨outputRows, hrows, h⟩ := bind_ok h
  obtain ⟨htotal, hle⟩ := checkedOutputTotals_ok_iff.mp hrows
  obtain ⟨digest, -, h⟩ := bind_ok h
  obtain ⟨_, -, h⟩ := bind_ok h
  cases h
  exact ⟨htotal ▸ hle, digest, rfl⟩

theorem acknowledge_cases (sequence : U64) (digest : Digest) :
    (SameProgress session (session.acknowledge query sequence digest).2 ∧
      (session.acknowledge query sequence digest).2.pendingBatch = session.pendingBatch ∧
      (session.pendingBatch = none ∨ ∀ done, (session.acknowledge query sequence digest).1 ≠ .ok done)) ∨
    ∃ pending outputRows state, session.pendingBatch = some pending ∧
      session.checkedOutputTotals query pending.candidates.length = .ok outputRows ∧
      session.candidateAdvance pending outputRows = .ok state ∧
      session.acknowledge query sequence digest = (.ok (), { session with
        state := state, deliveryCursor := none, pendingBatch := none
        historicalFrontiers := if pending.historicalComplete then [] else session.historicalFrontiers
        lastAcknowledged := some (sequence, digest) }) := by
  unfold TailSession.acknowledge
  split
  · rename_i hpending
    exact .inl ⟨⟨rfl, rfl, rfl, rfl, rfl⟩, rfl, Or.inl hpending⟩
  · rename_i pending hpending
    split
    · exact .inl ⟨⟨rfl, rfl, rfl, rfl, rfl⟩, rfl, Or.inr fun _ h => by cases h⟩
    · split
      · exact .inl ⟨⟨rfl, rfl, rfl, rfl, rfl⟩, rfl, Or.inr fun _ h => by cases h⟩
      · rename_i outputRows hrows
        split
        · exact .inl ⟨⟨rfl, rfl, rfl, rfl, rfl⟩, rfl, Or.inr fun _ h => by cases h⟩
        · rename_i state hstate
          exact .inr ⟨pending, outputRows, state, hpending, hrows, hstate, rfl⟩

variable {world : TailWorld}

theorem step_acknowledge_cases (sequence : U64) (digest : Digest) :
    (∃ session, tailStep query world (.acknowledge sequence digest) = { world with session := session } ∧
      SameProgress world.session session ∧ session.pendingBatch = world.session.pendingBatch) ∨
    ∃ pending outputRows state, world.session.pendingBatch = some pending ∧
      world.session.checkedOutputTotals query pending.candidates.length = .ok outputRows ∧
      world.session.candidateAdvance pending outputRows = .ok state ∧
      tailStep query world (.acknowledge sequence digest) = ⟨world.sources, { world.session with
        state := state, deliveryCursor := none, pendingBatch := none
        historicalFrontiers := if pending.historicalComplete then [] else world.session.historicalFrontiers
        lastAcknowledged := some (sequence, digest) }, world.acknowledged ++ pending.candidates⟩ := by
  unfold tailStep
  dsimp only
  have hcases := @acknowledge_cases query world.session sequence digest
  rcases hcases with
    ⟨hsame, hpending, hrefused⟩ | ⟨pending, outputRows, state, hpending, hrows, hstate, hanswer⟩
  · left
    refine ⟨_, ?_, hsame, hpending⟩
    split
    · rename_i hok hsome
      rcases hrefused with hnone | hrefused
      · rw [hnone] at hsome
        cases hsome
      · exact absurd hok (hrefused _)
    · rfl
  · right
    refine ⟨pending, outputRows, state, hpending, hrows, hstate, ?_⟩
    rw [hanswer, hpending]

theorem step_resume_cases (hundelivered : world.session.state.unacknowledgedDelivery = none) :
    ∃ session, tailStep query world .resume = { world with session := session } ∧ session.pendingBatch = none ∧
      (SameProgress world.session session ∨ session = openSession world.session.state world.session.leases none) := by
  cases hresume : resumeTail world.session.leases world.sources world.session.state with
  | error failure =>
    refine ⟨{ world.session with pendingBatch := none, terminal := some failure }, ?_, rfl,
      Or.inl ⟨rfl, rfl, rfl, rfl, rfl⟩⟩
    simp only [tailStep, hresume]
  | ok session =>
    refine ⟨session, by simp only [tailStep, hresume], ?_⟩
    obtain ⟨_, -, hresume⟩ := bind_ok hresume
    obtain ⟨_, -, hresume⟩ := bind_ok hresume
    obtain ⟨_, -, hresume⟩ := bind_ok hresume
    cases hresume
    refine ⟨rfl, Or.inr ?_⟩
    rw [← hundelivered]

end Frames

end Positron.Tail
