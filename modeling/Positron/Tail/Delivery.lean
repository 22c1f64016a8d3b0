import Mathlib.Algebra.Order.BigOperators.Group.List
import Positron.Lib.Runs
import Positron.Logs.RoundTrip
import Positron.Tail.Live

/-! What a tail delivers. A client that acknowledges each batch is given every selected record behind the start once,
until the frontiers are reached. -/

namespace Positron.Tail
open MachineInt Checks Query List Keyed Runs TailSession

section Work

variable {plan : LogicalPlan} {readers : List Source} {before after : TailSession} {updates : List TailPosition}
  {candidates : List TailCandidate}

/-- The number of records that a session has still to read. -/
def backlog (session : TailSession) (readers : List Source) : Nat :=
  (readers.map fun source => (remaining session source).length).sum

/-- The number of rows among them. -/
def remainingRows (plan : LogicalPlan) (session : TailSession) (readers : List Source) : Nat :=
  (readers.map fun source => ((remaining session source).filterMap (candidateOf plan false source.shard)).length).sum

/-- One session goes on from another behind the records up to the updates, and the candidates are the rows of these. -/
def Passes (plan : LogicalPlan) (readers : List Source) (before after : TailSession) (updates : List TailPosition)
    (candidates : List TailCandidate) : Prop :=
  ∀ source ∈ readers, ∃ passed, remaining before source = passed ++ remaining after source ∧
    passed.filterMap (candidateOf plan false source.shard) = taken candidates source.shard ∧
    (lookup source.shard updates ≠ none → passed ≠ [])

theorem length_le_sum_taken (h : ∀ candidate ∈ candidates, candidate.position.shard ∈ readers.map (·.shard)) :
    candidates.length ≤ (readers.map fun source => (taken candidates source.shard).length).sum := by
  induction candidates with
  | nil => exact Nat.zero_le _
  | cons candidate candidates ih =>
    obtain ⟨hfirst, hrest⟩ := forall_mem_cons.mp h
    obtain ⟨source, hsource, hshard⟩ := mem_map.mp hfirst
    have hmore : ∀ source ∈ readers,
        (taken candidates source.shard).length ≤ (taken (candidate :: candidates) source.shard).length := fun _ _ =>
      ((sublist_cons_self candidate candidates).filter _).length_le
    have htaken : taken (candidate :: candidates) source.shard = candidate :: taken candidates source.shard :=
      filter_cons_of_pos (decide_eq_true hshard.symm)
    have hone : (taken candidates source.shard).length < (taken (candidate :: candidates) source.shard).length := by
      rw [htaken, length_cons]
      exact Nat.lt_succ_self _
    have hlt := List.sum_lt_sum _ _ hmore ⟨source, hsource, hone⟩
    exact Nat.lt_of_le_of_lt (ih hrest) hlt

variable (h : Passes plan readers before after updates candidates)
include h

theorem Passes.rows (hsourced : ∀ candidate ∈ candidates, candidate.position.shard ∈ readers.map (·.shard)) :
    remainingRows plan after readers + candidates.length ≤ remainingRows plan before readers := by
  have hsplit : ∀ source ∈ readers, ((remaining after source).filterMap (candidateOf plan false source.shard)).length +
      (taken candidates source.shard).length ≤
        ((remaining before source).filterMap (candidateOf plan false source.shard)).length := by
    intro source hsource
    obtain ⟨passed, hpassed, hrows, -⟩ := h source hsource
    rw [hpassed, filterMap_append, length_append, hrows]
    omega
  have hsum := List.sum_le_sum hsplit
  rw [List.sum_map_add] at hsum
  exact (Nat.add_le_add_left (length_le_sum_taken hsourced) _).trans hsum

theorem Passes.backlog_lt (hne : updates ≠ []) (hknown : ∀ update ∈ updates, update.shard ∈ readers.map (·.shard)) :
    backlog after readers < backlog before readers := by
  apply List.sum_lt_sum
  · intro source hsource
    obtain ⟨passed, hpassed, -⟩ := h source hsource
    rw [hpassed, length_append]
    omega
  · obtain ⟨update, hupdate⟩ := exists_mem_of_ne_nil _ hne
    obtain ⟨source, hsource, hshard⟩ := mem_map.mp (hknown update hupdate)
    obtain ⟨passed, hpassed, -, hmoved⟩ := h source hsource
    have hlookup : lookup source.shard updates ≠ none := fun hnone =>
      absurd (decide_eq_true hshard.symm) (find?_eq_none.mp hnone update hupdate)
    have hpos := length_pos_iff.mpr (hmoved hlookup)
    refine ⟨source, hsource, ?_⟩
    rw [hpassed, length_append]
    omega

end Work

section Client

variable {query : TailQuery} {start : TailSourceSet} {world : TailWorld}

/-- The row of a record can be made and put under a digest. -/
def renders (plan : LogicalPlan) (record : ScannedLogRecord) : Bool :=
  match queryRecord plan false record with
  | .ok row => row.all fun row => (recordBytes row).isOk
  | .error _ => false

/-- Nothing stands in the way of a session: it has not ended, each row can be made, and the budget of rows outlasts
what there is to read. -/
structure Unhindered (query : TailQuery) (world : TailWorld) : Prop where
  running : world.session.terminal = none ∧ world.session.terminalEmitted = false
  rendered : ∀ source ∈ world.sources.readers, ∀ record ∈ remaining world.session source, renders query.plan record
  budget : world.session.state.outputRows.1 + remainingRows query.plan world.session world.sources.readers <
    query.outputRows.1

/-- A poll, and the acknowledgement of the batch that it brings. -/
def follow (query : TailQuery) (world : TailWorld) : TailWorld :=
  let polled := tailStep query world .poll
  match (world.session.poll query world.sources.readers).1 with
  | some (.batch sequence _ _ digest) => tailStep query polled (.acknowledge sequence digest)
  | _ => polled

/-- The rounds that a client has still to go: one for the header, and at most one for each record. -/
def work (world : TailWorld) : Nat :=
  backlog world.session world.sources.readers + if world.session.header then 1 else 0

theorem renders_ok {plan : LogicalPlan} {record : ScannedLogRecord} (h : renders plan record) :
    ∃ row, queryRecord plan false record = .ok row ∧
      ∀ found, row = some found → ∃ bytes, recordBytes found = .ok bytes := by
  unfold renders at h
  cases hrow : queryRecord plan false record with
  | error failure =>
    rw [hrow] at h
    cases h
  | ok row =>
    rw [hrow] at h
    refine ⟨row, rfl, ?_⟩
    rintro found rfl
    have hok : (recordBytes found).isOk := h
    cases hbytes : recordBytes found with
    | error failure =>
      rw [hbytes] at hok
      cases hok
    | ok bytes => exact ⟨bytes, rfl⟩

theorem exists_rowsBytes {records : List QueryRecord} (h : ∀ record ∈ records, ∃ bytes, recordBytes record = .ok bytes)
    (outcomes : List CorrelationOutcome) : ∃ bytes, rowsBytes records outcomes = .ok bytes := by
  induction records generalizing outcomes with
  | nil => exact ⟨_, rfl⟩
  | cons record records ih =>
    obtain ⟨⟨row, hrow⟩, hrest⟩ := forall_mem_cons.mp h
    obtain ⟨rest, hrest⟩ := ih hrest outcomes.tail
    unfold rowsBytes
    rw [bind_eq_of_ok hrow, bind_eq_of_ok hrest]
    exact ⟨_, rfl⟩

theorem exists_deliverRecords {session : TailSession} {candidates : List TailCandidate}
    (haffordable : session.state.outputRows.1 + candidates.length ≤ query.outputRows.1)
    (hrows : ∀ candidate ∈ candidates, ∃ bytes, recordBytes candidate.record = .ok bytes)
    (hundelivered : session.replayDelivery = none) (positions : List TailPosition) :
    ∃ filled, session.deliverRecords query candidates positions false none = .ok filled := by
  have htotal : session.checkedOutputTotals query candidates.length =
      .ok ⟨_, lt_of_le_of_lt haffordable query.outputRows.2⟩ := checkedOutputTotals_ok_iff.mpr ⟨rfl, haffordable⟩
  have hrecords : ∀ record ∈ candidates.map (·.record), ∃ bytes, recordBytes record = .ok bytes := by
    intro record hmem
    obtain ⟨candidate, hcand, rfl⟩ := mem_map.mp hmem
    exact hrows candidate hcand
  obtain ⟨rows, hbytes⟩ := exists_rowsBytes hrecords []
  have huncorrelated : Option.all (fun outcomes : List CorrelationOutcome =>
      outcomes.length == (candidates.map (·.record)).length) none := rfl
  have hdigest : ∃ digest, batchDigest query.hash session.state.priorDigest session.state.sequence.1 query.plan
      (candidates.map (·.record)) none = .ok digest := by
    unfold batchDigest batchBytes
    rw [demand_bind huncorrelated, Option.getD_none, bind_eq_of_ok hbytes]
    exact ⟨_, rfl⟩
  obtain ⟨digest, hdigest⟩ := hdigest
  unfold TailSession.deliverRecords TailSession.publishDeliveryCursor
  rw [bind_eq_of_ok htotal, bind_eq_of_ok hdigest, demand_bind (by rw [hundelivered]; rfl)]
  exact ⟨_, rfl⟩

section Passing

variable (h : LiveSound query start world) {updates : List TailPosition} {candidates : List TailCandidate}
  (hwaits : ∀ source ∈ world.sources.readers, ∀ entry, lookup source.shard world.session.state.positions = some entry →
    Waits query.plan source (world.session.scanAfter entry).bound (taken candidates source.shard)
      (lookup source.shard updates))
  {session : TailSession} (hpositions : session.state.positions = world.session.state.positions.map (override updates))
  (hbound : session.state.recordBound)
include h hwaits hpositions hbound

/-- A cursor that moves on leaves the rest of each source to be read. -/
theorem LiveSound.passes {acknowledged : List TailCandidate}
    (hafter : LiveSound query start ⟨world.sources, session, acknowledged⟩) :
    Passes query.plan world.sources.readers world.session session updates candidates := by
  intro source hsource
  obtain ⟨base, hbase, entry, hsound⟩ := h.sources source hsource
  have hwaits := hwaits source hsource entry hsound.found
  have hshard := (lookup_some hsound.found).2
  have hoverride : override updates entry = (lookup source.shard updates).getD entry := by rw [← hshard]; rfl
  have hfound : lookup source.shard session.state.positions = some (override updates entry) := by
    rw [hpositions, lookup_override, hsound.found]
    rfl
  have hscan : (session.scanAfter (override updates entry)).bound = (override updates entry).identity := by
    unfold scanAfter
    rw [hbound]
    rfl
  rw [remaining_eq hsound.found, remaining_eq hfound, hscan, hoverride]
  cases hupdate : lookup source.shard updates with
  | some update =>
    rw [hupdate] at hwaits
    have hbehind := hwaits.behind
    obtain ⟨hlt, ⟨record, hrec, hid⟩, hcands⟩ := hwaits
    refine ⟨_, recordsBetween_split (fun _ _ hmem => lt_trans hlt hmem) hbehind, hcands.symm, fun _ => ?_⟩
    exact ne_nil_of_mem (mem_between.mpr ⟨hrec, hid ▸ hlt, le_of_eq hid⟩)
  | none =>
    rw [hupdate] at hwaits
    refine ⟨[], ?_, (show taken candidates source.shard = [] from hwaits).symm, fun hne => absurd rfl hne⟩
    rw [nil_append, Option.getD_none]
    by_cases hblock : world.session.state.recordBound
    · have hsame : (world.session.scanAfter entry).bound = entry.identity := by
        unfold scanAfter
        rw [hblock]
        rfl
      rw [hsame]
    · -- the whole block of the start is behind its first record as well
      have hentry := hsound.fresh (Bool.eq_false_iff.mpr hblock)
      obtain ⟨other, hother, moved, hmoved⟩ := hafter.sources source hsource
      have hbaseSame : other = base :=
        inj_on_of_nodup_map start.distinct hother hbase (hmoved.same.trans hsound.same.symm)
      cases hmoved.found.symm.trans hfound
      have hbeyond := hmoved.reads.beyond
      rw [hscan, hoverride, hupdate, Option.getD_none, hbaseSame] at hbeyond
      have hstart : (world.session.scanAfter entry).bound = blockEnd base.snapshot.frontier := by
        unfold scanAfter
        rw [if_neg hblock, hentry]
        rfl
      have hle : entry.identity ≤ blockEnd base.snapshot.frontier := hstart ▸ identity_le_bound _ entry
      rw [hstart]
      apply between_congr
      intro record hrec
      exact and_congr_left fun _ => ⟨lt_of_le_of_lt hle, hbeyond record hrec⟩

end Passing

variable (hfree : Unhindered query world)
include hfree

theorem Unhindered.pass {updates : List TailPosition} {candidates acknowledged : List TailCandidate}
    {session : TailSession}
    (hpasses : Passes query.plan world.sources.readers world.session session updates candidates)
    (hsourced : ∀ candidate ∈ candidates, candidate.position.shard ∈ world.sources.readers.map (·.shard))
    (hrows : session.state.outputRows.1 = world.session.state.outputRows.1 + candidates.length)
    (hrunning : session.terminal = none ∧ session.terminalEmitted = false) :
    Unhindered query ⟨world.sources, session, acknowledged⟩ := by
  refine ⟨hrunning, ?_, ?_⟩
  · intro source hsource record hrec
    obtain ⟨passed, hpassed, -⟩ := hpasses source hsource
    exact hfree.rendered source hsource record (hpassed ▸ mem_append_right passed hrec)
  · have hless := hpasses.rows hsourced
    have hbudget := hfree.budget
    dsimp only
    omega

variable (h : LiveSound query start world)
include h

theorem LiveSound.exists_fill : ∃ filled, world.session.fillSources query world.sources.readers maxTailBatchRows =
    .ok filled := by
  have hbudget := hfree.budget
  have hlimit : 0 < pollLimit query world.session := by
    unfold pollLimit maxTailBatchRows
    omega
  have hread := readSources_eq fun source hsource => by
    obtain ⟨base, -, entry, hsound⟩ := h.sources source hsource
    refine @readSource_eq query _ _ source hlimit entry hsound.found fun record hrec => ?_
    obtain ⟨row, hrow, -⟩ := renders_ok (hfree.rendered source hsource record hrec)
    exact ⟨row, hrow⟩
  have hlive : world.session.fillSources query world.sources.readers maxTailBatchRows =
      world.session.fillLiveSources query world.sources.readers (pollLimit query world.session) :=
    (demand_bind hlimit.ne' _ _).trans (if_pos h.live)
  rw [hlive]
  unfold TailSession.fillLiveSources
  rw [bind_eq_of_ok hread]
  change ∃ filled, (if (mergeOf query world.session (pollLimit query world.session) world.sources.readers).records = []
    then _ else _) = _
  by_cases hempty : (mergeOf query world.session (pollLimit query world.session) world.sources.readers).records = []
  · rw [if_pos hempty, demand_bind (by rw [h.unreplayed.2.1]; rfl)]
    change ∃ filled, (if reached query world.session (pollLimit query world.session) world.sources.readers = [] then _
      else _) = _
    by_cases hnil : reached query world.session (pollLimit query world.session) world.sources.readers = []
    · exact ⟨_, if_pos hnil⟩
    · rw [if_neg hnil]
      exact ⟨_, bind_eq_of_ok (TailCursorState.advancePositions_eq h.arranged hnil (h.reached_forward _)) _⟩
  · rw [if_neg hempty]
    refine exists_deliverRecords ?_ ?_ h.unreplayed.2.1 _
    · have hlen := mergeOf_records_length query world.session (pollLimit query world.session) world.sources.readers
      have hle : pollLimit query world.session ≤ query.outputRows.1 - world.session.state.outputRows.1 :=
        min_le_right _ _
      change world.session.state.outputRows.1 +
        (mergeOf query world.session (pollLimit query world.session) world.sources.readers).records.length ≤ _
      omega
    · intro candidate hcand
      obtain ⟨source, hsource, record, hrec, hselected⟩ := merge_selected world.sources.distinct hcand
      obtain ⟨row, hrow, hbytes⟩ := renders_ok (hfree.rendered source hsource record hrec)
      rw [h.unreplayed.1] at hselected
      unfold candidateOf at hselected
      rw [hrow] at hselected
      cases row with
      | none => cases hselected
      | some row =>
        cases hselected
        exact hbytes row rfl

/-- A round of a client that may go on. -/
structure Advances (query : TailQuery) (start : TailSourceSet) (before after : TailWorld) : Prop where
  sound : LiveSound query start after
  free : Unhindered query after
  sources : after.sources = before.sources
  less : work after < work before ∨ work after = 0

theorem LiveSound.acknowledge_advances (hfrontiers : FrontiersHold start) (hheader : world.session.header = false)
    {pending : PendingBatch} (hpending : world.session.pendingBatch = some pending) :
    Advances query start world (tailStep query world (.acknowledge world.session.state.sequence pending.digest)) := by
  have hsound := h.acknowledge hfrontiers world.session.state.sequence pending.digest
  obtain ⟨session, hstep, hpositions, hbound, hrows, hterminal, hemitted, hkept⟩ := h.acknowledge_pending hpending
  have hbatch := h.pending pending hpending
  rw [hstep] at hsound ⊢
  have hpasses := h.passes (h.waits hpending) hpositions hbound hsound
  refine ⟨hsound, hfree.pass hpasses hbatch.sourced hrows ⟨hterminal.trans hfree.running.1, hemitted.trans
    hfree.running.2⟩, rfl, .inl ?_⟩
  have hless := hpasses.backlog_lt (h.pending_positions_ne_nil hpending) hbatch.known
  unfold work
  rw [hkept, hheader]
  exact Nat.add_lt_add_right hless _

theorem LiveSound.fill_advances (hfrontiers : FrontiersHold start) (hheader : world.session.header = false)
    (hnone : world.session.pendingBatch = none) {filled : TailSession}
    (hfill : world.session.fillSources query world.sources.readers maxTailBatchRows = .ok filled) :
    Advances query start world (match filled.pendingBatch with
      | some pending =>
        tailStep query { world with session := filled } (.acknowledge filled.state.sequence pending.digest)
      | none => { world with session := filled }) := by
  obtain ⟨hlimit, hfills⟩ := h.fills hfill
  cases hfills with
  | nothing hnil =>
    rw [hnone]
    refine ⟨h, hfree, rfl, .inr ?_⟩
    have hread : ∀ source ∈ world.sources.readers, (remaining world.session source).length = 0 := by
      intro source hsource
      have hunread := unread_of_reached_nil world.sources.distinct hlimit hnil hsource
      rcases take_eq_nil_iff.mp hunread with hzero | hnil
      · omega
      · rw [hnil]
        rfl
    unfold work backlog
    rw [map_congr_left hread, hheader]
    simp
  | passed hempty hne =>
    have hsound := h.passedOver hfrontiers hnone hempty hne
    have hpasses := h.passes (h.reached_waits _) rfl rfl hsound
    obtain ⟨-, hknown⟩ := @reached_sound query world.session (pollLimit query world.session) _ world.sources.distinct
    have hpending : (Tail.passedOver query world).pendingBatch = none := hnone
    rw [hpending]
    refine ⟨hsound, hfree.pass hpasses (hempty ▸ fun _ hmem => absurd hmem not_mem_nil) (by rw [hempty]; rfl)
      hfree.running, rfl, .inl ?_⟩
    have hless := hpasses.backlog_lt hne hknown
    exact Nat.add_lt_add_right hless _
  | delivered hne hdelivered =>
    have hsound := h.delivered hne hdelivered
    obtain ⟨-, digest, hfilled⟩ := deliverRecords_ok hdelivered
    have hwork : work { world with session := filled } = work world := by rw [hfilled]; rfl
    have hfreed : Unhindered query { world with session := filled } := by
      rw [hfilled]
      exact ⟨hfree.running, hfree.rendered, hfree.budget⟩
    obtain ⟨pending, hpending⟩ : ∃ pending, filled.pendingBatch = some pending := ⟨_, congrArg (·.pendingBatch) hfilled⟩
    have hadvances := hsound.acknowledge_advances hfreed hfrontiers (by rw [hfilled]; exact hheader) hpending
    rw [hpending]
    exact ⟨hadvances.sound, hadvances.free, hadvances.sources, hwork ▸ hadvances.less⟩

theorem LiveSound.follow_advances (hfrontiers : FrontiersHold start) :
    Advances query start world (follow query world) := by
  obtain ⟨hterminal, hemitted⟩ := hfree.running
  cases hheader : world.session.header with
  | true =>
    have hround : follow query world = { world with session := { world.session with header := false } } := by
      simp [follow, tailStep, poll, hemitted, hheader]
    rw [hround]
    refine ⟨h.frame ⟨rfl, rfl, rfl, rfl, rfl⟩ (.inr rfl), ⟨hfree.running, hfree.rendered, hfree.budget⟩, rfl, .inl ?_⟩
    unfold work
    rw [hheader]
    exact Nat.lt_succ_self _
  | false =>
    cases hpending : world.session.pendingBatch with
    | some pending =>
      have hround : follow query world =
          tailStep query world (.acknowledge world.session.state.sequence pending.digest) := by
        simp [follow, tailStep, poll, hemitted, hheader, hterminal, hpending, batchEvent]
      rw [hround]
      exact h.acknowledge_advances hfree hfrontiers hheader hpending
    | none =>
      obtain ⟨filled, hfill⟩ := h.exists_fill hfree
      have hround : follow query world = match filled.pendingBatch with
          | some pending =>
            tailStep query { world with session := filled } (.acknowledge filled.state.sequence pending.digest)
          | none => { world with session := filled } := by
        unfold follow
        cases hfilled : filled.pendingBatch <;>
          simp [tailStep, poll, hemitted, hheader, hterminal, hpending, hfill, hfilled, batchEvent]
      rw [hround]
      exact h.fill_advances hfree hfrontiers hheader hpending hfill

end Client

section Runs

variable {query : TailQuery} {start : TailSourceSet} {world : TailWorld}

/-- What a client is given up to the frontiers, when it goes on for as many rounds as there are records to read. -/
theorem LiveSound.followed (h : LiveSound query start world) (hfree : Unhindered query world)
    (hfrontiers : FrontiersHold start) {rounds : Nat}
    (hrounds : backlog world.session world.sources.readers < rounds) {source : Source}
    (hsource : source ∈ world.sources.readers) {base : Source} (hbase : base ∈ start.readers)
    (hsame : base.shard = source.shard) :
    taken ((follow query)^[rounds] world).acknowledged source.shard =
      selectedBetween query.plan source (blockEnd base.snapshot.frontier) (blockEnd source.snapshot.frontier) := by
  have hstep : ∀ w, (LiveSound query start w ∧ Unhindered query w ∧ w.sources = world.sources) →
      (LiveSound query start (follow query w) ∧ Unhindered query (follow query w) ∧
        (follow query w).sources = world.sources) ∧ (work (follow query w) < work w ∨ work (follow query w) = 0) := by
    rintro w ⟨hsound, hfree, hsources⟩
    have hadvances := hsound.follow_advances hfree hfrontiers
    exact ⟨⟨hadvances.sound, hadvances.free, hadvances.sources.trans hsources⟩, hadvances.less⟩
  have hwork : work world ≤ rounds := by
    unfold work
    split <;> omega
  obtain ⟨⟨hsound, -, hsources⟩, hdone⟩ := iterate_settles _ work hstep ⟨h, hfree, rfl⟩ hwork
  generalize (follow query)^[rounds] world = final at hsound hsources hdone ⊢
  rw [← hsources] at hsource
  obtain ⟨other, hother, entry, hentry⟩ := hsound.sources source hsource
  cases inj_on_of_nodup_map start.distinct hother hbase (hentry.same.trans hsame.symm)
  have hread :
      recordsBetween source (final.session.scanAfter entry).bound (blockEnd source.snapshot.frontier) = [] := by
    have hzero : backlog final.session final.sources.readers = 0 := by
      unfold work at hdone
      omega
    have hlength := List.sum_eq_zero_iff.mp hzero _ (mem_map_of_mem hsource)
    rw [← remaining_eq hentry.found]
    exact length_eq_zero_iff.mp hlength
  rw [hentry.reads.acknowledged_eq, selectedBetween_split hentry.reads.beyond hentry.reads.behind]
  have hnothing : selectedBetween query.plan source (final.session.scanAfter entry).bound
      (blockEnd source.snapshot.frontier) = [] := by
    unfold selectedBetween
    rw [hread]
    rfl
  rw [hnothing, append_nil]

end Runs

/-- In every run of a tail over new blocks, what is acknowledged of a shard are the rows of its selected records
behind the start, up to the position of the cursor and in the order of their commit. Nothing that was committed
before the start is delivered. From each state on, a client that is not hindered reaches the frontier: a round for the
header and one for each record that is left are enough to acknowledge every selected record. -/
theorem live_tail_exactly_once (query : TailQuery) (start : TailSourceSet) (hfrontiers : FrontiersHold start) :
    ∃ session, admitTail query start .now = .ok session ∧ ∀ steps,
      let world := runTail query ⟨start, session, []⟩ steps
      ∀ source ∈ world.sources.readers, ∃ base ∈ start.readers, base.shard = source.shard ∧
        (∃ position, lookup source.shard world.session.state.positions = some position ∧
          taken world.acknowledged source.shard =
            selectedBetween query.plan source (blockEnd base.snapshot.frontier) position.identity) ∧
        (∀ candidate ∈ world.acknowledged ++ (world.session.pendingBatch.map (·.candidates)).getD [],
          candidate.position.shard = source.shard → base.snapshot.frontier.1 < candidate.position.position.1) ∧
        (Unhindered query world → ∀ rounds, backlog world.session world.sources.readers < rounds →
          taken ((follow query)^[rounds] world).acknowledged source.shard =
            selectedBetween query.plan source (blockEnd base.snapshot.frontier)
              (blockEnd source.snapshot.frontier)) := by
  refine ⟨_, admitTail_now query start, fun steps => ?_⟩
  have hsound := runTail_keeps (LiveSound query start) (fun _ step h => h.step hfrontiers step)
    (liveSound_start query start) steps
  intro world source hsource
  obtain ⟨base, hbase, entry, hentry⟩ := hsound.sources source hsource
  have hbehind : ∀ low high, (∀ record ∈ source.snapshot.records, low < record.identity →
      blockEnd base.snapshot.frontier < record.identity) → ∀ candidate ∈ selectedBetween query.plan source low high,
      base.snapshot.frontier.1 < candidate.position.position.1 := by
    intro low high hlow candidate hmem
    obtain ⟨record, hrec, hcand⟩ := mem_filterMap.mp hmem
    obtain ⟨hrec, hin⟩ := mem_filter.mp hrec
    rw [candidateOf_position hcand]
    exact blockEnd_lt_iff.mp (hlow record hrec (of_decide_eq_true hin).1)
  refine ⟨base, hbase, hentry.same, ⟨entry, hentry.found, ?_⟩, fun candidate hmem hshard => ?_,
    fun hfree rounds hrounds =>
    hsound.followed hfree hfrontiers hrounds hsource hbase hentry.same⟩
  · have hreads := hentry.reads.acknowledged_eq
    unfold scanAfter at hreads
    split at hreads
    · exact hreads
    · rename_i hblock
      rw [hentry.fresh (Bool.eq_false_iff.mpr hblock)] at hreads ⊢
      rw [hreads, selectedBetween_of_le, selectedBetween_of_le]
      · exact lex_le_iff.mpr (.inr ⟨rfl, Nat.zero_le _⟩)
      · exact le_rfl
  · rcases mem_append.mp hmem with hmem | hmem
    · have htaken : candidate ∈ taken world.acknowledged source.shard :=
        mem_filter.mpr ⟨hmem, decide_eq_true hshard⟩
      rw [hentry.reads.acknowledged_eq] at htaken
      exact hbehind _ _ (fun _ _ h => h) candidate htaken
    · cases hpending : world.session.pendingBatch with
      | none =>
        rw [hpending] at hmem
        cases hmem
      | some pending =>
        rw [hpending] at hmem
        have htaken : candidate ∈ taken pending.candidates source.shard :=
          mem_filter.mpr ⟨hmem, decide_eq_true hshard⟩
        have hwaits := hentry.waits pending hpending
        cases hpos : lookup source.shard pending.positions with
        | none =>
          rw [hpos] at hwaits
          rw [show taken pending.candidates source.shard = [] from hwaits] at htaken
          cases htaken
        | some position =>
          rw [hpos] at hwaits
          rw [hwaits.2.2] at htaken
          exact hbehind _ _ hentry.reads.beyond candidate htaken

def plainQuery : TailQuery where
  plan := {
    correlated := false
    axis := .ingestTime
    range := ⟨I64.zero, ⟨3600, by decide⟩, by decide⟩
    limit := Unsigned.maxValue 16
    filter := none
    projection := []
    aggregate := none
    ordering := ⟨.ascending, .ascending⟩
    transform := none
    projectAttribute := fun _ _ => .ok none
    groupDistinct := fun _ h => by cases h }
  outputRows := ⟨250, by decide⟩
  hash := fun _ => noBatch

def firstBlock (records : Nat) (h : records < 1024) : LogBlock where
  position := ⟨1, by decide⟩
  records := List.replicate (records + 1) ⟨Logs.bareRecord, I64.zero⟩
  positive := Nat.one_pos
  nonempty := List.cons_ne_nil _ _
  count := by rw [List.length_replicate]; exact h

def emptySnapshot : LogSnapshot := ⟨originPosition, [], List.Pairwise.nil, fun _ h => absurd h List.not_mem_nil⟩

def firstShard : VirtualShardId := ⟨⟨1, by decide⟩, Nat.one_ne_zero⟩

def secondShard : VirtualShardId := ⟨⟨2, by decide⟩, Nat.two_pos.ne'⟩

def unevenSources (records : Nat) (h : records < 1024) : TailSourceSet where
  readers := [⟨firstShard, extendSnapshot emptySnapshot (firstBlock records h) Nat.one_pos⟩,
    ⟨secondShard, emptySnapshot⟩]
  nonempty := List.cons_ne_nil _ _
  count := Nat.le_of_ble_eq_true rfl
  ordered := List.pairwise_pair.mpr (Nat.lt_of_sub_pos Nat.one_pos)

/-- A commit on the empty shard makes the tail deliver the second record of the block that the other shard
started behind. -/
theorem frontier_record_delivered :
    ∃ session, admitTail plainQuery (unevenSources 1 (by decide)) .now = .ok session ∧
      ∃ pending, (runTail plainQuery ⟨unevenSources 1 (by decide), session, []⟩ [.poll,
          .commit secondShard (firstBlock 0 (by decide)), .poll, .acknowledge (Unsigned.zero 64) noBatch,
          .poll]).session.pendingBatch = some pending ∧
        ∃ source ∈ (unevenSources 1 (by decide)).readers, ∃ candidate ∈ pending.candidates,
          candidate.position.shard = source.shard ∧ ¬ source.snapshot.frontier.1 < candidate.position.position.1 := by
  refine ⟨_, admitTail_now _ _, _, rfl, _, mem_cons_self, _, mem_cons_self, rfl, ?_⟩
  decide


theorem singleFrontiers_hold : FrontiersHold (unevenSources 0 (by decide)) := by
  right
  intro base hbase record hrec _
  rcases mem_cons.mp hbase with rfl | hbase
  · simp [LogSnapshot.records, extendSnapshot, emptySnapshot, LogBlock.identified, firstBlock] at hrec
    subst hrec
    rfl
  · rw [mem_singleton.mp hbase] at hrec
    cases hrec

/-- Two records of one block have been committed on the empty shard. -/
def grownWorld : TailWorld :=
  runTail plainQuery ⟨unevenSources 0 (by decide), startSession (unevenSources 0 (by decide)), []⟩
    [.poll, .commit secondShard (firstBlock 1 (by decide))]

theorem grownWorld_unhindered : Unhindered plainQuery grownWorld := ⟨⟨rfl, rfl⟩, by decide, by decide⟩

/-- Both records are acknowledged, and the record of the other shard's frontier is not. -/
theorem new_records_delivered :
    (∃ source ∈ grownWorld.sources.readers, source.shard = secondShard ∧
      taken ((follow plainQuery)^[3] grownWorld).acknowledged secondShard =
        selectedBetween plainQuery.plan source (blockEnd originPosition) (blockEnd source.snapshot.frontier)) ∧
    ((follow plainQuery)^[3] grownWorld).acknowledged.map (fun candidate => (candidate.position.position.1,
      candidate.position.ordinal.1)) = [(1, 0), (1, 1)] := by
  obtain ⟨session, hsession, hruns⟩ := live_tail_exactly_once plainQuery _ singleFrontiers_hold
  cases (admitTail_now plainQuery (unevenSources 0 (by decide))).symm.trans hsession
  obtain ⟨base, hbase, hshard, -, -, hdelivered⟩ := hruns [.poll, .commit secondShard (firstBlock 1 (by decide))]
    ⟨secondShard, extendSnapshot emptySnapshot (firstBlock 1 (by decide)) Nat.one_pos⟩ (mem_cons_of_mem _ mem_cons_self)
  have hempty : base = ⟨secondShard, emptySnapshot⟩ := by
    rcases mem_cons.mp hbase with rfl | hbase
    · cases hshard
    · exact mem_singleton.mp hbase
  subst hempty
  refine ⟨⟨_, mem_cons_of_mem _ mem_cons_self, rfl, ?_⟩, by decide⟩
  exact hdelivered grownWorld_unhindered 3 (by decide)

end Positron.Tail
