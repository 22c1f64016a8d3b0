import Positron.Lib.Keyed
import Positron.Tail.Session

/-! What a merge takes from each shard: the first candidates, and a position that stands exactly behind them. -/

namespace Positron.Tail
open Checks Query List Keyed

section Candidates

variable {plan : LogicalPlan} {replay : Bool} {shard : VirtualShardId} {records : List ScannedLogRecord}

def positionOf (shard : VirtualShardId) (record : ScannedLogRecord) : TailPosition :=
  ⟨shard, record.commitPosition, record.recordOrdinal⟩

def candidateOf (plan : LogicalPlan) (replay : Bool) (shard : VirtualShardId) (record : ScannedLogRecord) :
    Option TailCandidate :=
  match queryRecord plan false record with
  | .ok (some row) => some ⟨if replay then row.markReplayed else row, positionOf shard record⟩
  | _ => none

theorem positionOf_inj {first second : ScannedLogRecord} (h : first.identity = second.identity) :
    positionOf shard first = positionOf shard second := by
  obtain ⟨hpos, hordinal⟩ := Prod.ext_iff.mp (toLex_inj.mp h)
  exact TailPosition.ext rfl (Subtype.ext hpos) (Subtype.ext hordinal)

theorem candidateOf_position {record : ScannedLogRecord} {candidate : TailCandidate}
    (h : candidateOf plan replay shard record = some candidate) : candidate.position = positionOf shard record := by
  unfold candidateOf at h
  split at h
  · cases h
    rfl
  · cases h

variable {limit : Nat}

theorem materializeRecords_ok {candidates found : List TailCandidate} {before last : Option TailPosition}
    (hlimit : candidates.length + records.length ≤ limit)
    (h : materializeRecords plan replay shard limit candidates before records = .ok (found, last)) :
    found = candidates ++ records.filterMap (candidateOf plan replay shard) ∧
      last = (records.getLast?.map (positionOf shard)).or before := by
  induction records generalizing candidates before with
  | nil =>
    cases h
    exact ⟨(append_nil _).symm, rfl⟩
  | cons record records ih =>
    obtain ⟨row, hrow, hrest⟩ := bind_ok h
    have hfound : row.toList.map (fun row => (⟨if replay then row.markReplayed else row,
        ⟨shard, record.commitPosition, record.recordOrdinal⟩⟩ : TailCandidate)) =
        (candidateOf plan replay shard record).toList := by
      unfold candidateOf
      rw [hrow]
      cases row <;> rfl
    have hcons : (record :: records).filterMap (candidateOf plan replay shard) =
        (candidateOf plan replay shard record).toList ++ records.filterMap (candidateOf plan replay shard) := by
      rw [filterMap_cons]
      cases candidateOf plan replay shard record <;> rfl
    dsimp only at hrest
    rw [hfound] at hrest
    have hone : (candidateOf plan replay shard record).toList.length ≤ 1 := by
      cases candidateOf plan replay shard record <;> simp
    rw [length_cons] at hlimit
    split at hrest
    · -- The limit can only be reached with the last record.
      rename_i hfull
      rw [length_append] at hfull
      have hnil : records = [] := length_eq_zero_iff.mp (by omega)
      cases hrest
      subst hnil
      rw [hcons]
      exact ⟨by rw [filterMap_nil, append_nil], rfl⟩
    · obtain ⟨hcands, hlast⟩ := ih (by rw [length_append]; omega) hrest
      refine ⟨by rw [hcands, hcons, append_assoc], ?_⟩
      rw [hlast, getLast?_cons]
      cases records.getLast? <;> rfl

theorem exists_materializeRecords (hrows : ∀ record ∈ records, ∃ row, queryRecord plan false record = .ok row)
    (candidates : List TailCandidate) (before : Option TailPosition) :
    ∃ result, materializeRecords plan replay shard limit candidates before records = .ok result := by
  induction records generalizing candidates before with
  | nil => exact ⟨_, rfl⟩
  | cons record records ih =>
    obtain ⟨⟨row, hrow⟩, hrest⟩ := forall_mem_cons.mp hrows
    unfold materializeRecords
    rw [bind_eq_of_ok hrow]
    dsimp only
    generalize candidates ++ row.toList.map _ = found
    by_cases hfull : limit ≤ found.length
    · exact ⟨_, if_pos hfull⟩
    · rw [if_neg hfull]
      exact ih hrest _ _

theorem materializeSnapshot_ok {source : Source} {after : ScanAfter} {frontier : CommitPosition}
    (hlimit : 0 < limit) {found : List TailCandidate} {last : Option TailPosition} {complete : Bool}
    (h : materializeSnapshot plan replay source after frontier limit = .ok (found, last, complete)) :
    let records := source.snapshot.records.filter (LogScan.admitted ⟨limit, some after, frontier⟩)
    found = (records.take limit).filterMap (candidateOf plan replay source.shard) ∧
      last = (records.take limit).getLast?.map (positionOf source.shard) ∧
      complete = decide (records.length ≤ limit) := by
  obtain ⟨⟨candidates, lastScanned⟩, hrecs, hresult⟩ := bind_ok h
  cases hresult
  rw [executeScan_eq source.snapshot hlimit] at hrecs ⊢
  obtain ⟨hfound, hlast⟩ := materializeRecords_ok
    (by rw [length_nil, Nat.zero_add]; exact length_take_le _ _) hrecs
  exact ⟨hfound, hlast.trans (Option.or_none), rfl⟩

def Increasing (candidates : List TailCandidate) : Prop :=
  candidates.Pairwise fun a b => a.position.identity < b.position.identity

theorem increasing_filterMap (h : records.Pairwise fun a b => a.identity < b.identity) :
    Increasing (records.filterMap (candidateOf plan replay shard)) := by
  apply List.Pairwise.filterMap _ _ h
  intro a b hab x hx y hy
  rw [candidateOf_position hx, candidateOf_position hy]
  exact hab

theorem foldl_sink {sorted candidates : List TailCandidate} (h : Increasing (sorted.reverse ++ candidates)) :
    candidates.foldl (fun sorted candidate => sink candidate sorted) sorted = candidates.reverse ++ sorted := by
  induction candidates generalizing sorted with
  | nil => rfl
  | cons candidate candidates ih =>
    have hsink : sink candidate sorted = candidate :: sorted := by
      cases sorted with
      | nil => rfl
      | cons previous before =>
        have hlt : previous.position.identity < candidate.position.identity :=
          (pairwise_append.mp h).2.2 previous (mem_reverse.mpr mem_cons_self) candidate mem_cons_self
        apply if_neg
        unfold compareCandidates
        rcases lex_lt_iff.mp hlt with hpos | ⟨hpos, hordinal⟩
        · rw [compare_lt_iff_lt.mpr hpos]
          exact Ordering.noConfusion
        · rw [compare_eq_iff_eq.mpr hpos, compare_lt_iff_lt.mpr hordinal]
          exact Ordering.noConfusion
    rw [foldl_cons, hsink, ih (by rwa [reverse_cons, append_assoc]), reverse_cons, append_assoc]
    rfl

theorem sortCandidates_eq {candidates : List TailCandidate} (h : Increasing candidates) :
    sortCandidates candidates = candidates := by
  rw [sortCandidates, (foldl_sink h : candidates.foldl _ [] = _), append_nil, reverse_reverse]

end Candidates

section Positions

variable {positions : List TailPosition} {candidate : TailPosition}

def lookup (shard : VirtualShardId) (positions : List TailPosition) : Option TailPosition :=
  positions.find? fun position => position.shard = shard

def later (found : Option TailPosition) (candidate : TailPosition) : TailPosition :=
  match found with
  | some position => if position.place < candidate.place then candidate else position
  | none => candidate

theorem lookup_updatePosition (shard : VirtualShardId) : lookup shard (updatePosition positions candidate) =
      if candidate.shard = shard then some (later (lookup shard positions) candidate) else lookup shard positions := by
  unfold lookup
  induction positions with
  | nil =>
    by_cases h : candidate.shard = shard <;> simp [updatePosition, h, later]
  | cons position positions ih =>
    unfold updatePosition
    by_cases hsame : position.shard = candidate.shard
    · by_cases hlt : position.place < candidate.place <;> by_cases h : candidate.shard = shard <;>
        simp [hsame, hlt, h, later]
    · by_cases h : position.shard = shard
      · have hne : candidate.shard ≠ shard := fun heq => hsame (h.trans heq.symm)
        rw [if_neg hsame]
        simp [h, hne]
      · simp only [if_neg hsame, find?_cons, h, decide_false, ih]

theorem shard_mem_updatePosition {shard : VirtualShardId} :
    shard ∈ (updatePosition positions candidate).map (·.shard) ↔
      shard ∈ positions.map (·.shard) ∨ shard = candidate.shard := by
  induction positions with
  | nil => simp [updatePosition]
  | cons position positions ih =>
    unfold updatePosition
    split
    · rename_i hsame
      split <;> simp [hsame] <;> exact .inl
    · rw [map_cons, mem_cons, ih, map_cons, mem_cons, or_assoc]

theorem nodup_updatePosition (h : (positions.map (·.shard)).Nodup) :
    ((updatePosition positions candidate).map (·.shard)).Nodup := by
  induction positions with
  | nil => simp [updatePosition]
  | cons position positions ih =>
    obtain ⟨hfirst, hrest⟩ := nodup_cons.mp h
    unfold updatePosition
    split
    · rename_i hsame
      split
      · rw [map_cons, ← hsame]
        exact h
      · exact h
    · rename_i hother
      refine nodup_cons.mpr ⟨fun hmem => ?_, ih hrest⟩
      exact (shard_mem_updatePosition.mp hmem).elim hfirst hother

end Positions

section Rounds

def taken (records : List TailCandidate) (shard : VirtualShardId) : List TailCandidate :=
  records.filter fun candidate => candidate.position.shard = shard

structure QueuesSound (queues : List SourceQueue) : Prop where
  distinct : (queues.map (·.shard)).Nodup
  shards : ∀ source ∈ queues, ∀ candidate ∈ source.queue, candidate.position.shard = source.shard
  increasing : ∀ source ∈ queues, Increasing source.queue

def leftover (records : List TailCandidate) (source : SourceQueue) : SourceQueue :=
  { source with
    queue := source.queue.drop (taken records source.shard).length
    selected := !(taken records source.shard).isEmpty }

structure Merging (queues : List SourceQueue) (merge : Merge) : Prop where
  queues_eq : merge.queues = queues.map (leftover merge.records)
  split : ∀ source ∈ queues, taken merge.records source.shard <+: source.queue
  found : ∀ shard, lookup shard merge.positions = (taken merge.records shard).getLast?.map (·.position)
  known : ∀ position ∈ merge.positions, position.shard ∈ queues.map (·.shard)
  distinct : (merge.positions.map (·.shard)).Nodup

variable {candidate : TailCandidate} {index : Nat} {queues : List SourceQueue} {merge : Merge}

theorem bestFrom_some {best : Option (Nat × TailCandidate)} {sources : List SourceQueue}
    {place : Nat} (h : bestFrom index best sources = some (place, candidate)) :
    best = some (place, candidate) ∨ ∃ offset source rest, place = index + offset ∧ sources[offset]? = some source ∧
      source.queue = candidate :: rest := by
  induction sources generalizing index best with
  | nil => exact .inl h
  | cons source sources ih =>
    have hlater : ∀ {best}, bestFrom (index + 1) best sources = some (place, candidate) →
        best = some (place, candidate) ∨ ∃ offset found rest, place = index + offset ∧
          (source :: sources)[offset]? = some found ∧ found.queue = candidate :: rest := by
      intro best h
      rcases ih h with hbest | ⟨offset, found, rest, hplace, hfound, hqueue⟩
      · exact .inl hbest
      · exact .inr ⟨offset + 1, found, rest, by omega, hfound, hqueue⟩
    unfold bestFrom at h
    split at h
    · exact hlater h
    · rename_i left rest hqueue
      split at h
      · rcases hlater h with hbest | hrest
        · cases hbest
          exact .inr ⟨0, source, rest, rfl, rfl, hqueue⟩
        · exact .inr hrest
      · exact hlater h

theorem taken_append (records : List TailCandidate) (candidate : TailCandidate) (shard : VirtualShardId) :
    taken (records ++ [candidate]) shard =
      if candidate.position.shard = shard then taken records shard ++ [candidate] else taken records shard := by
  unfold taken
  split <;> simp_all

theorem Merging.round (hqueues : QueuesSound queues) (h : Merging queues merge)
    (hbest : bestFrom 0 none merge.queues = some (index, candidate)) :
    Merging queues ⟨merge.queues.modify index SourceQueue.popped, updatePosition merge.positions candidate.position,
      merge.records ++ [candidate]⟩ := by
  obtain ⟨hdist, hshards, hincr⟩ := hqueues
  rcases bestFrom_some hbest with hnone | ⟨offset, left, rest, hindex, hleft, hrest⟩
  · cases hnone
  rw [Nat.zero_add] at hindex
  subst hindex
  rw [h.queues_eq, getElem?_map, Option.map_eq_some_iff] at hleft
  obtain ⟨source, hsource, rfl⟩ := hleft
  have hmem := mem_of_getElem? hsource
  obtain ⟨remaining, hrem⟩ := h.split source hmem
  have hnext : remaining = candidate :: rest := by
    rw [← hrest, leftover, ← hrem, drop_left]
  have hqueue : source.queue = taken merge.records source.shard ++ candidate :: rest := by rw [← hrem, hnext]
  have hshard : candidate.position.shard = source.shard :=
    hshards source hmem candidate (by rw [hqueue]; exact mem_append_right _ mem_cons_self)
  refine ⟨?_, ?_, ?_, ?_, nodup_updatePosition h.distinct⟩
  · rw [h.queues_eq]
    apply ext_getElem?
    intro place
    rw [getElem?_modify, getElem?_map, getElem?_map]
    cases hplace : queues[place]? with
    | none => rfl
    | some other =>
      by_cases hsame : index = place
      · subst hsame
        cases hplace.symm.trans hsource
        simp [leftover, taken_append, hshard, SourceQueue.popped]
      · have hother : candidate.position.shard ≠ other.shard := by
          intro heq
          have hfirst : (queues.map (·.shard))[index]? = some source.shard := by rw [getElem?_map, hsource]; rfl
          have hsecond : (queues.map (·.shard))[place]? = some source.shard := by
            rw [getElem?_map, hplace, ← hshard, heq]
            rfl
          exact hsame ((List.getElem?_inj (List.getElem?_eq_some_iff.mp hfirst).1 hdist).mp
            (hfirst.trans hsecond.symm))
        simp [leftover, taken_append, hother, hsame]
  · intro other hother
    rw [taken_append]
    split
    · rename_i heq
      have hsame : other = source :=
        inj_on_of_nodup_map hdist hother hmem (heq.symm.trans hshard)
      rw [hsame, hqueue]
      exact ⟨rest, by rw [append_assoc]; rfl⟩
    · exact h.split other hother
  · intro shard
    rw [lookup_updatePosition, taken_append, h.found shard]
    split
    · rename_i heq
      rw [getLast?_concat]
      congr 1
      cases hlast : (taken merge.records shard).getLast? with
      | none => rfl
      | some last =>
        apply if_pos
        have htaken : last ∈ taken merge.records source.shard := by
          rw [← hshard, heq]
          exact mem_of_getLast? hlast
        have hlt : last.position.identity < candidate.position.identity := by
          have hpw := hincr source hmem
          rw [hqueue] at hpw
          exact (pairwise_append.mp hpw).2.2 last htaken candidate mem_cons_self
        have hlastShard : last.position.shard = source.shard := of_decide_eq_true (mem_filter.mp htaken).2
        exact Prod.Lex.toLex_lt_toLex.mpr (.inr ⟨by rw [hlastShard, hshard], hlt⟩)
    · rfl
  · intro position hpos
    rcases shard_mem_updatePosition.mp (mem_map_of_mem hpos) with hold | hnew
    · obtain ⟨old, hold, heq⟩ := mem_map.mp hold
      rw [← heq]
      exact h.known old hold
    · rw [hnew, hshard]
      exact mem_map_of_mem hmem

theorem Merging.loop (hqueues : QueuesSound queues) (rounds : Nat)
    (h : Merging queues merge) : Merging queues (mergeLoop rounds merge) := by
  induction rounds generalizing merge with
  | zero => exact h
  | succ rounds ih =>
    unfold mergeLoop
    split
    · exact h
    · rename_i hbest
      exact ih (h.round hqueues hbest)

theorem bestFrom_isSome {best : Option (Nat × TailCandidate)} {sources : List SourceQueue}
    (h : best.isSome ∨ ∃ source ∈ sources, source.queue ≠ []) : (bestFrom index best sources).isSome := by
  induction sources generalizing index best with
  | nil =>
    rcases h with h | ⟨source, hmem, -⟩
    · exact h
    · cases hmem
  | cons source sources ih =>
    unfold bestFrom
    split
    · rename_i hqueue
      refine ih (h.imp_right ?_)
      rintro ⟨other, hmem, hne⟩
      rcases mem_cons.mp hmem with rfl | hmem
      · exact absurd hqueue hne
      · exact ⟨other, hmem, hne⟩
    · rename_i left rest hqueue
      split
      · exact ih (.inl rfl)
      · rename_i hkept
        cases best with
        | none => exact absurd rfl hkept
        | some best => exact ih (.inl rfl)

theorem mergeLoop_records (rounds : Nat) (merge : Merge) : merge.records <+: (mergeLoop rounds merge).records := by
  induction rounds generalizing merge with
  | zero => exact prefix_refl _
  | succ rounds ih =>
    unfold mergeLoop
    split
    · exact prefix_refl _
    · rename_i index candidate _
      exact (prefix_append merge.records [candidate]).trans (ih ⟨_, _, merge.records ++ [candidate]⟩)

theorem mergeLoop_records_length (rounds : Nat) (merge : Merge) :
    (mergeLoop rounds merge).records.length ≤ merge.records.length + rounds := by
  induction rounds generalizing merge with
  | zero => exact le_rfl
  | succ rounds ih =>
    unfold mergeLoop
    split
    · exact Nat.le_add_right _ _
    · rename_i index candidate _
      refine (ih _).trans ?_
      rw [length_append, length_singleton]
      omega

/-- A merge selects something while a queue holds something. -/
theorem mergeLoop_records_ne_nil {rounds : Nat} (hrounds : 0 < rounds) {source : SourceQueue}
    {rest : List TailCandidate}
    (hmem : source ∈ merge.queues) (hqueue : source.queue = candidate :: rest) :
    (mergeLoop rounds merge).records ≠ [] := by
  obtain ⟨rounds, rfl⟩ := Nat.exists_eq_succ_of_ne_zero hrounds.ne'
  have hbest : (bestFrom 0 none merge.queues).isSome :=
    bestFrom_isSome (.inr ⟨source, hmem, by rw [hqueue]; exact cons_ne_nil _ _⟩)
  obtain ⟨⟨index, best⟩, hbest⟩ := Option.isSome_iff_exists.mp hbest
  unfold mergeLoop
  rw [hbest]
  intro hnil
  have hprefix := mergeLoop_records rounds ⟨merge.queues.modify index SourceQueue.popped,
    updatePosition merge.positions best.position, merge.records ++ [best]⟩
  rw [hnil] at hprefix
  simp at hprefix

end Rounds

section Reached

variable {positions : List TailPosition} {source : SourceQueue}

def reach (source : SourceQueue) (found : Option TailPosition) : Option TailPosition :=
  match source.scanned with
  | some scanned =>
    if source.queue.isEmpty ∧ (source.hadCandidates = false ∨ source.selected) then some (later found scanned)
    else found
  | none => found

/-- The scanned position of a queue is one of its shard. -/
def ScannedSound (source : SourceQueue) : Prop :=
  ∀ scanned, source.scanned = some scanned → scanned.shard = source.shard

theorem lookup_exhausted (hscanned : ScannedSound source) (shard : VirtualShardId) :
    lookup shard (exhausted positions source) =
      if source.shard = shard then reach source (lookup shard positions) else lookup shard positions := by
  unfold exhausted reach
  cases h : source.scanned with
  | none => simp
  | some scanned =>
    dsimp only
    split
    · rw [lookup_updatePosition, hscanned scanned h]
    · simp

theorem exhausted_keeps (hscanned : ScannedSound source) {shards : List VirtualShardId} (hmem : source.shard ∈ shards)
    (h : (positions.map (·.shard)).Nodup ∧ ∀ position ∈ positions, position.shard ∈ shards) :
    ((exhausted positions source).map (·.shard)).Nodup ∧
      ∀ position ∈ exhausted positions source, position.shard ∈ shards := by
  unfold exhausted
  cases hsource : source.scanned with
  | none => exact h
  | some scanned =>
    dsimp only
    split
    · refine ⟨nodup_updatePosition h.1, fun position hpos => ?_⟩
      rcases shard_mem_updatePosition.mp (mem_map_of_mem hpos) with hold | hnew
      · obtain ⟨old, hold, heq⟩ := mem_map.mp hold
        rw [← heq]
        exact h.2 old hold
      · rw [hnew, hscanned scanned hsource]
        exact hmem
    · exact h

theorem lookup_foldl_exhausted {queues : List SourceQueue} (hdist : (queues.map (·.shard)).Nodup)
    (hscanned : ∀ source ∈ queues, ScannedSound source) (hmem : source ∈ queues) :
    lookup source.shard (queues.foldl exhausted positions) = reach source (lookup source.shard positions) := by
  have hothers : ∀ (queues : List SourceQueue) (positions : List TailPosition),
      source.shard ∉ queues.map (·.shard) → (∀ source ∈ queues, ScannedSound source) →
      lookup source.shard (queues.foldl exhausted positions) = lookup source.shard positions := by
    intro queues
    induction queues with
    | nil => exact fun _ _ _ => rfl
    | cons first queues ih =>
      intro positions hnot hscanned
      obtain ⟨hfirst, hrest⟩ := not_or.mp fun h => hnot (mem_cons.mpr h)
      rw [foldl_cons, ih _ hrest fun source hmem => hscanned source (mem_cons_of_mem _ hmem),
        lookup_exhausted (hscanned first mem_cons_self), if_neg (Ne.symm hfirst)]
  induction queues generalizing positions with
  | nil => cases hmem
  | cons first queues ih =>
    obtain ⟨hfirst, hrest⟩ := nodup_cons.mp hdist
    have hlater : ∀ source ∈ queues, ScannedSound source := fun source hmem =>
      hscanned source (mem_cons_of_mem _ hmem)
    rw [foldl_cons]
    rcases mem_cons.mp hmem with rfl | hmem
    · rw [hothers queues _ hfirst hlater, lookup_exhausted (hscanned source mem_cons_self), if_pos rfl]
    · have hne : first.shard ≠ source.shard := fun h =>
        hfirst (mem_map.mpr ⟨source, hmem, h.symm⟩)
      rw [ih hrest hlater hmem, lookup_exhausted (hscanned first mem_cons_self), if_neg hne]

def Delivers (plan : LogicalPlan) (replay : Bool) (shard : VirtualShardId) (records : List ScannedLogRecord)
    (delivered : List TailCandidate) : Option TailPosition → Prop
  | none => delivered = []
  | some position => position.shard = shard ∧ (∃ record ∈ records, record.identity = position.identity) ∧
      delivered = (records.filter fun record => decide (record.identity ≤ position.identity)).filterMap
        (candidateOf plan replay shard)

variable {plan : LogicalPlan} {replay : Bool} {shard : VirtualShardId} {records : List ScannedLogRecord}

theorem filterMap_filter_le (bound : Nat ×ₗ Nat) :
    (records.filter fun record => decide (record.identity ≤ bound)).filterMap (candidateOf plan replay shard) =
      (records.filterMap (candidateOf plan replay shard)).filter fun candidate =>
        decide (candidate.position.identity ≤ bound) := by
  induction records with
  | nil => rfl
  | cons record records ih =>
    cases hcand : candidateOf plan replay shard record with
    | none =>
      rw [filterMap_cons_none hcand, ← ih, filter_cons]
      split
      · rw [filterMap_cons_none hcand]
      · rfl
    | some candidate =>
      have hid : candidate.position.identity = record.identity := by rw [candidateOf_position hcand]; rfl
      rw [filterMap_cons_some hcand, filter_cons, filter_cons, hid, ← ih]
      split
      · rw [filterMap_cons_some hcand]
      · rfl

theorem delivers_of_split (hrecs : records.Pairwise fun a b => a.identity < b.identity)
    {selected rest : List TailCandidate}
    (hsplit : selected ++ rest = records.filterMap (candidateOf plan replay shard)) :
    Delivers plan replay shard records selected (reach
      ⟨shard, rest, records.getLast?.map (positionOf shard), !(selected ++ rest).isEmpty, !selected.isEmpty⟩
      (selected.getLast?.map (·.position))) := by
  have hscanned : ∀ candidate ∈ selected, ∃ record ∈ records, candidate.position = positionOf shard record := by
    intro candidate hmem
    have hall := mem_append_left rest hmem
    rw [hsplit] at hall
    obtain ⟨record, hrec, hcand⟩ := mem_filterMap.mp hall
    exact ⟨record, hrec, candidateOf_position hcand⟩
  cases hlast : records.getLast? with
  | none =>
    rw [getLast?_eq_none_iff.mp hlast, filterMap_nil, append_eq_nil_iff] at hsplit
    rw [hsplit.1]
    rfl
  | some last =>
    have hmem : last ∈ records := mem_of_getLast? hlast
    cases rest with
    | nil =>
      -- Everything is taken: the position moves to the last record that was looked at.
      have hlater : later (selected.getLast?.map (·.position)) (positionOf shard last) = positionOf shard last := by
        cases hselected : selected.getLast? with
        | none => rfl
        | some candidate =>
          obtain ⟨record, hrec, hpos⟩ := hscanned candidate (mem_of_getLast? hselected)
          dsimp only [Option.map_some]
          rw [hpos]
          have hle : record.identity ≤ last.identity := by
            rw [← filter_le_last hrecs hlast] at hrec
            exact of_decide_eq_true (mem_filter.mp hrec).2
          rcases lt_or_eq_of_le hle with hlt | heq
          · have hplace : (positionOf shard record).place < (positionOf shard last).place :=
              Prod.Lex.toLex_lt_toLex.mpr (.inr ⟨rfl, hlt⟩)
            exact if_pos hplace
          · rw [positionOf_inj heq]
            exact ite_self _
      have hcond : (!(selected ++ []).isEmpty) = false ∨ (!selected.isEmpty) := by
        cases selected <;> simp
      unfold reach
      dsimp only [Option.map_some]
      rw [if_pos ⟨rfl, hcond⟩, hlater]
      refine ⟨rfl, ⟨last, hmem, rfl⟩, ?_⟩
      have hall : (records.filter fun record => decide (record.identity ≤ (positionOf shard last).identity)) =
          records := filter_le_last hrecs hlast
      rw [hall, ← hsplit, append_nil]
    | cons next rest =>
      cases hselected : selected.getLast? with
      | none => exact getLast?_eq_none_iff.mp hselected
      | some candidate =>
        obtain ⟨record, hrec, hpos⟩ := hscanned candidate (mem_of_getLast? hselected)
        have hincr : Increasing (selected ++ next :: rest) := hsplit ▸ increasing_filterMap hrecs
        obtain ⟨hfirst, -, hcross⟩ := pairwise_append.mp hincr
        refine ⟨congrArg (·.shard) hpos, ⟨record, hrec, congrArg (·.identity) hpos.symm⟩, ?_⟩
        rw [filterMap_filter_le, ← hsplit, filter_append, filter_eq_self.mpr, filter_eq_nil_iff.mpr,
          append_nil]
        · intro other hother
          rw [decide_eq_true_eq, not_le]
          exact hcross candidate (mem_of_getLast? hselected) other hother
        · intro other hother
          obtain ⟨before, rfl⟩ := getLast?_eq_some_iff.mp hselected
          apply decide_eq_true
          rcases mem_append.mp hother with hother | hother
          · exact le_of_lt ((pairwise_append.mp hfirst).2.2 other hother candidate mem_cons_self)
          · rw [mem_singleton.mp hother]

end Reached

section Sources

def blockEnd (position : CommitPosition) : Nat ×ₗ Nat := toLex (position.1, 1023)

theorem blockEnd_lt_iff {position : CommitPosition} {record : ScannedLogRecord} :
    blockEnd position < record.identity ↔ position.1 < record.commitPosition.1 := by
  have hmax := record.recordOrdinal.2
  unfold blockEnd ScannedLogRecord.identity
  rw [lex_lt_iff]
  omega

/-- The records of a source between two identities. -/
def recordsBetween (source : Source) (low high : Nat ×ₗ Nat) : List ScannedLogRecord :=
  between ScannedLogRecord.identity source.snapshot.records low high

theorem filter_admitted (source : Source) (limit : Nat) (after : ScanAfter) (frontier : CommitPosition) :
    source.snapshot.records.filter (LogScan.admitted ⟨limit, some after, frontier⟩) =
      recordsBetween source after.bound (blockEnd frontier) := by
  apply filter_congr
  intro record _
  have hend : record.identity ≤ blockEnd frontier ↔ record.commitPosition.1 ≤ frontier.1 := by
    rw [← not_lt, blockEnd_lt_iff, not_lt]
  simp [LogScan.admitted, hend]

variable {query : TailQuery} {session : TailSession} {limit : Nat} {readers : List Source} {source : Source}

/-- What a session has still to read of a source. -/
def remaining (session : TailSession) (source : Source) : List ScannedLogRecord :=
  match lookup source.shard session.state.positions with
  | some entry => recordsBetween source (session.scanAfter entry).bound (blockEnd source.snapshot.frontier)
  | none => []

theorem remaining_eq {entry : TailPosition} (h : lookup source.shard session.state.positions = some entry) :
    remaining session source =
      recordsBetween source (session.scanAfter entry).bound (blockEnd source.snapshot.frontier) := by
  unfold remaining
  rw [h]

theorem remaining_ascending (session : TailSession) (source : Source) :
    Ascending ScannedLogRecord.identity (remaining session source) := by
  unfold remaining
  split
  · exact Ascending.between source.snapshot.records_pairwise
  · exact List.Pairwise.nil

def unread (session : TailSession) (limit : Nat) (source : Source) : List ScannedLogRecord :=
  (remaining session source).take limit

def queueOf (query : TailQuery) (session : TailSession) (limit : Nat) (source : Source) : SourceQueue :=
  let candidates := (unread session limit source).filterMap (candidateOf query.plan session.replay source.shard)
  ⟨source.shard, candidates, (unread session limit source).getLast?.map (positionOf source.shard), !candidates.isEmpty,
    false⟩

theorem unread_pairwise (source : Source) :
    (unread session limit source).Pairwise fun a b => a.identity < b.identity :=
  List.Pairwise.take (remaining_ascending session source)

theorem readSource_ok (hlimit : 0 < limit) {queue : SourceQueue}
    (h : session.readSource query limit source = .ok queue) : queue = queueOf query session limit source := by
  obtain ⟨entry, hentry, h⟩ := bind_ok h
  have hentry : lookup source.shard session.state.positions = some entry := orFail_eq_ok_iff.mp hentry
  obtain ⟨⟨candidates, scanned, complete⟩, hread, h⟩ := bind_ok h
  obtain ⟨hcands, hscanned, -⟩ := materializeSnapshot_ok hlimit hread
  rw [filter_admitted, ← remaining_eq hentry] at hcands hscanned
  change candidates = (unread session limit source).filterMap _ at hcands
  change scanned = (unread session limit source).getLast?.map _ at hscanned
  cases h
  unfold queueOf
  rw [hcands, hscanned, sortCandidates_eq (increasing_filterMap (unread_pairwise source))]

/-- A source is read when its rows can be made. -/
theorem readSource_eq (hlimit : 0 < limit) {entry : TailPosition}
    (hentry : lookup source.shard session.state.positions = some entry)
    (hrows : ∀ record ∈ remaining session source, ∃ row, queryRecord query.plan false record = .ok row) :
    session.readSource query limit source = .ok (queueOf query session limit source) := by
  have hread : ∃ result, materializeSnapshot query.plan session.replay source (session.scanAfter entry)
      source.snapshot.frontier limit = .ok result := by
    unfold materializeSnapshot
    rw [executeScan_eq source.snapshot hlimit, filter_admitted, ← remaining_eq hentry]
    obtain ⟨⟨candidates, scanned⟩, hread⟩ := @exists_materializeRecords query.plan session.replay source.shard _ limit
      (fun record hrec => hrows record (mem_of_mem_take hrec)) [] none
    exact ⟨_, bind_eq_of_ok hread _⟩
  obtain ⟨⟨candidates, scanned, complete⟩, hread⟩ := hread
  have hok : ∃ queue, session.readSource query limit source = .ok queue := by
    have hfound : orFail (session.state.positions.find? fun position => position.shard = source.shard)
        QueryFailureCode.internal = .ok entry := orFail_eq_ok_iff.mpr hentry
    unfold TailSession.readSource
    rw [bind_eq_of_ok hfound, bind_eq_of_ok hread]
    exact ⟨_, rfl⟩
  obtain ⟨queue, hqueue⟩ := hok
  rw [hqueue, readSource_ok hlimit hqueue]

theorem readSources_ok (hlimit : 0 < limit) {queues : List SourceQueue}
    (h : readers.mapM (session.readSource query limit) = .ok queues) :
    queues = readers.map (queueOf query session limit) := by
  obtain ⟨hlen, hents⟩ := mapM_eq_ok h
  apply ext_getElem?
  intro index
  rw [getElem?_map]
  cases hsource : readers[index]? with
  | none => exact getElem?_eq_none (hlen ▸ getElem?_eq_none_iff.mp hsource)
  | some source =>
    obtain ⟨queue, hqueue, hread⟩ := hents index source hsource
    rw [hqueue, readSource_ok hlimit hread]
    rfl

theorem readSources_eq (h : ∀ source ∈ readers,
      session.readSource query limit source = .ok (queueOf query session limit source)) :
    readers.mapM (session.readSource query limit) = .ok (readers.map (queueOf query session limit)) := by
  induction readers with
  | nil => rfl
  | cons source readers ih =>
    obtain ⟨hfirst, hrest⟩ := forall_mem_cons.mp h
    rw [mapM_cons, bind_eq_of_ok hfirst, bind_eq_of_ok (ih hrest)]
    rfl

def mergeOf (query : TailQuery) (session : TailSession) (limit : Nat) (readers : List Source) : Merge :=
  mergeLoop limit ⟨readers.map (queueOf query session limit), [], []⟩

/-- The positions that a merge moves to. -/
def reached (query : TailQuery) (session : TailSession) (limit : Nat) (readers : List Source) : List TailPosition :=
  (mergeOf query session limit readers).queues.foldl exhausted (mergeOf query session limit readers).positions

theorem mergeOf_records_length (query : TailQuery) (session : TailSession) (limit : Nat) (readers : List Source) :
    (mergeOf query session limit readers).records.length ≤ limit := by
  have hlen := mergeLoop_records_length limit ⟨readers.map (queueOf query session limit), [], []⟩
  rw [length_nil, Nat.zero_add] at hlen
  exact hlen

variable (hdist : (readers.map (·.shard)).Nodup)

theorem map_queueOf_shard : (readers.map (queueOf query session limit)).map (·.shard) = readers.map (·.shard) := by
  rw [map_map]
  rfl

include hdist

theorem merging_readers :
    Merging (readers.map (queueOf query session limit)) (mergeOf query session limit readers) := by
  have hsound : QueuesSound (readers.map (queueOf query session limit)) := by
    refine ⟨map_queueOf_shard ▸ hdist, ?_, ?_⟩
    · intro queue hmem candidate hcand
      obtain ⟨source, -, rfl⟩ := mem_map.mp hmem
      obtain ⟨record, -, hrec⟩ := mem_filterMap.mp hcand
      rw [candidateOf_position hrec]
      rfl
    · intro queue hmem
      obtain ⟨source, -, rfl⟩ := mem_map.mp hmem
      exact increasing_filterMap (unread_pairwise source)
  refine Merging.loop hsound limit ⟨?_, fun _ _ => nil_prefix, fun _ => rfl, fun _ h => absurd h not_mem_nil,
    nodup_nil⟩
  rw [map_map]
  rfl

theorem mergeOf_queues_shard : (mergeOf query session limit readers).queues.map (·.shard) = readers.map (·.shard) := by
  rw [(merging_readers hdist).queues_eq, map_map, ← map_queueOf_shard]
  rfl

theorem mergeOf_scannedSound {queue : SourceQueue} (hmem : queue ∈ (mergeOf query session limit readers).queues) :
    ScannedSound queue := by
  intro scanned hqueue
  rw [(merging_readers hdist).queues_eq, map_map] at hmem
  obtain ⟨source, -, rfl⟩ := mem_map.mp hmem
  obtain ⟨record, -, rfl⟩ := Option.map_eq_some_iff.mp hqueue
  rfl

theorem lookup_reached (hmem : source ∈ readers) : lookup source.shard (reached query session limit readers) =
    reach (leftover (mergeOf query session limit readers).records (queueOf query session limit source))
      (lookup source.shard (mergeOf query session limit readers).positions) := by
  have hleft : leftover (mergeOf query session limit readers).records (queueOf query session limit source) ∈
      (mergeOf query session limit readers).queues := by
    rw [(merging_readers hdist).queues_eq]
    exact mem_map_of_mem (mem_map_of_mem hmem)
  exact lookup_foldl_exhausted (mergeOf_queues_shard hdist ▸ hdist) (fun _ h => mergeOf_scannedSound hdist h) hleft

theorem reached_sound : ((reached query session limit readers).map (·.shard)).Nodup ∧
    ∀ position ∈ reached query session limit readers, position.shard ∈ readers.map (·.shard) := by
  have hmerging := @merging_readers query session limit readers hdist
  refine List.foldlRecOn (mergeOf query session limit readers).queues exhausted
    (motive := fun positions : List TailPosition =>
      (positions.map (·.shard)).Nodup ∧ ∀ position ∈ positions, position.shard ∈ readers.map (·.shard))
    ⟨hmerging.distinct, map_queueOf_shard ▸ hmerging.known⟩ fun positions h queue hmem => ?_
  exact exhausted_keeps (mergeOf_scannedSound hdist hmem) (mergeOf_queues_shard hdist ▸ mem_map_of_mem hmem) h

/-- A merge delivers of each shard what stands up to the position that it moves to. -/
theorem merge_delivers (hmem : source ∈ readers) :
    Delivers query.plan session.replay source.shard (unread session limit source)
      (taken (mergeOf query session limit readers).records source.shard)
      (lookup source.shard (reached query session limit readers)) := by
  have hmerging := @merging_readers query session limit readers hdist
  obtain ⟨rest, hrest⟩ := hmerging.split _ (mem_map_of_mem (f := queueOf query session limit) hmem)
  rw [lookup_reached hdist hmem, hmerging.found]
  have hdelivers := delivers_of_split (unread_pairwise source) hrest
  unfold leftover
  rw [← hrest, drop_left]
  rw [hrest] at hdelivers
  exact hdelivers

theorem merge_sourced {candidate : TailCandidate} (hmem : candidate ∈ (mergeOf query session limit readers).records) :
    candidate.position.shard ∈ readers.map (·.shard) := by
  have hmerging := @merging_readers query session limit readers hdist
  have htaken : candidate ∈ taken (mergeOf query session limit readers).records candidate.position.shard :=
    mem_filter.mpr ⟨hmem, decide_eq_true rfl⟩
  obtain ⟨last, hlast⟩ := Option.isSome_iff_exists.mp (getLast?_isSome.mpr (ne_nil_of_mem htaken))
  have hfound := hmerging.found candidate.position.shard
  rw [hlast] at hfound
  have hknown := hmerging.known _ (mem_of_find?_eq_some hfound)
  have hshard := find?_some hfound
  rw [map_queueOf_shard, of_decide_eq_true hshard] at hknown
  exact hknown

theorem merge_selected {candidate : TailCandidate} (hmem : candidate ∈ (mergeOf query session limit readers).records) :
    ∃ source ∈ readers, ∃ record ∈ remaining session source,
      candidateOf query.plan session.replay source.shard record = some candidate := by
  obtain ⟨source, hsource, hshard⟩ := mem_map.mp (merge_sourced hdist hmem)
  have htaken : candidate ∈ taken (mergeOf query session limit readers).records source.shard :=
    mem_filter.mpr ⟨hmem, decide_eq_true hshard.symm⟩
  have hdelivers := @merge_delivers query session limit readers source hdist hsource
  cases hposition : lookup source.shard (reached query session limit readers) with
  | none =>
    rw [hposition] at hdelivers
    rw [show taken (mergeOf query session limit readers).records source.shard = [] from hdelivers] at htaken
    cases htaken
  | some position =>
    rw [hposition] at hdelivers
    rw [hdelivers.2.2] at htaken
    obtain ⟨record, hrec, hcand⟩ := mem_filterMap.mp htaken
    exact ⟨source, hsource, record, mem_of_mem_take (mem_filter.mp hrec).1, hcand⟩

/-- A merge that moves nowhere has found nothing to read. -/
theorem unread_of_reached_nil (hlimit : 0 < limit) (hnil : reached query session limit readers = [])
    (hmem : source ∈ readers) : unread session limit source = [] := by
  have hmerging := @merging_readers query session limit readers hdist
  have hnowhere : ∀ shard, lookup shard (reached query session limit readers) = none := by
    intro shard
    rw [hnil]
    rfl
  have hrecords : (mergeOf query session limit readers).records = [] := by
    by_contra hne
    obtain ⟨candidate, hcand⟩ := exists_mem_of_ne_nil _ hne
    obtain ⟨other, hother, hshard⟩ := mem_map.mp (merge_sourced hdist hcand)
    have hdelivers := @merge_delivers query session limit readers other hdist hother
    rw [hnowhere] at hdelivers
    have htaken : candidate ∈ taken (mergeOf query session limit readers).records other.shard :=
      mem_filter.mpr ⟨hcand, decide_eq_true hshard.symm⟩
    rw [show taken (mergeOf query session limit readers).records other.shard = [] from hdelivers] at htaken
    cases htaken
  have hqueue : (queueOf query session limit source).queue = [] := by
    by_contra hne
    obtain ⟨candidate, rest, hqueue⟩ := exists_cons_of_ne_nil hne
    exact mergeLoop_records_ne_nil hlimit (mem_map_of_mem hmem) hqueue hrecords
  have hreach := (lookup_reached hdist hmem).symm.trans (hnowhere source.shard)
  cases hlast : (unread session limit source).getLast? with
  | none => exact getLast?_eq_none_iff.mp hlast
  | some last =>
    -- nothing was found among the records that were looked at, so the position moves to the last of them
    have hscanned : (leftover (mergeOf query session limit readers).records
        (queueOf query session limit source)).scanned = some (positionOf source.shard last) := by
      unfold leftover queueOf
      rw [hlast]
      rfl
    have hempty : (queueOf query session limit source).hadCandidates = false := by
      have hcands : (queueOf query session limit source).hadCandidates =
          !(queueOf query session limit source).queue.isEmpty := rfl
      rw [hcands, hqueue]
      rfl
    unfold reach at hreach
    rw [hscanned] at hreach
    dsimp only at hreach
    rw [if_pos ⟨by rw [leftover, hqueue, drop_nil]; rfl, .inl hempty⟩] at hreach
    cases hreach

end Sources

end Positron.Tail
