import Positron.Catalog.Recovery

/-! A successful recovery, stage by stage: the walk back reads a linked chain of stored commits, and the
commits, the audit records and the transactions of the recovered state form one verified chain. -/

namespace Positron.Catalog
open ByteCodec Checks List MachineInt

section WalkBack

variable {record : CommitRecord} {generation : CatalogGenerationId}

def commitBytes (record : CommitRecord) : Nat :=
  retainedArtifactBytes (commitFixedBytes + 32 * record.objects.length)

def chainBytes (chain : List CommitRecord) : Nat := (chain.map commitBytes).sum

@[simp] theorem chainBytes_append (chain other : List CommitRecord) :
    chainBytes (chain ++ other) = chainBytes chain + chainBytes other := by
  simp [chainBytes]

@[simp] theorem chainBytes_singleton (record : CommitRecord) : chainBytes [record] = commitBytes record := by
  simp [chainBytes]

section Walk

variable (platform : Platform) (storage : CatalogStorage) (secret : CatalogSecret)
  (instanceId : InstanceId)

def StoredCommit (record : CommitRecord) : Prop :=
  ∃ encoded, storage.readCommit platform secret instanceId record.generation = .ok encoded ∧
    decodeCommit platform record.generation encoded = .ok record ∧
    record.formatEpoch.isCatalogReadable ∧ record.instanceId = instanceId

/-- The chain of commits that ends in a generation. The markers name all commits but the last. -/
structure Walked (byNumber : Std.ExtTreeMap Nat CatalogGenerationId compare)
    (generation : CatalogGenerationId) (chain : List CommitRecord) : Prop where
  linked : Linked originGeneration 0 chain
  last : lastGeneration originGeneration chain = generation
  stored : ∀ record ∈ chain, StoredCommit platform storage secret instanceId record
  marked : ∀ i record, chain[i]? = some record → i + 1 < chain.length →
    byNumber[i + 1]? = some record.generation

end Walk

variable {platform : Platform} {storage : CatalogStorage} {secret : CatalogSecret}
  {instanceId : InstanceId} {byNumber : Std.ExtTreeMap Nat CatalogGenerationId compare}

theorem Walked.singleton (hstored : StoredCommit platform storage secret instanceId record)
    (hpred : record.predecessor = originGeneration) (hnum : record.number.1 = 1) :
    Walked platform storage secret instanceId byNumber record.generation [record] where
  linked := ⟨hpred, hnum, trivial⟩
  last := rfl
  stored := fun other hother => by
    rw [mem_singleton.mp hother]
    exact hstored
  marked := fun i other _ hi => by
    rw [length_singleton] at hi
    omega

theorem walked_append {chain : List CommitRecord} (hne : chain ≠ []) :
    Walked platform storage secret instanceId byNumber generation (chain ++ [record]) ↔
      Walked platform storage secret instanceId byNumber record.predecessor chain ∧
        generation = record.generation ∧ record.number.1 = chain.length + 1 ∧
        StoredCommit platform storage secret instanceId record ∧
        byNumber[chain.length]? = some record.predecessor := by
  have hlen : 0 < chain.length := length_pos_of_ne_nil hne
  have hlast : ∀ i last, i + 1 = chain.length → chain[i]? = some last →
      last.generation = lastGeneration originGeneration chain := by
    intro i last hi hget
    rw [lastGeneration, getLast?_eq_getElem?, show chain.length - 1 = i by omega, hget]
    rfl
  constructor
  · intro h
    obtain ⟨hlinked, hpred, hnum⟩ := linked_append.mp h.linked
    refine ⟨⟨hlinked, hpred.symm, ?_, ?_⟩, ?_, by omega, ?_, ?_⟩
    · exact fun other hother => h.stored other (mem_append_left _ hother)
    · intro i other hget hi
      refine h.marked i other ?_ ?_
      · rw [getElem?_append_left (by omega), hget]
      · rw [length_append]
        omega
    · rw [← h.last, lastGeneration_append]
    · exact h.stored record (mem_append_right _ mem_cons_self)
    · obtain ⟨i, hi⟩ : ∃ i, i + 1 = chain.length := ⟨chain.length - 1, by omega⟩
      obtain ⟨last, hget⟩ : ∃ last, chain[i]? = some last :=
        ⟨chain[i], getElem?_eq_getElem (by omega)⟩
      have hmarked := h.marked i last (by rw [getElem?_append_left (by omega), hget])
        (by rw [length_append, length_singleton]; omega)
      rw [hi, hlast i last hi hget, ← hpred] at hmarked
      exact hmarked
  · rintro ⟨h, rfl, hnum, hstored, hmarked⟩
    refine ⟨linked_append.mpr ⟨h.linked, h.last.symm, by omega⟩, lastGeneration_append _ _ _, ?_, ?_⟩
    · intro other hother
      rcases mem_append.mp hother with hearlier | hnew
      · exact h.stored other hearlier
      · rw [mem_singleton.mp hnew]
        exact hstored
    · intro i other hget hi
      rw [length_append, length_singleton] at hi
      rw [getElem?_append_left (by omega)] at hget
      by_cases hi' : i + 1 < chain.length
      · exact h.marked i other hget hi'
      · have heq : i + 1 = chain.length := by omega
        rw [heq, hlast i other heq hget, h.last]
        exact hmarked

theorem storedCommit_read {encoded : Bytes} (hdecode : decodeCommit platform record.generation encoded = .ok record) :
    retainedArtifactBytes encoded.length = commitBytes record := by
  rw [(decodeCommit_shape hdecode).1]
  rfl

variable {highestNum expected retained retained' : Nat} {chain chain' : List CommitRecord}

theorem walkBack_succ_ok_iff :
    walkBack platform storage secret instanceId byNumber highestNum (expected + 1) generation chain
        retained = .ok (chain', retained') ↔
      ∃ record, record.generation = generation ∧ StoredCommit platform storage secret instanceId record ∧
        record.number.1 = expected + 1 ∧ highestNum ≤ maxGenerations ∧
        retained + commitBytes record ≤ maxRetainedHistoryBytes ∧
        if expected = 0 then record.predecessor = originGeneration ∧
          (chain', retained') = (record :: chain, retained + commitBytes record)
        else byNumber[expected]? = some record.predecessor ∧
          walkBack platform storage secret instanceId byNumber highestNum expected record.predecessor
            (record :: chain) (retained + commitBytes record) = .ok (chain', retained') := by
  constructor
  · intro h
    obtain ⟨encoded, hread, hafter⟩ := bind_ok h
    obtain ⟨total, hreserve, hafter⟩ := bind_ok hafter
    obtain ⟨record, hdecode, hafter⟩ := bind_ok hafter
    obtain ⟨_, hreadable, hafter⟩ := bind_ok hafter
    obtain ⟨_, hfields, hrest⟩ := bind_ok hafter
    obtain ⟨hnum, hbound, htotal⟩ := reserveHistory_eq_ok_iff.mp hreserve
    obtain ⟨hinst, hexp⟩ := demand_eq_ok_iff.mp hfields
    have hgen : record.generation = generation := (decodeCommit_shape hdecode).2
    rw [← hgen] at hread hdecode
    rw [storedCommit_read hdecode] at hbound htotal
    rw [htotal] at hrest
    refine ⟨record, hgen, ⟨encoded, hread, hdecode, demand_eq_ok_iff.mp hreadable, hinst⟩,
      hexp, hnum, hbound, ?_⟩
    by_cases hzero : expected = 0
    · rw [if_pos hzero] at hrest ⊢
      obtain ⟨_, hpred, hresult⟩ := bind_ok hrest
      cases hresult
      exact ⟨demand_eq_ok_iff.mp hpred, rfl⟩
    · rw [if_neg hzero] at hrest ⊢
      obtain ⟨_, hmarked, hresult⟩ := bind_ok hrest
      exact ⟨demand_eq_ok_iff.mp hmarked, hresult⟩
  · rintro ⟨record, rfl, ⟨encoded, hread, hdecode, hreadable, hinst⟩, hexp, hnum, hbound, h⟩
    rw [← storedCommit_read hdecode] at hbound h
    unfold walkBack
    rw [bind_eq_of_ok hread, bind_eq_of_ok (reserveHistory_eq_ok_iff.mpr ⟨hnum, hbound, rfl⟩),
      bind_eq_of_ok hdecode, demand_bind hreadable, demand_bind ⟨hinst, hexp⟩]
    by_cases hzero : expected = 0
    · rw [if_pos hzero] at h ⊢
      rw [demand_bind h.1, h.2]
      rfl
    · rw [if_neg hzero] at h ⊢
      rw [demand_bind h.1]
      exact h.2

/-- The walk succeeds exactly on the linked chains of stored commits that fit the budget. -/
theorem walkBack_ok_iff (hpos : 0 < expected) :
    walkBack platform storage secret instanceId byNumber highestNum expected generation chain
        retained = .ok (chain', retained') ↔ ∃ front, front.length = expected ∧
        Walked platform storage secret instanceId byNumber generation front ∧ chain' = front ++ chain ∧
        retained' = retained + chainBytes front ∧ retained' ≤ maxRetainedHistoryBytes ∧
        highestNum ≤ maxGenerations := by
  induction expected generalizing generation chain retained chain' retained' with
  | zero => omega
  | succ expected ih =>
    rw [walkBack_succ_ok_iff]
    by_cases hzero : expected = 0
    · subst hzero
      constructor
      · rintro ⟨record, rfl, hstored, hexp, hnum, hbound, hpred, heq⟩
        cases heq
        refine ⟨[record], rfl, .singleton hstored hpred hexp, rfl, ?_, hbound, hnum⟩
        rw [chainBytes_singleton]
      · rintro ⟨front, hlen, hwalked, rfl, rfl, hbound, hnum⟩
        obtain ⟨record, rfl⟩ := length_eq_one_iff.mp hlen
        refine ⟨record, hwalked.last, hwalked.stored record mem_cons_self, hwalked.linked.2.1,
          hnum, hbound, hwalked.linked.1, rfl⟩
    · simp only [if_neg hzero]
      constructor
      · rintro ⟨record, rfl, hstored, hexp, hnum, hbound, hmarked, hrest⟩
        obtain ⟨front, hlen, hwalked, rfl, rfl, hbound', hnum'⟩ :=
          (ih (Nat.pos_of_ne_zero hzero)).mp hrest
        have hne : front ≠ [] := fun h => hzero (by rw [← hlen, h]; rfl)
        refine ⟨front ++ [record], by rw [length_append, hlen]; rfl, ?_, by simp, ?_, hbound', hnum'⟩
        · rw [walked_append hne, hlen]
          exact ⟨hwalked, rfl, hexp, hstored, hmarked⟩
        · rw [chainBytes_append, chainBytes_singleton]
          omega
      · rintro ⟨front, hlen, hwalked, rfl, rfl, hbound, hnum⟩
        have hfront : front ≠ [] := fun h => by rw [h] at hlen; cases hlen
        have hsplit := dropLast_append_getLast hfront
        obtain ⟨record, earlier, rfl⟩ : ∃ record earlier, front = earlier ++ [record] :=
          ⟨_, _, hsplit.symm⟩
        rw [length_append, length_singleton] at hlen
        have hearlier : earlier.length = expected := by omega
        have hne : earlier ≠ [] := fun h => hzero (by rw [← hearlier, h]; rfl)
        obtain ⟨hwalked', rfl, hexp, hstored, hmarked⟩ := (walked_append hne).mp hwalked
        rw [chainBytes_append, chainBytes_singleton] at hbound ⊢
        rw [hearlier] at hexp hmarked
        refine ⟨record, rfl, hstored, hexp, hnum, by omega, hmarked, ?_⟩
        refine (ih (Nat.pos_of_ne_zero hzero)).mpr ⟨earlier, hearlier, hwalked', by simp, ?_, ?_, hnum⟩
        · omega
        · omega

end WalkBack

namespace ClearPlatform

/-- A polynomial in the bytes, modulo a prime. -/
def mix (bytes : Bytes) : Nat :=
  bytes.foldl (fun sum byte => (sum * 257 + byte.toNat + 1) % (2 ^ 255 - 19)) 1

def digest (bytes : Bytes) : Digest := ⟨beBytes 32 (mix bytes), beBytes_length 32 _⟩

def wrap (wrapping key : FixedBytes 32) : FixedBytes 136 :=
  ⟨wrapping.1 ++ (key.1 ++ (zeroBytes 72).1), by simp [wrapping.2, key.2, (zeroBytes 72).2]⟩

def unwrap (wrapping : FixedBytes 32) (payload : FixedBytes 136) : Except FrameFailureCode (FixedBytes 32) :=
  if payload.1.take 32 = wrapping.1 then
    .ok ⟨(payload.1.drop 32).take 32, by rw [List.length_take, List.length_drop, payload.2]; rfl⟩
  else .error .authenticationFailed

def protect (key : FixedBytes 32) (plaintext : Bytes) : Bytes := key.1 ++ ((zeroBytes 36).1 ++ plaintext)

def openWith (key : FixedBytes 32) (frame : Bytes) : Except FrameFailureCode Bytes :=
  if frame.take 32 = key.1 then .ok (frame.drop frameOverheadBytes) else .error .openFailed

def sign (seed : FixedBytes 32) (message : Bytes) : FixedBytes 64 :=
  ⟨seed.1 ++ (digest message).1, by rw [List.length_append, seed.2, (digest message).2]⟩

def decodeGovernance (bytes : Bytes) : Option CatalogGovernanceObject := do
  return ⟨← fixed? 16 bytes 8, ← fixed? 32 bytes 24, ← fixed? 32 bytes 56⟩

theorem unwrap_wrap (wrapping key : FixedBytes 32) : unwrap wrapping (wrap wrapping key) = .ok key := by
  have htake : (wrap wrapping key).1.take 32 = wrapping.1 := List.take_left' wrapping.2
  have hdrop : (wrap wrapping key).1.drop 32 = key.1 ++ (zeroBytes 72).1 := List.drop_left' wrapping.2
  rw [unwrap, if_pos htake]
  refine congrArg Except.ok (Subtype.ext ?_)
  change ((wrap wrapping key).1.drop 32).take 32 = key.1
  rw [hdrop, List.take_left' key.2]

theorem openWith_protect (key : FixedBytes 32) (plaintext : Bytes) :
    openWith key (protect key plaintext) = .ok plaintext := by
  have htake : (protect key plaintext).take 32 = key.1 := List.take_left' key.2
  rw [openWith, if_pos htake]
  refine congrArg Except.ok ?_
  rw [protect, ← List.append_assoc]
  refine List.drop_left' ?_
  rw [List.length_append, key.2]
  rfl

def pattern (n : Nat) (byte : UInt8) : FixedBytes n := ⟨List.replicate n byte, List.length_replicate⟩

theorem pattern_ne_zero : (pattern 16 1).1.all (· == 0) = false := by decide

def identifier : Identifier := ⟨pattern 16 1, pattern_ne_zero⟩

theorem one_ne_zero_word : (Unsigned.wrap 64 1).1 ≠ 0 := by decide

def secret : CatalogSecret where
  markerKey := pattern 32 7
  wrapping := ⟨pattern 32 8, identifier, ⟨Unsigned.wrap 64 1, one_ne_zero_word⟩⟩
  predecessor := none

def entropy : Entropy := ⟨pattern 32 9, pattern 32 10⟩

end ClearPlatform

/-- Identities of contents are digests, and keys and plaintexts stand in the files as they are. -/
def clearPlatform : Platform where
  hash := ClearPlatform.digest
  authenticate := fun key message => ClearPlatform.digest (key.1 ++ message)
  wrapKeyPayload := fun wrapping key _ => ClearPlatform.wrap wrapping key
  unwrapKeyPayload := fun wrapping payload _ => ClearPlatform.unwrap wrapping payload
  protectFrame := fun key _ plaintext => ClearPlatform.protect key plaintext
  openFrame := fun key _ frame => ClearPlatform.openWith key frame
  publicKey := id
  sign := ClearPlatform.sign
  verify := fun key message signature => decide (signature = ClearPlatform.sign key message)
  decodeGovernance := ClearPlatform.decodeGovernance
  unwrap_wrap := fun wrapping key _ => ClearPlatform.unwrap_wrap wrapping key
  open_protect := fun key _ plaintext => ClearPlatform.openWith_protect key plaintext
  protectFrame_length := fun key _ plaintext => by
    simp only [ClearPlatform.protect, List.length_append, key.2, (zeroBytes 36).2, frameOverheadBytes]
    omega
  verify_sign := fun seed message => decide_eq_true rfl

structure RecoveryRun where
  scan : MarkerScan
  index : MarkerIndex
  chain : List CommitRecord
  latest : CommitRecord
  current : CatalogSnapshot
  anchor : Option AuditRetentionAnchor
  missing : Bool
  replay : Replay
  checkpoint : Option GovernanceAuditCheckpoint

namespace RecoveryRun

def state (run : RecoveryRun) : CatalogState :=
  ⟨run.current, run.replay.audit, run.checkpoint, run.replay.transactions, run.replay.retainedHistoryBytes⟩

def chargedBytes (run : RecoveryRun) : Nat :=
  run.scan.verified.size * markerBytes + chainBytes run.chain

variable (platform : Platform) (storage : CatalogStorage) (secret : CatalogSecret)
  (instanceId : InstanceId)

structure Succeeds (run : RecoveryRun) : Prop where
  scanned : storage.markers platform secret = .ok run.scan
  authentic : run.scan.authenticationFailures = 0
  found : run.scan.verified.isEmpty = false
  indexed : indexMarkers run.scan.verified = .ok run.index
  length : run.chain.length = run.index.highestNumber.1
  walked : Walked platform storage secret instanceId run.index.byNumber run.index.highestGeneration run.chain
  charged : run.chargedBytes ≤ maxRetainedHistoryBytes
  numbered : run.index.highestNumber.1 ≤ maxGenerations
  last : run.chain.getLast? = some run.latest
  loaded : loadSnapshot platform storage secret instanceId run.latest = .ok run.current
  anchored : auditRetentionAnchor platform instanceId run.current run.chain = .ok run.anchor
  prefixed : missingRetainedPrefix storage run.current run.chain run.anchor = .ok run.missing
  replayed : run.chain.foldlM (replayRecord platform storage secret instanceId run.missing run.anchor
    run.index.highestNumber.1) (.start run.chargedBytes) = .ok run.replay
  checkpointed : recoverCheckpoint platform storage secret instanceId run.anchor run.replay.audit =
    .ok run.checkpoint

end RecoveryRun

section Recovered

variable {platform : Platform} {storage : CatalogStorage} {secret : CatalogSecret}
  {instanceId : InstanceId} {chain : List CommitRecord} {run : RecoveryRun}

theorem walkBack_zero_ne_ok {byNumber : Std.ExtTreeMap Nat CatalogGenerationId compare}
    {highestNum expected retained : Nat} {generation : CatalogGenerationId} {result : List CommitRecord × Nat}
    (h : walkBack platform storage secret instanceId byNumber highestNum expected generation chain
      retained = .ok result) : 0 < expected := by
  cases expected with
  | zero => cases h
  | succ expected => exact Nat.succ_pos expected

theorem recover_ok_iff {state : CatalogState} : recover platform storage secret instanceId = .ok state ↔
      (∃ scan, storage.markers platform secret = .ok scan ∧ scan.authenticationFailures = 0 ∧
        scan.verified.isEmpty ∧ state = .origin) ∨
      ∃ run : RecoveryRun, run.Succeeds platform storage secret instanceId ∧ state = run.state := by
  unfold recover
  constructor
  · intro h
    obtain ⟨scan, hscan, hafter⟩ := bind_ok h
    obtain ⟨_, hauth, hafter⟩ := bind_ok hafter
    have hauth := demand_eq_ok_iff.mp hauth
    by_cases hempty : scan.verified.isEmpty
    · rw [if_pos hempty] at hafter
      cases hafter
      exact .inl ⟨scan, hscan, hauth, hempty, rfl⟩
    · rw [if_neg hempty] at hafter
      obtain ⟨index, hindex, hafter⟩ := bind_ok hafter
      obtain ⟨⟨chain, retained⟩, hwalk, hafter⟩ := bind_ok hafter
      obtain ⟨latest, hlatest, hafter⟩ := bind_ok hafter
      obtain ⟨current, hcur, hafter⟩ := bind_ok hafter
      obtain ⟨anchor, hanchor, hafter⟩ := bind_ok hafter
      obtain ⟨missing, hmissing, hafter⟩ := bind_ok hafter
      obtain ⟨replay, hreplay, hafter⟩ := bind_ok hafter
      obtain ⟨checkpoint, hckpt, hstate⟩ := bind_ok hafter
      obtain ⟨front, hlen, hwalked, hchain, hretained, hcharged, hnumbered⟩ :=
        (walkBack_ok_iff (walkBack_zero_ne_ok hwalk)).mp hwalk
      rw [List.append_nil] at hchain
      rw [← hchain] at hlen hwalked hretained
      rw [hretained] at hcharged hreplay
      refine .inr ⟨⟨scan, index, chain, latest, current, anchor, missing, replay, checkpoint⟩, ?_,
        (Except.ok.inj hstate).symm⟩
      exact ⟨hscan, hauth, Bool.eq_false_iff.mpr hempty, hindex, hlen, hwalked, hcharged,
        hnumbered, orFail_eq_ok_iff.mp hlatest, hcur, hanchor, hmissing, hreplay, hckpt⟩
  · rintro (⟨scan, hscan, hauth, hempty, rfl⟩ | ⟨run, h, rfl⟩)
    · rw [bind_eq_of_ok hscan, demand_bind hauth, if_pos hempty]
      rfl
    · have hpos : 0 < run.index.highestNumber.1 := by
        rw [← h.length]
        exact List.length_pos_of_ne_nil fun hnil => by
          have := h.last
          rw [hnil] at this
          cases this
      have hwalk : walkBack platform storage secret instanceId run.index.byNumber
          run.index.highestNumber.1 run.index.highestNumber.1 run.index.highestGeneration []
          (run.scan.verified.size * markerBytes) = .ok (run.chain, run.chargedBytes) :=
        (walkBack_ok_iff hpos).mpr ⟨run.chain, h.length, h.walked, (List.append_nil _).symm, rfl,
          h.charged, h.numbered⟩
      rw [bind_eq_of_ok h.scanned, demand_bind h.authentic, if_neg (by rw [h.found]; exact Bool.false_ne_true),
        bind_eq_of_ok h.indexed, bind_eq_of_ok hwalk]
      change (orFail _ _ >>= _) = _
      rw [bind_eq_of_ok (orFail_eq_ok_iff.mpr h.last), bind_eq_of_ok h.loaded, bind_eq_of_ok h.anchored,
        bind_eq_of_ok h.prefixed, bind_eq_of_ok h.replayed, bind_eq_of_ok h.checkpointed]
      rfl

/-- The chain of commits and audit records behind a state. The first audit record follows the origin,
or the frontier of the last commit at or before the anchor. -/
structure VerifiedChain (platform : Platform) (storage : CatalogStorage) (secret : CatalogSecret)
    (instanceId : InstanceId) (state : CatalogState) (chain : List CommitRecord) (start : AuditFrontier) :
    Prop where
  linked : Linked originGeneration 0 chain
  number : state.current.number.1 = chain.length
  identity : state.current.identity = lastGeneration originGeneration chain
  stored : ∀ record ∈ chain, StoredCommit platform storage secret instanceId record
  follows : Follows start state.audit
  frontier : state.current.auditFrontier = frontierAfter start state.audit
  started : start = .origin ∨ ∃ anchor, retentionAnchor state.current = .ok (some anchor) ∧
    start = lastFrontier (fun record => record.auditFrontier.position.1 ≤ anchor.position.1) chain
  outcomes : OutcomesOf state.transactions chain state.audit

theorem auditRetentionAnchor_some {current : CatalogSnapshot} {anchor : AuditRetentionAnchor}
    (h : auditRetentionAnchor platform instanceId current chain = .ok (some anchor)) :
    retentionAnchor current = .ok (some anchor) := by
  obtain ⟨found, hfound, hafter⟩ := bind_ok h
  cases found with
  | none => cases hafter
  | some candidate =>
    obtain ⟨_, _, hafter⟩ := bind_ok hafter
    obtain ⟨_, _, hafter⟩ := bind_ok hafter
    obtain ⟨_, _, hafter⟩ := bind_ok hafter
    cases hafter
    exact hfound

theorem loadSnapshot_ok {record : CommitRecord} {snapshot : CatalogSnapshot}
    (h : loadSnapshot platform storage secret instanceId record = .ok snapshot) :
    ∃ objects, snapshot = snapshotFromRecord record objects := by
  obtain ⟨objects, _, hafter⟩ := bind_ok h
  exact ⟨objects, (Except.ok.inj hafter).symm⟩

theorem lastFrontier_reclaimed (missing : Bool) (anchor : Option AuditRetentionAnchor)
    (chain : List CommitRecord) :
    lastFrontier (inReclaimedPart missing anchor) chain = .origin ∨
      ∃ anchor', anchor = some anchor' ∧ lastFrontier (inReclaimedPart missing anchor) chain =
        lastFrontier (fun record => record.auditFrontier.position.1 ≤ anchor'.position.1) chain := by
  have hnone : ∀ condition : CommitRecord → Bool, (∀ record, condition record = false) →
      lastFrontier condition chain = .origin := by
    intro condition hfalse
    have hfilter : chain.filter condition = [] :=
      List.filter_eq_nil_iff.mpr fun record _ => by rw [hfalse]; exact Bool.false_ne_true
    rw [lastFrontier, hfilter]
    rfl
  cases anchor with
  | none => exact .inl (hnone _ fun record => by simp [inReclaimedPart])
  | some anchor' =>
    cases missing with
    | false => exact .inl (hnone _ fun record => rfl)
    | true => exact .inr ⟨anchor', rfl, rfl⟩

theorem RecoveryRun.Succeeds.inv (h : run.Succeeds platform storage secret instanceId) :
    Replay.Inv run.missing run.anchor run.chain run.replay := by
  refine foldlM_invariant (Replay.Inv run.missing run.anchor) ?_ (.start _ _ _) h.replayed
  intro done record replay replay' hinv hstep
  obtain ⟨middle, visible, hreplayed, rfl⟩ := replayRecord_ok_iff.mp hstep
  exact hinv.step hreplayed

theorem RecoveryRun.Succeeds.predecessorAudit (h : run.Succeeds platform storage secret instanceId) :
    run.replay.predecessorAudit = run.latest.auditFrontier := by
  have hlast : ((run.chain.getLast?).map CommitRecord.auditFrontier).getD .origin =
      run.latest.auditFrontier := by
    rw [h.last]
    rfl
  have hstart : (Replay.start run.chargedBytes).predecessorAudit =
      ((([] : List CommitRecord).getLast?).map CommitRecord.auditFrontier).getD .origin := rfl
  rw [← hlast]
  refine foldlM_invariant (fun done replay => replay.predecessorAudit =
    ((done.getLast?).map CommitRecord.auditFrontier).getD .origin) ?_ hstart h.replayed
  intro done record replay replay' _ hstep
  obtain ⟨middle, visible, _, rfl⟩ := replayRecord_ok_iff.mp hstep
  rw [List.getLast?_append]
  rfl

/-- Whatever the files are, a state that is recovered from them stands on a verified chain. -/
theorem recovered_history_verified {state : CatalogState}
    (h : recover platform storage secret instanceId = .ok state) :
    ∃ chain start, VerifiedChain platform storage secret instanceId state chain start := by
  rcases recover_ok_iff.mp h with ⟨_, _, _, _, rfl⟩ | ⟨run, hrun, rfl⟩
  · exact ⟨[], .origin, trivial, rfl, rfl, fun _ hmem => absurd hmem List.not_mem_nil, trivial, rfl,
      .inl rfl, .empty⟩
  · have hinv := hrun.inv
    obtain ⟨objects, hcur⟩ := loadSnapshot_ok hrun.loaded
    have hlen : run.chain.length - 1 < run.chain.length := by
      have := hrun.last
      cases hchain : run.chain with
      | nil => rw [hchain] at this; cases this
      | cons _ _ => simp
    have hget : run.chain[run.chain.length - 1]? = some run.latest := by
      rw [← List.getLast?_eq_getElem?, hrun.last]
    refine ⟨run.chain, lastFrontier (inReclaimedPart run.missing run.anchor) run.chain, hinv.linked,
      ?_, ?_, hrun.walked.stored, hinv.follows, ?_, ?_, hinv.outcomes⟩
    · change run.current.number.1 = _
      rw [hcur]
      have := hinv.linked.number_eq hget
      change run.latest.number.1 = _
      omega
    · change run.current.identity = _
      rw [hcur, lastGeneration, hrun.last]
      rfl
    · change run.current.auditFrontier = frontierAfter _ run.replay.audit
      rw [← hinv.frontier, hrun.predecessorAudit, hcur]
      rfl
    · rcases lastFrontier_reclaimed run.missing run.anchor run.chain with horigin | ⟨anchor, hsome, heq⟩
      · exact .inl horigin
      · have hanchored := hrun.anchored
        rw [hsome] at hanchored
        exact .inr ⟨anchor, auditRetentionAnchor_some hanchored, heq⟩

end Recovered

section SecondGeneration
open ClearPlatform

/-- The files of another generation: its object, its audit record, its commit and its marker. -/
def withGeneration (storage : CatalogStorage) (number : Nat) (predecessor : CatalogGenerationId) (start : AuditFrontier)
    (transaction : TransactionId) (payload intent : Bytes) :
    Result (CatalogStorage × CatalogGenerationId × AuditFrontier) := do
  let instanceId : InstanceId := ⟨identifier⟩
  let (audit, encodedAudit) ← prepareAudit clearPlatform start transaction intent
  let identity := clearPlatform.hash payload
  let record : CommitRecord :=
    { generation := originGeneration
      number := Unsigned.wrap 64 number
      predecessor := predecessor
      instanceId := instanceId
      formatEpoch := .catalogV1
      transaction := transaction
      transactionDigest := transactionDigest clearPlatform .catalogV1 [identity] (some intent)
      objectSetDigest := objectSetDigest clearPlatform [identity]
      auditFrontier := audit.frontier
      objects := [identity] }
  let generation := clearPlatform.hash (encodeCommit record)
  let object ← protectArtifact clearPlatform secret instanceId .object identity .catalogV1 entropy payload
  let auditFrame ← protectArtifact clearPlatform secret instanceId .audit audit.hash .catalogV1 entropy
    encodedAudit
  let commitFrame ← protectArtifact clearPlatform secret instanceId .commit generation .catalogV1
    entropy (encodeCommit record)
  return ({ storage with
    objects := storage.objects.insert (objectName .catalogV1 identity) (.file object)
    audit := storage.audit.insert (auditName audit.position audit.hash) (.file auditFrame)
    commits := storage.commits.insert (commitName generation) (.file commitFrame)
    generations := storage.generations.insert (markerName record.number generation)
      (.file (encodeMarker clearPlatform secret record.number generation)) }, generation, audit.frontier)

theorem other_pattern_ne_zero : (pattern 16 2).1.all (· == 0) = false := by decide

def secondGeneration : Result CatalogStorage := do
  let (storage, generation, frontier) ← withGeneration .empty 1 originGeneration .origin ⟨identifier⟩ [5] [3]
  let (storage, _, _) ← withGeneration storage 2 generation frontier ⟨⟨pattern 16 2, other_pattern_ne_zero⟩⟩ [6] [4]
  return storage

theorem secondGeneration_verified : ∃ storage state, secondGeneration = .ok storage ∧
      recover clearPlatform storage secret ⟨identifier⟩ = .ok state ∧ state.audit.length = 2 ∧
      state.current.number.1 = 2 ∧ ∃ chain start,
        VerifiedChain clearPlatform storage secret ⟨identifier⟩ state chain start := by
  have hrun : ((secondGeneration >>= fun storage =>
      recover clearPlatform storage secret ⟨identifier⟩).toOption.map fun state =>
        (state.audit.length, state.current.number.1)) = some (2, 2) := by
    decide +kernel
  cases hstorage : secondGeneration with
  | error failure =>
    rw [hstorage] at hrun
    cases hrun
  | ok storage =>
    rw [hstorage] at hrun
    change ((recover clearPlatform storage secret ⟨identifier⟩).toOption.map fun state =>
      (state.audit.length, state.current.number.1)) = some (2, 2) at hrun
    cases hstate : recover clearPlatform storage secret ⟨identifier⟩ with
    | error failure =>
      rw [hstate] at hrun
      cases hrun
    | ok state =>
      rw [hstate] at hrun
      obtain ⟨haudit, hnumber⟩ := Prod.ext_iff.mp (Option.some.inj hrun)
      exact ⟨storage, state, rfl, hstate, haudit, hnumber, recovered_history_verified hstate⟩

end SecondGeneration

end Positron.Catalog
