import Positron.Clock.Anchor
import Positron.Ledger.Fields
import Positron.Lib.Runs

/-! One process under a steady clock: ledgers are opened, blocks are minted, retention passes run, and anchors
are published. Every wall reading is the establishment reading plus the elapsed time. The anchor starts on that line,
and only what an open recovers changes how far it is ahead of it: a durable instant can take it forward, and a
catalog anchor can take it anywhere. -/

namespace Positron.Clock
open MachineInt ByteCodec Ledger RetentionTimeAuthority

def steadyWall (epoch : UnixNanoseconds) (elapsed : U64) : ClockResult UnixNanoseconds :=
  match I64.ofInt? (epoch.1 + elapsed.1) with
  | some wall => .ok wall
  | none => .error .unavailable

inductive RetentionReadiness where
  | emptyUninitialized
  | trustedPersisted
  | unavailable
deriving DecidableEq

structure LedgerClock where
  retentionFrontier : Option IngestTime
  retentionReadiness : RetentionReadiness
  poisoned : Bool
deriving DecidableEq

/-- How a catalog publication ends: it is accepted, it is refused, or it is durable although the
caller was told of a failure. -/
inductive Publication where
  | committed
  | rejected
  | ambiguous
deriving DecidableEq

structure Instance where
  authority : RetentionTimeAuthority
  now : Nat
  objects : List Bytes
  ledgers : SegmentScope → Option LedgerClock

/-- An open takes the instants of the recovered blocks, unauthenticated ones as `none`. -/
inductive Operation where
  | openLedger (scope : SegmentScope) (blocks : List (Option IngestTime))
      (anchorAt scopeAt leaseAt : U64)
  | beginStoreBlock (scope : SegmentScope) (publication : Publication) (elapsed : U64)
  | retentionPass (scope : SegmentScope) (publication : Publication) (elapsed : U64)
  | leaseTime (scope : SegmentScope) (elapsed : U64)

abbrev Visits := List (U64 × RetentionTimeAuthority)

def isFrontierOf (replacing : Option SegmentScope) (bytes : Bytes) : LedgerResult Bool :=
  match replacing with
  | none => .ok false
  | some scope =>
    match RetentionFrontier.decode bytes with
    | .error failure => .error failure
    | .ok none => .ok false
    | .ok (some (candidate, _)) => .ok (decide (candidate = scope))

/-- The objects a publication carries over. The anchor is replaced; a malformed or a second one is
corruption, as `validate_catalog_anchor_singleton` has it. -/
def carriedOver (replacing : Option SegmentScope) : List Bytes → Bool → LedgerResult (List Bytes)
  | [], _ => .ok []
  | bytes :: objects, anchorSeen =>
    match isFrontierOf replacing bytes with
    | .error failure => .error failure
    | .ok true => carriedOver replacing objects anchorSeen
    | .ok false =>
      match decodeCatalogAnchor bytes with
      | .error _ => reject .integrityCorruption
      | .ok (some _) =>
        if anchorSeen then reject .integrityCorruption else carriedOver replacing objects true
      | .ok none =>
        match carriedOver replacing objects anchorSeen with
        | .error failure => .error failure
        | .ok kept => .ok (bytes :: kept)

def publishedObjects (replacing : Option SegmentScope) (objects : List Bytes)
    (scope : SegmentScope) (frontier : IngestTime) (anchor : Bytes) : LedgerResult (List Bytes) :=
  match carriedOver replacing objects false with
  | .error failure => .error failure
  | .ok kept => .ok (kept ++ [RetentionFrontier.encode scope frontier, anchor])

variable (s : Instance) (scope : SegmentScope)

namespace Instance

def start (epoch : UnixNanoseconds) (policy : LifecycleClockPolicy) (objects : List Bytes) : Instance where
  authority := establishWithSource epoch policy
  now := 0
  objects := objects
  ledgers := fun _ => none

def wall (elapsed : U64) : ClockResult UnixNanoseconds :=
  steadyWall s.authority.epoch elapsed

def setLedger (ledger : Option LedgerClock) : Instance :=
  { s with ledgers := Function.update s.ledgers scope ledger }

def readiness (frontier : Option IngestTime) (blocks : List (Option IngestTime)) :
    RetentionReadiness :=
  if frontier.isSome then .trustedPersisted
  else if blocks.isEmpty then .emptyUninitialized
  else .unavailable

def durableInstant (frontier : Option IngestTime) (blocks : List (Option IngestTime)) :
    Option IngestTime :=
  (blocks.filterMap id ++ frontier.toList).max?

def seconds? (t : IngestTime) : Option U64 := (I64.ofInt? (t.1.tdiv 1000000000)).bind I64.toU64?

/-- The clock calls of `open_at`: the catalog anchor, then the scope, then the lease time. -/
def performOpen (blocks : List (Option IngestTime)) (anchorAt scopeAt leaseAt : U64) : Visits × Instance :=
  let s := { s with now := leaseAt.1 }.setLedger scope none
  let recovered := s.authority.recoverCatalogAnchor s.objects (.ok anchorAt) (s.wall anchorAt)
  let s₁ := { s with authority := recovered.2 }
  match recovered.1, RetentionFrontier.recover s.objects scope with
  | .ok (), .ok frontier =>
    let ledger : LedgerClock := ⟨frontier, readiness frontier blocks, false⟩
    match durableInstant frontier blocks with
    | none => ([(anchorAt, s₁.authority)], s₁.setLedger scope ledger)
    | some durable =>
      let rebased := s₁.authority.recoverScope scope durable (.ok scopeAt) (s.wall scopeAt)
      let s₂ := { s₁ with authority := rebased.2 }
      match rebased.1 with
      | .error _ => ([(anchorAt, s₁.authority), (scopeAt, s₂.authority)], s₂)
      | .ok () =>
        let lease := s₂.authority.ingestTime scope (some durable) (.ok leaseAt) (s.wall leaseAt)
        let s₃ := { s₂ with authority := lease.2 }
        let opened := match lease.1 with
          | .ok t => if (seconds? t).isSome then s₃.setLedger scope ledger else s₃
          | .error _ => s₃
        ([(anchorAt, s₁.authority), (scopeAt, s₂.authority), (leaseAt, s₃.authority)], opened)
  | _, _ => ([(anchorAt, s₁.authority)], s₁)

/-- The end of a minting call that publishes its anchor. A candidate that is not committed is
dropped, and with it what it observed. -/
def settle (replacing : Option SegmentScope) (scope : SegmentScope)
    (ledger : LedgerClock) (t : IngestTime) (staged : StagedCatalogAnchor) (publication : Publication)
    (elapsed : U64) : Visits × Instance :=
  let dropped := s.authority.abandonCatalogAnchor staged
  let anchor := s.authority.catalogAnchorRecord t
  match publication, publishedObjects replacing s.objects scope t anchor with
  | .committed, .ok objects =>
    ([], { s with objects := objects }.setLedger scope
      (some { ledger with retentionFrontier := some t, retentionReadiness := .trustedPersisted }))
  | .ambiguous, .ok objects =>
    ([(elapsed, dropped)], { s with objects := objects, authority := dropped }.setLedger scope
      (some { ledger with poisoned := true }))
  | _, _ => ([(elapsed, dropped)], { s with authority := dropped })

/-- `begin_store_block`: only the first mint of an empty scope publishes its anchor. -/
def performMint (publication : Publication) (elapsed : U64) : Visits × Instance :=
  match s.ledgers scope with
  | none => ([], s)
  | some ledger =>
    if ledger.poisoned then ([], s)
    else
      let minted := s.authority.stageCatalogAnchor.ingestTime s.authority scope
        ledger.retentionFrontier (.ok elapsed) (s.wall elapsed)
      let s₁ := { s with authority := minted.2.2 }
      let dropped := s₁.authority.abandonCatalogAnchor minted.2.1
      match minted.1 with
      | .error _ =>
        ([(elapsed, s₁.authority), (elapsed, dropped)], { s₁ with authority := dropped })
      | .ok t =>
        if ledger.retentionReadiness = .emptyUninitialized then
          let settled := s₁.settle none scope ledger t minted.2.1 publication elapsed
          ((elapsed, s₁.authority) :: settled.1, settled.2)
        else
          ([(elapsed, s₁.authority), (elapsed, dropped)], { s₁ with authority := dropped })

/-- `begin_retention` and the commit of its evaluation. -/
def performRetention (publication : Publication) (elapsed : U64) : Visits × Instance :=
  match s.ledgers scope with
  | none => ([], s)
  | some ledger =>
    if ledger.poisoned ∨ ledger.retentionReadiness = .unavailable then ([], s)
    else
      let minted := s.authority.stageCatalogAnchor.destructiveIngestTime s.authority scope
        ledger.retentionFrontier (.ok elapsed) (s.wall elapsed)
      let s₁ := { s with authority := minted.2.2 }
      let dropped := s₁.authority.abandonCatalogAnchor minted.2.1
      match minted.1 with
      | .error _ =>
        ([(elapsed, s₁.authority), (elapsed, dropped)], { s₁ with authority := dropped })
      | .ok t =>
        let settled := s₁.settle (some scope) scope ledger t minted.2.1 publication elapsed
        ((elapsed, s₁.authority) :: settled.1, settled.2)

def performLeaseTime (elapsed : U64) : Visits × Instance :=
  let minted := s.authority.ingestTime scope none (.ok elapsed) (s.wall elapsed)
  ([(elapsed, minted.2)], { s with authority := minted.2 })

def perform : Operation → Visits × Instance
  | .openLedger scope blocks anchorAt scopeAt leaseAt =>
    s.performOpen scope blocks anchorAt scopeAt leaseAt
  | .beginStoreBlock scope publication elapsed =>
    { s with now := elapsed.1 }.performMint scope publication elapsed
  | .retentionPass scope publication elapsed =>
    { s with now := elapsed.1 }.performRetention scope publication elapsed
  | .leaseTime scope elapsed => { s with now := elapsed.1 }.performLeaseTime scope elapsed

/-- Elapsed time does not go back. -/
def admits : Operation → Bool
  | .openLedger _ _ anchorAt scopeAt leaseAt =>
    decide (s.now ≤ anchorAt.1 ∧ anchorAt.1 ≤ scopeAt.1 ∧ scopeAt.1 ≤ leaseAt.1)
  | .beginStoreBlock _ _ elapsed => decide (s.now ≤ elapsed.1)
  | .retentionPass _ _ elapsed => decide (s.now ≤ elapsed.1)
  | .leaseTime _ elapsed => decide (s.now ≤ elapsed.1)

def step (operation : Operation) : Option Instance :=
  if s.admits operation then some (s.perform operation).2 else none

end Instance

variable {a a' : RetentionTimeAuthority} {now now' : Nat} {elapsed : U64} {scope : SegmentScope} {objects : List Bytes}
  {x : UnixNanoseconds}

def safeAnchorAt (a : RetentionTimeAuthority) (elapsed : U64) : Int :=
  a.safety.anchor.1 + (elapsed.1 - a.safety.anchorElapsed.1)

/-- How far the anchor is ahead of the steady wall clock. -/
def lead (a : RetentionTimeAuthority) : Int := a.safety.anchor.1 - (a.epoch.1 + a.safety.anchorElapsed.1)

/-- The greatest offset at which the clock stays certain. -/
def reconciliationBound (a : RetentionTimeAuthority) : Int := a.policy.maximumReconciliationOffsetNanoseconds.1

theorem safeAnchorAt_eq (a : RetentionTimeAuthority) (elapsed : U64) :
    safeAnchorAt a elapsed = a.epoch.1 + elapsed.1 + lead a := by
  unfold safeAnchorAt lead
  omega

/-- A certain authority, not behind the steady wall clock and ahead of it by no more than the bound. -/
structure OnLine (a : RetentionTimeAuthority) (now : Nat) : Prop where
  source : a.source = true
  certain : a.safety.state = .certain
  correction : a.safety.wallClockCorrectionNanoseconds.1 = 0
  ahead : 0 ≤ lead a
  near : lead a ≤ reconciliationBound a
  elapsed : a.safety.anchorElapsed.1 ≤ now

/-- The anchor is at least as far ahead, of the same line. -/
structure Follows (a a' : RetentionTimeAuthority) : Prop where
  epoch : a'.epoch = a.epoch
  policy : a'.policy = a.policy
  lead : lead a ≤ lead a'

theorem Follows.refl (a : RetentionTimeAuthority) : Follows a a := ⟨rfl, rfl, le_refl _⟩

theorem Follows.trans {a b c : RetentionTimeAuthority} (h : Follows a b) (h' : Follows b c) : Follows a c :=
  ⟨h'.epoch.trans h.epoch, h'.policy.trans h.policy, h.lead.trans h'.lead⟩

theorem OnLine.later (h : OnLine a now) (hle : now ≤ now') : OnLine a now' :=
  { h with elapsed := h.elapsed.trans hle }

/-- Only the anchor and the parts around it matter. -/
theorem OnLine.of_safety (h : OnLine a now) (hepoch : a'.epoch = a.epoch) (hpolicy : a'.policy = a.policy)
    (hsource : a'.source = a.source) (hsafety : a'.safety = a.safety) : OnLine a' now ∧ lead a' = lead a := by
  have hlead : lead a' = lead a := by
    unfold lead
    rw [hepoch, hsafety]
  refine ⟨⟨hsource.trans h.source, ?_, ?_, ?_, ?_, ?_⟩, hlead⟩
  · rw [hsafety]
    exact h.certain
  · rw [hsafety]
    exact h.correction
  · rw [hlead]
    exact h.ahead
  · rw [hlead, reconciliationBound, hpolicy]
    exact h.near
  · rw [hsafety]
    exact h.elapsed

theorem advanceGlobal_lead {advanced : UnixNanoseconds} (hadv : advanceGlobal a.safety elapsed = .ok advanced) :
    advanced.1 = a.epoch.1 + elapsed.1 + lead a := by
  obtain ⟨hle, _, hval⟩ := advanceFrom_eq_ok_iff.mp hadv
  unfold lead
  omega

theorem steadyWall_ok {epoch wall : UnixNanoseconds} (h : steadyWall epoch elapsed = .ok wall) :
    wall.1 = epoch.1 + elapsed.1 := by
  unfold steadyWall at h
  split at h
  · rename_i found hfound
    cases h
    exact I64.ofInt?_eq_some_iff.mp hfound
  · cases h

theorem steadyWall_of_lt {epoch : UnixNanoseconds} (hlow : 0 ≤ epoch.1) (hhigh : epoch.1 + elapsed.1 < 2 ^ 63) :
    ∃ wall, steadyWall epoch elapsed = .ok wall ∧ wall.1 = epoch.1 + elapsed.1 := by
  have hread : I64.ofInt? (epoch.1 + elapsed.1) = some ⟨epoch.1 + elapsed.1, by omega⟩ :=
    I64.ofInt?_eq_some_iff.mpr rfl
  unfold steadyWall
  rw [hread]
  exact ⟨_, rfl, rfl⟩

section Comparing

variable {policy : LifecycleClockPolicy} {safety : LifecycleClockSafety} {wall : ClockResult UnixNanoseconds}

/-- An uncorrected reading within the bound, or no reading, leaves a certain state certain. -/
theorem observeWall_near (hcertain : safety.state = .certain)
    (hcorr : safety.wallClockCorrectionNanoseconds.1 = 0)
    (hnear : ∀ w, wall = .ok w → I64.absDiff w safety.anchor ≤ policy.maximumReconciliationOffsetNanoseconds.1) :
    (observeWall policy safety wall).2.state = .certain := by
  unfold observeWall
  split
  · exact hcertain
  · rename_i w
    split
    · exact hcertain
    · split
      · exact hcertain
      · rename_i adjusted hadjusted
        rw [I64.checkedAdd_eq_some_iff, hcorr, Int.add_zero] at hadjusted
        have hsame : adjusted = w := Subtype.ext hadjusted
        dsimp only
        rw [hsame, if_neg (not_lt.mpr (hnear w rfl))]

end Comparing

theorem OnLine.reconcile (h : OnLine a now) (hle : now ≤ elapsed.1)
    (hx : x.1 ≤ a.epoch.1 + elapsed.1 + reconciliationBound a) :
    OnLine (a.reconcileWhileAcceptanceHeld x elapsed (steadyWall a.epoch elapsed)).2 elapsed.1 ∧
      Follows a (a.reconcileWhileAcceptanceHeld x elapsed (steadyWall a.epoch elapsed)).2 ∧
      lead (a.reconcileWhileAcceptanceHeld x elapsed (steadyWall a.epoch elapsed)).2 ≤
        max (lead a) (x.1 - (a.epoch.1 + elapsed.1)) := by
  cases hadv : advanceGlobal a.safety elapsed with
  | error f =>
    rw [reconcile_stops hadv]
    exact ⟨h.later hle, .refl a, le_max_left _ _⟩
  | ok advanced =>
    have hval := advanceGlobal_lead hadv
    have hahead := h.ahead
    have hnear := h.near
    obtain ⟨safety, hsafety, hanchor, helapsed, _, hcorr⟩ := reconcile_moves hadv x (steadyWall a.epoch elapsed)
    have hmax : safety.anchor.1 = max advanced.1 x.1 := by rw [hanchor, I64.val_max]
    have hstate : safety.state = .certain := by
      have hmoved : (a.reconcileWhileAcceptanceHeld x elapsed
          (steadyWall a.epoch elapsed)).2.safety.state = .certain := by
        unfold reconcileWhileAcceptanceHeld
        rw [hadv]
        dsimp only
        split
        · exact h.certain
        · split
          · refine observeWall_near h.certain h.correction fun w hw => ?_
            have hwall := steadyWall_ok hw
            unfold I64.absDiff
            dsimp only
            rw [I64.val_max]
            unfold reconciliationBound at hx hnear
            omega
          · exact h.certain
      rw [hsafety] at hmoved
      exact hmoved
    have hlead : lead { a with safety := safety } = max (lead a) (x.1 - (a.epoch.1 + elapsed.1)) := by
      rw [lead, hmax, helapsed]
      dsimp only
      omega
    rw [hsafety]
    refine ⟨⟨h.source, hstate, ?_, ?_, ?_, le_of_eq (by rw [helapsed])⟩, ⟨rfl, rfl, ?_⟩, le_of_eq hlead⟩
    · rw [hcorr]
      exact h.correction
    · rw [hlead]
      exact le_max_of_le_left hahead
    · rw [hlead]
      change max (lead a) _ ≤ reconciliationBound a
      omega
    · rw [hlead]
      exact le_max_left _ _

/-- A reconciliation records an uncorrected wall reading in range that is not ahead of the instant. An instant beyond
the bound makes the clock uncertain. -/
theorem reconcile_observes {wall advanced : UnixNanoseconds} (hsource : a.source = true)
    (hcorr : a.safety.wallClockCorrectionNanoseconds.1 = 0) (hrevision : a.safety.revision.1 + 1 < 2 ^ 64)
    (hadv : advanceGlobal a.safety elapsed = .ok advanced) (hwall : 0 ≤ wall.1) (hle : wall.1 ≤ x.1) :
    ∃ safety, a.reconcileWhileAcceptanceHeld x elapsed (.ok wall) = (.ok (), { a with safety := safety }) ∧
      safety.revision.1 = a.safety.revision.1 + 1 ∧
      (wall.1 + reconciliationBound a < x.1 → safety.state = .clockUncertain) := by
  have hrev : a.safety.revision.checkedAdd ⟨1, one_lt_word⟩ = some ⟨a.safety.revision.1 + 1, hrevision⟩ :=
    Unsigned.checkedAdd_eq_some_iff.mpr rfl
  have hmax : x.1 ≤ (max advanced x).1 := by
    rw [I64.val_max]
    exact le_max_right _ _
  have hrange := (max advanced x).2
  have hoffset : I64.checkedSub wall (max advanced x) = some ⟨wall.1 - (max advanced x).1, by omega⟩ :=
    I64.checkedSub_eq_some_iff.mpr rfl
  have hadd : I64.checkedAdd wall a.safety.wallClockCorrectionNanoseconds = some wall := by
    rw [I64.checkedAdd_eq_some_iff, hcorr, Int.add_zero]
  unfold reconcileWhileAcceptanceHeld observeWall
  rw [hadv]
  simp only [hrev, hsource, if_true, hoffset, hadd]
  refine ⟨_, rfl, rfl, fun hfar => if_pos ?_⟩
  unfold I64.absDiff
  unfold reconciliationBound at hfar
  omega

theorem OnLine.ingestTime (h : OnLine a now) (hle : now ≤ elapsed.1) (scope : SegmentScope)
    (durable : Option IngestTime) :
    OnLine (a.ingestTime scope durable (.ok elapsed) (steadyWall a.epoch elapsed)).2 elapsed.1 ∧
      Follows a (a.ingestTime scope durable (.ok elapsed) (steadyWall a.epoch elapsed)).2 ∧
      lead (a.ingestTime scope durable (.ok elapsed) (steadyWall a.epoch elapsed)).2 = lead a := by
  have hcurrent : OnLine (a.reconcileCurrent elapsed (steadyWall a.epoch elapsed)).2 elapsed.1 ∧
      lead (a.reconcileCurrent elapsed (steadyWall a.epoch elapsed)).2 = lead a := by
    unfold reconcileCurrent expectedAnchor
    split
    · exact ⟨h.later hle, rfl⟩
    · rename_i expected hexpected
      have hval := advanceGlobal_lead hexpected
      have hnear := h.near
      obtain ⟨hline, hfollows, hlead⟩ := h.reconcile (x := expected) hle (by omega)
      refine ⟨hline, le_antisymm (hlead.trans ?_) hfollows.lead⟩
      omega
  obtain ⟨hline, hlead⟩ := hcurrent
  obtain ⟨safety, hsafety, -, ⟨f, hcall⟩ | hcall⟩ :=
    a.ingestTime_cases scope elapsed (steadyWall a.epoch elapsed) durable <;>
    rw [hcall] <;> rw [hsafety] at hline hlead
  · exact ⟨hline, ⟨rfl, rfl, le_of_eq hlead.symm⟩, hlead⟩
  · have hframe := ingestTimeBaseline_frame { a with safety := safety } scope durable elapsed
    obtain ⟨hkept, hsame⟩ := hline.of_safety hframe.epoch hframe.policy hframe.source
      (ingestTimeBaseline_safety { a with safety := safety } scope durable elapsed)
    exact ⟨hkept, ⟨hframe.epoch, hframe.policy, le_of_eq (hsame.trans hlead).symm⟩, hsame.trans hlead⟩

theorem recoverScope_safety (a : RetentionTimeAuthority) (scope : SegmentScope) (durable : IngestTime) (elapsed : U64)
    (wall : ClockResult UnixNanoseconds) :
    (a.recoverScope scope durable (.ok elapsed) wall).2.safety =
      (a.reconcileWhileAcceptanceHeld durable elapsed wall).2.safety := by
  obtain ⟨safety, hsafety, -, ⟨f, hcall⟩ | hcall⟩ := a.recoverScope_cases scope elapsed wall durable <;>
    rw [hcall] <;> rw [RetentionTimeAuthority.reconcile] at hsafety <;> rw [hsafety]
  exact recoverScopeBaseline_safety { a with safety := safety } scope durable elapsed

theorem OnLine.recoverScope (h : OnLine a now) (hle : now ≤ elapsed.1) (scope : SegmentScope)
    (hx : x.1 ≤ a.epoch.1 + elapsed.1 + reconciliationBound a) :
    OnLine (a.recoverScope scope x (.ok elapsed) (steadyWall a.epoch elapsed)).2 elapsed.1 ∧
      Follows a (a.recoverScope scope x (.ok elapsed) (steadyWall a.epoch elapsed)).2 := by
  obtain ⟨hline, hfollows, -⟩ := h.reconcile hle hx
  obtain ⟨safety, hsafety, -⟩ := reconcile_frame a x elapsed (steadyWall a.epoch elapsed)
  have hframe := a.recoverScope_frame scope (steadyWall a.epoch elapsed) x (.ok elapsed)
  have hsame := recoverScope_safety a scope x elapsed (steadyWall a.epoch elapsed)
  rw [hsafety] at hline hfollows hsame
  obtain ⟨hkept, hlead⟩ := hline.of_safety hframe.epoch hframe.policy hframe.source hsame
  exact ⟨hkept, ⟨hframe.epoch, hframe.policy, hfollows.lead.trans (le_of_eq hlead.symm)⟩⟩

/-- The authority with a record of the catalog installed. -/
def withRecord (a : RetentionTimeAuthority) (r : LifecycleClockSafety) (elapsed revision : U64) :
    RetentionTimeAuthority :=
  { a with
    safety :=
      { a.safety with
        anchor := r.anchor
        anchorElapsed := elapsed
        lastWallClock := r.lastWallClock
        observedOffsetNanoseconds := r.observedOffsetNanoseconds
        wallClockCorrectionNanoseconds := r.wallClockCorrectionNanoseconds
        state := r.state
        revision := revision } }

theorem advanceGlobal_withRecord (a : RetentionTimeAuthority) (r : LifecycleClockSafety) (elapsed revision : U64) :
    advanceGlobal (withRecord a r elapsed revision).safety elapsed = .ok r.anchor := by
  refine advanceFrom_eq_ok_iff.mpr ⟨Nat.le_refl _, ?_, ?_⟩
  · simp [withRecord]
  · simp [withRecord]

variable {r : LifecycleClockSafety} {wall : ClockResult UnixNanoseconds}

/-- A recovered record is installed, with the elapsed time of the recovery, and then compared with the wall clock. -/
theorem recoverCatalogAnchor_some (hfind : findCatalogAnchor objects none = .ok (some r)) :
    a.recoverCatalogAnchor objects (.ok elapsed) wall =
      match a.safety.revision.checkedAdd ⟨1, one_lt_word⟩ with
      | none => (.error .outOfRange, withRecord a r elapsed a.safety.revision)
      | some revision => (withRecord a r elapsed revision).reconcileWhileAcceptanceHeld r.anchor elapsed wall := by
  unfold recoverCatalogAnchor installAnchor
  rw [hfind]
  dsimp only
  cases a.safety.revision.checkedAdd ⟨1, one_lt_word⟩ with
  | none => rfl
  | some revision => rfl

theorem recoverCatalogAnchor_anchor (hfind : findCatalogAnchor objects none = .ok (some r))
    (a : RetentionTimeAuthority) (elapsed : U64) (wall : ClockResult UnixNanoseconds) :
    ∃ safety, (a.recoverCatalogAnchor objects (.ok elapsed) wall).2 = { a with safety := safety } ∧
      safety.anchor = r.anchor ∧ safety.anchorElapsed = elapsed := by
  rw [recoverCatalogAnchor_some hfind]
  split
  · exact ⟨_, rfl, rfl, rfl⟩
  · rename_i revision hrevision
    obtain ⟨safety, hsafety, hanchor, helapsed, -⟩ :=
      reconcile_moves (advanceGlobal_withRecord a r elapsed revision) r.anchor wall
    exact ⟨safety, hsafety, by rw [hanchor, max_self], helapsed⟩

theorem OnLine.recoverCatalogAnchor (h : OnLine a now) (objects : List Bytes) (hle : now ≤ elapsed.1)
    (hrecord : ∀ r, findCatalogAnchor objects none = .ok (some r) →
      (safeAnchorAt a elapsed ≤ r.anchor.1 ∧ r.anchor.1 ≤ a.epoch.1 + elapsed.1 + reconciliationBound a) ∧
        r.wallClockCorrectionNanoseconds.1 = 0 ∧ r.state = .certain) :
    OnLine (a.recoverCatalogAnchor objects (.ok elapsed) (steadyWall a.epoch elapsed)).2 elapsed.1 ∧
      Follows a (a.recoverCatalogAnchor objects (.ok elapsed) (steadyWall a.epoch elapsed)).2 := by
  cases hfind : findCatalogAnchor objects none with
  | error f =>
    unfold RetentionTimeAuthority.recoverCatalogAnchor
    rw [hfind]
    exact ⟨h.later hle, .refl a⟩
  | ok found =>
    cases found with
    | none =>
      unfold RetentionTimeAuthority.recoverCatalogAnchor
      rw [hfind]
      exact ⟨h.later hle, .refl a⟩
    | some r =>
      obtain ⟨⟨hlow, hhigh⟩, hcorr, hstate⟩ := hrecord r hfind
      have hahead := h.ahead
      rw [safeAnchorAt_eq] at hlow
      have hinstalled : ∀ revision, OnLine (withRecord a r elapsed revision) elapsed.1 ∧
          Follows a (withRecord a r elapsed revision) := by
        intro revision
        have hlead : lead (withRecord a r elapsed revision) = r.anchor.1 - (a.epoch.1 + elapsed.1) := rfl
        refine ⟨⟨h.source, hstate, hcorr, ?_, ?_, le_refl _⟩, ⟨rfl, rfl, ?_⟩⟩
        · omega
        · change _ ≤ reconciliationBound a
          omega
        · omega
      rw [recoverCatalogAnchor_some hfind]
      split
      · exact hinstalled _
      · rename_i revision hrevision
        obtain ⟨hline, hfollows⟩ := hinstalled revision
        obtain ⟨hkept, hlater, -⟩ := hline.reconcile (le_refl _) hhigh
        exact ⟨hkept, hfollows.trans hlater⟩

/-- Dropping a candidate that has only minted puts the anchor back where it was. -/
theorem OnLine.abandon (h : OnLine a now) (h' : OnLine a' now') (hle : now ≤ now') (hfollows : Follows a a')
    (hlead : lead a' = lead a) {staged : StagedCatalogAnchor} (hckpt : staged.checkpoint = a.safety)
    (hcand : staged.candidateRevision = none ∨ staged.candidateRevision = some a'.safety.revision) :
    OnLine (a'.abandonCatalogAnchor staged) now' ∧ Follows a' (a'.abandonCatalogAnchor staged) := by
  unfold abandonCatalogAnchor
  rcases hcand with hnone | hsome
  · rw [hnone]
    exact ⟨h', .refl a'⟩
  · rw [hsome]
    dsimp only
    rw [if_pos rfl, if_neg (by rw [h'.certain]; decide), hckpt]
    have hback : lead { a' with safety := a.safety } = lead a := by
      unfold lead
      rw [hfollows.epoch]
    refine ⟨⟨h'.source, h.certain, h.correction, ?_, ?_, h.elapsed.trans hle⟩, ⟨rfl, rfl, ?_⟩⟩
    · rw [hback]
      exact h.ahead
    · rw [hback, reconciliationBound, hfollows.policy]
      exact h.near
    · rw [hback, hlead]

theorem staged_candidate (a a' : RetentionTimeAuthority) :
    (a.stageCatalogAnchor.observed a a').checkpoint = a.safety ∧
      ((a.stageCatalogAnchor.observed a a').candidateRevision = none ∨
        (a.stageCatalogAnchor.observed a a').candidateRevision = some a'.safety.revision) := by
  refine ⟨rfl, ?_⟩
  unfold StagedCatalogAnchor.observed
  split
  · exact .inr rfl
  · exact .inl rfl

end Positron.Clock
