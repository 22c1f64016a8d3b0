import Positron.Clock.Anchor

/-! Ingest time over whole runs. The instants of one scope never go back. A baseline is written by the elapsed
readings and the durable inputs, so two runs of one schedule under different wall clocks agree on a scope as
long as the same calls that write its baseline succeed in both. -/

namespace Positron.Clock
open MachineInt Process SegmentScope

def Call.request : Call → Option (SegmentScope × ScopeRequest)
  | .ingestTime scope durable => some (scope, .ingest durable)
  | .recoverScope scope durable => some (scope, .recover durable)
  | .stagedIngestTime _ scope durable => some (scope, .ingest durable)
  | .stagedDestructiveIngestTime _ scope durable => some (scope, .ingest durable)
  | _ => none

def Touched (epoch : UnixNanoseconds) (elapsed : ClockResult U64) (request : ScopeRequest)
    (b : Option ScopeBaseline) (result : ClockResult (Option IngestTime))
    (b' : Option ScopeBaseline) : Prop :=
  match elapsed with
  | .ok e => Touch epoch e request b result b'
  | .error f => result = .error f ∧ b' = b

inductive Stepped (c : Process) (call : Call) (elapsed : ClockResult U64) : Outcome → Process → Prop
  | silent (c' : Process) (h : ∀ s, c'.baseline s = c.baseline s) : Stepped c call elapsed none c'
  | request (c' : Process) (scope : SegmentScope) (asked : ScopeRequest)
      (result : ClockResult (Option IngestTime)) (hrequest : call.request = some (scope, asked))
      (htouch : Touched c.authority.epoch elapsed asked (c.baseline scope) result (c'.baseline scope))
      (hothers : ∀ s, s ≠ scope → c'.baseline s = c.baseline s) :
      Stepped c call elapsed (some (scope, result)) c'

section Steps

variable {c c' : Process} {call : Call} {elapsed : ClockResult U64} {wall : ClockResult UnixNanoseconds}
  {scope : SegmentScope}

theorem Stepped.of_ingest {durable : Option IngestTime} (hcall : call.request = some (scope, .ingest durable))
    (h : c'.authority = (c.authority.ingestTime scope durable elapsed wall).2) :
    Stepped c call elapsed (some (scope, (c.authority.ingestTime scope durable elapsed wall).1.map some)) c' ∧
      c'.authority.epoch = c.authority.epoch := by
  have hframe := c.authority.ingestTime_frame scope wall durable elapsed
  rw [← h] at hframe
  refine ⟨.request _ _ _ _ hcall ?_ hframe.others, hframe.epoch⟩
  simp only [baseline, h]
  cases elapsed with
  | ok e => exact c.authority.ingestTime_touch scope e wall durable
  | error f => exact ⟨rfl, rfl⟩

theorem Stepped.of_recover {durable : IngestTime} (hcall : call.request = some (scope, .recover durable))
    (h : c'.authority = (c.authority.recoverScope scope durable elapsed wall).2) :
    Stepped c call elapsed
      (some (scope, (c.authority.recoverScope scope durable elapsed wall).1.map fun _ => none)) c' ∧
      c'.authority.epoch = c.authority.epoch := by
  have hframe := c.authority.recoverScope_frame scope wall durable elapsed
  rw [← h] at hframe
  refine ⟨.request _ _ _ _ hcall ?_ hframe.others, hframe.epoch⟩
  simp only [baseline, h]
  cases elapsed with
  | ok e => exact c.authority.recoverScope_touch scope e wall durable
  | error f => exact ⟨rfl, rfl⟩

theorem Stepped.of_safety (h : ∃ safety, c'.authority = { c.authority with safety := safety }) :
    Stepped c call elapsed none c' ∧ c'.authority.epoch = c.authority.epoch := by
  obtain ⟨safety, h⟩ := h
  refine ⟨.silent _ fun s => ?_, by rw [h]⟩
  simp only [baseline, h]

end Steps

/-- What a step does to the baselines; the epoch stays. -/
theorem step_stepped (c : Process) (call : Call) (elapsed : ClockResult U64) (wall : ClockResult UnixNanoseconds) :
    Stepped c call elapsed (c.step call elapsed wall).1 (c.step call elapsed wall).2 ∧
      (c.step call elapsed wall).2.authority.epoch = c.authority.epoch := by
  cases call with
  | ingestTime scope durable => exact Stepped.of_ingest rfl rfl
  | recoverScope scope durable => exact Stepped.of_recover rfl rfl
  | recoverCatalogAnchor objects =>
    exact Stepped.of_safety (c.authority.recoverCatalogAnchor_frame wall objects elapsed)
  | stageCatalogAnchor candidate => exact Stepped.of_safety ⟨_, rfl⟩
  | stagedIngestTime candidate scope durable =>
    simp only [step]
    split
    · exact Stepped.of_safety ⟨_, rfl⟩
    · exact Stepped.of_ingest rfl rfl
  | stagedDestructiveIngestTime candidate scope durable =>
    simp only [step]
    split
    · exact Stepped.of_safety ⟨_, rfl⟩
    · exact Stepped.of_ingest rfl (c.authority.destructiveIngestTime_snd scope wall durable elapsed)
  | commit candidate => exact Stepped.of_safety ⟨_, rfl⟩
  | abandon candidate =>
    simp only [step]
    split
    · exact Stepped.of_safety ⟨_, rfl⟩
    · rename_i staged hstaged
      exact Stepped.of_safety (c.authority.abandonCatalogAnchor_frame staged)

def ScopeBaseline.level (b : ScopeBaseline) (elapsed : Nat) : Int :=
  b.instant.1 + (elapsed - b.elapsedAtStart.1)

variable {elapsed : U64} {b : ScopeBaseline} {epoch : UnixNanoseconds} {b' : Option ScopeBaseline} {floor : Nat}
  {c c' : Process} {call : Call} {o : Outcome}

theorem advance_level {t : UnixNanoseconds} (h : advance b elapsed = .ok t) : t.1 = b.level elapsed.1 := by
  obtain ⟨hle, _, ht⟩ := advanceFrom_eq_ok_iff.mp h
  unfold ScopeBaseline.level
  omega

theorem Touch.level_le {request : ScopeRequest} {result : ClockResult (Option IngestTime)}
    (h : Touch epoch elapsed request (some b) result b')
    (hstart : b.elapsedAtStart.1 ≤ floor) (hfloor : floor ≤ elapsed.1) :
    ∃ c, b' = some c ∧ c.elapsedAtStart.1 ≤ elapsed.1 ∧ b.level floor ≤ c.level elapsed.1 := by
  cases h with
  | refused | minted durable =>
    refine ⟨b, rfl, by omega, ?_⟩
    unfold ScopeBaseline.level
    omega
  | rebased durable _ current hadv =>
    refine ⟨_, rfl, Nat.le_refl _, ?_⟩
    have hcur := advance_level hadv
    have hmax : current.1 ≤ (max current durable).1 := Subtype.coe_le_coe.mpr (le_max_left _ _)
    unfold ScopeBaseline.level at hcur ⊢
    dsimp only
    omega

theorem Touch.started {request : ScopeRequest} {result : ClockResult (Option IngestTime)} {c : ScopeBaseline}
    (h : Touch epoch elapsed request none result (some c)) : c.elapsedAtStart.1 = 0 := by
  cases h with
  | opened => rfl
  | installed => rfl

theorem Touch.issued {request : ScopeRequest} {b b' : Option ScopeBaseline} {t : IngestTime}
    (h : Touch epoch elapsed request b (.ok (some t)) b') : ∃ c, b' = some c ∧ advance c elapsed = .ok t := by
  generalize hresult : Except.ok (some t) = result at h
  cases h with
  | refused => cases hresult
  | minted durable b =>
    refine ⟨b, rfl, ?_⟩
    cases hadv : advance b elapsed with
    | error f =>
      rw [hadv] at hresult
      cases hresult
    | ok t' =>
      rw [hadv] at hresult
      cases hresult
      rfl
  | opened durable =>
    refine ⟨_, rfl, ?_⟩
    cases hadv : advance ⟨durable.getD epoch, Unsigned.zero 64⟩ elapsed with
    | error f =>
      rw [hadv] at hresult
      cases hresult
    | ok t' =>
      rw [hadv] at hresult
      cases hresult
      rfl
  | rebased => cases hresult
  | installed => cases hresult

/-- Every baseline started by `floor`, and no issued instant is ahead of its scope. -/
structure Reached (c : Process) (floor : Nat) (issued : SegmentScope → IngestTime → Prop) :
    Prop where
  started : ∀ s b, c.baseline s = some b → b.elapsedAtStart.1 ≤ floor
  reached : ∀ s t, issued s t → ∃ b, c.baseline s = some b ∧ t.1 ≤ b.level floor

def issuedAfter (issued : SegmentScope → IngestTime → Prop) (o : Outcome) :
    SegmentScope → IngestTime → Prop :=
  fun s t => issued s t ∨ o = some (s, .ok (some t))

variable {issued : SegmentScope → IngestTime → Prop} {request : ScopeRequest}

theorem Reached.later {floor elapsed : Nat}
    (h : Reached c floor issued) (hle : floor ≤ elapsed) (hsame : ∀ s, c'.baseline s = c.baseline s) :
    Reached c' elapsed issued := by
  constructor
  · intro s b hb
    rw [hsame] at hb
    have := h.started s b hb
    omega
  · intro s t ht
    obtain ⟨b, hb, hlevel⟩ := h.reached s t ht
    refine ⟨b, by rw [hsame, hb], ?_⟩
    unfold ScopeBaseline.level at hlevel ⊢
    omega

theorem Reached.unissued (h : Reached c floor issued) (ho : ∀ s t, o ≠ some (s, .ok (some t))) :
    Reached c floor (issuedAfter issued o) :=
  ⟨h.started, fun s t ht => h.reached s t (ht.resolve_right (ho s t))⟩

theorem Reached.step (hstep : Stepped c call (.ok elapsed) o c')
    (h : Reached c floor issued) (hle : floor ≤ elapsed.1) : Reached c' elapsed.1 (issuedAfter issued o) := by
  cases hstep with
  | silent _ hsame => exact (h.later hle hsame).unissued fun s t ht => by cases ht
  | request _ scope asked result hrequest htouch hothers =>
    constructor
    · intro s b hb
      by_cases hs : s = scope
      · subst hs
        cases hold : c.baseline s with
        | none =>
          rw [hold, hb] at htouch
          rw [htouch.started]
          exact Nat.zero_le _
        | some old =>
          rw [hold] at htouch
          obtain ⟨b', hb', hstart, _⟩ := htouch.level_le (h.started s old hold) hle
          rw [hb] at hb'
          cases hb'
          exact hstart
      · rw [hothers s hs] at hb
        have := h.started s b hb
        omega
    · rintro s t (ht | ht)
      · obtain ⟨old, hold, hlevel⟩ := h.reached s t ht
        by_cases hs : s = scope
        · subst hs
          rw [hold] at htouch
          obtain ⟨b', hb', _, hmono⟩ := htouch.level_le (h.started s old hold) hle
          exact ⟨b', hb', hlevel.trans hmono⟩
        · refine ⟨old, by rw [hothers s hs, hold], ?_⟩
          unfold ScopeBaseline.level at hlevel ⊢
          omega
      · cases ht
        obtain ⟨b, hb, hadv⟩ := htouch.issued
        exact ⟨b, hb, le_of_eq (advance_level hadv)⟩

theorem Reached.unread {f : LifecycleClockFailure} (hstep : Stepped c call (.error f) o c')
    (h : Reached c floor issued) : Reached c' floor (issuedAfter issued o) := by
  cases hstep with
  | silent _ hsame => exact (h.later (Nat.le_refl _) hsame).unissued fun s t ht => by cases ht
  | request _ scope asked result hrequest htouch hothers =>
    obtain ⟨rfl, hsame⟩ := htouch
    have hall : ∀ s, c'.baseline s = c.baseline s := by
      intro s
      by_cases hs : s = scope
      · rw [hs, hsame]
      · exact hothers s hs
    exact (h.later (Nat.le_refl _) hall).unissued fun s t ht => by cases ht

def InOrder (o o' : Outcome) : Prop :=
  ∀ scope t t', o = some (scope, .ok (some t)) → o' = some (scope, .ok (some t')) → t ≤ t'

theorem issued_le_of_reached {c : Process} {scope : SegmentScope} {t t' : IngestTime}
    (h : Reached c floor issued) (hle : floor ≤ elapsed.1)
    (htouch : Touch epoch elapsed request (c.baseline scope) (.ok (some t')) b') (ht : issued scope t) :
    t ≤ t' := by
  obtain ⟨old, hold, hlevel⟩ := h.reached scope t ht
  obtain ⟨new, hnew, hadv⟩ := htouch.issued
  rw [hold] at htouch
  obtain ⟨b, hb, _, hmono⟩ := htouch.level_le (h.started scope old hold) hle
  rw [hb] at hnew
  cases hnew
  have hreturned := advance_level hadv
  have hval : t.1 ≤ t'.1 := by omega
  exact hval

theorem outcomes_in_order (schedule : List (Call × ClockResult U64)) (c : Process) (floor : Nat)
    (issued : SegmentScope → IngestTime → Prop) (walls : Nat → ClockResult UnixNanoseconds)
    (h : Reached c floor issued) (helapsed : ElapsedFrom floor schedule) :
    (∀ o ∈ c.outcomes schedule walls, ∀ scope t t', issued scope t → o = some (scope, .ok (some t')) → t ≤ t') ∧
    (c.outcomes schedule walls).Pairwise InOrder := by
  induction schedule generalizing c floor issued walls with
  | nil => exact ⟨fun _ ho => (List.not_mem_nil ho).elim, List.Pairwise.nil⟩
  | cons entry schedule ih =>
    obtain ⟨call, elapsed⟩ := entry
    have hstep := (step_stepped c call elapsed (walls 0)).1
    cases elapsed with
    | error f =>
      obtain ⟨hlater, hpair⟩ := ih _ floor _ (fun i => walls (i + 1)) (h.unread hstep) helapsed
      refine ⟨?_, List.Pairwise.cons ?_ hpair⟩
      · intro o ho scope t t' ht hot
        rcases List.mem_cons.mp ho with rfl | ho
        · rw [hot] at hstep
          cases hstep with
          | request _ _ _ _ _ htouch _ => cases htouch.1
        · exact hlater o ho scope t t' (.inl ht) hot
      · intro o' ho' scope t t' ht ht'
        exact hlater o' ho' scope t t' (.inr ht) ht'
    | ok elapsed =>
      obtain ⟨hle, hrest⟩ := helapsed
      obtain ⟨hlater, hpair⟩ := ih _ elapsed.1 _ (fun i => walls (i + 1)) (h.step hstep hle) hrest
      refine ⟨?_, List.Pairwise.cons ?_ hpair⟩
      · intro o ho scope t t' ht hot
        rcases List.mem_cons.mp ho with rfl | ho
        · rw [hot] at hstep
          cases hstep with
          | request _ _ _ _ _ htouch _ => exact issued_le_of_reached h hle htouch ht
        · exact hlater o ho scope t t' (.inl ht) hot
      · intro o' ho' scope t t' ht ht'
        exact hlater o' ho' scope t t' (.inr ht) ht'

variable {c c' : Process} {floor : Nat} {epoch : UnixNanoseconds} {elapsed : U64} {request : ScopeRequest}

def Succeeds (result : ClockResult (Option IngestTime)) : Prop := ∃ t, result = .ok t

theorem not_succeeds_error (f : LifecycleClockFailure) : ¬ Succeeds (.error f) := by
  rintro ⟨t, ht⟩
  cases ht

/-- The candidates that are open depend on the calls alone. -/
def SameCandidates (c c' : Process) : Prop :=
  ∀ k, (c.staged.lookup k).isSome = (c'.staged.lookup k).isSome

theorem isSome_lookup_insert (h : SameCandidates c c') (k n : Nat) (s s' : StagedCatalogAnchor) :
    ((c.staged.insert n s).lookup k).isSome = ((c'.staged.insert n s').lookup k).isSome := by
  by_cases hk : k = n
  · subst hk
    rw [AList.lookup_insert, AList.lookup_insert]
    rfl
  · rw [AList.lookup_insert_ne hk, AList.lookup_insert_ne hk]
    exact h k

theorem isSome_lookup_erase (h : SameCandidates c c') (k n : Nat) :
    ((c.staged.erase n).lookup k).isSome = ((c'.staged.erase n).lookup k).isSome := by
  by_cases hk : k = n
  · subst hk
    rw [AList.lookup_erase, AList.lookup_erase]
  · rw [AList.lookup_erase_ne hk, AList.lookup_erase_ne hk]
    exact h k

theorem sameCandidates_step (h : SameCandidates c c') (call : Call) (elapsed : ClockResult U64)
    (wall wall' : ClockResult UnixNanoseconds) :
    ((c.step call elapsed wall).1.isSome = (c'.step call elapsed wall').1.isSome) ∧
      SameCandidates (c.step call elapsed wall).2 (c'.step call elapsed wall').2 := by
  cases call with
  | ingestTime | recoverScope | recoverCatalogAnchor => exact ⟨rfl, h⟩
  | stageCatalogAnchor n => exact ⟨rfl, fun k => isSome_lookup_insert h k n _ _⟩
  | commit n => exact ⟨rfl, fun k => isSome_lookup_erase h k n⟩
  | stagedIngestTime n scope durable | stagedDestructiveIngestTime n scope durable =>
    have hn := h n
    simp only [step]
    cases hc : c.staged.lookup n <;> cases hc' : c'.staged.lookup n <;> rw [hc, hc'] at hn
    · exact ⟨rfl, h⟩
    · cases hn
    · cases hn
    · exact ⟨rfl, fun k => isSome_lookup_insert h k n _ _⟩
  | abandon n =>
    have hn := h n
    simp only [step]
    cases hc : c.staged.lookup n <;> cases hc' : c'.staged.lookup n <;> rw [hc, hc'] at hn
    · exact ⟨rfl, h⟩
    · cases hn
    · cases hn
    · exact ⟨rfl, fun k => isSome_lookup_erase h k n⟩

/-- A baseline that no later elapsed reading can advance: its scope mints nothing any more. -/
def Dead (floor : Nat) (b : Option ScopeBaseline) : Prop :=
  ∃ x, b = some x ∧ ∀ e : U64, floor ≤ e.1 → ∃ f, advance x e = .error f

variable {b b' : Option ScopeBaseline} {r r' : ClockResult (Option IngestTime)} {scope : SegmentScope}

theorem Dead.touch (hdead : Dead floor b) {result : ClockResult (Option IngestTime)}
    (h : Touch epoch elapsed request b result b') (hle : floor ≤ elapsed.1) : ¬ Succeeds result ∧ b' = b := by
  obtain ⟨x, rfl, hx⟩ := hdead
  obtain ⟨f, hf⟩ := hx elapsed hle
  cases h with
  | refused _ _ f => exact ⟨not_succeeds_error f, rfl⟩
  | minted durable =>
    rw [hf]
    exact ⟨not_succeeds_error f, rfl⟩
  | rebased durable _ current hadv =>
    rw [hf] at hadv
    cases hadv

theorem Dead.later {floor elapsed : Nat} {b : Option ScopeBaseline} (h : Dead floor b)
    (hle : floor ≤ elapsed) : Dead elapsed b := by
  obtain ⟨x, hx, hdead⟩ := h
  exact ⟨x, hx, fun e he => hdead e (hle.trans he)⟩

theorem dead_of_fresh {instant : UnixNanoseconds} {f : LifecycleClockFailure}
    (h : advance ⟨instant, Unsigned.zero 64⟩ elapsed = .error f) : Dead elapsed.1 (some ⟨instant, Unsigned.zero 64⟩) :=
  ⟨_, rfl, fun _ he => advance_error_mono h (Nat.zero_le _) he⟩

/-- Two runs see one scope alike, or the scope mints nothing in one of them. -/
def Alike (floor : Nat) (b b' : Option ScopeBaseline) : Prop :=
  b = b' ∨ Dead floor b ∨ Dead floor b'

theorem succeeds_map_iff {r : ClockResult IngestTime} : Succeeds (r.map some) ↔ ∃ t, r = .ok t := by
  cases r with
  | error f =>
    constructor
    · intro h
      exact absurd h (not_succeeds_error f)
    · rintro ⟨t, ht⟩
      cases ht
  | ok t => exact ⟨fun _ => ⟨t, rfl⟩, fun _ => ⟨some t, rfl⟩⟩

theorem map_some_inj {r : ClockResult IngestTime} {t : IngestTime}
    (h : r.map some = .ok (some t)) : r = .ok t := by
  cases r with
  | error f => cases h
  | ok t' =>
    cases h
    rfl

/-- A success may write the baseline: a recovery, or a mint that finds none. -/
def ScopeRequest.Writes : ScopeRequest → Option ScopeBaseline → Prop
  | .recover _, _ => True
  | .ingest _, b => b = none

/-- The same request on the same baseline: if it writes nothing, or succeeds in both runs or in neither, it leaves
the baselines alike, and two minted instants are equal. -/
theorem Touch.alike {b c c' : Option ScopeBaseline} (h : Touch epoch elapsed request b r c)
    (h' : Touch epoch elapsed request b r' c') (hagree : request.Writes b → (Succeeds r ↔ Succeeds r')) :
    Alike elapsed.1 c c' ∧ ∀ t t', r = .ok (some t) → r' = .ok (some t') → t = t' := by
  cases h with
  | refused _ _ f =>
    have hfails : request.Writes b → ¬ Succeeds r' := fun hw hr => not_succeeds_error f ((hagree hw).mpr hr)
    refine ⟨?_, fun t t' ht => by cases ht⟩
    cases h' with
    | refused => exact .inl rfl
    | minted => exact .inl rfl
    | opened durable =>
      cases hadv : advance ⟨durable.getD epoch, Unsigned.zero 64⟩ elapsed with
      | error f' => exact .inr (.inr (dead_of_fresh hadv))
      | ok t => exact absurd (succeeds_map_iff.mpr ⟨t, hadv⟩) (hfails rfl)
    | rebased => exact absurd ⟨none, rfl⟩ (hfails trivial)
    | installed => exact absurd ⟨none, rfl⟩ (hfails trivial)
  | minted durable x =>
    cases h' with
    | refused => exact ⟨Or.inl rfl, fun t t' _ ht' => by cases ht'⟩
    | minted =>
      refine ⟨Or.inl rfl, fun t t' ht ht' => ?_⟩
      have heq := (map_some_inj ht).symm.trans (map_some_inj ht')
      cases heq
      rfl
  | opened durable =>
    cases h' with
    | refused _ _ f =>
      refine ⟨?_, fun t t' _ ht' => by cases ht'⟩
      cases hadv : advance ⟨durable.getD epoch, Unsigned.zero 64⟩ elapsed with
      | error f' => exact .inr (.inl (dead_of_fresh hadv))
      | ok t =>
        exact absurd ((hagree rfl).mp (succeeds_map_iff.mpr ⟨t, hadv⟩)) (not_succeeds_error f)
    | opened =>
      refine ⟨Or.inl rfl, fun t t' ht ht' => ?_⟩
      have heq := (map_some_inj ht).symm.trans (map_some_inj ht')
      cases heq
      rfl
  | rebased durable x current hadv =>
    refine ⟨?_, fun t t' ht => by cases ht⟩
    cases h' with
    | refused _ _ f => exact absurd ((hagree trivial).mp ⟨none, rfl⟩) (not_succeeds_error f)
    | rebased _ _ current' hadv' =>
      rw [hadv] at hadv'
      cases hadv'
      exact .inl rfl
  | installed durable =>
    refine ⟨?_, fun t t' ht => by cases ht⟩
    cases h' with
    | refused _ _ f => exact absurd ((hagree trivial).mp ⟨none, rfl⟩) (not_succeeds_error f)
    | installed => exact .inl rfl

theorem Alike.later {floor elapsed : Nat} (h : Alike floor b b')
    (hle : floor ≤ elapsed) : Alike elapsed b b' := by
  rcases h with h | h | h
  · exact .inl h
  · exact .inr (.inl (h.later hle))
  · exact .inr (.inr (h.later hle))

def AgreeOn (scope : SegmentScope) (o o' : Outcome) : Prop :=
  ∀ r r', o = some (scope, r) → o' = some (scope, r') → (Succeeds r ↔ Succeeds r')

def SameInstant (scope : SegmentScope) (o o' : Outcome) : Prop :=
  ∀ t t', o = some (scope, .ok (some t)) → o' = some (scope, .ok (some t')) → t = t'

theorem Alike.touch {b b' c c' : Option ScopeBaseline} (h : Alike floor b b')
    (htouch : Touch epoch elapsed request b r c) (htouch' : Touch epoch elapsed request b' r' c')
    (hle : floor ≤ elapsed.1) (hagree : request.Writes b → request.Writes b' → (Succeeds r ↔ Succeeds r')) :
    Alike elapsed.1 c c' ∧ ∀ t t', r = .ok (some t) → r' = .ok (some t') → t = t' := by
  rcases h with rfl | h | h
  · exact htouch.alike htouch' fun hw => hagree hw hw
  · obtain ⟨hfails, rfl⟩ := h.touch htouch hle
    exact ⟨Or.inr (.inl (h.later hle)), fun t _ ht _ => absurd ⟨some t, ht⟩ hfails⟩
  · obtain ⟨hfails, rfl⟩ := h.touch htouch' hle
    exact ⟨Or.inr (.inr (h.later hle)), fun _ t' _ ht' => absurd ⟨some t', ht'⟩ hfails⟩

/-- What relates the two runs before every call, seen from one scope. -/
structure Paired (scope : SegmentScope) (floor : Nat) (c c' : Process) : Prop where
  epoch : c.authority.epoch = c'.authority.epoch
  candidates : SameCandidates c c'
  alike : Alike floor (c.baseline scope) (c'.baseline scope)

/-- The call may write the baseline of the scope in both runs. -/
def Writes (scope : SegmentScope) (call : Call) (c c' : Process) : Prop :=
  ∃ request, call.request = some (scope, request) ∧ request.Writes (c.baseline scope) ∧
    request.Writes (c'.baseline scope)

def floorAfter (floor : Nat) : ClockResult U64 → Nat
  | .ok elapsed => elapsed.1
  | .error _ => floor

theorem Paired.step (h : Paired scope floor c c') (call : Call) {elapsed : ClockResult U64}
    (hle : floor ≤ floorAfter floor elapsed) (wall wall' : ClockResult UnixNanoseconds)
    (hagree : Writes scope call c c' → AgreeOn scope (c.step call elapsed wall).1 (c'.step call elapsed wall').1) :
    Paired scope (floorAfter floor elapsed) (c.step call elapsed wall).2 (c'.step call elapsed wall').2 ∧
      SameInstant scope (c.step call elapsed wall).1 (c'.step call elapsed wall').1 := by
  obtain ⟨hsome, hcands⟩ := sameCandidates_step h.candidates call elapsed wall wall'
  obtain ⟨hstep, hkept⟩ := step_stepped c call elapsed wall
  obtain ⟨hstep', hkept'⟩ := step_stepped c' call elapsed wall'
  have hepoch := (hkept.trans h.epoch).trans hkept'.symm
  clear hkept hkept'
  revert hsome hcands hepoch hagree hstep hstep'
  generalize c.step call elapsed wall = s
  generalize c'.step call elapsed wall' = s'
  obtain ⟨o, d⟩ := s
  obtain ⟨o', d'⟩ := s'
  intro hagree hsome hcands hstep hstep' hepoch
  cases hstep with
  | silent _ hsame =>
    cases hstep' with
    | silent _ hsame' =>
      refine ⟨⟨hepoch, hcands, ?_⟩, fun t _ ht => by cases ht⟩
      rw [hsame, hsame']
      exact h.alike.later hle
    | request => cases hsome
  | request _ s asked r hreq htouch hothers =>
    cases hstep' with
    | silent => cases hsome
    | request _ s' asked' r' hreq' htouch' hothers' =>
      rw [hreq] at hreq'
      cases hreq'
      by_cases hs : s = scope
      · subst hs
        cases elapsed with
        | error f =>
          obtain ⟨rfl, hb⟩ := htouch
          obtain ⟨rfl, hb'⟩ := htouch'
          refine ⟨⟨hepoch, hcands, ?_⟩, fun t _ ht => by cases ht⟩
          rw [hb, hb']
          exact h.alike
        | ok e =>
          rw [← h.epoch] at htouch'
          obtain ⟨halike, hsame⟩ := h.alike.touch htouch htouch' hle fun hw hw' =>
            hagree ⟨asked, hreq, hw, hw'⟩ r r' rfl rfl
          refine ⟨⟨hepoch, hcands, halike⟩, ?_⟩
          intro t t' ht ht'
          cases ht
          cases ht'
          exact hsame t t' rfl rfl
      · refine ⟨⟨hepoch, hcands, ?_⟩, ?_⟩
        · rw [hothers scope (Ne.symm hs), hothers' scope (Ne.symm hs)]
          exact h.alike.later hle
        · intro t t' ht
          cases ht
          exact absurd rfl hs

/-- Wherever a call may write the baseline of the scope, it succeeds in both runs or in neither. -/
def WritesAgree (scope : SegmentScope) (c c' : Process) (schedule : List (Call × ClockResult U64))
    (walls walls' : Nat → ClockResult UnixNanoseconds) (j : Nat) : Prop :=
  ∀ entry p p', schedule[j]? = some entry → (c.outcomes schedule walls)[j]? = some p →
    (c'.outcomes schedule walls')[j]? = some p' →
    Writes scope entry.1 (c.before schedule walls j) (c'.before schedule walls' j) → AgreeOn scope p p'

theorem outcomes_sameInstant (schedule : List (Call × ClockResult U64))
    (h : Paired scope floor c c') (helapsed : ElapsedFrom floor schedule)
    (walls walls' : Nat → ClockResult UnixNanoseconds) (i : Nat) {o o' : Outcome}
    (ho : (c.outcomes schedule walls)[i]? = some o) (ho' : (c'.outcomes schedule walls')[i]? = some o')
    (hagree : ∀ j ≤ i, WritesAgree scope c c' schedule walls walls' j) : SameInstant scope o o' := by
  induction schedule generalizing floor c c' walls walls' i with
  | nil => cases ho
  | cons entry schedule ih =>
    obtain ⟨call, elapsed⟩ := entry
    have hle : floor ≤ floorAfter floor elapsed ∧ ElapsedFrom (floorAfter floor elapsed) schedule := by
      cases elapsed with
      | ok e => exact helapsed
      | error f => exact ⟨Nat.le_refl _, helapsed⟩
    have hfirst := hagree 0 (Nat.zero_le _) _ _ _ rfl rfl rfl
    obtain ⟨hpaired, hsame⟩ := h.step call hle.1 (walls 0) (walls' 0) hfirst
    cases i with
    | zero =>
      cases ho
      cases ho'
      exact hsame
    | succ i =>
      refine ih hpaired hle.2 (fun i => walls (i + 1)) (fun i => walls' (i + 1)) i ho ho' ?_
      intro j hj entry p p' hentry hp hp'
      exact hagree (j + 1) (by omega) entry p p' hentry hp hp'

/-- Ingest time is monotone for every scope, and two runs that differ in their wall readings mint the same instants on a
scope as long as the earlier recoveries of it, and the earlier mints that find no baseline in either run, have succeeded
in both or in neither. -/
theorem ingest_time_monotone_and_wall_independent (epoch : UnixNanoseconds) (policy : LifecycleClockPolicy)
    (schedule : List (Call × ClockResult U64)) (helapsed : ElapsedFrom 0 schedule)
    (walls walls' : Nat → ClockResult UnixNanoseconds) :
    ((establish epoch policy).outcomes schedule walls).Pairwise InOrder ∧
    ∀ (scope : SegmentScope) (i : Nat) (t t' : IngestTime),
      ((establish epoch policy).outcomes schedule walls)[i]? = some (some (scope, .ok (some t))) →
      ((establish epoch policy).outcomes schedule walls')[i]? = some (some (scope, .ok (some t'))) →
      (∀ j < i, WritesAgree scope (establish epoch policy) (establish epoch policy) schedule walls walls' j) →
      t = t' := by
  have hreached : Reached (establish epoch policy) 0 fun _ _ => False := by
    constructor
    · intro s b hb
      cases hb
    · intro s t ht
      exact ht.elim
  refine ⟨(outcomes_in_order schedule _ 0 _ walls hreached helapsed).2, ?_⟩
  intro scope i t t' ht ht' hagree
  have hpaired : Paired scope 0 (establish epoch policy) (establish epoch policy) :=
    ⟨rfl, fun _ => rfl, Or.inl rfl⟩
  refine outcomes_sameInstant schedule hpaired helapsed walls walls' i ht ht' ?_ t t' rfl rfl
  intro j hj
  rcases Nat.lt_or_eq_of_le hj with hj | rfl
  · exact hagree j hj
  · intro entry p p' hentry hp hp' hwrites r r' hr hr'
    rw [ht] at hp
    rw [ht'] at hp'
    cases hp
    cases hp'
    cases hr
    cases hr'
    exact ⟨fun _ => ⟨_, rfl⟩, fun _ => ⟨_, rfl⟩⟩

/-- Mints around a recovery. -/
def sampleSchedule : List (Call × ClockResult U64) :=
  [(.ingestTime sample none, .ok (Unsigned.wrap 64 5)),
    (.recoverScope sample (I64.ofBits 1500), .ok (Unsigned.wrap 64 7)),
    (.ingestTime sample none, .ok (Unsigned.wrap 64 9)),
    (.ingestTime sample none, .ok (Unsigned.wrap 64 10))]

def steadyWalls (_ : Nat) : ClockResult UnixNanoseconds := .ok (I64.ofBits 1000)

/-- A wall clock that is far ahead, and cannot be read in the third call. -/
def jumpingWalls (i : Nat) : ClockResult UnixNanoseconds :=
  if i = 2 then .error .unavailable else .ok (I64.ofBits 9000000000000)

/-- The third call fails in one run only. It finds a baseline, so the fourth returns the same instant in both. -/
theorem sampleSchedule_mints_alike :
    ((establish (I64.ofBits 1000) .default).outcomes sampleSchedule steadyWalls).Pairwise InOrder ∧
    ((establish (I64.ofBits 1000) .default).outcomes sampleSchedule jumpingWalls)[2]? =
      some (some (sample, .error .unavailable)) ∧
    ∃ t, ((establish (I64.ofBits 1000) .default).outcomes sampleSchedule steadyWalls)[3]? =
        some (some (sample, .ok (some t))) ∧
      ((establish (I64.ofBits 1000) .default).outcomes sampleSchedule jumpingWalls)[3]? =
        some (some (sample, .ok (some t))) := by
  obtain ⟨horder, hsame⟩ := ingest_time_monotone_and_wall_independent (I64.ofBits 1000) .default sampleSchedule
    (by decide) steadyWalls jumpingWalls
  refine ⟨horder, rfl, _, rfl, ?_⟩
  rw [hsame sample 3 _ _ rfl rfl ?_]
  · rfl
  · intro j hj entry p p' hentry hp hp' hwrites
    have hcases : j = 0 ∨ j = 1 ∨ j = 2 := by omega
    rcases hcases with rfl | rfl | rfl
    · cases hp
      cases hp'
      intro r r' hr hr'
      cases hr
      cases hr'
      exact ⟨fun _ => ⟨_, rfl⟩, fun _ => ⟨_, rfl⟩⟩
    · cases hp
      cases hp'
      intro r r' hr hr'
      cases hr
      cases hr'
      exact ⟨fun _ => ⟨_, rfl⟩, fun _ => ⟨_, rfl⟩⟩
    · cases hentry
      obtain ⟨request, hrequest, hwrites, -⟩ := hwrites
      cases hrequest
      cases hwrites

/-- A recovery that the wall clock aborts in one run only leaves different baselines behind. -/
def abortedRecovery : List (Call × ClockResult U64) :=
  [(.recoverScope sample (I64.ofBits 5000), .ok (Unsigned.wrap 64 3)),
    (.ingestTime sample none, .ok (Unsigned.wrap 64 10))]

theorem wall_abort_changes_ingest_time : ¬ ∀ (epoch : UnixNanoseconds) (policy : LifecycleClockPolicy)
      (schedule : List (Call × ClockResult U64)) (walls walls' : Nat → ClockResult UnixNanoseconds),
      ElapsedFrom 0 schedule → ((establish epoch policy).outcomes schedule walls).Pairwise InOrder ∧
      ∀ (scope : SegmentScope) (i : Nat) (t t' : IngestTime),
        ((establish epoch policy).outcomes schedule walls)[i]? = some (some (scope, .ok (some t))) →
        ((establish epoch policy).outcomes schedule walls')[i]? = some (some (scope, .ok (some t'))) →
        t = t' := by
  intro h
  have hrun := h (I64.ofBits 1000) .default abortedRecovery
    (fun i => if i = 0 then .error .unavailable else .ok (I64.ofBits 1000))
    (fun _ => .ok (I64.ofBits 1000)) (by decide)
  have hsame := hrun.2 sample 1 (I64.ofBits 1010) (I64.ofBits 5010) rfl rfl
  exact absurd hsame (by decide)

end Positron.Clock
