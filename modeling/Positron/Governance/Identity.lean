import Positron.Domain

/-! The identity that a catalog generation pins, and the attribution of a presented credential: it
comes from the stored credentials alone, whatever the hints of the request say. -/

namespace Positron.Governance
open MachineInt ByteCodec List

structure PrincipalId where
  id : Identifier
deriving DecidableEq

inductive Scope where
  | ingest
  | query
  | tenantAdministration
  | systemAdministration
deriving DecidableEq

def Scope.isTenantScoped : Scope → Bool
  | .systemAdministration => false
  | _ => true

inductive RequestedIntent where
  | ingest
  | query
  | tenantAdministration
  | systemAdministration
deriving DecidableEq

def RequestedIntent.scope : RequestedIntent → Scope
  | .ingest => .ingest
  | .query => .query
  | .tenantAdministration => .tenantAdministration
  | .systemAdministration => .systemAdministration

inductive TenantLifecycleState where
  | active
  | readOnly
  | suspended
  | purging
  | purged
deriving DecidableEq

def isQueryReadable : TenantLifecycleState → Bool
  | .active | .readOnly => true
  | _ => false

structure ExternalTenantAlias where
  text : String
deriving DecidableEq

structure CredentialIdentity where
  principal : PrincipalId
  scope : Scope
  active : Bool
  expiresAtUnixSeconds : Option U64
  salt : FixedBytes 32
  hash : FixedBytes 32
deriving DecidableEq

structure AdditionalTenantIdentity where
  tenant : TenantId
  lifecycle : TenantLifecycleState
  externalAlias : Option ExternalTenantAlias
  credentials : List CredentialIdentity
deriving DecidableEq

/-- The ingest or the query credential of an identity from before there were lists. -/
structure SingleIdentity where
  principal : PrincipalId
  salt : FixedBytes 32
  hash : FixedBytes 32
deriving DecidableEq

structure Identity where
  authority : FixedBytes 16
  generation : U64
  principal : PrincipalId
  tenant : TenantId
  externalAlias : Option ExternalTenantAlias
  salt : FixedBytes 32
  hash : FixedBytes 32
  ingest : Option SingleIdentity
  query : Option SingleIdentity
  credentials : List CredentialIdentity
  lifecycle : TenantLifecycleState
  additionalTenants : List AdditionalTenantIdentity
deriving DecidableEq

structure CompatibilityHints where
  externalAlias : Option ExternalTenantAlias
  proxyActor : Option (FixedBytes 32)

def CompatibilityHints.none : CompatibilityHints := ⟨.none, .none⟩

/-- Only tenant scopes are attributed to a tenant. -/
structure TenantAttribution where
  principal : PrincipalId
  scope : Scope
  tenant : TenantId
  tenantScoped : scope.isTenantScoped

structure AuthorizedContext where
  principal : PrincipalId
  scope : Scope
  tenant : Option TenantAttribution
  authority : FixedBytes 16
  generation : U64
  lifecycle : TenantLifecycleState
  proxyActor : Option (FixedBytes 32)

section Attribution

variable {σ : Type} (verify : FixedBytes 32 → FixedBytes 32 → FixedBytes 32 → Bool) (expiryTime : StateT σ Option U64)

/-- Every failure of an attribution looks the same. -/
def refuse {α : Type} : StateT σ Option α := fun _ => none

def credentialIsUnexpired (candidate : CredentialIdentity) : StateT σ Option Bool :=
  match candidate.expiresAtUnixSeconds with
  | none => pure true
  | some expiry => do
    let now ← expiryTime
    return decide (now < expiry)

def aliasMatches (bound presented : Option ExternalTenantAlias) : Bool :=
  match presented with
  | none => true
  | some presented => decide (bound = some presented)

def selects (secret : FixedBytes 32) (scope : Scope) (candidate : CredentialIdentity) : StateT σ Option Bool :=
  if verify candidate.salt secret candidate.hash && candidate.active && decide (candidate.scope = scope) then
    credentialIsUnexpired expiryTime candidate
  else pure false

abbrev Selected := PrincipalId × TenantId × TenantLifecycleState

variable (identity : Identity)

/-- The credentials of the default tenant: the last one selected. -/
def selectDefault (secret : FixedBytes 32) (scope : Scope) (selected : Option Selected)
    (candidate : CredentialIdentity) : StateT σ Option (Option Selected) := do
  if ← selects verify expiryTime secret scope candidate then
    return some (candidate.principal, identity.tenant, identity.lifecycle)
  else return selected

/-- The credentials of another tenant: a second one selected is ambiguous. -/
def selectAdditional (secret : FixedBytes 32) (scope : Scope) (tenant : AdditionalTenantIdentity)
    (selected : Option Selected) (candidate : CredentialIdentity) : StateT σ Option (Option Selected) := do
  if ← selects verify expiryTime secret scope candidate then
    if selected.isSome then refuse else return some (candidate.principal, tenant.tenant, tenant.lifecycle)
  else return selected

def selectCredential (secret : FixedBytes 32) (scope : Scope) : StateT σ Option (Option Selected) := do
  let selected ← identity.credentials.foldlM (selectDefault verify expiryTime identity secret scope) none
  identity.additionalTenants.foldlM
    (fun selected tenant => tenant.credentials.foldlM (selectAdditional verify expiryTime secret scope tenant) selected)
    selected

/-- The alias of a tenant: the first entry of another tenant decides. -/
def boundAlias (tenant : TenantId) : Option ExternalTenantAlias :=
  if tenant = identity.tenant then identity.externalAlias
  else (identity.additionalTenants.find? fun entry => decide (entry.tenant = tenant)).bind (·.externalAlias)

def Identity.contextOf (scope : Scope) (principal : PrincipalId) (tenant : TenantId)
    (lifecycle : TenantLifecycleState) (hints : CompatibilityHints) : AuthorizedContext where
  principal := principal
  scope := scope
  tenant := if h : scope.isTenantScoped then some ⟨principal, scope, tenant, h⟩ else none
  authority := identity.authority
  generation := identity.generation
  lifecycle := lifecycle
  proxyActor := hints.proxyActor

def lifecycleAllows (scope : Scope) (lifecycle : TenantLifecycleState) : Bool :=
  match scope with
  | .ingest => decide (lifecycle = .active)
  | .query => isQueryReadable lifecycle
  | _ => true

def attributeListed (secret : FixedBytes 32) (scope : Scope) (hints : CompatibilityHints) :
    StateT σ Option AuthorizedContext := do
  match ← selectCredential verify expiryTime identity secret scope with
  | none => refuse
  | some (principal, tenant, lifecycle) =>
    if aliasMatches (boundAlias identity tenant) hints.externalAlias && lifecycleAllows scope lifecycle then
      return identity.contextOf scope principal tenant lifecycle hints
    else refuse

def attributeSingle (secret : FixedBytes 32) (scope : Scope) (hints : CompatibilityHints) :
    StateT σ Option AuthorizedContext :=
  let single : Option SingleIdentity := match scope with
    | .ingest => identity.ingest
    | .query => identity.query
    | .tenantAdministration => none
    | .systemAdministration => some ⟨identity.principal, identity.salt, identity.hash⟩
  match single with
  | none => refuse
  | some single =>
    if (!scope.isTenantScoped || aliasMatches identity.externalAlias hints.externalAlias) &&
        lifecycleAllows scope identity.lifecycle && verify single.salt secret single.hash then
      pure (identity.contextOf scope single.principal identity.tenant identity.lifecycle hints)
    else refuse

/-- `attribute_with_expiry_time`. Claims of authority are never part of hints outside fuzzing. -/
def attributeWithExpiryTime (secret : FixedBytes 32) (intent : RequestedIntent)
    (hints : CompatibilityHints) : StateT σ Option AuthorizedContext :=
  if intent = .systemAdministration ∧ hints.externalAlias.isSome then refuse
  else if identity.credentials ≠ [] then attributeListed verify expiryTime identity secret intent.scope hints
  else attributeSingle verify identity secret intent.scope hints

end Attribution

section Selection

variable {σ : Type} {verify : FixedBytes 32 → FixedBytes 32 → FixedBytes 32 → Bool} {expiryTime : StateT σ Option U64}
  {identity other : Identity} {secret : FixedBytes 32} {scope : Scope} {candidate : CredentialIdentity}
  {clock clock' : σ} {α β : Type} {tenant : TenantId}

theorem bind_eq_some {m : StateT σ Option α} {f : α → StateT σ Option β} {b : β}
    (h : (m >>= f) clock = some (b, clock')) :
    ∃ a middle, m clock = some (a, middle) ∧ f a middle = some (b, clock') := by
  obtain ⟨⟨a, middle⟩, hm, hf⟩ := Option.bind_eq_some_iff.mp h
  exact ⟨a, middle, hm, hf⟩

theorem foldlM_keeps {f : β → α → StateT σ Option β} {xs : List α} (Inv : β → σ → Prop)
    (hstep : ∀ b, ∀ x ∈ xs, ∀ clock b' clock', Inv b clock → f b x clock = some (b', clock') → Inv b' clock')
    {b b' : β} (hb : Inv b clock) (h : xs.foldlM f b clock = some (b', clock')) : Inv b' clock' := by
  induction xs generalizing b clock with
  | nil =>
    cases h
    exact hb
  | cons x xs ih =>
    obtain ⟨c, middle, hx, hxs⟩ := bind_eq_some h
    have hc := hstep b x mem_cons_self _ _ _ hb hx
    exact ih (fun b y hy => hstep b y (mem_cons_of_mem _ hy)) hc hxs

theorem foldlM_filter_of_idle {f : β → α → StateT σ Option β} {p : α → Bool} {xs : List α}
    (hidle : ∀ x ∈ xs, p x = false → ∀ b, f b x = pure b) (b : β) :
    xs.foldlM f b = (xs.filter p).foldlM f b := by
  induction xs generalizing b with
  | nil => rfl
  | cons x xs ih =>
    have hrest := ih fun y hy => hidle y (mem_cons_of_mem _ hy)
    cases hx : p x with
    | true =>
      rw [filter_cons_of_pos hx, foldlM_cons]
      exact congrArg _ (funext hrest)
    | false =>
      rw [filter_cons_of_neg (by rw [hx]; exact Bool.false_ne_true), foldlM_cons,
        hidle x mem_cons_self hx, pure_bind, hrest]

theorem foldlM_of_idle {f : β → α → StateT σ Option β} {xs : List α}
    (hidle : ∀ x ∈ xs, ∀ b, f b x = pure b) (b : β) : xs.foldlM f b = pure b := by
  rw [foldlM_filter_of_idle (p := fun _ => false) (fun x hx _ => hidle x hx), filter_eq_nil_iff.mpr (by simp)]
  rfl

/-- The clock states that readings of the clock lead to from a first one. -/
def ReadsOn (expiryTime : StateT σ Option U64) : σ → σ → Prop :=
  Relation.ReflTransGen fun clock clock' => ∃ now, expiryTime clock = some (now, clock')

/-- One of the readings between two states of the clock was before the expiry. -/
def Unexpired (expiryTime : StateT σ Option U64) (first last : σ) (candidate : CredentialIdentity) : Prop :=
  ∀ expiry ∈ candidate.expiresAtUnixSeconds, ∃ before now after, ReadsOn expiryTime first before ∧
    expiryTime before = some (now, after) ∧ now < expiry ∧ ReadsOn expiryTime after last

/-- A credential of the requested scope that the secret verifies against, unexpired at a reading of the call. -/
structure Valid (verify : FixedBytes 32 → FixedBytes 32 → FixedBytes 32 → Bool) (expiryTime : StateT σ Option U64)
    (first last : σ) (secret : FixedBytes 32) (scope : Scope) (candidate : CredentialIdentity) : Prop where
  verified : verify candidate.salt secret candidate.hash
  active : candidate.active
  scope : candidate.scope = scope
  unexpired : Unexpired expiryTime first last candidate

variable {first : σ}

theorem Valid.later (h : Valid verify expiryTime first clock secret scope candidate)
    (hreads : ReadsOn expiryTime clock clock') : Valid verify expiryTime first clock' secret scope candidate := by
  refine ⟨h.verified, h.active, h.scope, fun expiry hexpiry => ?_⟩
  obtain ⟨before, now, after, hbefore, hnow, hlt, hafter⟩ := h.unexpired expiry hexpiry
  exact ⟨before, now, after, hbefore, hnow, hlt, hafter.trans hreads⟩

/-- A comparison reads the clock at most once. -/
theorem selects_reads {chosen : Bool}
    (h : selects verify expiryTime secret scope candidate clock = some (chosen, clock')) :
    ReadsOn expiryTime clock clock' := by
  unfold selects at h
  split at h
  · unfold credentialIsUnexpired at h
    cases hexpiry : candidate.expiresAtUnixSeconds with
    | none =>
      rw [hexpiry] at h
      cases h
      exact .refl
    | some expiry =>
      rw [hexpiry] at h
      obtain ⟨now, middle, hnow, hresult⟩ := bind_eq_some h
      cases hresult
      exact .single ⟨now, hnow⟩
  · cases h
    exact .refl

theorem selects_valid (hfirst : ReadsOn expiryTime first clock)
    (h : selects verify expiryTime secret scope candidate clock = some (true, clock')) :
    Valid verify expiryTime first clock' secret scope candidate := by
  unfold selects at h
  split at h
  · rename_i hmatches
    simp only [Bool.and_eq_true, decide_eq_true_eq] at hmatches
    obtain ⟨⟨hverified, hactive⟩, hscope⟩ := hmatches
    refine ⟨hverified, hactive, hscope, ?_⟩
    intro expiry hexpiry
    rw [credentialIsUnexpired, Option.mem_def.mp hexpiry] at h
    obtain ⟨now, middle, hnow, hunexpired⟩ := bind_eq_some h
    cases hdecide : decide (now < expiry) with
    | true =>
      rw [hdecide] at hunexpired
      cases hunexpired
      exact ⟨clock, now, clock', hfirst, hnow, of_decide_eq_true hdecide, .refl⟩
    | false =>
      rw [hdecide] at hunexpired
      cases hunexpired
  · cases h

theorem selects_of_unverified (h : verify candidate.salt secret candidate.hash = false) :
    selects verify expiryTime secret scope candidate = pure false := by
  unfold selects
  rw [h]
  rfl

def Identity.Holds (identity : Identity) (candidate : CredentialIdentity) (tenant : TenantId)
    (lifecycle : TenantLifecycleState) : Prop :=
  (candidate ∈ identity.credentials ∧ tenant = identity.tenant ∧ lifecycle = identity.lifecycle) ∨
    ∃ entry ∈ identity.additionalTenants, candidate ∈ entry.credentials ∧ tenant = entry.tenant ∧
      lifecycle = entry.lifecycle

/-- What has been selected so far, by readings since the first state of the clock, is a stored valid credential. -/
structure Stored (verify : FixedBytes 32 → FixedBytes 32 → FixedBytes 32 → Bool) (expiryTime : StateT σ Option U64)
    (identity : Identity) (secret : FixedBytes 32) (scope : Scope) (first : σ) (selected : Option Selected)
    (clock : σ) : Prop where
  reads : ReadsOn expiryTime first clock
  stored : ∀ principal tenant lifecycle, selected = some (principal, tenant, lifecycle) → ∃ candidate,
    identity.Holds candidate tenant lifecycle ∧ candidate.principal = principal ∧
      Valid verify expiryTime first clock secret scope candidate

variable {selected : Option Selected} {chosen : Bool}

theorem Stored.kept (h : Stored verify expiryTime identity secret scope first selected clock)
    (hselects : selects verify expiryTime secret scope candidate clock = some (chosen, clock')) :
    Stored verify expiryTime identity secret scope first selected clock' := by
  have hread := selects_reads hselects
  refine ⟨h.reads.trans hread, fun principal tenant lifecycle hselected => ?_⟩
  obtain ⟨candidate, hholds, hprincipal, hvalid⟩ := h.stored principal tenant lifecycle hselected
  exact ⟨candidate, hholds, hprincipal, hvalid.later hread⟩

theorem Stored.select (h : Stored verify expiryTime identity secret scope first selected clock)
    {lifecycle : TenantLifecycleState} (hholds : identity.Holds candidate tenant lifecycle)
    (hselects : selects verify expiryTime secret scope candidate clock = some (true, clock')) :
    Stored verify expiryTime identity secret scope first (some (candidate.principal, tenant, lifecycle)) clock' := by
  refine ⟨h.reads.trans (selects_reads hselects), fun principal tenant lifecycle hsame => ?_⟩
  cases hsame
  exact ⟨candidate, hholds, rfl, selects_valid h.reads hselects⟩

theorem selectCredential_stored
    (h : selectCredential verify expiryTime identity secret scope clock = some (selected, clock')) :
    Stored verify expiryTime identity secret scope clock selected clock' := by
  obtain ⟨found, middle, hdefault, haddl⟩ := bind_eq_some h
  have hfound : Stored verify expiryTime identity secret scope clock found middle := by
    refine foldlM_keeps (Stored verify expiryTime identity secret scope clock) ?_
      ⟨.refl, fun _ _ _ hnone => by cases hnone⟩ hdefault
    intro before candidate hcand now after now' hbefore hstep
    obtain ⟨chosen, _, hselects, hresult⟩ := bind_eq_some hstep
    cases chosen with
    | true =>
      cases hresult
      exact hbefore.select (.inl ⟨hcand, rfl, rfl⟩) hselects
    | false =>
      cases hresult
      exact hbefore.kept hselects
  refine foldlM_keeps (Stored verify expiryTime identity secret scope clock) ?_ hfound haddl
  intro before entry hentry now after now' hbefore hstep
  refine foldlM_keeps (Stored verify expiryTime identity secret scope clock) ?_ hbefore hstep
  intro before candidate hcand now after now' hbefore hstep
  obtain ⟨chosen, _, hselects, hresult⟩ := bind_eq_some hstep
  cases chosen with
  | true =>
    cases before with
    | some _ => cases hresult
    | none =>
      cases hresult
      exact hbefore.select (.inr ⟨entry, hentry, hcand, rfl, rfl⟩) hselects
  | false =>
    cases hresult
    exact hbefore.kept hselects

/-- Two identities that differ in the credentials, the lifecycle and the alias of one tenant only, which may be missing
in either. -/
structure AgreeBeside (changed : TenantId) (identity other : Identity) : Prop where
  authority : identity.authority = other.authority
  generation : identity.generation = other.generation
  tenants : identity.tenant = other.tenant
  default : changed ≠ identity.tenant → identity.credentials = other.credentials ∧
    identity.lifecycle = other.lifecycle ∧ identity.externalAlias = other.externalAlias
  others : identity.additionalTenants.filter (fun entry => decide (entry.tenant ≠ changed)) =
    other.additionalTenants.filter fun entry => decide (entry.tenant ≠ changed)

/-- The secret verifies against no credential of the tenant. -/
def Unverified (verify : FixedBytes 32 → FixedBytes 32 → FixedBytes 32 → Bool) (secret : FixedBytes 32)
    (tenant : TenantId) (identity : Identity) : Prop :=
  ∀ candidate lifecycle, identity.Holds candidate tenant lifecycle → verify candidate.salt secret candidate.hash = false

theorem selectCredential_filter (h : Unverified verify secret tenant identity) :
    selectCredential verify expiryTime identity secret scope =
      (if tenant = identity.tenant then pure none else
        identity.credentials.foldlM (selectDefault verify expiryTime identity secret scope) none) >>= fun selected =>
      (identity.additionalTenants.filter fun entry => decide (entry.tenant ≠ tenant)).foldlM
        (fun selected entry =>
          entry.credentials.foldlM (selectAdditional verify expiryTime secret scope entry) selected)
        selected := by
  have haddl : ∀ selected, identity.additionalTenants.foldlM (fun selected entry =>
      entry.credentials.foldlM (selectAdditional verify expiryTime secret scope entry) selected) selected =
      (identity.additionalTenants.filter fun entry => decide (entry.tenant ≠ tenant)).foldlM (fun selected entry =>
        entry.credentials.foldlM (selectAdditional verify expiryTime secret scope entry) selected) selected := by
    refine foldlM_filter_of_idle ?_
    intro entry hentry hsame
    have htenant : tenant = entry.tenant := (of_not_not (of_decide_eq_false hsame)).symm
    refine foldlM_of_idle ?_
    intro candidate hcand before
    have hunverified := h candidate entry.lifecycle (.inr ⟨entry, hentry, hcand, htenant, rfl⟩)
    rw [selectAdditional, selects_of_unverified hunverified]
    rfl
  unfold selectCredential
  rw [funext haddl]
  split
  · rename_i htenant
    rw [foldlM_of_idle]
    intro candidate hcand before
    have hunverified := h candidate identity.lifecycle (.inl ⟨hcand, htenant, rfl⟩)
    rw [selectDefault, selects_of_unverified hunverified]
    rfl
  · rfl

/-- Nothing about a tenant that the secret does not verify against enters the attribution. -/
theorem attributeListed_eq (hagree : AgreeBeside tenant identity other)
    (hid : Unverified verify secret tenant identity) (hother : Unverified verify secret tenant other)
    (hints : CompatibilityHints) : attributeListed verify expiryTime identity secret scope hints =
      attributeListed verify expiryTime other secret scope hints := by
  have hselect : selectCredential verify expiryTime identity secret scope =
      selectCredential verify expiryTime other secret scope := by
    rw [selectCredential_filter hid, selectCredential_filter hother, ← hagree.tenants, hagree.others]
    split
    · rfl
    · rename_i htenant
      obtain ⟨hcredentials, hlife, -⟩ := hagree.default htenant
      have hdefault : selectDefault verify expiryTime identity secret scope =
          selectDefault verify expiryTime other secret scope := by
        unfold selectDefault
        rw [hagree.tenants, hlife]
      rw [hcredentials, hdefault]
  funext clock
  unfold attributeListed
  rw [hselect]
  refine Option.bind_congr fun result hresult => ?_
  obtain ⟨selected, clock'⟩ := result
  cases selected with
  | none => rfl
  | some chosen =>
    obtain ⟨principal, chosenTenant, lifecycle⟩ := chosen
    -- the tenant of the result is not the one that changed
    obtain ⟨candidate, hholds, -, hvalid⟩ :=
      (selectCredential_stored hresult).stored principal chosenTenant lifecycle rfl
    have hne : chosenTenant ≠ tenant := by
      rintro rfl
      have hverified := hvalid.verified
      rw [hother candidate lifecycle hholds] at hverified
      cases hverified
    have halias : boundAlias identity chosenTenant = boundAlias other chosenTenant := by
      unfold boundAlias
      rw [← hagree.tenants]
      split
      · rename_i hdefault
        rw [(hagree.default fun hsame => hne (hdefault.trans hsame.symm)).2.2]
      · have hfind : ∀ entries : List AdditionalTenantIdentity,
            entries.find? (fun entry => decide (entry.tenant = chosenTenant)) =
              (entries.filter fun entry => decide (entry.tenant ≠ tenant)).find?
                fun entry => decide (entry.tenant = chosenTenant) := by
          intro entries
          rw [find?_filter]
          refine congrArg (fun p => entries.find? p) (funext fun entry => ?_)
          by_cases hentry : entry.tenant = chosenTenant
          · simp [hentry, hne]
          · simp [hentry]
        rw [hfind, hagree.others, ← hfind]
    have hctx : ∀ lifecycle, identity.contextOf scope principal chosenTenant lifecycle hints =
        other.contextOf scope principal chosenTenant lifecycle hints := by
      intro lifecycle
      unfold Identity.contextOf
      rw [hagree.authority, hagree.generation]
    dsimp only
    rw [halias, hctx]

end Selection

/-- The context names the principal and the tenant of a stored credential that is valid for the request, of a tenant
whose lifecycle allows it. -/
def Identity.Attributes {σ : Type} (identity : Identity) (verify : FixedBytes 32 → FixedBytes 32 → FixedBytes 32 → Bool)
    (expiryTime : StateT σ Option U64) (first last : σ) (secret : FixedBytes 32) (intent : RequestedIntent)
    (context : AuthorizedContext) : Prop :=
  ∃ candidate tenant lifecycle, identity.Holds candidate tenant lifecycle ∧
    Valid verify expiryTime first last secret intent.scope candidate ∧ context.principal = candidate.principal ∧
    context.scope = intent.scope ∧
    context.tenant.map (fun attributed => (attributed.principal, attributed.tenant)) =
      (if intent.scope.isTenantScoped then some (candidate.principal, tenant) else none) ∧
    (intent = .ingest → lifecycle = .active) ∧ (intent = .query → lifecycle = .active ∨ lifecycle = .readOnly)

variable {verify : FixedBytes 32 → FixedBytes 32 → FixedBytes 32 → Bool} {secret : FixedBytes 32}
  {identity : Identity} {σ : Type}

theorem attributeListed_attributes {expiryTime : StateT σ Option U64} {intent : RequestedIntent}
    {hints : CompatibilityHints} {context : AuthorizedContext} {clock clock' : σ}
    (h : attributeListed verify expiryTime identity secret intent.scope hints clock = some (context, clock')) :
    identity.Attributes verify expiryTime clock clock' secret intent context := by
  obtain ⟨selected, middle, hselect, hresult⟩ := bind_eq_some h
  cases selected with
  | none => cases hresult
  | some chosen =>
    obtain ⟨principal, tenant, lifecycle⟩ := chosen
    obtain ⟨candidate, hholds, rfl, hvalid⟩ := (selectCredential_stored hselect).stored principal tenant lifecycle rfl
    dsimp only at hresult
    split at hresult
    · rename_i hallowed
      have hlife := (Bool.and_eq_true_iff.mp hallowed).2
      cases hresult
      refine ⟨candidate, tenant, lifecycle, hholds, hvalid, rfl, rfl, ?_, ?_, ?_⟩
      · unfold Identity.contextOf
        split
        · rfl
        · rfl
      · rintro rfl
        exact of_decide_eq_true hlife
      · rintro rfl
        cases lifecycle <;> first | exact .inl rfl | exact .inr rfl | cases hlife
    · cases hresult

/-- Hints are compared with what the credential gave, and can only refuse it. -/
theorem attributeListed_hints {expiryTime : StateT σ Option U64} {scope : Scope} (hints : CompatibilityHints)
    (clock : σ) :
    attributeListed verify expiryTime identity secret scope hints clock = none ∨
      attributeListed verify expiryTime identity secret scope hints clock =
        (attributeListed verify expiryTime identity secret scope .none clock).map fun result =>
          ({ result.1 with proxyActor := hints.proxyActor }, result.2) := by
  change (selectCredential verify expiryTime identity secret scope clock).bind _ = none ∨
    (selectCredential verify expiryTime identity secret scope clock).bind _ =
      ((selectCredential verify expiryTime identity secret scope clock).bind _).map _
  cases selectCredential verify expiryTime identity secret scope clock with
  | none => exact .inl rfl
  | some result =>
    obtain ⟨selected, clock'⟩ := result
    cases selected with
    | none => exact .inl rfl
    | some chosen =>
      obtain ⟨principal, tenant, lifecycle⟩ := chosen
      dsimp only [Option.bind_some]
      by_cases hallowed : lifecycleAllows scope lifecycle
      · cases hmatches : aliasMatches (boundAlias identity tenant) hints.externalAlias with
        | false => exact .inl rfl
        | true =>
          right
          rw [hallowed]
          rfl
      · left
        rw [Bool.eq_false_iff.mpr hallowed, Bool.and_false]
        rfl

/-- Attribution follows the credential: a success names a stored valid credential, hints only refuse, and what belongs
to a tenant that the secret does not verify against does not matter. -/
theorem attribution_follows_credential {σ : Type} (verify : FixedBytes 32 → FixedBytes 32 → FixedBytes 32 → Bool)
    (expiryTime : StateT σ Option U64) (identity : Identity) (hlist : identity.credentials ≠ [])
    (secret : FixedBytes 32) (intent : RequestedIntent) (hints : CompatibilityHints) (clock : σ) :
    (∀ context clock', attributeWithExpiryTime verify expiryTime identity secret intent hints clock =
        some (context, clock') → identity.Attributes verify expiryTime clock clock' secret intent context) ∧
      (attributeWithExpiryTime verify expiryTime identity secret intent hints clock = none ∨
        attributeWithExpiryTime verify expiryTime identity secret intent hints clock =
          (attributeWithExpiryTime verify expiryTime identity secret intent .none clock).map fun result =>
            ({ result.1 with proxyActor := hints.proxyActor }, result.2)) ∧
      ∀ other tenant, other.credentials ≠ [] → AgreeBeside tenant identity other →
        Unverified verify secret tenant identity → Unverified verify secret tenant other →
        attributeWithExpiryTime verify expiryTime identity secret intent hints clock =
          attributeWithExpiryTime verify expiryTime other secret intent hints clock := by
  unfold attributeWithExpiryTime
  refine ⟨?_, ?_, ?_⟩
  · intro context clock' h
    split at h
    · cases h
    · exact attributeListed_attributes h
  · split
    · exact .inl rfl
    · rw [if_neg (fun h => by cases h.2)]
      exact attributeListed_hints hints clock
  · intro other tenant hother hagree hid hotherUnverified
    rw [if_pos hlist, if_pos hother, attributeListed_eq hagree hid hotherUnverified]

/-- A clock that moves by a second at each reading. -/
def tickingClock : StateT Nat Option U64 := fun now => some (.wrap 64 now, now + 1)

def sampleVerify (_ secret hash : FixedBytes 32) : Bool := decide (secret = hash)

def sampleHash : FixedBytes 32 := ⟨replicate 32 11, rfl⟩

def neighbour : TenantId := ⟨⟨⟨replicate 16 11, rfl⟩, rfl⟩⟩

def sampleIdentity : Identity where
  authority := zeroBytes 16
  generation := ⟨1, one_lt_word⟩
  principal := ⟨SegmentScope.sample.tenant.id⟩
  tenant := SegmentScope.sample.tenant
  externalAlias := none
  salt := zeroBytes 32
  hash := zeroBytes 32
  ingest := none
  query := none
  credentials := [⟨⟨SegmentScope.sample.tenant.id⟩, .ingest, true, some (.wrap 64 9), zeroBytes 32, zeroBytes 32⟩]
  lifecycle := .active
  additionalTenants := [⟨neighbour, .active, none, [⟨⟨neighbour.id⟩, .ingest, true, none, zeroBytes 32, sampleHash⟩]⟩]

/-- The neighbour has lost its credential, and has an alias and another lifecycle. -/
def changedNeighbour : Identity :=
  { sampleIdentity with additionalTenants := [⟨neighbour, .suspended, some ⟨"neighbour"⟩, []⟩] }

theorem sample_attribution_follows : ∃ context,
    attributeWithExpiryTime sampleVerify tickingClock sampleIdentity (zeroBytes 32) .ingest .none 1 =
      some (context, 2) ∧
      sampleIdentity.Attributes sampleVerify tickingClock 1 2 (zeroBytes 32) .ingest context ∧
      attributeWithExpiryTime sampleVerify tickingClock changedNeighbour (zeroBytes 32) .ingest .none 1 =
        some (context, 2) ∧
      attributeWithExpiryTime sampleVerify tickingClock sampleIdentity (zeroBytes 32) .ingest
        ⟨some ⟨"neighbour"⟩, none⟩ 1 = none := by
  have hlist : sampleIdentity.credentials ≠ [] := cons_ne_nil _ _
  have hagree : AgreeBeside neighbour sampleIdentity changedNeighbour :=
    ⟨rfl, rfl, rfl, fun _ => ⟨rfl, rfl, rfl⟩, rfl⟩
  have hbefore : Unverified sampleVerify (zeroBytes 32) neighbour sampleIdentity := by
    rintro candidate lifecycle (⟨-, htenant, -⟩ | ⟨entry, hentry, hcand, -⟩)
    · exact absurd htenant (by decide)
    · rw [mem_singleton.mp hentry] at hcand
      rw [mem_singleton.mp hcand]
      decide
  have hafter : Unverified sampleVerify (zeroBytes 32) neighbour changedNeighbour := by
    rintro candidate lifecycle (⟨-, htenant, -⟩ | ⟨entry, hentry, hcand, -⟩)
    · exact absurd htenant (by decide)
    · rw [mem_singleton.mp hentry] at hcand
      cases hcand
  obtain ⟨hnames, -, hbeside⟩ := attribution_follows_credential sampleVerify tickingClock sampleIdentity hlist
    (zeroBytes 32) .ingest .none 1
  refine ⟨_, rfl, hnames _ _ rfl, ?_, ?_⟩
  · rw [← hbeside changedNeighbour neighbour hlist hagree hbefore hafter]
    rfl
  · rfl

end Positron.Governance
