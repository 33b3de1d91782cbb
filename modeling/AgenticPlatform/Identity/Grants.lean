import AgenticPlatform.Foundation.Table
import AgenticPlatform.Foundation.Transition
import AgenticPlatform.Identity.Capabilities
import AgenticPlatform.Settings

/-!
# Capability grants

A grant is a row under its tenant, principal, capability and resource. Granting again
rewrites the row, revoking marks it, and nothing deletes it. Roles are fixed; each call is
one transaction, and the clock moves between calls.
-/
namespace AgenticPlatform.Identity
open AgenticPlatform.Foundation

/-- The columns of the unique constraint. -/
structure GrantKey where
  tenantId : Uuid
  principalId : Uuid
  capability : Capability
  resource : String
deriving DecidableEq

/-- A row of `capability_grant`. -/
structure GrantRow extends GrantKey where
  id : Uuid
  grantedBy : Uuid
  grantedAt : Time
  expiresAt : Option Time
  revokedAt : Option Time
  revokedBy : Option Uuid
deriving DecidableEq

abbrev GrantTable := Table GrantRow GrantRow.toGrantKey

/-! ## The operations -/

def unexpired (now : Time) (expiresAt : Option Time) : Bool := expiresAt.all (fun e => now < e)

def hasGrant (t : GrantTable) (now : Time) (principal : Principal) (capability : Capability)
    (resource : String) : Bool :=
  t.rows.any (fun r => r.tenantId = principal.tenant.id ∧
    r.principalId = principal.id ∧ r.capability = capability ∧
    (r.resource = resource ∨ r.resource = "*") ∧ unexpired now r.expiresAt ∧ r.revokedAt = none)

inductive GrantError where
  | notAuthorized (capability : Capability) (reason : String)
  /-- A foreign key, the primary key or the length of the column refuses the row. -/
  | refused
deriving DecidableEq

/-- `require` without a resource: the grants table is not asked. -/
def require (principal : Principal) (capability : Capability) : Except GrantError Unit :=
  let (allowed, reason) := allows principal capability none none false
  if allowed then .ok () else .error (.notAuthorized capability reason.text)

def maxResourceLength : Nat := 200

def regranted (granter : Principal) (now : Time) (expiresAt : Option Time) (r : GrantRow) :
    GrantRow :=
  { r with revokedAt := none, expiresAt := expiresAt, grantedBy := granter.id, grantedAt := now }

def newGrant (granter : Principal) (now : Time) (key : GrantKey) (expiresAt : Option Time)
    (id : Uuid) : GrantRow where
  toGrantKey := key
  id := id
  grantedBy := granter.id
  grantedAt := now
  expiresAt := expiresAt
  revokedAt := none
  revokedBy := none

/-- The INSERT … ON CONFLICT DO UPDATE. -/
def upsertGrant (t : GrantTable) (granter : Principal) (now : Time) (key : GrantKey)
    (expiresAt : Option Time) (newId : Uuid) : Option GrantTable :=
  if key ∈ t.keys then
    some (t.updateWhere (fun r => r.toGrantKey = key) (regranted granter now expiresAt)
      (fun _ => rfl))
  else if t.rows.any (fun r => r.id = newId) then none
  else t.tryInsert (newGrant granter now key expiresAt newId)

def grant (principals : Table Principal Principal.id) (t : GrantTable) (now : Time)
    (granter : Principal) (toPrincipalId : Uuid) (capability : Capability) (resource : String)
    (expiresAt : Option Time) (newId : Uuid) : Except GrantError GrantTable := do
  require granter .memberManage
  if capabilitiesOf granter capability then
    if toPrincipalId ∈ principals.keys ∧ resource.length ≤ maxResourceLength then
      match upsertGrant t granter now ⟨granter.tenant.id, toPrincipalId, capability, resource⟩
          expiresAt newId with
      | some t' => .ok t'
      | none => .error .refused
    else .error .refused
  else .error (.notAuthorized capability "cannot grant a capability the granter does not hold")

def revocable (revoker : Principal) (grantId : Uuid) (r : GrantRow) : Prop :=
  (r.id = grantId ∧ r.tenantId = revoker.tenant.id) ∧ r.revokedAt = none

instance (revoker : Principal) (grantId : Uuid) (r : GrantRow) :
    Decidable (revocable revoker grantId r) :=
  inferInstanceAs (Decidable ((_ ∧ _) ∧ _))

def asRevoked (revoker : Principal) (now : Time) (r : GrantRow) : GrantRow :=
  { r with revokedAt := some now, revokedBy := some revoker.id }

/-- The table afterwards, and the row that the UPDATE returned. -/
def revoke (t : GrantTable) (now : Time) (revoker : Principal) (grantId : Uuid) :
    Except GrantError (GrantTable × Option GrantKey) := do
  require revoker .memberManage
  return (t.updateWhere (revocable revoker grantId) (asRevoked revoker now) (fun _ => rfl),
    (t.rows.find? (fun r => revocable revoker grantId r)).map GrantRow.toGrantKey)

/-! ## Histories -/

inductive GrantEvent where
  | granted (granter : Uuid) (key : GrantKey) (expiresAt : Option Time)
  | revoked (revoker : Uuid) (key : GrantKey)
deriving DecidableEq

def GrantEvent.key : GrantEvent → GrantKey
  | .granted _ key _ | .revoked _ key => key

/-- The log is a ghost; its newest operation comes first. -/
structure GrantState where
  clock : Time
  grants : GrantTable
  log : List GrantEvent

def GrantState.initial (clock : Time) : GrantState := ⟨clock, .empty, []⟩

inductive GrantAct where
  | tick (now : Time)
  | grant (granter toPrincipalId : Uuid) (capability : Capability) (resource : String)
    (expiresAt : Option Time) (newId : Uuid)
  | revoke (revoker grantId : Uuid)

/-- A refused call changes nothing. -/
def grantStep (principals : Table Principal Principal.id) (s : GrantState) :
    GrantAct → Option GrantState
  | .tick now => if s.clock ≤ now then some { s with clock := now } else none
  | .grant granter toPrincipalId capability resource expiresAt newId =>
    (principals.get granter).map (fun g =>
      match grant principals s.grants s.clock g toPrincipalId capability resource expiresAt
          newId with
      | .ok t =>
        { s with grants := t, log :=
          .granted g.id ⟨g.tenant.id, toPrincipalId, capability, resource⟩ expiresAt :: s.log }
      | .error _ => s)
  | .revoke revoker grantId =>
    (principals.get revoker).map (fun g =>
      match revoke s.grants s.clock g grantId with
      | .ok (t, some key) => { s with grants := t, log := .revoked g.id key :: s.log }
      | .ok (_, none) | .error _ => s)

/-- The decision with the grants as they are now. -/
def GrantState.allows (s : GrantState) (principal : Principal) (capability : Capability)
    (resource : Option String) : Bool :=
  (Identity.allows principal capability resource none
    (resource.any (hasGrant s.grants s.clock principal capability))).1

/-- The most recent operation on a key. -/
def lastOn (log : List GrantEvent) (key : GrantKey) : Option GrantEvent :=
  log.find? (fun e => e.key = key)

/-- It is a grant whose expiry has not passed. -/
def LastGranted (log : List GrantEvent) (now : Time) (key : GrantKey) : Prop :=
  ∃ granter expiresAt, lastOn log key = some (.granted granter key expiresAt) ∧
    ∀ e ∈ expiresAt, now < e

/-! ## What the table says of a key -/

/-- Who granted it last and until when; nobody where it is revoked. -/
def GrantRow.standing (r : GrantRow) : Option (Uuid × Option Time) :=
  if r.revokedAt = none then some (r.grantedBy, r.expiresAt) else none

def GrantEvent.standing : GrantEvent → Option (Uuid × Option Time)
  | .granted granter _ expiresAt => some (granter, expiresAt)
  | .revoked _ _ => none

section
variable {t t' : GrantTable} {granter : Principal} {now : Time} {key : GrantKey}
  {expiresAt : Option Time} {newId : Uuid}

theorem unexpired_iff : unexpired now expiresAt = true ↔ ∀ e ∈ expiresAt, now < e := by
  simp [unexpired, Option.all_eq_true]

theorem lastOn_cons (e : GrantEvent) (log : List GrantEvent) (key : GrantKey) :
    lastOn (e :: log) key = if e.key = key then some e else lastOn log key := by
  by_cases he : e.key = key <;> simp [lastOn, he]

theorem require_eq_ok {principal : Principal} {capability : Capability} {u : Unit}
    (h : require principal capability = .ok u) : capabilitiesOf principal capability = true := by
  simp only [require, allows, reduceCtorEq, and_false, if_false] at h
  split at h
  · assumption
  · simp at h

theorem grant_eq_ok {principals : Table Principal Principal.id} {toPrincipalId : Uuid}
    {capability : Capability} {resource : String}
    (h : grant principals t now granter toPrincipalId capability resource expiresAt newId =
      .ok t') :
    (capabilitiesOf granter .memberManage = true ∧ capabilitiesOf granter capability = true) ∧
      upsertGrant t granter now ⟨granter.tenant.id, toPrincipalId, capability, resource⟩ expiresAt
      newId = some t' := by
  unfold grant at h
  cases hrequire : require granter .memberManage with
  | error e =>
    rw [hrequire] at h
    cases h
  | ok u =>
    rw [hrequire] at h
    simp only [bind, Except.bind] at h
    split at h
    · split at h
      · split at h
        · rename_i hupsert
          cases h
          exact ⟨⟨require_eq_ok hrequire, ‹_›⟩, hupsert⟩
        · cases h
      · cases h
    · cases h

theorem standing_upsert (h : upsertGrant t granter now key expiresAt newId = some t')
    (k : GrantKey) : (t'.get k).map GrantRow.standing =
      if key = k then some (some (granter.id, expiresAt)) else (t.get k).map GrantRow.standing := by
  unfold upsertGrant at h
  split at h
  · rename_i hkey
    cases h
    have hget :=
      Table.get_updateWhere t (fun r => r.toGrantKey = key) (regranted granter now expiresAt)
        (fun _ => rfl) k
    rw [hget, Option.map_map]
    split
    · rename_i hk
      obtain ⟨r, hr, rfl⟩ := Table.mem_keys.mp hkey
      rw [← hk, Table.get_self hr]
      simp [Table.rewrite, GrantRow.standing, regranted]
    · rename_i hk
      cases hget : t.get k with
      | none => rfl
      | some r =>
        have hr : r.toGrantKey = k := (Table.get_eq_some.mp hget).2
        have hne : r.toGrantKey ≠ key := fun he => hk (he.symm.trans hr)
        simp [Table.rewrite, hne]
  · split at h
    · cases h
    · unfold Table.tryInsert at h
      split at h
      · cases h
        rw [Table.get_insert]
        change Option.map _ (if key = k then _ else _) = _
        split
        · simp [GrantRow.standing, newGrant]
        · rfl
      · cases h

/-- No two rows under one id. -/
def IdsApart (t : GrantTable) : Prop := ∀ a ∈ t.rows, ∀ b ∈ t.rows, a.id = b.id → a = b

theorem idsApart_updateWhere {p : GrantRow → Prop} [DecidablePred p] {f : GrantRow → GrantRow}
    (ht : IdsApart t) (hf : ∀ r, (f r).toGrantKey = r.toGrantKey) (hid : ∀ r, (f r).id = r.id) :
    IdsApart (t.updateWhere p f hf) := by
  have hrewrite : ∀ r, (Table.rewrite p f r).id = r.id := by
    intro r
    unfold Table.rewrite
    split
    · exact hid r
    · rfl
  intro a ha b hb hab
  obtain ⟨a', ha', rfl⟩ := Table.mem_update.mp ha
  obtain ⟨b', hb', rfl⟩ := Table.mem_update.mp hb
  rw [hrewrite, hrewrite] at hab
  rw [ht a' ha' b' hb' hab]

theorem idsApart_upsert (ht : IdsApart t)
    (h : upsertGrant t granter now key expiresAt newId = some t') : IdsApart t' := by
  unfold upsertGrant at h
  split at h
  · cases h
    exact idsApart_updateWhere ht _ (fun _ => rfl)
  · split at h
    · cases h
    · rename_i hfresh
      obtain ⟨-, hrows⟩ := Table.tryInsert_eq_some h
      have hnew : ∀ r ∈ t.rows, r.id ≠ newId := by simpa using hfresh
      intro a ha b hb hab
      rw [hrows, List.mem_append, List.mem_singleton] at ha hb
      rcases ha with ha | rfl
      · rcases hb with hb | rfl
        · exact ht a ha b hb hab
        · exact absurd hab (hnew a ha)
      · rcases hb with hb | rfl
        · exact absurd hab.symm (hnew b hb)
        · rfl

/-- The UPDATE reaches the one row that it returns. -/
theorem revoke_some {revoker : Principal} {grantId : Uuid} (ht : IdsApart t)
    (h : revoke t now revoker grantId = .ok (t', some key)) :
    IdsApart t' ∧ ∀ k, (t'.get k).map GrantRow.standing = if key = k then some none
      else (t.get k).map GrantRow.standing := by
  unfold revoke at h
  cases hrequire : require revoker .memberManage with
  | error e =>
    rw [hrequire] at h
    cases h
  | ok u =>
    rw [hrequire] at h
    obtain ⟨rfl, hfind⟩ := Prod.mk.inj (Except.ok.inj h)
    obtain ⟨r, hr, rfl⟩ := Option.map_eq_some_iff.mp hfind
    have hmem : r ∈ t.rows := List.mem_of_find?_eq_some hr
    have hrevocable : revocable revoker grantId r := by simpa using List.find?_some hr
    refine ⟨idsApart_updateWhere ht _ (fun _ => rfl), ?_⟩
    intro k
    have hget :=
      Table.get_updateWhere t (revocable revoker grantId) (asRevoked revoker now) (fun _ => rfl) k
    rw [hget, Option.map_map]
    split
    · rename_i hk
      rw [← hk, Table.get_self hmem]
      simp [Table.rewrite, hrevocable, GrantRow.standing, asRevoked]
    · rename_i hk
      cases hget : t.get k with
      | none => rfl
      | some x =>
        obtain ⟨hx, hxk⟩ := Table.get_eq_some.mp hget
        have hnot : ¬ revocable revoker grantId x := by
          intro hxr
          cases ht x hx r hmem (hxr.1.1.trans hrevocable.1.1.symm)
          exact hk hxk
        simp [Table.rewrite, hnot]

end

/-! ## The table and the log -/

/-- Of every key the table says what the last operation on it left. -/
structure GrantInv (principals : Table Principal Principal.id) (s : GrantState) : Prop where
  ids : IdsApart s.grants
  history : ∀ key, (s.grants.get key).map GrantRow.standing =
    (lastOn s.log key).map GrantEvent.standing
  authority : ∀ granter key expiresAt, GrantEvent.granted granter key expiresAt ∈ s.log →
    ∃ g, principals.get granter = some g ∧ g.tenant.id = key.tenantId ∧
    capabilitiesOf g .memberManage = true ∧ capabilitiesOf g key.capability = true

section
variable {principals : Table Principal Principal.id} {s t : GrantState}

theorem grantInv_initial (clock : Time) : GrantInv principals (.initial clock) where
  ids := by
    intro a ha
    cases ha
  history := fun _ => rfl
  authority := by
    intro granter key expiresAt h
    cases h

theorem grantInv_log {grants : GrantTable} {e : GrantEvent} (h : GrantInv principals s)
    (hids : IdsApart grants) (hstanding : ∀ k, (grants.get k).map GrantRow.standing =
      if e.key = k then some e.standing else (s.grants.get k).map GrantRow.standing)
    (hauthority : ∀ granter key expiresAt, e = .granted granter key expiresAt →
      ∃ g, principals.get granter = some g ∧ g.tenant.id = key.tenantId ∧
      capabilitiesOf g .memberManage = true ∧ capabilitiesOf g key.capability = true) :
    GrantInv principals { s with grants := grants, log := e :: s.log } where
  ids := hids
  history := by
    intro key
    change (grants.get key).map _ = (lastOn (e :: s.log) key).map _
    rw [hstanding, lastOn_cons, h.history]
    split <;> rfl
  authority := by
    intro granter key expiresAt hmem
    rcases List.mem_cons.mp hmem with he | hmem
    · exact hauthority granter key expiresAt he.symm
    · exact h.authority granter key expiresAt hmem

theorem grantInv_step {a : GrantAct} (h : GrantInv principals s)
    (hstep : grantStep principals s a = some t) : GrantInv principals t := by
  cases a with
  | tick now =>
    simp only [grantStep, Option.ite_none_right_eq_some, Option.some.injEq] at hstep
    obtain ⟨-, rfl⟩ := hstep
    exact ⟨h.ids, h.history, h.authority⟩
  | grant granter toPrincipalId capability resource expiresAt newId =>
    obtain ⟨g, hg, rfl⟩ := Option.map_eq_some_iff.mp hstep
    have hid : g.id = granter := (Table.get_eq_some.mp hg).2
    split
    · rename_i grants hgrant
      obtain ⟨⟨hmanage, hholds⟩, hupsert⟩ := grant_eq_ok hgrant
      refine grantInv_log h (idsApart_upsert h.ids hupsert) (standing_upsert hupsert) ?_
      intro granter' key expiresAt' he
      cases he
      exact ⟨g, hid.symm ▸ hg, rfl, hmanage, hholds⟩
    · exact h
  | revoke revoker grantId =>
    obtain ⟨g, hg, rfl⟩ := Option.map_eq_some_iff.mp hstep
    split
    · rename_i grants key hrevoke
      obtain ⟨hids, hstanding⟩ := revoke_some h.ids hrevoke
      exact grantInv_log h hids hstanding nofun
    · exact h
    · exact h

end

/-! ## Results -/

section
variable {principals : Table Principal Principal.id} {clock : Time} {acts : List GrantAct}
  {s : GrantState}

theorem grantInv_reaches (h : Reaches (grantStep principals) (.initial clock) acts s) :
    GrantInv principals s :=
  h.invariant (fun _ _ _ hs hstep => grantInv_step hs hstep) (grantInv_initial clock)

/-- A row in force stands as its last grant left it. -/
def GrantRow.inForce (r : GrantRow) (now : Time) : Prop :=
  r.revokedAt = none ∧ unexpired now r.expiresAt = true

theorem standing_eq_some {r : GrantRow} {by_ : Uuid} {expiresAt : Option Time} :
    r.standing = some (by_, expiresAt) ↔ r.revokedAt = none ∧ r.grantedBy = by_ ∧
      r.expiresAt = expiresAt := by
  unfold GrantRow.standing
  split
  · simp [*]
  · simp [*]

theorem lastOn_key {log : List GrantEvent} {key : GrantKey} {e : GrantEvent}
    (h : lastOn log key = some e) : e.key = key := by
  simpa using List.find?_some h

/-- Reading the history of a key off its row, and the other way. -/
theorem GrantInv.lastOn_granted (h : GrantInv principals s) {key : GrantKey} {granter : Uuid}
    {expiresAt : Option Time} :
    lastOn s.log key = some (.granted granter key expiresAt) ↔
      ∃ r, s.grants.get key = some r ∧ r.standing = some (granter, expiresAt) := by
  have hhistory := h.history key
  constructor
  · intro hlast
    rw [hlast] at hhistory
    exact Option.map_eq_some_iff.mp hhistory
  · rintro ⟨r, hget, hstanding⟩
    rw [hget, Option.map_some, hstanding] at hhistory
    obtain ⟨e, hlast, he⟩ := Option.map_eq_some_iff.mp hhistory.symm
    cases e with
    | granted g k x =>
      cases he
      cases lastOn_key hlast
      exact hlast
    | revoked => cases he

theorem GrantInv.lastGranted (h : GrantInv principals s) {key : GrantKey} :
    LastGranted s.log s.clock key ↔ ∃ r, s.grants.get key = some r ∧ r.inForce s.clock := by
  constructor
  · rintro ⟨granter, expiresAt, hlast, hexpiry⟩
    obtain ⟨r, hget, hstanding⟩ := h.lastOn_granted.mp hlast
    obtain ⟨hrevoked, -, rfl⟩ := standing_eq_some.mp hstanding
    exact ⟨r, hget, hrevoked, unexpired_iff.mpr hexpiry⟩
  · rintro ⟨r, hget, hrevoked, hexpiry⟩
    refine ⟨r.grantedBy, r.expiresAt, h.lastOn_granted.mpr ⟨r, hget, ?_⟩, unexpired_iff.mp hexpiry⟩
    exact standing_eq_some.mpr ⟨hrevoked, rfl, rfl⟩

theorem hasGrant_iff {t : GrantTable} {now : Time} {p : Principal} {c : Capability}
    {resource : String} :
    hasGrant t now p c resource = true ↔ ∃ name, (name = resource ∨ name = "*") ∧
      ∃ r, t.get ⟨p.tenant.id, p.id, c, name⟩ = some r ∧ r.inForce now := by
  simp only [hasGrant, List.any_eq_true, decide_eq_true_eq]
  constructor
  · rintro ⟨r, hr, htenant, hprincipal, hcapability, hname, hexpiry, hrevoked⟩
    refine ⟨r.resource, hname, r, Table.get_eq_some.mpr ⟨hr, ?_⟩, hrevoked, hexpiry⟩
    rw [← htenant, ← hprincipal, ← hcapability]
  · rintro ⟨name, hname, r, hget, hrevoked, hexpiry⟩
    obtain ⟨hr, hkey⟩ := Table.get_eq_some.mp hget
    obtain ⟨htenant, hprincipal, hcapability, rfl⟩ := GrantKey.mk.inj hkey
    exact ⟨r, hr, htenant, hprincipal, hcapability, hname, hexpiry, hrevoked⟩

theorem allows_iff {p : Principal} {c : Capability} {resource : Option String} :
    s.allows p c resource = true ↔ capabilitiesOf p c = true ∨
      ∃ name, resource = some name ∧ name ≠ "" ∧ hasGrant s.grants s.clock p c name = true := by
  simp only [GrantState.allows, Identity.allows, reduceCtorEq, and_false, if_false]
  cases hrole : capabilitiesOf p c with
  | true => simp
  | false =>
    cases resource with
    | none => simp
    | some name =>
      by_cases hempty : name = "" <;> by_cases hgrant : hasGrant s.grants s.clock p c name <;>
        simp [hempty, hgrant]

def northwind : Tenant := ⟨1, "northwind"⟩
def ownerPrincipal : Principal := ⟨10, northwind, "owner", [.owner]⟩
def viewerPrincipal : Principal := ⟨11, northwind, "viewer", [.viewer]⟩
def members : Table Principal Principal.id := ⟨[ownerPrincipal, viewerPrincipal], by decide⟩

/-- A grant that runs out, the same grant again, a refused grant by the viewer, and a
revocation of a grant on everything. -/
def grantHistory : List GrantAct :=
  [.grant 10 11 .evalRun "invoices" (some 5) 100, .tick 6,
    .grant 10 11 .evalRun "invoices" none 101, .grant 11 11 .releasePromote "*" none 102,
    .grant 10 11 .auditRead "*" none 103, .revoke 10 103]

theorem grantHistory_run :
    ((grantHistory.foldlM (grantStep members) (.initial 0)).isSome) = true := by
  decide +kernel

end
end AgenticPlatform.Identity
