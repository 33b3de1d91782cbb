import AgenticPlatform.Foundation.StableSort
import AgenticPlatform.Identity.Auth
import Mathlib.Algebra.Order.Floor.Ring
import Mathlib.Data.List.Dedup
import Mathlib.Data.Rat.Floor
import Mathlib.Data.String.Basic

/-!
# Logins

A password is exchanged for a token, whose claims say who was authenticated, in which tenant
and for how long. The hashes of passwords and the signature of a token are parameters; a
token is decoded where its signature, its issuer, its audience and its times hold.
-/
namespace AgenticPlatform.Identity
open AgenticPlatform.Foundation

def ActorType.text : ActorType → String
  | .human => "human"
  | .service => "service"
  | .job => "job"

def Role.text : Role → String
  | .owner => "owner"
  | .operator => "operator"
  | .reviewer => "reviewer"
  | .viewer => "viewer"
  | .service => "service"

@[simp] theorem ActorType.ofText_text (typ : ActorType) : ActorType.ofText typ.text = some typ := by
  cases typ <;> rfl

@[simp] theorem Role.ofText_text (role : Role) : Role.ofText role.text = some role := by
  cases role <;> rfl

/-- All claims of a token; times are in whole seconds. -/
structure SignedClaims extends Claims where
  iat : Int
  nbf : Int
  exp : Int
  iss : String
  aud : String
  jti : Uuid

/-- A row of `principal` with its password. -/
structure Account extends PrincipalRow where
  passwordHash : Option String

def Account.key (a : Account) : Uuid := a.id

abbrev AccountTable := Table Account Account.key

structure LoginEnv where
  /-- `jwt.encode`, under the secret and the algorithm of the settings. -/
  encode : SignedClaims → String
  /-- The claims of a token whose signature holds. -/
  signed : String → Option SignedClaims
  uuidText : Uuid → String
  parseUuid : String → Option Uuid
  isAlnum : Char → Bool
  /-- A hash, and a password. -/
  verify : String → String → Bool
  checkNeedsRehash : String → Bool
  /-- A password, and a salt. -/
  hash : String → Nat → String
  jwtIssuer : String
  jwtAudience : String
  accessTokenTtlSeconds : Nat
  verifyPrincipalState : Bool
  auditFailClosed : Bool

/-- What is relied on: a token that was encoded decodes, and so does the text of an id. -/
structure LoginEnv.Lawful (env : LoginEnv) : Prop where
  signed_encode : ∀ claims, env.signed (env.encode claims) = some claims
  parse_text : ∀ id, env.parseUuid (env.uuidText id) = some id

section
variable (env : LoginEnv)

/-- What `jwt.decode` requires of the claims. -/
def SignedClaims.Holds (c : SignedClaims) (now : Time) : Prop :=
  c.iss = env.jwtIssuer ∧ c.aud = env.jwtAudience ∧ (c.iat : Time) ≤ now ∧ (c.nbf : Time) ≤ now ∧
    now < c.exp

instance (c : SignedClaims) (now : Time) : Decidable (c.Holds env now) :=
  inferInstanceAs (Decidable (_ ∧ _ ∧ _ ∧ _ ∧ _))

/-- Decoding at this time. -/
def LoginEnv.authAt (now : Time) : AuthEnv where
  jwtDecode token :=
    ((env.signed token).filter (fun c => c.Holds env now)).map SignedClaims.toClaims
  parseUuid := env.parseUuid
  isAlnum := env.isAlnum
  verifyPrincipalState := env.verifyPrincipalState

/-- `sorted(str(r) for r in roles)`, of a set. -/
def sortedRoles (roles : List Role) : List Role := sortedBy Role.text roles.dedup

/-- `issue_token`, before it is encoded. -/
def issueClaims (p : Principal) (typ : ActorType) (now : Time) (jti : Uuid) : SignedClaims where
  sub := env.uuidText p.id
  tid := env.uuidText p.tenant.id
  tsl := p.tenant.slug
  sbj := p.subject
  rol := (sortedRoles p.roles).map Role.text
  typ := typ.text
  iat := ⌊now⌋
  nbf := ⌊now⌋
  exp := ⌊now + env.accessTokenTtlSeconds⌋
  iss := env.jwtIssuer
  aud := env.jwtAudience
  jti := jti

variable {env} {p p' : Principal} {typ : ActorType} {issuedAt now : Time} {jti : Uuid}

/-! ## Decoding what was issued -/

theorem holds_issueClaims : (issueClaims env p typ issuedAt jti).Holds env now ↔
    (⌊issuedAt⌋ : Time) ≤ now ∧ now < ⌊issuedAt + env.accessTokenTtlSeconds⌋ := by
  constructor
  · exact fun h => ⟨h.2.2.1, h.2.2.2.2⟩
  · exact fun h => ⟨rfl, rfl, h.1, h.1, h.2⟩

theorem mem_sortedRoles {role : Role} {roles : List Role} :
    role ∈ sortedRoles roles ↔ role ∈ roles := by
  rw [sortedRoles, mem_sortedBy, List.mem_dedup]

theorem ofText_roles (roles : List Role) : (roles.map Role.text).mapM Role.ofText = some roles := by
  induction roles with
  | nil => rfl
  | cons role roles ih =>
    rw [List.map_cons, List.mapM_cons, ih, Role.ofText_text]
    rfl

theorem readClaims_issueClaims (hlawful : env.Lawful)
    (hslug : isTenantSlug (env.authAt now) p.tenant.slug = true) :
    readClaims (env.authAt now) (issueClaims env p typ issuedAt jti).toClaims =
      .ok (p.tenant, p.id, typ) := by
  have htenant : (env.authAt now).parseUuid (env.uuidText p.tenant.id) = some p.tenant.id :=
    hlawful.parse_text _
  have hprincipal : (env.authAt now).parseUuid (env.uuidText p.id) = some p.id :=
    hlawful.parse_text _
  simp only [readClaims, issueClaims, htenant, hprincipal, ActorType.ofText_text]
  exact if_pos hslug

/-- The row that makes the token of a principal good, and what it then stands for. -/
def StandsFor (rows : PrincipalTable) (p : Principal) (typ : ActorType) (p' : Principal) : Prop :=
  ∃ row ∈ rows.rows, row.id = p.id ∧ row.tenantId = p.tenant.id ∧ row.disabledAt = none ∧
    row.subject = p.subject ∧ ActorType.ofText row.actorType = some typ ∧
    ∃ roles, row.roles.mapM Role.ofText = some roles ∧ p' = ⟨p.id, p.tenant, p.subject, roles⟩

theorem currentPrincipal_iff {claims : Claims} {tenant : Tenant} {row : PrincipalRow} :
    currentPrincipal claims tenant typ row = .ok p' ↔ row.subject = claims.sbj ∧
      ActorType.ofText row.actorType = some typ ∧ ∃ roles, row.roles.mapM Role.ofText = some roles ∧
      p' = ⟨row.id, tenant, row.subject, roles⟩ := by
  unfold currentPrincipal
  by_cases hsubject : row.subject = claims.sbj
  · rw [if_neg (not_not.mpr hsubject)]
    cases htype : ActorType.ofText row.actorType with
    | none => simp
    | some actorType =>
      by_cases hactor : actorType = typ
      · cases hroles : row.roles.mapM Role.ofText with
        | none => simp [hactor]
        | some roles => simp [hactor, hsubject, eq_comm]
      · simp [hactor]
  · simp [hsubject]

/-- A token is good from its issue until it expires, as long as its principal is enabled and the
same. It then stands for the roles the row has by now; where rows are not looked at, for those
it was issued with. -/
theorem decode_issued_iff (hlawful : env.Lawful)
    (hslug : isTenantSlug (env.authAt now) p.tenant.slug = true) (rows : PrincipalTable) :
    decodeToken (env.authAt now) (some rows) (env.encode (issueClaims env p typ issuedAt jti)) =
      .ok p' ↔
      ((⌊issuedAt⌋ : Time) ≤ now ∧ now < ⌊issuedAt + env.accessTokenTtlSeconds⌋) ∧
        if env.verifyPrincipalState then StandsFor rows p typ p'
        else p' = ⟨p.id, p.tenant, p.subject, sortedRoles p.roles⟩ := by
  have hperiod : (issueClaims env p typ issuedAt jti).Holds env now ↔
      (⌊issuedAt⌋ : Time) ≤ now ∧ now < ⌊issuedAt + env.accessTokenTtlSeconds⌋ := holds_issueClaims
  rw [← hperiod]
  by_cases hholds : (issueClaims env p typ issuedAt jti).Holds env now
  · have hdecode : (env.authAt now).jwtDecode (env.encode (issueClaims env p typ issuedAt jti)) =
        some (issueClaims env p typ issuedAt jti).toClaims := by
      simp only [LoginEnv.authAt, hlawful.signed_encode, Option.filter_some, decide_eq_true hholds,
        if_true, Option.map_some]
    rw [decodeToken, hdecode]
    simp only [readClaims_issueClaims hlawful hslug, hholds, true_and]
    have hverify : (env.authAt now).verifyPrincipalState = env.verifyPrincipalState := rfl
    rw [hverify]
    by_cases hstate : env.verifyPrincipalState = true
    · rw [if_pos hstate, if_pos hstate]
      cases hget : rows.get p.id with
      | none =>
        simp only [Option.filter_none, reduceCtorEq, false_iff]
        rintro ⟨row, hrow, hid, -⟩
        exact Table.get_eq_none.mp hget (hid ▸ Table.key_mem_keys hrow)
      | some row =>
        obtain ⟨hrow, hid⟩ := Table.get_eq_some.mp hget
        have honly : ∀ row' ∈ rows.rows, row'.id = p.id → row' = row :=
          fun row' hrow' hid' => Table.eq_of_key hrow' hrow (hid'.trans hid.symm)
        by_cases hopen : row.tenantId = p.tenant.id ∧ row.disabledAt = none
        · simp only [Option.filter_some, decide_eq_true hopen, if_true]
          rw [currentPrincipal_iff]
          constructor
          · rintro ⟨hsubject, htype, roles, hroles, rfl⟩
            exact ⟨row, hrow, hid, hopen.1, hopen.2, hsubject, htype, roles,
              hroles, by rw [hid, hsubject]; rfl⟩
          · rintro ⟨row', hrow', hid', -, -, hsubject, htype, roles, hroles, rfl⟩
            cases honly row' hrow' hid'
            exact ⟨hsubject, htype, roles, hroles, by rw [hid, hsubject]⟩
        · simp only [Option.filter_some, decide_eq_false hopen, Bool.false_eq_true, if_false,
            reduceCtorEq, false_iff]
          rintro ⟨row', hrow', hid', htenant, henabled, -⟩
          cases honly row' hrow' hid'
          exact hopen ⟨htenant, henabled⟩
    · rw [if_neg hstate, if_neg hstate]
      have hroles : (issueClaims env p typ issuedAt jti).rol.mapM Role.ofText =
          some (sortedRoles p.roles) := ofText_roles _
      simp only [hroles, Except.ok.injEq]
      exact eq_comm
  · have hdecode : (env.authAt now).jwtDecode (env.encode (issueClaims env p typ issuedAt jti)) =
        none := by
      simp only [LoginEnv.authAt, hlawful.signed_encode, Option.filter_some, decide_eq_false hholds,
        Bool.false_eq_true, if_false, Option.map_none]
    rw [decodeToken, hdecode]
    simp [hholds]

end

end AgenticPlatform.Identity
