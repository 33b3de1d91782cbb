import AgenticPlatform.Foundation.JsonAscii
import AgenticPlatform.Foundation.Transition
import AgenticPlatform.Identity.Logins

/-!
# Who holds a token

Logins side by side, while accounts are disabled, changed and removed. A login finds its
tenant, verifies the password against the row it reads, hashes it again where the hash is
outdated, is written to the audit log and gets its token, each in a step of its own. Whoever
signs a token otherwise is left out: a token that verifies has been issued.
-/
namespace AgenticPlatform.Identity
open AgenticPlatform.Foundation

structure LoginRequest where
  tenant : String
  subject : String
  password : String

inductive LoginPhase where
  | idle
  | resolved (req : LoginRequest) (tenant : Tenant)
  /-- The password is right for this row, as it was read. -/
  | verified (req : LoginRequest) (tenant : Tenant) (account : Account)
  | authenticated (req : LoginRequest) (account : Account) (p : Principal) (typ : ActorType)
  /-- The login has been audited, or need not be. -/
  | admitted (req : LoginRequest) (account : Account) (p : Principal) (typ : ActorType)
  | answered (token : String)
  /-- `AuthenticationError`, with one text for every reason. -/
  | refused
  /-- The audit log is not available, or something else raises. -/
  | failed

/-- A token with the login it was issued for; only the token leaves the process. -/
structure IssuedToken where
  claims : SignedClaims
  issuedAt : Time
  principal : Principal
  typ : ActorType
  account : Account
  password : String
  jti : Uuid

structure LoginState where
  tenants : Table Tenant Tenant.slug
  accounts : AccountTable
  /-- Tenant and principal of `authentication.login`. -/
  audit : List (Uuid × Uuid)
  logins : Nat → LoginPhase
  issued : List IssuedToken
  now : Time

def LoginState.initial (tenants : Table Tenant Tenant.slug) (accounts : AccountTable) (now : Time) :
    LoginState :=
  ⟨tenants, accounts, [], fun _ => .idle, [], now⟩

def LoginState.enter (s : LoginState) (k : Nat) (phase : LoginPhase) : LoginState :=
  { s with logins := Function.update s.logins k phase }

inductive LoginAct where
  | resolve (k : Nat) (req : LoginRequest)
  | verify (k : Nat)
  /-- With the salt of a new hash. -/
  | rehash (k : Nat) (salt : Nat)
  | audit (k : Nat) (up : Bool)
  | issue (k : Nat) (jti : Uuid)
  | stop (k : Nat)
  | tick (later : Time)
  /-- Members are added, removed, disabled, and given other roles and passwords. -/
  | administer (tenants : Table Tenant Tenant.slug) (accounts : AccountTable)

/-- The rows that decoding a token reads. -/
def principalsOf (accounts : AccountTable) : PrincipalTable :=
  accounts.addColumns Account.toPrincipalRow (fun _ => rfl)

section
variable (env : LoginEnv)

/-- The row of the subject in the tenant, where its password is right. -/
def verifiedAccount (accounts : AccountTable) (tenant : Tenant) (req : LoginRequest) :
    Option Account :=
  (accounts.rows.find? (fun a => a.tenantId = tenant.id ∧ a.subject = req.subject)).filter (fun a =>
    a.passwordHash.any (fun hash => hash ≠ "" && env.verify hash req.password) &&
      a.disabledAt.isNone)

/-- The password hashed anew, where its hash is outdated. -/
def rehashed (accounts : AccountTable) (a : Account) (password : String) (salt : Nat) :
    AccountTable :=
  if a.passwordHash.any env.checkNeedsRehash then
    accounts.updateWhere (fun b => b.id = a.id ∧ b.tenantId = a.tenantId)
      (fun b => { b with passwordHash := some (env.hash password salt) }) (fun _ => rfl)
  else accounts

/-- The principal of a row; `none` where this raises. -/
def principalOf (tenant : Tenant) (a : Account) : Option (Principal × ActorType) :=
  match a.roles.mapM Role.ofText, ActorType.ofText a.actorType with
  | some roles, some typ => some (⟨a.id, tenant, a.subject, roles⟩, typ)
  | _, _ => none

def loginStep (s : LoginState) : LoginAct → Option LoginState
  | .resolve k req =>
    match s.logins k with
    | .idle =>
      match s.tenants.get req.tenant with
      | none => some (s.enter k .refused)
      | some tenant =>
        if isTenantSlug (env.authAt s.now) tenant.slug then some (s.enter k (.resolved req tenant))
        else some (s.enter k .failed)
    | _ => none
  | .verify k =>
    match s.logins k with
    | .resolved req tenant =>
      match verifiedAccount env s.accounts tenant req with
      | none => some (s.enter k .refused)
      | some a => some (s.enter k (.verified req tenant a))
    | _ => none
  | .rehash k salt =>
    match s.logins k with
    | .verified req tenant a =>
      let accounts := rehashed env s.accounts a req.password salt
      match principalOf tenant a with
      | none => some { s.enter k .failed with accounts := accounts }
      | some (p, typ) => some { s.enter k (.authenticated req a p typ) with accounts := accounts }
    | _ => none
  | .audit k up =>
    match s.logins k with
    | .authenticated req a p typ =>
      if up then some { s.enter k (.admitted req a p typ) with audit := s.audit ++
        [(p.tenant.id, p.id)] }
      else if env.auditFailClosed then some (s.enter k .failed)
      else some (s.enter k (.admitted req a p typ))
    | _ => none
  | .issue k jti =>
    match s.logins k with
    | .admitted req a p typ =>
      let claims := issueClaims env p typ s.now jti
      some { s.enter k (.answered (env.encode claims)) with
        issued := s.issued ++ [⟨claims, s.now, p, typ, a, req.password, jti⟩] }
    | _ => none
  | .stop k => some (s.enter k .failed)
  | .tick later => if s.now ≤ later then some { s with now := later } else none
  | .administer tenants accounts => some { s with tenants := tenants, accounts := accounts }

end

/-! ## What a login knows -/

section
variable (env : LoginEnv) (start : LoginState) (acts : List LoginAct)

/-- The row was there at a time of the run. -/
def WasAccount (a : Account) : Prop :=
  ∃ pre post m, acts = pre ++ post ∧ Reaches (loginStep env) start pre m ∧ a ∈ m.accounts.rows

/-- The row was there, was enabled, was that of the tenant, and had this password. -/
structure Verified (tenant : Tenant) (a : Account) (password : String) : Prop where
  slug : ∀ now, isTenantSlug (env.authAt now) tenant.slug = true
  was : WasAccount env start acts a
  tenant : a.tenantId = tenant.id
  enabled : a.disabledAt = none
  password : ∃ hash, a.passwordHash = some hash ∧ env.verify hash password = true

/-- And it makes this principal. -/
structure Authenticated (a : Account) (p : Principal) (typ : ActorType) (password : String) :
    Prop where
  verified : Verified env start acts p.tenant a password
  made : principalOf p.tenant a = some (p, typ)

/-- What a login has come to know by this phase. -/
def LoginKnows (audit : List (Uuid × Uuid)) : LoginPhase → Prop
  | .resolved _ tenant => ∀ now, isTenantSlug (env.authAt now) tenant.slug = true
  | .verified req tenant a => Verified env start acts tenant a req.password
  | .authenticated req a p typ => Authenticated env start acts a p typ req.password
  | .admitted req a p typ => Authenticated env start acts a p typ req.password ∧
      (env.auditFailClosed = true → (p.tenant.id, p.id) ∈ audit)
  | _ => True

/-- What stands behind a token. -/
structure Sound (audit : List (Uuid × Uuid)) (now : Time) (i : IssuedToken) : Prop where
  claims : i.claims = issueClaims env i.principal i.typ i.issuedAt i.jti
  known : Authenticated env start acts i.account i.principal i.typ i.password
  audited : env.auditFailClosed = true → (i.principal.tenant.id, i.principal.id) ∈ audit
  past : i.issuedAt ≤ now

structure LoginInv (s : LoginState) : Prop where
  logins : ∀ k, LoginKnows env start acts s.audit (s.logins k)
  issued : ∀ i ∈ s.issued, Sound env start acts s.audit s.now i

variable {env start acts} {s t : LoginState}

theorem WasAccount.later {a : Account} (h : WasAccount env start acts a) (act : LoginAct) :
    WasAccount env start (acts ++ [act]) a := by
  obtain ⟨pre, post, m, rfl, hm, ha⟩ := h
  exact ⟨pre, post ++ [act], m, List.append_assoc _ _ _, hm, ha⟩

theorem Verified.later {tenant : Tenant} {a : Account} {password : String}
    (h : Verified env start acts tenant a password) (act : LoginAct) :
    Verified env start (acts ++ [act]) tenant a password :=
  { h with was := h.was.later act }

theorem Authenticated.later {a : Account} {p : Principal} {typ : ActorType} {password : String}
    (h : Authenticated env start acts a p typ password) (act : LoginAct) :
    Authenticated env start (acts ++ [act]) a p typ password :=
  { h with verified := h.verified.later act }

theorem LoginKnows.later {audit audit' : List (Uuid × Uuid)} {phase : LoginPhase}
    (h : LoginKnows env start acts audit phase) (haudit : audit ⊆ audit') (act : LoginAct) :
    LoginKnows env start (acts ++ [act]) audit' phase := by
  cases phase with
  | resolved => exact h
  | verified => exact Verified.later h act
  | authenticated => exact Authenticated.later h act
  | admitted => exact ⟨h.1.later act, fun hclosed => haudit (h.2 hclosed)⟩
  | idle | answered | refused | failed => trivial

theorem Sound.later {audit audit' : List (Uuid × Uuid)} {now now' : Time} {i : IssuedToken}
    (h : Sound env start acts audit now i) (haudit : audit ⊆ audit') (hnow : now ≤ now')
    (act : LoginAct) : Sound env start (acts ++ [act]) audit' now' i where
  claims := h.claims
  known := h.known.later act
  audited hclosed := haudit (h.audited hclosed)
  past := h.past.trans hnow

theorem verifiedAccount_eq_some {accounts : AccountTable} {tenant : Tenant} {req : LoginRequest}
    {a : Account} (h : verifiedAccount env accounts tenant req = some a) :
    a ∈ accounts.rows ∧ a.tenantId = tenant.id ∧ a.subject = req.subject ∧ a.disabledAt = none ∧
      ∃ hash, a.passwordHash = some hash ∧ env.verify hash req.password = true := by
  obtain ⟨hfind, hright⟩ := Option.filter_eq_some_iff.mp h
  have hrow := List.find?_some hfind
  obtain ⟨htenant, hsubject⟩ := of_decide_eq_true hrow
  obtain ⟨hpassword, henabled⟩ := Bool.and_eq_true_iff.mp hright
  obtain ⟨hash, hhash, hverify⟩ := (Option.any_eq_true _ _).mp hpassword
  exact ⟨List.mem_of_find?_eq_some hfind, htenant, hsubject, Option.isNone_iff_eq_none.mp henabled,
    hash, hhash, (Bool.and_eq_true_iff.mp hverify).2⟩

theorem principalOf_eq_some {tenant : Tenant} {a : Account} {p : Principal} {typ : ActorType}
    (h : principalOf tenant a = some (p, typ)) :
    ∃ roles, a.roles.mapM Role.ofText = some roles ∧ ActorType.ofText a.actorType = some typ ∧
      p = ⟨a.id, tenant, a.subject, roles⟩ := by
  unfold principalOf at h
  split at h
  · rename_i roles typ' hroles htyp
    cases h
    exact ⟨roles, hroles, htyp, rfl⟩
  · cases h

/-! ## What a step does -/

/-- A login goes on to a phase whose knowledge it has, or accounts and clock change. -/
inductive LoginMove (env : LoginEnv) (start : LoginState) (acts : List LoginAct) (s : LoginState) :
    LoginState → Prop
  | login (t : LoginState) (k : Nat) (phase : LoginPhase)
    (hlogins : t.logins = Function.update s.logins k phase) (haudit : s.audit ⊆ t.audit)
    (hissued : t.issued = s.issued) (hnow : t.now = s.now)
    (hknows : LoginKnows env start acts t.audit phase) : LoginMove env start acts s t
  | issued (t : LoginState) (k : Nat) (token : String) (i : IssuedToken)
    (hlogins : t.logins = Function.update s.logins k (.answered token)) (haudit : t.audit = s.audit)
    (hissued : t.issued = s.issued ++ [i]) (hnow : t.now = s.now)
    (hsound : Sound env start acts s.audit s.now i) : LoginMove env start acts s t
  | beside (t : LoginState) (hlogins : t.logins = s.logins) (haudit : t.audit = s.audit)
    (hissued : t.issued = s.issued) (hnow : s.now ≤ t.now) : LoginMove env start acts s t

/-- A phase in which nothing is known. -/
theorem LoginMove.ended {k : Nat} {phase : LoginPhase}
    (hlogins : t.logins = Function.update s.logins k phase) (haudit : t.audit = s.audit)
    (hissued : t.issued = s.issued) (hnow : t.now = s.now)
    (hphase : LoginKnows env start acts t.audit phase) : LoginMove env start acts s t :=
  .login t k phase hlogins (haudit ▸ fun _ h => h) hissued hnow hphase

theorem loginStep_move {act : LoginAct} (hs : Reaches (loginStep env) start acts s)
    (h : ∀ k, LoginKnows env start acts s.audit (s.logins k))
    (hstep : loginStep env s act = some t) : LoginMove env start acts s t := by
  cases act with
  | resolve k req =>
    simp only [loginStep] at hstep
    split at hstep
    · split at hstep
      · cases hstep
        exact .ended rfl rfl rfl rfl trivial
      · split at hstep
        · rename_i tenant _ hslug
          cases hstep
          exact .ended rfl rfl rfl rfl (fun now => hslug)
        · cases hstep
          exact .ended rfl rfl rfl rfl trivial
    · cases hstep
  | verify k =>
    have hknown := h k
    simp only [loginStep] at hstep
    split at hstep
    · rename_i req tenant hk
      rw [hk] at hknown
      split at hstep
      · cases hstep
        exact .ended rfl rfl rfl rfl trivial
      · rename_i a ha
        cases hstep
        obtain ⟨hmem, htenant, -, henabled, hpassword⟩ := verifiedAccount_eq_some ha
        exact .ended rfl rfl rfl rfl
          ⟨hknown, ⟨acts, [], s, (List.append_nil _).symm, hs, hmem⟩, htenant, henabled, hpassword⟩
    · cases hstep
  | rehash k salt =>
    have hknown := h k
    simp only [loginStep] at hstep
    split at hstep
    · rename_i req tenant a hk
      rw [hk] at hknown
      split at hstep
      · cases hstep
        exact .ended rfl rfl rfl rfl trivial
      · rename_i p typ hp
        cases hstep
        obtain ⟨roles, -, -, rfl⟩ := principalOf_eq_some hp
        exact .ended rfl rfl rfl rfl ⟨hknown, hp⟩
    · cases hstep
  | audit k up =>
    have hknown := h k
    simp only [loginStep] at hstep
    split at hstep
    · rename_i req a p typ hk
      rw [hk] at hknown
      split at hstep
      · cases hstep
        exact .login _ k _ rfl (List.subset_append_left _ _) rfl rfl
          ⟨hknown, fun _ => List.mem_append_right _ List.mem_cons_self⟩
      · split at hstep
        · cases hstep
          exact .ended rfl rfl rfl rfl trivial
        · rename_i hopen
          cases hstep
          exact .ended rfl rfl rfl rfl ⟨hknown, fun hclosed => absurd hclosed hopen⟩
    · cases hstep
  | issue k jti =>
    have hknown := h k
    simp only [loginStep] at hstep
    split at hstep
    · rename_i req a p typ hk
      rw [hk] at hknown
      cases hstep
      exact .issued _ k _ _ rfl rfl rfl rfl ⟨rfl, hknown.1, hknown.2, le_rfl⟩
    · cases hstep
  | stop k =>
    cases hstep
    exact .ended rfl rfl rfl rfl trivial
  | tick later =>
    simp only [loginStep] at hstep
    split at hstep
    · cases hstep
      exact .beside _ rfl rfl rfl ‹_›
    · cases hstep
  | administer tenants accounts =>
    cases hstep
    exact .beside _ rfl rfl rfl le_rfl

theorem LoginInv.step {act : LoginAct} (h : LoginInv env start acts s)
    (hs : Reaches (loginStep env) start acts s) (hstep : loginStep env s act = some t) :
    LoginInv env start (acts ++ [act]) t := by
  cases loginStep_move hs h.logins hstep with
  | login k phase hlogins haudit hissued hnow hknows =>
    constructor
    · intro k'
      rw [hlogins]
      by_cases hk : k' = k
      · rw [hk, Function.update_self]
        exact hknows.later (fun _ hx => hx) act
      · rw [Function.update_of_ne hk]
        exact (h.logins k').later haudit act
    · intro i hi
      exact (h.issued i (hissued ▸ hi)).later haudit hnow.ge act
  | issued k token i hlogins haudit hissued hnow hsound =>
    have hsame : s.audit ⊆ t.audit := haudit ▸ fun _ hx => hx
    constructor
    · intro k'
      rw [hlogins]
      by_cases hk : k' = k
      · rw [hk, Function.update_self]
        trivial
      · rw [Function.update_of_ne hk]
        exact (h.logins k').later hsame act
    · intro j hj
      rw [hissued] at hj
      rcases List.mem_append.mp hj with hold | hnew
      · exact (h.issued j hold).later hsame hnow.ge act
      · cases List.mem_singleton.mp hnew
        exact hsound.later hsame hnow.ge act
  | beside hlogins haudit hissued hnow =>
    have hsame : s.audit ⊆ t.audit := haudit ▸ fun _ hx => hx
    constructor
    · intro k
      rw [hlogins]
      exact (h.logins k).later hsame act
    · intro i hi
      exact (h.issued i (hissued ▸ hi)).later hsame hnow act

theorem loginInv_run {tenants : Table Tenant Tenant.slug} {accounts : AccountTable} {now : Time}
    (h : Reaches (loginStep env) (.initial tenants accounts now) acts s) :
    LoginInv env (.initial tenants accounts now) acts s := by
  induction acts using List.reverseRecOn generalizing s with
  | nil =>
    cases reaches_nil.mp h
    exact ⟨fun _ => trivial, fun i hi => absurd hi List.not_mem_nil⟩
  | append_singleton acts act ih =>
    obtain ⟨m, hm, hstep⟩ := reaches_snoc.mp h
    exact (ih hm).step hm hstep

/-! ## Whoever is accepted -/

/-- The login behind a principal that is accepted at this time. -/
structure LoggedIn (env : LoginEnv) (start : LoginState) (acts : List LoginAct) (s : LoginState)
    (p : Principal) (i : IssuedToken) : Prop where
  was : WasAccount env start acts i.account
  same : i.account.id = p.id ∧ i.account.tenantId = p.tenant.id ∧ i.account.subject = p.subject
  enabled : i.account.disabledAt = none
  password : ∃ hash, i.account.passwordHash = some hash ∧ env.verify hash i.password = true
  fresh : i.issuedAt ≤ s.now ∧ s.now < i.issuedAt + env.accessTokenTtlSeconds
  audited : env.auditFailClosed = true → (p.tenant.id, p.id) ∈ s.audit

/-- Whatever is administered meanwhile: a token that was not made by somebody else is accepted for a
principal that logged in with its password, less than the lifetime of a token ago, in the tenant
the token names. As far as rows are looked at it is enabled still, and has the roles it has now. -/
theorem accepted_logged_in (hlawful : env.Lawful) {tenants : Table Tenant Tenant.slug}
    {accounts : AccountTable} {now : Time}
    (h : Reaches (loginStep env) (.initial tenants accounts now) acts s) {token : String}
    (hsigned : ∀ c, env.signed token = some c → ∃ i ∈ s.issued, i.claims = c) {p : Principal}
    (haccepted : decodeToken (env.authAt s.now) (some (principalsOf s.accounts)) token = .ok p) :
    (∃ i ∈ s.issued, LoggedIn env (.initial tenants accounts now) acts s p i ∧
      (env.verifyPrincipalState = false → ∃ roles, i.account.roles.mapM Role.ofText = some roles ∧
        ∀ role, role ∈ p.roles ↔ role ∈ roles)) ∧
      (env.verifyPrincipalState = true → CurrentlyEnabled (some (principalsOf s.accounts)) p) := by
  refine ⟨?_, fun hverify => enabled_of_decodeToken haccepted hverify⟩
  -- only a token that verifies is accepted
  obtain ⟨claims, hclaims⟩ : ∃ claims, env.signed token = some claims := by
    cases hnone : env.signed token with
    | some claims => exact ⟨claims, rfl⟩
    | none =>
      have hdecode : (env.authAt s.now).jwtDecode token = none := by
        simp only [LoginEnv.authAt, hnone, Option.filter_none, Option.map_none]
      rw [decodeToken, hdecode] at haccepted
      cases haccepted
  obtain ⟨i, hi, rfl⟩ := hsigned claims hclaims
  have hsound := (loginInv_run h).issued i hi
  have hsame : decodeToken (env.authAt s.now) (some (principalsOf s.accounts)) token =
      decodeToken (env.authAt s.now) (some (principalsOf s.accounts)) (env.encode i.claims) := by
    simp only [decodeToken, LoginEnv.authAt, hclaims, hlawful.signed_encode]
  rw [hsame, hsound.claims, decode_issued_iff hlawful (hsound.known.verified.slug s.now)]
    at haccepted
  obtain ⟨⟨-, hexpires⟩, hstands⟩ := haccepted
  obtain ⟨roles, hroles, -, hprincipal⟩ := principalOf_eq_some hsound.known.made
  have hlogged : ∀ p' : Principal, p'.id = i.principal.id ∧
      p'.tenant = i.principal.tenant ∧ p'.subject = i.principal.subject →
      LoggedIn env (.initial tenants accounts now) acts s p' i := by
    rintro p' ⟨hid, htenant, hsubject⟩
    refine ⟨hsound.known.verified.was, ⟨?_, ?_, ?_⟩, hsound.known.verified.enabled,
      hsound.known.verified.password, ⟨hsound.past, hexpires.trans_le (Int.floor_le _)⟩, ?_⟩
    · rw [hid, hprincipal]
    · rw [htenant, hsound.known.verified.tenant]
    · rw [hsubject, hprincipal]
    · rw [htenant, hid]
      exact hsound.audited
  refine ⟨i, hi, ?_⟩
  by_cases hverify : env.verifyPrincipalState = true
  · rw [if_pos hverify] at hstands
    obtain ⟨row, -, -, -, -, -, -, roles', -, rfl⟩ := hstands
    exact ⟨hlogged _ ⟨rfl, rfl, rfl⟩,
      fun hfalse => absurd (hverify.symm.trans hfalse) Bool.noConfusion⟩
  · rw [if_neg hverify] at hstands
    subst hstands
    refine ⟨hlogged _ ⟨rfl, rfl, rfl⟩, fun _ => ⟨roles, hroles, ?_⟩⟩
    intro role
    rw [mem_sortedRoles, hprincipal]

/-- Whatever is administered meanwhile: a token is accepted exactly until it expires, as long as the
row of its principal is enabled and still says the same of it. It then stands for the roles the row
has now; where rows are not looked at, for those the account had when it logged in. -/
theorem issued_accepted_iff (hlawful : env.Lawful) {tenants : Table Tenant Tenant.slug}
    {accounts : AccountTable} {now : Time}
    (h : Reaches (loginStep env) (.initial tenants accounts now) acts s) {i : IssuedToken}
    (hi : i ∈ s.issued) (p : Principal) :
    decodeToken (env.authAt s.now) (some (principalsOf s.accounts)) (env.encode i.claims) = .ok p ↔
      s.now < ⌊i.issuedAt + env.accessTokenTtlSeconds⌋ ∧
        if env.verifyPrincipalState then StandsFor (principalsOf s.accounts) i.principal i.typ p
        else p = ⟨i.principal.id, i.principal.tenant, i.principal.subject,
            sortedRoles i.principal.roles⟩ := by
  have hsound := (loginInv_run h).issued i hi
  have hissued : (⌊i.issuedAt⌋ : Time) ≤ s.now := (Int.floor_le _).trans hsound.past
  rw [hsound.claims, decode_issued_iff hlawful (hsound.known.verified.slug s.now)]
  simp only [hissued, true_and]

end

/-! ## A token that outlives a role

Claims in the clear stand for tokens, and passwords for their hashes. -/

def unary (n : Nat) : Json := .arr (List.replicate n .null)

def unaryInt : Int → Json
  | .ofNat n => .arr [unary n]
  | .negSucc n => .arr [.null, unary n]

def claimsJson (c : SignedClaims) : Json :=
  .arr [.str c.sub, .str c.tid, .str c.tsl, .str c.sbj, .arr (c.rol.map .str), .str c.typ,
    unaryInt c.iat, unaryInt c.nbf, unaryInt c.exp, .str c.iss, .str c.aud, unary c.jti]

def textOf : Json → String
  | .str text => text
  | _ => ""

def ofUnary : Json → Nat
  | .arr items => items.length
  | _ => 0

def ofUnaryInt : Json → Int
  | .arr [n] => .ofNat (ofUnary n)
  | .arr [_, n] => .negSucc (ofUnary n)
  | _ => 0

def claimsOf : Json → Option SignedClaims
  | .arr [sub, tid, tsl, sbj, .arr rol, typ, iat, nbf, exp, iss, aud, jti] =>
    some ⟨⟨textOf sub, textOf tid, textOf tsl, textOf sbj, rol.map textOf, textOf typ⟩,
      ofUnaryInt iat, ofUnaryInt nbf, ofUnaryInt exp, textOf iss, textOf aud, ofUnary jti⟩
  | _ => none

theorem ofUnary_sortKeys (n : Nat) : ofUnary (Json.sortKeys (unary n)) = n := by
  rw [unary, Json.sortKeys, Json.sortItems_eq_map, ofUnary, List.length_map, List.length_replicate]

theorem ofUnaryInt_sortKeys (n : Int) : ofUnaryInt (Json.sortKeys (unaryInt n)) = n := by
  cases n <;> simp [unaryInt, Json.sortKeys, Json.sortItems, ofUnaryInt, ofUnary_sortKeys]

theorem claimsOf_sortKeys (c : SignedClaims) :
    claimsOf (Json.sortKeys (claimsJson c)) = some c := by
  have hroles : (Json.sortItems (c.rol.map .str)).map textOf = c.rol := by
    rw [Json.sortItems_eq_map, List.map_map, List.map_map]
    exact List.map_id _
  simp only [claimsJson, Json.sortKeys, Json.sortItems, claimsOf, textOf, hroles, ofUnary_sortKeys,
    ofUnaryInt_sortKeys]

def openLogins : LoginEnv where
  encode c := (claimsJson c).dumps
  signed token := (Json.loads token).bind claimsOf
  uuidText id := String.ofList (List.replicate id 'a')
  parseUuid text := some text.toList.length
  isAlnum := Char.isAlphanum
  verify hash password := hash = "old " ++ password || hash = password
  checkNeedsRehash hash := "old ".isPrefixOf hash
  hash password _ := password
  jwtIssuer := "local-platform"
  jwtAudience := "local-platform-api"
  accessTokenTtlSeconds := 3600
  verifyPrincipalState := true
  auditFailClosed := true

theorem openLogins_lawful : openLogins.Lawful where
  signed_encode c := by
    simp only [openLogins, Json.loads_dumps, Option.bind_some, claimsOf_sortKeys]
  parse_text id := by
    simp only [openLogins, String.toList_ofList, List.length_replicate]

def acme : Tenant := ⟨1, "acme"⟩

def aliceRow (roles : List String) (passwordHash : String) : Account :=
  ⟨⟨7, 1, "alice", "human", roles, none⟩, some passwordHash⟩

def aliceAccounts (roles : List String) (passwordHash : String) : AccountTable :=
  ⟨[aliceRow roles passwordHash], List.nodup_singleton _⟩

def acmeTenants : Table Tenant Tenant.slug := ⟨[acme], List.nodup_singleton _⟩

def aliceRequest : LoginRequest := ⟨"acme", "alice", "correct horse"⟩

/-- She is made a viewer while her token is good; somebody else fails to guess her password. -/
def demoted : List LoginAct :=
  [.resolve 0 aliceRequest, .resolve 1 ⟨"acme", "alice", "a guess"⟩, .verify 0,
    .verify 1, .rehash 0 3, .audit 0 true, .tick 10, .issue 0 5,
    .administer acmeTenants (aliceAccounts ["viewer"] "correct horse"), .tick 3000]

def beforeLogin : LoginState := .initial acmeTenants (aliceAccounts ["owner"] "old correct horse") 0

theorem demoted_run : (demoted.foldlM (loginStep openLogins) beforeLogin).isSome = true := by
  decide +kernel

def afterDemotion : LoginState :=
  (demoted.foldlM (loginStep openLogins) beforeLogin).get demoted_run

def alice (roles : List Role) : Principal := ⟨7, acme, "alice", roles⟩

theorem alice_issued :
    ∃ i ∈ afterDemotion.issued, i.principal = alice [.owner] ∧ i.typ = .human ∧
      i.issuedAt = 10 := by
  have hany : afterDemotion.issued.any
      (fun i => i.principal = alice [.owner] ∧ i.typ = .human ∧ i.issuedAt = 10) =
      true := by
    decide +kernel
  obtain ⟨i, hi, hlogin⟩ := List.any_eq_true.mp hany
  exact ⟨i, hi, of_decide_eq_true hlogin⟩

theorem afterDemotion_rows :
    afterDemotion.now = 3000 ∧
      principalsOf afterDemotion.accounts =
      principalsOf (aliceAccounts ["viewer"] "correct horse") := by
  constructor
  · decide +kernel
  · rfl

theorem issued_accepted_iff_demoted :
    ∃ i ∈ afterDemotion.issued, ∀ p,
      decodeToken (openLogins.authAt afterDemotion.now) (some (principalsOf afterDemotion.accounts))
      (openLogins.encode i.claims) = .ok p ↔ afterDemotion.now < ⌊i.issuedAt + 3600⌋ ∧
      StandsFor (principalsOf afterDemotion.accounts) i.principal i.typ p := by
  obtain ⟨i, hi, -⟩ := alice_issued
  exact ⟨i, hi, issued_accepted_iff openLogins_lawful (reaches_get demoted_run) hi⟩

theorem alice_accepted :
    ∃ i ∈ afterDemotion.issued,
      decodeToken (openLogins.authAt afterDemotion.now)
      (some (principalsOf afterDemotion.accounts)) (openLogins.encode i.claims) =
      .ok (alice [.viewer]) := by
  obtain ⟨i, hi, hprincipal, htyp, hat⟩ := alice_issued
  have hsound := (loginInv_run (reaches_get demoted_run)).issued i hi
  refine ⟨i, hi, ?_⟩
  rw [hsound.claims, decode_issued_iff openLogins_lawful (hsound.known.verified.slug _), hprincipal,
    htyp, hat, afterDemotion_rows.1, afterDemotion_rows.2]
  refine ⟨by decide +kernel, (aliceRow ["viewer"] "correct horse").toPrincipalRow,
    List.mem_singleton_self _, rfl, rfl, rfl, rfl, rfl, [.viewer], rfl, rfl⟩

theorem accepted_logged_in_demoted :
    (∃ i ∈ afterDemotion.issued,
      LoggedIn openLogins beforeLogin demoted afterDemotion (alice [.viewer]) i ∧
      (openLogins.verifyPrincipalState = false →
        ∃ roles, i.account.roles.mapM Role.ofText = some roles ∧
        ∀ role, role ∈ (alice [.viewer]).roles ↔ role ∈ roles)) ∧
      (openLogins.verifyPrincipalState = true →
        CurrentlyEnabled (some (principalsOf afterDemotion.accounts)) (alice [.viewer])) := by
  obtain ⟨i, hi, haccepted⟩ := alice_accepted
  refine accepted_logged_in openLogins_lawful (reaches_get demoted_run) ?_ haccepted
  intro c hc
  exact ⟨i, hi, Option.some.inj ((openLogins_lawful.signed_encode i.claims).symm.trans hc)⟩

end AgenticPlatform.Identity
