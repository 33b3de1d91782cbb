import AgenticPlatform.Db.Engine

/-!
# Tenant scope

What the pool holds carries no tenant. A connection in use carries the tenant of its own
use, from the `set_config` of the session until a transaction ends on it, so a statement
meets the rows of that tenant or none. Only a function that runs as the owner of the tables
meets others; it observes the setting of its own session all the same.
-/
namespace AgenticPlatform.Db
open AgenticPlatform.Foundation AgenticPlatform.Identity

variable {ρ : Type*} {owner : ρ → Uuid} {c c' : Conn} {u : Use} {s t : PoolState ρ} {n : Nat}

/-! ## Connections -/

/-- A connection as it lies in the pool. -/
structure Conn.Clean (c : Conn) : Prop where
  blank : c.tenant.Blank
  unset : c.tenant.local_ = none
  savepoints : c.savepoints = []

/-- A connection in the hands of a use. -/
structure Use.Fits (u : Use) (c : Conn) : Prop where
  blank : c.tenant.Blank
  savepoints : ∀ saved ∈ c.savepoints, saved = c.tenant
  own : ∀ v, c.tenant.local_ = some v → u.ended = false ∧ ∃ id, u.scope = .tenant id ∧ v = .of id

theorem clean_new : Conn.new.Clean := ⟨Setting.blank_initial, rfl, rfl⟩

theorem clean_rolledBack (h : c.tenant.Blank) : c.rolledBack.Clean := ⟨h.rollback, rfl, rfl⟩

theorem clean_ended (h : c.tenant.Blank) (commit : Bool) : (c.ended commit).Clean := by
  unfold Conn.ended Conn.committed
  split
  · split
    · exact clean_rolledBack h
    · exact ⟨h.commit, rfl, rfl⟩
  · exact clean_rolledBack h

theorem Conn.Clean.fits (h : c.Clean) (u : Use) : u.Fits c where
  blank := h.blank
  savepoints := by simp [h.savepoints]
  own := by simp [h.unset]

/-- A change of the transaction's status is none of the setting. -/
theorem Use.Fits.of_tenant (h : u.Fits c) (htenant : c'.tenant = c.tenant)
    (hsaved : ∀ saved ∈ c'.savepoints, saved = c.tenant) : u.Fits c' where
  blank := htenant ▸ h.blank
  savepoints := by rwa [htenant]
  own := by rw [htenant]; exact h.own

theorem fits_configured {phase : Phase} (h : c.Clean) (hended : u.ended = false) :
    Use.Fits { u with phase := phase, conn := some (configured c u.scope) }
      (configured c u.scope) := by
  have hsaved : (configured c u.scope).savepoints = [] := by
    cases hscope : u.scope <;> exact h.savepoints
  refine ⟨?_, by simp [hsaved], ?_⟩
  · cases hscope : u.scope with
    | tenant id => exact h.blank.setLocal _
    | system => exact h.blank
  · cases hscope : u.scope with
    | tenant id =>
      intro v hv
      cases hv
      exact ⟨hended, id, rfl, rfl⟩
    | system =>
      intro v hv
      exact absurd (h.unset.symm.trans hv) (by simp)

/-! ## Statements -/

/-- The transaction of the session has ended in its body, or had no tenant from the start. -/
def Access.Untenanted (e : Access ρ) : Prop := e.ended = true ∨ e.scope = .system

/-- The setting that a statement observes is its own or nobody's; where it runs as the role
itself, it meets rows of its own tenant, and none where there is no tenant. -/
structure Access.Scoped (owner : ρ → Uuid) (e : Access ρ) : Prop where
  own : e.touch.asOwner = false → ∀ id, e.scope = .tenant id → ∀ r ∈ e.touch.rows, owner r = id
  none_ : e.touch.asOwner = false → e.Untenanted → e.touch.rows = []
  unset : e.Untenanted → e.touch.observed.nullif = none
  observed : e.touch.observed.nullif = none ∨ ∃ id, e.scope = .tenant id ∧
    e.touch.observed.nullif = some id

/-- Whom the setting names. -/
theorem Use.Fits.nullif (h : u.Fits c) :
    c.tenant.current.nullif = none ∨ u.ended = false ∧ ∃ id, u.scope = .tenant id ∧
      c.tenant.current.nullif = some id := by
  rw [h.blank.nullif_current]
  cases hlocal : c.tenant.local_ with
  | none => exact Or.inl rfl
  | some v =>
    obtain ⟨hended, id, hscope, rfl⟩ := h.own v hlocal
    exact Or.inr ⟨hended, id, hscope, rfl⟩

/-- A use without a tenant of its own observes none. -/
theorem Use.Fits.unset (h : u.Fits c) (hnone : u.ended = true ∨ u.scope = .system) :
    c.tenant.current.nullif = none := by
  rcases h.nullif with hunset | ⟨hended, id, hscope, -⟩
  · exact hunset
  · rcases hnone with hended' | hsystem
    · exact absurd (hended.symm.trans hended') (by simp)
    · exact absurd (hscope.symm.trans hsystem) (by simp)

theorem Use.Fits.observed (h : u.Fits c) :
    c.tenant.current.nullif = none ∨ ∃ id, u.scope = .tenant id ∧
      c.tenant.current.nullif = some id := by
  rcases h.nullif with hunset | ⟨-, id, hscope, hid⟩
  · exact Or.inl hunset
  · exact Or.inr ⟨id, hscope, hid⟩

/-- What the policies let through is of the tenant that the setting names. -/
theorem scoped_of_owner (h : u.Fits c) {read written : List ρ}
    (hrows : ∀ r ∈ read ++ written, c.tenant.current.nullif = some (owner r)) :
    Access.Scoped owner ⟨u.scope, u.ended, c.tenant.current, read, written, false⟩ where
  own _ id hscope r hr := by
    have howner := hrows r hr
    rcases h.observed with hnone | ⟨id', hscope', hid⟩
    · exact absurd (hnone.symm.trans howner) (by simp)
    · cases hscope.symm.trans hscope'
      exact Option.some.inj (howner.symm.trans hid)
  none_ _ hnone := by
    refine List.eq_nil_iff_forall_not_mem.mpr ?_
    intro r hr
    exact absurd ((h.unset hnone).symm.trans (hrows r hr)) (by simp)
  unset := h.unset
  observed := h.observed

/-- What runs as the owner may meet any row, but observes no other setting. -/
theorem scoped_of_definer (h : u.Fits c) (read written : List ρ) :
    Access.Scoped owner ⟨u.scope, u.ended, c.tenant.current, read, written, true⟩ where
  own hrole := by cases hrole
  none_ hrole := by cases hrole
  unset := h.unset
  observed := h.observed

def Statement.keepsTenant : Statement ρ → Bool
  | .setTenant _ _ => false
  | _ => true

theorem fits_savepointOp (h : u.Fits c) (st : Statement ρ) : u.Fits (c.begun.savepointOp st) := by
  cases st with
  | savepoint =>
    refine h.of_tenant rfl ?_
    intro saved hsaved
    rcases List.mem_cons.mp hsaved with rfl | hsaved
    · rfl
    · exact h.savepoints saved hsaved
  | rollbackToSavepoint =>
    simp only [Conn.savepointOp, Conn.begun]
    split
    · rename_i saved rest hsaves
      have hsaved : saved = c.tenant :=
        h.savepoints saved (by rw [hsaves]; exact List.mem_cons_self)
      exact h.of_tenant hsaved (fun x hx => h.savepoints x hx)
    · exact h.of_tenant rfl h.savepoints
  | releaseSavepoint =>
    simp only [Conn.savepointOp, Conn.begun]
    split
    · rename_i saved rest hsaves
      exact h.of_tenant rfl
        (fun x hx => h.savepoints x (by rw [hsaves]; exact List.mem_cons_of_mem _ hx))
    · exact h.of_tenant rfl h.savepoints
  | _ => exact h.of_tenant rfl h.savepoints

theorem fits_runStatement {st : Statement ρ} {rows : List ρ} {touch : Option (Touch ρ)}
    (h : u.Fits c) (hkeeps : st.keepsTenant = true)
    (hrun : runStatement owner c rows st = (c', touch)) :
    (u.ran c' st).Fits c' ∧ ∀ x ∈ touch, Access.Scoped owner ⟨u.scope, u.ended, x⟩ := by
  have hfits : ∀ conn, u.Fits conn → (∀ commit, st ≠ .endTransaction commit) →
      (u.ran conn st).Fits conn := by
    intro conn hconn hst
    refine ⟨hconn.blank, hconn.savepoints, ?_⟩
    intro v hv
    obtain ⟨hended, howner⟩ := hconn.own v hv
    refine ⟨?_, howner⟩
    unfold Use.ran
    cases st <;> simp_all
  cases st with
  | endTransaction commit =>
    cases hrun
    exact ⟨(clean_ended h.blank commit).fits _, by simp⟩
  | rollbackToSavepoint =>
    cases hrun
    exact ⟨hfits _ (fits_savepointOp h _) (by simp), by simp⟩
  | failing =>
    cases hrun
    exact ⟨hfits _ (h.of_tenant rfl h.savepoints) (by simp), by simp⟩
  | access write =>
    simp only [runStatement] at hrun
    split at hrun
    · cases hrun
      exact ⟨hfits _ h (by simp), by simp⟩
    · split at hrun
      · rename_i hwritable
        cases hrun
        refine ⟨hfits _ (h.of_tenant rfl h.savepoints) (by simp), ?_⟩
        rintro x ⟨rfl⟩
        refine scoped_of_owner h ?_
        intro r hr
        rcases List.mem_append.mp hr with hr | hr
        · exact owner_of_visible hr
        · exact owner_of_writable hwritable hr
      · cases hrun
        refine ⟨hfits _ (h.of_tenant rfl h.savepoints) (by simp), ?_⟩
        rintro x ⟨rfl⟩
        refine scoped_of_owner h ?_
        intro r hr
        rw [List.append_nil] at hr
        exact owner_of_visible hr
  | definer select write =>
    simp only [runStatement] at hrun
    split at hrun
    · cases hrun
      exact ⟨hfits _ h (by simp), by simp⟩
    · cases hrun
      refine ⟨hfits _ (h.of_tenant rfl h.savepoints) (by simp), ?_⟩
      rintro x ⟨rfl⟩
      exact scoped_of_definer h (select rows) (write (select rows))
  | setTenant => cases hkeeps
  | savepoint | releaseSavepoint =>
    simp only [runStatement] at hrun
    split at hrun
    · cases hrun
      exact ⟨hfits _ h (by simp), by simp⟩
    · cases hrun
      exact ⟨hfits _ (fits_savepointOp h _) (by simp), by simp⟩

/-! ## The pool -/

/-- What a use may look like. -/
structure Use.Ok (u : Use) : Prop where
  fits : ∀ c, u.conn = some c → u.Fits c
  entering : u.phase = .entering → u.ended = false ∧ ∀ c, u.conn = some c → c.Clean

structure PoolInv (owner : ρ → Uuid) (s : PoolState ρ) : Prop where
  idle : ∀ c ∈ s.idle, c.Clean
  uses : ∀ n u, s.uses n = some u → u.Ok
  log : ∀ e ∈ s.log, e.Scoped owner

theorem poolInv_initial : PoolInv owner (PoolState.initial : PoolState ρ) where
  idle := by simp [PoolState.initial]
  uses := by simp [PoolState.initial]
  log := by simp [PoolState.initial]

theorem Use.Ok.of_clean (hconn : ∀ c, u.conn = some c → c.Clean)
    (hentering : u.phase = .entering → u.ended = false) : u.Ok :=
  ⟨fun c hc => (hconn c hc).fits u, fun hphase => ⟨hentering hphase, hconn⟩⟩

/-- Beyond the first phase only the connection matters. -/
theorem Use.Ok.of_fits (hphase : u.phase ≠ .entering) (hfits : ∀ c, u.conn = some c → u.Fits c) :
    u.Ok :=
  ⟨hfits, fun h => absurd h hphase⟩

theorem Use.Fits.of_use {u' : Use} (h : u.Fits c) (hscope : u'.scope = u.scope)
    (hended : u'.ended = u.ended) : u'.Fits c :=
  ⟨h.blank, h.savepoints, by rw [hscope, hended]; exact h.own⟩

theorem poolInv_setUse {o : Option Use} (h : PoolInv owner s) (ho : ∀ u, o = some u → u.Ok) :
    PoolInv owner (s.setUse n o) where
  idle := h.idle
  uses := by
    intro m u hu
    rcases update_cases hu with ⟨-, hu⟩ | ⟨-, hu⟩
    · exact ho u hu
    · exact h.uses m u hu
  log := h.log

theorem poolInv_giveBack (h : PoolInv owner s) (hu : ∀ c, u.conn = some c → c.tenant.Blank)
    (hphase : u.phase ≠ .entering) (commit : Bool) : PoolInv owner (s.giveBack n u commit) where
  idle := by
    intro c hc
    rcases List.mem_append.mp hc with hc | hc
    · exact h.idle c hc
    · obtain ⟨conn, hconn, rfl⟩ := Option.map_eq_some_iff.mp (Option.mem_toList.mp hc)
      exact clean_ended (hu conn hconn) commit
  uses := by
    intro m u' hu'
    rcases update_eq_some hu' with ⟨-, rfl⟩ | ⟨-, hu'⟩
    · exact .of_fits hphase nofun
    · exact h.uses m u' hu'
  log := h.log

theorem poolInv_idle {idle : List Conn} (h : PoolInv owner s) (hidle : ∀ c ∈ idle, c ∈ s.idle) :
    PoolInv owner { s with idle := idle } :=
  ⟨fun c hc => h.idle c (hidle c hc), h.uses, h.log⟩

theorem poolInv_record {touch : Option (Touch ρ)} (h : PoolInv owner s)
    (htouch : ∀ x ∈ touch, Access.Scoped owner ⟨u.scope, u.ended, x⟩) :
    PoolInv owner (s.record u touch) where
  idle := h.idle
  uses := h.uses
  log := by
    intro e he
    rcases List.mem_append.mp he with he | he
    · obtain ⟨x, hx, rfl⟩ := Option.map_eq_some_iff.mp (Option.mem_toList.mp he)
      exact htouch x hx
    · exact h.log e he

/-- The step of one use, phase by phase. -/
theorem poolInv_useStep {a : UseAct ρ} (h : PoolInv owner s) (hu : s.uses n = some u)
    (hkeeps : (PoolAct.use n a).keepsTenant = true) (hstep : useStep owner s n u a = some t) :
    PoolInv owner t := by
  have hok := h.uses n u hu
  have hblank : ∀ c, u.conn = some c → c.tenant.Blank := fun c hc => (hok.fits c hc).blank
  cases a with
  | checkout i =>
    simp only [useStep, Option.ite_none_right_eq_some, Option.map_eq_some_iff] at hstep
    obtain ⟨-, conn, hconn, rfl⟩ := hstep
    have hclean := h.idle conn (List.mem_of_getElem? hconn)
    refine poolInv_setUse (poolInv_idle h (fun c => List.mem_of_mem_eraseIdx)) ?_
    rintro u' ⟨rfl⟩
    exact .of_clean (by rintro c ⟨rfl⟩; exact hclean) (fun hphase => (hok.entering hphase).1)
  | connect =>
    simp only [useStep, Option.ite_none_right_eq_some, Option.some.injEq] at hstep
    obtain ⟨-, rfl⟩ := hstep
    refine poolInv_setUse h ?_
    rintro u' ⟨rfl⟩
    exact .of_clean (by rintro c ⟨rfl⟩; exact clean_new) (fun hphase => (hok.entering hphase).1)
  | configure ok =>
    simp only [useStep, Option.ite_none_right_eq_some, Option.map_eq_some_iff] at hstep
    obtain ⟨hphase, conn, hconn, rfl⟩ := hstep
    obtain ⟨hended, hclean⟩ := hok.entering hphase
    split
    · refine poolInv_setUse h ?_
      rintro u' ⟨rfl⟩
      exact .of_fits nofun (by rintro c ⟨rfl⟩; exact fits_configured (hclean conn hconn) hended)
    · refine poolInv_setUse h ?_
      rintro u' ⟨rfl⟩
      refine .of_fits nofun ?_
      rintro c ⟨rfl⟩
      have hfits := hok.fits conn hconn
      exact ⟨hfits.blank, hfits.savepoints, hfits.own⟩
  | run st rows =>
    simp only [useStep, Option.ite_none_right_eq_some, Option.map_eq_some_iff] at hstep
    obtain ⟨hphase, conn, hconn, rfl⟩ := hstep
    have hst : st.keepsTenant = true := by cases st <;> first | rfl | exact hkeeps
    obtain ⟨hfits, htouch⟩ :=
      fits_runStatement (hok.fits conn hconn) hst
        (show runStatement owner conn rows st =
          ((runStatement owner conn rows st).1, (runStatement owner conn rows st).2) from rfl)
    refine poolInv_setUse (poolInv_record h htouch) ?_
    rintro u' ⟨rfl⟩
    refine .of_fits (by simp [Use.ran, hphase]) ?_
    rintro c ⟨rfl⟩
    exact hfits
  | endTxn commit =>
    simp only [useStep, Option.ite_none_right_eq_some, Option.some.injEq] at hstep
    obtain ⟨hphase, rfl⟩ := hstep
    refine poolInv_giveBack h ?_ ?_ commit
    · exact hblank
    · simp [hphase]
  | leave =>
    simp only [useStep, Option.ite_none_right_eq_some, Option.some.injEq] at hstep
    obtain ⟨-, rfl⟩ := hstep
    refine poolInv_setUse h ?_
    rintro u' ⟨rfl⟩
    exact .of_fits nofun (fun c hc => (hok.fits c hc).of_use rfl rfl)
  | raise =>
    simp only [useStep, Option.ite_none_right_eq_some, Option.some.injEq] at hstep
    obtain ⟨-, rfl⟩ := hstep
    refine poolInv_setUse h ?_
    rintro u' ⟨rfl⟩
    exact .of_fits nofun (fun c hc => (hok.fits c hc).of_use rfl rfl)
  | interrupt =>
    cases hstep
    refine poolInv_setUse h ?_
    rintro u' ⟨rfl⟩
    exact .of_fits nofun (fun c hc => (hok.fits c hc).of_use rfl rfl)
  | commit ok =>
    simp only [useStep, Option.ite_none_right_eq_some] at hstep
    obtain ⟨-, hstep⟩ := hstep
    split at hstep
    · cases hstep
      refine poolInv_giveBack h ?_ ?_ true
      · exact hblank
      · simp
    · cases hstep
      refine poolInv_setUse h ?_
      rintro u' ⟨rfl⟩
      refine .of_clean ?_ nofun
      intro c hc
      obtain ⟨conn, hconn, rfl⟩ := Option.map_eq_some_iff.mp hc
      exact clean_rolledBack (hblank conn hconn)
  | rollback =>
    simp only [useStep, Option.ite_none_right_eq_some, Option.some.injEq] at hstep
    obtain ⟨-, rfl⟩ := hstep
    refine poolInv_giveBack h ?_ ?_ false
    · exact hblank
    · simp
  | close =>
    simp only [useStep, Option.ite_none_right_eq_some, Option.some.injEq] at hstep
    obtain ⟨hphase, rfl⟩ := hstep
    have hback := poolInv_giveBack (n := n) h hblank (by simp [hphase]) false
    exact poolInv_setUse hback (fun _ hu => by cases hu)
  | lose =>
    cases hstep
    refine poolInv_setUse h ?_
    rintro u' ⟨rfl⟩
    exact .of_clean nofun (fun hphase => (hok.entering hphase).1)

theorem poolInv_step {a : PoolAct ρ} (h : PoolInv owner s)
    (hstep : restrict (fun _ a => a.keepsTenant = true) (poolStep owner) s a = some t) :
    PoolInv owner t := by
  obtain ⟨hkeeps, hstep⟩ := restrict_eq_some.mp hstep
  cases a with
  | openUse n scope =>
    simp only [poolStep, Option.ite_none_right_eq_some, Option.some.injEq] at hstep
    obtain ⟨-, rfl⟩ := hstep
    refine poolInv_setUse h ?_
    rintro u ⟨rfl⟩
    exact .of_clean nofun (fun _ => rfl)
  | use n a =>
    obtain ⟨u, hu, hstep⟩ := Option.bind_eq_some_iff.mp hstep
    exact poolInv_useStep h hu hkeeps hstep
  | discard i =>
    cases hstep
    exact poolInv_idle h (fun c => List.mem_of_mem_eraseIdx)

/-! ## Results -/

/-- In bodies that do not set the tenant themselves a statement meets rows of the tenant of
its session, and none after the transaction ended or without a tenant, unless it runs as the
owner of the tables; and no statement observes the tenant of another use. -/
theorem tenant_scope_never_leaks {acts : List (PoolAct ρ)}
    (h : Reaches (restrict (fun _ a => a.keepsTenant = true) (poolStep owner)) .initial acts s) :
    ∀ e ∈ s.log, (e.touch.asOwner = false →
      (∀ id, e.scope = .tenant id → ∀ r ∈ e.touch.rows, owner r = id) ∧
      (e.Untenanted → e.touch.rows = [])) ∧
      (e.Untenanted → e.touch.observed.nullif = none) ∧
      (e.touch.observed.nullif = none ∨ ∃ id, e.scope = .tenant id ∧
        e.touch.observed.nullif = some id) := by
  intro e he
  have hinv : PoolInv owner s :=
    h.invariant (fun _ _ _ hs hstep => poolInv_step hs hstep) poolInv_initial
  have hscoped := hinv.log e he
  exact ⟨fun hrole => ⟨hscoped.own hrole, hscoped.none_ hrole⟩, hscoped.unset, hscoped.observed⟩

/-- `SELECT` of everything that is visible. -/
def readAll : Statement Nat := .access (fun _ => [])

/-- `SELECT platform_continuous_eval_health()`, which counts the rows of every tenant. -/
def health : Statement Nat := .definer id (fun _ => [])

/-- One connection: a use of tenant 1 reads, commits in its body and reads again; a use
without a tenant reads and asks for the health of the schedules; one of tenant 2 follows. A
row is its owner. -/
def sharedConnection : List (PoolAct Nat) :=
  [.openUse 0 (.tenant 1), .use 0 .connect, .use 0 (.configure true), .use 0 (.run readAll [1, 2]),
    .use 0 (.endTxn true), .use 0 (.checkout 0), .use 0 (.run readAll [1, 2]), .use 0 .leave,
    .use 0 (.commit true), .use 0 .close, .openUse 1 .system, .use 1 (.checkout 0),
    .use 1 (.configure true), .use 1 (.run readAll [1, 2]),
    .use 1 (.run health [1, 2]), .use 1 .raise, .use 1 .rollback, .use 1 .close,
    .openUse 2 (.tenant 2), .use 2 (.checkout 0), .use 2 (.configure true),
    .use 2 (.run readAll [1, 2])]

theorem sharedConnection_run :
    (sharedConnection.foldlM (restrict (fun _ a => a.keepsTenant = true) (poolStep id))
      .initial).isSome =
      true := by
  decide +kernel

theorem tenant_scope_shared :
    ∃ s : PoolState Nat, Reaches (restrict (fun _ a => a.keepsTenant = true) (poolStep id))
      .initial sharedConnection s ∧
      s.log.map (fun e => (e.ended, e.touch.asOwner, e.touch.read)) =
      [(false, false, [2]), (false, true, [1, 2]), (false, false, []),
        (true, false, []), (false, false, [1])] ∧
      ∀ e ∈ s.log, e.touch.asOwner = false → ∀ t, e.scope = .tenant t → ∀ r ∈ e.touch.rows, r = t :=
  ⟨_, reaches_get sharedConnection_run, by decide +kernel, fun e he hrole =>
    ((tenant_scope_never_leaks (reaches_get sharedConnection_run) e he).1 hrole).1⟩

/-- A body may set the tenant for the connection, and the next user then reads its rows. -/
def tenantSetByBody : List (PoolAct Nat) :=
  [.openUse 0 (.tenant 1), .use 0 .connect, .use 0 (.configure true),
    .use 0 (.run (.setTenant (.of 2) false) []),
    .use 0 .leave, .use 0 (.commit true), .use 0 .close, .openUse 1 .system, .use 1 (.checkout 0),
    .use 1 (.configure true), .use 1 (.run readAll [1, 2])]

theorem tenantSetByBody_run : (tenantSetByBody.foldlM (poolStep id) .initial).isSome = true := by
  decide +kernel

/-- The readiness probe: a use without a tenant, and all it does is to ask for the health. -/
def readinessProbe : List (PoolAct Nat) :=
  [.openUse 0 .system, .use 0 .connect, .use 0 (.configure true), .use 0 (.run health [1, 2])]

theorem readinessProbe_run :
    (readinessProbe.foldlM (restrict (fun _ a => a.keepsTenant = true) (poolStep id))
      .initial).isSome =
      true := by
  decide +kernel

/-- It touches rows of two tenants; and a body that sets the tenant shows its rows to the
next use. -/
theorem any_body_leaks :
    (¬ ∀ (acts : List (PoolAct Nat)) s,
      Reaches (restrict (fun _ a => a.keepsTenant = true) (poolStep id)) .initial acts s →
      ∀ e ∈ s.log, e.ended = true ∨ e.scope = .system → e.touch.rows = []) ∧
    ¬ ∀ (acts : List (PoolAct Nat)) s, Reaches (poolStep id) .initial acts s →
      ∀ e ∈ s.log, e.ended = true ∨ e.scope = .system → e.touch.observed.nullif = none := by
  constructor
  · intro h
    have hall := h readinessProbe _ (reaches_get readinessProbe_run)
    revert hall
    decide +kernel
  · intro h
    have hall := h tenantSetByBody _ (reaches_get tenantSetByBody_run)
    revert hall
    decide +kernel

end AgenticPlatform.Db
