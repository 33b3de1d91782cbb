import AgenticPlatform.Foundation.Transition
import AgenticPlatform.Onboarding.Drafting

/-!
# The run of a draft

A request that inserts a session is answered with a run: a new one, or whichever run of
the tenant carries the idempotency key.
-/
namespace AgenticPlatform.Onboarding
open AgenticPlatform.Foundation AgenticPlatform.Identity AgenticPlatform.Db
  AgenticPlatform.Correctness

/-- An idle worker that leases the run drafts the session. -/
def Draftable (env : DraftingEnv) (s : DraftingState) (runId sessionId : Uuid) : Prop :=
  ∀ worker, worker ∉ s.execs.keys → ∀ lease, ∃ now t,
    Reaches (draftingStep env) s
    [.acquire now (.acquireSpecific env.tenant runId worker lease), .enter worker,
      .progress worker .null now, .ready worker [] now] t ∧
    t.db.statusOf sessionId = some .draftReady

/-- The session references a run that drafts it, and that is not over. -/
def HasRun (env : DraftingEnv) (s : DraftingState) (x : SessionRow) : Prop :=
  ∃ r ∈ s.store.run.rows, x.runId = some r.id ∧ r.workload = workload ∧
    sessionIdOf env r.input = some x.id ∧ r.status.terminal = false ∧ Draftable env s r.id x.id

/-- Every session the step puts under draft has its run. -/
def DraftsHaveRuns (env : DraftingEnv) (s : DraftingState) (_ : DraftingAct) (t : DraftingState) :
    Prop :=
  ∀ x ∈ t.db.sessions.rows, x.status = .drafting → x.id ∉ s.db.sessions.keys → HasRun env t x

/-- No run of the tenant carries the key of a request that inserts a session. -/
def keyFree (env : DraftingEnv) (s : DraftingState) : DraftingAct → Prop
  | .start ctx q newId _ _ _ _ _ => s.db.drafts q.domain ∨
    runWithKey s.store.run env.tenant.id (draftRequest env ctx newId q).key = none
  | _ => True

instance (env : DraftingEnv) (s : DraftingState) : (a : DraftingAct) → Decidable (keyFree env s a)
  | .start .. => inferInstanceAs (Decidable (_ ∨ _))
  | .decide .. | .work .. | .acquire .. | .enter _ | .raise .. | .empty .. | .progress .. |
    .except .. | .ready ..
  | .settle .. | .crash _ => isTrue trivial

section
variable {env : DraftingEnv} {s t : DraftingState} {a : DraftingAct}

theorem keys_demoted (db : OnboardingDb) (id : Uuid) (now : Time) (d : Decision) :
    (db.demoted id now d).keys = db.sessions.keys := by
  cases d with
  | cancel => rfl
  | approve by_ => rfl
  | publish =>
    simp only [OnboardingDb.demoted]
    split
    · exact Table.keys_updateWhere _ _ (asDemoted now) (fun _ => rfl)
    · rfl

theorem keys_decide (db : OnboardingDb) (id : Uuid) (now : Time) (d : Decision) :
    (db.decide id now d).sessions.keys = db.sessions.keys :=
  (Table.keys_updateWhere _ _ (d.apply now) (d.apply_id now)).trans (keys_demoted db id now d)

theorem keys_setStatus (db : OnboardingDb) (id : Uuid) (status : SessionStatus)
    (error : Option String) (stats : Option Json) (now : Time) :
    (db.setStatus id status error stats now).sessions.keys = db.sessions.keys :=
  Table.keys_updateWhere _ _ (withStatus status error stats now) (fun _ => rfl)

/-- Only a request inserts a session. -/
theorem keys_draftingStep (h : draftingStep env s a = some t)
    (hstart : ∀ ctx q newId now release trace runId outboxId,
      a ≠ .start ctx q newId now release trace runId outboxId) :
    t.db.sessions.keys = s.db.sessions.keys := by
  cases draftingStep_move h with
  | conflict | start => exact absurd rfl (hstart _ _ _ _ _ _ _ _)
  | decide id now d => exact keys_decide _ _ _ _
  | empty => exact keys_setStatus _ _ _ _ _ _
  | progress x sessionId entry now =>
    exact Table.keys_updateWhere _ _ (withProgress entry now) (fun _ => rfl)
  | except => exact keys_setStatus _ _ _ _ _ _
  | ready => exact keys_setStatus _ _ _ _ _ _
  | work | acquire | enter | raise | settle | crash => rfl

theorem draftRequest_key (env : DraftingEnv) (ctx : RequestContext) (newId : Uuid)
    (q : SessionCreate) : ∃ k, (draftRequest env ctx newId q).key = some k ∧ k ≠ "" := by
  have hdefault : "onboard:" ++ q.domain ++ ":" ++ env.uuidText newId ≠ "" := by
    intro hempty
    have htext := congrArg String.toList hempty
    simp only [String.toList_append, List.append_assoc] at htext
    exact absurd (List.append_eq_nil_iff.mp htext).1 (by decide)
  by_cases hmissing : ctx.idempotencyKey = none ∨ ctx.idempotencyKey = some ""
  · refine ⟨_, ?_, hdefault⟩
    simp [EnqueueRequest.key, draftRequest, orText, hmissing, hdefault]
  · obtain ⟨k, hk⟩ := Option.ne_none_iff_exists'.mp (fun hnone => hmissing (Or.inl hnone))
    refine ⟨k, ?_, fun hempty => hmissing (Or.inr (by rw [hk, hempty]))⟩
    simp_all [EnqueueRequest.key, draftRequest, orText]

theorem get_moveTo {worker : String} {x : Execution} (phase : ExecPhase)
    (hget : s.execs.get worker = some x) :
    (s.moveTo worker phase).execs.get worker = some { x with phase := phase } := by
  obtain ⟨hx, hworker⟩ := Table.get_eq_some.mp hget
  exact Table.get_eq_some.mpr ⟨List.mem_map.mpr ⟨x, hx, if_pos hworker⟩, hworker⟩

theorem statusOf_appendProgress {db : OnboardingDb} {id : Uuid} {status : SessionStatus}
    (h : db.statusOf id = some status) (written : Uuid) (entry : Json) (now : Time) :
    (db.appendProgress written entry now).statusOf id = some status := by
  obtain ⟨r, hr, rfl, rfl⟩ := statusOf_eq_some.mp h
  refine statusOf_eq_some.mpr ⟨_, List.mem_map_of_mem hr, ?_⟩
  unfold Table.rewrite
  split
  · exact ⟨rfl, rfl⟩
  · exact ⟨rfl, rfl⟩

theorem exec_acquireSpecific {c : RetrySettings} {db : Correctness.Store} {tenant : Tenant}
    {r : RunRow} {now : Time} (hr : r ∈ db.run.rows) (hvisible : visible tenant r)
    (hleasable : leasable now r) (lease : Time) (worker : String) :
    ∃ store, exec c db now (.acquireSpecific tenant r.id worker lease) =
      some (store,
        .acquired (leasedRun tenant now lease worker (leaseRow now lease worker r))) := by
  have hrow :=
    (db.run.updateKey_eq_some (k := r.id) (b := leaseRow now lease worker r)
      (p := fun r => visible tenant r ∧ leasable now r)
      (f := leaseRow now lease worker) (fun _ => rfl)).mpr
      ⟨r, hr, rfl, ⟨hvisible, hleasable⟩, rfl⟩
  refine ⟨{ db with run := (acquireSpecific db.run now tenant r.id worker lease).1 }, ?_⟩
  simp only [exec, acquireSpecific, hrow, Option.map_some, Option.elim_some]

theorem leased_starts {l : LeasedRun} (store : Correctness.Store)
    (hworkload : l.workload = workload) (hidle : l.leasedBy ∉ s.execs.keys) :
    ∃ t, s.leased store (.acquired l) = some t ∧ t.db = s.db ∧
      t.execs.get l.leasedBy = some ⟨l, .leased⟩ := by
  have hinsert : s.execs.tryInsert ⟨l, .leased⟩ = some (s.execs.insert ⟨l, .leased⟩ hidle) :=
    dif_pos hidle
  refine ⟨{ s with store := store, execs := s.execs.insert ⟨l, .leased⟩ hidle }, ?_, rfl, ?_⟩
  · rw [DraftingState.leased, if_pos hworkload, hinsert]
    rfl
  · exact Table.get_eq_some.mpr ⟨(Table.mem_insert (h := hidle)).mpr (Or.inr rfl), rfl⟩

/-- A worker that is idle leases the run and starts an execution. -/
theorem acquireSpecific_starts {r : RunRow} {now : Time} {worker : String}
    (hr : r ∈ s.store.run.rows) (hvisible : visible env.tenant r) (hleasable : leasable now r)
    (hworkload : r.workload = workload) (hidle : worker ∉ s.execs.keys) (lease : Time) :
    ∃ t, draftingStep env s (.acquire now (.acquireSpecific env.tenant r.id worker lease)) =
      some t ∧
      t.db = s.db ∧ ∃ l, l.input = r.input ∧ t.execs.get worker = some ⟨l, .leased⟩ := by
  obtain ⟨store, hexec⟩ := exec_acquireSpecific (c := env.retry) hr hvisible hleasable lease worker
  obtain ⟨t, hleased, hdb, hget⟩ := leased_starts (s := s)
    (l := leasedRun env.tenant now lease worker (leaseRow now lease worker r)) store hworkload hidle
  refine ⟨t, ?_, hdb, _, rfl, hget⟩
  simp only [draftingStep, acquirer, hidle, not_false_eq_true, if_true, hexec, Option.bind_some]
  exact hleased

theorem enter_drafts {l : LeasedRun} {worker : String} {sessionId : Uuid}
    (hget : s.execs.get worker = some ⟨l, .leased⟩)
    (hinput : sessionIdOf env l.input = some sessionId)
    (hstatus : s.db.statusOf sessionId = some .drafting) :
    draftingStep env s (.enter worker) = some (s.moveTo worker (.drafting sessionId)) := by
  obtain ⟨x, hx, hdrafting⟩ := Option.map_eq_some_iff.mp hstatus
  simp only [draftingStep, hget, hinput, hx, hdrafting, if_true]

/-- A run that can be leased drafts the session its payload names. -/
theorem draftable_of_leasable {r : RunRow} {sessionId : Uuid} {now : Time}
    (hr : r ∈ s.store.run.rows) (hvisible : visible env.tenant r) (hleasable : leasable now r)
    (hworkload : r.workload = workload) (hinput : sessionIdOf env r.input = some sessionId)
    (hstatus : s.db.statusOf sessionId = some .drafting) : Draftable env s r.id sessionId := by
  intro worker hidle lease
  obtain ⟨s₁, hacquire, hdb, l, hl, hget₁⟩ :=
    acquireSpecific_starts hr hvisible hleasable hworkload hidle lease
  have hstatus₁ : s₁.db.statusOf sessionId = some .drafting := hdb ▸ hstatus
  have henter : draftingStep env s₁ (.enter worker) =
      some (s₁.moveTo worker (.drafting sessionId)) :=
    enter_drafts hget₁ (hl ▸ hinput) hstatus₁
  have hget₂ := get_moveTo (.drafting sessionId) hget₁
  let s₃ : DraftingState :=
    { (s₁.moveTo worker (.drafting sessionId)).moveTo worker (.trying sessionId) with
      db := s₁.db.appendProgress sessionId .null now }
  have hprogress :
      draftingStep env (s₁.moveTo worker (.drafting sessionId)) (.progress worker .null now) =
      some s₃ := by
    simp only [draftingStep, hget₂]
    rfl
  have hget₃ : s₃.execs.get worker = some ⟨l, .trying sessionId⟩ :=
    get_moveTo (.trying sessionId) hget₂
  have hstatus₃ : s₃.db.statusOf sessionId = some .drafting :=
    statusOf_appendProgress hstatus₁ sessionId .null now
  refine ⟨now, { s₃.moveTo worker (.returned (draftReady [])) with
    db := s₃.db.setStatus sessionId .draftReady none (some (.obj [])) now
    journal := .ready l.runId sessionId :: s₃.journal }, ?_, statusOf_setStatus hstatus₃⟩
  refine reaches_cons.mpr
    ⟨s₁, hacquire, reaches_cons.mpr ⟨_, henter, reaches_cons.mpr ⟨s₃, hprogress, ?_⟩⟩⟩
  rw [reaches_single]
  simp only [draftingStep, hget₃]

/-- The run a new session references carries the key of the request: it is a new one if no
run carried it before. -/
theorem hasRun_start (hf : env.Faithful) {ctx : RequestContext} {q : SessionCreate} {newId : Uuid}
    {now : Time} {release : String} {trace : Json} {runId : Uuid} {outboxId : Nat}
    {sessions : SessionTable} {store : Correctness.Store} {id : Uuid} {created : Bool}
    (ht : ctx.tenant = env.tenant) (hunused : s.unused env newId)
    (henqueue : enqueueRun s.store now release trace (draftRequest env ctx newId q) runId outboxId =
      some (store, id, created))
    (hrows : sessions.rows = s.db.sessions.rows ++
      [withRun id (newSession newId q.domain q.collection none ctx.principal.id now)]) :
    DraftsHaveRuns env s a { s with db := { s.db with sessions := sessions }, store := store } ↔
      runWithKey s.store.run env.tenant.id (draftRequest env ctx newId q).key = none := by
  obtain ⟨k, hk, hne⟩ := draftRequest_key env ctx newId q
  have htenant : (draftRequest env ctx newId q).ctx.tenant = env.tenant := ht
  let x := withRun id (newSession newId q.domain q.collection none ctx.principal.id now)
  have hx : x ∈ sessions.rows := by
    rw [hrows]
    exact List.mem_append_right _ (List.mem_singleton.mpr rfl)
  rcases enqueueRun_keyed hk hne henqueue with ⟨r, hr, rfl, rfl⟩ | ⟨hnone, rfl, hstore⟩
  · -- the run that carries the key is for another session
    rw [htenant] at hr
    rw [hk, hr]
    refine iff_of_false ?_ nofun
    intro hruns
    obtain ⟨r', hr', hid, -, hinput, -⟩ := hruns x hx rfl hunused.1
    exact hunused.2 r' hr' hinput
  · rw [htenant] at hnone
    rw [hk, hnone]
    refine iff_of_true ?_ rfl
    intro y hy hdrafting hnew
    change y ∈ sessions.rows at hy
    rw [hrows] at hy
    rcases List.mem_append.mp hy with hy | hy
    · exact absurd (Table.key_mem_keys hy) hnew
    · cases List.mem_singleton.mp hy
      let r := newRun now release (draftRequest env ctx newId q) id
      have hr : r ∈ store.run.rows := by
        rw [hstore]
        exact List.mem_append_right _ (List.mem_singleton.mpr rfl)
      have hinput : sessionIdOf env r.input = some newId := sessionIdOf_draftPayload hf newId q
      refine ⟨r, hr, rfl, rfl, hinput, rfl, ?_⟩
      refine draftable_of_leasable hr (congrArg Tenant.id ht)
        ⟨rfl, Nat.zero_lt_succ 2, le_refl now, rfl⟩ rfl hinput ?_
      exact statusOf_eq_some.mpr ⟨x, hx, rfl, rfl⟩

theorem draftsHaveRuns_step (hf : env.Faithful) (h : draftingStep env s a = some t) :
    DraftsHaveRuns env s a t ↔ keyFree env s a := by
  have hquiet : t.db.sessions.keys = s.db.sessions.keys → DraftsHaveRuns env s a t := by
    intro hkeys x hx _ hnew
    exact absurd (hkeys ▸ Table.key_mem_keys hx) hnew
  by_cases hstart : ∀ ctx q newId now release trace runId outboxId,
      a ≠ .start ctx q newId now release trace runId outboxId
  · refine iff_of_true (hquiet (keys_draftingStep h hstart)) ?_
    cases a with
    | start ctx q newId now release trace runId outboxId =>
      exact absurd rfl (hstart _ _ _ _ _ _ _ _)
    | _ => trivial
  · simp only [ne_eq, not_forall, not_not] at hstart
    obtain ⟨ctx, q, newId, now, release, trace, runId, outboxId, rfl⟩ := hstart
    simp only [draftingStep] at h
    split at h
    · rename_i hguard
      rcases startSession_eq_some h with ⟨hdrafts, rfl⟩ |
        ⟨hdrafts, sessions, store, id, created, henqueue, hrows, rfl⟩
      · exact iff_of_true (hquiet rfl) (Or.inl hdrafts)
      · rw [hasRun_start hf hguard.1 hguard.2 henqueue hrows]
        exact (or_iff_right hdrafts).symm
    · cases h

/-- Every session that a run of the system puts under draft has its run, exactly if no
request that inserts a session carries the key of a run. -/
theorem every_draft_has_run_iff (hf : env.Faithful) {acts : List DraftingAct}
    (hrun : Reaches (draftingStep env) .initial acts s) :
    EveryStep (draftingStep env) (DraftsHaveRuns env) .initial acts ↔
      Reaches (restrict (keyFree env) (draftingStep env)) .initial acts s :=
  everyStep_iff_restrict (P := fun _ => True) (R := DraftsHaveRuns env) (fun _ _ _ _ _ => trivial)
    (fun _ _ _ _ h => draftsHaveRuns_step hf h) trivial hrun

end

def draftOf (domain : String) (h : isDomain domain = true) : SessionCreate where
  domain := domain
  collection := "manuals"
  sample := ⟨"20", by decide +kernel⟩
  domain_valid := h
  collection_valid := by decide +kernel
  sample_valid := ⟨20, by decide, by decide, rfl⟩

/-- The same principal, with an Idempotency-Key. -/
def keyedContext : RequestContext := { sampleContext with idempotencyKey := some "retry-1" }

def draftAct (worker : String) (runId : Uuid) (now : Time) : List DraftingAct :=
  [.acquire now (.acquireSpecific sampleTenant runId worker 60), .enter worker,
    .progress worker .null now, .ready worker [] now, .settle worker now lowestDraw]

theorem isDomain_plant : isDomain "plant" = true := by decide +kernel

/-- Two domains are drafted, the first with a key of the client. -/
def twoDrafts : List DraftingAct :=
  [.start keyedContext (draftOf "plant" isDomain_plant) 1 0 "r1" .emptyObj 100 1] ++
    draftAct "w1" 100 1 ++
  [.start sampleContext (draftOf "office" (by decide +kernel)) 2 2 "r1" .emptyObj 101 2]

theorem twoDrafts_run :
    (twoDrafts.foldlM (restrict (keyFree unaryEnv) (draftingStep unaryEnv)) .initial).isSome =
      true := by
  decide +kernel

theorem every_draft_has_run_twoDrafts : ∃ s, Reaches (draftingStep unaryEnv) .initial twoDrafts s ∧
    s.db.sessions.rows.map (fun r => (r.id, r.status, r.runId)) =
      [(1, .draftReady, some 100), (2, .drafting, some 101)] ∧
    EveryStep (draftingStep unaryEnv) (DraftsHaveRuns unaryEnv) .initial twoDrafts := by
  have hrun := reaches_get twoDrafts_run
  exact ⟨_, hrun.of_restrict, by decide +kernel,
    (every_draft_has_run_iff unaryEnv_faithful hrun.of_restrict).mpr hrun⟩

/-- The first domain is drafted, under the client's key. -/
def plantDrafted : List DraftingAct :=
  [.start keyedContext (draftOf "plant" isDomain_plant) 1 0 "r1" .emptyObj 100 1] ++
    draftAct "w1" 100 1

/-- The client sends the key again, with another domain. -/
def keyAgain : DraftingAct :=
  .start keyedContext (draftOf "office" (by decide +kernel)) 2 2 "r1" .emptyObj 101 2

theorem plantDrafted_run :
    (plantDrafted.foldlM (draftingStep unaryEnv) .initial).isSome = true := by
  decide +kernel

theorem keyAgain_run :
    (draftingStep unaryEnv ((plantDrafted.foldlM (draftingStep unaryEnv) .initial).get
      plantDrafted_run) keyAgain).isSome = true := by
  decide +kernel

/-- The second session is under draft, and the one run there is has drafted the first. -/
theorem reused_key_strands_draft :
    ∃ s t, Reaches (draftingStep unaryEnv) .initial plantDrafted s ∧
      draftingStep unaryEnv s keyAgain = some t ∧
      t.db.sessions.rows.map (fun r => (r.id, r.status, r.runId)) =
      [(1, .draftReady, some 100), (2, .drafting, some 100)] ∧
      t.store.run.rows.map (fun r => (r.id, r.status)) = [(100, .succeeded)] ∧
      ¬ EveryStep (draftingStep unaryEnv) (DraftsHaveRuns unaryEnv) .initial
      (plantDrafted ++ [keyAgain]) := by
  have hrun := reaches_get plantDrafted_run
  have hstep := (Option.some_get keyAgain_run).symm
  refine ⟨_, _, hrun, hstep, by decide +kernel, by decide +kernel, ?_⟩
  intro hevery
  have hruns := hevery plantDrafted keyAgain [] _ _ rfl hrun hstep
  have hnone : ∀ x ∈ ((draftingStep unaryEnv ((plantDrafted.foldlM (draftingStep unaryEnv)
      .initial).get plantDrafted_run) keyAgain).get keyAgain_run).db.sessions.rows, x.id = 2 →
      ∀ r ∈ ((draftingStep unaryEnv ((plantDrafted.foldlM (draftingStep unaryEnv) .initial).get
        plantDrafted_run) keyAgain).get keyAgain_run).store.run.rows,
      sessionIdOf unaryEnv r.input ≠ some x.id := by
    decide +kernel
  have hdraft : ∃ x ∈ ((draftingStep unaryEnv ((plantDrafted.foldlM (draftingStep unaryEnv)
      .initial).get plantDrafted_run) keyAgain).get keyAgain_run).db.sessions.rows, x.id = 2 ∧
      x.status = .drafting ∧ x.id ∉ ((plantDrafted.foldlM (draftingStep unaryEnv) .initial).get
        plantDrafted_run).db.sessions.keys := by
    decide +kernel
  obtain ⟨x, hx, hid, hdrafting, hnew⟩ := hdraft
  obtain ⟨r, hr, -, -, hinput, -⟩ := hruns x hx hdrafting hnew
  exact hnone x hx hid r hr hinput

end AgenticPlatform.Onboarding
