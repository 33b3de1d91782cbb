import AgenticPlatform.Onboarding.SessionSystem

/-!
# The lifecycle of a session

Users move a session on only from the statuses their requests name. A worker writes the
status its draft ended with, whatever the session has become in the meantime.
-/
namespace AgenticPlatform.Onboarding
open AgenticPlatform.Foundation AgenticPlatform.Identity

/-- Approved, or live. -/
def SessionStatus.settled (status : SessionStatus) : Prop :=
  status = .approved ∨ status = .published

instance : DecidablePred SessionStatus.settled := fun _ => inferInstanceAs (Decidable (_ ∨ _))

/-- Which statuses may come after a status. -/
def SessionStatus.allows : SessionStatus → SessionStatus → Prop
  | .drafting, _ | .draftReady, _ => True
  | .approved, next | .published, next => next.settled
  | .failed, next => next = .failed
  | .cancelled, next => next = .cancelled

theorem SessionStatus.allows_refl (status : SessionStatus) : status.allows status := by
  cases status with
  | drafting => trivial
  | draftReady => trivial
  | approved => exact Or.inl rfl
  | published => exact Or.inr rfl
  | failed => rfl
  | cancelled => rfl

theorem SessionStatus.settled_allows {status next : SessionStatus} (h : status.settled) :
    status.allows next ↔ next.settled := by
  rcases h with rfl | rfl
  · exact Iff.rfl
  · exact Iff.rfl

theorem SessionStatus.allows_trans {a b c : SessionStatus} (h : a.allows b) (h' : b.allows c) :
    a.allows c := by
  cases a with
  | drafting => trivial
  | draftReady => trivial
  | approved => exact (settled_allows h).mp h'
  | published => exact (settled_allows h).mp h'
  | failed =>
    cases h
    exact h'
  | cancelled =>
    cases h
    exact h'

/-- Sessions stay and move on as they may. -/
def Follows (db db' : OnboardingDb) : Prop :=
  ∀ id status, db.statusOf id = some status → ∃ status', db'.statusOf id = some status' ∧
    status.allows status'

/-- A session that was not there is being drafted. -/
def Newcomers (db db' : OnboardingDb) : Prop :=
  ∀ id, db.statusOf id = none → db'.statusOf id = none ∨ db'.statusOf id = some .drafting

theorem Follows.refl (db : OnboardingDb) : Follows db db :=
  fun _ status h => ⟨status, h, status.allows_refl⟩

theorem Follows.trans {db db' db'' : OnboardingDb} (h : Follows db db') (h' : Follows db' db'') :
    Follows db db'' := by
  intro id status hstatus
  obtain ⟨status', hstatus', hallows⟩ := h id status hstatus
  obtain ⟨status'', hstatus'', hallows'⟩ := h' id status' hstatus'
  exact ⟨status'', hstatus'', SessionStatus.allows_trans hallows hallows'⟩

/-- A worker finds the session as its draft left it. -/
def lifecycleSafe (s : OnboardingState) : OnboardingAct → Prop
  | .ready i _ => ∀ id ∈ (s.execs i).sessionId, ∀ status ∈ s.db.statusOf id,
    status = .drafting ∨ status = .draftReady
  | .giveUp i _ _ => ∀ id ∈ (s.execs i).sessionId, ∀ status ∈ s.db.statusOf id,
    status = .drafting ∨ status = .draftReady ∨ status = .failed
  | _ => True

instance (s : OnboardingState) : (a : OnboardingAct) → Decidable (lifecycleSafe s a)
  | .ready i _ => inferInstanceAs (Decidable (∀ id ∈ (s.execs i).sessionId, _))
  | .giveUp i _ _ => inferInstanceAs (Decidable (∀ id ∈ (s.execs i).sessionId, _))
  | .create .. | .begin .. | .statement .. | .commit _ | .rollback _ | .cancel .. | .startDraft .. |
    .progress ..
  | .analyzed .. | .put _ | .crash _ => isTrue trivial

theorem allows_draftReady_iff {status : SessionStatus} :
    status.allows .draftReady ↔ status = .drafting ∨ status = .draftReady := by
  cases status <;> simp [SessionStatus.allows, SessionStatus.settled]

theorem allows_failed_iff {status : SessionStatus} :
    status.allows .failed ↔ status = .drafting ∨ status = .draftReady ∨ status = .failed := by
  cases status <;> simp [SessionStatus.allows, SessionStatus.settled]

section
variable {env : OnboardingEnv} {s t : OnboardingState} {a : OnboardingAct} {db db' : OnboardingDb}

/-- Every row goes on under its id. -/
theorem follows_of_rows
    (h : ∀ r ∈ db.sessions.rows, ∃ r' ∈ db'.sessions.rows, r'.id = r.id ∧
      r.status.allows r'.status) : Follows db db' := by
  intro id status hstatus
  obtain ⟨r, hr, hid, rfl⟩ := statusOf_eq_some.mp hstatus
  obtain ⟨r', hr', hsame, hallows⟩ := h r hr
  exact ⟨r'.status, statusOf_eq_some.mpr ⟨r', hr', hsame.trans hid, rfl⟩, hallows⟩

theorem newcomers_of_keys (h : db'.sessions.keys = db.sessions.keys) : Newcomers db db' := by
  intro id hnone
  rw [statusOf_eq_none] at hnone
  exact Or.inl (statusOf_eq_none.mpr (h ▸ hnone))

theorem follows_update {p : SessionRow → Prop} [DecidablePred p] {f : SessionRow → SessionRow}
    (hf : ∀ r, (f r).id = r.id) (h : ∀ r ∈ db.sessions.rows, p r → r.status.allows (f r).status)
    (hsessions : db'.sessions = db.sessions.updateWhere p f hf) : Follows db db' := by
  refine follows_of_rows ?_
  intro r hr
  refine ⟨Table.rewrite p f r, ?_, Table.key_rewrite hf r, ?_⟩
  · rw [hsessions]
    exact Table.mem_update.mpr ⟨r, hr, rfl⟩
  · unfold Table.rewrite
    split
    · exact h r hr ‹_›
    · exact r.status.allows_refl

/-- What a publication has read, and what it has not written before. -/
structure PublishInv (s : OnboardingState) : Prop where
  unread : ∀ x ∈ s.txns.rows, ∀ id, x.work = .publish id .readSession → x.sessions = []
  read : ∀ x ∈ s.txns.rows, ∀ id stage, x.work = .publish id stage → stage ≠ .readSession →
    ∀ status ∈ s.db.statusOf id, status.settled

structure LifecycleInv (s : OnboardingState) : Prop where
  inv : OnboardingInv s
  publish : PublishInv s

theorem lifecycleInv_initial : LifecycleInv .initial where
  inv := onboardingInv_initial
  publish := by
    constructor
    · intro x hx
      cases hx
    · intro x hx
      cases hx

theorem follows_commit (hs : LifecycleInv s) {x : Txn} (hx : x ∈ s.txns.rows)
    (hfinished : x.work.finished) : Follows s.db (x.view s.db) := by
  refine follows_of_rows ?_
  intro r hr
  have hkey : r.id ∈ (x.view s.db).sessions.keys :=
    (congrArg (fun keys => r.id ∈ keys) (Table.keys_overlay s.db.sessions x.sessions)).mpr
      (Table.key_mem_keys hr)
  obtain ⟨r₁, hr₁, hid⟩ := Table.mem_keys.mp hkey
  refine ⟨r₁, hr₁, hid, ?_⟩
  rcases committed_row hs.inv hx hfinished hr₁ with ⟨hsame, -⟩ | ⟨r₀, hr₀, hid₀, hdrift⟩
  · rw [Table.eq_of_key hsame hr hid]
    exact r.status.allows_refl
  · have hsame : r₀ = r := Table.eq_of_key hr₀ hr (hid₀.trans hid)
    subst hsame
    cases hwork : x.work with
    | edit q stage =>
      rw [hwork] at hdrift
      rw [hdrift.2.1]
      exact r₀.status.allows_refl
    | approve id by_ stage =>
      rw [hwork] at hdrift
      rw [hdrift.2.1]
      trivial
    | publish id stage =>
      rw [hwork] at hdrift hfinished
      obtain ⟨-, -, hafter, hown⟩ := hdrift
      have hbefore : r₀.status.settled := by
        rcases hown with hown | hpublished
        · refine hs.publish.read x hx id stage hwork (finished_opened hfinished) r₀.status ?_
          exact statusOf_eq_some.mpr ⟨r₀, hr₀, hid₀.trans hown, rfl⟩
        · exact Or.inr hpublished
      exact (SessionStatus.settled_allows hbefore).mpr hafter

theorem follows_setStatus {id : Uuid} {status : SessionStatus} {error : Option String}
    {stats : Option Json} {now : Time} (h : ∀ before ∈ db.statusOf id, before.allows status) :
    Follows db (db.setStatus id status error stats now) := by
  refine follows_update (p := fun r => r.id = id) (f := withStatus status error stats now)
    (fun _ => rfl) ?_ rfl
  rintro r hr rfl
  exact h r.status (statusOf_eq_some.mpr ⟨r, hr, rfl, rfl⟩)

theorem newcomers_step (h : onboardingStep env s a = some t) : Newcomers s.db t.db := by
  cases onboardingStep_move h with
  | create id domain collection runId by_ now sessions hfresh hrows =>
    intro k hnone
    cases hstatus : (OnboardingDb.statusOf { s.db with sessions := sessions } k) with
    | none => exact Or.inl rfl
    | some status =>
      obtain ⟨r, hr, hk, rfl⟩ := statusOf_eq_some.mp hstatus
      change r ∈ sessions.rows at hr
      rw [hrows] at hr
      rcases List.mem_append.mp hr with hr | hr
      · exact absurd (hk ▸ Table.key_mem_keys hr) (statusOf_eq_none.mp hnone)
      · cases List.mem_singleton.mp hr
        exact Or.inr rfl
  | begin no q txns hrows => exact newcomers_of_keys rfl
  | write no now x o hx hno hfree ho => exact newcomers_of_keys rfl
  | drop a no hquiet => exact newcomers_of_keys rfl
  | commit no x hx hno hfinished => exact newcomers_of_keys (Table.keys_overlay _ _)
  | cancel id now hfree =>
    exact newcomers_of_keys (Table.keys_updateWhere _ _ (asCancelled now) (fun _ => rfl))
  | progress i id entry now hfree =>
    exact newcomers_of_keys (Table.keys_updateWhere _ _ (withProgress entry now) (fun _ => rfl))
  | put i id key payload rest stats hphase => exact newcomers_of_keys rfl
  | ready i id stats now hphase hfree =>
    exact newcomers_of_keys
      (Table.keys_updateWhere _ _ (withStatus .draftReady none (some stats) now) (fun _ => rfl))
  | giveUp i id error now hphase hfree =>
    exact newcomers_of_keys
      (Table.keys_updateWhere _ _ (withStatus .failed (some error) none now) (fun _ => rfl))
  | exec a execs hquiet => exact newcomers_of_keys rfl

theorem follows_step (hs : LifecycleInv s) (hsafe : lifecycleSafe s a)
    (h : onboardingStep env s a = some t) : Follows s.db t.db := by
  cases onboardingStep_move h with
  | create id domain collection runId by_ now sessions hfresh hrows =>
    refine follows_of_rows ?_
    intro r hr
    refine ⟨r, ?_, rfl, r.status.allows_refl⟩
    change r ∈ sessions.rows
    rw [hrows]
    exact List.mem_append_left _ hr
  | begin no q txns hrows => exact .refl s.db
  | write no now x o hx hno hfree ho => exact .refl s.db
  | drop a no hquiet => exact .refl s.db
  | commit no x hx hno hfinished => exact follows_commit hs hx hfinished
  | cancel id now hfree =>
    refine follows_update (p := fun r => r.id = id ∧ cancellable r) (f := asCancelled now)
      (fun _ => rfl) ?_ rfl
    rintro r hr ⟨-, hdrafting | hready⟩
    · rw [hdrafting]
      trivial
    · rw [hready]
      trivial
  | progress i id entry now hfree =>
    refine follows_update (p := fun r => r.id = id) (f := withProgress entry now)
      (fun _ => rfl) ?_ rfl
    intro r hr _
    exact r.status.allows_refl
  | put i id key payload rest stats hphase => exact .refl s.db
  | ready i id stats now hphase hfree =>
    refine follows_setStatus ?_
    intro before hbefore
    exact allows_draftReady_iff.mpr (hsafe id (by rw [hphase]; rfl) before hbefore)
  | giveUp i id error now hphase hfree =>
    refine follows_setStatus ?_
    intro before hbefore
    exact allows_failed_iff.mpr (hsafe id hphase before hbefore)
  | exec a execs hquiet => exact .refl s.db

theorem statement_publish {w : Work} {view : OnboardingDb} {now : Time} {o : Outcome Work}
    {id : Uuid} {stage : PublishStage} (h : w.statement env view now = .ok o)
    (hnext : o.next = .publish id stage) :
    ∃ before, w = .publish id before ∧ stage ≠ .readSession ∧
      (before = .readSession → ∀ status ∈ view.statusOf id, status.settled) := by
  cases w with
  | edit q stage =>
    obtain ⟨o', -, rfl⟩ := map_eq_ok h
    cases hnext
  | approve sessionId by_ stage =>
    obtain ⟨o', -, rfl⟩ := map_eq_ok h
    cases hnext
  | publish sessionId before =>
    obtain ⟨o', ho', rfl⟩ := map_eq_ok h
    cases hnext
    refine ⟨before, rfl, ?_⟩
    cases before with
    | readSession =>
      simp only [publishStatement] at ho'
      split at ho'
      · cases ho'
      · rename_i r hget
        split at ho'
        · rename_i happroved
          cases ho'
          refine ⟨fun h => (by cases h), ?_⟩
          intro _ status hstatus
          rw [OnboardingDb.statusOf, hget] at hstatus
          cases hstatus
          exact Or.inl happroved
        · cases ho'
    | demote domain =>
      cases ho'
      exact ⟨fun h => (by cases h), fun h => (by cases h)⟩
    | promote =>
      simp only [publishStatement] at ho'
      split at ho'
      · cases ho'
        exact ⟨fun h => (by cases h), fun h => (by cases h)⟩
      · split at ho'
        · cases ho'
        · cases ho'
          exact ⟨fun h => (by cases h), fun h => (by cases h)⟩
    | done =>
      cases ho'
      exact ⟨fun h => (by cases h), fun h => (by cases h)⟩

/-- A publication goes on finding what it read. -/
theorem publishInv_kept (hs : LifecycleInv s) (hfollows : Follows s.db t.db)
    (htxns : ∀ x ∈ t.txns.rows, x ∈ s.txns.rows ∨ ∃ no q, x = ⟨no, Request.work q, [], []⟩) :
    PublishInv t where
  unread := by
    intro x hx id hwork
    rcases htxns x hx with hx | ⟨no, q, rfl⟩
    · exact hs.publish.unread x hx id hwork
    · rfl
  read := by
    intro x hx id stage hwork hstage status' hstatus'
    rcases htxns x hx with hx | ⟨no, q, rfl⟩
    · have hknown : id ∈ s.db.sessions.keys := by
        have hsound := (hs.inv.sound x hx).known
        rw [hwork] at hsound
        exact hsound hstage
      cases hstatus : s.db.statusOf id with
      | none => exact absurd hknown (statusOf_eq_none.mp hstatus)
      | some status =>
        obtain ⟨status'', hsame, hallows⟩ := hfollows id status hstatus
        cases hsame.symm.trans hstatus'
        exact (SessionStatus.settled_allows
          (hs.publish.read x hx id stage hwork hstage status hstatus)).mp hallows
    · cases q with
      | edit q => cases hwork
      | approve sessionId by_ => cases hwork
      | publish sessionId =>
        cases hwork
        exact absurd rfl hstage

theorem publishInv_write (hs : LifecycleInv s) {x : Txn} {o : Outcome Work} {now : Time}
    (hx : x ∈ s.txns.rows) (ho : x.work.statement env (x.view s.db) now = .ok o) (hdb : t.db = s.db)
    (htxns : ∀ y ∈ t.txns.rows, (y ∈ s.txns.rows ∧ y.no ≠ x.no) ∨ y = x.after o) :
    PublishInv t where
  unread := by
    intro y hy id hwork
    rcases htxns y hy with ⟨hy, -⟩ | rfl
    · exact hs.publish.unread y hy id hwork
    · obtain ⟨before, -, hstage, -⟩ := statement_publish ho hwork
      exact absurd rfl hstage
  read := by
    intro y hy id stage hwork hstage
    rw [hdb]
    rcases htxns y hy with ⟨hy, -⟩ | rfl
    · exact hs.publish.read y hy id stage hwork hstage
    · obtain ⟨before, hbefore, -, hfirst⟩ := statement_publish ho hwork
      by_cases hread : before = .readSession
      · -- it has written nothing, and sees what is committed
        have hview : (x.view s.db).statusOf id = s.db.statusOf id := by
          have hnone := hs.publish.unread x hx id (hbefore.trans (by rw [hread]))
          simp [OnboardingDb.statusOf, Txn.view, hnone, Table.get_overlay]
        rw [← hview]
        exact hfirst hread
      · exact hs.publish.read x hx id before hbefore hread

theorem lifecycleInv_step (hs : LifecycleInv s) (hfollows : Follows s.db t.db)
    (h : onboardingStep env s a = some t) : LifecycleInv t where
  inv := onboardingInv_step h hs.inv
  publish := by
    cases onboardingStep_move h with
    | begin no q txns hrows =>
      refine publishInv_kept hs hfollows ?_
      intro x hx
      change x ∈ txns.rows at hx
      rw [hrows] at hx
      rcases List.mem_append.mp hx with hx | hx
      · exact Or.inl hx
      · exact Or.inr ⟨no, q, List.mem_singleton.mp hx⟩
    | write no now x o hx hno hfree ho =>
      exact publishInv_write hs hx ho rfl (fun y hy => mem_after hx hno hy)
    | drop a no hquiet =>
      exact publishInv_kept hs hfollows (fun x hx => Or.inl (mem_closed.mp hx).1)
    | commit no x hx hno hfinished =>
      exact publishInv_kept hs hfollows (fun x hx => Or.inl (mem_closed.mp hx).1)
    | create | cancel | progress | put | ready | giveUp | exec =>
      exact publishInv_kept hs hfollows (fun x hx => Or.inl hx)

/-- What the lifecycle asks of a run: final statuses are final, settled sessions stay
settled, and a session becomes ready for review from being drafted only. -/
structure KeepsLifecycle (env : OnboardingEnv) (acts : List OnboardingAct) : Prop where
  final : ∀ pre mid post m n, acts = pre ++ mid ++ post →
    Reaches (onboardingStep env) .initial pre m → Reaches (onboardingStep env) m mid n →
    ∀ id status, status = .cancelled ∨ status = .failed → m.db.statusOf id = some status →
    n.db.statusOf id = some status
  settled : ∀ pre mid post m n, acts = pre ++ mid ++ post →
    Reaches (onboardingStep env) .initial pre m → Reaches (onboardingStep env) m mid n →
    ∀ id status, status.settled → m.db.statusOf id = some status →
    ∃ status', n.db.statusOf id = some status' ∧ status'.settled
  ready : ∀ pre act post m n, acts = pre ++ act :: post →
    Reaches (onboardingStep env) .initial pre m → onboardingStep env m act = some n →
    ∀ id, n.db.statusOf id = some .draftReady → m.db.statusOf id = some .draftReady ∨
    m.db.statusOf id = some .drafting

/-- Where the worker's UPDATE leaves the session. -/
theorem statusOf_written {id : Uuid} {before : SessionStatus}
    (hbefore : s.db.statusOf id = some before) (h : onboardingStep env s a = some t) :
    (∀ i now, a = .ready i now → (s.execs i).sessionId = some id →
      t.db.statusOf id = some .draftReady) ∧
      ∀ i error now, a = .giveUp i error now → (s.execs i).sessionId = some id →
      t.db.statusOf id = some .failed := by
  constructor
  · rintro i now rfl hid
    simp only [onboardingStep] at h
    split at h
    · rename_i id' stats hphase
      rw [hphase] at hid
      cases hid
      obtain ⟨-, rfl⟩ := setStatusStep_eq_some h
      exact statusOf_setStatus hbefore
    · cases h
  · rintro i error now rfl hid
    simp only [onboardingStep, hid] at h
    obtain ⟨-, rfl⟩ := setStatusStep_eq_some h
    exact statusOf_setStatus hbefore

/-- A run that keeps the lifecycle meets the condition at each of its steps. -/
theorem lifecycleSafe_of_keeps {acts pre post : List OnboardingAct} {m n : OnboardingState}
    (hkeeps : KeepsLifecycle env acts) (hacts : acts = pre ++ a :: post)
    (hpre : Reaches (onboardingStep env) .initial pre m) (hstep : onboardingStep env m a = some n) :
    lifecycleSafe m a := by
  have hsingle : acts = pre ++ [a] ++ post := by
    rw [hacts, List.append_assoc]
    rfl
  have hone : Reaches (onboardingStep env) m [a] n := reaches_single.mpr hstep
  cases a with
  | ready i now =>
    intro id hid status hstatus
    have hafter := (statusOf_written hstatus hstep).1 i now rfl hid
    rcases hkeeps.ready pre _ post m n hacts hpre hstep id hafter with h | h
    · exact Or.inr (Option.some.inj (hstatus.symm.trans h))
    · exact Or.inl (Option.some.inj (hstatus.symm.trans h))
  | giveUp i error now =>
    intro id hid status hstatus
    have hafter := (statusOf_written hstatus hstep).2 i error now rfl hid
    have hsettled : ¬ status.settled := by
      intro hsettled
      obtain ⟨status', hstatus', hstill⟩ :=
        hkeeps.settled pre _ post m n hsingle hpre hone id status hsettled hstatus
      cases hafter.symm.trans hstatus'
      exact absurd hstill (by decide)
    cases status with
    | drafting => exact Or.inl rfl
    | draftReady => exact Or.inr (Or.inl rfl)
    | failed => exact Or.inr (Or.inr rfl)
    | approved => exact absurd (Or.inl rfl) hsettled
    | published => exact absurd (Or.inr rfl) hsettled
    | cancelled =>
      have hcancelled :=
        hkeeps.final pre _ post m n hsingle hpre hone id .cancelled (Or.inl rfl) hstatus
      cases hafter.symm.trans hcancelled
  | _ => trivial

/-- In a run that meets the condition, sessions move on as they may. -/
theorem follows_run {acts : List OnboardingAct} {m n : OnboardingState} (hm : LifecycleInv m)
    (h : Reaches (restrict lifecycleSafe (onboardingStep env)) m acts n) :
    LifecycleInv n ∧ Follows m.db n.db := by
  refine h.invariant (P := fun k => LifecycleInv k ∧ Follows m.db k.db) ?_ ⟨hm, .refl m.db⟩
  rintro k a l ⟨hk, hfollows⟩ hstep
  obtain ⟨hsafe, hstep⟩ := restrict_eq_some.mp hstep
  have hnext := follows_step hk hsafe hstep
  exact ⟨lifecycleInv_step hk hnext hstep, hfollows.trans hnext⟩

theorem keeps_of_restrict {acts : List OnboardingAct}
    (h : Reaches (restrict lifecycleSafe (onboardingStep env)) .initial acts t) :
    KeepsLifecycle env acts := by
  have hfollows : ∀ pre mid post m n, acts = pre ++ mid ++ post →
      Reaches (onboardingStep env) .initial pre m → Reaches (onboardingStep env) m mid n →
      Follows m.db n.db := by
    intro pre mid post m n hacts hpre hmid
    rw [hacts, List.append_assoc] at h
    obtain ⟨hpre', hrest⟩ := h.restrict_split hpre
    obtain ⟨n', hmid', -⟩ := reaches_append.mp hrest
    cases hmid.unique hmid'.of_restrict
    exact (follows_run (follows_run lifecycleInv_initial hpre').1 hmid').2
  refine ⟨?_, ?_, ?_⟩
  · intro pre mid post m n hacts hpre hmid id status hfinal hstatus
    obtain ⟨status', hstatus', hallows⟩ :=
      hfollows pre mid post m n hacts hpre hmid id status hstatus
    rcases hfinal with rfl | rfl
    · exact (show status' = .cancelled from hallows) ▸ hstatus'
    · exact (show status' = .failed from hallows) ▸ hstatus'
  · intro pre mid post m n hacts hpre hmid id status hsettled hstatus
    obtain ⟨status', hstatus', hallows⟩ :=
      hfollows pre mid post m n hacts hpre hmid id status hstatus
    exact ⟨status', hstatus', (SessionStatus.settled_allows hsettled).mp hallows⟩
  · intro pre act post m n hacts hpre hstep id hready
    have hsingle : acts = pre ++ [act] ++ post := by
      rw [hacts, List.append_assoc]
      rfl
    have hnext := hfollows pre [act] post m n hsingle hpre (reaches_single.mpr hstep)
    cases hstatus : m.db.statusOf id with
    | none =>
      rcases newcomers_step hstep id hstatus with hnone | hdrafting
      · cases hready.symm.trans hnone
      · cases hready.symm.trans hdrafting
    | some status =>
      obtain ⟨status', hstatus', hallows⟩ := hnext id status hstatus
      cases hready.symm.trans hstatus'
      rcases allows_draftReady_iff.mp hallows with rfl | rfl
      · exact Or.inr rfl
      · exact Or.inl rfl

/-- A run keeps the lifecycle exactly if every worker that sets a status finds the session
as its draft left it. -/
theorem session_lifecycle_iff {acts : List OnboardingAct}
    (hrun : Reaches (onboardingStep env) .initial acts t) :
    KeepsLifecycle env acts ↔
      Reaches (restrict lifecycleSafe (onboardingStep env)) .initial acts t := by
  refine ⟨?_, keeps_of_restrict⟩
  intro hkeeps
  refine reaches_restrict.mpr ⟨hrun, ?_⟩
  intro pre a post m hacts hpre
  obtain ⟨m', hpre', hpost⟩ := reaches_append.mp (hacts ▸ hrun)
  cases hpre.unique hpre'
  obtain ⟨n, hstep, -⟩ := reaches_cons.mp hpost
  exact lifecycleSafe_of_keeps hkeeps hacts hpre hstep

end

/-- Drafted, approved and published, with a draft of another session given up. -/
def publishedSession : List OnboardingAct :=
  draftedSession ++
  [.create 11 "office" "notes" none 1 2, .startDraft 1 11, .giveUp 1 "no documents" 3,
   .begin 1 (.approve 10 2), .statement 1 4, .statement 1 4, .commit 1,
   .begin 2 (.publish 10), .statement 2 5, .statement 2 5, .statement 2 5, .commit 2]

theorem publishedSession_run :
    (publishedSession.foldlM (restrict lifecycleSafe (onboardingStep plainTexts)) .initial).isSome =
      true := by
  decide +kernel

theorem session_lifecycle_publishedSession :
    ∃ s, Reaches (onboardingStep plainTexts) .initial publishedSession s ∧
      s.db.statusOf 10 = some .published ∧ s.db.statusOf 11 = some .failed ∧
      KeepsLifecycle plainTexts publishedSession := by
  have hrun := reaches_get publishedSession_run
  exact ⟨_, hrun.of_restrict, by decide +kernel, by decide +kernel,
    (session_lifecycle_iff hrun.of_restrict).mpr hrun⟩

/-- The session is cancelled while its worker drafts. -/
def cancelledDraft : List OnboardingAct :=
  [.create 10 "plant" "manuals" none 1 0, .startDraft 0 10, .cancel 10 1,
    .analyzed 0 (schemaOnly "drafted"), .put 0]

theorem cancelledDraft_run :
    (cancelledDraft.foldlM (onboardingStep plainTexts) .initial).isSome = true := by
  decide +kernel

theorem cancelledDraft_ready :
    (onboardingStep plainTexts
      ((cancelledDraft.foldlM (onboardingStep plainTexts) .initial).get cancelledDraft_run)
      (.ready 0 2)).isSome =
      true := by
  decide +kernel

/-- The worker that finishes late takes the session out of 'cancelled', and makes it ready
for review. -/
theorem cancelled_session_revived :
    ∃ m n, Reaches (onboardingStep plainTexts) .initial cancelledDraft m ∧
      onboardingStep plainTexts m (.ready 0 2) = some n ∧
      m.db.statusOf 10 = some .cancelled ∧ n.db.statusOf 10 = some .draftReady ∧
      ¬ KeepsLifecycle plainTexts (cancelledDraft ++ [.ready 0 2]) := by
  have hrun := reaches_get cancelledDraft_run
  have hready := (Option.some_get cancelledDraft_ready).symm
  refine ⟨_, _, hrun, hready, by decide +kernel, by decide +kernel, ?_⟩
  intro hkeeps
  have hfinal := hkeeps.final cancelledDraft [.ready 0 2] [] _ _ (by rw [List.append_nil]) hrun
    (reaches_single.mpr hready) 10 .cancelled (Or.inl rfl) (by decide +kernel)
  exact absurd hfinal (by decide +kernel)

end AgenticPlatform.Onboarding
