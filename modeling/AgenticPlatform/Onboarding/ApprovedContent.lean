import AgenticPlatform.Onboarding.Lifecycle

/-!
# What was approved

The schema and the instance table of an approved session against those its last approval
found. An edit checks the status of the session in its first statement only, and a worker
that stores what it drafted does not check it.
-/
namespace AgenticPlatform.Onboarding
open AgenticPlatform.Foundation AgenticPlatform.Identity

/-- What a reviewer signs. -/
structure Content where
  schema : Option Json
  instanceTable : Option Json
deriving DecidableEq

def OnboardingDb.content (db : OnboardingDb) (id : Uuid) : Content :=
  ⟨(db.artifactsFor id).schema, (db.artifactsFor id).instanceTable⟩

/-- What was effective when the last approval of the session was committed. -/
def approvedContent : List CommitEvent → Uuid → Option Content
  | [], _ => none
  | .edited _ _ :: earlier, id => approvedContent earlier id
  | .approved sessionId _ schema table :: earlier, id =>
    if sessionId = id then some ⟨schema, table⟩ else approvedContent earlier id

def OnboardingDb.isSettled (db : OnboardingDb) (id : Uuid) : Prop :=
  ∃ status ∈ db.statusOf id, status.settled

instance (db : OnboardingDb) : DecidablePred db.isSettled :=
  fun id => inferInstanceAs (Decidable (∃ status ∈ db.statusOf id, status.settled))

/-- An approved or published session has the content that was approved. -/
def ApprovedKept (s : OnboardingState) : Prop :=
  ∀ id, s.db.isSettled id → approvedContent s.journal id = some (s.db.content id)

/-- An edit leaves an approved session's content as it is; a publication finds its session
still approved, or as it was approved. -/
def commitSafe (s : OnboardingState) (x : Txn) : Prop :=
  match x.work with
  | .edit q _ => s.db.isSettled q.sessionId →
    (x.view s.db).content q.sessionId = s.db.content q.sessionId
  | .approve _ _ _ => True
  | .publish id _ => s.db.isSettled id ∨ approvedContent s.journal id = some (s.db.content id)

instance (s : OnboardingState) (x : Txn) : Decidable (commitSafe s x) := by
  unfold commitSafe
  split
  · infer_instance
  · infer_instance
  · infer_instance

/-- The artifact an execution stores next. -/
def DraftPhase.nextWrite : DraftPhase → Option (ArtifactKey × Json)
  | .writing _ (write :: _) _ => some write
  | _ => none

/-- So does a worker. -/
def contentSafe (s : OnboardingState) : OnboardingAct → Prop
  | .commit no => ∀ x ∈ s.txns.get no, commitSafe s x
  | .put i => ∀ write ∈ (s.execs i).nextWrite, s.db.isSettled write.1.sessionId →
    (s.db.putArtifact write.1 write.2).content write.1.sessionId = s.db.content write.1.sessionId
  | _ => True

instance (s : OnboardingState) : (a : OnboardingAct) → Decidable (contentSafe s a)
  | .commit no => inferInstanceAs (Decidable (∀ x ∈ s.txns.get no, _))
  | .put i => inferInstanceAs (Decidable (∀ write ∈ (s.execs i).nextWrite, _ → _))
  | .create .. | .begin .. | .statement .. | .rollback _ | .cancel .. | .startDraft .. |
    .progress .. | .analyzed ..
  | .ready .. | .giveUp .. | .crash _ => isTrue trivial

section
variable {env : OnboardingEnv} {s t : OnboardingState} {a : OnboardingAct} {db db' : OnboardingDb}
  {x : Txn} {id : Uuid}

theorem isSettled_iff : db.isSettled id ↔ ∃ r ∈ db.sessions.rows, r.id = id ∧ r.status.settled := by
  constructor
  · rintro ⟨status, hstatus, hsettled⟩
    obtain ⟨r, hr, hid, rfl⟩ := statusOf_eq_some.mp hstatus
    exact ⟨r, hr, hid, hsettled⟩
  · rintro ⟨r, hr, hid, hsettled⟩
    exact ⟨r.status, statusOf_eq_some.mpr ⟨r, hr, hid, rfl⟩, hsettled⟩

/-- No session becomes approved, and nothing is written. -/
theorem approvedKept_of_rows (hs : ApprovedKept s) (hartifacts : t.db.artifacts = s.db.artifacts)
    (hjournal : t.journal = s.journal)
    (hrows : ∀ r' ∈ t.db.sessions.rows, r'.status.settled → s.db.isSettled r'.id) :
    ApprovedKept t := by
  intro id hsettled
  obtain ⟨r', hr', rfl, hr'settled⟩ := isSettled_iff.mp hsettled
  have hcontent : t.db.content r'.id = s.db.content r'.id := by
    simp only [OnboardingDb.content, OnboardingDb.artifactsFor, hartifacts]
  rw [hjournal, hcontent]
  exact hs r'.id (hrows r' hr' hr'settled)

theorem approvedKept_update (hs : ApprovedKept s) {p : SessionRow → Prop} [DecidablePred p]
    {f : SessionRow → SessionRow} (hf : ∀ r, (f r).id = r.id)
    (hsettled : ∀ r, p r → (f r).status.settled → r.status.settled)
    (hartifacts : t.db.artifacts = s.db.artifacts) (hjournal : t.journal = s.journal)
    (hsessions : t.db.sessions = s.db.sessions.updateWhere p f hf) : ApprovedKept t := by
  refine approvedKept_of_rows hs hartifacts hjournal ?_
  intro r' hr' hr'settled
  rw [hsessions] at hr'
  rcases Table.mem_updateWhere hf hr' with ⟨hr, -⟩ | ⟨r, hr, hp, rfl⟩
  · exact isSettled_iff.mpr ⟨r', hr, rfl, hr'settled⟩
  · exact isSettled_iff.mpr ⟨r, hr, (hf r).symm, hsettled r hp hr'settled⟩

/-- A step after which the same sessions are approved, by the same approvals, keeps what was
approved exactly if it leaves their content as it is. -/
theorem approvedKept_iff (hs : ApprovedKept s)
    (hsettled : ∀ id, t.db.isSettled id ↔ s.db.isSettled id)
    (hjournal : ∀ id, approvedContent t.journal id = approvedContent s.journal id)
    (sessionId : Uuid) (hothers : ∀ id, id ≠ sessionId → t.db.content id = s.db.content id) :
    ApprovedKept t ↔
      (s.db.isSettled sessionId → t.db.content sessionId = s.db.content sessionId) := by
  constructor
  · intro ht hsession
    have hafter := ht sessionId ((hsettled sessionId).mpr hsession)
    rw [hjournal, hs sessionId hsession] at hafter
    exact (Option.some.inj hafter).symm
  · intro hkept id hid
    have hbefore := (hsettled id).mp hid
    rw [hjournal, hs id hbefore]
    by_cases hsame : id = sessionId
    · subst hsame
      rw [hkept hbefore]
    · rw [hothers id hsame]

theorem content_putArtifact {key : ArtifactKey} {payload : Json} (h : id ≠ key.sessionId) :
    (db.putArtifact key payload).content id = db.content id := by
  have hkey : ∀ kind, singleton id kind ≠ key := by
    rintro kind rfl
    exact h rfl
  simp only [OnboardingDb.content, OnboardingDb.artifactsFor, OnboardingDb.putArtifact,
    Function.update_of_ne (hkey _)]

theorem content_view (h : ∀ p ∈ x.artifacts, p.1.sessionId ≠ id) :
    (x.view db).content id = db.content id := by
  have hlookup : ∀ kind, x.artifacts.lookup (singleton id kind) = none := by
    intro kind
    rw [List.lookup_eq_none_iff]
    intro p hp
    rw [bne_iff_ne]
    intro hkey
    exact h p hp (congrArg ArtifactKey.sessionId hkey).symm
  simp only [OnboardingDb.content, OnboardingDb.artifactsFor, Txn.view, hlookup, Option.none_or]

/-- An edit that commits changes the status of no session. -/
theorem isSettled_commit_edit (hs : OnboardingInv s) (hx : x ∈ s.txns.rows) {q : EditRequest}
    {stage : EditStage} (hwork : x.work = .edit q stage) (hfinished : x.work.finished) :
    (x.view s.db).isSettled id ↔ s.db.isSettled id := by
  have hsame : ∀ r₁ ∈ (x.view s.db).sessions.rows, ∃ r ∈ s.db.sessions.rows, r.id = r₁.id ∧
      r₁.status = r.status := by
    intro r₁ hr₁
    rcases committed_row hs hx hfinished hr₁ with ⟨hr₁, -⟩ | ⟨r, hr, hid, hdrift⟩
    · exact ⟨r₁, hr₁, rfl, rfl⟩
    · rw [hwork] at hdrift
      exact ⟨r, hr, hid, hdrift.2.1⟩
  rw [isSettled_iff, isSettled_iff]
  constructor
  · rintro ⟨r₁, hr₁, rfl, hsettled⟩
    obtain ⟨r, hr, hid, hstatus⟩ := hsame r₁ hr₁
    exact ⟨r, hr, hid, hstatus ▸ hsettled⟩
  · rintro ⟨r, hr, rfl, hsettled⟩
    have hkey : r.id ∈ (x.view s.db).sessions.keys :=
      (congrArg (fun keys => r.id ∈ keys) (Table.keys_overlay s.db.sessions x.sessions)).mpr
        (Table.key_mem_keys hr)
    obtain ⟨r₁, hr₁, hid⟩ := Table.mem_keys.mp hkey
    obtain ⟨r₀, hr₀, hid₀, hstatus⟩ := hsame r₁ hr₁
    cases Table.eq_of_key hr₀ hr (hid₀.trans hid)
    exact ⟨r₁, hr₁, hid, hstatus ▸ hsettled⟩

/-- An approval records what is effective when it commits. -/
theorem approvedKept_approve (hs : OnboardingInv s) (hkept : ApprovedKept s) (hx : x ∈ s.txns.rows)
    {sessionId by_ : Uuid} {stage : ApproveStage} (hwork : x.work = .approve sessionId by_ stage)
    (hfinished : x.work.finished) (hdb : t.db = x.view s.db)
    (hjournal : t.journal = x.work.events (x.view s.db) ++ s.journal) : ApprovedKept t := by
  have hsound := hs.sound x hx
  have hcontent : ∀ id, (x.view s.db).content id = s.db.content id := by
    intro id
    refine content_view ?_
    intro p hp
    have hnone := hsound.edits p hp
    rw [hwork] at hnone
    exact hnone.elim
  intro id hsettled
  have hevents : approvedContent t.journal id =
      if sessionId = id then some (s.db.content sessionId) else approvedContent s.journal id := by
    rw [hjournal, hwork, ← hcontent sessionId]
    rfl
  rw [hevents, hdb, hcontent]
  by_cases hsame : sessionId = id
  · rw [if_pos hsame, hsame]
  · rw [if_neg hsame]
    refine hkept id (isSettled_iff.mpr ?_)
    rw [hdb] at hsettled
    obtain ⟨r₁, hr₁, rfl, hr₁settled⟩ := isSettled_iff.mp hsettled
    rcases committed_row hs hx hfinished hr₁ with ⟨hr₁, -⟩ | ⟨r, hr, hid, hdrift⟩
    · exact ⟨r₁, hr₁, rfl, hr₁settled⟩
    · rw [hwork] at hdrift
      exact absurd hdrift.1.symm hsame

theorem approvedKept_publish (hs : OnboardingInv s) (hkept : ApprovedKept s) (hx : x ∈ s.txns.rows)
    {sessionId : Uuid} {stage : PublishStage} (hwork : x.work = .publish sessionId stage)
    (hfinished : x.work.finished) (hdb : t.db = x.view s.db)
    (hjournal : t.journal = x.work.events (x.view s.db) ++ s.journal) :
    ApprovedKept t ↔ s.db.isSettled sessionId ∨
      approvedContent s.journal sessionId = some (s.db.content sessionId) := by
  have hsound := hs.sound x hx
  have hcontent : ∀ id, t.db.content id = s.db.content id := by
    intro id
    rw [hdb]
    refine content_view ?_
    intro p hp
    have hnone := hsound.edits p hp
    rw [hwork] at hnone
    exact hnone.elim
  have hevents : t.journal = s.journal := by
    rw [hjournal, hwork]
    rfl
  constructor
  · intro ht
    -- the row the publication has written
    obtain ⟨r', hr', hid⟩ := List.mem_map.mp (hsound.stamped hfinished)
    obtain ⟨r, hr, hsame, -⟩ := hsound.drift r' hr'
    rw [hwork] at hid
    have hkey : sessionId ∈ (x.view s.db).sessions.keys := by
      refine (congrArg (fun keys => sessionId ∈ keys)
        (Table.keys_overlay s.db.sessions x.sessions)).mpr ?_
      exact Table.mem_keys.mpr ⟨r, hr, hsame.trans hid⟩
    obtain ⟨r₁, hr₁, hid₁⟩ := Table.mem_keys.mp hkey
    have hsettled : t.db.isSettled sessionId := by
      rw [hdb]
      refine isSettled_iff.mpr ⟨r₁, hr₁, hid₁, ?_⟩
      rcases committed_row hs hx hfinished hr₁ with ⟨-, hother⟩ | ⟨r, -, -, hdrift⟩
      · rw [hwork] at hother
        exact absurd hid₁ hother
      · rw [hwork] at hdrift
        exact hdrift.2.2.1
    have hafter := ht sessionId hsettled
    rw [hevents, hcontent] at hafter
    exact Or.inr hafter
  · intro hsafe id hsettled
    rw [hevents, hcontent]
    rw [hdb] at hsettled
    obtain ⟨r₁, hr₁, rfl, hr₁settled⟩ := isSettled_iff.mp hsettled
    rcases committed_row hs hx hfinished hr₁ with ⟨hr₁, -⟩ | ⟨r, hr, hid, hdrift⟩
    · exact hkept r₁.id (isSettled_iff.mpr ⟨r₁, hr₁, rfl, hr₁settled⟩)
    · rw [hwork] at hdrift
      rcases hdrift.2.2.2 with hown | hpublished
      · have hsession : r₁.id = sessionId := hown
        rw [hsession]
        rcases hsafe with hbefore | hsame
        · exact hkept sessionId hbefore
        · exact hsame
      · exact hkept r₁.id (isSettled_iff.mpr ⟨r, hr, hid, Or.inr hpublished⟩)

theorem approvedKept_commit (hs : OnboardingInv s) (hkept : ApprovedKept s) (hx : x ∈ s.txns.rows)
    (hfinished : x.work.finished) (hdb : t.db = x.view s.db)
    (hjournal : t.journal = x.work.events (x.view s.db) ++ s.journal) :
    ApprovedKept t ↔ commitSafe s x := by
  cases hwork : x.work with
  | edit q stage =>
    have hsafe : commitSafe s x ↔
        (s.db.isSettled q.sessionId →
          (x.view s.db).content q.sessionId = s.db.content q.sessionId) := by
      rw [commitSafe, hwork]
    rw [hsafe, ← hdb]
    refine approvedKept_iff hkept ?_ ?_ q.sessionId ?_
    · intro id
      rw [hdb]
      exact isSettled_commit_edit hs hx hwork hfinished
    · intro id
      rw [hjournal, hwork]
      rfl
    · intro id hid
      rw [hdb]
      refine content_view ?_
      intro p hp
      have hown := (hs.sound x hx).edits p hp
      rw [hwork] at hown
      exact fun hsame => hid (hsame.symm.trans hown)
  | approve sessionId by_ stage =>
    have hsafe : commitSafe s x := by
      rw [commitSafe, hwork]
      trivial
    exact iff_of_true (approvedKept_approve hs hkept hx hwork hfinished hdb hjournal) hsafe
  | publish sessionId stage =>
    rw [approvedKept_publish hs hkept hx hwork hfinished hdb hjournal, commitSafe, hwork]

theorem contentSafe_of_quiet (h : a.quiet) : contentSafe s a := by
  cases a with
  | statement | rollback | startDraft | analyzed | crash => trivial
  | _ => exact h.elim

/-- A step keeps what was approved exactly if it meets the condition. -/
theorem approvedKept_step (hs : OnboardingInv s) (hkept : ApprovedKept s)
    (h : onboardingStep env s a = some t) : ApprovedKept t ↔ contentSafe s a := by
  cases onboardingStep_move h with
  | create id domain collection runId by_ now sessions hfresh hrows =>
    refine iff_of_true (approvedKept_of_rows hkept rfl rfl ?_) trivial
    intro r' hr' hsettled
    change r' ∈ sessions.rows at hr'
    rw [hrows] at hr'
    rcases List.mem_append.mp hr' with hr' | hr'
    · exact isSettled_iff.mpr ⟨r', hr', rfl, hsettled⟩
    · cases List.mem_singleton.mp hr'
      exact absurd hsettled (show ¬ SessionStatus.settled .drafting by decide)
  | begin no q txns hrows => exact iff_of_true hkept trivial
  | write no now x o hx hno hfree ho => exact iff_of_true hkept trivial
  | drop a no hquiet => exact iff_of_true hkept (contentSafe_of_quiet hquiet)
  | commit no x hx hno hfinished =>
    rw [approvedKept_commit hs hkept hx hfinished rfl rfl]
    have hget : s.txns.get no = some x := Table.get_eq_some.mpr ⟨hx, hno⟩
    simp [contentSafe, hget]
  | cancel id now hfree =>
    refine iff_of_true ?_ trivial
    refine approvedKept_update (p := fun r => r.id = id ∧ cancellable r) (f := asCancelled now)
      hkept (fun _ => rfl) ?_ rfl rfl rfl
    intro r _ hsettled
    exact absurd hsettled (show ¬ SessionStatus.settled .cancelled by decide)
  | progress i id entry now hfree =>
    refine iff_of_true ?_ trivial
    exact approvedKept_update (p := fun r => r.id = id) (f := withProgress entry now) hkept
      (fun _ => rfl) (fun _ _ hsettled => hsettled) rfl rfl rfl
  | put i id key payload rest stats hphase =>
    refine (approvedKept_iff
      (t := { s.exec i (.writing id rest stats) with db := s.db.putArtifact key payload }) hkept
      (fun _ => Iff.rfl) (fun _ => rfl) key.sessionId
      (fun _ hother => content_putArtifact hother)).trans ?_
    simp [contentSafe, hphase, DraftPhase.nextWrite]
  | ready i id stats now hphase hfree =>
    refine iff_of_true ?_ trivial
    refine approvedKept_update (p := fun r => r.id = id)
      (f := withStatus .draftReady none (some stats) now) hkept (fun _ => rfl) ?_ rfl rfl rfl
    intro r _ hsettled
    exact absurd hsettled (show ¬ SessionStatus.settled .draftReady by decide)
  | giveUp i id error now hphase hfree =>
    refine iff_of_true ?_ trivial
    refine approvedKept_update (p := fun r => r.id = id)
      (f := withStatus .failed (some error) none now) hkept (fun _ => rfl) ?_ rfl rfl rfl
    intro r _ hsettled
    exact absurd hsettled (show ¬ SessionStatus.settled .failed by decide)
  | exec a execs hquiet => exact iff_of_true hkept (contentSafe_of_quiet hquiet)

/-- What was approved stays what is effective, and what is published, throughout a run,
exactly if every edit and every worker leaves an approved session's content as it is, and
every publication finds its session still approved. -/
theorem approved_is_published_iff {acts : List OnboardingAct}
    (hrun : Reaches (onboardingStep env) .initial acts s) :
    Throughout (onboardingStep env) ApprovedKept .initial acts ↔
      Reaches (restrict contentSafe (onboardingStep env)) .initial acts s := by
  have hinv : Throughout (onboardingStep env) OnboardingInv .initial acts :=
    Throughout.of_invariant (fun _ _ _ hs h => onboardingInv_step h hs) onboardingInv_initial acts
  have hstart : ApprovedKept .initial := by
    rintro id ⟨status, hstatus, -⟩
    cases hstatus
  have hstep : ∀ m a m', OnboardingInv m → OnboardingInv m' → ApprovedKept m →
      onboardingStep env m a = some m' → (ApprovedKept m' ↔ contentSafe m a) :=
    fun _ _ _ hm _ hkept h => approvedKept_step hm hkept h
  exact Throughout.iff_restrict hstep hinv hstart hrun

end

/-- Edited by principal 2, approved by principal 3, published; the next draft of the domain
is under way. -/
def editedThenApproved : List OnboardingAct :=
  draftedSession ++ [.begin 1 (.edit ⟨10, "edited", [], 2⟩)] ++ List.replicate 6 (.statement 1 2) ++
  [.commit 1, .begin 2 (.approve 10 3), .statement 2 3, .statement 2 3, .commit 2,
   .create 11 "plant" "manuals" none 1 4, .startDraft 0 11, .analyzed 0 (schemaOnly "other"),
   .begin 3 (.publish 10), .statement 3 5, .put 0, .statement 3 5, .statement 3 5, .commit 3]

theorem editedThenApproved_run :
    (editedThenApproved.foldlM (restrict contentSafe (onboardingStep plainTexts)) .initial).map
      (fun s => (s.db.statusOf 10, s.db.content 10)) =
        some (some .published, ⟨some (.obj [("yaml", .str "edited")]), none⟩) := by
  decide +kernel

theorem approved_is_published_editedThenApproved :
    ∃ s, Reaches (onboardingStep plainTexts) .initial editedThenApproved s ∧
      s.db.statusOf 10 = some .published ∧
      s.db.content 10 = ⟨some (.obj [("yaml", .str "edited")]), none⟩ ∧
      Throughout (onboardingStep plainTexts) ApprovedKept .initial editedThenApproved := by
  obtain ⟨s, hrun, hfacts⟩ := Option.map_eq_some_iff.mp editedThenApproved_run
  obtain ⟨hstatus, hcontent⟩ := Prod.ext_iff.mp hfacts
  have hreach : Reaches (onboardingStep plainTexts) .initial editedThenApproved s :=
    Reaches.of_restrict hrun
  exact ⟨s, hreach, hstatus, hcontent, (approved_is_published_iff hreach).mpr hrun⟩

/-- Principal 2 edits the session, and principal 3 approves it, at once: the edit has found
it ready for review, and the approval finds the draft. -/
def editOverApproval : List OnboardingAct :=
  draftedSession ++ [.begin 1 (.edit ⟨10, "edited", [], 2⟩)] ++ List.replicate 5 (.statement 1 2) ++
  [.begin 2 (.approve 10 3), .statement 2 3, .statement 2 3, .commit 2, .statement 1 4, .commit 1,
   .begin 3 (.publish 10), .statement 3 5, .statement 3 5, .statement 3 5, .commit 3]

theorem editOverApproval_run :
    (editOverApproval.foldlM (onboardingStep plainTexts) .initial).map (fun s => (s.db.statusOf 10,
      approvedContent s.journal 10, s.db.content 10, decide (s.db.isSettled 10))) =
      some (some .published, some ⟨some (.obj [("yaml", .str "drafted")]), none⟩,
        ⟨some (.obj [("yaml", .str "edited")]), none⟩, true) := by
  decide +kernel

/-- The draft was approved, the edit is published. -/
theorem unapproved_edit_published :
    ∃ s, Reaches (onboardingStep plainTexts) .initial editOverApproval s ∧
      s.db.statusOf 10 = some .published ∧
      approvedContent s.journal 10 = some ⟨some (.obj [("yaml", .str "drafted")]), none⟩ ∧
      s.db.content 10 = ⟨some (.obj [("yaml", .str "edited")]), none⟩ ∧ ¬ ApprovedKept s := by
  obtain ⟨s, hrun, hfacts⟩ := Option.map_eq_some_iff.mp editOverApproval_run
  simp only [Prod.mk.injEq, decide_eq_true_eq] at hfacts
  obtain ⟨hstatus, happroved, hcontent, hsettled⟩ := hfacts
  refine ⟨s, hrun, hstatus, happroved, hcontent, ?_⟩
  intro hkept
  have hsame := hkept 10 hsettled
  rw [happroved, hcontent] at hsame
  revert hsame
  decide

end AgenticPlatform.Onboarding
