import AgenticPlatform.Onboarding.SessionSystem

/-!
# The maker is not the checker

Who edited a schema last is in the session row, under a constraint that compares it with
the approver whenever either is written. The row of the session is locked from that write
to the commit, so the record and the history of the commits never part.
-/
namespace AgenticPlatform.Onboarding
open AgenticPlatform.Foundation AgenticPlatform.Identity

def CommitEvent.editor (id : Uuid) : CommitEvent → Option Uuid
  | .edited sessionId by_ => if sessionId = id then some by_ else none
  | .approved _ _ _ _ => none

/-- Whose edit of the session was committed last. -/
def lastEditor (journal : List CommitEvent) (id : Uuid) : Option Uuid :=
  journal.findSome? (CommitEvent.editor id)

/-- The next statement would put an approver beside the same creator or editor. -/
def Work.breaks (view : OnboardingDb) : Work → Prop
  | .approve id by_ .update =>
    ∃ r ∈ view.sessions.rows, r.id = id ∧ (r.createdBy = some by_ ∨ r.schemaEditedBy = some by_)
  | .edit q .stamp => ∃ r ∈ view.sessions.rows, r.id = q.sessionId ∧ r.approvedBy = some q.by_
  | _ => False

section
variable {env : OnboardingEnv} {s t : OnboardingState} {a : OnboardingAct}

theorem lastEditor_cons (e : CommitEvent) (journal : List CommitEvent) (id : Uuid) :
    lastEditor (e :: journal) id = (e.editor id).or (lastEditor journal id) := by
  rw [lastEditor, List.findSome?_cons]
  cases e.editor id <;> rfl

/-- The commits of one session are about no other. -/
theorem lastEditor_events {w : Work} {db : OnboardingDb} {journal : List CommitEvent} {id : Uuid}
    (h : id ≠ w.sessionId) : lastEditor (w.events db ++ journal) id = lastEditor journal id := by
  cases w with
  | edit q stage =>
    have hnone : (CommitEvent.edited q.sessionId q.by_).editor id = none := if_neg (Ne.symm h)
    exact (lastEditor_cons _ _ _).trans (by rw [hnone]; rfl)
  | approve sessionId by_ stage => exact lastEditor_cons _ _ _
  | publish sessionId stage => rfl

structure EditorsInv (s : OnboardingState) : Prop where
  recorded : ∀ r ∈ s.db.sessions.rows, lastEditor s.journal r.id = r.schemaEditedBy
  known : ∀ id ∉ s.db.sessions.keys, lastEditor s.journal id = none

theorem editorsInv_initial : EditorsInv .initial where
  recorded := by
    intro r hr
    cases hr
  known := fun _ _ => rfl

theorem editorsInv_update (hs : EditorsInv s) {p : SessionRow → Prop} [DecidablePred p]
    {f : SessionRow → SessionRow} (hf : ∀ r, (f r).id = r.id)
    (heditor : ∀ r, (f r).schemaEditedBy = r.schemaEditedBy)
    (hsessions : t.db.sessions = s.db.sessions.updateWhere p f hf)
    (hjournal : t.journal = s.journal) : EditorsInv t where
  recorded := by
    rw [hsessions, hjournal]
    intro r hr
    rcases Table.mem_updateWhere hf hr with ⟨hr, -⟩ | ⟨r₀, hr₀, -, rfl⟩
    · exact hs.recorded r hr
    · rw [hf, heditor]
      exact hs.recorded r₀ hr₀
  known := by
    rw [hsessions, hjournal, Table.keys_updateWhere]
    exact hs.known

theorem editorsInv_commit (hinv : OnboardingInv s) (hs : EditorsInv s) {x : Txn}
    (hx : x ∈ s.txns.rows) (hfinished : x.work.finished) (hdb : t.db = x.view s.db)
    (hjournal : t.journal = x.work.events (x.view s.db) ++ s.journal) : EditorsInv t where
  recorded := by
    rw [hdb, hjournal]
    intro r₁ hr₁
    rcases committed_row hinv hx hfinished hr₁ with ⟨hr, hne⟩ | ⟨r, hr, hid, hdrift⟩
    · rw [lastEditor_events hne]
      exact hs.recorded r₁ hr
    · have hold : lastEditor s.journal r₁.id = r.schemaEditedBy := hid ▸ hs.recorded r hr
      cases hwork : x.work with
      | edit q stage =>
        rw [hwork] at hdrift
        obtain ⟨hsession, -, -, heditor⟩ := hdrift
        have hby : (CommitEvent.edited q.sessionId q.by_).editor r₁.id = some q.by_ :=
          if_pos hsession.symm
        refine (lastEditor_cons _ _ _).trans ?_
        rw [hby, heditor]
        rfl
      | approve id by_ stage =>
        rw [hwork] at hdrift
        exact (lastEditor_cons _ _ _).trans (hold.trans hdrift.2.2.2.2.symm)
      | publish id stage =>
        rw [hwork] at hdrift
        exact hold.trans hdrift.2.1.symm
  known := by
    rw [hdb, hjournal]
    intro id hid
    have hmissing : id ∉ s.db.sessions.keys := by
      intro hmem
      exact hid ((congrArg (fun keys => id ∈ keys)
        (Table.keys_overlay s.db.sessions x.sessions)).mpr hmem)
    have hsession := (hinv.sound x hx).known (finished_opened hfinished)
    have hne : id ≠ x.work.sessionId := by
      rintro rfl
      exact hmissing hsession
    rw [lastEditor_events hne]
    exact hs.known id hmissing

theorem editorsInv_step (hinv : OnboardingInv s) (hs : EditorsInv s)
    (h : onboardingStep env s a = some t) : EditorsInv t := by
  cases onboardingStep_move h with
  | create id domain collection runId by_ now sessions hfresh hrows =>
    constructor
    · intro r hr
      change r ∈ sessions.rows at hr
      rw [hrows] at hr
      rcases List.mem_append.mp hr with hr | hr
      · exact hs.recorded r hr
      · rw [List.mem_singleton.mp hr]
        exact hs.known id hfresh
    · intro k hk
      refine hs.known k ?_
      intro hmem
      obtain ⟨r, hr, rfl⟩ := Table.mem_keys.mp hmem
      refine hk (Table.key_mem_keys (t := sessions) ?_)
      rw [hrows]
      exact List.mem_append_left _ hr
  | begin no q txns hrows => exact ⟨hs.recorded, hs.known⟩
  | write no now x o hx hno hfree ho => exact ⟨hs.recorded, hs.known⟩
  | drop a no hquiet => exact ⟨hs.recorded, hs.known⟩
  | commit no x hx hno hfinished => exact editorsInv_commit hinv hs hx hfinished rfl rfl
  | cancel id now hfree =>
    exact editorsInv_update (p := fun r => r.id = id ∧ cancellable r) (f := asCancelled now) hs
      (fun _ => rfl) (fun _ => rfl) rfl rfl
  | progress i id entry now hfree =>
    exact editorsInv_update (p := fun r => r.id = id) (f := withProgress entry now) hs
      (fun _ => rfl) (fun _ => rfl) rfl rfl
  | put i id key payload rest stats hphase => exact ⟨hs.recorded, hs.known⟩
  | ready i id stats now hphase hfree =>
    exact editorsInv_update (p := fun r => r.id = id)
      (f := withStatus .draftReady none (some stats) now) hs (fun _ => rfl) (fun _ => rfl) rfl rfl
  | giveUp i id error now hphase hfree =>
    exact editorsInv_update (p := fun r => r.id = id)
      (f := withStatus .failed (some error) none now) hs (fun _ => rfl) (fun _ => rfl) rfl rfl
  | exec a execs hquiet => exact ⟨hs.recorded, hs.known⟩

theorem inv_reaches {acts : List OnboardingAct} (h : Reaches (onboardingStep env) .initial acts s) :
    OnboardingInv s ∧ EditorsInv s := by
  refine h.invariant (P := fun s => OnboardingInv s ∧ EditorsInv s) ?_
    ⟨onboardingInv_initial, editorsInv_initial⟩
  rintro m a m' ⟨hinv, hs⟩ hstep
  exact ⟨onboardingInv_step hstep hinv, editorsInv_step hinv hs hstep⟩

/-- A CHECK refuses the row. -/
theorem statement_of_breaks (env : OnboardingEnv) (now : Time) {w : Work} {view : OnboardingDb}
    (h : w.breaks view) : ∃ e, w.statement env view now = .error e := by
  cases w with
  | edit q stage =>
    cases stage with
    | stamp =>
      obtain ⟨r, hr, hid, happroved⟩ := h
      have hget : view.sessions.get q.sessionId = some r := Table.get_eq_some.mpr ⟨hr, hid⟩
      have hnone : asEdited q.by_ now r = none := dif_neg (not_not_intro happroved)
      exact ⟨.checkViolation, by simp [Work.statement, editStatement, hget, hnone, Except.map]⟩
    | _ => cases h
  | approve id by_ stage =>
    cases stage with
    | update =>
      obtain ⟨r, hr, hid, hsame⟩ := h
      have hget : view.sessions.get id = some r := Table.get_eq_some.mpr ⟨hr, hid⟩
      have hnone : asApproved by_ now r = none := by
        refine dif_neg ?_
        rintro ⟨hcreator, heditor⟩
        exact hsame.elim hcreator heditor
      by_cases hready : r.status = .draftReady
      · exact ⟨.checkViolation, by
          simp [Work.statement, approveStatement, hget, hready, hnone, Except.map, Option.filter]⟩
      · exact ⟨.changedConcurrently, by
          simp [Work.statement, approveStatement, hget, hready, Except.map, Option.filter]⟩
    | _ => cases h
  | publish id stage => cases h

/-- In every committed state an approver is neither the creator nor the one whose edit was
committed last; an approval that commits is not by the last editor; and a statement that
would put them together ends its transaction and leaves what is committed as it was. -/
theorem maker_is_not_checker {acts : List OnboardingAct}
    (hrun : Reaches (onboardingStep env) .initial acts s) :
    (∀ r ∈ s.db.sessions.rows, ∀ approver ∈ r.approvedBy,
      r.createdBy ≠ some approver ∧ lastEditor s.journal r.id ≠ some approver) ∧
      (∀ no x id by_ t, s.txns.get no = some x → x.work = .approve id by_ .done →
        onboardingStep env s (.commit no) = some t → lastEditor t.journal id ≠ some by_) ∧
      (∀ no now x t, s.txns.get no = some x → x.work.breaks (x.view s.db) →
        onboardingStep env s (.statement no now) = some t → t.db = s.db ∧ no ∉ t.txns.keys) := by
  obtain ⟨hinv, hs⟩ := inv_reaches hrun
  refine ⟨?_, ?_, ?_⟩
  · intro r hr approver happroved
    rw [hs.recorded r hr]
    exact ⟨r.no_self_approval approver happroved, r.editor_is_not_approver approver happroved⟩
  · intro no x id by_ t hget hwork hstep
    obtain ⟨hx, -⟩ := Table.get_eq_some.mp hget
    have hfinished : x.work.finished := by
      rw [hwork]
      rfl
    have hjournal : t.journal = x.work.events (x.view s.db) ++ s.journal := by
      simp only [onboardingStep, hget, if_pos hfinished, Option.some_inj] at hstep
      rw [← hstep]
    -- the row the approval wrote, and the one it found
    obtain ⟨r', hr', hid⟩ := List.mem_map.mp ((hinv.sound x hx).stamped hfinished)
    obtain ⟨r, hr, hsame, hdrift⟩ := (hinv.sound x hx).drift r' hr'
    rw [hwork] at hid hdrift
    obtain ⟨-, -, -, happroved, heditor⟩ := hdrift
    have hlast : lastEditor t.journal id = r.schemaEditedBy := by
      rw [hjournal, hwork]
      refine (lastEditor_cons _ _ _).trans ?_
      rw [← hs.recorded r hr, hsame, hid]
      rfl
    rw [hlast, ← heditor]
    exact r'.editor_is_not_approver by_ happroved
  · intro no now x t hget hbreaks hstep
    obtain ⟨e, he⟩ := statement_of_breaks env now hbreaks
    simp only [onboardingStep, hget, he] at hstep
    split at hstep
    · cases hstep
      refine ⟨rfl, ?_⟩
      intro hmem
      obtain ⟨y, hy, hno⟩ := Table.mem_keys.mp hmem
      exact (mem_closed.mp hy).2 hno
    · cases hstep

end

/-- Principal 2 edits and approves at once; the approval has read the row before the edit is
committed. Principal 3 approves afterwards. -/
def racingEditor : List OnboardingAct :=
  draftedSession ++
  [.begin 1 (.edit ⟨10, "edited", [], 2⟩), .begin 2 (.approve 10 2)] ++
    List.replicate 5 (.statement 1 2) ++
  [.statement 2 2, .statement 1 2, .commit 1, .statement 2 2,
   .begin 3 (.approve 10 3), .statement 3 3, .statement 3 3, .commit 3]

theorem racingEditor_run :
    (racingEditor.foldlM (onboardingStep plainTexts) .initial).isSome = true := by
  decide +kernel

theorem maker_is_not_checker_racingEditor :
    ∃ s, Reaches (onboardingStep plainTexts) .initial racingEditor s ∧
      s.db.sessions.rows.map (fun r => (r.status, r.approvedBy, r.schemaEditedBy)) =
      [(.approved, some 3, some 2)] ∧
      (∀ r ∈ s.db.sessions.rows, ∀ approver ∈ r.approvedBy,
        r.createdBy ≠ some approver ∧ lastEditor s.journal r.id ≠ some approver) := by
  have hrun := reaches_get racingEditor_run
  exact ⟨_, hrun, by decide +kernel, (maker_is_not_checker hrun).1⟩

end AgenticPlatform.Onboarding
