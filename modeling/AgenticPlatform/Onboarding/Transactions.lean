import AgenticPlatform.Foundation.Gate
import AgenticPlatform.Onboarding.Store

/-!
# The longer transactions

Editing a schema, approving a session and publishing it take several statements each. A
statement computes what it writes from what its transaction sees, or fails. What it
writes, it has a lock on.
-/
namespace AgenticPlatform.Onboarding
open AgenticPlatform.Foundation AgenticPlatform.Identity AgenticPlatform.Db

/-! ## Statements of the longer transactions -/

inductive OnboardingError where
  | sessionNotFound
  | notDraftReady (status : SessionStatus)
  | notApproved (status : SessionStatus)
  | noSchema
  | noTable
  | malformedTable
  | ownDraft
  | ownEdit
  | changedConcurrently
  | checkViolation
  | uniqueViolation
deriving DecidableEq

structure EditRequest where
  sessionId : Uuid
  yaml : String
  retype : List (String × String)
  by_ : Uuid
deriving DecidableEq

/-- The next statement of `edit_schema`. -/
inductive EditStage where
  | readSession | readSchema | findOriginal | copyOriginal | writeSchema
  | readTable | findOriginalTable (table : Json) | copyOriginalTable (table : Json) |
    writeTable (table : Json)
  | stamp | done
deriving DecidableEq

inductive ApproveStage where
  | readSession | update | done
deriving DecidableEq

inductive PublishStage where
  | readSession | demote (domain : String) | promote | done
deriving DecidableEq

inductive Work where
  | edit (q : EditRequest) (stage : EditStage)
  | approve (sessionId by_ : Uuid) (stage : ApproveStage)
  | publish (sessionId : Uuid) (stage : PublishStage)
deriving DecidableEq

/-- What a statement leads to and what it writes. -/
structure Outcome (σ : Type) where
  next : σ
  sessions : List SessionRow
  artifacts : List (ArtifactKey × Json)

def Outcome.reads {σ : Type} (next : σ) : Outcome σ := ⟨next, [], []⟩

def Outcome.map {σ τ : Type} (f : σ → τ) (o : Outcome σ) : Outcome τ :=
  ⟨f o.next, o.sessions, o.artifacts⟩

section
variable (env : OnboardingEnv) (view : OnboardingDb) (now : Time)

/-- A payload that is not NULL. -/
def OnboardingDb.payload (key : ArtifactKey) : Option Json :=
  (view.artifacts key).filter (fun p => p ≠ .null)

/-- UPDATE of the payload of a row, if there is one. -/
def OnboardingDb.overwrite (key : ArtifactKey) (payload : Json) : List (ArtifactKey × Json) :=
  if view.artifacts key = none then [] else [(key, payload)]

/-- INSERT … SELECT of the drafted copy. -/
def OnboardingDb.copyOriginal (sessionId : Uuid) (kind : ArtifactKind) :
    Except OnboardingError (List (ArtifactKey × Json)) :=
  if view.artifacts (drafted sessionId kind) ≠ none then .error .uniqueViolation
  else .ok ((view.artifacts (singleton sessionId kind)).toList.map
    (fun p => (drafted sessionId kind, p)))

def editStatement (q : EditRequest) : EditStage → Except OnboardingError (Outcome EditStage)
  | .readSession =>
    match view.sessions.get q.sessionId with
    | none => .error .sessionNotFound
    | some r => if r.status = .draftReady then .ok (.reads .readSchema)
      else .error (.notDraftReady r.status)
  | .readSchema =>
    match view.payload (singleton q.sessionId .schema) with
    | none => .error .noSchema
    | some _ => .ok (.reads .findOriginal)
  | .findOriginal =>
    .ok (.reads (if view.artifacts (drafted q.sessionId .schema) = none then .copyOriginal
      else .writeSchema))
  | .copyOriginal =>
    (view.copyOriginal q.sessionId .schema).map (fun new => ⟨.writeSchema, [], new⟩)
  | .writeSchema =>
    .ok ⟨if q.retype = [] then .stamp else .readTable, [],
      view.overwrite (singleton q.sessionId .schema) (.obj [("yaml", .str q.yaml)])⟩
  | .readTable =>
    match view.payload (singleton q.sessionId .instanceTable) with
    | none => .error .noTable
    | some table => .ok (.reads (.findOriginalTable table))
  | .findOriginalTable table =>
    .ok (.reads (if view.artifacts (drafted q.sessionId .instanceTable) =
      none then .copyOriginalTable table
      else .writeTable table))
  | .copyOriginalTable table =>
    (view.copyOriginal q.sessionId .instanceTable).map (fun new => ⟨.writeTable table, [], new⟩)
  | .writeTable table =>
    match retypeTable env q.retype table with
    | none => .error .malformedTable
    | some retyped =>
      .ok ⟨.stamp, [], view.overwrite (singleton q.sessionId .instanceTable) retyped⟩
  | .stamp =>
    match view.sessions.get q.sessionId with
    | none => .ok (.reads .done)
    | some r =>
      match asEdited q.by_ now r with
      | none => .error .checkViolation
      | some r' => .ok ⟨.done, [r'], []⟩
  | .done => .ok (.reads .done)

def approveStatement (sessionId by_ : Uuid) :
    ApproveStage → Except OnboardingError (Outcome ApproveStage)
  | .readSession =>
    match view.sessions.get sessionId with
    | none => .error .sessionNotFound
    | some r =>
      if r.status ≠ .draftReady then .error (.notDraftReady r.status)
      else if r.createdBy = some by_ then .error .ownDraft
      else if r.schemaEditedBy = some by_ then .error .ownEdit
      else .ok (.reads .update)
  | .update =>
    match (view.sessions.get sessionId).filter (fun r => r.status = .draftReady) with
    | none => .error .changedConcurrently
    | some r =>
      match asApproved by_ now r with
      | none => .error .checkViolation
      | some r' => .ok ⟨.done, [r'], []⟩
  | .done => .ok (.reads .done)

/-- The published sessions of a domain. -/
def OnboardingDb.publishedOf (domain : String) : List SessionRow :=
  view.sessions.rows.filter (fun r => r.domain = domain ∧ r.status = .published)

def publishStatement (sessionId : Uuid) :
    PublishStage → Except OnboardingError (Outcome PublishStage)
  | .readSession =>
    match view.sessions.get sessionId with
    | none => .error .sessionNotFound
    | some r => if r.status = .approved then .ok (.reads (.demote r.domain))
      else .error (.notApproved r.status)
  | .demote domain => .ok ⟨.promote, (view.publishedOf domain).map (asDemoted now), []⟩
  | .promote =>
    match view.sessions.get sessionId with
    | none => .ok (.reads .done)
    | some r =>
      if ∃ r' ∈ view.publishedOf r.domain, r'.id ≠ sessionId then .error .uniqueViolation
      else .ok ⟨.done, [asPublished now r], []⟩
  | .done => .ok (.reads .done)

def Work.statement : Work → Except OnboardingError (Outcome Work)
  | .edit q stage => (editStatement env view now q stage).map (Outcome.map (.edit q))
  | .approve sessionId by_ stage =>
    (approveStatement view now sessionId by_ stage).map (Outcome.map (.approve sessionId by_))
  | .publish sessionId stage =>
    (publishStatement view now sessionId stage).map (Outcome.map (.publish sessionId))

/-- What a statement has to wait for: a row it writes, or an entry of the index on the
published session of a domain. -/
inductive Lock where
  | session (id : Uuid)
  | artifact (key : ArtifactKey)
  | published (domain : String)
deriving DecidableEq

def Work.locks : Work → List Lock
  | .edit q .copyOriginal => [.artifact (drafted q.sessionId .schema)]
  | .edit q .writeSchema => [.artifact (singleton q.sessionId .schema)]
  | .edit q (.copyOriginalTable _) => [.artifact (drafted q.sessionId .instanceTable)]
  | .edit q (.writeTable _) => [.artifact (singleton q.sessionId .instanceTable)]
  | .edit q .stamp => [.session q.sessionId]
  | .approve sessionId _ .update => [.session sessionId]
  | .publish _ (.demote domain) => (view.publishedOf domain).map (fun r => .session r.id)
  | .publish sessionId .promote =>
    .session sessionId :: ((view.sessions.get sessionId).toList.map (fun r => .published r.domain))
  | _ => []

end

/-- All statements are through. -/
def Work.finished : Work → Prop
  | .edit _ stage => stage = .done
  | .approve _ _ stage => stage = .done
  | .publish _ stage => stage = .done

instance : DecidablePred Work.finished
  | .edit _ _ | .approve _ _ _ | .publish _ _ => inferInstanceAs (Decidable (_ = _))

/-! ## What a statement writes -/

section
variable {env : OnboardingEnv} {view : OnboardingDb} {now : Time}

theorem asEdited_eq_some {by_ : Uuid} {r r' : SessionRow} (h : asEdited by_ now r = some r') :
    r.approvedBy ≠ some by_ ∧ r'.id = r.id ∧ r'.status = r.status ∧ r'.approvedBy = r.approvedBy ∧
      r'.schemaEditedBy = some by_ := by
  unfold asEdited at h
  split at h
  · rename_i hcheck
    cases h
    exact ⟨hcheck, rfl, rfl, rfl, rfl⟩
  · cases h

theorem asApproved_eq_some {by_ : Uuid} {r r' : SessionRow} (h : asApproved by_ now r = some r') :
    r'.id = r.id ∧ r'.status = .approved ∧ r'.approvedBy = some by_ ∧
      r'.schemaEditedBy = r.schemaEditedBy := by
  unfold asApproved at h
  split at h
  · cases h
    exact ⟨rfl, rfl, rfl, rfl⟩
  · cases h

def Work.sessionId : Work → Uuid
  | .edit q _ => q.sessionId
  | .approve id _ _ => id
  | .publish id _ => id

/-- The first statement has found the session. -/
def Work.opened : Work → Prop
  | .edit _ stage => stage ≠ .readSession
  | .approve _ _ stage => stage ≠ .readSession
  | .publish _ stage => stage ≠ .readSession

/-- How a request rewrites a row. -/
def Work.drift : Work → SessionRow → SessionRow → Prop
  | .edit q _, r, r' =>
    r'.id = q.sessionId ∧ r'.status = r.status ∧ r'.approvedBy = r.approvedBy ∧
      r'.schemaEditedBy = some q.by_
  | .approve id by_ _, r, r' =>
    r'.id = id ∧ r.status = .draftReady ∧ r'.status = .approved ∧ r'.approvedBy = some by_ ∧
      r'.schemaEditedBy = r.schemaEditedBy
  | .publish id _, r, r' =>
    r'.approvedBy = r.approvedBy ∧ r'.schemaEditedBy = r.schemaEditedBy ∧
      (r'.status = .approved ∨ r'.status = .published) ∧ (r'.id = id ∨ r.status = .published)

/-- Only an edit writes artifacts, those of its session. -/
def Work.edits : Work → ArtifactKey → Prop
  | .edit q _, key => key.sessionId = q.sessionId
  | .approve _ _ _, _ | .publish _ _, _ => False

/-- The same request, a statement later. -/
structure Work.Continues (w w' : Work) : Prop where
  sessionId : w'.sessionId = w.sessionId
  drift : w'.drift = w.drift
  edits : w'.edits = w.edits

structure StatementSpec (view : OnboardingDb) (w : Work) (o : Outcome Work) : Prop where
  continues : w.Continues o.next
  rows : ∀ r' ∈ o.sessions, ∃ v ∈ view.sessions.rows, v.id = r'.id ∧ w.drift v r'
  artifacts : ∀ p ∈ o.artifacts, w.edits p.1
  locked : ∀ r' ∈ o.sessions, Lock.session r'.id ∈ w.locks view
  locked_artifacts : ∀ p ∈ o.artifacts, Lock.artifact p.1 ∈ w.locks view
  finished : o.next.finished → w.finished ∨ w.sessionId ∈ o.sessions.map SessionRow.id ∨
    w.sessionId ∉ view.sessions.keys
  known : w.opened ∨ w.sessionId ∈ view.sessions.keys

/-- A statement that writes nothing. -/
theorem StatementSpec.reads {w w' : Work} (hcontinues : w.Continues w')
    (hfinished : w'.finished → w.finished ∨ w.sessionId ∉ view.sessions.keys)
    (hknown : w.opened ∨ w.sessionId ∈ view.sessions.keys) : StatementSpec view w (.reads w') where
  continues := hcontinues
  rows := by
    intro r' hr'
    cases hr'
  artifacts := by
    intro p hp
    cases hp
  locked := by
    intro r' hr'
    cases hr'
  locked_artifacts := by
    intro p hp
    cases hp
  finished := fun h => (hfinished h).imp_right Or.inr
  known := hknown

/-- A statement that writes the row of the session. -/
theorem StatementSpec.writesSession {w w' : Work} {v r' : SessionRow} (hcontinues : w.Continues w')
    (hv : v ∈ view.sessions.rows) (hid : v.id = w.sessionId) (hr : r'.id = v.id)
    (hdrift : w.drift v r') (hlock : Lock.session w.sessionId ∈ w.locks view) (hopened : w.opened) :
    StatementSpec view w ⟨w', [r'], []⟩ where
  continues := hcontinues
  rows := by
    intro r hr₁
    cases List.mem_singleton.mp hr₁
    exact ⟨v, hv, hr.symm, hdrift⟩
  artifacts := by
    intro p hp
    cases hp
  locked := by
    intro r hr₁
    cases List.mem_singleton.mp hr₁
    rw [hr, hid]
    exact hlock
  locked_artifacts := by
    intro p hp
    cases hp
  finished := fun _ => Or.inr (Or.inl (List.mem_singleton.mpr (hid.symm.trans hr.symm)))
  known := Or.inl hopened

/-- A statement of an edit that writes one artifact, or none. -/
theorem StatementSpec.writesArtifact {q : EditRequest} {stage next : EditStage} {key : ArtifactKey}
    {new : List (ArtifactKey × Json)} (hnew : ∀ p ∈ new, p.1 = key)
    (hkey : key.sessionId = q.sessionId)
    (hlock : Lock.artifact key ∈ (Work.edit q stage).locks view) (hnext : next ≠ .done)
    (hstage : stage ≠ .readSession) :
    StatementSpec view (.edit q stage) ⟨.edit q next, [], new⟩ where
  continues := ⟨rfl, rfl, rfl⟩
  rows := by
    intro r' hr'
    cases hr'
  artifacts := by
    intro p hp
    rw [hnew p hp]
    exact hkey
  locked := by
    intro r' hr'
    cases hr'
  locked_artifacts := by
    intro p hp
    rw [hnew p hp]
    exact hlock
  finished := fun h => absurd h hnext
  known := Or.inl hstage

theorem mem_overwrite {key : ArtifactKey} {payload : Json} {p : ArtifactKey × Json}
    (h : p ∈ view.overwrite key payload) : p.1 = key := by
  unfold OnboardingDb.overwrite at h
  split at h
  · cases h
  · rw [List.mem_singleton.mp h]

theorem copyOriginal_eq_ok {sessionId : Uuid} {kind : ArtifactKind}
    {new : List (ArtifactKey × Json)} (h : view.copyOriginal sessionId kind = .ok new) :
    ∀ p ∈ new, p.1 = drafted sessionId kind := by
  unfold OnboardingDb.copyOriginal at h
  split at h
  · cases h
  · cases h
    intro p hp
    obtain ⟨payload, -, rfl⟩ := List.mem_map.mp hp
    rfl

theorem editStatement_spec {q : EditRequest} {stage : EditStage} {o : Outcome EditStage}
    (h : editStatement env view now q stage = .ok o) :
    StatementSpec view (.edit q stage) (o.map (.edit q)) := by
  have hreads : ∀ next, next ≠ .done → stage ≠ .readSession →
      StatementSpec view (.edit q stage) (.reads (.edit q next)) := by
    intro next hnext hstage
    exact .reads ⟨rfl, rfl, rfl⟩ (fun hdone => absurd hdone hnext) (Or.inl hstage)
  cases stage with
  | readSession =>
    simp only [editStatement] at h
    split at h
    · cases h
    · rename_i r hget
      split at h
      · cases h
        refine .reads ⟨rfl, rfl, rfl⟩ (fun hdone => by cases hdone) (Or.inr ?_)
        obtain ⟨hr, hid⟩ := Table.get_eq_some.mp hget
        exact (congrArg (fun id => id ∈ view.sessions.keys) hid).mp (Table.key_mem_keys hr)
      · cases h
  | readSchema =>
    simp only [editStatement] at h
    split at h
    · cases h
    · cases h
      exact hreads _ (fun h => (by cases h)) (fun h => (by cases h))
  | findOriginal =>
    cases h
    refine hreads _ ?_ (fun h => (by cases h))
    split
    · intro h
      cases h
    · intro h
      cases h
  | copyOriginal =>
    simp only [editStatement] at h
    obtain ⟨new, hnew, rfl⟩ := map_eq_ok h
    exact .writesArtifact (copyOriginal_eq_ok hnew) rfl (by simp [Work.locks])
      (fun h => (by cases h)) (fun h => (by cases h))
  | writeSchema =>
    cases h
    refine .writesArtifact (fun p hp => mem_overwrite hp) rfl (by simp [Work.locks]) ?_
      (fun h => (by cases h))
    simp only
    split
    · intro h
      cases h
    · intro h
      cases h
  | readTable =>
    simp only [editStatement] at h
    split at h
    · cases h
    · cases h
      exact hreads _ (fun h => (by cases h)) (fun h => (by cases h))
  | findOriginalTable table =>
    cases h
    refine hreads _ ?_ (fun h => (by cases h))
    split
    · intro h
      cases h
    · intro h
      cases h
  | copyOriginalTable table =>
    simp only [editStatement] at h
    obtain ⟨new, hnew, rfl⟩ := map_eq_ok h
    exact .writesArtifact (copyOriginal_eq_ok hnew) rfl (by simp [Work.locks])
      (fun h => (by cases h)) (fun h => (by cases h))
  | writeTable table =>
    simp only [editStatement] at h
    split at h
    · cases h
    · cases h
      exact .writesArtifact (fun p hp => mem_overwrite hp) rfl (by simp [Work.locks])
        (fun h => (by cases h)) (fun h => (by cases h))
  | stamp =>
    simp only [editStatement] at h
    split at h
    · rename_i hget
      cases h
      exact .reads ⟨rfl, rfl, rfl⟩ (fun _ => Or.inr (Table.get_eq_none.mp hget))
        (Or.inl (fun h => (by cases h)))
    · rename_i r hget
      obtain ⟨hr, hid⟩ := Table.get_eq_some.mp hget
      split at h
      · cases h
      · rename_i r' hedited
        cases h
        obtain ⟨-, hsame, hstatus, happroved, heditor⟩ := asEdited_eq_some hedited
        exact .writesSession ⟨rfl, rfl, rfl⟩ hr hid hsame
          ⟨hsame.trans hid, hstatus, happroved, heditor⟩
          (by simp [Work.locks, Work.sessionId]) (fun h => (by cases h))
  | done =>
    cases h
    exact .reads ⟨rfl, rfl, rfl⟩ (fun hdone => Or.inl hdone) (Or.inl (fun h => (by cases h)))

theorem approveStatement_spec {id by_ : Uuid} {stage : ApproveStage} {o : Outcome ApproveStage}
    (h : approveStatement view now id by_ stage = .ok o) :
    StatementSpec view (.approve id by_ stage) (o.map (.approve id by_)) := by
  cases stage with
  | readSession =>
    simp only [approveStatement] at h
    split at h
    · cases h
    · rename_i r hget
      obtain ⟨hr, hid⟩ := Table.get_eq_some.mp hget
      split at h
      · cases h
      · split at h
        · cases h
        · split at h
          · cases h
          · cases h
            exact .reads ⟨rfl, rfl, rfl⟩ (fun hdone => by cases hdone)
              (Or.inr
                ((congrArg (fun id => id ∈ view.sessions.keys) hid).mp (Table.key_mem_keys hr)))
  | update =>
    simp only [approveStatement] at h
    split at h
    · cases h
    · rename_i r hget
      obtain ⟨hget, hready⟩ := Option.filter_eq_some_iff.mp hget
      obtain ⟨hr, hid⟩ := Table.get_eq_some.mp hget
      split at h
      · cases h
      · rename_i r' happroved
        cases h
        obtain ⟨hsame, hstatus, hby, heditor⟩ := asApproved_eq_some happroved
        exact .writesSession ⟨rfl, rfl, rfl⟩ hr hid hsame
          ⟨hsame.trans hid, of_decide_eq_true hready, hstatus, hby, heditor⟩
          (by simp [Work.locks, Work.sessionId]) (fun h => (by cases h))
  | done =>
    cases h
    exact .reads ⟨rfl, rfl, rfl⟩ (fun hdone => Or.inl hdone) (Or.inl (fun h => (by cases h)))

theorem publishStatement_spec {id : Uuid} {stage : PublishStage} {o : Outcome PublishStage}
    (h : publishStatement view now id stage = .ok o) :
    StatementSpec view (.publish id stage) (o.map (.publish id)) := by
  cases stage with
  | readSession =>
    simp only [publishStatement] at h
    split at h
    · cases h
    · rename_i r hget
      obtain ⟨hr, hid⟩ := Table.get_eq_some.mp hget
      split at h
      · cases h
        exact .reads ⟨rfl, rfl, rfl⟩ (fun hdone => by cases hdone)
          (Or.inr ((congrArg (fun id => id ∈ view.sessions.keys) hid).mp (Table.key_mem_keys hr)))
      · cases h
  | demote domain =>
    cases h
    have hpublished : ∀ r' ∈ (view.publishedOf domain).map (asDemoted now),
        ∃ v ∈ view.publishedOf domain, v.id = r'.id ∧ asDemoted now v = r' := by
      intro r' hr'
      obtain ⟨v, hv, rfl⟩ := List.mem_map.mp hr'
      exact ⟨v, hv, rfl, rfl⟩
    refine ⟨⟨rfl, rfl, rfl⟩, ?_, fun _ h => (by cases h), ?_, fun _ h => (by cases h),
      fun h => (by cases h), Or.inl (fun h => (by cases h))⟩
    · intro r' hr'
      obtain ⟨v, hv, hid, rfl⟩ := hpublished r' hr'
      obtain ⟨hv, hboth⟩ := List.mem_filter.mp hv
      exact ⟨v, hv, hid, rfl, rfl, Or.inl rfl, Or.inr (of_decide_eq_true hboth).2⟩
    · intro r' hr'
      obtain ⟨v, hv, hid, -⟩ := hpublished r' hr'
      exact List.mem_map.mpr ⟨v, hv, congrArg Lock.session hid⟩
  | promote =>
    simp only [publishStatement] at h
    split at h
    · rename_i hget
      cases h
      exact .reads ⟨rfl, rfl, rfl⟩ (fun _ => Or.inr (Table.get_eq_none.mp hget))
        (Or.inl (fun h => (by cases h)))
    · rename_i r hget
      obtain ⟨hr, hid⟩ := Table.get_eq_some.mp hget
      split at h
      · cases h
      · cases h
        exact .writesSession ⟨rfl, rfl, rfl⟩ hr hid rfl ⟨rfl, rfl, Or.inr rfl, Or.inl hid⟩
          (by simp [Work.locks, Work.sessionId]) (fun h => (by cases h))
  | done =>
    cases h
    exact .reads ⟨rfl, rfl, rfl⟩ (fun hdone => Or.inl hdone) (Or.inl (fun h => (by cases h)))

theorem statement_spec {w : Work} {o : Outcome Work} (h : w.statement env view now = .ok o) :
    StatementSpec view w o := by
  cases w with
  | edit q stage =>
    obtain ⟨o', ho', rfl⟩ := map_eq_ok h
    exact editStatement_spec ho'
  | approve id by_ stage =>
    obtain ⟨o', ho', rfl⟩ := map_eq_ok h
    exact approveStatement_spec ho'
  | publish id stage =>
    obtain ⟨o', ho', rfl⟩ := map_eq_ok h
    exact publishStatement_spec ho'

end

theorem Work.drift_trans {w : Work} {r v r' : SessionRow} (hid : v.id = r'.id) (h : w.drift r v)
    (h' : w.drift v r') : w.drift r r' := by
  cases w with
  | edit q stage => exact ⟨h'.1, h'.2.1.trans h.2.1, h'.2.2.1.trans h.2.2.1, h'.2.2.2⟩
  | approve id by_ stage =>
    -- a second approval would find the first one
    have hready := h'.2.1
    rw [h.2.2.1] at hready
    cases hready
  | publish id stage =>
    obtain ⟨happroved, heditor, -, hown⟩ := h
    obtain ⟨happroved', heditor', hstatus, hown'⟩ := h'
    refine ⟨happroved'.trans happroved, heditor'.trans heditor, hstatus, ?_⟩
    rcases hown with hown | hown
    · exact Or.inl (hid.symm.trans hown)
    · exact Or.inr hown

end AgenticPlatform.Onboarding
