import AgenticPlatform.Db.Models
import AgenticPlatform.Foundation.Dict
import Mathlib.Logic.Function.Basic

/-!
# Onboarding sessions and their artifacts

A session is a row that carries the CHECK constraints of its table; an artifact is a JSON
document under a session, a kind and a name. Every function below is one statement of the
store, or the part of one that is computed between two statements. The text of a value
that is not a string is a parameter.
-/
namespace AgenticPlatform.Onboarding
open AgenticPlatform.Foundation AgenticPlatform.Identity AgenticPlatform.Db

/-! ## Rows -/

inductive SessionStatus where
  | drafting | draftReady | approved | published | failed | cancelled
deriving DecidableEq

/-- A row of `onboarding_session`; the last four fields are its CHECK constraints, which a
NULL passes. -/
structure SessionRow where
  id : Uuid
  domain : String
  collection : String
  status : SessionStatus
  progress : List Json
  stats : Json
  error : Option String
  runId : Option Uuid
  createdBy : Option Uuid
  createdAt : Time
  updatedAt : Time
  approvedBy : Option Uuid
  approvedAt : Option Time
  publishedAt : Option Time
  schemaEditedBy : Option Uuid
  schemaEditedAt : Option Time
  no_self_approval : ∀ a ∈ approvedBy, createdBy ≠ some a
  approval_complete : approvedBy = none ↔ approvedAt = none
  edit_complete : schemaEditedBy = none ↔ schemaEditedAt = none
  editor_is_not_approver : ∀ a ∈ approvedBy, schemaEditedBy ≠ some a
deriving DecidableEq

abbrev SessionTable := Table SessionRow SessionRow.id

inductive ArtifactKind where
  | schema | instanceTable | predicateMap | extractionCache | candidateQueries
deriving DecidableEq

def ArtifactKind.text : ArtifactKind → String
  | .schema => "schema"
  | .instanceTable => "instance_table"
  | .predicateMap => "predicate_map"
  | .extractionCache => "extraction_cache"
  | .candidateQueries => "candidate_queries"

structure ArtifactKey where
  sessionId : Uuid
  kind : ArtifactKind
  name : String
deriving DecidableEq

/-- The row of a kind that is effective. -/
def singleton (sessionId : Uuid) (kind : ArtifactKind) : ArtifactKey := ⟨sessionId, kind, kind.text⟩

/-- Where the original goes the first time a human overwrites it. -/
def drafted (sessionId : Uuid) (kind : ArtifactKind) : ArtifactKey :=
  ⟨sessionId, kind, kind.text ++ "_drafted"⟩

structure OnboardingDb where
  sessions : SessionTable
  artifacts : ArtifactKey → Option Json

def OnboardingDb.empty : OnboardingDb := ⟨Table.empty, fun _ => none⟩

def OnboardingDb.statusOf (db : OnboardingDb) (id : Uuid) : Option SessionStatus :=
  (db.sessions.get id).map SessionRow.status

/-! ## Statements -/

/-- The row that `create` inserts, with the run the request sets on it. -/
def newSession (id : Uuid) (domain collection : String) (runId : Option Uuid) (by_ : Uuid)
    (now : Time) : SessionRow where
  id := id
  domain := domain
  collection := collection
  status := .drafting
  progress := []
  stats := .emptyObj
  error := none
  runId := runId
  createdBy := some by_
  createdAt := now
  updatedAt := now
  approvedBy := none
  approvedAt := none
  publishedAt := none
  schemaEditedBy := none
  schemaEditedAt := none
  no_self_approval := by
    intro a ha
    cases ha
  approval_complete := by simp
  edit_complete := by simp
  editor_is_not_approver := by
    intro a ha
    cases ha

/-- UPDATE … SET status, error = COALESCE(…), stats = COALESCE(…). -/
def withStatus (status : SessionStatus) (error : Option String) (stats : Option Json) (now : Time)
    (r : SessionRow) : SessionRow :=
  { r with
    status := status
    updatedAt := now
    error := error.or r.error
    stats := stats.getD r.stats }

def OnboardingDb.setStatus (db : OnboardingDb) (id : Uuid) (status : SessionStatus)
    (error : Option String) (stats : Option Json) (now : Time) : OnboardingDb :=
  { db with
    sessions :=
      db.sessions.updateWhere (fun r => r.id = id) (withStatus status error stats now)
        (fun _ => rfl) }

def withProgress (entry : Json) (now : Time) (r : SessionRow) : SessionRow :=
  { r with progress := r.progress ++ [entry], updatedAt := now }

def OnboardingDb.appendProgress (db : OnboardingDb) (id : Uuid) (entry : Json) (now : Time) :
    OnboardingDb :=
  { db with
    sessions :=
      db.sessions.updateWhere (fun r => r.id = id) (withProgress entry now) (fun _ => rfl) }

/-- The statuses a session can be cancelled in. -/
def cancellable (r : SessionRow) : Prop := r.status = .drafting ∨ r.status = .draftReady

instance : DecidablePred cancellable := fun _ => inferInstanceAs (Decidable (_ ∨ _))

def asCancelled (now : Time) (r : SessionRow) : SessionRow :=
  { r with status := .cancelled, updatedAt := now }

def OnboardingDb.cancel (db : OnboardingDb) (id : Uuid) (now : Time) : OnboardingDb :=
  { db with
    sessions :=
      db.sessions.updateWhere (fun r => r.id = id ∧ cancellable r) (asCancelled now)
        (fun _ => rfl) }

def OnboardingDb.putArtifact (db : OnboardingDb) (key : ArtifactKey) (payload : Json) :
    OnboardingDb :=
  { db with artifacts := Function.update db.artifacts key (some payload) }

/-- What `materialize` is given. -/
structure Artifacts where
  schema : Option Json
  instanceTable : Option Json
  predicateMap : Option Json
  candidateQueries : Option Json
  extractionCache : String → Option Json

def OnboardingDb.artifactsFor (db : OnboardingDb) (id : Uuid) : Artifacts where
  schema := db.artifacts (singleton id .schema)
  instanceTable := db.artifacts (singleton id .instanceTable)
  predicateMap := db.artifacts (singleton id .predicateMap)
  candidateQueries := db.artifacts (singleton id .candidateQueries)
  extractionCache := fun name => db.artifacts ⟨id, .extractionCache, name⟩

/-- SET status = 'approved', approved_by, approved_at. `none` where a CHECK refuses the row. -/
def asApproved (by_ : Uuid) (now : Time) (r : SessionRow) : Option SessionRow :=
  if h : r.createdBy ≠ some by_ ∧ r.schemaEditedBy ≠ some by_ then
    some
      { r with
        status := .approved
        approvedBy := some by_
        approvedAt := some now
        updatedAt := now
        no_self_approval := by
          intro a ha
          cases ha
          exact h.1
        approval_complete := by simp
        editor_is_not_approver := by
          intro a ha
          cases ha
          exact h.2 }
  else none

/-- SET schema_edited_by, schema_edited_at. -/
def asEdited (by_ : Uuid) (now : Time) (r : SessionRow) : Option SessionRow :=
  if h : r.approvedBy ≠ some by_ then
    some
      { r with
        schemaEditedBy := some by_
        schemaEditedAt := some now
        updatedAt := now
        edit_complete := by simp
        editor_is_not_approver := by
          intro a ha hsame
          cases hsame
          exact h ha }
  else none

def asDemoted (now : Time) (r : SessionRow) : SessionRow :=
  { r with status := .approved, updatedAt := now }

def asPublished (now : Time) (r : SessionRow) : SessionRow :=
  { r with status := .published, publishedAt := some now, updatedAt := now }

section
variable {db : OnboardingDb}

theorem statusOf_eq_some {id : Uuid} {status : SessionStatus} :
    db.statusOf id = some status ↔ ∃ r ∈ db.sessions.rows, r.id = id ∧ r.status = status := by
  rw [OnboardingDb.statusOf, Option.map_eq_some_iff]
  constructor
  · rintro ⟨r, hget, hstatus⟩
    obtain ⟨hr, hid⟩ := Table.get_eq_some.mp hget
    exact ⟨r, hr, hid, hstatus⟩
  · rintro ⟨r, hr, hid, hstatus⟩
    exact ⟨r, Table.get_eq_some.mpr ⟨hr, hid⟩, hstatus⟩

theorem statusOf_eq_none {id : Uuid} : db.statusOf id = none ↔ id ∉ db.sessions.keys := by
  rw [OnboardingDb.statusOf, Option.map_eq_none_iff, Table.get_eq_none]

theorem statusOf_setStatus {id : Uuid} {status before : SessionStatus} {error : Option String}
    {stats : Option Json} {now : Time} (h : db.statusOf id = some before) :
    (db.setStatus id status error stats now).statusOf id = some status := by
  obtain ⟨r, hr, hid, -⟩ := statusOf_eq_some.mp h
  refine statusOf_eq_some.mpr ⟨withStatus status error stats now r, ?_, hid, rfl⟩
  exact List.mem_map.mpr ⟨r, hr, if_pos hid⟩

end

/-! ## Retyping an instance table -/

def fieldOf (fields : List (String × Json)) (name : String) : Option Json := fields.lookup name

/-- Assignment to a key: in place, or at the end. -/
def setField (fields : List (String × Json)) (name : String) (value : Json) :
    List (String × Json) :=
  if name ∈ fields.map Prod.fst then fields.map (fun f => if f.1 = name then (name, value) else f)
  else fields ++ [(name, value)]

theorem setField_eq_setItem (fields : List (String × Json)) (name : String) (value : Json) :
    setField fields name value = Dict.setItem fields name value := by
  unfold setField Dict.setItem
  split <;> rfl

theorem fieldOf_setField (fields : List (String × Json)) (name other : String) (value : Json) :
    fieldOf (setField fields name value) other = if other = name then some value
      else fieldOf fields other := by
  rw [setField_eq_setItem]
  exact Dict.lookup_setItem fields name other value

theorem setField_setField (fields : List (String × Json)) (name : String) (value value' : Json) :
    setField (setField fields name value) name value' = setField fields name value' := by
  rw [setField_eq_setItem, setField_eq_setItem, setField_eq_setItem, Dict.setItem_setItem]

/-- The values Python takes for false. -/
def falsy : Json → Bool
  | .null => true
  | .bool value => !value
  | .num value =>
    (value.text.toList.takeWhile (fun c => c ≠ 'e' ∧ c ≠ 'E')).all (fun c => !c.isDigit || c = '0')
  | .str text => text = ""
  | .arr items => items.isEmpty
  | .obj fields => fields.isEmpty

/-- `list((document or {}).get(key) or [])`; `none` where this, or going through it, raises. -/
def listAt (key : String) : Json → Option (List Json)
  | .obj fields =>
    match fieldOf fields key with
    | none => some []
    | some (.arr items) => some items
    | some value => if falsy value then some [] else none
  | document => if falsy document then some [] else none

theorem listAt_setField (key : String) (fields : List (String × Json)) (items : List Json) :
    listAt key (.obj (setField fields key (.arr items))) = some items := by
  rw [listAt, fieldOf_setField, if_pos rfl]

structure OnboardingEnv where
  /-- `str(value)` of a value that is not a string. -/
  valueText : Json → String

def typeText (env : OnboardingEnv) (fields : List (String × Json)) : String :=
  match fieldOf fields "entity_type" with
  | none => ""
  | some (.str text) => text
  | some value => env.valueText value

/-- `retype.get(name) or …`: an empty target counts as none. -/
def targetOf (retype : List (String × String)) (name : String) : Option String :=
  (retype.lookup name).filter (fun target => target ≠ "")

def mappedType (retype : List (String × String)) (current : String) : Option String :=
  (targetOf retype current).or
    (targetOf retype (if current.startsWith "raw:" then (current.drop 4).toString else current))

/-- `none` where the instance is not an object, and the loop raises. -/
def retypeInstance (env : OnboardingEnv) (retype : List (String × String)) : Json → Option Json
  | .obj fields =>
    let current := typeText env fields
    match mappedType retype current with
    | some mapped => if mapped = current then some (.obj fields)
      else some (.obj (setField fields "entity_type" (.str mapped)))
    | none => some (.obj fields)
  | _ => none

def retypeTable (env : OnboardingEnv) (retype : List (String × String)) : Json → Option Json
  | .obj fields =>
    match fieldOf fields "instances" with
    | none => some (.obj (setField fields "instances" (.arr [])))
    | some (.arr items) =>
      (items.mapM (retypeInstance env retype)).map
        (fun items => .obj (setField fields "instances" (.arr items)))
    | some value =>
      if falsy value then some (.obj (setField fields "instances" (.arr []))) else none
  | _ => none

end AgenticPlatform.Onboarding
