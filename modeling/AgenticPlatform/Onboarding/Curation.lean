import AgenticPlatform.Foundation.Text
import AgenticPlatform.Onboarding.SessionSystem
import Mathlib.Data.List.Induction

/-!
# Curating the proposed questions

A request reads the whole list of questions, changes one of them, and writes the whole list
back. The row is locked by the write only, so what another request has written since the
read is written over.
-/
namespace AgenticPlatform.Onboarding
open AgenticPlatform.Foundation AgenticPlatform.Identity AgenticPlatform.Db

/-! ## One request -/

inductive CurateError where
  | sessionNotFound
  | published
  | noQueries
  | queryNotFound
  | malformed
deriving DecidableEq

structure CurateRequest where
  queryId : String
  queryText : Option String
  approved : Option Bool
deriving DecidableEq

def withText (text : String) (fields : List (String × Json)) :
    Except CurateError (List (String × Json)) :=
  match fieldOf fields "text" with
  | none => .error .malformed
  | some current =>
    if current = .str (strip text) then .ok fields
    else .ok (setField (setField fields "text" (.str (strip text))) "edited" (.bool true))

def withApproval : Option Bool → List (String × Json) → List (String × Json)
  | none, fields => fields
  | some approved, fields => setField fields "approved" (.bool approved)

/-- The fields of the query, once it is found. -/
def curated (r : CurateRequest) (fields : List (String × Json)) :
    Except CurateError (List (String × Json)) :=
  match r.queryText with
  | none => .ok (withApproval r.approved fields)
  | some text => (withText text fields).map (withApproval r.approved)

/-- `query.get("id") == query_id`. -/
def IsQuery (queryId : String) (fields : List (String × Json)) : Prop :=
  fieldOf fields "id" = some (.str queryId)

instance (queryId : String) (fields : List (String × Json)) : Decidable (IsQuery queryId fields) :=
  inferInstanceAs (Decidable (_ = _))

/-- The first query of the id is changed. -/
def curateList (r : CurateRequest) : List Json → Except CurateError (List Json)
  | [] => .error .queryNotFound
  | .obj fields :: queries =>
    if IsQuery r.queryId fields then (curated r fields).map (fun fields' => .obj fields' :: queries)
    else (curateList r queries).map (fun queries' => .obj fields :: queries')
  | _ :: _ => .error .malformed

/-- From the payload that is read to the one that is written. -/
def curate (r : CurateRequest) : Option Json → Except CurateError Json
  | none => .error .noQueries
  | some (.obj fields) =>
    match listAt "queries" (.obj fields) with
    | none => .error .malformed
    | some [] => .error .noQueries
    | some queries =>
      (curateList r queries).map (fun queries' => .obj (setField fields "queries" (.arr queries')))
  | some payload => if falsy payload then .error .noQueries else .error .malformed

/-! ## Reading a query -/

def queriesOf (payload : Option Json) : Option (List Json) := payload.bind (listAt "queries")

def findQuery (queryId : String) : List Json → Option (List (String × Json))
  | [] => none
  | .obj fields :: queries => if IsQuery queryId fields then some fields
    else findQuery queryId queries
  | _ :: queries => findQuery queryId queries

/-- The query of an id, as it is stored. -/
def queryOf (queryId : String) (payload : Option Json) : Option (List (String × Json)) :=
  (queriesOf payload).bind (findQuery queryId)

section
variable {r : CurateRequest} {fields fields' : List (String × Json)} {queries queries' : List Json}

theorem withText_id {text : String} (h : withText text fields = .ok fields') :
    fieldOf fields' "id" = fieldOf fields "id" := by
  unfold withText at h
  split at h
  · cases h
  · split at h
    · cases h
      rfl
    · cases h
      rw [fieldOf_setField, if_neg (by decide), fieldOf_setField, if_neg (by decide)]

theorem withApproval_id (approved : Option Bool) (fields : List (String × Json)) :
    fieldOf (withApproval approved fields) "id" = fieldOf fields "id" := by
  cases approved with
  | none => rfl
  | some approved => rw [withApproval, fieldOf_setField, if_neg (by decide)]

/-- The id of a query stays as it is. -/
theorem curated_id (h : curated r fields = .ok fields') :
    fieldOf fields' "id" = fieldOf fields "id" := by
  unfold curated at h
  split at h
  · cases h
    exact withApproval_id r.approved fields
  · obtain ⟨texted, htext, rfl⟩ := map_eq_ok h
    exact (withApproval_id r.approved texted).trans (withText_id htext)

theorem IsQuery.curated {queryId : String} (h : Onboarding.curated r fields = .ok fields') :
    IsQuery queryId fields' ↔ IsQuery queryId fields := by
  unfold IsQuery
  rw [curated_id h]

/-- What is done to a list, at its head or further on. -/
theorem curateList_ok (h : curateList r queries = .ok queries') :
    ∃ fields rest, queries = .obj fields :: rest ∧
      ((IsQuery r.queryId fields ∧ ∃ fields', curated r fields = .ok fields' ∧
        queries' = .obj fields' :: rest) ∨
        (¬ IsQuery r.queryId fields ∧ ∃ rest', curateList r rest = .ok rest' ∧
        queries' = .obj fields :: rest')) := by
  unfold curateList at h
  split at h
  · cases h
  · rename_i fields rest
    split at h
    · rename_i hid
      obtain ⟨fields', hcurated, rfl⟩ := map_eq_ok h
      exact ⟨fields, rest, rfl, Or.inl ⟨hid, fields', hcurated, rfl⟩⟩
    · rename_i hid
      obtain ⟨rest', hrest, rfl⟩ := map_eq_ok h
      exact ⟨fields, rest, rfl, Or.inr ⟨hid, rest', hrest, rfl⟩⟩
  · cases h

theorem findQuery_obj (queryId : String) (fields : List (String × Json)) (queries : List Json) :
    findQuery queryId (.obj fields :: queries) = if IsQuery queryId fields then some fields
      else findQuery queryId queries :=
  rfl

theorem findQuery_curateList (h : curateList r queries = .ok queries') :
    ∃ fields fields', findQuery r.queryId queries = some fields ∧ curated r fields = .ok fields' ∧
      findQuery r.queryId queries' = some fields' := by
  induction queries generalizing queries' with
  | nil => cases h
  | cons query rest ih =>
    obtain ⟨fields, rest, hquery, ⟨hid, fields', hcurated, rfl⟩ | ⟨hid, rest', hrest, rfl⟩⟩ :=
      curateList_ok h
    · cases hquery
      exact ⟨fields, fields', if_pos hid, hcurated, if_pos ((IsQuery.curated hcurated).mpr hid)⟩
    · cases hquery
      rw [findQuery_obj, findQuery_obj, if_neg hid, if_neg hid]
      exact ih hrest

/-- The queries of other ids stay as they are. -/
theorem findQuery_curateList_of_ne (h : curateList r queries = .ok queries') {queryId : String}
    (hne : queryId ≠ r.queryId) : findQuery queryId queries' = findQuery queryId queries := by
  induction queries generalizing queries' with
  | nil => cases h
  | cons query rest ih =>
    obtain ⟨fields, rest, hquery, ⟨hid, fields', hcurated, rfl⟩ | ⟨hid, rest', hrest, rfl⟩⟩ :=
      curateList_ok h
    · cases hquery
      have hother : ¬ IsQuery queryId fields := by
        intro hsame
        have hids := hid.symm.trans hsame
        exact hne (Json.str.inj (Option.some.inj hids)).symm
      rw [findQuery_obj, findQuery_obj, if_neg hother,
        if_neg (mt (IsQuery.curated hcurated).mp hother)]
    · cases hquery
      rw [findQuery_obj, findQuery_obj, ih hrest]

/-- The list that is written, and the query that was there, tell the list that was read. -/
theorem curateList_injective {queries₁ queries₂ : List Json}
    (h₁ : curateList r queries₁ = .ok queries') (h₂ : curateList r queries₂ = .ok queries')
    (hsame : findQuery r.queryId queries₁ = findQuery r.queryId queries₂) :
    queries₁ = queries₂ := by
  induction queries₁ generalizing queries₂ queries' with
  | nil => cases h₁
  | cons query rest ih =>
    obtain ⟨f₁, rest₁, hq₁, hhead₁⟩ := curateList_ok h₁
    obtain ⟨f₂, rest₂, rfl, hhead₂⟩ := curateList_ok h₂
    cases hq₁
    rw [findQuery_obj, findQuery_obj] at hsame
    rcases hhead₁ with ⟨hid₁, f₁', hf₁, rfl⟩ | ⟨hid₁, rest₁', hrest₁, rfl⟩
    · rcases hhead₂ with ⟨hid₂, f₂', hf₂, hwritten⟩ | ⟨hid₂, rest₂', hrest₂, hwritten⟩
      · rw [if_pos hid₁, if_pos hid₂] at hsame
        cases Option.some.inj hsame
        rw [(List.cons.inj hwritten).2]
      · -- the query that was written would be another one
        have hf : f₁' = f₂ := Json.obj.inj (List.cons.inj hwritten).1
        exact absurd (hf ▸ (IsQuery.curated hf₁).mpr hid₁) hid₂
    · rcases hhead₂ with ⟨hid₂, f₂', hf₂, hwritten⟩ | ⟨hid₂, rest₂', hrest₂, hwritten⟩
      · have hf : f₁ = f₂' := Json.obj.inj (List.cons.inj hwritten).1
        exact absurd (hf ▸ (IsQuery.curated hf₂).mpr hid₂) hid₁
      · rw [if_neg hid₁, if_neg hid₂] at hsame
        obtain ⟨hf, rfl⟩ := List.cons.inj hwritten
        rw [hf, ih hrest₁ hrest₂ hsame]

/-! ## The payload -/

theorem curate_ok {payload : Option Json} {new : Json} :
    curate r payload = .ok new ↔ ∃ fields queries queries', payload = some (.obj fields) ∧
      queriesOf payload = some queries ∧ curateList r queries = .ok queries' ∧
      new = .obj (setField fields "queries" (.arr queries')) := by
  constructor
  · intro h
    unfold curate at h
    split at h
    · cases h
    · rename_i fields
      split at h
      · cases h
      · cases h
      · rename_i queries _ hqueries
        obtain ⟨queries', hlist, rfl⟩ := map_eq_ok h
        exact ⟨fields, queries, queries', rfl, hqueries, hlist, rfl⟩
    · split at h
      · cases h
      · cases h
  · rintro ⟨fields, queries, queries', rfl, hqueries, hlist, rfl⟩
    have hqueries : listAt "queries" (.obj fields) = some queries := hqueries
    cases queries with
    | nil => cases hlist
    | cons query queries =>
      simp only [curate, hqueries, hlist]
      rfl

theorem queriesOf_written (fields : List (String × Json)) (queries : List Json) :
    queriesOf (some (.obj (setField fields "queries" (.arr queries)))) = some queries :=
  listAt_setField _ _ _

end

/-! ## Requests that overlap -/

inductive CurateStage where
  | opened
  | loaded (read : Option Json)
  | written (read : Option Json) (new : Json)

/-- The payload that a request has read and written over. -/
def CurateStage.read : CurateStage → Option (Option Json)
  | .written read _ => some read
  | _ => none

structure CurateState where
  db : OnboardingDb
  txns : Nat → Option (CurateRequest × CurateStage)
  /-- The transaction that has written the row. -/
  locked : Option Nat
  /-- The ids that requests have asked for. -/
  asked : List String
  /-- The requests that are committed, the newest last. -/
  made : List CurateRequest

def CurateState.start (db : OnboardingDb) : CurateState := ⟨db, fun _ => none, none, [], []⟩

inductive CurateAct where
  | begin (n : Nat) (r : CurateRequest)
  | load (n : Nat)
  | write (n : Nat)
  | commit (n : Nat)
  | rollback (n : Nat)

def CurateState.setTxn (s : CurateState) (n : Nat) (x : Option (CurateRequest × CurateStage)) :
    CurateState :=
  { s with txns := Function.update s.txns n x }

section
variable (sessionId : Uuid)

def CurateState.stored (s : CurateState) : Option Json :=
  s.db.artifacts (singleton sessionId .candidateQueries)

/-- The statements of the requests on one session, each on a query of its own. -/
def curateStep (s : CurateState) : CurateAct → Option CurateState
  | .begin n r =>
    if s.txns n = none ∧ r.queryId ∉ s.asked then
      match s.db.statusOf sessionId with
      | none | some .published => some { s with asked := r.queryId :: s.asked }
      | some _ => some { s.setTxn n (some (r, .opened)) with asked := r.queryId :: s.asked }
    else none
  | .load n =>
    match s.txns n with
    | some (r, .opened) =>
      match curate r (s.stored sessionId) with
      | .error _ => some (s.setTxn n none)
      | .ok _ => some (s.setTxn n (some (r, .loaded (s.stored sessionId))))
    | _ => none
  | .write n =>
    match s.txns n, s.locked with
    | some (r, .loaded read), none =>
      match curate r read with
      | .error _ => none
      | .ok new => some { s.setTxn n (some (r, .written read new)) with locked := some n }
    | _, _ => none
  | .commit n =>
    match s.txns n with
    | some (r, .written _ new) =>
      some
        { s.setTxn n none with
          db := s.db.putArtifact (singleton sessionId .candidateQueries) new
          locked := none
          made := s.made ++ [r] }
    | _ => none
  | .rollback n =>
    match s.txns n with
    | none => none
    | some _ => some { s.setTxn n none with locked := if s.locked = some n then none else s.locked }

/-- A request commits over the queries that it read. -/
def readStillStored (s : CurateState) : CurateAct → Prop
  | .commit n => ∀ read ∈ (s.txns n).bind (fun x => x.2.read),
    queriesOf (s.stored sessionId) = queriesOf read
  | _ => True

instance (s : CurateState) : (a : CurateAct) → Decidable (readStillStored sessionId s a)
  | .commit n => inferInstanceAs (Decidable (∀ read ∈ (s.txns n).bind (fun x => x.2.read), _))
  | .begin .. | .load _ | .write _ | .rollback _ => isTrue trivial

/-- The payload after requests one at a time. -/
def curatedBy (payload : Option Json) (made : List CurateRequest) :
    Except CurateError (Option Json) :=
  made.foldlM (fun payload r => (curate r payload).map some) payload

/-- What is stored is what the requests make of the first payload, one after the other. -/
def AllKept (first : Option Json) (s : CurateState) : Prop :=
  curatedBy first s.made = .ok (s.stored sessionId)

end

section
variable {first payload : Option Json} {made : List CurateRequest} {r : CurateRequest}

/-- The payload as it was, but for the queries that requests were made for. -/
structure SameBut (made : List CurateRequest) (first payload : Option Json) : Prop where
  others : ∀ queryId, queryId ∉ made.map CurateRequest.queryId →
    queryOf queryId payload = queryOf queryId first
  fields : ∀ fields, payload = some (.obj fields) → ∃ base, first = some (.obj base) ∧
    ∀ v, setField fields "queries" v = setField base "queries" v

theorem sameBut_refl (made : List CurateRequest) (first : Option Json) : SameBut made first first :=
  ⟨fun _ _ => rfl, fun fields h => ⟨fields, h, fun _ => rfl⟩⟩

theorem SameBut.more (h : SameBut made first payload) (r : CurateRequest) :
    SameBut (made ++ [r]) first payload where
  others := by
    intro queryId hnot
    rw [List.map_append, List.mem_append, not_or] at hnot
    exact h.others queryId hnot.1
  fields := h.fields

theorem queryOf_curate {new : Json} (h : curate r payload = .ok new) : ∃ fields fields',
    queryOf r.queryId payload = some fields ∧ curated r fields = .ok fields' ∧
      queryOf r.queryId (some new) = some fields' := by
  obtain ⟨fields, queries, queries', -, hqueries, hlist, rfl⟩ := curate_ok.mp h
  obtain ⟨query, query', hfind, hcurated, hfind'⟩ := findQuery_curateList hlist
  unfold queryOf
  rw [hqueries, queriesOf_written, Option.bind_some, Option.bind_some]
  exact ⟨query, query', hfind, hcurated, hfind'⟩

theorem queryOf_curate_of_ne {new : Json} (h : curate r payload = .ok new) {queryId : String}
    (hne : queryId ≠ r.queryId) : queryOf queryId (some new) = queryOf queryId payload := by
  obtain ⟨fields, queries, queries', -, hqueries, hlist, rfl⟩ := curate_ok.mp h
  unfold queryOf
  rw [hqueries, queriesOf_written, Option.bind_some, Option.bind_some]
  exact findQuery_curateList_of_ne hlist hne

theorem SameBut.curate {new : Json} (h : SameBut made first payload)
    (hnew : Onboarding.curate r payload = .ok new) : SameBut (made ++ [r]) first (some new) where
  others := by
    intro queryId hnot
    rw [List.map_append, List.mem_append, not_or] at hnot
    have hne : queryId ≠ r.queryId := fun he => hnot.2 (List.mem_singleton.mpr he)
    exact (queryOf_curate_of_ne hnew hne).trans (h.others queryId hnot.1)
  fields := by
    obtain ⟨fields, queries, queries', hpayload, -, -, rfl⟩ := curate_ok.mp hnew
    rintro written hwritten
    cases hwritten
    obtain ⟨base, hbase, hsame⟩ := h.fields fields hpayload
    refine ⟨base, hbase, fun v => ?_⟩
    rw [setField_setField, hsame]

theorem obj_of_queries {queries : List Json} (h : queriesOf payload = some queries)
    (hne : queries ≠ []) : ∃ fields, payload = some (.obj fields) := by
  obtain ⟨document, rfl, hlist⟩ := Option.bind_eq_some_iff.mp h
  cases document with
  | obj fields => exact ⟨fields, rfl⟩
  | null | bool _ | num _ | str _ | arr _ =>
    simp only [listAt] at hlist
    split at hlist
    · exact absurd (Option.some.inj hlist).symm hne
    · cases hlist

/-- Two payloads that differ in other queries only: a request writes the same over both
exactly where they hold the same queries. -/
theorem curate_eq_iff {read stored : Option Json} {new : Json} (hread : SameBut made first read)
    (hstored : SameBut made first stored) (hnot : r.queryId ∉ made.map CurateRequest.queryId)
    (hnew : curate r read = .ok new) :
    curate r stored = .ok new ↔ queriesOf stored = queriesOf read := by
  obtain ⟨fields, queries, queries', hfields, hqueries, hlist, hwritten⟩ := curate_ok.mp hnew
  constructor
  · intro h
    obtain ⟨fields₁, queries₁, queries₁', -, hqueries₁, hlist₁, hwritten₁⟩ := curate_ok.mp h
    have hsame : queries₁' = queries' := by
      have hpayload := congrArg (fun p => queriesOf (some p)) (hwritten₁.symm.trans hwritten)
      simp only [queriesOf_written] at hpayload
      exact Option.some.inj hpayload
    have hfind : findQuery r.queryId queries₁ = findQuery r.queryId queries := by
      have hquery := (hstored.others r.queryId hnot).trans (hread.others r.queryId hnot).symm
      unfold queryOf at hquery
      rwa [hqueries, hqueries₁, Option.bind_some, Option.bind_some] at hquery
    rw [hqueries, hqueries₁, curateList_injective (hsame ▸ hlist₁) hlist hfind]
  · intro hsame
    have hsome : ∃ fields₁, stored = some (.obj fields₁) := by
      refine obj_of_queries (hsame.trans hqueries) ?_
      rintro rfl
      cases hlist
    obtain ⟨fields₁, hfields₁⟩ := hsome
    obtain ⟨base, hbase, hshape⟩ := hread.fields fields hfields
    obtain ⟨base₁, hbase₁, hshape₁⟩ := hstored.fields fields₁ hfields₁
    cases hbase.symm.trans hbase₁
    exact curate_ok.mpr ⟨fields₁, queries, queries', hfields₁, hsame.trans hqueries, hlist,
      by rw [hwritten, hshape, hshape₁]⟩

/-- What the requests have made of the queries, one after the other. -/
theorem curatedBy_append (made : List CurateRequest) (r : CurateRequest) {stored : Option Json}
    (h : curatedBy first made = .ok stored) :
    curatedBy first (made ++ [r]) = (curate r stored).map some := by
  unfold curatedBy at h ⊢
  rw [List.foldlM_append, h]
  change (curate r stored).map some >>= pure = _
  exact bind_pure _

/-- Every request's change is stored, and the other queries are as they were. -/
structure Curated (first : Option Json) (made : List CurateRequest) (payload : Option Json) :
    Prop where
  changed : ∀ r ∈ made, ∃ fields fields', queryOf r.queryId first = some fields ∧
    curated r fields = .ok fields' ∧ queryOf r.queryId payload = some fields'
  others : ∀ queryId, queryId ∉ made.map CurateRequest.queryId →
    queryOf queryId payload = queryOf queryId first

theorem curated_of_curatedBy (hnodup : (made.map CurateRequest.queryId).Nodup)
    (h : curatedBy first made = .ok payload) : Curated first made payload := by
  induction made using List.reverseRecOn generalizing payload with
  | nil =>
    cases h
    exact ⟨nofun, fun _ _ => rfl⟩
  | append_singleton made r ih =>
    rw [List.map_append, List.map_singleton, List.nodup_append] at hnodup
    obtain ⟨hmade, -, hdisjoint⟩ := hnodup
    have hr : r.queryId ∉ made.map CurateRequest.queryId :=
      fun hmem => hdisjoint r.queryId hmem r.queryId (List.mem_singleton_self _) rfl
    cases hbefore : curatedBy first made with
    | error e =>
      unfold curatedBy at h hbefore
      rw [List.foldlM_append, hbefore] at h
      cases h
    | ok stored =>
      rw [curatedBy_append made r hbefore] at h
      obtain ⟨new, hnew, rfl⟩ := map_eq_ok h
      obtain ⟨hchanged, hothers⟩ := ih hmade hbefore
      constructor
      · intro r' hr'
        rcases List.mem_append.mp hr' with hr' | hr'
        · obtain ⟨fields, fields', hfirst, hcurated, hstored⟩ := hchanged r' hr'
          have hne : r'.queryId ≠ r.queryId := fun he => hr (he ▸ List.mem_map_of_mem hr')
          exact ⟨fields, fields', hfirst, hcurated, (queryOf_curate_of_ne hnew hne).trans hstored⟩
        · cases List.mem_singleton.mp hr'
          obtain ⟨fields, fields', hquery, hcurated, hquery'⟩ := queryOf_curate hnew
          exact ⟨fields, fields', (hothers r.queryId hr).symm.trans hquery, hcurated, hquery'⟩
      · intro queryId hnot
        rw [List.map_append, List.mem_append, not_or] at hnot
        have hne : queryId ≠ r.queryId := fun he => hnot.2 (List.mem_singleton.mpr he)
        exact (queryOf_curate_of_ne hnew hne).trans (hothers queryId hnot.1)

end

/-! ## Runs -/

section
variable {sessionId : Uuid} {s t : CurateState} {a : CurateAct} {first : Option Json}

/-- What a request has read differs from the first payload in the queries of others only. -/
def CurateStage.ReadFrom (r : CurateRequest) (made : List CurateRequest) (first : Option Json) :
    CurateStage → Prop
  | .opened => True
  | .loaded read => SameBut made first read
  | .written read new => SameBut made first read ∧ curate r read = .ok new

structure CurateInv (sessionId : Uuid) (first : Option Json) (s : CurateState) : Prop where
  stored : SameBut s.made first (s.stored sessionId)
  read : ∀ n r stage, s.txns n = some (r, stage) → stage.ReadFrom r s.made first
  asked : ∀ n r stage, s.txns n = some (r, stage) → r.queryId ∈ s.asked ∧
    r.queryId ∉ s.made.map CurateRequest.queryId
  apart : ∀ n m r r' stage stage', s.txns n = some (r, stage) → s.txns m = some (r', stage') →
    n ≠ m → r.queryId ≠ r'.queryId
  made : ∀ r ∈ s.made, r.queryId ∈ s.asked
  nodup : (s.made.map CurateRequest.queryId).Nodup

theorem CurateStage.ReadFrom.more {r r' : CurateRequest} {made : List CurateRequest}
    {stage : CurateStage} (h : stage.ReadFrom r made first) :
    stage.ReadFrom r (made ++ [r']) first := by
  cases stage with
  | opened => trivial
  | loaded read => exact SameBut.more h r'
  | written read new => exact ⟨h.1.more r', h.2⟩

theorem curateInv_start (db : OnboardingDb) :
    CurateInv sessionId (db.artifacts (singleton sessionId .candidateQueries)) (.start db) where
  stored := sameBut_refl [] _
  read := nofun
  asked := nofun
  apart := fun _ _ _ _ _ _ hn => by cases hn
  made := fun _ hr => absurd hr List.not_mem_nil
  nodup := List.nodup_nil

/-- A transaction that ends without a trace. -/
theorem CurateInv.close (h : CurateInv sessionId first s) (n : Nat) (locked : Option Nat) :
    CurateInv sessionId first { s.setTxn n none with locked := locked } where
  stored := h.stored
  read := by
    intro m r stage hm
    rcases update_cases hm with ⟨-, hnone⟩ | ⟨-, hm⟩
    · cases hnone
    · exact h.read m r stage hm
  asked := by
    intro m r stage hm
    rcases update_cases hm with ⟨-, hnone⟩ | ⟨-, hm⟩
    · cases hnone
    · exact h.asked m r stage hm
  apart := by
    intro m m' r r' stage stage' hm hm' hne
    rcases update_cases hm with ⟨-, hnone⟩ | ⟨-, hm⟩
    · cases hnone
    · rcases update_cases hm' with ⟨-, hnone⟩ | ⟨-, hm'⟩
      · cases hnone
      · exact h.apart m m' r r' stage stage' hm hm' hne
  made := h.made
  nodup := h.nodup

/-- A transaction that goes on. -/
theorem CurateInv.move (h : CurateInv sessionId first s) {n : Nat} {r : CurateRequest}
    {stage : CurateStage} (hn : s.txns n = some (r, stage)) (stage' : CurateStage)
    (hread : stage'.ReadFrom r s.made first) (locked : Option Nat) :
    CurateInv sessionId first { s.setTxn n (some (r, stage')) with locked := locked } where
  stored := h.stored
  read := by
    intro m r' stage₁ hm
    rcases update_eq_some hm with ⟨-, hx⟩ | ⟨-, hm⟩
    · cases hx
      exact hread
    · exact h.read m r' stage₁ hm
  asked := by
    intro m r' stage₁ hm
    rcases update_eq_some hm with ⟨-, hx⟩ | ⟨-, hm⟩
    · cases hx
      exact h.asked n r stage hn
    · exact h.asked m r' stage₁ hm
  apart := by
    intro m m' r₁ r₂ stage₁ stage₂ hm hm' hne
    rcases update_eq_some hm with ⟨rfl, hx⟩ | ⟨-, hold⟩
    · cases hx
      rcases update_eq_some hm' with ⟨rfl, -⟩ | ⟨-, hold'⟩
      · exact absurd rfl hne
      · exact h.apart m m' r r₂ stage stage₂ hn hold' hne
    · rcases update_eq_some hm' with ⟨rfl, hx⟩ | ⟨-, hold'⟩
      · cases hx
        exact h.apart m m' r₁ r stage₁ stage hold hn hne
      · exact h.apart m m' r₁ r₂ stage₁ stage₂ hold hold' hne
  made := h.made
  nodup := h.nodup

theorem CurateInv.open (h : CurateInv sessionId first s) (n : Nat) {r : CurateRequest}
    (hr : r.queryId ∉ s.asked) :
    CurateInv sessionId first
      { s.setTxn n (some (r, .opened)) with asked := r.queryId :: s.asked } where
  stored := h.stored
  read := by
    intro m r' stage hm
    rcases update_eq_some hm with ⟨-, hx⟩ | ⟨-, hold⟩
    · cases hx
      trivial
    · exact h.read m r' stage hold
  asked := by
    intro m r' stage hm
    rcases update_eq_some hm with ⟨-, hx⟩ | ⟨-, hold⟩
    · cases hx
      refine ⟨List.mem_cons_self, ?_⟩
      intro hmade
      obtain ⟨r', hr', hsame⟩ := List.mem_map.mp hmade
      exact hr (hsame ▸ h.made r' hr')
    · exact ⟨List.mem_cons_of_mem _ (h.asked m r' stage hold).1, (h.asked m r' stage hold).2⟩
  apart := by
    have hnew : ∀ m r' stage, s.txns m = some (r', stage) → r'.queryId ≠ r.queryId :=
      fun m r' stage hm he => hr (he ▸ (h.asked m r' stage hm).1)
    intro m m' r₁ r₂ stage₁ stage₂ hm hm' hne
    rcases update_eq_some hm with ⟨rfl, hx⟩ | ⟨-, hold⟩
    · cases hx
      rcases update_eq_some hm' with ⟨rfl, -⟩ | ⟨-, hold'⟩
      · exact absurd rfl hne
      · exact (hnew m' r₂ stage₂ hold').symm
    · rcases update_eq_some hm' with ⟨rfl, hx⟩ | ⟨-, hold'⟩
      · cases hx
        exact hnew m r₁ stage₁ hold
      · exact h.apart m m' r₁ r₂ stage₁ stage₂ hold hold' hne
  made := fun r' hr' => List.mem_cons_of_mem _ (h.made r' hr')
  nodup := h.nodup

theorem CurateInv.asks (h : CurateInv sessionId first s) (queryId : String) :
    CurateInv sessionId first { s with asked := queryId :: s.asked } where
  stored := h.stored
  read := h.read
  asked := fun n r stage hn =>
    ⟨List.mem_cons_of_mem _ (h.asked n r stage hn).1, (h.asked n r stage hn).2⟩
  apart := h.apart
  made := fun r hr => List.mem_cons_of_mem _ (h.made r hr)
  nodup := h.nodup

theorem CurateInv.commit (h : CurateInv sessionId first s) {n : Nat} {r : CurateRequest}
    {read : Option Json} {new : Json} (hn : s.txns n = some (r, .written read new)) :
    CurateInv sessionId first { s.setTxn n none with
        db := s.db.putArtifact (singleton sessionId .candidateQueries) new
        locked := none
        made := s.made ++ [r] } where
  stored := by
    obtain ⟨hread, hnew⟩ := h.read n r _ hn
    have hstored : (s.db.putArtifact (singleton sessionId .candidateQueries) new).artifacts
        (singleton sessionId .candidateQueries) = some new := Function.update_self ..
    change SameBut (s.made ++ [r]) first
      ((s.db.putArtifact (singleton sessionId .candidateQueries) new).artifacts _)
    rw [hstored]
    exact SameBut.curate hread hnew
  read := by
    intro m r' stage hm
    rcases update_cases hm with ⟨-, hnone⟩ | ⟨-, hold⟩
    · cases hnone
    · exact (h.read m r' stage hold).more
  asked := by
    intro m r' stage hm
    rcases update_cases hm with ⟨-, hnone⟩ | ⟨hne, hold⟩
    · cases hnone
    · obtain ⟨hasked, hmade⟩ := h.asked m r' stage hold
      refine ⟨hasked, ?_⟩
      rw [List.map_append, List.mem_append, not_or]
      exact ⟨hmade, fun hmem => h.apart m n r' r stage _ hold hn hne (List.mem_singleton.mp hmem)⟩
  apart := by
    intro m m' r₁ r₂ stage₁ stage₂ hm hm' hne
    rcases update_cases hm with ⟨-, hnone⟩ | ⟨-, hold⟩
    · cases hnone
    · rcases update_cases hm' with ⟨-, hnone⟩ | ⟨-, hold'⟩
      · cases hnone
      · exact h.apart m m' r₁ r₂ stage₁ stage₂ hold hold' hne
  made := by
    intro r' hr'
    rcases List.mem_append.mp hr' with hr' | hr'
    · exact h.made r' hr'
    · cases List.mem_singleton.mp hr'
      exact (h.asked n r _ hn).1
  nodup := by
    rw [List.map_append, List.map_singleton]
    refine List.nodup_append.mpr ⟨h.nodup, List.nodup_singleton _, ?_⟩
    intro queryId hmem queryId' hmem' hsame
    rw [List.mem_singleton] at hmem'
    exact (h.asked n r _ hn).2 (hmem' ▸ hsame ▸ hmem)

theorem curateInv_step (h : CurateInv sessionId first s)
    (hstep : curateStep sessionId s a = some t) : CurateInv sessionId first t := by
  cases a with
  | begin n r =>
    simp only [curateStep] at hstep
    split at hstep
    · rename_i hfree
      split at hstep
      · cases hstep
        exact h.asks r.queryId
      · cases hstep
        exact h.asks r.queryId
      · cases hstep
        exact h.open n hfree.2
    · cases hstep
  | load n =>
    simp only [curateStep] at hstep
    split at hstep
    · rename_i r hn
      split at hstep
      · cases hstep
        exact h.close n s.locked
      · cases hstep
        exact h.move hn (.loaded (s.stored sessionId)) h.stored s.locked
    · cases hstep
  | write n =>
    simp only [curateStep] at hstep
    split at hstep
    · rename_i r read hn hlocked
      split at hstep
      · cases hstep
      · rename_i new hnew
        cases hstep
        exact h.move hn (.written read new) ⟨h.read n r _ hn, hnew⟩ (some n)
    · cases hstep
  | commit n =>
    simp only [curateStep] at hstep
    split at hstep
    · rename_i r read new hn
      cases hstep
      exact h.commit hn
    · cases hstep
  | rollback n =>
    simp only [curateStep] at hstep
    split at hstep
    · cases hstep
    · cases hstep
      exact h.close n _

/-- A step keeps the changes of all requests exactly if it commits over what was read. -/
theorem allKept_step (h : CurateInv sessionId first s) (hkept : AllKept sessionId first s)
    (hstep : curateStep sessionId s a = some t) :
    AllKept sessionId first t ↔ readStillStored sessionId s a := by
  have hquiet : t.db = s.db → t.made = s.made → AllKept sessionId first t := by
    intro hdb hmade
    unfold AllKept CurateState.stored at hkept ⊢
    rwa [hdb, hmade]
  cases a with
  | commit n =>
    simp only [curateStep] at hstep
    split at hstep
    · rename_i r read new hn
      cases hstep
      obtain ⟨hread, hnew⟩ := h.read n r _ hn
      have hstored : (s.db.putArtifact (singleton sessionId .candidateQueries) new).artifacts
          (singleton sessionId .candidateQueries) = some new := Function.update_self ..
      have hcurated : curatedBy first (s.made ++ [r]) = .ok (some new) ↔
          curate r (s.stored sessionId) = .ok new := by
        rw [curatedBy_append s.made r hkept]
        constructor
        · intro hmap
          obtain ⟨stored, hstored, hsame⟩ := map_eq_ok hmap
          rw [hstored, Option.some.inj hsame]
        · intro hcurate
          rw [hcurate]
          rfl
      have hcond : readStillStored sessionId s (.commit n) ↔
          queriesOf (s.stored sessionId) = queriesOf read := by
        simp [readStillStored, hn, CurateStage.read]
      change curatedBy first (s.made ++ [r]) = .ok _ ↔ _
      rw [CurateState.stored, hstored, hcurated, hcond]
      exact curate_eq_iff hread h.stored (h.asked n r _ hn).2 hnew
    · cases hstep
  | begin n r =>
    refine iff_of_true ?_ trivial
    simp only [curateStep] at hstep
    split at hstep
    · split at hstep
      · cases hstep
        exact hquiet rfl rfl
      · cases hstep
        exact hquiet rfl rfl
      · cases hstep
        exact hquiet rfl rfl
    · cases hstep
  | load n =>
    refine iff_of_true ?_ trivial
    simp only [curateStep] at hstep
    split at hstep
    · split at hstep
      · cases hstep
        exact hquiet rfl rfl
      · cases hstep
        exact hquiet rfl rfl
    · cases hstep
  | write n =>
    refine iff_of_true ?_ trivial
    simp only [curateStep] at hstep
    split at hstep
    · split at hstep
      · cases hstep
      · cases hstep
        exact hquiet rfl rfl
    · cases hstep
  | rollback n =>
    refine iff_of_true ?_ trivial
    simp only [curateStep] at hstep
    split at hstep
    · cases hstep
    · cases hstep
      exact hquiet rfl rfl

/-- Requests on different queries of one session lose nothing throughout a run exactly if each
of them commits over the queries that it read. Then every change is stored, and the other
queries are as they were. -/
theorem curations_kept_iff {db : OnboardingDb} {acts : List CurateAct}
    (hrun : Reaches (curateStep sessionId) (.start db) acts t) :
    (Throughout (curateStep sessionId)
      (AllKept sessionId (db.artifacts (singleton sessionId .candidateQueries)))
      (.start db) acts ↔
      Reaches (restrict (readStillStored sessionId) (curateStep sessionId)) (.start db) acts t) ∧
      (Reaches (restrict (readStillStored sessionId) (curateStep sessionId)) (.start db) acts t →
        Curated (db.artifacts (singleton sessionId .candidateQueries)) t.made
        (t.stored sessionId)) := by
  have hinv : Throughout (curateStep sessionId)
      (CurateInv sessionId (db.artifacts (singleton sessionId .candidateQueries)))
      (.start db) acts :=
    Throughout.of_invariant (fun _ _ _ hs h => curateInv_step hs h) (curateInv_start db) acts
  have hstep : ∀ m a m',
      CurateInv sessionId (db.artifacts (singleton sessionId .candidateQueries)) m →
      CurateInv sessionId (db.artifacts (singleton sessionId .candidateQueries)) m' →
      AllKept sessionId (db.artifacts (singleton sessionId .candidateQueries)) m →
      curateStep sessionId m a = some m' →
      (AllKept sessionId (db.artifacts (singleton sessionId .candidateQueries)) m' ↔
        readStillStored sessionId m a) :=
    fun _ _ _ hm _ hkept h => allKept_step hm hkept h
  have hiff :=
    Throughout.iff_restrict hstep hinv (show AllKept sessionId _ (.start db) from rfl) hrun
  refine ⟨hiff, fun hrestrict => ?_⟩
  have hlast := hiff.mpr hrestrict acts [] t (List.append_nil acts).symm hrun
  exact curated_of_curatedBy (hinv acts [] t (List.append_nil acts).symm hrun).nodup hlast

end

/-- Two questions are proposed. -/
def questionsDraft : List OnboardingAct :=
  [.create 10 "plant" "manuals" none 1 0, .startDraft 0 10,
   .analyzed 0 ⟨"drafted", none, none, [],
     some (.obj [("queries", .arr [.obj [("id", .str "q0"), ("text", .str "Which pump?")],
       .obj [("id", .str "q1"), ("text", .str "Which valve?")]])]), .emptyObj⟩,
   .put 0, .put 0, .ready 0 1]

theorem questionsDraft_run :
    (questionsDraft.foldlM (onboardingStep plainTexts) .initial).isSome = true := by
  decide +kernel

def proposedDb : OnboardingDb :=
  ((questionsDraft.foldlM (onboardingStep plainTexts) .initial).get questionsDraft_run).db

/-- Two requests at once; the second reads after the first is committed. -/
def oneAfterAnother : List CurateAct :=
  [.begin 0 ⟨"q0", none, some true⟩, .begin 1 ⟨"q1", some " Which valves? ", none⟩, .load 0,
    .write 0, .commit 0, .load 1, .write 1, .commit 1]

theorem oneAfterAnother_run :
    (oneAfterAnother.foldlM (restrict (readStillStored 10) (curateStep 10)) (.start proposedDb)).map
      (fun s => s.made.length) = some 2 := by
  decide +kernel

theorem curations_kept_oneAfterAnother :
    ∃ s, Reaches (curateStep 10) (.start proposedDb) oneAfterAnother s ∧ s.made.length = 2 ∧
      Curated (proposedDb.artifacts (singleton 10 .candidateQueries)) s.made (s.stored 10) := by
  obtain ⟨s, hrun, hmade⟩ := Option.map_eq_some_iff.mp oneAfterAnother_run
  have hreach : Reaches (curateStep 10) (.start proposedDb) oneAfterAnother s :=
    Reaches.of_restrict hrun
  exact ⟨s, hreach, hmade, (curations_kept_iff hreach).2 hrun⟩

/-- Both requests read before either writes. -/
def bothRead : List CurateAct :=
  [.begin 0 ⟨"q0", none, some true⟩, .begin 1 ⟨"q1", none, some true⟩, .load 0, .load 1, .write 0,
    .commit 0, .write 1, .commit 1]

/-- The requests that are committed, and the first query as it is stored. -/
def firstQuery (s : CurateState) : List CurateRequest × Option (List (String × Json)) :=
  (s.made, queryOf "q0" (s.stored 10))

theorem bothRead_run :
    (bothRead.foldlM (curateStep 10) (.start proposedDb)).map firstQuery =
      some ([⟨"q0", none, some true⟩, ⟨"q1", none, some true⟩],
        some [("id", .str "q0"), ("text", .str "Which pump?")]) := by
  decide +kernel

/-- Both requests are committed, and the first approval is gone. -/
theorem approval_lost_bothRead : ∃ s, Reaches (curateStep 10) (.start proposedDb) bothRead s ∧
    s.made = [⟨"q0", none, some true⟩, ⟨"q1", none, some true⟩] ∧
    ¬ Curated (proposedDb.artifacts (singleton 10 .candidateQueries)) s.made (s.stored 10) := by
  obtain ⟨s, hrun, hfacts⟩ := Option.map_eq_some_iff.mp bothRead_run
  obtain ⟨hmade, hstored⟩ := Prod.mk.inj hfacts
  refine ⟨s, hrun, hmade, fun hall => ?_⟩
  obtain ⟨fields, fields', -, hcurated, hquery⟩ :=
    hall.changed ⟨"q0", none, some true⟩ (hmade ▸ List.mem_cons_self)
  cases hcurated
  have happroved : fieldOf (setField fields "approved" (.bool true)) "approved" =
      some (.bool true) := by
    rw [fieldOf_setField, if_pos rfl]
  have hsame := Option.some.inj (hquery.symm.trans hstored)
  change setField fields "approved" (.bool true) = _ at hsame
  rw [hsame] at happroved
  exact absurd happroved (by decide)

end AgenticPlatform.Onboarding
