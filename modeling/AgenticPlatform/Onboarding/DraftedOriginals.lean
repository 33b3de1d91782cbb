import AgenticPlatform.Onboarding.SessionSystem

/-!
# What the drafter proposed

Calls of `edit_schema`, one after the other. The first edit of a schema copies it under a
second name, and so does the first that retypes the instance table; later edits find the
copy. What is effective is found by the name of its kind.
-/
namespace AgenticPlatform.Onboarding
open AgenticPlatform.Foundation AgenticPlatform.Identity AgenticPlatform.Db

/-! ## A call -/

section
variable (env : OnboardingEnv) (db : OnboardingDb) (now : Time)

/-- Statements with nothing in between. `now()` is the time of the transaction. -/
def statements : Nat → Txn → Except OnboardingError Txn
  | 0, x => .ok x
  | n + 1, x =>
    match x.work.statement env (x.view db) now with
    | .error e => .error e
    | .ok o => statements n (x.after o)

def editTxn (no : Nat) (q : EditRequest) : Txn := ⟨no, (Request.edit q).work, [], []⟩

/-- What `edit_schema` commits. No edit has more than ten statements. -/
def editSchema (q : EditRequest) : Except OnboardingError OnboardingDb :=
  (statements env db now 10 (editTxn 0 q)).map (fun x => x.view db)

end

/-- What is left to execute, at most. -/
def EditStage.left : EditStage → Nat
  | .readSession => 10
  | .readSchema => 9
  | .findOriginal => 8
  | .copyOriginal => 7
  | .writeSchema => 6
  | .readTable => 5
  | .findOriginalTable _ => 4
  | .copyOriginalTable _ => 3
  | .writeTable _ => 2
  | .stamp => 1
  | .done => 0

theorem EditStage.left_eq_zero {stage : EditStage} : stage.left = 0 ↔ stage = .done := by
  cases stage <;> simp [EditStage.left]

section
variable {env : OnboardingEnv} {db view : OnboardingDb} {now : Time} {q : EditRequest}

theorem left_of_statement {stage : EditStage} {o : Outcome EditStage}
    (h : editStatement env view now q stage = .ok o) : o.next.left ≤ stage.left - 1 := by
  cases stage with
  | readSession =>
    simp only [editStatement] at h
    split at h
    · cases h
    · split at h
      · cases h
        exact le_rfl
      · cases h
  | readSchema =>
    simp only [editStatement] at h
    split at h
    · cases h
    · cases h
      exact le_rfl
  | findOriginal =>
    cases h
    change EditStage.left (if _ then _ else _) ≤ _
    split <;> decide
  | copyOriginal =>
    obtain ⟨new, -, rfl⟩ := map_eq_ok h
    exact le_rfl
  | writeSchema =>
    cases h
    change EditStage.left (if _ then _ else _) ≤ _
    split <;> decide
  | readTable =>
    simp only [editStatement] at h
    split at h
    · cases h
    · cases h
      exact le_rfl
  | findOriginalTable table =>
    cases h
    change EditStage.left (if _ then _ else _) ≤ 3
    split <;> simp [EditStage.left]
  | copyOriginalTable table =>
    obtain ⟨new, -, rfl⟩ := map_eq_ok h
    exact le_rfl
  | writeTable table =>
    simp only [editStatement] at h
    split at h
    · cases h
    · cases h
      exact le_rfl
  | stamp =>
    simp only [editStatement] at h
    split at h
    · cases h
      exact le_rfl
    · split at h
      · cases h
      · cases h
        exact le_rfl
  | done =>
    cases h
    exact le_rfl

/-! ## What an edit writes -/

abbrev ArtifactMap := ArtifactKey → Option Json

theorem singleton_ne_drafted (id id' : Uuid) (kind kind' : ArtifactKind) :
    singleton id kind ≠ drafted id' kind' := by
  intro h
  simp only [singleton, drafted, ArtifactKey.mk.injEq] at h
  obtain ⟨-, rfl, hname⟩ := h
  have hlength := congrArg String.length hname
  have hsuffix : "_drafted".length = 8 := by decide
  rw [String.length_append, hsuffix] at hlength
  omega

/-- The copy of the original is there already, or it is made. -/
def withOriginal (id : Uuid) (kind : ArtifactKind) (a : ArtifactMap) : ArtifactMap :=
  Function.update a (drafted id kind) ((a (drafted id kind)).or (a (singleton id kind)))

def editedSchema (yaml : String) : Json := .obj [("yaml", .str yaml)]

def withSchema (q : EditRequest) (a : ArtifactMap) : ArtifactMap :=
  Function.update (withOriginal q.sessionId .schema a) (singleton q.sessionId .schema)
    (some (editedSchema q.yaml))

def withTable (q : EditRequest) (retyped : Json) (a : ArtifactMap) : ArtifactMap :=
  Function.update (withOriginal q.sessionId .instanceTable a) (singleton q.sessionId .instanceTable)
    (some retyped)

/-- The artifacts after an edit, from those before it. -/
inductive EditOf (env : OnboardingEnv) (q : EditRequest) (a : ArtifactMap) : ArtifactMap → Prop
  | schema (hschema : a (singleton q.sessionId .schema) ≠ none) (hretype : q.retype = []) :
    EditOf env q a (withSchema q a)
  | retyped (hschema : a (singleton q.sessionId .schema) ≠ none) (hretype : q.retype ≠ [])
    (table retyped : Json) (htable : a (singleton q.sessionId .instanceTable) = some table)
    (hretyped : retypeTable env q.retype table = some retyped) :
    EditOf env q a (withTable q retyped (withSchema q a))

/-- What a stage has found in the artifacts that are committed, and what it sees. -/
def Wrote (env : OnboardingEnv) (q : EditRequest) (a seen : ArtifactMap) : EditStage → Prop
  | .readSession | .readSchema => seen = a
  | .findOriginal => seen = a ∧ a (singleton q.sessionId .schema) ≠ none
  | .copyOriginal =>
    seen = a ∧ a (singleton q.sessionId .schema) ≠ none ∧ a (drafted q.sessionId .schema) = none
  | .writeSchema => seen = withOriginal q.sessionId .schema a ∧
    a (singleton q.sessionId .schema) ≠ none
  | .readTable => seen = withSchema q a ∧ a (singleton q.sessionId .schema) ≠ none ∧ q.retype ≠ []
  | .findOriginalTable table =>
    seen = withSchema q a ∧ a (singleton q.sessionId .schema) ≠ none ∧ q.retype ≠ [] ∧
      a (singleton q.sessionId .instanceTable) = some table
  | .copyOriginalTable table =>
    seen = withSchema q a ∧ a (singleton q.sessionId .schema) ≠ none ∧ q.retype ≠ [] ∧
      a (singleton q.sessionId .instanceTable) = some table ∧
      a (drafted q.sessionId .instanceTable) = none
  | .writeTable table =>
    seen = withOriginal q.sessionId .instanceTable (withSchema q a) ∧
      a (singleton q.sessionId .schema) ≠ none ∧ q.retype ≠ [] ∧
      a (singleton q.sessionId .instanceTable) = some table
  | .stamp | .done => EditOf env q a seen

/-- What is seen after a statement. -/
def written (seen : ArtifactMap) (new : List (ArtifactKey × Json)) : ArtifactMap :=
  fun key => (new.lookup key).or (seen key)

theorem written_nil (seen : ArtifactMap) : written seen [] = seen := rfl

theorem written_singleton (seen : ArtifactMap) (key : ArtifactKey) (payload : Json) :
    written seen [(key, payload)] = Function.update seen key (some payload) := by
  funext k
  unfold written
  by_cases hk : k = key
  · subst hk
    rw [List.lookup_cons_self, Option.some_or, Function.update_self]
  · have hbeq : (k == key) = false := beq_eq_false_iff_ne.mpr hk
    rw [List.lookup_cons, hbeq, List.lookup_nil, Option.none_or, Function.update_of_ne hk]

theorem withOriginal_of_some {id : Uuid} {kind : ArtifactKind} {a : ArtifactMap}
    (h : a (drafted id kind) ≠ none) : withOriginal id kind a = a := by
  obtain ⟨payload, hpayload⟩ := Option.ne_none_iff_exists'.mp h
  rw [withOriginal, hpayload, Option.some_or, ← hpayload, Function.update_eq_self]

theorem withOriginal_singleton (id id' : Uuid) (kind kind' : ArtifactKind) (a : ArtifactMap) :
    withOriginal id kind a (singleton id' kind') = a (singleton id' kind') :=
  Function.update_of_ne (singleton_ne_drafted id' id kind' kind) _ _

theorem instanceTable_ne : ArtifactKind.instanceTable ≠ .schema := nofun

theorem withSchema_of_ne {key : ArtifactKey} (a : ArtifactMap) (hkind : key.kind ≠ .schema) :
    withSchema q a key = a key := by
  have hsingleton : key ≠ singleton q.sessionId .schema :=
    fun h => hkind (congrArg ArtifactKey.kind h)
  have hdrafted : key ≠ drafted q.sessionId .schema := fun h => hkind (congrArg ArtifactKey.kind h)
  rw [withSchema, Function.update_of_ne hsingleton, withOriginal, Function.update_of_ne hdrafted]

/-- The statement that makes the copy. -/
theorem copyOriginal_written {id : Uuid} {kind : ArtifactKind} {new : List (ArtifactKey × Json)}
    (h : view.copyOriginal id kind = .ok new) (hsome : view.artifacts (singleton id kind) ≠ none) :
    written view.artifacts new = withOriginal id kind view.artifacts := by
  unfold OnboardingDb.copyOriginal at h
  split at h
  · cases h
  · rename_i hnone
    cases h
    obtain ⟨payload, hpayload⟩ := Option.ne_none_iff_exists'.mp hsome
    rw [hpayload, Option.toList_some, List.map_singleton, written_singleton, withOriginal,
      not_not.mp hnone, Option.none_or, hpayload]

theorem overwrite_written {key : ArtifactKey} {payload : Json} (h : view.artifacts key ≠ none) :
    written view.artifacts (view.overwrite key payload) =
      Function.update view.artifacts key (some payload) := by
  rw [OnboardingDb.overwrite, if_neg h, written_singleton]

theorem payload_eq_some {key : ArtifactKey} {payload : Json} (h : view.payload key = some payload) :
    view.artifacts key = some payload := (Option.filter_eq_some_iff.mp h).1

/-- A statement writes what its stage says. -/
theorem wrote_statement {a : ArtifactMap} {stage : EditStage} {o : Outcome EditStage}
    (hstage : Wrote env q a view.artifacts stage) (h : editStatement env view now q stage = .ok o) :
    Wrote env q a (written view.artifacts o.artifacts) o.next := by
  cases stage with
  | readSession =>
    simp only [editStatement] at h
    split at h
    · cases h
    · split at h
      · cases h
        exact hstage
      · cases h
  | readSchema =>
    simp only [editStatement] at h
    split at h
    · cases h
    · rename_i schema hpayload
      cases h
      have hsame : view.artifacts = a := hstage
      refine ⟨hsame, ?_⟩
      rw [← hsame, payload_eq_some hpayload]
      exact Option.some_ne_none schema
  | findOriginal =>
    obtain ⟨hsame, hschema⟩ := hstage
    cases h
    simp only [Outcome.reads, written_nil]
    by_cases hnone : view.artifacts (drafted q.sessionId .schema) = none
    · rw [if_pos hnone]
      exact ⟨hsame, hschema, hsame ▸ hnone⟩
    · rw [if_neg hnone]
      refine ⟨?_, hschema⟩
      rw [hsame] at hnone
      rw [withOriginal_of_some hnone, hsame]
  | copyOriginal =>
    obtain ⟨hsame, hschema, -⟩ := hstage
    obtain ⟨new, hnew, rfl⟩ := map_eq_ok h
    refine ⟨?_, hschema⟩
    change written view.artifacts new = _
    rw [copyOriginal_written hnew (hsame ▸ hschema), hsame]
  | writeSchema =>
    obtain ⟨hsame, hschema⟩ := hstage
    cases h
    have hthere : view.artifacts (singleton q.sessionId .schema) ≠ none := by
      rw [hsame, withOriginal_singleton]
      exact hschema
    have hwritten : written view.artifacts
        (view.overwrite (singleton q.sessionId .schema) (editedSchema q.yaml)) =
        withSchema q a := by
      rw [overwrite_written hthere, hsame, withSchema]
    change Wrote env q a (written view.artifacts
      (view.overwrite (singleton q.sessionId .schema) (editedSchema q.yaml)))
      (if q.retype = [] then .stamp else .readTable)
    rw [hwritten]
    by_cases hretype : q.retype = []
    · rw [if_pos hretype]
      exact .schema hschema hretype
    · rw [if_neg hretype]
      exact ⟨rfl, hschema, hretype⟩
  | readTable =>
    obtain ⟨hsame, hschema, hretype⟩ := hstage
    simp only [editStatement] at h
    split at h
    · cases h
    · rename_i table hpayload
      cases h
      refine ⟨hsame, hschema, hretype, ?_⟩
      rw [← payload_eq_some hpayload, hsame, withSchema_of_ne a instanceTable_ne]
  | findOriginalTable table =>
    obtain ⟨hsame, hschema, hretype, htable⟩ := hstage
    cases h
    simp only [Outcome.reads, written_nil]
    by_cases hnone : view.artifacts (drafted q.sessionId .instanceTable) = none
    · rw [if_pos hnone]
      refine ⟨hsame, hschema, hretype, htable, ?_⟩
      rw [← hnone, hsame, withSchema_of_ne a instanceTable_ne]
    · rw [if_neg hnone]
      refine ⟨?_, hschema, hretype, htable⟩
      rw [hsame] at hnone
      rw [withOriginal_of_some hnone, hsame]
  | copyOriginalTable table =>
    obtain ⟨hsame, hschema, hretype, htable, -⟩ := hstage
    obtain ⟨new, hnew, rfl⟩ := map_eq_ok h
    refine ⟨?_, hschema, hretype, htable⟩
    have hthere : view.artifacts (singleton q.sessionId .instanceTable) ≠ none := by
      rw [hsame, withSchema_of_ne a instanceTable_ne, htable]
      exact Option.some_ne_none table
    change written view.artifacts new = _
    rw [copyOriginal_written hnew hthere, hsame]
  | writeTable table =>
    obtain ⟨hsame, hschema, hretype, htable⟩ := hstage
    simp only [editStatement] at h
    split at h
    · cases h
    · rename_i retyped hretyped
      cases h
      have hthere : view.artifacts (singleton q.sessionId .instanceTable) ≠ none := by
        rw [hsame, withOriginal_singleton, withSchema_of_ne a instanceTable_ne, htable]
        exact Option.some_ne_none table
      have hwritten :
          written view.artifacts (view.overwrite (singleton q.sessionId .instanceTable) retyped) =
          withTable q retyped (withSchema q a) := by
        rw [overwrite_written hthere, hsame, withTable]
      change EditOf env q a
        (written view.artifacts (view.overwrite (singleton q.sessionId .instanceTable) retyped))
      rw [hwritten]
      exact .retyped hschema hretype table retyped htable hretyped
  | stamp =>
    simp only [editStatement] at h
    split at h
    · cases h
      exact hstage
    · split at h
      · cases h
      · cases h
        exact hstage
  | done =>
    cases h
    exact hstage

theorem view_after (x : Txn) (o : Outcome Work) :
    ((x.after o).view db).artifacts = written (x.view db).artifacts o.artifacts := by
  funext key
  change ((o.artifacts ++ x.artifacts).lookup key).or (db.artifacts key) =
    (o.artifacts.lookup key).or ((x.artifacts.lookup key).or (db.artifacts key))
  rw [List.lookup_append, Option.or_assoc]

theorem statements_done {n : Nat} {x y : Txn} {stage : EditStage} (hwork : x.work = .edit q stage)
    (hleft : stage.left ≤ n) (hwrote : Wrote env q db.artifacts (x.view db).artifacts stage)
    (h : statements env db now n x = .ok y) :
    y.work = .edit q .done ∧ y.no = x.no ∧ EditOf env q db.artifacts (y.view db).artifacts := by
  induction n generalizing x stage with
  | zero =>
    cases h
    have hdone := EditStage.left_eq_zero.mp (Nat.le_zero.mp hleft)
    subst hdone
    exact ⟨hwork, rfl, hwrote⟩
  | succ n ih =>
    simp only [statements] at h
    split at h
    · cases h
    · rename_i o ho
      rw [hwork] at ho
      obtain ⟨o', ho', rfl⟩ := map_eq_ok ho
      have hnext := wrote_statement hwrote ho'
      have hleft' := left_of_statement ho'
      have hseen : Wrote env q db.artifacts ((x.after (o'.map (.edit q))).view db).artifacts
          o'.next := by
        rw [view_after]
        exact hnext
      exact ih (x := x.after (o'.map (.edit q))) rfl (by omega) hseen h

/-- A successful edit. -/
theorem editSchema_ok {db' : OnboardingDb} (h : editSchema env db now q = .ok db') :
    EditOf env q db.artifacts db'.artifacts := by
  obtain ⟨y, hy, rfl⟩ := map_eq_ok h
  have hstart : Wrote env q db.artifacts ((editTxn 0 q).view db).artifacts .readSession := rfl
  exact (statements_done (x := editTxn 0 q) rfl le_rfl hstart hy).2.2

theorem withSchema_drafted (a : ArtifactMap) : withSchema q a (drafted q.sessionId .schema) =
    (a (drafted q.sessionId .schema)).or (a (singleton q.sessionId .schema)) := by
  rw [withSchema, Function.update_of_ne (singleton_ne_drafted _ _ _ _).symm, withOriginal,
    Function.update_self]

theorem withTable_drafted (retyped : Json) (a : ArtifactMap) :
    withTable q retyped a (drafted q.sessionId .instanceTable) =
      (a (drafted q.sessionId .instanceTable)).or (a (singleton q.sessionId .instanceTable)) := by
  rw [withTable, Function.update_of_ne (singleton_ne_drafted _ _ _ _).symm, withOriginal,
    Function.update_self]

theorem withTable_of_ne {key : ArtifactKey} (retyped : Json) (a : ArtifactMap)
    (hkind : key.kind ≠ .instanceTable) : withTable q retyped a key = a key := by
  have hsingleton : key ≠ singleton q.sessionId .instanceTable :=
    fun h => hkind (congrArg ArtifactKey.kind h)
  have hdrafted : key ≠ drafted q.sessionId .instanceTable :=
    fun h => hkind (congrArg ArtifactKey.kind h)
  rw [withTable, Function.update_of_ne hsingleton, withOriginal, Function.update_of_ne hdrafted]

/-- The artifacts of other sessions are left as they are. -/
theorem EditOf.other {a b : ArtifactMap} (h : EditOf env q a b) {key : ArtifactKey}
    (hkey : key.sessionId ≠ q.sessionId) : b key = a key := by
  have hsingleton : ∀ kind, key ≠ singleton q.sessionId kind :=
    fun kind he => hkey (congrArg ArtifactKey.sessionId he)
  have hdrafted : ∀ kind, key ≠ drafted q.sessionId kind :=
    fun kind he => hkey (congrArg ArtifactKey.sessionId he)
  have hschema : withSchema q a key = a key := by
    rw [withSchema, Function.update_of_ne (hsingleton _), withOriginal,
      Function.update_of_ne (hdrafted _)]
  cases h with
  | schema _ _ => exact hschema
  | retyped _ _ table retyped _ _ =>
    rw [withTable, Function.update_of_ne (hsingleton _), withOriginal,
      Function.update_of_ne (hdrafted _), hschema]

end

/-! ## Calls one after the other -/

structure EditCall where
  request : EditRequest
  now : Time
deriving DecidableEq

section
variable (env : OnboardingEnv)

/-- A call that fails is rolled back. -/
def afterEdit (db : OnboardingDb) (c : EditCall) : OnboardingDb :=
  match editSchema env db c.now c.request with
  | .error _ => db
  | .ok db' => db'

def afterEdits (db : OnboardingDb) (calls : List EditCall) : OnboardingDb :=
  calls.foldl (afterEdit env) db

/-- The edits of a session that succeed, the newest last. -/
def successfulEdits (id : Uuid) : OnboardingDb → List EditCall → List EditRequest
  | _, [] => []
  | db, c :: calls =>
    match editSchema env db c.now c.request with
    | .error _ => successfulEdits id db calls
    | .ok db' => (if c.request.sessionId = id then [c.request] else []) ++
      successfulEdits id db' calls

end

/-- The artifacts of a session after the edits that were made. -/
structure OriginalsKept (id : Uuid) (before after : OnboardingDb) (made : List EditRequest) :
    Prop where
  schemaThere : made ≠ [] → before.artifacts (singleton id .schema) ≠ none
  schemaDrafted : after.artifacts (drafted id .schema) =
    if made = [] then none else before.artifacts (singleton id .schema)
  tableThere : ¬ (∀ q ∈ made, q.retype = []) → before.artifacts (singleton id .instanceTable) ≠ none
  tableDrafted : after.artifacts (drafted id .instanceTable) =
    if ∀ q ∈ made, q.retype = [] then none else before.artifacts (singleton id .instanceTable)
  /-- The last one is effective. -/
  schema : (after.artifactsFor id).schema =
    made.getLast?.elim (before.artifactsFor id).schema (fun q => some (editedSchema q.yaml))
  table : (∀ q ∈ made, q.retype = []) →
    (after.artifactsFor id).instanceTable = (before.artifactsFor id).instanceTable

section
variable {env : OnboardingEnv} {db before after after' : OnboardingDb} {q : EditRequest} {id : Uuid}
variable {made : List EditRequest}

theorem OriginalsKept.other (h : OriginalsKept id before after made)
    (hedit : EditOf env q after.artifacts after'.artifacts) (hid : q.sessionId ≠ id) :
    OriginalsKept id before after' made := by
  have hsame : ∀ key : ArtifactKey, key.sessionId = id →
      after'.artifacts key = after.artifacts key := by
    intro key hkey
    exact hedit.other (fun he => hid (he.symm.trans hkey))
  refine ⟨h.schemaThere, ?_, h.tableThere, ?_, ?_, ?_⟩
  · exact (hsame _ rfl).trans h.schemaDrafted
  · exact (hsame _ rfl).trans h.tableDrafted
  · exact (hsame (singleton id .schema) rfl).trans h.schema
  · exact fun hnone => (hsame (singleton id .instanceTable) rfl).trans (h.table hnone)

/-- The schema of an edit, and the copy it finds or makes. -/
theorem OriginalsKept.withSchema (h : OriginalsKept q.sessionId before after made)
    (hschema : after.artifacts (singleton q.sessionId .schema) ≠ none) :
    before.artifacts (singleton q.sessionId .schema) ≠ none ∧
      Onboarding.withSchema q after.artifacts (drafted q.sessionId .schema) =
        before.artifacts (singleton q.sessionId .schema) := by
  rw [withSchema_drafted, h.schemaDrafted]
  by_cases hmade : made = []
  · have hfirst : after.artifacts (singleton q.sessionId .schema) =
        before.artifacts (singleton q.sessionId .schema) := by
      have hsame := h.schema
      rw [hmade] at hsame
      exact hsame
    rw [if_pos hmade, Option.none_or, hfirst]
    exact ⟨hfirst ▸ hschema, rfl⟩
  · obtain ⟨original, horiginal⟩ := Option.ne_none_iff_exists'.mp (h.schemaThere hmade)
    rw [if_neg hmade, horiginal, Option.some_or]
    exact ⟨Option.some_ne_none original, rfl⟩

theorem OriginalsKept.edit (h : OriginalsKept q.sessionId before after made)
    (hedit : EditOf env q after.artifacts after'.artifacts) :
    OriginalsKept q.sessionId before after' (made ++ [q]) := by
  have hne : made ++ [q] ≠ [] := by simp
  have hlast : (made ++ [q]).getLast? = some q := List.getLast?_concat
  have hretypes : (∀ e ∈ made ++ [q], e.retype = []) ↔
      (∀ e ∈ made, e.retype = []) ∧ q.retype = [] := by
    rw [List.forall_mem_append, List.forall_mem_singleton]
  generalize hb : after'.artifacts = b at hedit
  cases hedit with
  | schema hschema hretype =>
    obtain ⟨hthere, hdrafted⟩ := h.withSchema hschema
    have htables : ∀ key : ArtifactKey, key.kind = .instanceTable →
        after'.artifacts key = after.artifacts key := by
      intro key hkind
      rw [hb, withSchema_of_ne after.artifacts (by rw [hkind]; exact instanceTable_ne)]
    have hretypes' : (∀ e ∈ made ++ [q], e.retype = []) ↔ ∀ e ∈ made, e.retype = [] :=
      hretypes.trans (and_iff_left hretype)
    refine ⟨fun _ => hthere, ?_, ?_, ?_, ?_, ?_⟩
    · rw [if_neg hne, hb, hdrafted]
    · exact fun hsome => h.tableThere (fun hnone => hsome (hretypes'.mpr hnone))
    · rw [htables _ rfl, h.tableDrafted]
      exact if_congr hretypes'.symm rfl rfl
    · rw [hlast]
      change after'.artifacts (singleton q.sessionId .schema) = some (editedSchema q.yaml)
      rw [hb]
      exact Function.update_self ..
    · intro hnone
      exact (htables (singleton q.sessionId .instanceTable) rfl).trans
        (h.table (hretypes'.mp hnone))
  | retyped hschema hretype table retyped htable hretyped =>
    obtain ⟨hthere, hdrafted⟩ := h.withSchema hschema
    have hschemas : ∀ key : ArtifactKey, key.kind = .schema →
        after'.artifacts key = Onboarding.withSchema q after.artifacts key := by
      intro key hkind
      rw [hb, withTable_of_ne retyped _ (by rw [hkind]; exact instanceTable_ne.symm)]
    have hsome : ¬ ∀ e ∈ made ++ [q], e.retype = [] := fun hnone => hretype (hretypes.mp hnone).2
    have htables : before.artifacts (singleton q.sessionId .instanceTable) ≠ none ∧
        (after.artifacts (drafted q.sessionId .instanceTable)).or
        (after.artifacts (singleton q.sessionId .instanceTable)) =
        before.artifacts (singleton q.sessionId .instanceTable) := by
      rw [h.tableDrafted]
      by_cases hearlier : ∀ e ∈ made, e.retype = []
      · have hfirst : after.artifacts (singleton q.sessionId .instanceTable) =
            before.artifacts (singleton q.sessionId .instanceTable) := h.table hearlier
        rw [if_pos hearlier, Option.none_or, hfirst, ← hfirst, htable]
        exact ⟨Option.some_ne_none table, rfl⟩
      · obtain ⟨original, horiginal⟩ := Option.ne_none_iff_exists'.mp (h.tableThere hearlier)
        rw [if_neg hearlier, horiginal, Option.some_or]
        exact ⟨Option.some_ne_none original, rfl⟩
    refine ⟨fun _ => hthere, ?_, fun _ => htables.1, ?_, ?_, fun hnone => absurd hnone hsome⟩
    · rw [if_neg hne, hschemas _ rfl, hdrafted]
    · rw [if_neg hsome, hb, withTable_drafted, withSchema_of_ne _ instanceTable_ne,
        withSchema_of_ne _ instanceTable_ne]
      exact htables.2
    · rw [hlast]
      change after'.artifacts (singleton q.sessionId .schema) = some (editedSchema q.yaml)
      rw [hschemas _ rfl]
      exact Function.update_self ..

/-- Calls on any sessions, over those that came before. -/
theorem OriginalsKept.afterEdits (h : OriginalsKept id before db made) (calls : List EditCall) :
    OriginalsKept id before (afterEdits env db calls)
      (made ++ successfulEdits env id db calls) := by
  induction calls generalizing db made with
  | nil =>
    rw [successfulEdits, List.append_nil]
    exact h
  | cons c calls ih =>
    change OriginalsKept id before (Onboarding.afterEdits env (afterEdit env db c) calls) _
    unfold successfulEdits afterEdit
    cases hc : editSchema env db c.now c.request with
    | error e => exact ih h
    | ok db' =>
      have hedit := editSchema_ok hc
      simp only
      by_cases hid : c.request.sessionId = id
      · subst hid
        rw [if_pos rfl, ← List.append_assoc]
        exact ih (h.edit hedit)
      · rw [if_neg hid, List.nil_append]
        exact ih (h.other hedit hid)

/-- Nothing has been copied yet. -/
theorem originalsKept_start (hschema : db.artifacts (drafted id .schema) = none)
    (htable : db.artifacts (drafted id .instanceTable) = none) : OriginalsKept id db db [] where
  schemaThere := fun h => absurd rfl h
  schemaDrafted := hschema
  tableThere := fun h => absurd nofun h
  tableDrafted := htable.trans (if_pos nofun).symm
  schema := rfl
  table := fun _ => rfl

/-- What is effective does not depend on the copies. -/
theorem artifactsFor_putDrafted {kind : ArtifactKind} (hkind : kind ≠ .extractionCache) (id' : Uuid)
    (payload : Json) :
    (db.putArtifact (drafted id' kind) payload).artifactsFor id = db.artifactsFor id := by
  have hsingleton : ∀ k, (db.putArtifact (drafted id' kind) payload).artifacts (singleton id k) =
      db.artifacts (singleton id k) :=
    fun k => Function.update_of_ne (singleton_ne_drafted id id' k kind) _ _
  have hfiles : ∀ name,
      (db.putArtifact (drafted id' kind) payload).artifacts ⟨id, .extractionCache, name⟩ =
      db.artifacts ⟨id, .extractionCache, name⟩ :=
    fun name => Function.update_of_ne (fun h => hkind (congrArg ArtifactKey.kind h).symm) _ _
  simp only [OnboardingDb.artifactsFor, hsingleton, hfiles]

end

/-! ## A call in the system -/

section
variable {env : OnboardingEnv} {s : OnboardingState} {now : Time}

/-- One transaction is under way. -/
def OnboardingState.alone (s : OnboardingState) (x : Txn) : OnboardingState :=
  { s with txns := ⟨[x], List.nodup_singleton x.no⟩ }

def OnboardingState.quietened (s : OnboardingState) : OnboardingState :=
  { s with txns := Table.empty }

theorem closed_alone (s : OnboardingState) (x : Txn) : (s.alone x).closed x.no = Table.empty := by
  have hrows : ((s.alone x).closed x.no).rows = [] := by
    simp [OnboardingState.closed, OnboardingState.alone, Table.deleteWhere]
  generalize (s.alone x).closed x.no = txns at hrows
  cases txns
  cases hrows
  rfl

theorem get_alone (s : OnboardingState) (x : Txn) : (s.alone x).txns.get x.no = some x :=
  Table.get_eq_some.mpr ⟨List.mem_singleton_self x, rfl⟩

variable (env s now) in
theorem statement_alone (x : Txn) : onboardingStep env (s.alone x) (.statement x.no now) =
    match x.work.statement env (x.view s.db) now with
    | .error _ => some s.quietened
    | .ok o => some (s.alone (x.after o)) := by
  have hfree : (s.alone x).free (some x.no) (x.work.locks (x.view s.db)) := by
    intro y hy hne
    exact absurd (congrArg (fun y => some (Txn.no y)) (List.mem_singleton.mp hy)) hne
  have hdb : (s.alone x).db = s.db := rfl
  simp only [onboardingStep, get_alone, hdb, if_pos hfree]
  cases x.work.statement env (x.view s.db) now with
  | error e =>
    simp only [closed_alone]
    rfl
  | ok o =>
    have hrows : ((s.alone x).txns.updateWhere (fun y => y.no = x.no)
        (fun y => y.after o) (fun _ => rfl)).rows =
        [x.after o] := by
      simp [OnboardingState.alone, Table.updateWhere, Table.update, Table.rewrite]
    simp only
    generalize (s.alone x).txns.updateWhere (fun y => y.no = x.no)
      (fun y => y.after o) (fun _ => rfl) =
      txns at hrows
    cases txns
    cases hrows
    rfl

variable (env s now) in
theorem statements_alone (n : Nat) (x : Txn) : ∃ m,
    match statements env s.db now n x with
    | .error _ => Reaches (onboardingStep env) (s.alone x) (List.replicate m (.statement x.no now))
      s.quietened
    | .ok y => Reaches (onboardingStep env) (s.alone x) (List.replicate m (.statement x.no now))
        (s.alone y) := by
  induction n generalizing x with
  | zero => exact ⟨0, .nil _ _⟩
  | succ n ih =>
    have hstep := statement_alone env s now x
    unfold statements
    cases ho : x.work.statement env (x.view s.db) now with
    | error e =>
      rw [ho] at hstep
      exact ⟨1, reaches_single.mpr hstep⟩
    | ok o =>
      rw [ho] at hstep
      obtain ⟨m, hrest⟩ := ih (x.after o)
      refine ⟨m + 1, ?_⟩
      rw [List.replicate_succ]
      simp only
      cases hy : statements env s.db now n (x.after o) with
      | error e =>
        rw [hy] at hrest
        exact reaches_cons.mpr ⟨_, hstep, hrest⟩
      | ok y =>
        rw [hy] at hrest
        exact reaches_cons.mpr ⟨_, hstep, hrest⟩

/-- A call is a run of the system; where the call fails, the run leaves the state as it was. -/
theorem edit_alone (hidle : s.txns = Table.empty) (c : EditCall) :
    ∃ acts t, Reaches (onboardingStep env) s (.begin 0 (.edit c.request) :: acts) t ∧
      t.txns = Table.empty ∧ t.db = afterEdit env s.db c ∧
      ∀ e, editSchema env s.db c.now c.request = .error e → t = s := by
  have hbegin : onboardingStep env s (.begin 0 (.edit c.request)) =
      some (s.alone (editTxn 0 c.request)) := by
    cases s
    cases hidle
    rfl
  have hquiet : s.quietened = s := by
    cases s
    cases hidle
    rfl
  obtain ⟨m, hrun⟩ := statements_alone env s c.now 10 (editTxn 0 c.request)
  unfold afterEdit editSchema
  cases hy : statements env s.db c.now 10 (editTxn 0 c.request) with
  | error e =>
    rw [hy, hquiet] at hrun
    exact ⟨_, s, reaches_cons.mpr ⟨_, hbegin, hrun⟩, hidle, rfl, fun _ _ => rfl⟩
  | ok y =>
    rw [hy] at hrun
    have hstart : Wrote env c.request s.db.artifacts ((editTxn 0 c.request).view s.db).artifacts
        .readSession := rfl
    obtain ⟨hwork, hno, -⟩ := statements_done (x := editTxn 0 c.request) rfl le_rfl hstart hy
    have hfinished : y.work.finished := by
      rw [hwork]
      exact rfl
    have hcommit : onboardingStep env (s.alone y) (.commit y.no) =
        some { s.alone y with
          db := y.view s.db
          txns := (s.alone y).closed y.no
          journal := y.work.events (y.view s.db) ++ s.journal } := by
      have hdb : (s.alone y).db = s.db := rfl
      simp only [onboardingStep, get_alone, if_pos hfinished, hdb]
      rfl
    exact ⟨_, _, reaches_cons.mpr
      ⟨_, hbegin, reaches_append.mpr ⟨_, hrun, reaches_single.mpr hcommit⟩⟩,
      closed_alone s y, rfl, fun _ h => (by cases h)⟩

theorem edits_alone (hidle : s.txns = Table.empty) (calls : List EditCall) :
    ∃ acts t, Reaches (onboardingStep env) s acts t ∧ t.txns = Table.empty ∧
      t.db = afterEdits env s.db calls := by
  induction calls generalizing s with
  | nil => exact ⟨[], s, .nil _ _, hidle, rfl⟩
  | cons c calls ih =>
    obtain ⟨first, m, hfirst, hm, hdb, -⟩ := edit_alone hidle c
    obtain ⟨rest, t, hrest, ht, htdb⟩ := ih hm
    refine ⟨_, t, reaches_append.mpr ⟨m, hfirst, hrest⟩, ht, ?_⟩
    rw [htdb, hdb]
    rfl

end

/-! ## Copies are made by edits -/

/-- What an execution has still to store. -/
def DraftPhase.pending : DraftPhase → List (ArtifactKey × Json)
  | .writing _ rest _ => rest
  | _ => []

/-- A copy under the second name; the files of the extraction cache may have any name. -/
def ArtifactKey.isCopy (key : ArtifactKey) : Prop :=
  key.kind ≠ .extractionCache ∧ key = drafted key.sessionId key.kind

structure CopiedByEdits (s : OnboardingState) : Prop where
  copied : ∀ key : ArtifactKey, key.isCopy → s.db.artifacts key ≠ none →
    ∃ by_, .edited key.sessionId by_ ∈ s.journal
  pending : ∀ i, ∀ p ∈ (s.execs i).pending, ¬ p.1.isCopy

section
variable {env : OnboardingEnv} {s t : OnboardingState} {a : OnboardingAct} {id : Uuid}

theorem not_isCopy_singleton (id : Uuid) (kind : ArtifactKind) : ¬ (singleton id kind).isCopy :=
  fun h => singleton_ne_drafted id id kind kind h.2

theorem not_isCopy_produced (produced : Produced) (id : Uuid) :
    ∀ p ∈ produced.artifacts id, ¬ p.1.isCopy := by
  intro p hp
  unfold Produced.artifacts at hp
  simp only [List.mem_append, List.mem_map] at hp
  rcases hp with (((hp | ⟨table, -, rfl⟩) | ⟨map, -, rfl⟩) | ⟨file, -, rfl⟩) | ⟨queries, -, rfl⟩
  · split at hp
    · cases hp
    · rw [List.mem_singleton.mp hp]
      exact not_isCopy_singleton id .schema
  · exact not_isCopy_singleton id .instanceTable
  · exact not_isCopy_singleton id .predicateMap
  · exact fun h => h.1 rfl
  · exact not_isCopy_singleton id .candidateQueries

theorem pending_exec {j : Nat} {phase : DraftPhase} (hphase : ∀ p ∈ phase.pending, ¬ p.1.isCopy)
    (hs : ∀ i, ∀ p ∈ (s.execs i).pending, ¬ p.1.isCopy) :
    ∀ i, ∀ p ∈ ((s.exec j phase).execs i).pending, ¬ p.1.isCopy := by
  intro i
  change ∀ p ∈ (Function.update s.execs j phase i).pending, ¬ p.1.isCopy
  by_cases hi : i = j
  · subst hi
    rw [Function.update_self]
    exact hphase
  · rw [Function.update_of_ne hi]
    exact hs i

/-- An execution stores what an analysis produced. -/
theorem pending_step (h : onboardingStep env s a = some t)
    (hs : ∀ i, ∀ p ∈ (s.execs i).pending, ¬ p.1.isCopy) :
    ∀ i, ∀ p ∈ (t.execs i).pending, ¬ p.1.isCopy := by
  have hidle : ∀ p ∈ DraftPhase.idle.pending, ¬ p.1.isCopy := fun _ h => (by cases h)
  cases a with
  | startDraft i sessionId =>
    simp only [onboardingStep] at h
    split at h
    · split at h
      · split at h
        · cases h
          exact pending_exec (show ∀ p ∈ (DraftPhase.drafting sessionId).pending,
            ¬ p.1.isCopy from fun _ h => (by cases h)) hs
        · cases h
          exact hs
      · cases h
        exact hs
    · cases h
  | analyzed i produced =>
    simp only [onboardingStep] at h
    split at h
    · rename_i id hphase
      cases h
      exact pending_exec (not_isCopy_produced produced id) hs
    · cases h
  | put i =>
    simp only [onboardingStep] at h
    split at h
    · rename_i id key payload rest stats hphase
      split at h
      · cases h
        refine pending_exec (s := s) (j := i) ?_ hs
        intro p hp
        refine hs i p ?_
        rw [hphase]
        exact List.mem_cons_of_mem _ hp
      · cases h
    · cases h
  | ready i now =>
    simp only [onboardingStep] at h
    split at h
    · obtain ⟨-, rfl⟩ := setStatusStep_eq_some h
      exact pending_exec hidle hs
    · cases h
  | giveUp i error now =>
    simp only [onboardingStep] at h
    split at h
    · obtain ⟨-, rfl⟩ := setStatusStep_eq_some h
      exact pending_exec hidle hs
    · cases h
  | crash i =>
    cases h
    exact pending_exec hidle hs
  | create id domain collection runId by_ now =>
    obtain ⟨sessions, -, rfl⟩ := Option.map_eq_some_iff.mp h
    exact hs
  | begin no q =>
    obtain ⟨txns, -, rfl⟩ := Option.map_eq_some_iff.mp h
    exact hs
  | rollback no =>
    cases h
    exact hs
  | statement no now =>
    simp only [onboardingStep] at h
    split at h
    · cases h
    · split at h
      · split at h
        · cases h
          exact hs
        · cases h
          exact hs
      · cases h
  | commit no =>
    simp only [onboardingStep] at h
    split at h
    · cases h
    · split at h
      · cases h
        exact hs
      · cases h
  | cancel id now =>
    simp only [onboardingStep] at h
    split at h
    · cases h
      exact hs
    · cases h
  | progress i entry now =>
    simp only [onboardingStep] at h
    split at h
    · split at h
      · cases h
        exact hs
      · cases h
    · cases h

/-- The transactions under way write what their requests allow. -/
theorem copied_commit {x : Txn} (hs : OnboardingInv s) (hcopies : CopiedByEdits s)
    (hx : x ∈ s.txns.rows) {key : ArtifactKey} (hcopy : key.isCopy)
    (hkey : (x.view s.db).artifacts key ≠ none) :
    ∃ by_, .edited key.sessionId by_ ∈ x.work.events (x.view s.db) ++ s.journal := by
  cases hlookup : x.artifacts.lookup key with
  | none =>
    have hbefore : s.db.artifacts key ≠ none := by
      intro hnone
      refine hkey ?_
      change (x.artifacts.lookup key).or (s.db.artifacts key) = none
      rw [hlookup, hnone, Option.none_or]
    obtain ⟨by_, hedited⟩ := hcopies.copied key hcopy hbefore
    exact ⟨by_, List.mem_append_right _ hedited⟩
  | some payload =>
    obtain ⟨earlier, later, hartifacts, -⟩ := List.lookup_eq_some_iff.mp hlookup
    have hmem : (key, payload) ∈ x.artifacts :=
      hartifacts ▸ List.mem_append_right earlier List.mem_cons_self
    have hedits := (hs.sound x hx).edits (key, payload) hmem
    cases hwork : x.work with
    | edit q stage =>
      rw [hwork] at hedits
      have hsession : key.sessionId = q.sessionId := hedits
      rw [hsession]
      exact ⟨q.by_, List.mem_cons_self⟩
    | approve sessionId by_ stage =>
      rw [hwork] at hedits
      exact hedits.elim
    | publish sessionId stage =>
      rw [hwork] at hedits
      exact hedits.elim

theorem copiedByEdits_step (hs : OnboardingInv s) (h : onboardingStep env s a = some t)
    (hcopies : CopiedByEdits s) : CopiedByEdits t where
  pending := pending_step h hcopies.pending
  copied := by
    cases onboardingStep_move h with
    | commit no x hx hno hfinished =>
      exact fun key hcopy hkey => copied_commit hs hcopies hx hcopy hkey
    | put i id key payload rest stats hphase =>
      intro k hcopy hk
      have hne : k ≠ key := by
        rintro rfl
        refine hcopies.pending i (k, payload) ?_ hcopy
        rw [hphase]
        exact List.mem_cons_self
      refine hcopies.copied k hcopy ?_
      rwa [← Function.update_of_ne hne (some payload) s.db.artifacts]
    | create => exact hcopies.copied
    | begin => exact hcopies.copied
    | write => exact hcopies.copied
    | drop => exact hcopies.copied
    | cancel => exact hcopies.copied
    | progress => exact hcopies.copied
    | ready => exact hcopies.copied
    | giveUp => exact hcopies.copied
    | exec => exact hcopies.copied

theorem copiedByEdits_initial : CopiedByEdits .initial := ⟨nofun, nofun⟩

theorem copiedByEdits_reaches {acts : List OnboardingAct}
    (h : Reaches (onboardingStep env) .initial acts s) : CopiedByEdits s :=
  (h.invariant (P := fun s => OnboardingInv s ∧ CopiedByEdits s)
    (fun _ _ _ hs hstep => ⟨onboardingInv_step hstep hs.1, copiedByEdits_step hs.1 hstep hs.2⟩)
    ⟨onboardingInv_initial, copiedByEdits_initial⟩).2

/-- A session that has not been edited has no copies. -/
theorem no_copy_of_unedited {acts : List OnboardingAct}
    (h : Reaches (onboardingStep env) .initial acts s) (hfirst : ∀ by_, .edited id by_ ∉ s.journal)
    (kind : ArtifactKind) (hkind : kind ≠ .extractionCache) :
    s.db.artifacts (drafted id kind) = none := by
  by_contra hsome
  obtain ⟨by_, hedited⟩ := (copiedByEdits_reaches h).copied (drafted id kind) ⟨hkind, rfl⟩ hsome
  exact hfirst by_ hedited

/-- After any edits of a session since its draft: what the drafter proposed is kept where it was
copied, the schema edited last is effective, whatever the copies are, and a call that fails
changes nothing. -/
theorem drafters_original_kept {acts : List OnboardingAct}
    (h : Reaches (onboardingStep env) .initial acts s) (hfirst : ∀ by_, .edited id by_ ∉ s.journal)
    (calls : List EditCall) :
    OriginalsKept id s.db (afterEdits env s.db calls) (successfulEdits env id s.db calls) ∧
      (∀ (kind : ArtifactKind) (payload : Json), kind ≠ .extractionCache →
        ((afterEdits env s.db calls).putArtifact (drafted id kind) payload).artifactsFor id =
        (afterEdits env s.db calls).artifactsFor id) ∧
      ∀ (t : OnboardingState) (c : EditCall) (e : OnboardingError),
      t.db = afterEdits env s.db calls → t.txns = Table.empty →
      editSchema env t.db c.now c.request = .error e →
      afterEdits env s.db (calls ++ [c]) = afterEdits env s.db calls ∧
      ∃ acts, Reaches (onboardingStep env) t (.begin 0 (.edit c.request) :: acts) t := by
  have hstart := originalsKept_start (no_copy_of_unedited h hfirst .schema nofun)
    (no_copy_of_unedited h hfirst .instanceTable nofun)
  refine ⟨hstart.afterEdits calls,
    fun kind payload hkind => artifactsFor_putDrafted hkind id payload, ?_⟩
  intro t c e hdb hidle hfails
  obtain ⟨acts, t', hrun, -, -, hsame⟩ := edit_alone hidle c
  refine ⟨?_, acts, hsame e hfails ▸ hrun⟩
  rw [hdb] at hfails
  unfold afterEdits at hfails ⊢
  rw [List.foldl_append, List.foldl_cons, List.foldl_nil, afterEdit, hfails]

end

/-- A draft with an instance table. -/
def tableDraft : List OnboardingAct :=
  [.create 10 "plant" "manuals" none 1 0, .startDraft 0 10,
    .analyzed 0
    ⟨"drafted", some (.obj [("instances", .arr [.obj [("entity_type", .str "raw:alarm")]])]),
      none, [], none, .emptyObj⟩,
    .put 0, .put 0, .ready 0 1]

theorem tableDraft_run :
    (tableDraft.foldlM (onboardingStep plainTexts) .initial).isSome = true := by
  decide +kernel

/-- Principal 2 retypes the instances, a request finds no session, and principal 3 edits the
schema alone. -/
def twoEdits : List EditCall :=
  [⟨⟨10, "first", [("alarm", "Alarm")], 2⟩, 2⟩, ⟨⟨11, "other", [], 2⟩, 3⟩,
    ⟨⟨10, "second", [], 3⟩, 4⟩]

theorem drafters_original_kept_twoEdits :
    ∃ s, Reaches (onboardingStep plainTexts) .initial tableDraft s ∧
      successfulEdits plainTexts 10 s.db twoEdits =
      [⟨10, "first", [("alarm", "Alarm")], 2⟩, ⟨10, "second", [], 3⟩] ∧
      OriginalsKept 10 s.db (afterEdits plainTexts s.db twoEdits)
      (successfulEdits plainTexts 10 s.db twoEdits) := by
  have hrun := reaches_get tableDraft_run
  have hjournal :
      ((tableDraft.foldlM (onboardingStep plainTexts) .initial).get tableDraft_run).journal =
      [] := by
    decide +kernel
  have hfirst : ∀ by_,
      .edited 10 by_ ∉
      ((tableDraft.foldlM (onboardingStep plainTexts) .initial).get tableDraft_run).journal := by
    rw [hjournal]
    exact fun _ => List.not_mem_nil
  exact ⟨_, hrun, by decide +kernel, (drafters_original_kept hrun hfirst twoEdits).1⟩

end AgenticPlatform.Onboarding
