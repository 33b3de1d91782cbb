import AgenticPlatform.Onboarding.Transactions
import AgenticPlatform.Workloads.GraphEngine
import AgenticPlatform.Workloads.Reindex

/-!
# What a graph is built from

The corpus and the published taxonomies of one tenant, as they are committed, and the
directory the engine reads a taxonomy from. A directory belongs to a tenant and a domain,
outlives the builds that fill it, and files are only ever written there. The engine's
graph is a function of the domain, of what is found under the root, and of the documents.
-/
namespace AgenticPlatform.Workloads
open AgenticPlatform.Foundation AgenticPlatform.Identity AgenticPlatform.Corpus
  AgenticPlatform.Onboarding

/-! ## The committed data of a tenant -/

structure ArtifactRow where
  key : ArtifactKey
  payload : Json
deriving DecidableEq

structure TenantDb where
  collections : String → Collection
  sessions : SessionTable
  artifacts : Table ArtifactRow ArtifactRow.key

/-- Its onboarding tables. -/
def TenantDb.onboarding (db : TenantDb) : OnboardingDb where
  sessions := db.sessions
  artifacts := fun key => (db.artifacts.get key).map ArtifactRow.payload

/-- The dictionary that `artifacts_for` returns. -/
structure StoredArtifacts where
  schema : Option Json
  instanceTable : Option Json
  predicateMap : Option Json
  candidateQueries : Option Json
  extractionCache : List (String × Json)
deriving DecidableEq

def TenantDb.artifactsFor (db : TenantDb) (sessionId : Uuid) : StoredArtifacts where
  schema := db.onboarding.artifacts (singleton sessionId .schema)
  instanceTable := db.onboarding.artifacts (singleton sessionId .instanceTable)
  predicateMap := db.onboarding.artifacts (singleton sessionId .predicateMap)
  candidateQueries := db.onboarding.artifacts (singleton sessionId .candidateQueries)
  extractionCache :=
    (db.artifacts.rows.filter
      (fun r => r.key.sessionId = sessionId ∧ r.key.kind = .extractionCache)).map
      (fun r => (r.key.name, r.payload))

def StoredArtifacts.empty : StoredArtifacts := ⟨.none, .none, .none, .none, []⟩

/-- The partial unique index leaves at most one. -/
def TenantDb.publishedSession (db : TenantDb) (domain : String) : Option Uuid :=
  (db.onboarding.publishedOf domain).head?.map SessionRow.id

theorem asDemoted_id (now : Time) (r : SessionRow) : (asDemoted now r).id = r.id := rfl

theorem asPublished_id (now : Time) (r : SessionRow) : (asPublished now r).id = r.id := rfl

/-- The transaction of `publish`, as it commits. -/
def TenantDb.publish (db : TenantDb) (sessionId : Uuid) (now : Time) :
    Except OnboardingError (TenantDb × String) :=
  match db.sessions.get sessionId with
  | none => .error .sessionNotFound
  | some r =>
    if r.status = .approved then
      let demoted :=
        db.sessions.updateWhere (fun r' => r'.domain = r.domain ∧ r'.status = .published)
          (asDemoted now) (asDemoted_id now)
      .ok ({ db with
          sessions :=
            demoted.updateWhere (fun r' => r'.id = sessionId) (asPublished now)
              (asPublished_id now) },
        r.domain)
    else .error (.notApproved r.status)

/-! ## Directories -/

structure Directory where
  schema : Option String
  instanceTable : Option Json
  predicateMap : Option Json
  extractionCache : List (String × Json)
deriving DecidableEq

def Directory.empty : Directory := ⟨.none, .none, .none, []⟩

structure BuildEnv (γ : Type) extends GraphEnv γ where
  /-- `domain.strip().lower()`. -/
  domainKey : String → String
  /-- `str(value)` of a value that is not a string. -/
  valueText : Json → String
  /-- `KnowledgeGraph(domain)` and `build_from_documents`, with what is under the root, or in the
  engine's own tree where there is none; `none` where it raises. -/
  knowledgeGraph : String → Option Directory → List GraphDocument → Option γ

section
variable {γ : Type} (env : BuildEnv γ)

def textOf : Json → String
  | .str text => text
  | value => env.valueText value

/-- A payload that Python takes for true. -/
def truthy (payload : Option Json) : Option Json := payload.filter (fun value => !falsy value)

def schemaText (schema : Option Json) : Option String :=
  match schema with
  | some (.obj fields) => (truthy (fieldOf fields "yaml")).map (textOf env)
  | _ => none

/-- Files are written, none is removed. -/
def materialize (dir : Directory) (artifacts : StoredArtifacts) : Directory where
  schema := (schemaText env artifacts.schema).or dir.schema
  instanceTable := (truthy artifacts.instanceTable).or dir.instanceTable
  predicateMap := (truthy artifacts.predicateMap).or dir.predicateMap
  extractionCache :=
    artifacts.extractionCache.foldl (fun files file => setField files file.1 file.2)
    dir.extractionCache

/-- `published_artifacts`; an empty dictionary counts as none. -/
def TenantDb.publishedArtifacts (db : TenantDb) (schemaDomain : String) : Option StoredArtifacts :=
  ((db.publishedSession (env.domainKey schemaDomain)).map db.artifactsFor).filter
    (fun a => a ≠ .empty)

/-- The graph of what is committed. -/
def TenantDb.graph (db : TenantDb) (collection schemaDomain : String) : Option γ :=
  env.knowledgeGraph schemaDomain
    ((db.publishedArtifacts env schemaDomain).map (materialize env .empty))
    (loadDocuments (db.collections collection))

end

/-! ## Commits -/

section
variable {db db' : TenantDb}

/-- An update of rows of other domains leaves the published sessions of a domain. -/
theorem publishedOf_updateWhere (sessions : SessionTable) {p : SessionRow → Prop} [DecidablePred p]
    {f : SessionRow → SessionRow} (hf : ∀ a, (f a).id = a.id) {d : String}
    (h : ∀ a ∈ sessions.rows, p a → a.domain ≠ d ∧ (f a).domain ≠ d) :
    (sessions.updateWhere p f hf).rows.filter (fun r => r.domain = d ∧ r.status = .published) =
      sessions.rows.filter (fun r => r.domain = d ∧ r.status = .published) := by
  change (sessions.rows.map (Table.rewrite p f)).filter _ = _
  generalize sessions.rows = rows at h
  induction rows with
  | nil => rfl
  | cons a rows ih =>
    have htail := ih (fun b hb => h b (List.mem_cons_of_mem a hb))
    rw [List.map_cons, List.filter_cons, List.filter_cons, htail]
    by_cases hp : p a
    · obtain ⟨ha, hfa⟩ := h a List.mem_cons_self hp
      simp [Table.rewrite, hp, ha, hfa]
    · rw [Table.rewrite, if_neg hp]

/-- Publishing leaves the corpus, the artifacts, and the other domains as they are. -/
theorem publish_spec {sessionId : Uuid} {now : Time} {domain : String}
    (h : db.publish sessionId now = .ok (db', domain)) :
    db'.collections = db.collections ∧ db'.artifacts = db.artifacts ∧
      ∀ d, d ≠ domain → db'.publishedSession d = db.publishedSession d := by
  unfold TenantDb.publish at h
  split at h
  · cases h
  · rename_i r hget
    split at h
    · cases h
      obtain ⟨hr, rfl⟩ := Table.get_eq_some.mp hget
      refine ⟨rfl, rfl, ?_⟩
      intro d hd
      have hrows := (publishedOf_updateWhere (db.sessions.updateWhere
          (fun r' => r'.domain = r.domain ∧ r'.status = .published) (asDemoted now) (fun _ => rfl))
          (f := asPublished now) (p := fun r' => r'.id = r.id) (d := d) (fun _ => rfl) ?_).trans
        (publishedOf_updateWhere db.sessions (f := asDemoted now) (fun _ => rfl) ?_)
      · exact congrArg (fun rows : List SessionRow => rows.head?.map SessionRow.id) hrows
      · -- The row that is published has the domain of the one that was read.
        intro b hb hid
        have hdomain : b.domain = r.domain := by
          rcases Table.mem_updateWhere (f := asDemoted now) (fun _ => rfl) hb with ⟨hb, -⟩ |
            ⟨a, -, ha, rfl⟩
          · cases Table.eq_of_key hb hr hid
            rfl
          · exact ha.1
        exact ⟨hdomain ▸ hd.symm, hdomain ▸ hd.symm⟩
      · intro a ha hwhere
        exact ⟨hwhere.1 ▸ hd.symm, hwhere.1 ▸ hd.symm⟩
    · cases h

theorem loadDocuments_congr {c c' : Collection} (hlive : c'.liveVersion = c.liveVersion)
    (hchunks : ∀ v, c.liveVersion = some v → c'.chunksOf v = c.chunksOf v) :
    loadDocuments c' = loadDocuments c := by
  unfold loadDocuments
  rw [hlive]
  cases h : c.liveVersion with
  | none => rfl
  | some v =>
    simp only
    rw [hchunks v h]

theorem loadDocuments_begin (c : Collection) (exec : Nat) (runId : Option Uuid) :
    loadDocuments (c.begin exec runId).1 = loadDocuments c :=
  loadDocuments_congr (Collection.liveVersion_begin c exec runId) (fun _ _ => rfl)

/-- The chunks of a build that is not live are not loaded. -/
theorem loadDocuments_writeChunks {c : Collection} {rows : List ChunkRow} {version : Nat}
    (hlive : c.liveVersion ≠ some version) (hrows : ∀ r ∈ rows, r.buildVersion = version) :
    loadDocuments (writeChunks c rows) = loadDocuments c := by
  refine loadDocuments_congr rfl ?_
  intro v hv
  refine chunksOf_writeChunks ?_
  intro r hr hsame
  exact hlive (hv.trans (congrArg some (hsame.symm.trans (hrows r hr))))

theorem loadDocuments_reap (c : Collection) : loadDocuments c.reap.1 = loadDocuments c := by
  refine loadDocuments_congr (Collection.liveVersion_reap c) ?_
  intro v hv
  exact Collection.chunksOf_reap c ((Collection.spares_iff hv).mpr (Or.inl rfl))

end

end AgenticPlatform.Workloads
