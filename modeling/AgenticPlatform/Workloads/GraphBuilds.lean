import AgenticPlatform.Foundation.Transition
import AgenticPlatform.Workloads.GraphArtifacts

/-!
# Building graphs while the corpus and the taxonomies change

Calls of `build_graph`, publications and reindexes of one tenant in one process, in any
interleaving. A transaction takes effect at its commit, and `publish_session` and the
reindex invalidate the cache some time after theirs, or never, where their process dies.
Writing a directory is one step, and so is building the graph from it.
-/
namespace AgenticPlatform.Workloads
open AgenticPlatform.Foundation AgenticPlatform.Identity AgenticPlatform.Corpus
  AgenticPlatform.Onboarding

structure BuildRequest where
  ctx : RequestContext
  llm : Client
  collection : String
  schemaDomain : String
  force : Bool
deriving DecidableEq

/-- Where a call of `build_graph` stands. -/
inductive BuildPhase (γ : Type) where
  | bound
  | loaded (documents : List GraphDocument)
  /-- The lookup missed; `published_session` comes next. -/
  | reading (documents : List GraphDocument)
  | found (documents : List GraphDocument) (sessionId : Uuid)
  | fetched (documents : List GraphDocument) (artifacts : StoredArtifacts)
  /-- What the engine is to find in the directory, or its own defaults. -/
  | ready (documents : List GraphDocument) (artifacts : Option StoredArtifacts)
  | constructed (documents : List GraphDocument) (artifacts : Option StoredArtifacts) (graph : γ)
  | returned (graph : Option γ)
  | raised
deriving DecidableEq

structure BuildCall (γ : Type) where
  request : BuildRequest
  phase : BuildPhase γ
deriving DecidableEq

def BuildCall.inFlight {γ : Type} (c : BuildCall γ) : Bool :=
  match c.phase with
  | .returned _ | .raised => false
  | _ => true

/-- A commit that has its invalidation still to come. -/
inductive Reload where
  | published (domain : String)
  | promoted (collection : String)
deriving DecidableEq

/-- The taxonomies of the domain, or the chunks of the collection, are what it changed. -/
def Reload.touches (domain collection : String) : Reload → Prop
  | .published d => d = domain
  | .promoted c => c = collection

instance (domain collection : String) : DecidablePred (Reload.touches domain collection)
  | .published _ | .promoted _ => inferInstanceAs (Decidable (_ = _))

structure GraphState (γ : Type) where
  db : TenantDb
  /-- By what is left of a domain in a path. -/
  disk : String → Directory
  cache : GraphCache γ
  calls : Nat → Option (BuildCall γ)
  /-- By the number of the request. -/
  pending : List (Nat × Reload)
  /-- What was committed at some moment of a call; not in the process. -/
  moments : Nat → List TenantDb

inductive BuildStep where
  | load
  | lookup
  /-- `published_session`. -/
  | findSession
  /-- `artifacts_for`. -/
  | readArtifacts
  | materialize
  /-- A read of the artifacts raises. -/
  | degrade
  /-- `materialize` raises, and leaves the directory as it is by then. -/
  | failMaterialize (dir : Directory)
  | construct
  | store

inductive GraphAct where
  | start (i : Nat) (q : BuildRequest)
  | build (i : Nat) (a : BuildStep)
  | begin (collection : String) (exec : Nat) (runId : Option Uuid)
  /-- Chunks of a build that is under way. -/
  | ingest (collection : String) (version : Nat) (rows : List ChunkRow)
  | promote (j : Nat) (collection : String) (version : Nat) (now : Time)
  | reap (collection : String)
  | publish (j : Nat) (sessionId : Uuid) (now : Time)
  | invalidate (j : Nat)

section
variable {γ : Type}

namespace GraphState

/-- A process that starts, over whatever is committed and on disk. -/
def init (db : TenantDb) (disk : String → Directory) : GraphState γ where
  db := db
  disk := disk
  cache := .empty
  calls := fun _ => none
  pending := []
  moments := fun _ => []

def start (s : GraphState γ) (i : Nat) (q : BuildRequest) : GraphState γ :=
  { s with
    calls := Function.update s.calls i (some ⟨q, .bound⟩)
    moments := Function.update s.moments i [s.db] }

def move (s : GraphState γ) (i : Nat) (q : BuildRequest) (p : BuildPhase γ) : GraphState γ :=
  { s with calls := Function.update s.calls i (some ⟨q, p⟩) }

def write (s : GraphState γ) (domain : String) (dir : Directory) : GraphState γ :=
  { s with disk := Function.update s.disk domain dir }

def inFlight (s : GraphState γ) (i : Nat) : Bool := (s.calls i).any BuildCall.inFlight

def commit (s : GraphState γ) (db : TenantDb) : GraphState γ :=
  { s with
    db := db
    moments := fun i => if s.inFlight i then db :: s.moments i else s.moments i }

/-- The commit of one collection. -/
def commitCollection (s : GraphState γ) (collection : String) (c : Collection) : GraphState γ :=
  s.commit { s.db with collections := Function.update s.db.collections collection c }

def announce (s : GraphState γ) (j : Nat) (reload : Reload) : GraphState γ :=
  { s with pending := (j, reload) :: s.pending }

end GraphState

variable (env : BuildEnv γ) (tenantId : Uuid)

def buildStep (s : GraphState γ) (i : Nat) (q : BuildRequest) :
    BuildPhase γ → BuildStep → Option (GraphState γ)
  | .bound, .load => some (s.move i q (.loaded (loadDocuments (s.db.collections q.collection))))
  | .loaded documents, .lookup =>
    match s.cache.hit (cacheKey q.ctx q.collection) (corpusFingerprint env.toGraphEnv documents)
        q.force with
    | some e => some (s.move i q (.returned (some e.graph)))
    | none => some (s.move i q (if documents = [] then .returned none else .reading documents))
  | .reading documents, .findSession =>
    match s.db.publishedSession (env.domainKey q.schemaDomain) with
    | some id => some (s.move i q (.found documents id))
    | none => some (s.move i q (.ready documents none))
  | .found documents id, .readArtifacts =>
    let stored := s.db.artifactsFor id
    some (s.move i q (if stored = .empty then .ready documents none else .fetched documents stored))
  | .fetched documents stored, .materialize =>
    let root := env.domainKey q.schemaDomain
    some ((s.write root (materialize env (s.disk root) stored)).move i q
      (.ready documents (some stored)))
  | .reading documents, .degrade | .found documents _, .degrade =>
    some (s.move i q (.ready documents none))
  | .fetched documents _, .failMaterialize dir =>
    some ((s.write (env.domainKey q.schemaDomain) dir).move i q (.ready documents none))
  | .ready documents stored, .construct =>
    match env.knowledgeGraph q.schemaDomain
        (stored.map (fun _ => s.disk (env.domainKey q.schemaDomain))) documents with
    | some graph => some (s.move i q (.constructed documents stored graph))
    | none => some (s.move i q .raised)
  | .constructed documents _ graph, .store =>
    let entry :=
      builtEntry env.toGraphEnv ⟨q.ctx, q.collection, q.llm⟩ q.schemaDomain documents graph
    some ({ s with cache := s.cache.put (cacheKey q.ctx q.collection) entry }.move i q
      (.returned (some graph)))
  | _, _ => none

def graphStep (s : GraphState γ) : GraphAct → Option (GraphState γ)
  | .start i q => if (s.calls i).isNone ∧
    q.ctx.tenant.id = tenantId then some (s.start i q) else none
  | .build i a => (s.calls i).bind (fun c => buildStep env s i c.request c.phase a)
  | .begin collection exec runId =>
    some (s.commitCollection collection ((s.db.collections collection).begin exec runId).1)
  | .ingest collection version rows =>
    let c := s.db.collections collection
    if (c.builds.get version).map BuildRow.status = some .building ∧
        ∀ r ∈ rows, r.buildVersion = version then
      some (s.commitCollection collection (writeChunks c rows))
    else none
  | .promote j collection version now =>
    match (s.db.collections collection).promote collection version now with
    | .ok (c, _) => some ((s.commitCollection collection c).announce j (.promoted collection))
    | .error _ => none
  | .reap collection => some (s.commitCollection collection (s.db.collections collection).reap.1)
  | .publish j sessionId now =>
    match s.db.publish sessionId now with
    | .ok (db, domain) => some ((s.commit db).announce j (.published domain))
    | .error _ => none
  | .invalidate j =>
    if j ∈ s.pending.map Prod.fst then
      some { s with cache := s.cache.invalidate tenantId, pending :=
        s.pending.filter (fun p => p.1 ≠ j) }
    else none

end

/-! ## What a step commits -/

section
variable {γ : Type} {env : BuildEnv γ} {tenantId : Uuid} {s t : GraphState γ}

/-- How a step changes what is committed, and what is known of it. -/
inductive GraphMove (env : BuildEnv γ) (tenantId : Uuid) (s : GraphState γ) :
    GraphAct → GraphState γ → Prop
  | starts (i : Nat) (q : BuildRequest) (hfree : s.calls i = none)
    (htenant : q.ctx.tenant.id = tenantId) : GraphMove env tenantId s (.start i q) (s.start i q)
  | builds (i : Nat) (c : BuildCall γ) (a : BuildStep) (t : GraphState γ) (hc : s.calls i = some c)
    (hstep : buildStep env s i c.request c.phase a = some t) :
    GraphMove env tenantId s (.build i a) t
  /-- The documents of the live build stay. -/
  | unseen (a : GraphAct) (collection : String) (c : Collection)
    (hdocs : loadDocuments c = loadDocuments (s.db.collections collection))
    (hquiet : ∀ i b, a ≠ .build i b) : GraphMove env tenantId s a (s.commitCollection collection c)
  | promotes (j : Nat) (collection : String) (version : Nat) (now : Time) (c : Collection) :
    GraphMove env tenantId s (.promote j collection version now)
      ((s.commitCollection collection c).announce j (.promoted collection))
  | publishes (j : Nat) (sessionId : Uuid) (now : Time) (db : TenantDb) (domain : String)
    (hdb : s.db.publish sessionId now = .ok (db, domain)) :
    GraphMove env tenantId s (.publish j sessionId now)
      ((s.commit db).announce j (.published domain))
  | invalidates (j : Nat) :
    GraphMove env tenantId s (.invalidate j)
    { s with cache := s.cache.invalidate tenantId, pending := s.pending.filter (fun p => p.1 ≠ j) }

theorem graphStep_move {a : GraphAct} (h : graphStep env tenantId s a = some t) :
    GraphMove env tenantId s a t := by
  cases a with
  | start i q =>
    simp only [graphStep, Option.isNone_iff_eq_none, Option.ite_none_right_eq_some,
      Option.some.injEq] at h
    obtain ⟨⟨hfree, htenant⟩, rfl⟩ := h
    exact .starts i q hfree htenant
  | build i a =>
    obtain ⟨c, hc, hstep⟩ := Option.bind_eq_some_iff.mp h
    exact .builds i c a t hc hstep
  | begin collection exec runId =>
    cases h
    exact .unseen _ collection _ (loadDocuments_begin _ exec runId) (fun _ _ h => (by cases h))
  | ingest collection version rows =>
    simp only [graphStep] at h
    split at h
    · rename_i hguard
      cases h
      obtain ⟨hbuilding, hrows⟩ := hguard
      refine .unseen _ collection _ (loadDocuments_writeChunks ?_ hrows) (fun _ _ h => (by cases h))
      -- A build that is under way is not live.
      intro hlive
      obtain ⟨b, hb, hstatus, hversion⟩ := Collection.liveVersion_eq_some.mp hlive
      rw [Table.get_eq_some.mpr ⟨hb, hversion⟩, Option.map_some, Option.some.injEq, hstatus]
        at hbuilding
      cases hbuilding
    · cases h
  | promote j collection version now =>
    simp only [graphStep] at h
    split at h
    · cases h
      exact .promotes j collection version now _
    · cases h
  | reap collection =>
    cases h
    exact .unseen _ collection _ (loadDocuments_reap _) (fun _ _ h => (by cases h))
  | publish j sessionId now =>
    simp only [graphStep] at h
    split at h
    · rename_i db domain hdb
      cases h
      exact .publishes j sessionId now db domain hdb
    · cases h
  | invalidate j =>
    simp only [graphStep] at h
    split at h
    · cases h
      exact .invalidates j
    · cases h

end

end AgenticPlatform.Workloads
