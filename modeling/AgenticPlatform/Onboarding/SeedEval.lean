import AgenticPlatform.Foundation.EventLog
import AgenticPlatform.Onboarding.Questions

/-!
# Seeding a golden set

The questions of a draft that are approved become a golden set. Drafts, requests that curate
and requests that seed overlap: one that curates writes back a list it has read, and one that
seeds saves what it has read. The rest of the database is written by others.
-/
namespace AgenticPlatform.Onboarding
open AgenticPlatform.Foundation AgenticPlatform.Identity AgenticPlatform.Db AgenticPlatform.Corpus
  AgenticPlatform.Gates

/-! ## What is made of the questions -/

/-- `list((payload or {}).get("queries") or [])`; `none` where this raises. -/
def candidateQueries : Option Json → Option (List Json)
  | none => some []
  | some payload => listAt "queries" payload

/-- `query.get(…)` raises for what is not an object. -/
def objectOf : Json → Option (List (String × Json))
  | .obj fields => some fields
  | _ => none

def isApproved (fields : List (String × Json)) : Bool :=
  match fieldOf fields "approved" with
  | none => false
  | some value => !falsy value

def approvedOf (queries : List Json) : Option (List (List (String × Json))) :=
  (queries.mapM objectOf).map (List.filter isApproved)

/-- The evidence, or an empty list. -/
def evidenceOf (fields : List (String × Json)) : Json :=
  ((fieldOf fields "evidence_chunk_ids").filter (fun value => !falsy value)).getD (.arr [])

/-- The item of a question; `none` where a key is missing. -/
def seedItem (fields : List (String × Json)) : Option RawItem := do
  let id ← fieldOf fields "id"
  let text ← fieldOf fields "text"
  some [("id", id), ("question", text), ("expected_answer", .str ""),
    ("must_cite", evidenceOf fields)]

/-! ## Requests that overlap -/

structure SeedEnv where
  datasets : DatasetEnv
  /-- `str.lower`. -/
  lower : String → String

structure SeedRequest where
  sessionId : Uuid
  dataset : Option String
  tenantId : Uuid
  by_ : Uuid

/-- The name asked for, or the domain. -/
def seedName (env : SeedEnv) (q : SeedRequest) (domain : String) : String :=
  env.lower (strip ((q.dataset.filter (fun name => name ≠ "")).getD domain))

inductive SeedError where
  | sessionNotFound
  | noneApproved
  | notScoreable (message : String)
  /-- The questions that are stored cannot be gone through. -/
  | malformed
  | failed (error : SaveError)

inductive SeedPhase where
  | asked (q : SeedRequest) (domain collection : String)
  | holding (q : SeedRequest) (domain collection : String) (read : List Json) (items : List RawItem)

inductive CurationPhase where
  | opened (sessionId : Uuid) (r : CurateRequest)
  | loaded (sessionId : Uuid) (r : CurateRequest) (read : Option Json)

/-- What is seen of a session. -/
inductive SeedEvent {τ : Type} (env : ChunkingEnv τ) where
  | proposed (documents : List (DraftDocument env)) (queries : Except String (List CandidateQuery))
  | curated (r : CurateRequest)
  | seeded (read : List Json) (items : List EvalItem)
  | refused (error : SeedError)

structure SeedState {τ : Type} (env : ChunkingEnv τ) where
  db : OnboardingDb
  golden : GoldenDb
  curations : Nat → Option CurationPhase
  seedings : Nat → Option SeedPhase
  log : List (Uuid × SeedEvent env)

inductive SeedAct {τ : Type} (env : ChunkingEnv τ) where
  /-- The sessions as others leave them. -/
  | sessions (rows : SessionTable)
  /-- Another artifact. -/
  | artifact (key : ArtifactKey) (payload : Json)
  /-- The golden sets as others leave them. -/
  | golden (db : GoldenDb)
  /-- A draft stores its questions. -/
  | propose (sessionId : Uuid) (documents : List (DraftDocument env))
    (queries : Except String (List CandidateQuery))
  | openCuration (n : Nat) (sessionId : Uuid) (r : CurateRequest)
  | loadCuration (n : Nat)
  | commitCuration (n : Nat)
  | dropCuration (n : Nat)
  | askSeed (m : Nat) (q : SeedRequest)
  | readSeed (m : Nat)
  | saveSeed (m : Nat) (g : SaveStamp)
  | dropSeed (m : Nat)

section
variable {τ : Type} {env : ChunkingEnv τ}

def SeedState.start (env : ChunkingEnv τ) (golden : GoldenDb) : SeedState env :=
  ⟨.empty, golden, fun _ => none, fun _ => none, []⟩

namespace SeedState

variable (s : SeedState env)

def stored (sessionId : Uuid) : Option Json :=
  s.db.artifacts (singleton sessionId .candidateQueries)

def curation (n : Nat) (phase : Option CurationPhase) : SeedState env :=
  { s with curations := Function.update s.curations n phase }

def seeding (m : Nat) (phase : Option SeedPhase) : SeedState env :=
  { s with seedings := Function.update s.seedings m phase }

def noted (sessionId : Uuid) (e : SeedEvent env) : SeedState env :=
  { s with log := s.log ++ [(sessionId, e)] }

/-- The payload that is written, and who wrote it. -/
def put (sessionId : Uuid) (payload : Json) (e : SeedEvent env) : SeedState env :=
  { s.noted sessionId e with
    db := s.db.putArtifact (singleton sessionId .candidateQueries) payload }

def refuse (m : Nat) (sessionId : Uuid) (error : SeedError) : SeedState env :=
  (s.seeding m none).noted sessionId (.refused error)

end SeedState

/-- What a request that seeds makes of the questions it has read. -/
def afterQueries (s : SeedState env) (m : Nat) (q : SeedRequest) (domain collection : String) :
    SeedState env :=
  match candidateQueries (s.stored q.sessionId) with
  | none => s.refuse m q.sessionId .malformed
  | some queries =>
    match approvedOf queries with
    | none => s.refuse m q.sessionId .malformed
    | some [] => s.refuse m q.sessionId .noneApproved
    | some approved =>
      match approved.mapM seedItem with
      | none => s.refuse m q.sessionId .malformed
      | some items => s.seeding m (some (.holding q domain collection queries items))

/-- What is said of an error of `save`. -/
def seedError : SaveError → SeedError
  | .build (.invalidDataset message) => .notScoreable message
  | error => .failed error

def seedStep (senv : SeedEnv) (s : SeedState env) : SeedAct env → Option (SeedState env)
  | .sessions rows => some { s with db := { s.db with sessions := rows } }
  | .artifact key payload => if key.kind = .candidateQueries then none
    else some { s with db := s.db.putArtifact key payload }
  | .golden db => some { s with golden := db }
  | .propose sessionId documents queries =>
    match questionsPayload (proposeQueries documents queries) with
    | none => some s
    | some payload => some (s.put sessionId payload (.proposed documents queries))
  | .openCuration n sessionId r =>
    match s.curations n, s.db.statusOf sessionId with
    | none, none | none, some .published => some s
    | none, some _ => some (s.curation n (some (.opened sessionId r)))
    | some _, _ => none
  | .loadCuration n =>
    match s.curations n with
    | some (.opened sessionId r) =>
      match curate r (s.stored sessionId) with
      | .error _ => some (s.curation n none)
      | .ok _ => some (s.curation n (some (.loaded sessionId r (s.stored sessionId))))
    | _ => none
  | .commitCuration n =>
    match s.curations n with
    | some (.loaded sessionId r read) =>
      match curate r read with
      | .error _ => none
      | .ok payload => some ((s.curation n none).put sessionId payload (.curated r))
    | _ => none
  | .dropCuration n => some (s.curation n none)
  | .askSeed m q =>
    match s.seedings m, s.db.sessions.get q.sessionId with
    | some _, _ => none
    | none, none => some (s.noted q.sessionId (.refused .sessionNotFound))
    | none, some row => some (s.seeding m (some (.asked q row.domain row.collection)))
  | .readSeed m =>
    match s.seedings m with
    | some (.asked q domain collection) => some (afterQueries s m q domain collection)
    | _ => none
  | .saveSeed m g =>
    match s.seedings m with
    | some (.holding q domain collection read items) =>
      match save senv.datasets s.golden g
          ⟨q.tenantId, q.by_, seedName senv q domain, collection, items⟩ with
      | .ok (golden, dataset) =>
        some { (s.seeding m none).noted q.sessionId (.seeded read dataset.items) with
          golden := golden }
      | .error error => some (s.refuse m q.sessionId (seedError error))
    | _ => none
  | .dropSeed m => some (s.seeding m none)

end

end AgenticPlatform.Onboarding
