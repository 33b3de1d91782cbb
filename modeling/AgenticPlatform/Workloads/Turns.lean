import AgenticPlatform.Corpus.GapBacklog
import AgenticPlatform.Onboarding.Store
import AgenticPlatform.Ports.Llm
import AgenticPlatform.Scaling.Sessions
import AgenticPlatform.Workloads.HybridRetrieve

/-!
# Turns of a conversation

Calls of the two `answer` functions, dense and graph, of any tenants and principals, with
everything that goes on beside them: builds are replaced and reaped, sessions expire and are
deleted, gaps are seeded and purged. A call opens its session, finds the live build, reads
its chunks, asks the model or refuses, and appends two turns to the session, each in a
transaction of its own. What it has done is kept in a log.
-/
namespace AgenticPlatform.Workloads
open AgenticPlatform.Foundation AgenticPlatform.Identity AgenticPlatform.Corpus
  AgenticPlatform.Scaling AgenticPlatform.Ports
open AgenticPlatform.Onboarding (falsy)

inductive AnswerMode where
  | dense | graph
deriving DecidableEq

structure Query where
  ctx : RequestContext
  question : String
  collection : String
  sessionId : Option String
  mode : AnswerMode
deriving DecidableEq

structure TurnEnv (α : Type) where
  gaps : GapEnv
  /-- What `jsonb` makes of a turn, which it may refuse. -/
  cast : Json → Option Json
  /-- `embedding <=> :probe`. -/
  distance : List ℚ → ChunkRow → ℚ
  fusion : FusionEnv α
  /-- `llm_model_cheap`. -/
  model : String

/-- `MAX_HISTORY_TURNS`. -/
def maxHistoryTurns : Nat := 6

/-! ## Texts -/

def AnswerMode.workload : AnswerMode → String
  | .dense => "chat"
  | .graph => "graphrag"

def AnswerMode.gapMode : AnswerMode → String
  | .dense => "dense"
  | .graph => "graph"

def AnswerMode.systemPrompt : AnswerMode → String
  | .dense =>
    "You answer questions about industrial equipment using ONLY the provided sources.\n\n" ++
      "Rules:\n" ++
      "- Every factual claim must come from a source. Cite it inline as [c_xxxx].\n" ++
      "- If the sources do not contain the answer, say so plainly. Do not infer, generalise, " ++
      "or fill gaps from prior knowledge.\n" ++
      "- Be concise. Prefer the specific number or procedure over a paraphrase."
  | .graph =>
    "You answer questions about industrial equipment using ONLY the provided sources.\n\n" ++
      "Rules:\n" ++
      "- Every factual claim must come from a source. Cite it inline as [c_xxxx].\n" ++
      "- If the sources do not contain the answer, say so plainly. Do not infer or fill gaps " ++
      "from prior knowledge.\n" ++
      "- Be concise. Prefer the specific number or procedure over a paraphrase."

def refusalText : String :=
  "I don't have any indexed sources for that. Nothing in this collection matches the question."

def noDocumentsText : String := "I don't have any indexed sources for that collection."

def noMatchText : String := "Nothing in the indexed sources matches that question."

/-! ## What is sent and what is written -/

/-- A chunk as it stands in the prompt. -/
structure TurnSource where
  chunkId : String
  text : String
deriving DecidableEq

/-- `(session.state.get("turns") or [])[-MAX_HISTORY_TURNS:]`; `none` where this, or going
through it, raises. -/
def historyOf (state : List (String × Json)) : Option (List Json) :=
  match (state.lookup "turns").filter (fun value => !falsy value) with
  | none => some []
  | some (.arr turns) => some (turns.drop (turns.length - maxHistoryTurns))
  | some _ => none

/-- `{"role": t["role"], "content": t["content"]}`; `none` for a KeyError. -/
def historyMessage : Json → Option Json
  | .obj fields =>
    match fields.lookup "role", fields.lookup "content" with
    | some role, some content => some (.obj [("role", role), ("content", content)])
    | _, _ => none
  | _ => none

def sourcesBlock (sources : List TurnSource) : String :=
  String.intercalate "\n\n" (sources.map (fun s => "[" ++ s.chunkId ++ "] " ++ s.text))

def systemMessage (mode : AnswerMode) : Json :=
  .obj [("role", .str "system"), ("content", .str mode.systemPrompt)]

def userMessage (question : String) (sources : List TurnSource) : Json :=
  .obj [("role", .str "user"),
    ("content", .str ("Sources:\n" ++ sourcesBlock sources ++ "\n\nQuestion: " ++ question))]

theorem isNumber_fourHundred : isNumber "400".toList = true := by decide

def chatRequest (model : String) (q : Query) (history : List Json) (sources : List TurnSource) :
    Option ChatRequest :=
  (history.mapM historyMessage).map (fun earlier =>
    { messages := systemMessage q.mode :: earlier ++ [userMessage q.question sources]
      model := model
      temperature := some ⟨"0", isNumber_zero⟩
      maxTokens := some ⟨"400", isNumber_fourHundred⟩
      tools := none
      responseFormat := none
      cacheable := history = [] })

/-- What a call answers. -/
structure Reply where
  content : String
  grounded : Bool
  sources : List TurnSource
deriving DecidableEq

def userTurn (q : Query) : Json := .obj [("role", .str "user"), ("content", .str q.question)]

def assistantTurn (q : Query) (r : Reply) : Json :=
  .obj ([("role", .str "assistant"), ("content", .str r.content), ("grounded", .bool r.grounded),
    ("collection", .str q.collection)] ++
    if r.grounded then [("retrieved", .arr (r.sources.map (fun s => .str s.chunkId)))] else [])

/-- ORDER BY embedding <=> :probe LIMIT :k. Every row has an embedding here, so `embedding IS
NOT NULL` leaves none out. -/
def nearestChunks (distance : List ℚ → ChunkRow → ℚ) (probe : List ℚ) (rows : List ChunkRow) :
    List ChunkRow :=
  (rows.insertionSort (fun a b => distance probe a ≤ distance probe b)).take maxContextChunks

/-- Read ORDER BY canonical_id. -/
def documentsOf (rows : List ChunkRow) : List GraphDocument :=
  (rows.insertionSort (fun a b => a.canonicalId ≤ b.canonicalId)).map asDocument

def sourceOfRow (row : ChunkRow) : TurnSource := ⟨row.canonicalId, row.text⟩

def sourceOfFused {α : Type} (s : FusedSource α) : TurnSource := ⟨s.chunkId, s.text⟩

/-! ## Calls -/

/-- How far a call has come. -/
inductive TurnPhase where
  | idle
  | opened (q : Query) (sid : String) (history : List Json)
  /-- The dense search has its probe, the graph needs none. -/
  | searching (q : Query) (sid : String) (history : List Json) (probe : List ℚ)
  /-- In the transaction that has found this build live. -/
  | reading (q : Query) (sid : String) (history : List Json) (probe : List ℚ) (version : Nat)
  | loaded (q : Query) (sid : String) (history : List Json) (rows : List ChunkRow)
  | refusing (q : Query) (sid : String) (text : String)
  | asking (q : Query) (sid : String) (history : List Json) (sources : List TurnSource)
  | waiting (q : Query) (sid : String) (sources : List TurnSource)
  | settling (q : Query) (sid : String) (r : Reply)
  | closing (q : Query) (sid : String) (r : Reply)
  | answered (q : Query) (sid : String) (r : Reply)
  | failed
deriving DecidableEq

/-- What a call does that is seen from outside it. -/
inductive TurnEvent where
  | opened (q : Query) (sid : String) (history : List Json)
  | live (version : Nat)
  | rows (version : Nat) (rows : List ChunkRow)
  | asked (request : ChatRequest) (sources : List TurnSource)
  | replied (content : String)
  /-- The gap was handed on, also where the record of it is lost. -/
  | noted
  /-- A turn, as `jsonb` has it, is committed to the session. -/
  | wrote (ctx : RequestContext) (sid : String) (turn : Json)
deriving DecidableEq

structure TurnState where
  /-- The collections of each tenant. -/
  corpus : Uuid → String → Collection
  sessions : SessionTable
  gaps : GapTable
  calls : Nat → TurnPhase
  /-- Who did what; not stored. -/
  log : List (Nat × TurnEvent)

def TurnState.initial (corpus : Uuid → String → Collection) : TurnState :=
  ⟨corpus, Table.empty, Table.empty, fun _ => .idle, []⟩

def TurnState.enter (s : TurnState) (k : Nat) (phase : TurnPhase) : TurnState :=
  { s with calls := Function.update s.calls k phase }

def TurnState.did (s : TurnState) (k : Nat) (event : TurnEvent) : TurnState :=
  { s with log := s.log ++ [(k, event)] }

def TurnState.withSessions (s : TurnState) (sessions : SessionTable) : TurnState :=
  { s with sessions := sessions }

inductive TurnAct where
  /-- `now()` of the load, or the new id and expiry of a session that is created. -/
  | open_ (k : Nat) (q : Query) (now expiresAt : Time) (newId : String)
  | embed (k : Nat) (probe : List ℚ)
  | lookup (k : Nat)
  | read (k : Nat)
  /-- What the three retrievers return. -/
  | retrieve (k : Nat) (dense lexical : List String) (graph : GraphTraversal)
  /-- The record is lost where its transaction fails. -/
  | note (k : Nat) (now : Time) (newId : Uuid) (lost : Bool)
  | ask (k : Nat)
  | reply (k : Nat) (content : String)
  | user (k : Nat) (now : Time)
  | assistant (k : Nat) (now : Time)
  /-- Something raises, or the process dies. -/
  | stop (k : Nat)
  /-- Ingestion, promotions and reaps: the collection is another one. -/
  | corpus (tenantId : Uuid) (collection : String) (c : Collection)
  | deleteSession (ctx : RequestContext) (sessionId : String)
  | purgeSessions (now : Time)
  /-- Gaps are seeded and purged. -/
  | gaps (t : GapTable)

/-- `session_id`, where it is given and not empty. -/
def Query.names (q : Query) : Option String := q.sessionId.filter (fun sid => sid ≠ "")

/-- The session a call is answered in, and the table after it has been opened. -/
def openSession (sessions : SessionTable) (q : Query) (now expiresAt : Time) (newId : String) :
    Option (SessionTable × SessionRow) :=
  match q.names with
  | some sid => ((sessions.get sid).filter (fun r => r.opensTo q.ctx now)).map
    (fun r => (sessions, r))
  | none => (sessions.tryInsert (newSession q.ctx newId q.mode.workload now expiresAt)).map
      (fun sessions => (sessions, newSession q.ctx newId q.mode.workload now expiresAt))

/-- The graph needs no probe. -/
def afterOpening (q : Query) (sid : String) (history : List Json) : TurnPhase :=
  match q.mode with
  | .dense => .opened q sid history
  | .graph => .searching q sid history []

section
variable {α : Type} (env : TurnEnv α)

/-- `append_turn`, of at most fifty turns; `none` where it raises. -/
def appendTurn (sessions : SessionTable) (ctx : RequestContext) (sid : String) (turn : Json)
    (now : Time) : Option (SessionTable × Json) :=
  match (sessions.get sid).filter (fun r => r.opensTo ctx now) with
  | none => none
  | some r =>
    match env.cast turn with
    | none => none
    | some stored =>
      (appended 50 now stored r).map
      (fun row => (sessions.update (replaced row) (replaced_id row), stored))

/-- Where a call goes on with these rows of the build, or with none. -/
def afterRows (q : Query) (sid : String) (history : List Json) (probe : List ℚ)
    (rows : List ChunkRow) : TurnPhase :=
  match q.mode with
  | .dense =>
    match (nearestChunks env.distance probe rows).map sourceOfRow with
    | [] => .refusing q sid refusalText
    | sources => .asking q sid history sources
  | .graph => if rows = [] then .refusing q sid noDocumentsText else .loaded q sid history rows

/-- A call appends a turn and goes on, or raises. -/
def TurnState.append (s : TurnState) (k : Nat) (ctx : RequestContext) (sid : String) (turn : Json)
    (now : Time) (next : TurnPhase) : TurnState :=
  match appendTurn env s.sessions ctx sid turn now with
  | none => s.enter k .failed
  | some (sessions, stored) =>
    ((s.enter k next).did k (.wrote ctx sid stored)).withSessions sessions

variable [LinearOrder α] [Add α] [Zero α]

def turnStep (s : TurnState) : TurnAct → Option TurnState
  | .open_ k q now expiresAt newId =>
    match s.calls k with
    | .idle =>
      match openSession s.sessions q now expiresAt newId with
      | none => some (s.enter k .failed)
      | some (sessions, row) =>
        match historyOf row.state with
        | none => some ((s.enter k .failed).withSessions sessions)
        | some history =>
          some (((s.enter k (afterOpening q row.id history)).did k
            (.opened q row.id history)).withSessions sessions)
    | _ => none
  | .embed k probe =>
    match s.calls k with
    | .opened q sid history => some (s.enter k (.searching q sid history probe))
    | _ => none
  | .lookup k =>
    match s.calls k with
    | .searching q sid history probe =>
      match (s.corpus q.ctx.tenant.id q.collection).liveVersion with
      | none => some (s.enter k (afterRows env q sid history probe []))
      | some version =>
        some ((s.enter k (.reading q sid history probe version)).did k (.live version))
    | _ => none
  | .read k =>
    match s.calls k with
    | .reading q sid history probe version =>
      let rows := (s.corpus q.ctx.tenant.id q.collection).chunksOf version
      some ((s.enter k (afterRows env q sid history probe rows)).did k (.rows version rows))
    | _ => none
  | .retrieve k dense lexical graph =>
    match s.calls k with
    | .loaded q sid history rows =>
      match hybridRetrieve env.fusion (documentsOf rows) dense lexical graph with
      | none => some (s.enter k .failed)
      | some ([], _) => some (s.enter k (.refusing q sid noMatchText))
      | some (sources, _) => some (s.enter k (.asking q sid history (sources.map sourceOfFused)))
    | _ => none
  | .note k now newId lost =>
    match s.calls k with
    | .refusing q sid text =>
      let a : Ask := ⟨q.ctx, q.collection, q.question, q.mode.gapMode, now, newId⟩
      let gaps := if lost then s.gaps else record env.gaps s.gaps a
      some { (s.enter k (.settling q sid ⟨text, false, []⟩)).did k .noted with gaps := gaps }
    | _ => none
  | .ask k =>
    match s.calls k with
    | .asking q sid history sources =>
      match chatRequest env.model q history sources with
      | none => some (s.enter k .failed)
      | some request => some ((s.enter k (.waiting q sid sources)).did k (.asked request sources))
    | _ => none
  | .reply k content =>
    match s.calls k with
    | .waiting q sid sources =>
      some ((s.enter k (.settling q sid ⟨content, true, sources⟩)).did k (.replied content))
    | _ => none
  | .user k now =>
    match s.calls k with
    | .settling q sid r => some (s.append env k q.ctx sid (userTurn q) now (.closing q sid r))
    | _ => none
  | .assistant k now =>
    match s.calls k with
    | .closing q sid r =>
      some (s.append env k q.ctx sid (assistantTurn q r) now (.answered q sid r))
    | _ => none
  | .stop k => some (s.enter k .failed)
  | .corpus tenantId collection c =>
    some { s with
      corpus :=
        Function.update s.corpus tenantId (Function.update (s.corpus tenantId) collection c) }
  | .deleteSession ctx sessionId => some (s.withSessions (s.sessions.deleteWhere
    (fun r => r.id = sessionId ∧ r.tenantId = ctx.tenant.id ∧ r.principalId = ctx.principal.id)))
  | .purgeSessions now =>
    some (s.withSessions (s.sessions.deleteWhere (fun r => r.expiresAt ≤ now)))
  | .gaps t => some { s with gaps := t }

end

end AgenticPlatform.Workloads
