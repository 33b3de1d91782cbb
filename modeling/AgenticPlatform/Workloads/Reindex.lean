import AgenticPlatform.Foundation.Transition
import AgenticPlatform.Corpus.Builds
import AgenticPlatform.Corpus.Documents
import Mathlib.Data.Fintype.Basic

/-!
# The reindex workload

A reindex opens a build beside the one being served, copies forward the chunks whose
document is still current, makes the chunks of the documents that have none, promotes
the build and reaps the old ones; an exception after the build was opened fails it.
Every transaction is one step, `promote`, `reap` and `fail` with all their statements
included, and any number of executions interleave with each other and with uploads and
withdrawals. How a file is cut into chunks is a parameter, and the embedding service an
argument of the step that calls it.
-/
namespace AgenticPlatform.Corpus

/-- What `chunk_document` returns. -/
structure Chunk where
  canonicalId : String
  ordinal : Nat
  text : String
  heading : Option String
deriving DecidableEq

end AgenticPlatform.Corpus

namespace AgenticPlatform.Workloads
open AgenticPlatform.Foundation AgenticPlatform.Identity AgenticPlatform.Corpus

structure ReindexEnv where
  collection : String
  /-- `chunk_document`; the error is `UnsupportedDocument`. -/
  chunkDocument : String → Bytes → Except String (List Chunk)
  embeddingModel : String
  documents : DocumentEnv

/-! ## Copy forward -/

/-- INSERT INTO chunk … ON CONFLICT DO NOTHING. -/
def writeChunks (c : Collection) (rows : List ChunkRow) : Collection :=
  { c with chunks := c.chunks.insertMissing rows }

theorem chunksOf_writeChunks {c : Collection} {rows : List ChunkRow} {v : Nat}
    (h : ∀ r ∈ rows, r.buildVersion ≠ v) : (writeChunks c rows).chunksOf v = c.chunksOf v := by
  refine Table.filter_insertMissing ?_
  intro r hr
  exact decide_eq_false (h r hr)

theorem chunksKnown_writeChunks {c : Collection} {rows : List ChunkRow} (h : c.ChunksKnown)
    (hrows : ∀ r ∈ rows, r.buildVersion ∈ c.builds.keys) : (writeChunks c rows).ChunksKnown := by
  intro r hr
  rcases Table.mem_of_insertMissing hr with hr | hr
  · exact h r hr
  · exact hrows r hr

def copiedRow (version exec : Nat) (r : ChunkRow) : ChunkRow :=
  { r with buildVersion := version, writtenBy := exec }

/-- The document of a chunk is still current. -/
def ownerCurrent (lib : Library) (r : ChunkRow) : Prop :=
  ∃ d ∈ lib.documents.rows, d.id = r.documentId ∧ d.current

instance (lib : Library) (r : ChunkRow) : Decidable (ownerCurrent lib r) :=
  inferInstanceAs (Decidable (∃ d ∈ lib.documents.rows, _))

/-- The rows the INSERT … SELECT produces; nothing without a build to copy from. -/
def copiedRows (c : Collection) (lib : Library) (previous : Option Nat) (version exec : Nat) :
    List ChunkRow :=
  match previous with
  | none => []
  | some old => ((c.chunksOf old).filter (fun r => ownerCurrent lib r)).map (copiedRow version exec)

/-! ## Ingest -/

/-- Current documents of the collection that own no chunk of the build, the oldest first. -/
def pendingDocuments (c : Collection) (lib : Library) (collection : String) (version : Nat) :
    List DocumentRow :=
  ((lib.currentOf collection).filter
    (fun d => ∀ r ∈ c.chunksOf version, r.documentId ≠ d.id)).insertionSort
    (fun a b => a.createdAt ≤ b.createdAt)

inductive SkipReason where
  | noStorageKey | bytesMissing | unsupportedFormat | noText
deriving DecidableEq

/-- The chunks of one document, or why it is skipped. -/
def readDocument (env : ReindexEnv) (objects : String → Option Bytes) (d : DocumentRow) :
    Except SkipReason (List Chunk) :=
  if d.storageKey = "" then .error .noStorageKey
  else
    match objects d.storageKey with
    | none => .error .bytesMissing
    | some data =>
      match env.chunkDocument d.filename data with
      | .error _ => .error .unsupportedFormat
      | .ok [] => .error .noText
      | .ok (chunk :: chunks) => .ok (chunk :: chunks)

/-- One chunk to be embedded, with the document it is cut from. -/
structure Prepared where
  documentId : Uuid
  filename : String
  chunk : Chunk
deriving DecidableEq

/-- The list `flat`. -/
def prepare (env : ReindexEnv) (objects : String → Option Bytes) (pending : List DocumentRow) :
    List Prepared :=
  pending.flatMap (fun d =>
    match readDocument env objects d with
    | .error _ => []
    | .ok chunks => chunks.map (fun chunk => ⟨d.id, d.filename, chunk⟩))

def embedBatch : Nat := 64

abbrev Embed := List String → List (List ℚ)

/-- One request for every batch; the first argument bounds their number. -/
def embedBatches (embed : Embed) : Nat → List String → List (List ℚ)
  | 0, _ => []
  | _ + 1, [] => []
  | n + 1, texts => embed (texts.take embedBatch) ++ embedBatches embed n (texts.drop embedBatch)

def embedAll (embed : Embed) (flat : List Prepared) : List (List ℚ) :=
  embedBatches embed flat.length (flat.map (fun p => p.chunk.text))

/-- A service that returns one vector per text returns one vector per chunk. -/
theorem length_embedAll {embed : Embed} (h : ∀ texts, (embed texts).length = texts.length)
    (flat : List Prepared) : (embedAll embed flat).length = flat.length := by
  have hbatches : ∀ n texts, texts.length ≤ n →
      (embedBatches embed n texts).length = texts.length := by
    intro n
    induction n with
    | zero =>
      intro texts hn
      simp [embedBatches, List.eq_nil_of_length_eq_zero (Nat.le_zero.mp hn)]
    | succ n ih =>
      intro texts hn
      cases texts with
      | nil => rfl
      | cons text texts =>
        have hrest : ((text :: texts).drop embedBatch).length ≤ n := by
          simp only [List.length_drop, List.length_cons, embedBatch] at hn ⊢
          omega
        rw [embedBatches, List.length_append, h, ih _ hrest, List.length_take, List.length_drop]
        · omega
        · simp
  rw [embedAll, hbatches _ _ (by simp), List.length_map]

def ingestedRow (env : ReindexEnv) (version exec : Nat) (p : Prepared) (vector : List ℚ) :
    ChunkRow where
  documentId := p.documentId
  canonicalId := p.chunk.canonicalId
  ordinal := p.chunk.ordinal
  buildVersion := version
  text := p.chunk.text
  embedding := vector
  embeddingModel := env.embeddingModel
  metadata := .obj [("source", .str p.filename),
    ("heading", (p.chunk.heading.map Json.str).getD .null), ("ingested", .bool true)]
  writtenBy := exec

def ingestedRows (env : ReindexEnv) (version exec : Nat) (flat : List Prepared)
    (vectors : List (List ℚ)) : List ChunkRow :=
  List.zipWith (ingestedRow env version exec) flat vectors

/-- The text of the ValueError of `zip(strict=True)`. -/
def zipError (flat : List Prepared) (vectors : List (List ℚ)) : String :=
  if vectors.length < flat.length then "zip() argument 2 is shorter than argument 1"
  else "zip() argument 2 is longer than argument 1"

/-! ## Interleaved executions -/

inductive Ending where
  | promoted | unpromoted | raised | crashed
deriving DecidableEq

/-- Where an execution of `run` stands, with the values it holds. A caught exception
carries the text for `fail` and whether it is a ValueError. -/
inductive Phase where
  | idle
  | started (previous : Option Nat)
  | opened (previous : Option Nat) (version : Nat)
  | copied (version : Nat)
  | selected (version : Nat) (pending : List DocumentRow)
  | prepared (version : Nat) (flat : List Prepared)
  | ingested (version : Nat)
  | promoted (version : Nat)
  | reaped (version : Nat)
  | caught (version : Nat) (error : String) (valueError : Bool)
  | ended (how : Ending)
deriving DecidableEq

/-- The build an execution in progress has opened. -/
def Phase.version : Phase → Option Nat
  | .opened _ v | .copied v | .selected v _ | .prepared v _ | .ingested v | .promoted v | .reaped v
  | .caught v _ _ => some v
  | .idle | .started _ | .ended _ => none

/-- Inside the try block. -/
def Phase.trying : Phase → Option Nat
  | .caught _ _ _ => none
  | p => p.version

theorem Phase.version_of_trying {p : Phase} {v : Nat} (h : p.trying = some v) :
    p.version = some v := by
  cases p with
  | caught => cases h
  | _ => exact h

structure ReindexState where
  collection : Collection
  library : Library
  execs : Nat → Phase

/-- No build yet. -/
def ReindexState.init (lib : Library) : ReindexState where
  collection := .empty
  library := lib
  execs := fun _ => .idle

/-- An execution commits a transaction and moves on. -/
def ReindexState.act (s : ReindexState) (e : Nat) (c : Collection) (p : Phase) : ReindexState :=
  { s with collection := c, execs := Function.update s.execs e p }

section
variable (s : ReindexState) (e : Nat) (c c' : Collection) (p p' : Phase)

@[simp] theorem act_collection : (s.act e c p).collection = c := rfl

@[simp] theorem act_library : (s.act e c p).library = s.library := rfl

@[simp] theorem act_execs : (s.act e c p).execs e = p := by simp [ReindexState.act]

@[simp] theorem act_act : (s.act e c p).act e c' p' = s.act e c' p' := by simp [ReindexState.act]

end

inductive ReindexAct where
  | create (u : Upload) (q : DocumentCreate) (storeUp : Bool)
  | delete (id : Uuid) (now : Time)
  | start (e : Nat)
  | begin (e : Nat) (runId : Option Uuid)
  | copy (e : Nat)
  | select (e : Nat)
  | prepare (e : Nat)
  | ingest (e : Nat) (embed : Embed)
  | promote (e : Nat) (now : Time)
  | reap (e : Nat)
  | finish (e : Nat)
  /-- Any exception of the try block: cancellation, the object store, the embedding
  service, the budget, the database, graph invalidation. -/
  | raise (e : Nat) (error : String) (valueError : Bool)
  | fail (e : Nat)
  | crash (e : Nat)

def reindexStep (env : ReindexEnv) (s : ReindexState) : ReindexAct → Option ReindexState
  | .create u q storeUp =>
    (s.library.createDocument env.documents u q storeUp).map (fun r => { s with library := r.1 })
  | .delete id now => (s.library.deleteDocument id now).map (fun r => { s with library := r.1 })
  | .start e =>
    match s.execs e with
    | .idle => some (s.act e s.collection (.started s.collection.liveVersion))
    | _ => none
  | .begin e runId =>
    match s.execs e with
    | .started previous =>
      some (s.act e (s.collection.begin e runId).1
        (.opened previous (s.collection.begin e runId).2))
    | _ => none
  | .copy e =>
    match s.execs e with
    | .opened previous version =>
      some (s.act e (writeChunks s.collection
        (copiedRows s.collection s.library previous version e)) (.copied version))
    | _ => none
  | .select e =>
    match s.execs e with
    | .copied version =>
      some (s.act e s.collection
        (.selected version (pendingDocuments s.collection s.library env.collection version)))
    | _ => none
  | .prepare e =>
    match s.execs e with
    | .selected version pending =>
      some (s.act e s.collection (.prepared version (prepare env s.library.objects pending)))
    | _ => none
  | .ingest e embed =>
    match s.execs e with
    | .prepared version flat =>
      let vectors := embedAll embed flat
      -- strict=True: nothing is written where the lengths differ.
      if vectors.length = flat.length then
        some (s.act e (writeChunks s.collection (ingestedRows env version e flat vectors))
          (.ingested version))
      else some (s.act e s.collection (.caught version (zipError flat vectors) true))
    | _ => none
  | .promote e now =>
    match s.execs e with
    | .ingested version =>
      match s.collection.promote env.collection version now with
      | .ok (c, _) => some (s.act e c (.promoted version))
      | .error text => some (s.act e s.collection (.caught version text true))
    | _ => none
  | .reap e =>
    match s.execs e with
    | .promoted version => some (s.act e s.collection.reap.1 (.reaped version))
    | _ => none
  | .finish e =>
    match s.execs e with
    | .reaped _ => some (s.act e s.collection (.ended .promoted))
    | _ => none
  | .raise e error valueError =>
    match (s.execs e).trying with
    | some version => some (s.act e s.collection (.caught version error valueError))
    | none => none
  | .fail e =>
    match s.execs e with
    | .caught version error valueError =>
      some (s.act e (s.collection.fail version error)
        (.ended (if valueError then .unpromoted else .raised)))
    | _ => none
  | .crash e =>
    match s.execs e with
    | .idle | .ended _ => none
    | _ => some (s.act e s.collection (.ended .crashed))

/-! ## What a step can do -/

/-- The execution that inserts chunks in a step. -/
def ReindexAct.writer : ReindexAct → Option Nat
  | .copy e | .ingest e _ => some e
  | _ => none

/-- What a step does to the tables: a request leaves the builds alone, an execution moves
on without a write, opens its build, writes chunks into it, promotes it, reaps, or fails
it. -/
inductive ReindexMove (env : ReindexEnv) (s : ReindexState) : ReindexAct → ReindexState → Prop
  | request {a} (lib : Library) : ReindexMove env s a { s with library := lib }
  | moves {a} (e : Nat) (p : Phase) (hp : p.version = (s.execs e).version ∨ p.version = none) :
    ReindexMove env s a (s.act e s.collection p)
  | opens (e : Nat) (runId : Option Uuid) (previous : Option Nat)
    (he : s.execs e = .started previous) :
    ReindexMove env s (.begin e runId)
      (s.act e (s.collection.begin e runId).1 (.opened previous (s.collection.maxVersion + 1)))
  | writes {a} (e v : Nat) (rows : List ChunkRow) (p : Phase) (ha : a.writer = some e)
    (he : (s.execs e).version = some v) (hp : p.version = some v)
    (hrows : ∀ r ∈ rows, r.buildVersion = v ∧ r.writtenBy = e) :
    ReindexMove env s a (s.act e (writeChunks s.collection rows) p)
  | promotes (e v count : Nat) (now : Time) (c : Collection) (he : s.execs e = .ingested v)
    (hc : s.collection.promote env.collection v now = .ok (c, count)) :
    ReindexMove env s (.promote e now) (s.act e c (.promoted v))
  | reaps (e v : Nat) (he : s.execs e = .promoted v) :
    ReindexMove env s (.reap e) (s.act e s.collection.reap.1 (.reaped v))
  | fails (e v : Nat) (error : String) (valueError : Bool)
    (he : s.execs e = .caught v error valueError) :
    ReindexMove env s (.fail e)
      (s.act e (s.collection.fail v error) (.ended (if valueError then .unpromoted else .raised)))

theorem copiedRows_spec {c : Collection} {lib : Library} {previous : Option Nat}
    {version exec : Nat} {r : ChunkRow} (h : r ∈ copiedRows c lib previous version exec) :
    r.buildVersion = version ∧ r.writtenBy = exec := by
  cases previous with
  | none => cases h
  | some old =>
    obtain ⟨a, -, rfl⟩ := List.mem_map.mp h
    exact ⟨rfl, rfl⟩

theorem ingestedRows_spec {env : ReindexEnv} {version exec : Nat} {flat : List Prepared}
    {vectors : List (List ℚ)} {r : ChunkRow} (h : r ∈ ingestedRows env version exec flat vectors) :
    r.buildVersion = version ∧ r.writtenBy = exec := by
  obtain ⟨p, vector, rfl⟩ : ∃ p vector, r = ingestedRow env version exec p vector := by
    induction flat generalizing vectors with
    | nil => simp [ingestedRows] at h
    | cons p flat ih =>
      cases vectors with
      | nil => simp [ingestedRows] at h
      | cons vector vectors =>
        rcases List.mem_cons.mp h with rfl | h
        · exact ⟨p, vector, rfl⟩
        · exact ih h
  exact ⟨rfl, rfl⟩

/-- The except clause fails the build the execution has opened. -/
theorem fail_caught {env : ReindexEnv} {s t : ReindexState} {e : Nat}
    (h : reindexStep env s (.fail e) = some t) :
    ∃ v error valueError, s.execs e = .caught v error valueError ∧ t = s.act e
      (s.collection.fail v error) (.ended (if valueError then .unpromoted else .raised)) := by
  simp only [reindexStep] at h
  split at h
  · rename_i v error valueError he
    cases h
    exact ⟨v, error, valueError, he, rfl⟩
  · cases h

theorem reindexStep_move {env : ReindexEnv} {s t : ReindexState} {a : ReindexAct}
    (h : reindexStep env s a = some t) : ReindexMove env s a t := by
  cases a with
  | create u q storeUp =>
    obtain ⟨r, -, rfl⟩ := Option.map_eq_some_iff.mp h
    exact .request _
  | delete id now =>
    obtain ⟨r, -, rfl⟩ := Option.map_eq_some_iff.mp h
    exact .request _
  | start e =>
    simp only [reindexStep] at h
    split at h
    · cases h
      exact .moves e _ (Or.inr rfl)
    · cases h
  | begin e runId =>
    simp only [reindexStep] at h
    split at h
    · rename_i previous he
      cases h
      exact .opens e runId previous he
    · cases h
  | copy e =>
    simp only [reindexStep] at h
    split at h
    · rename_i previous version he
      cases h
      exact .writes e version _ _ rfl (by rw [he]; rfl) rfl (fun r hr => copiedRows_spec hr)
    · cases h
  | select e =>
    simp only [reindexStep] at h
    split at h
    · rename_i version he
      cases h
      exact .moves e _ (Or.inl (by rw [he]; rfl))
    · cases h
  | prepare e =>
    simp only [reindexStep] at h
    split at h
    · rename_i version pending he
      cases h
      exact .moves e _ (Or.inl (by rw [he]; rfl))
    · cases h
  | ingest e embed =>
    simp only [reindexStep] at h
    split at h
    · rename_i version flat he
      split at h
      · cases h
        exact .writes e version _ _ rfl (by rw [he]; rfl) rfl (fun r hr => ingestedRows_spec hr)
      · cases h
        exact .moves e _ (Or.inl (by rw [he]; rfl))
    · cases h
  | promote e now =>
    simp only [reindexStep] at h
    split at h
    · rename_i version he
      split at h
      · rename_i c count hc
        cases h
        exact .promotes e version count now c he hc
      · cases h
        exact .moves e _ (Or.inl (by rw [he]; rfl))
    · cases h
  | reap e =>
    simp only [reindexStep] at h
    split at h
    · rename_i version he
      cases h
      exact .reaps e version he
    · cases h
  | finish e =>
    simp only [reindexStep] at h
    split at h
    · cases h
      exact .moves e _ (Or.inr rfl)
    · cases h
  | raise e error valueError =>
    simp only [reindexStep] at h
    split at h
    · rename_i version he
      cases h
      exact .moves e _ (Or.inl (Phase.version_of_trying he).symm)
    · cases h
  | fail e =>
    obtain ⟨v, error, valueError, he, rfl⟩ := fail_caught h
    exact .fails e v error valueError he
  | crash e =>
    simp only [reindexStep] at h
    split at h
    · cases h
    · cases h
    · cases h
      exact .moves e _ (Or.inr rfl)

/-- A promotion that passes, as one step. -/
theorem promote_passed {env : ReindexEnv} {s t : ReindexState} {e v : Nat} {now : Time}
    (h : reindexStep env s (.promote e now) = some t) (ht : t.execs e = .promoted v) :
    ∃ c count, s.execs e = .ingested v ∧
      s.collection.promote env.collection v now = .ok (c, count) ∧ t = s.act e c (.promoted v) := by
  simp only [reindexStep] at h
  split at h
  · rename_i version he
    split at h
    · rename_i c count hc
      cases h
      have hv : version = v := by simpa [ReindexState.act] using ht
      subst hv
      exact ⟨c, count, he, hc, rfl⟩
    · cases h
      simp [ReindexState.act] at ht
  · cases h

/-! ## One file -/

/-- The one chunk of a file that holds the text hello. -/
def helloChunk : Chunk where
  canonicalId := "c_aaf4c61ddcc5e8a2"
  ordinal := 0
  text := "hello"
  heading := none

def helloSha256 : String := "2cf24dba5fb0a30e26e83b2ac5b9e29e1b161e5c1fa7425e73043362938b9824"

def helloEnv : ReindexEnv where
  collection := "manuals"
  chunkDocument := fun _ _ => .ok [helloChunk]
  embeddingModel := "text-embedding-3-small"
  documents := { sha256 := fun _ => helloSha256, uuidText := Nat.repr }

def helloRow : DocumentRow where
  id := 1
  collection := "manuals"
  filename := "hello.txt"
  contentSha256 := helloSha256
  byteSize := 5
  storageKey := storageKeyFor helloEnv.documents 7 "manuals" helloSha256 ".txt"
  uploadedBy := some 2
  createdAt := 0
  supersededAt := none
  supersededBy := none

/-- The file is stored and current. -/
def helloLibrary : Library where
  documents := Table.empty.insert helloRow (by simp [Table.empty, Table.keys])
  objects := fun _ => some [104, 101, 108, 108, 111]
  one_current := by
    intro a ha b hb _ _ _ _
    exact (List.mem_singleton.mp ha).trans (List.mem_singleton.mp hb).symm

def helloEmbed : Embed := fun texts => texts.map (fun _ => [1])

/-- Everything an execution does before it promotes. -/
def upToPromote (e : Nat) : List ReindexAct :=
  [.start e, .begin e none, .copy e, .select e, .prepare e, .ingest e helloEmbed]

end AgenticPlatform.Workloads
