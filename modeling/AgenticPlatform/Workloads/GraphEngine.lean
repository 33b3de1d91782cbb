import AgenticPlatform.Corpus.Builds
import AgenticPlatform.Onboarding.Store
import Mathlib.Data.List.Sort

/-!
# The borrowed graph engine

The documents a graph is built from, the retriever over them, and the cache of built
graphs, which lives in the process and is keyed by tenant and collection. The graph
itself is a type parameter, SHA-256 a function.
-/
namespace AgenticPlatform.Workloads
open AgenticPlatform.Foundation AgenticPlatform.Identity AgenticPlatform.Corpus
open AgenticPlatform.Onboarding (falsy fieldOf)

/-- An instrumented client; only which one it is matters. -/
abbrev Client := Nat

/-! ## Documents -/

/-- A chunk in the engine's document shape. -/
structure GraphDocument where
  chunkId : String
  text : String
  metadata : Json
  source : Json
deriving DecidableEq

/-- `(r.meta or {}).get("source", "unknown")`; the column holds objects. -/
def sourceOf : Json → Json
  | .obj fields => (fieldOf fields "source").getD (.str "unknown")
  | _ => .str "unknown"

def asDocument (r : ChunkRow) : GraphDocument where
  chunkId := r.canonicalId
  text := r.text
  metadata := if falsy r.metadata then .emptyObj else r.metadata
  source := sourceOf r.metadata

/-- The chunks of the live build, in the order of their ids. -/
def loadDocuments (c : Collection) : List GraphDocument :=
  match c.liveVersion with
  | none => []
  | some version =>
    ((c.chunksOf version).insertionSort (fun a b => a.canonicalId ≤ b.canonicalId)).map asDocument

/-! ## Retrievers and built graphs -/

structure PgVectorRetriever where
  ctx : RequestContext
  collection : String
  llm : Client
deriving DecidableEq

/-- How long the build took is not kept. -/
structure GraphStats where
  nodes : Nat
  edges : Nat
  schemaDomain : String
  documents : Nat
  corpusFingerprint : String
deriving DecidableEq

structure GraphEnv (γ : Type) where
  /-- The hexadecimal SHA-256 of the UTF-8 encoding. -/
  sha256 : String → String
  numberOfNodes : γ → Nat
  numberOfEdges : γ → Nat

section
variable {γ : Type}

/-- The ids go into the digest one after the other, and nothing else of a document. -/
def corpusFingerprint (env : GraphEnv γ) (documents : List GraphDocument) : String :=
  String.ofList ((env.sha256 (String.join (documents.map GraphDocument.chunkId))).toList.take 16)

def statsOf (env : GraphEnv γ) (schemaDomain : String) (documents : List GraphDocument)
    (graph : Option γ) : GraphStats where
  nodes := (graph.map env.numberOfNodes).getD 0
  edges := (graph.map env.numberOfEdges).getD 0
  schemaDomain := schemaDomain
  documents := documents.length
  corpusFingerprint := corpusFingerprint env documents

/-! ## The cache -/

/-- What `build_graph` keeps of a build. -/
structure CachedGraph (γ : Type) where
  fingerprint : String
  graph : γ
  retriever : PgVectorRetriever
  stats : GraphStats

abbrev GraphCache (γ : Type) := Uuid × String → Option (CachedGraph γ)

def GraphCache.empty : GraphCache γ := fun _ => none

/-- `key`: the schema domain is no part of it. -/
def cacheKey (ctx : RequestContext) (collection : String) : Uuid × String :=
  (ctx.tenant.id, collection)

def GraphCache.hit (cache : GraphCache γ) (key : Uuid × String) (fingerprint : String)
    (force : Bool) : Option (CachedGraph γ) :=
  (cache key).filter (fun e => e.fingerprint = fingerprint ∧ force = false)

/-- `_cache[key] = …`, whatever is there. -/
def GraphCache.put (cache : GraphCache γ) (key : Uuid × String) (entry : CachedGraph γ) :
    GraphCache γ :=
  Function.update cache key (some entry)

/-- `invalidate(ctx)`. -/
def GraphCache.invalidate (cache : GraphCache γ) (tenantId : Uuid) : GraphCache γ :=
  fun key => if key.1 = tenantId then none else cache key

/-- The entry that a build leaves behind. -/
def builtEntry (env : GraphEnv γ) (retriever : PgVectorRetriever) (schemaDomain : String)
    (documents : List GraphDocument) (graph : γ) : CachedGraph γ where
  fingerprint := corpusFingerprint env documents
  graph := graph
  retriever := retriever
  stats := statsOf env schemaDomain documents (some graph)

theorem hit_eq_some {cache : GraphCache γ} {key : Uuid × String} {fingerprint : String}
    {force : Bool} {e : CachedGraph γ} :
    cache.hit key fingerprint force = some e ↔ cache key = some e ∧ e.fingerprint = fingerprint ∧
      force = false := by
  simp only [GraphCache.hit, Option.filter_eq_some_iff, decide_eq_true_eq]

theorem put_eq_some {cache : GraphCache γ} {key k : Uuid × String} {entry e : CachedGraph γ}
    (h : cache.put key entry k = some e) : (k = key ∧ e = entry) ∨ cache k = some e := by
  by_cases hk : k = key
  · subst hk
    rw [GraphCache.put, Function.update_self] at h
    exact Or.inl ⟨rfl, (Option.some.inj h).symm⟩
  · rw [GraphCache.put, Function.update_of_ne hk] at h
    exact Or.inr h

theorem invalidate_eq_some {cache : GraphCache γ} {tenantId : Uuid} {k : Uuid × String}
    {e : CachedGraph γ} :
    cache.invalidate tenantId k = some e ↔ k.1 ≠ tenantId ∧ cache k = some e := by
  unfold GraphCache.invalidate
  split
  · simp_all
  · simp_all

end

end AgenticPlatform.Workloads
