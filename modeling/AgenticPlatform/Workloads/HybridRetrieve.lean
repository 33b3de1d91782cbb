import AgenticPlatform.Foundation.Tally
import AgenticPlatform.Foundation.Traversal
import AgenticPlatform.Workloads.GraphEngine
import Mathlib.Data.List.Dedup

/-!
# Three retrievers, one list of sources

The hits of the dense search, of the lexical search and of the graph add their weights to the
chunks they name, as far as these are among the documents. The five best chunks become the
sources, with the retrievers that named them. A traversal of the graph that raises leaves
what it has added. The arithmetic of the weights is a parameter.
-/
namespace AgenticPlatform.Workloads
open AgenticPlatform.Foundation

def maxContextChunks : Nat := 5

structure FusionEnv (α : Type) where
  /-- `1.0 / (rank + 1)`. -/
  dense : Nat → α
  /-- `0.7 / (rank + 1)`. -/
  lexical : Nat → α
  /-- `0.8 / (rank + 1)`. -/
  graph : Nat → α
  /-- `round(score, 4)`. -/
  round4 : α → α

/-- One call of `contribute`. -/
structure Contribution (α : Type) where
  chunkId : String
  weight : α
  signal : String

/-- What the graph has given by its end, or by the time it raised. -/
structure GraphTraversal where
  entities : List String
  /-- `none` for an item without an id, which still has a rank. -/
  hits : List (Option String)

/-- Without a graph, or with one without nodes. -/
def GraphTraversal.none : GraphTraversal := ⟨[], []⟩

structure FusedSource (α : Type) where
  chunkId : String
  text : String
  score : α
  signals : List String
  source : Json

structure RetrievalDetail where
  denseHits : Nat
  lexicalHits : Nat
  graphHits : Nat
  entitiesMatched : List String
  fusedCandidates : Nat
deriving DecidableEq

section
variable {α : Type} (env : FusionEnv α)

/-- A list of hits, each with the weight of its rank. -/
def rankedHits (weight : Nat → α) (signal : String) (hits : List String) : List (Contribution α) :=
  hits.zipIdx.map (fun hit => ⟨hit.1, weight hit.2, signal⟩)

def graphContributions (hits : List (Option String)) : List (Contribution α) :=
  hits.zipIdx.filterMap (fun hit => hit.1.map (fun chunkId => ⟨chunkId, env.graph hit.2, "graph"⟩))

/-- The calls in their order. -/
def contributions (dense lexical : List String) (graph : GraphTraversal) : List (Contribution α) :=
  rankedHits env.dense "dense" dense ++ rankedHits env.lexical "lexical" lexical ++
    graphContributions env graph.hits

/-- `{doc["chunk_id"]: doc for doc in documents}`. -/
def byId (documents : List GraphDocument) : List (String × GraphDocument) :=
  Dict.update [] (documents.map (fun doc => (doc.chunkId, doc)))

/-- `chunk_id in by_id`. -/
def known (documents : List GraphDocument) (c : Contribution α) : Bool :=
  ((byId documents).lookup c.chunkId).isSome

variable [LinearOrder α] [Add α] [Zero α]

def scoresOf (documents : List GraphDocument) (cs : List (Contribution α)) : List (String × α) :=
  tally (known documents) Contribution.chunkId 0 (fun score c => score + c.weight) cs

def contributorsOf (documents : List GraphDocument) (cs : List (Contribution α)) :
    List (String × List String) :=
  tally (known documents) Contribution.chunkId [] (fun signals c => signals ++ [c.signal]) cs

/-- `sorted(set(signals))`. -/
def sortedSet (signals : List String) : List String := sortedBy id signals.dedup

/-- One entry of the sources; `none` for a KeyError. -/
def sourceFor (documents : List GraphDocument) (cs : List (Contribution α)) (entry : String × α) :
    Option (FusedSource α) :=
  match (byId documents).lookup entry.1, (contributorsOf documents cs).lookup entry.1 with
  | some doc, some signals =>
    some ⟨entry.1, doc.text, env.round4 entry.2, sortedSet signals, doc.source⟩
  | _, _ => none

def fuse (documents : List GraphDocument) (cs : List (Contribution α)) :
    Option (List (FusedSource α)) :=
  (best Prod.snd maxContextChunks (scoresOf documents cs)).mapM (sourceFor env documents cs)

/-- `_hybrid_retrieve`, from what the three have returned. -/
def hybridRetrieve (documents : List GraphDocument) (dense lexical : List String)
    (graph : GraphTraversal) : Option (List (FusedSource α) × RetrievalDetail) :=
  let cs := contributions env dense lexical graph
  (fuse env documents cs).map (fun sources =>
    (sources, ⟨dense.length, lexical.length, (graph.hits.filterMap id).dedup.length,
      graph.entities.take 10, (scoresOf documents cs).length⟩))

end

/-! ## What the sources are -/

section
variable {α : Type} {documents : List GraphDocument} {cs : List (Contribution α)}

theorem lookup_byId {chunkId : String} {doc : GraphDocument}
    (h : (byId documents).lookup chunkId = some doc) : doc ∈ documents ∧ doc.chunkId = chunkId := by
  rcases Dict.mem_of_lookup_update h with hmem | hnil
  · obtain ⟨doc', hdoc, heq⟩ := List.mem_map.mp hmem
    cases heq
    exact ⟨hdoc, rfl⟩
  · cases hnil

theorem lookup_byId_isSome {chunkId : String} :
    ((byId documents).lookup chunkId).isSome ↔ chunkId ∈ documents.map GraphDocument.chunkId := by
  have hkeys : chunkId ∈ (byId documents).map Prod.fst ↔
      chunkId ∈ documents.map GraphDocument.chunkId := by
    rw [byId, Dict.mem_keys_update, List.map_map]
    simp
  rw [← hkeys, Option.isSome_iff_ne_none, ne_eq, Dict.lookup_eq_none, not_not]

theorem known_iff {c : Contribution α} :
    known documents c = true ↔ c.chunkId ∈ documents.map GraphDocument.chunkId :=
  lookup_byId_isSome

/-- What is filtered by the key is all known, or none of it. -/
theorem filter_known {chunkId : String} (h : chunkId ∈ documents.map GraphDocument.chunkId)
    (cs : List (Contribution α)) :
    cs.filter (fun c => known documents c && decide (c.chunkId = chunkId)) =
      cs.filter (fun c => c.chunkId = chunkId) := by
  refine List.filter_congr ?_
  intro c _
  by_cases hc : c.chunkId = chunkId
  · have hknown : known documents c = true := known_iff.mpr (hc ▸ h)
    simp [hc, hknown]
  · simp [hc]

/-- A document that some retriever has named. -/
def Candidate (documents : List GraphDocument) (cs : List (Contribution α)) (chunkId : String) :
    Prop :=
  chunkId ∈ documents.map GraphDocument.chunkId ∧ chunkId ∈ cs.map Contribution.chunkId

instance (documents : List GraphDocument) (cs : List (Contribution α)) (chunkId : String) :
    Decidable (Candidate documents cs chunkId) :=
  inferInstanceAs (Decidable (_ ∧ _))

/-- The candidates, in the order in which they were named. -/
def candidateIds (documents : List GraphDocument) (cs : List (Contribution α)) : List String :=
  (cs.filter (known documents)).map Contribution.chunkId

theorem candidate_iff {chunkId : String} :
    Candidate documents cs chunkId ↔ ∃ c ∈ cs, known documents c = true ∧ c.chunkId = chunkId := by
  constructor
  · rintro ⟨hdoc, hnamed⟩
    obtain ⟨c, hc, rfl⟩ := List.mem_map.mp hnamed
    exact ⟨c, hc, known_iff.mpr hdoc, rfl⟩
  · rintro ⟨c, hc, hknown, rfl⟩
    exact ⟨known_iff.mp hknown, List.mem_map_of_mem hc⟩

theorem mem_candidateIds {chunkId : String} :
    chunkId ∈ candidateIds documents cs ↔ Candidate documents cs chunkId := by
  rw [candidate_iff, candidateIds, List.mem_map]
  simp only [List.mem_filter, and_assoc]

/-- No retriever is left out of the names of a candidate. -/
theorem lookup_contributorsOf {chunkId : String} (h : Candidate documents cs chunkId) :
    (contributorsOf documents cs).lookup chunkId =
      some ((cs.filter (fun c => c.chunkId = chunkId)).map Contribution.signal) := by
  have hfold : ∀ (l : List (Contribution α)) (init : List String),
      l.foldl (fun signals c => signals ++ [c.signal]) init =
      init ++ l.map Contribution.signal := by
    intro l
    induction l with
    | nil => exact fun init => (List.append_nil init).symm
    | cons c l ih =>
      intro init
      rw [List.foldl_cons, ih, List.append_assoc, List.singleton_append, List.map_cons]
  have hlookup : (contributorsOf documents cs).lookup chunkId = _ := lookup_tally cs chunkId
  rw [hlookup, if_pos (candidate_iff.mp h), filter_known h.1, hfold, List.nil_append]

theorem sortedSet_spec (signals : List String) :
    (sortedSet signals).Pairwise (· < ·) ∧ ∀ signal, signal ∈ sortedSet signals ↔
      signal ∈ signals := by
  constructor
  · have hsorted : (sortedSet signals).Pairwise (· ≤ ·) := sortedBy_sorted id signals.dedup
    have hnodup : (sortedSet signals).Nodup :=
      (List.perm_insertionSort _ _).nodup_iff.mpr (List.nodup_dedup signals)
    exact (hsorted.and hnodup).imp (fun h => lt_of_le_of_ne h.1 h.2)
  · intro signal
    rw [sortedSet, mem_sortedBy, List.mem_dedup]

variable [Add α] [Zero α]

theorem keys_scoresOf_perm :
    ((scoresOf documents cs).map Prod.fst).Perm (candidateIds documents cs).dedup := by
  refine (List.perm_ext_iff_of_nodup (nodup_tally _ _ _ _ cs) (List.nodup_dedup _)).mpr ?_
  intro chunkId
  rw [List.mem_dedup, mem_candidateIds, candidate_iff]
  exact mem_keys_tally cs

/-- What the retrievers have given a chunk, added up in the order of the calls. -/
def fusedScore (cs : List (Contribution α)) (chunkId : String) : α :=
  (cs.filter (fun c => c.chunkId = chunkId)).foldl (fun score c => score + c.weight) 0

theorem mem_scoresOf {entry : String × α} : entry ∈ scoresOf documents cs ↔
    Candidate documents cs entry.1 ∧ entry.2 = fusedScore cs entry.1 := by
  have hlookup : (scoresOf documents cs).lookup entry.1 = _ := lookup_tally cs entry.1
  have hnodup : ((scoresOf documents cs).map Prod.fst).Nodup := nodup_tally _ _ _ _ cs
  refine (Dict.lookup_eq_some_iff_mem hnodup).symm.trans ?_
  rw [hlookup]
  by_cases hcand : Candidate documents cs entry.1
  · rw [if_pos (candidate_iff.mp hcand), filter_known hcand.1]
    constructor
    · exact fun h => ⟨hcand, (Option.some.inj h).symm⟩
    · exact fun h => congrArg some h.2.symm
  · rw [if_neg (fun h => hcand (candidate_iff.mpr h))]
    constructor
    · intro h
      cases h
    · exact fun h => absurd h.1 hcand

theorem scoresOf_ordered : (scoresOf documents cs).Pairwise
    (fun a b => (candidateIds documents cs).idxOf a.1 < (candidateIds documents cs).idxOf b.1) := by
  have hordered : ((scoresOf documents cs).map Prod.fst).Pairwise
      (fun a b => (candidateIds documents cs).idxOf a < (candidateIds documents cs).idxOf b) :=
    tally_ordered _ _ _ _ cs
  rwa [List.pairwise_map] at hordered

/-- No entry is without a document or without a retriever. -/
theorem sourceFor_eq (env : FusionEnv α) {entry : String × α} (h : entry ∈ scoresOf documents cs) :
    ∃ doc ∈ documents, doc.chunkId = entry.1 ∧
      sourceFor env documents cs entry = some ⟨entry.1, doc.text, env.round4 entry.2,
        sortedSet ((cs.filter (fun c => c.chunkId = entry.1)).map Contribution.signal),
        doc.source⟩ := by
  obtain ⟨hcand, -⟩ := mem_scoresOf.mp h
  obtain ⟨doc, hdoc⟩ := Option.isSome_iff_exists.mp (lookup_byId_isSome.mpr hcand.1)
  obtain ⟨hmem, hid⟩ := lookup_byId hdoc
  refine ⟨doc, hmem, hid, ?_⟩
  rw [sourceFor, hdoc, lookup_contributorsOf hcand]

/-- `mapM` where each element has a value. -/
theorem map_filterMap_sourceFor (env : FusionEnv α) {entries : List (String × α)}
    (h : ∀ entry ∈ entries, entry ∈ scoresOf documents cs) :
    (entries.filterMap (sourceFor env documents cs)).map FusedSource.chunkId =
      entries.map Prod.fst := by
  induction entries with
  | nil => rfl
  | cons entry entries ih =>
    obtain ⟨hhead, htail⟩ := List.forall_mem_cons.mp h
    obtain ⟨doc, -, -, heq⟩ := sourceFor_eq env hhead
    rw [List.filterMap_cons_some heq, List.map_cons, List.map_cons, ih htail]

variable [LinearOrder α]

/-- A better score, or the same and named before. -/
def Ahead (documents : List GraphDocument) (cs : List (Contribution α)) (a b : String) : Prop :=
  fusedScore cs b < fusedScore cs a ∨ fusedScore cs a = fusedScore cs b ∧
    (candidateIds documents cs).idxOf a < (candidateIds documents cs).idxOf b

instance (documents : List GraphDocument) (cs : List (Contribution α)) (a b : String) :
    Decidable (Ahead documents cs a b) :=
  inferInstanceAs (Decidable (_ ∨ _))

structure BestSources (env : FusionEnv α) (documents : List GraphDocument)
    (cs : List (Contribution α)) (sources : List (FusedSource α)) : Prop where
  distinct : (sources.map FusedSource.chunkId).Nodup
  documented : ∀ s ∈ sources, ∃ doc ∈ documents, doc.chunkId = s.chunkId ∧ doc.text = s.text ∧
    doc.source = s.source
  scored : ∀ s ∈ sources, s.score = env.round4 (fusedScore cs s.chunkId)
  /-- Each retriever that named it, once, in alphabetical order. -/
  attributed : ∀ s ∈ sources, s.signals.Pairwise (· < ·) ∧
    ∀ signal, signal ∈ s.signals ↔ ∃ c ∈ cs, c.chunkId = s.chunkId ∧ c.signal = signal
  ordered : (sources.map FusedSource.chunkId).Pairwise (Ahead documents cs)
  /-- Nothing better is left out. -/
  chosen : ∀ chunkId, chunkId ∈ sources.map FusedSource.chunkId ↔ Candidate documents cs chunkId ∧
    ((candidateIds documents cs).dedup.filter
      (fun other => Ahead documents cs other chunkId)).length <
    maxContextChunks

theorem fuse_eq (env : FusionEnv α) (documents : List GraphDocument) (cs : List (Contribution α)) :
    fuse env documents cs =
      some ((best Prod.snd maxContextChunks (scoresOf documents cs)).filterMap
        (sourceFor env documents cs)) := by
  refine mapM_eq_filterMap ?_
  intro entry hentry
  obtain ⟨doc, -, -, heq⟩ := sourceFor_eq env (best_subset hentry)
  rw [heq]
  rfl

theorem fuse_best (env : FusionEnv α) (documents : List GraphDocument)
    (cs : List (Contribution α)) :
    ∃ sources, fuse env documents cs = some sources ∧ BestSources env documents cs sources := by
  have hmem : ∀ entry ∈ best Prod.snd maxContextChunks (scoresOf documents cs),
      entry ∈ scoresOf documents cs :=
    fun entry h => best_subset h
  have hids := map_filterMap_sourceFor env hmem
  -- every source comes from an entry
  have hfrom : ∀ s ∈ (best Prod.snd maxContextChunks (scoresOf documents cs)).filterMap
      (sourceFor env documents cs),
      ∃ entry ∈ scoresOf documents cs, sourceFor env documents cs entry = some s := by
    intro s hs
    obtain ⟨entry, hentry, heq⟩ := List.mem_filterMap.mp hs
    exact ⟨entry, hmem entry hentry, heq⟩
  have hnodup : ((scoresOf documents cs).map Prod.fst).Nodup := nodup_tally _ _ _ _ cs
  refine ⟨_, fuse_eq env documents cs, ?_, ?_, ?_, ?_, ?_, ?_⟩
  · rw [hids]
    have hsorted :
        ((sortedBy (fun a : String × α => OrderDual.toDual a.2) (scoresOf documents cs)).map
          Prod.fst).Nodup :=
      ((List.perm_insertionSort _ _).map Prod.fst).nodup_iff.mpr hnodup
    exact hsorted.sublist ((List.take_sublist _ _).map Prod.fst)
  · intro s hs
    obtain ⟨entry, hentry, heq⟩ := hfrom s hs
    obtain ⟨doc, hdoc, hid, hsome'⟩ := sourceFor_eq env hentry
    cases heq.symm.trans hsome'
    exact ⟨doc, hdoc, hid, rfl, rfl⟩
  · intro s hs
    obtain ⟨entry, hentry, heq⟩ := hfrom s hs
    obtain ⟨doc, -, -, hsome'⟩ := sourceFor_eq env hentry
    cases heq.symm.trans hsome'
    exact congrArg env.round4 (mem_scoresOf.mp hentry).2
  · intro s hs
    obtain ⟨entry, hentry, heq⟩ := hfrom s hs
    obtain ⟨doc, -, -, hsome'⟩ := sourceFor_eq env hentry
    cases heq.symm.trans hsome'
    obtain ⟨hsorted, hsignals⟩ :=
      sortedSet_spec ((cs.filter (fun c => c.chunkId = entry.1)).map Contribution.signal)
    refine ⟨hsorted, ?_⟩
    intro signal
    rw [hsignals, List.mem_map]
    simp only [List.mem_filter, decide_eq_true_eq, and_assoc]
  · rw [hids, List.pairwise_map]
    refine (best_ordered scoresOf_ordered maxContextChunks).imp_of_mem ?_
    intro a b ha hb hab
    rw [(mem_scoresOf.mp (hmem a ha)).2, (mem_scoresOf.mp (hmem b hb)).2] at hab
    exact hab
  · intro chunkId
    have hcount : ∀ entry ∈ scoresOf documents cs,
        ((scoresOf documents cs).filter (fun other => entry.2 < other.2 ∨ other.2 = entry.2 ∧
          (candidateIds documents cs).idxOf other.1 <
          (candidateIds documents cs).idxOf entry.1)).length =
        ((candidateIds documents cs).dedup.filter
          (fun other => Ahead documents cs other entry.1)).length := by
      intro entry hentry
      rw [← (keys_scoresOf_perm.filter _).length_eq, List.filter_map, List.length_map]
      refine congrArg List.length (List.filter_congr ?_)
      intro other hother
      rw [(mem_scoresOf.mp hentry).2, (mem_scoresOf.mp hother).2]
      rfl
    have hasymm : ∀ a b : String × α,
        (candidateIds documents cs).idxOf a.1 < (candidateIds documents cs).idxOf b.1 →
        ¬ (candidateIds documents cs).idxOf b.1 < (candidateIds documents cs).idxOf a.1 :=
      fun a b h => Nat.lt_asymm h
    rw [hids, List.mem_map]
    constructor
    · rintro ⟨entry, hentry, rfl⟩
      have hin := hmem entry hentry
      exact ⟨(mem_scoresOf.mp hin).1,
        hcount entry hin ▸ (mem_best_iff scoresOf_ordered hasymm hin _).mp hentry⟩
    · rintro ⟨hcand, hfew⟩
      have hin : (chunkId, fusedScore cs chunkId) ∈ scoresOf documents cs :=
        mem_scoresOf.mpr ⟨hcand, rfl⟩
      exact ⟨_, (mem_best_iff scoresOf_ordered hasymm hin _).mpr (hcount _ hin ▸ hfew), rfl⟩

theorem length_fuse {env : FusionEnv α} {sources : List (FusedSource α)}
    (h : fuse env documents cs = some sources) :
    sources.length = min maxContextChunks (scoresOf documents cs).length := by
  cases (fuse_eq env documents cs).symm.trans h
  rw [← List.length_map (f := FusedSource.chunkId),
    map_filterMap_sourceFor env (fun _ => best_subset), List.length_map, length_best]

/-- Whatever the retrievers return and wherever the graph raises, there are sources, and they
are the five best documents that were named, each with its own text and attribution. -/
theorem hybrid_best (env : FusionEnv α) (documents : List GraphDocument)
    (dense lexical : List String) (graph : GraphTraversal) :
    ∃ sources detail, hybridRetrieve env documents dense lexical graph = some (sources, detail) ∧
      BestSources env documents (contributions env dense lexical graph) sources ∧
      detail.fusedCandidates =
      (candidateIds documents (contributions env dense lexical graph)).dedup.length ∧
      sources.length = min maxContextChunks detail.fusedCandidates := by
  obtain ⟨sources, hsources, hbest⟩ :=
    fuse_best env documents (contributions env dense lexical graph)
  have hcount : (scoresOf documents (contributions env dense lexical graph)).length =
      (candidateIds documents (contributions env dense lexical graph)).dedup.length := by
    rw [← keys_scoresOf_perm.length_eq, List.length_map]
  exact ⟨sources,
    _, by rw [hybridRetrieve, hsources, Option.map_some], hbest, hcount, length_fuse hsources⟩

end

end AgenticPlatform.Workloads
