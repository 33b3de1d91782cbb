import AgenticPlatform.Corpus.Fingerprint
import AgenticPlatform.Foundation.JsonInteger
import AgenticPlatform.Workloads.GraphEngine

/-!
# Whether the corpus has moved since a draft

A draft loads the documents of the live build, works on them, and takes the fingerprint of
the build that is live when it is done. A session is later compared with the build that is
live then. Every look at the collection is a transaction of its own, and the collection may
be any other one at the next.
-/
namespace AgenticPlatform.Onboarding
open AgenticPlatform.Foundation AgenticPlatform.Corpus AgenticPlatform.Workloads

/-- The `stats` of a finished draft. The live build is looked up in one transaction and its
fingerprint taken in the next; the other entries are found by the draft. -/
def draftStats (env : FingerprintEnv) (found : String → Json) (looked taken : Collection) :
    List (String × Json) :=
  [("instances", found "instances"), ("predicates", found "predicates"),
    ("cache_files", found "cache_files"), ("candidate_queries", found "candidate_queries"),
    ("candidate_queries_error", found "candidate_queries_error"), ("corpus_fingerprint",
      (looked.liveVersion.map (fun v => Json.str (taken.fingerprint env v))).getD .null),
    ("corpus_build_version", (looked.liveVersion.map (fun v => Json.num (.ofNat v))).getD .null),
    ("relations_available", found "relations_available"),
    ("chunks_sampled", found "chunks_sampled"),
    ("entities_discovered", found "entities_discovered"),
    ("repair_attempts", found "repair_attempts"), ("validation", found "validation")]

structure Staleness where
  corpusStatus : String
  corpusDrifted : Option Bool
  corpusBuildVersion : Option Nat
deriving DecidableEq

/-- `_staleness`, over the `stats` of a session. -/
def staleness (env : FingerprintEnv) (stats : List (String × Json)) (looked taken : Collection) :
    Staleness :=
  match (stats.lookup "corpus_fingerprint").filter (fun value => !falsy value) with
  -- Drafted before fingerprints were recorded.
  | none => ⟨"unknown", none, none⟩
  | some drafted =>
    match looked.liveVersion with
    | none => ⟨"collection has no live build", some true, none⟩
    | some live =>
      let drifted := decide (Json.str (taken.fingerprint env live) ≠ drafted)
      ⟨if drifted then "drifted" else "current", some drifted, some live⟩

/-- The live build has the ids of these documents and no others. -/
def LiveHas (looked taken : Collection) (documents : List GraphDocument) : Prop :=
  ∃ v, looked.liveVersion = some v ∧ ∀ id, id ∈ taken.canonicalIds v ↔
    id ∈ documents.map GraphDocument.chunkId

/-- Whatever is live when it is asked for, the answer is the right one about these documents. -/
def DriftExact (env : FingerprintEnv) (stats : List (String × Json))
    (documents : List GraphDocument) : Prop :=
  ∀ looked taken : Collection, (∀ v, looked.liveVersion = some v → taken.Canonical v) →
    ((staleness env stats looked taken).corpusDrifted = some false ↔ LiveHas looked taken documents)

/-- A fingerprint says which ids a build has, and nothing else of it. -/
def Identifies (env : FingerprintEnv) : Prop :=
  ∀ (c c' : Collection) (v v' : Nat), c.Canonical v → c'.Canonical v' →
    (c.fingerprint env v = c'.fingerprint env v' ↔ SameIds c v c' v')

section
variable {env : FingerprintEnv} {loaded : Collection}

/-- The documents are those of a build. -/
theorem loadDocuments_ids {version : Nat} (h : loaded.liveVersion = some version) (id : String) :
    id ∈ (loadDocuments loaded).map GraphDocument.chunkId ↔ id ∈ loaded.canonicalIds version := by
  simp only [loadDocuments, h, List.map_map, Collection.canonicalIds, List.mem_map,
    List.mem_insertionSort, Function.comp_apply, asDocument]

theorem exists_version_of_documents (h : loadDocuments loaded ≠ []) :
    ∃ version, loaded.liveVersion = some version := by
  cases hlive : loaded.liveVersion with
  | some version => exact ⟨version, rfl⟩
  | none =>
    rw [loadDocuments, hlive] at h
    exact absurd rfl h

/-- What a session without a fingerprint is told. -/
theorem staleness_unknown {found : String → Json} {looked taken looked' taken' : Collection}
    (h : looked.liveVersion = none) :
    (staleness env (draftStats env found looked taken) looked' taken').corpusDrifted = none := by
  have hnone : (((draftStats env found looked taken).lookup "corpus_fingerprint").filter
      (fun value => !falsy value)) =
      none := by
    simp only [draftStats, h]
    rfl
  rw [staleness, hnone]

/-- A session with a fingerprint is current exactly where the live build has the same one. -/
theorem staleness_current_iff (hdigest : ∀ text, env.sha256 text ≠ "") {found : String → Json}
    {looked taken looked' taken' : Collection} {version : Nat}
    (h : looked.liveVersion = some version) :
    (staleness env (draftStats env found looked taken) looked' taken').corpusDrifted = some false ↔
      ∃ v, looked'.liveVersion = some v ∧
      taken'.fingerprint env v = taken.fingerprint env version := by
  have hdrafted : ((draftStats env found looked taken).lookup "corpus_fingerprint").filter
      (fun value => !falsy value) =
      some (.str (taken.fingerprint env version)) := by
    have hlookup : (draftStats env found looked taken).lookup "corpus_fingerprint" =
        some (.str (taken.fingerprint env version)) := by
      simp only [draftStats, h]
      rfl
    have hnonempty : taken.fingerprint env version ≠ "" := hdigest _
    rw [hlookup, Option.filter_some, if_pos]
    simpa [falsy] using hnonempty
  cases hlive : looked'.liveVersion with
  | none => simp [staleness, hdrafted, hlive]
  | some live => simp [staleness, hdrafted, hlive]

end

/-- Sessions are told exactly when their corpus has moved where the build that is live at the
end of the draft still has the ids of the documents the draft began with. -/
theorem drift_exact_iff {env : FingerprintEnv} (henv : env.Faithful)
    (hdigest : ∀ text, env.sha256 text ≠ "") (found : String → Json)
    {loaded looked taken : Collection} (hdocuments : loadDocuments loaded ≠ [])
    (hloaded : ∀ v, loaded.liveVersion = some v → loaded.Canonical v)
    (htaken : ∀ v, looked.liveVersion = some v → taken.Canonical v) :
    Identifies env ∧ DriftExact env (draftStats env found looked taken) (loadDocuments loaded) ↔
      LiveHas looked taken (loadDocuments loaded) := by
  have hidentifies : Identifies env := fun _ _ _ _ hc hc' => fingerprint_eq_iff henv hc hc'
  obtain ⟨version, hversion⟩ := exists_version_of_documents hdocuments
  constructor
  · rintro ⟨-, hexact⟩
    -- Asked while the documents are still live, the session has to be current.
    have hcurrent := (hexact loaded loaded hloaded).mpr
      ⟨version, hversion, fun id => (loadDocuments_ids hversion id).symm⟩
    cases hlive : looked.liveVersion with
    | none =>
      rw [staleness_unknown hlive] at hcurrent
      cases hcurrent
    | some v =>
      obtain ⟨v', hv', heq⟩ := (staleness_current_iff hdigest hlive).mp hcurrent
      cases hversion.symm.trans hv'
      have hsame := (hidentifies _ _ _ _ (hloaded version hversion) (htaken v hlive)).mp heq
      exact ⟨v, hlive, fun id => (hsame id).symm.trans (loadDocuments_ids hversion id).symm⟩
  · rintro ⟨v, hlive, hsame⟩
    refine ⟨hidentifies, ?_⟩
    intro looked' taken' hcanonical
    rw [staleness_current_iff hdigest hlive]
    refine exists_congr fun v' => and_congr_right fun hlive' => ?_
    rw [hidentifies _ _ _ _ (hcanonical v' hlive') (htaken v hlive)]
    exact forall_congr' fun id => iff_congr Iff.rfl (hsame id)

/-! A draft begins with the two chunks of the first build of a handbook. -/

def handbookChunk (id : String) (ordinal version : Nat) : ChunkRow where
  documentId := 1
  canonicalId := id
  ordinal := ordinal
  buildVersion := version
  text := "Handbook"
  embedding := []
  embeddingModel := "m"
  metadata := .emptyObj
  writtenBy := version

/-- The first is in both builds, the second was edited in between. -/
def handbookChunks : ChunkTable :=
  ⟨[handbookChunk "c_a1" 0 1, handbookChunk "c_a2" 1 1, handbookChunk "c_a1" 0 2,
    handbookChunk "c_b2" 1 2], by decide⟩

/-- The second build is ready and not promoted yet. -/
def handbook : Collection where
  builds := ⟨[⟨1, .live, 2, none, none, some 1, 1⟩,
    ⟨2, .building, 0, none, none, none, 2⟩], by decide⟩
  chunks := handbookChunks
  one_live := by decide

def reindexed : Collection where
  builds := ⟨[⟨1, .superseded, 2, none, none, some 1, 1⟩,
    ⟨2, .live, 2, none, none, some 5, 2⟩], by decide⟩
  chunks := handbookChunks
  one_live := by decide

def plainDigest : FingerprintEnv := ⟨fun text => "sha256 of " ++ text, id⟩

theorem plainDigest_faithful : plainDigest.Faithful where
  sha256 _ _ h := String.append_right_inj _ |>.mp h
  collate := Function.injective_id

theorem plainDigest_ne_empty (text : String) : plainDigest.sha256 text ≠ "" := by
  intro h
  have hlength := congrArg String.length h
  simp [plainDigest] at hlength

theorem isCanonicalId_handbook {c : ChunkRow} (h : c ∈ handbookChunks.rows) :
    IsCanonicalId c.canonicalId := by
  have hids : c.canonicalId ∈ handbookChunks.rows.map ChunkRow.canonicalId := List.mem_map_of_mem h
  have hthree : c.canonicalId = "c_a1" ∨ c.canonicalId = "c_a2" ∨ c.canonicalId = "c_b2" := by
    simp only [handbookChunks, handbookChunk, List.map_cons, List.map_nil, List.mem_cons,
      List.not_mem_nil, or_false] at hids
    tauto
  rcases hthree with heq | heq | heq
  · exact ⟨['a', '1'], by rw [heq]; rfl, by decide, by simp [isHexDigit]⟩
  · exact ⟨['a', '2'], by rw [heq]; rfl, by decide, by simp [isHexDigit]⟩
  · exact ⟨['b', '2'], by rw [heq]; rfl, by decide, by simp [isHexDigit]⟩

theorem canonical_of_handbookChunks {c : Collection} (h : c.chunks = handbookChunks) (v : Nat) :
    c.Canonical v := by
  intro id hid
  obtain ⟨row, hrow, rfl⟩ := List.mem_map.mp hid
  exact isCanonicalId_handbook (h ▸ (List.mem_filter.mp hrow).1)

/-- Nothing moves during the draft. -/
theorem drift_exact_handbook :
    Identifies plainDigest ∧
      DriftExact plainDigest (draftStats plainDigest (fun _ => .null) handbook handbook)
      (loadDocuments handbook) :=
  (drift_exact_iff plainDigest_faithful plainDigest_ne_empty _ (by decide)
    (fun v _ => canonical_of_handbookChunks rfl v)
    (fun v _ => canonical_of_handbookChunks rfl v)).mpr
    ⟨1, rfl, fun id => (loadDocuments_ids rfl id).symm⟩

/-- The second build is promoted during the draft. The session is current beside a corpus
that lacks a document the draft began with. -/
theorem promoted_during_draft :
    handbook.promote "handbook" 2 5 = .ok (reindexed, 2) ∧
      (staleness plainDigest (draftStats plainDigest (fun _ => .null) reindexed reindexed)
        reindexed reindexed).corpusDrifted =
      some false ∧
      ¬ DriftExact plainDigest (draftStats plainDigest (fun _ => .null) reindexed reindexed)
      (loadDocuments handbook) := by
  have hlive : reindexed.liveVersion = some 2 := rfl
  have hcurrent :
      (staleness plainDigest (draftStats plainDigest (fun _ => .null) reindexed reindexed) reindexed
        reindexed).corpusDrifted =
      some false :=
    (staleness_current_iff plainDigest_ne_empty hlive).mpr ⟨2, hlive, rfl⟩
  refine ⟨rfl, hcurrent, ?_⟩
  intro hexact
  obtain ⟨v, hv, hsame⟩ :=
    (hexact reindexed reindexed (fun v _ => canonical_of_handbookChunks rfl v)).mp hcurrent
  cases hv
  have hgone : "c_a2" ∉ reindexed.canonicalIds 2 := by decide
  exact hgone ((hsame "c_a2").mpr ((loadDocuments_ids rfl "c_a2").mpr (by decide)))

end AgenticPlatform.Onboarding
