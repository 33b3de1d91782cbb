import AgenticPlatform.Workloads.Reindex

/-!
# What a reindex leaves in the served build

Uploads, withdrawals and whole reindex executions, one after the other. A passage two
documents share is one chunk and belongs to one of them: copy-forward asks whether its
owner is current, and ingest skips a document that owns any chunk. The live build holds
exactly what the current documents contain as long as the passages that current
documents share with withdrawn ones are not left between the two.
-/
namespace AgenticPlatform.Workloads
open AgenticPlatform.Foundation AgenticPlatform.Identity AgenticPlatform.Corpus

/-! ## One execution -/

section
variable (env : ReindexEnv) (c : Collection) (lib : Library) (exec : Nat) (runId : Option Uuid)
  (embed : Embed)

/-- The build opened and the chunks copied forward. -/
def copiedBuild : Collection :=
  writeChunks (c.begin exec runId).1
    (copiedRows (c.begin exec runId).1 lib c.liveVersion (c.begin exec runId).2 exec)

/-- What is to be embedded after that. -/
def freshChunks : List Prepared :=
  prepare env lib.objects
    (pendingDocuments (copiedBuild c lib exec runId) lib env.collection (c.begin exec runId).2)

def ingestedBuild : Collection :=
  writeChunks (copiedBuild c lib exec runId)
    (ingestedRows env (c.begin exec runId).2 exec (freshChunks env c lib exec runId)
      (embedAll embed (freshChunks env c lib exec runId)))

/-- `run`, undisturbed. -/
def runReindex (now : Time) : Collection × Ending :=
  let version := (c.begin exec runId).2
  let flat := freshChunks env c lib exec runId
  if (embedAll embed flat).length = flat.length then
    match (ingestedBuild env c lib exec runId embed).promote env.collection version now with
    | .ok (c', _) => (c'.reap.1, .promoted)
    | .error text => ((ingestedBuild env c lib exec runId embed).fail version text, .unpromoted)
  else ((copiedBuild c lib exec runId).fail version (zipError flat (embedAll embed flat)),
    .unpromoted)

end

/-- The steps up to the call of the embedding service. -/
theorem prepared_reaches (env : ReindexEnv) (s : ReindexState) (e : Nat) (runId : Option Uuid)
    (h : s.execs e = .idle) :
    Reaches (reindexStep env) s [.start e, .begin e runId, .copy e, .select e, .prepare e]
      (s.act e (copiedBuild s.collection s.library e runId)
        (.prepared (s.collection.begin e runId).2
        (freshChunks env s.collection s.library e runId))) := by
  simp only [Reaches, List.foldlM_cons, reindexStep, h, act_execs, act_collection, act_library,
    act_act, Option.bind_eq_bind, Option.bind_some]
  rfl

/-- An undisturbed execution is a run of the interleaved system. -/
theorem runReindex_leads (env : ReindexEnv) (s : ReindexState) (e : Nat) (runId : Option Uuid)
    (embed : Embed) (now : Time) (h : s.execs e = .idle) :
    Leads (reindexStep env) s (s.act e (runReindex env s.collection s.library e runId embed now).1
      (.ended (runReindex env s.collection s.library e runId embed now).2)) := by
  refine Leads.trans ⟨_, prepared_reaches env s e runId h⟩ ?_
  unfold runReindex
  simp only
  split
  · rename_i hlength
    split
    · rename_i c' count hpromote
      refine ⟨[.ingest e embed, .promote e now, .reap e, .finish e], ?_⟩
      unfold ingestedBuild at hpromote
      simp only [Reaches, List.foldlM_cons, List.foldlM_nil, reindexStep, act_execs, act_collection,
        act_act, Option.bind_eq_bind, Option.bind_some, hlength, if_true, hpromote]
      rfl
    · rename_i text hpromote
      refine ⟨[.ingest e embed, .promote e now, .fail e], ?_⟩
      unfold ingestedBuild at hpromote ⊢
      simp only [Reaches, List.foldlM_cons, List.foldlM_nil, reindexStep, act_execs, act_collection,
        act_act, Option.bind_eq_bind, Option.bind_some, hlength, if_true, hpromote]
      rfl
  · rename_i hlength
    refine ⟨[.ingest e embed, .fail e], ?_⟩
    simp only [Reaches, List.foldlM_cons, List.foldlM_nil, reindexStep, act_execs, act_collection,
      act_act, Option.bind_eq_bind, Option.bind_some, hlength, if_false]
    rfl

/-! ## What a build holds -/

/-- The ids that `chunk_document` gives the stored bytes of a document. -/
def passages (env : ReindexEnv) (objects : String → Option Bytes) (d : DocumentRow) : List String :=
  match readDocument env objects d with
  | .error _ => []
  | .ok chunks => chunks.map Chunk.canonicalId

/-- A build has a chunk with this id. -/
def Holds (c : Collection) (v : Nat) (id : String) : Prop := ∃ r ∈ c.chunksOf v, r.canonicalId = id

instance (c : Collection) (v : Nat) (id : String) : Decidable (Holds c v id) :=
  inferInstanceAs (Decidable (∃ r ∈ c.chunksOf v, _))

/-- A document owns a chunk of a build. -/
def Owns (c : Collection) (v : Nat) (d : DocumentRow) : Prop :=
  ∃ r ∈ c.chunksOf v, r.documentId = d.id

instance (c : Collection) (v : Nat) (d : DocumentRow) : Decidable (Owns c v d) :=
  inferInstanceAs (Decidable (∃ r ∈ c.chunksOf v, _))

theorem mem_copiedRows {c : Collection} {lib : Library} {previous : Option Nat} {version exec : Nat}
    {r : ChunkRow} :
    r ∈ copiedRows c lib previous version exec ↔
      ∃ v ∈ previous, ∃ r₀ ∈ c.chunksOf v, ownerCurrent lib r₀ ∧ copiedRow version exec r₀ = r := by
  cases previous with
  | none => simp [copiedRows]
  | some v => simp [copiedRows, and_assoc]

section
variable {env : ReindexEnv} {c : Collection} {lib : Library} {exec : Nat} {runId : Option Uuid}

/-- Nothing that is copied forward meets a chunk that is there. -/
theorem copied_keys_nodup (hknown : c.ChunksKnown) :
    ((c.chunks.rows ++ copiedRows c lib c.liveVersion (c.maxVersion + 1) exec).map
      ChunkRow.key).Nodup := by
  rw [List.map_append]
  refine List.nodup_append.mpr ⟨c.chunks.nodup, ?_, ?_⟩
  · cases c.liveVersion with
    | none => exact List.nodup_nil
    | some v =>
      rw [copiedRows, List.map_map]
      have hrows : c.chunks.rows.Nodup := c.chunks.nodup.of_map
      refine List.Nodup.map_on ?_ ((hrows.filter _).filter _)
      intro a ha b hb hkey
      obtain ⟨ha, hva⟩ := Collection.mem_chunksOf.mp (List.mem_of_mem_filter ha)
      obtain ⟨hb, hvb⟩ := Collection.mem_chunksOf.mp (List.mem_of_mem_filter hb)
      exact Table.eq_of_key ha hb (Prod.ext (Prod.mk.inj hkey).1 (hva.trans hvb.symm))
  · intro key hold key' hnew hsame
    obtain ⟨a, ha, rfl⟩ := List.mem_map.mp hold
    obtain ⟨b, hb, rfl⟩ := List.mem_map.mp hnew
    refine hknown.below ha ?_
    rw [← (copiedRows_spec hb).1]
    exact (Prod.mk.inj hsame).2

/-- The new build after copy-forward. -/
theorem mem_copiedBuild (hknown : c.ChunksKnown) {r : ChunkRow} :
    r ∈ (copiedBuild c lib exec runId).chunksOf (c.maxVersion + 1) ↔
      r ∈ copiedRows c lib c.liveVersion (c.maxVersion + 1) exec := by
  have hrows : (copiedBuild c lib exec runId).chunks.rows =
      c.chunks.rows ++ copiedRows c lib c.liveVersion (c.maxVersion + 1) exec :=
    Table.insertMissing_of_fresh (copied_keys_nodup hknown)
  rw [Collection.mem_chunksOf, hrows, List.mem_append]
  constructor
  · rintro ⟨hold | hnew, hv⟩
    · exact absurd hv (hknown.below hold)
    · exact hnew
  · intro hnew
    exact ⟨Or.inr hnew, (copiedRows_spec hnew).1⟩

/-- What is ingested: the current documents that own nothing in the live build. -/
theorem mem_pendingDocuments (hknown : c.ChunksKnown) {collection : String} {d : DocumentRow} :
    d ∈ pendingDocuments (copiedBuild c lib exec runId) lib collection (c.maxVersion + 1) ↔
      d ∈ lib.currentOf collection ∧ ∀ v ∈ c.liveVersion, ¬ Owns c v d := by
  rw [pendingDocuments, List.mem_insertionSort, List.mem_filter, decide_eq_true_eq]
  refine and_congr_right ?_
  intro hd
  have hcurrent := mem_currentOf.mp hd
  constructor
  · rintro hnone v hv ⟨r, hr, howner⟩
    have hcopied : copiedRow (c.maxVersion + 1) exec r ∈
        copiedRows c lib c.liveVersion (c.maxVersion + 1) exec :=
      mem_copiedRows.mpr ⟨v, hv, r, hr, ⟨d, hcurrent.1, howner.symm, hcurrent.2.2⟩, rfl⟩
    exact hnone _ ((mem_copiedBuild hknown).mpr hcopied) howner
  · intro hnone r hr howner
    obtain ⟨v, hv, r₀, hr₀, -, rfl⟩ := mem_copiedRows.mp ((mem_copiedBuild hknown).mp hr)
    exact hnone v hv ⟨r₀, hr₀, howner⟩

/-- A row is in a build after an insert only if it was there or is inserted, and its id is
there in both cases. -/
theorem mem_writeChunks {rows : List ChunkRow} {v : Nat} {r : ChunkRow}
    (h : r ∈ (writeChunks c rows).chunksOf v) : r ∈ c.chunksOf v ∨ r ∈ rows := by
  obtain ⟨hr, hv⟩ := Collection.mem_chunksOf.mp h
  rcases Table.mem_of_insertMissing hr with hold | hnew
  · exact Or.inl (Collection.mem_chunksOf.mpr ⟨hold, hv⟩)
  · exact Or.inr hnew

theorem holds_writeChunks {rows : List ChunkRow} {v : Nat} {id : String}
    (hrows : ∀ r ∈ rows, r.buildVersion = v) :
    Holds (writeChunks c rows) v id ↔ Holds c v id ∨ ∃ r ∈ rows, r.canonicalId = id := by
  constructor
  · rintro ⟨r, hr, hid⟩
    rcases mem_writeChunks hr with hold | hnew
    · exact Or.inl ⟨r, hold, hid⟩
    · exact Or.inr ⟨r, hnew, hid⟩
  · rintro (⟨r, hr, hid⟩ | ⟨r, hr, hid⟩)
    · obtain ⟨hr, hv⟩ := Collection.mem_chunksOf.mp hr
      exact ⟨r, Collection.mem_chunksOf.mpr ⟨Table.mem_insertMissing rows hr, hv⟩, hid⟩
    · obtain ⟨r', hr', hkey⟩ := Table.mem_keys.mp (Table.key_insertMissing (t := c.chunks) hr)
      obtain ⟨hid', hv'⟩ := Prod.mk.inj hkey
      exact ⟨r', Collection.mem_chunksOf.mpr ⟨hr', hv'.trans (hrows r hr)⟩, hid'.trans hid⟩

theorem mem_passages {objects : String → Option Bytes} {d : DocumentRow} {id : String} :
    id ∈ passages env objects d ↔ ∃ chunks, readDocument env objects d = .ok chunks ∧
      ∃ chunk ∈ chunks, chunk.canonicalId = id := by
  unfold passages
  cases readDocument env objects d with
  | error reason => simp
  | ok chunks => simp

theorem mem_prepare {objects : String → Option Bytes} {pending : List DocumentRow} {p : Prepared} :
    p ∈ prepare env objects pending ↔
      ∃ d ∈ pending, ∃ chunks, readDocument env objects d = .ok chunks ∧
      ∃ chunk ∈ chunks, ⟨d.id, d.filename, chunk⟩ = p := by
  rw [prepare, List.mem_flatMap]
  refine exists_congr (fun d => and_congr_right (fun _ => ?_))
  cases readDocument env objects d with
  | error reason => simp
  | ok chunks => simp

/-- The rows of an ingest carry the documents and ids of what was prepared. -/
theorem map_ingestedRows (env : ReindexEnv) (version exec : Nat) {flat : List Prepared}
    {vectors : List (List ℚ)} (h : vectors.length = flat.length) :
    (ingestedRows env version exec flat vectors).map (fun r => (r.documentId, r.canonicalId)) =
      flat.map (fun p => (p.documentId, p.chunk.canonicalId)) := by
  induction flat generalizing vectors with
  | nil => simp [ingestedRows]
  | cons p flat ih =>
    cases vectors with
    | nil => cases h
    | cons vector vectors =>
      have hrest := ih (Nat.succ.inj h)
      simp only [ingestedRows] at hrest
      simp only [ingestedRows, List.zipWith_cons_cons, List.map_cons, hrest]
      rfl

variable {embed : Embed}

/-- What an ingest adds: the passages of the pending documents, under these documents. -/
theorem mem_ingestedRows (hknown : c.ChunksKnown)
    (hembed : ∀ texts, (embed texts).length = texts.length) {document : Uuid} {id : String} :
    (∃ r ∈ ingestedRows env (c.maxVersion + 1) exec (freshChunks env c lib exec runId)
      (embedAll embed (freshChunks env c lib exec runId)),
      r.documentId = document ∧ r.canonicalId = id) ↔
      ∃ d ∈ lib.currentOf env.collection, (∀ v ∈ c.liveVersion, ¬ Owns c v d) ∧ d.id = document ∧
      id ∈ passages env lib.objects d := by
  have hmap :=
    map_ingestedRows env (c.maxVersion + 1) exec
      (length_embedAll hembed (freshChunks env c lib exec runId))
  have hrows : (∃ r ∈ ingestedRows env (c.maxVersion + 1) exec (freshChunks env c lib exec runId)
      (embedAll embed (freshChunks env c lib exec runId)),
      r.documentId = document ∧ r.canonicalId = id) ↔
      (document, id) ∈ (freshChunks env c lib exec runId).map
      (fun p => (p.documentId, p.chunk.canonicalId)) := by
    rw [← hmap]
    simp only [List.mem_map, Prod.mk.injEq]
  rw [hrows, List.mem_map]
  constructor
  · rintro ⟨p, hp, heq⟩
    obtain ⟨d, hd, chunks, hread, chunk, hchunk, rfl⟩ := mem_prepare.mp hp
    obtain ⟨rfl, rfl⟩ := Prod.mk.inj heq
    obtain ⟨hcurrent, hnone⟩ := (mem_pendingDocuments hknown).mp hd
    exact ⟨d, hcurrent, hnone, rfl, mem_passages.mpr ⟨chunks, hread, chunk, hchunk, rfl⟩⟩
  · rintro ⟨d, hcurrent, hnone, rfl, hid⟩
    obtain ⟨chunks, hread, chunk, hchunk, rfl⟩ := mem_passages.mp hid
    have hd : d ∈ pendingDocuments (copiedBuild c lib exec runId) lib env.collection
        (c.maxVersion + 1) :=
      (mem_pendingDocuments hknown).mpr ⟨hcurrent, hnone⟩
    exact ⟨_, mem_prepare.mpr ⟨d, hd, chunks, hread, chunk, hchunk, rfl⟩, rfl⟩

/-- The ids of the new build: those whose owner is current, and the passages of the current
documents that own nothing. -/
theorem holds_ingestedBuild (hknown : c.ChunksKnown)
    (hembed : ∀ texts, (embed texts).length = texts.length) {id : String} :
    Holds (ingestedBuild env c lib exec runId embed) (c.maxVersion + 1) id ↔
      (∃ v ∈ c.liveVersion, ∃ r ∈ c.chunksOf v, ownerCurrent lib r ∧ r.canonicalId = id) ∨
      ∃ d ∈ lib.currentOf env.collection, (∀ v ∈ c.liveVersion, ¬ Owns c v d) ∧
      id ∈ passages env lib.objects d := by
  refine (holds_writeChunks (fun r hr => (ingestedRows_spec hr).1)).trans (or_congr ?_ ?_)
  · constructor
    · rintro ⟨r, hr, hid⟩
      obtain ⟨v, hv, r₀, hr₀, howner, rfl⟩ := mem_copiedRows.mp ((mem_copiedBuild hknown).mp hr)
      exact ⟨v, hv, r₀, hr₀, howner, hid⟩
    · rintro ⟨v, hv, r, hr, howner, hid⟩
      exact ⟨_, (mem_copiedBuild hknown).mpr (mem_copiedRows.mpr ⟨v, hv, r, hr, howner, rfl⟩), hid⟩
  · constructor
    · rintro ⟨r, hr, hid⟩
      obtain ⟨d, hd, hnone, -, hmem⟩ := (mem_ingestedRows hknown hembed).mp ⟨r, hr, rfl, hid⟩
      exact ⟨d, hd, hnone, hmem⟩
    · rintro ⟨d, hd, hnone, hmem⟩
      obtain ⟨r, hr, -, hid⟩ := (mem_ingestedRows hknown hembed).mpr ⟨d, hd, hnone, rfl, hmem⟩
      exact ⟨r, hr, hid⟩

theorem chunksKnown_copiedBuild (hknown : c.ChunksKnown) :
    (copiedBuild c lib exec runId).ChunksKnown := by
  refine chunksKnown_writeChunks (hknown.begin exec runId) ?_
  intro r hr
  rw [(copiedRows_spec hr).1]
  exact c.mem_keys_begin exec runId

theorem chunksKnown_ingestedBuild (hknown : c.ChunksKnown) :
    (ingestedBuild env c lib exec runId embed).ChunksKnown := by
  refine chunksKnown_writeChunks (chunksKnown_copiedBuild hknown) ?_
  intro r hr
  rw [(ingestedRows_spec hr).1]
  exact c.mem_keys_begin exec runId

/-- Every other build is as it was. -/
theorem chunksOf_copiedBuild {v : Nat} (hv : v ≠ c.maxVersion + 1) :
    (copiedBuild c lib exec runId).chunksOf v = c.chunksOf v := by
  refine chunksOf_writeChunks ?_
  intro r hr
  rw [(copiedRows_spec hr).1]
  exact hv.symm

theorem chunksOf_ingestedBuild {v : Nat} (hv : v ≠ c.maxVersion + 1) :
    (ingestedBuild env c lib exec runId embed).chunksOf v = c.chunksOf v := by
  refine (chunksOf_writeChunks ?_).trans (chunksOf_copiedBuild hv)
  intro r hr
  rw [(ingestedRows_spec hr).1]
  exact hv.symm

/-- An execution that promotes serves what it ingested; one that does not leaves the live
build as it was. -/
theorem runReindex_cases (env : ReindexEnv) (lib : Library) (exec : Nat) (runId : Option Uuid)
    (embed : Embed) (now : Time) (hknown : c.ChunksKnown) :
    (runReindex env c lib exec runId embed now).1.ChunksKnown ∧
      (((runReindex env c lib exec runId embed now).2 = .promoted ∧
        (runReindex env c lib exec runId embed now).1.liveVersion = some (c.maxVersion + 1) ∧
        (runReindex env c lib exec runId embed now).1.chunksOf (c.maxVersion + 1) =
        (ingestedBuild env c lib exec runId embed).chunksOf (c.maxVersion + 1)) ∨
        ((runReindex env c lib exec runId embed now).2 = .unpromoted ∧
        (runReindex env c lib exec runId embed now).1.liveVersion = c.liveVersion ∧
        ∀ v ∈ c.liveVersion, (runReindex env c lib exec runId embed now).1.chunksOf v =
        c.chunksOf v)) := by
  have hfresh : ∀ v ∈ c.liveVersion, v ≠ c.maxVersion + 1 := by
    intro v hv hsame
    obtain ⟨b, hb, -, rfl⟩ := Collection.liveVersion_eq_some.mp hv
    exact c.succ_maxVersion_fresh (hsame ▸ Table.key_mem_keys hb)
  have hlive := c.liveVersion_begin exec runId
  unfold runReindex
  simp only
  split
  · split
    · rename_i c' count hpromote
      have hv : c'.liveVersion = some (c.maxVersion + 1) :=
        (Collection.liveVersion_promote hpromote).trans (if_pos (c.mem_keys_begin exec runId))
      refine ⟨((chunksKnown_ingestedBuild hknown).promote hpromote).reap, Or.inl ⟨rfl, ?_, ?_⟩⟩
      · exact c'.liveVersion_reap.trans hv
      · rw [Collection.chunksOf_reap c' ((Collection.spares_iff hv).mpr (Or.inl rfl)),
          Collection.chunksOf, (Collection.promote_builds hpromote).2.1, Collection.chunksOf]
    · rename_i text hpromote
      refine ⟨(chunksKnown_ingestedBuild hknown).fail _ text, Or.inr ⟨rfl, ?_, ?_⟩⟩
      · exact (Collection.liveVersion_fail _ _ text).trans hlive
      · intro v hv
        exact (Collection.chunksOf_fail _ _ text (hfresh v hv)).trans
          (chunksOf_ingestedBuild (hfresh v hv))
  · refine ⟨(chunksKnown_copiedBuild hknown).fail _ _, Or.inr ⟨rfl, ?_, ?_⟩⟩
    · exact (Collection.liveVersion_fail _ _ _).trans hlive
    · intro v hv
      exact (Collection.chunksOf_fail _ _ _ (hfresh v hv)).trans
        (chunksOf_copiedBuild (hfresh v hv))

end

/-! ## Histories -/

/-- An embedding service that returns one vector per text. -/
abbrev Embedder := { embed : Embed // ∀ texts, (embed texts).length = texts.length }

structure CorpusState where
  collection : Collection
  library : Library

def CorpusState.init (lib : Library) : CorpusState := ⟨.empty, lib⟩

inductive CorpusAct where
  | create (u : Upload) (q : DocumentCreate) (storeUp : Bool)
  | delete (id : Uuid) (now : Time)
  | reindex (exec : Nat) (runId : Option Uuid) (embed : Embedder) (now : Time)

def corpusStep (env : ReindexEnv) (s : CorpusState) : CorpusAct → Option CorpusState
  | .create u q storeUp =>
    (s.library.createDocument env.documents u q storeUp).map (fun r => { s with library := r.1 })
  | .delete id now => (s.library.deleteDocument id now).map (fun r => { s with library := r.1 })
  | .reindex exec runId embed now =>
    some { s with collection := (runReindex env s.collection s.library exec runId embed.1 now).1 }

/-- The execution a reindex is given. -/
def CorpusAct.exec : CorpusAct → Option Nat
  | .reindex exec _ _ _ => some exec
  | _ => none

/-- A history whose reindexes are different executions is a run of the interleaved system
in which they do not overlap. -/
theorem history_leads {env : ReindexEnv} {s t : CorpusState} {acts : List CorpusAct}
    {execs : Nat → Phase} (hrun : Reaches (corpusStep env) s acts t)
    (hdistinct : (acts.filterMap CorpusAct.exec).Nodup)
    (hidle : ∀ e ∈ acts.filterMap CorpusAct.exec, execs e = .idle) :
    ∃ execs', Leads (reindexStep env) ⟨s.collection, s.library, execs⟩
      ⟨t.collection, t.library, execs'⟩ := by
  induction acts generalizing s execs with
  | nil =>
    cases reaches_nil.mp hrun
    exact ⟨execs, Leads.refl _ _⟩
  | cons a acts ih =>
    obtain ⟨m, hm, hrest⟩ := reaches_cons.mp hrun
    cases a with
    | create u q storeUp =>
      obtain ⟨r, hcreate, rfl⟩ := Option.map_eq_some_iff.mp hm
      obtain ⟨execs', hleads⟩ := ih hrest hdistinct hidle
      refine ⟨execs',
        Leads.trans ⟨[.create u q storeUp], reaches_cons.mpr ⟨_, ?_, .nil _ _⟩⟩ hleads⟩
      simp only [reindexStep, hcreate, Option.map_some]
    | delete id now =>
      obtain ⟨r, hdelete, rfl⟩ := Option.map_eq_some_iff.mp hm
      obtain ⟨execs', hleads⟩ := ih hrest hdistinct hidle
      refine ⟨execs', Leads.trans ⟨[.delete id now], reaches_cons.mpr ⟨_, ?_, .nil _ _⟩⟩ hleads⟩
      simp only [reindexStep, hdelete, Option.map_some]
    | reindex exec runId embed now =>
      cases hm
      obtain ⟨hnew, hdistinct⟩ := List.nodup_cons.mp hdistinct
      have hleads := runReindex_leads env ⟨s.collection, s.library, execs⟩ exec runId embed.1 now
        (hidle exec List.mem_cons_self)
      have hidle' : ∀ e ∈ acts.filterMap CorpusAct.exec,
          Function.update execs exec (.ended
            (runReindex env s.collection s.library exec runId embed.1 now).2) e = .idle := by
        intro e he
        have hne : e ≠ exec := fun hsame => hnew (hsame ▸ he)
        rw [Function.update_of_ne hne]
        exact hidle e (List.mem_cons_of_mem _ he)
      obtain ⟨execs', hrestLeads⟩ := ih hrest hdistinct hidle'
      exact ⟨execs', hleads.trans hrestLeads⟩

/-- A current document of the collection contains the passage. -/
def Contained (env : ReindexEnv) (lib : Library) (id : String) : Prop :=
  ∃ d ∈ lib.currentOf env.collection, id ∈ passages env lib.objects d

instance (env : ReindexEnv) (lib : Library) (id : String) : Decidable (Contained env lib id) :=
  inferInstanceAs (Decidable (∃ d ∈ lib.currentOf env.collection, _))

/-- The live build holds what the current documents contain, and nothing else. -/
def Exact (env : ReindexEnv) (s : CorpusState) : Prop :=
  ∃ v, s.collection.liveVersion = some v ∧ ∀ id, Holds s.collection v id ↔
    Contained env s.library id

/-- A chunk of the live build that a current document shares, while it owns another one,
has a current owner, or a current document without a chunk contains it too. -/
def SharedKept (env : ReindexEnv) (s : CorpusState) : Prop :=
  ∀ v ∈ s.collection.liveVersion, ∀ r ∈ s.collection.chunksOf v,
    (∃ d ∈ s.library.currentOf env.collection,
      Owns s.collection v d ∧ r.canonicalId ∈ passages env s.library.objects d) →
    ownerCurrent s.library r ∨
      ∃ d ∈ s.library.currentOf env.collection,
        ¬ Owns s.collection v d ∧ r.canonicalId ∈ passages env s.library.objects d

instance (env : ReindexEnv) (s : CorpusState) : Decidable (SharedKept env s) :=
  inferInstanceAs (Decidable (∀ v ∈ s.collection.liveVersion, ∀ r ∈ s.collection.chunksOf v, _ → _))

def keepsShared (env : ReindexEnv) (s : CorpusState) : CorpusAct → Prop
  | .reindex .. => SharedKept env s
  | _ => True

instance (env : ReindexEnv) (s : CorpusState) : (a : CorpusAct) → Decidable (keepsShared env s a)
  | .reindex .. => inferInstanceAs (Decidable (SharedKept env s))
  | .create .. | .delete .. => isTrue trivial

/-- The owner of a live chunk contains it, and the live build holds all that the owner
contains. -/
structure CorpusInv (env : ReindexEnv) (s : CorpusState) : Prop where
  known : s.collection.ChunksKnown
  owned : ∀ v ∈ s.collection.liveVersion, ∀ r ∈ s.collection.chunksOf v,
    ∃ d ∈ s.library.documents.rows, d.id = r.documentId ∧ d.collection = env.collection ∧
    r.canonicalId ∈ passages env s.library.objects d ∧
    ∀ id ∈ passages env s.library.objects d, Holds s.collection v id

theorem corpusInv_init (env : ReindexEnv) (lib : Library) : CorpusInv env (.init lib) where
  known := by
    intro r hr
    cases hr
  owned := by
    intro v hv
    cases hv

section
variable {env : ReindexEnv} {s t : CorpusState} {lib lib' : Library}

/-- Objects are not taken back, and a row keeps its identity, its name and its bytes. -/
structure LibraryGrows (lib lib' : Library) : Prop where
  objects : ∀ key data, lib.objects key = some data → lib'.objects key = some data
  rows : ∀ d ∈ lib.documents.rows, ∃ d' ∈ lib'.documents.rows, d'.id = d.id ∧
    d'.collection = d.collection ∧ d'.filename = d.filename ∧ d'.storageKey = d.storageKey

theorem libraryGrows_create {u : Upload} {q : DocumentCreate} {storeUp : Bool}
    {res : Except HttpError CreateOutcome}
    (h : lib.createDocument env.documents u q storeUp = some (lib', res)) :
    LibraryGrows lib lib' := by
  rcases createDocument_cases h with ⟨rfl, -⟩ | ⟨suffix, content, -, hobjects, hcases⟩
  · exact ⟨fun _ _ h => h, fun d hd => ⟨d, hd, rfl, rfl, rfl, rfl⟩⟩
  · constructor
    · intro key data hdata
      rw [hobjects]
      exact putIfAbsent_of_some hdata
    · intro d hd
      rcases hcases with ⟨hdocs, -⟩ | ⟨replaced, -, -, hdocs⟩
      · exact ⟨d, hdocs ▸ hd, rfl, rfl, rfl, rfl⟩
      · refine ⟨_, ?_, afterUpload_same u.now (newDocument env.documents u q suffix content) d⟩
        rw [hdocs]
        exact List.mem_append_left _ (List.mem_map_of_mem hd)

theorem libraryGrows_delete {id : Uuid} {now : Time} {d : DocumentRow}
    (h : lib.deleteDocument id now = some (lib', d)) : LibraryGrows lib lib' := by
  obtain ⟨-, hobjects, hdocs⟩ := deleteDocument_eq_some h
  constructor
  · intro key data hdata
    rw [hobjects]
    exact hdata
  · intro a ha
    refine ⟨_, ?_, afterDelete_same id now a⟩
    rw [hdocs]
    exact List.mem_map_of_mem ha

theorem readDocument_grows {objects objects' : String → Option Bytes} {d d' : DocumentRow}
    {chunks : List Chunk}
    (hobjects : ∀ key data, objects key = some data → objects' key = some data)
    (hname : d'.filename = d.filename) (hkey : d'.storageKey = d.storageKey)
    (h : readDocument env objects d = .ok chunks) : readDocument env objects' d' = .ok chunks := by
  unfold readDocument at h ⊢
  rw [hname, hkey]
  split at h
  · cases h
  · rename_i hne
    rw [if_neg hne]
    cases hdata : objects d.storageKey with
    | none => simp [hdata] at h
    | some data =>
      rw [hdata] at h
      rw [hobjects _ _ hdata]
      exact h

/-- A document that contains something contains the same later. -/
theorem passages_grows (h : LibraryGrows lib lib') {d d' : DocumentRow} {id : String}
    (hid : id ∈ passages env lib.objects d) (hname : d'.filename = d.filename)
    (hkey : d'.storageKey = d.storageKey) :
    passages env lib'.objects d' = passages env lib.objects d := by
  obtain ⟨chunks, hread, -⟩ := mem_passages.mp hid
  rw [passages, passages, hread, readDocument_grows h.objects hname hkey hread]

theorem corpusInv_grows (h : LibraryGrows s.library lib') (hs : CorpusInv env s) :
    CorpusInv env { s with library := lib' } := by
  refine ⟨hs.known, ?_⟩
  intro v hv r hr
  obtain ⟨d, hd, hid, hcollection, hmem, hall⟩ := hs.owned v hv r hr
  obtain ⟨d', hd', hid', hcollection', hname, hkey⟩ := h.rows d hd
  have hsame := passages_grows h hmem hname hkey
  exact ⟨d', hd', hid'.trans hid, hcollection'.trans hcollection, hsame ▸ hmem, hsame ▸ hall⟩

variable {exec : Nat} {runId : Option Uuid} {embed : Embedder} {now : Time}

/-- Every chunk of the new build is contained in its owner, which is current. -/
theorem owner_ingestedBuild (hs : CorpusInv env s) {r : ChunkRow}
    (hr : r ∈ (ingestedBuild env s.collection s.library exec runId embed.1).chunksOf
      (s.collection.maxVersion + 1)) :
    ∃ d ∈ s.library.currentOf env.collection, d.id = r.documentId ∧
      r.canonicalId ∈ passages env s.library.objects d := by
  rcases mem_writeChunks hr with hcopied | hnew
  · obtain ⟨v, hv, r₀, hr₀, ⟨d, hd, hid, hcurrent⟩, rfl⟩ :=
      mem_copiedRows.mp ((mem_copiedBuild hs.known).mp hcopied)
    obtain ⟨d₀, hd₀, hid₀, hcollection, hmem, -⟩ := hs.owned v hv r₀ hr₀
    have hsame : d₀ = d := Table.eq_of_key hd₀ hd (hid₀.trans hid.symm)
    subst hsame
    exact ⟨d₀, mem_currentOf.mpr ⟨hd, hcollection, hcurrent⟩, hid, hmem⟩
  · obtain ⟨d, hd, -, hid, hmem⟩ := (mem_ingestedRows hs.known embed.2).mp ⟨r, hnew, rfl, rfl⟩
    exact ⟨d, hd, hid, hmem⟩

/-- The new build holds what the current documents contain exactly when no shared passage
is left out. -/
theorem ingestedBuild_exact_iff (hs : CorpusInv env s) :
    (∀ id, Holds (ingestedBuild env s.collection s.library exec runId embed.1)
      (s.collection.maxVersion + 1) id ↔ Contained env s.library id) ↔ SharedKept env s := by
  have hholds : ∀ id, Holds (ingestedBuild env s.collection s.library exec runId embed.1)
      (s.collection.maxVersion + 1) id ↔ _ := fun id => holds_ingestedBuild hs.known embed.2
  constructor
  · rintro hexact v hv r hr ⟨d, hd, -, hmem⟩
    rcases (hholds _).mp ((hexact r.canonicalId).mpr ⟨d, hd, hmem⟩) with
      ⟨v', hv', r', hr', howner, hid⟩ | ⟨d', hd', hnone, hmem'⟩
    · cases Option.some.inj (hv.symm.trans hv')
      obtain ⟨hr, hrv⟩ := Collection.mem_chunksOf.mp hr
      obtain ⟨hr', hrv'⟩ := Collection.mem_chunksOf.mp hr'
      have hsame : r' = r := Table.eq_of_key hr' hr (Prod.ext hid (hrv'.trans hrv.symm))
      exact Or.inl (hsame ▸ howner)
    · exact Or.inr ⟨d', hd', hnone v hv, hmem'⟩
  · intro hshared id
    constructor
    · rintro ⟨r, hr, rfl⟩
      obtain ⟨d, hd, -, hmem⟩ := owner_ingestedBuild hs hr
      exact ⟨d, hd, hmem⟩
    · rintro ⟨d, hd, hmem⟩
      refine (hholds id).mpr ?_
      by_cases howns : ∃ v ∈ s.collection.liveVersion, Owns s.collection v d
      · -- The owner of some live chunk: all it contains is in the live build, so the
        -- condition says where each passage comes from.
        obtain ⟨v, hv, r₀, hr₀, hown⟩ := howns
        obtain ⟨d₀, hd₀, hid₀, -, -, hall⟩ := hs.owned v hv r₀ hr₀
        have hsame : d₀ = d := Table.eq_of_key hd₀ (mem_currentOf.mp hd).1 (hid₀.trans hown)
        subst hsame
        obtain ⟨r, hr, rfl⟩ := hall id hmem
        rcases hshared v hv r hr ⟨d₀, hd, ⟨r₀, hr₀, hown⟩, hmem⟩ with howner |
          ⟨d', hd', hnone, hmem'⟩
        · exact Or.inl ⟨v, hv, r, hr, howner, rfl⟩
        · refine Or.inr ⟨d', hd', ?_, hmem'⟩
          intro v' hv'
          cases Option.some.inj (hv.symm.trans hv')
          exact hnone
      · exact Or.inr ⟨d, hd, fun v hv hown => howns ⟨v, hv, hown⟩, hmem⟩

theorem corpusInv_reindex (hs : CorpusInv env s) (hshared : SharedKept env s) :
    CorpusInv env { s with
      collection := (runReindex env s.collection s.library exec runId embed.1 now).1 } := by
  obtain ⟨hknown, ⟨-, hlive, hchunks⟩ | ⟨-, hlive, hchunks⟩⟩ :=
    runReindex_cases env s.library exec runId embed.1 now hs.known
  · refine ⟨hknown, ?_⟩
    intro v hv r hr
    cases Option.some.inj (hlive.symm.trans hv)
    have hr : r ∈ (runReindex env s.collection s.library exec runId embed.1 now).1.chunksOf _ := hr
    rw [hchunks] at hr
    obtain ⟨d, hd, hid, hmem⟩ := owner_ingestedBuild hs hr
    obtain ⟨hrow, hcollection, -⟩ := mem_currentOf.mp hd
    refine ⟨d, hrow, hid, hcollection, hmem, ?_⟩
    intro id hcontained
    obtain ⟨r', hr', hid'⟩ := ((ingestedBuild_exact_iff hs).mpr hshared id).mpr ⟨d, hd, hcontained⟩
    exact ⟨r', hchunks ▸ hr', hid'⟩
  · refine ⟨hknown, ?_⟩
    intro v hv r hr
    have hv : v ∈ s.collection.liveVersion := hlive.symm.trans hv
    have hr : r ∈ (runReindex env s.collection s.library exec runId embed.1 now).1.chunksOf v := hr
    rw [hchunks v hv] at hr
    obtain ⟨d, hrow, hid, hcollection, hmem, hall⟩ := hs.owned v hv r hr
    refine ⟨d, hrow, hid, hcollection, hmem, ?_⟩
    intro id hcontained
    obtain ⟨r', hr', hid'⟩ := hall id hcontained
    exact ⟨r', (hchunks v hv).symm ▸ hr', hid'⟩

theorem corpusInv_step {a : CorpusAct}
    (h : restrict (keepsShared env) (corpusStep env) s a = some t) (hs : CorpusInv env s) :
    CorpusInv env t := by
  obtain ⟨hcond, hstep⟩ := restrict_eq_some.mp h
  cases a with
  | create u q storeUp =>
    obtain ⟨r, hcreate, rfl⟩ := Option.map_eq_some_iff.mp hstep
    exact corpusInv_grows (libraryGrows_create hcreate) hs
  | delete id now =>
    obtain ⟨r, hdelete, rfl⟩ := Option.map_eq_some_iff.mp hstep
    exact corpusInv_grows (libraryGrows_delete hdelete) hs
  | reindex exec runId embed now =>
    cases hstep
    exact corpusInv_reindex hs hcond

/-- After every history whose reindexes met the condition, a reindex that promotes serves
exactly what the current documents contain if and only if it meets the condition too. -/
theorem reindex_exact_iff {lib : Library} {acts : List CorpusAct}
    (hrun : Reaches (restrict (keepsShared env) (corpusStep env)) (.init lib) acts s)
    (hpromoted : (runReindex env s.collection s.library exec runId embed.1 now).2 = .promoted)
    (hstep : corpusStep env s (.reindex exec runId embed now) = some t) :
    Exact env t ↔ SharedKept env s := by
  have hs : CorpusInv env s :=
    hrun.invariant (fun _ _ _ hs h => corpusInv_step h hs) (corpusInv_init env lib)
  have hiff : (∀ id, Holds (ingestedBuild env s.collection s.library exec runId embed.1)
      (s.collection.maxVersion + 1) id ↔ Contained env s.library id) ↔ SharedKept env s :=
    ingestedBuild_exact_iff hs
  cases hstep
  obtain ⟨-, ⟨-, hlive, hchunks⟩ | ⟨hunpromoted, -⟩⟩ :=
    runReindex_cases env s.library exec runId embed.1 now hs.known
  · rw [← hiff]
    constructor
    · rintro ⟨v, hv, hexact⟩
      cases Option.some.inj (hlive.symm.trans hv)
      intro id
      have hserved := hexact id
      rw [Holds, hchunks] at hserved
      exact hserved
    · intro hexact
      refine ⟨_, hlive, ?_⟩
      intro id
      rw [Holds, hchunks]
      exact hexact id
  · rw [hpromoted] at hunpromoted
    cases hunpromoted

end

/-! ## Two manuals that share a section -/

def sharedChunk : Chunk := ⟨"c_84ac2216da3d244a", 0, "P\n\nshared", some "P"⟩

def otherChunk : Chunk := ⟨"c_02700d434ae10872", 1, "Q\n\nother", some "Q"⟩

/-- The file a.md: a heading P over one line. -/
def firstManual : Bytes := [35, 32, 80, 10, 10, 115, 104, 97, 114, 101, 100, 10]

/-- The file b.md: the same section, and a heading Q over another line. -/
def secondManual : Bytes := firstManual ++ [10, 35, 32, 81, 10, 10, 111, 116, 104, 101, 114, 10]

def manualsEnv : ReindexEnv where
  collection := "manuals"
  chunkDocument :=
    fun filename _ => .ok (if filename = "a.md" then [sharedChunk] else [sharedChunk, otherChunk])
  embeddingModel := "text-embedding-3-small"
  documents :=
    { sha256 := fun content =>
        if content = firstManual then
          "c870ccf5794e55ee18af417116966405bb8a1256dedf88ad943e88024cfcb0d2"
        else "1156c1113155d56459e2bb7fb8b9a9b21408cddb3d703a0f3758507f81319305"
      uuidText := Nat.repr }

def manualUpload (filename : String) (content : Bytes)
    (h : 1 ≤ filename.toList.length ∧ filename.toList.length ≤ 512) : DocumentCreate where
  collection := "manuals"
  filename := filename
  content := some content
  collection_valid := isCollectionName_manuals
  filename_valid := h

def manualEmbedder : Embedder := ⟨helloEmbed, by simp [helloEmbed]⟩

/-- Both manuals are uploaded and indexed: the section is owned by the first one. -/
def manualsIndexed : List CorpusAct :=
  [.create ⟨7, 2, 1, 0⟩ (manualUpload "a.md" firstManual (by decide +kernel)) true,
   .create ⟨7, 2, 2, 1⟩ (manualUpload "b.md" secondManual (by decide +kernel)) true,
   .reindex 0 none manualEmbedder 2]

def secondWithdrawn : List CorpusAct := manualsIndexed ++ [.delete 2 3]

theorem secondWithdrawn_run :
    (secondWithdrawn.foldlM (restrict (keepsShared manualsEnv) (corpusStep manualsEnv))
      (.init .empty)).isSome = true := by
  decide +kernel

/-- Without the second manual the section stays with its owner. -/
theorem reindex_exact_secondWithdrawn :
    ∃ s t, Reaches (restrict (keepsShared manualsEnv) (corpusStep manualsEnv)) (.init .empty)
      secondWithdrawn s ∧
      corpusStep manualsEnv s (.reindex 1 none manualEmbedder 4) = some t ∧
      t.collection.liveVersion = some 2 ∧ Exact manualsEnv t := by
  have hrun := reaches_get secondWithdrawn_run
  refine ⟨_, _, hrun, rfl, by decide +kernel, ?_⟩
  exact (reindex_exact_iff hrun (by decide +kernel) rfl).mpr (by decide +kernel)

def firstWithdrawn : List CorpusAct := manualsIndexed ++ [.delete 1 3]

theorem firstWithdrawn_run :
    (firstWithdrawn.foldlM (restrict (keepsShared manualsEnv) (corpusStep manualsEnv))
      (.init .empty)).isSome = true := by
  decide +kernel

/-- Without the first manual the section is neither copied nor ingested, although the
second one, which is current, contains it. -/
theorem shared_section_lost : ∃ s t,
    Reaches (restrict (keepsShared manualsEnv) (corpusStep manualsEnv)) (.init .empty)
      firstWithdrawn s ∧
    corpusStep manualsEnv s (.reindex 1 none manualEmbedder 4) = some t ∧
    (runReindex manualsEnv s.collection s.library 1 none manualEmbedder.1 4).2 = .promoted ∧
    t.collection.liveVersion = some 2 ∧ Contained manualsEnv t.library sharedChunk.canonicalId ∧
    ¬ Holds t.collection 2 sharedChunk.canonicalId ∧ ¬ Exact manualsEnv t := by
  have hrun := reaches_get firstWithdrawn_run
  refine ⟨_, _, hrun,
    rfl, by decide +kernel, by decide +kernel, by decide +kernel, by decide +kernel, ?_⟩
  rintro ⟨v, hv, hexact⟩
  have hcontained := (hexact sharedChunk.canonicalId).mpr (by decide +kernel)
  cases Option.some.inj (hv.symm.trans (by decide +kernel : _ = some 2))
  revert hcontained
  decide +kernel

end AgenticPlatform.Workloads
