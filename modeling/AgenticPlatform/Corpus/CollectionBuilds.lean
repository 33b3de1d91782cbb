import AgenticPlatform.Corpus.Builds
import AgenticPlatform.Corpus.Documents
import AgenticPlatform.Foundation.Partitions
import Mathlib.Data.Prod.Lex

/-!
# The migration to builds

Before it a file may have several document rows, and no read looks at the build of a chunk.
The earliest row of each file comes to own the chunks of all of them, the others are deleted
with whatever they still own, and every collection that has chunks gets a live build. A
constraint that fails undoes all of it. The unique constraints on content are left out: no
statement writes one of their columns.
-/
namespace AgenticPlatform.Corpus
open AgenticPlatform.Foundation AgenticPlatform.Identity

/-! ## The tables, of all tenants -/

/-- A row of `document` without the columns that are added. -/
structure PlainDocument where
  id : Uuid
  tenantId : Uuid
  workload : String
  collection : String
  filename : String
  contentSha256 : String
  byteSize : Nat
  storageKey : String
  uploadedBy : Option Uuid
  createdAt : Time

structure TenantDocument extends DocumentRow where
  tenantId : Uuid
  workload : String

structure TenantChunk where
  id : Uuid
  tenantId : Uuid
  documentId : Uuid
  collection : String
  canonicalId : String
  ordinal : Nat
  buildVersion : Nat
  text : String
  /-- The column `meta`. -/
  metadata : Json
  embedding : Option (List ℚ)
  embeddingModel : Option String
  createdAt : Time

structure TenantBuild where
  tenantId : Uuid
  collection : String
  buildVersion : Nat
  status : BuildStatus
  corpusFingerprint : Option String
  chunkCount : Nat
  runId : Option Uuid
  error : Option String
  createdAt : Time
  promotedAt : Option Time

/-- What identifies a document from now on. -/
abbrev FileKey := Uuid × String × String

def PlainDocument.file (d : PlainDocument) : FileKey := (d.tenantId, d.collection, d.filename)
def TenantDocument.file (d : TenantDocument) : FileKey := (d.tenantId, d.collection, d.filename)

def TenantChunk.key (c : TenantChunk) : Uuid × Uuid := (c.id, c.tenantId)
def TenantChunk.place (c : TenantChunk) : Uuid × String := (c.tenantId, c.collection)

def TenantBuild.key (b : TenantBuild) : Uuid × String × Nat :=
  (b.tenantId, b.collection, b.buildVersion)

def TenantBuild.place (b : TenantBuild) : Uuid × String := (b.tenantId, b.collection)

abbrev TenantDocumentTable := Table TenantDocument (fun d => d.id)
abbrev TenantChunkTable := Table TenantChunk TenantChunk.key
abbrev TenantBuildTable := Table TenantBuild TenantBuild.key

/-- Before the migration: every chunk is of build 1 and has a document. -/
structure PlainCorpus where
  documents : Table PlainDocument PlainDocument.id
  chunks : TenantChunkTable
  owned : ∀ c ∈ chunks.rows, ∃ d ∈ documents.rows, d.id = c.documentId
  first_build : ∀ c ∈ chunks.rows, c.buildVersion = 1

/-- After it, with the foreign key and the two partial unique indexes. -/
structure BuiltCorpus where
  documents : TenantDocumentTable
  chunks : TenantChunkTable
  builds : TenantBuildTable
  owned : ∀ c ∈ chunks.rows, ∃ d ∈ documents.rows, d.id = c.documentId
  one_current : ∀ a ∈ documents.rows, ∀ b ∈ documents.rows, a.current → b.current →
    a.file = b.file → a = b
  one_live : ∀ a ∈ builds.rows, ∀ b ∈ builds.rows, a.status = .live → b.status = .live →
    a.place = b.place → a = b

/-- What a read of the collection finds before the migration. -/
def PlainCorpus.readable (s : PlainCorpus) (place : Uuid × String) : List TenantChunk :=
  s.chunks.rows.filter (fun c => c.place = place)

def BuiltCorpus.liveVersion (t : BuiltCorpus) (place : Uuid × String) : Option Nat :=
  (t.builds.rows.find? (fun b => b.place = place ∧ b.status = .live)).map TenantBuild.buildVersion

/-- What a read of the collection finds after it. -/
def BuiltCorpus.readable (t : BuiltCorpus) (place : Uuid × String) : List TenantChunk :=
  match t.liveVersion place with
  | none => []
  | some v => t.chunks.rows.filter (fun c => c.place = place ∧ c.buildVersion = v)

/-! ## The statements -/

def PlainDocument.withSuperseded (d : PlainDocument) : TenantDocument where
  id := d.id
  collection := d.collection
  filename := d.filename
  contentSha256 := d.contentSha256
  byteSize := d.byteSize
  storageKey := d.storageKey
  uploadedBy := d.uploadedBy
  createdAt := d.createdAt
  supersededAt := none
  supersededBy := none
  tenantId := d.tenantId
  workload := d.workload

/-- The two tables that are repaired. -/
structure Repair where
  documents : TenantDocumentTable
  chunks : TenantChunkTable

/-- ORDER BY created_at, id. -/
def TenantDocument.age (d : TenantDocument) : ℚ ×ₗ ℕ := toLex (d.createdAt, d.id)

namespace Repair

/-- The foreign key of the chunks. -/
abbrev Owned (r : Repair) : Prop := ∀ c ∈ r.chunks.rows, ∃ d ∈ r.documents.rows, d.id = c.documentId

/-- `first_value(id) OVER (PARTITION BY tenant_id, collection, filename ORDER BY created_at,
id)`. -/
def keeper (r : Repair) (d : TenantDocument) : Option TenantDocument :=
  firstOf TenantDocument.file TenantDocument.age r.documents.rows d

/-- The rows (id, keep_id) of `_RANKED`. -/
def ranked (r : Repair) : List (Uuid × Uuid) :=
  r.documents.rows.filterMap (fun d => (r.keeper d).map (fun first => (d.id, first.id)))

/-- Those with `r.id <> r.keep_id`. -/
def duplicates (r : Repair) : List (Uuid × Uuid) := r.ranked.filter (fun k => k.1 ≠ k.2)

def repointed (r : Repair) (c : TenantChunk) : TenantChunk :=
  match r.duplicates.find? (fun k => k.1 = c.documentId) with
  | some k => { c with documentId := k.2 }
  | none => c

theorem key_repointed (r : Repair) (c : TenantChunk) : (r.repointed c).key = c.key := by
  unfold repointed
  split <;> rfl

def repoint (r : Repair) : Repair :=
  { r with chunks := r.chunks.update r.repointed r.key_repointed }

def deletes (r : Repair) (d : TenantDocument) : Prop := ∃ k ∈ r.duplicates, k.1 = d.id

instance (r : Repair) (d : TenantDocument) : Decidable (r.deletes d) :=
  inferInstanceAs (Decidable (∃ k ∈ _, _))

/-- The foreign key of a chunk cascades. -/
def deleteDuplicates (r : Repair) : Repair where
  documents := r.documents.deleteWhere r.deletes
  chunks := r.chunks.deleteWhere
    (fun c => ∃ d ∈ r.documents.rows, r.deletes d ∧ d.id = c.documentId)

end Repair

def PlainCorpus.withSuperseded (s : PlainCorpus) : Repair where
  documents := s.documents.addColumns PlainDocument.withSuperseded (fun _ => rfl)
  chunks := s.chunks

/-- The row of a tenant's collection and the number of its chunks. -/
def backfillRow (now : Time) (g : (Uuid × String) × Nat) : TenantBuild where
  tenantId := g.1.1
  collection := g.1.2
  buildVersion := 1
  status := .live
  corpusFingerprint := none
  chunkCount := g.2
  runId := none
  error := none
  createdAt := now
  promotedAt := some now

def backfill (now : Time) (chunks : List TenantChunk) : List TenantBuild :=
  (groupCounts (chunks.map TenantChunk.place)).map (backfillRow now)

/-- The constraints and the builds; `none` where one of them fails. -/
def Repair.withBuilds (now : Time) (r : Repair) : Option BuiltCorpus :=
  if howned : r.Owned then
    if hcurrent : (∀ a ∈ r.documents.rows, ∀ b ∈ r.documents.rows, a.current → b.current →
        a.file = b.file → a.id = b.id) then
      match Table.empty.tryInsertAll (backfill now r.chunks.rows) with
      | none => none
      | some builds =>
        if hlive : (∀ a ∈ builds.rows, ∀ b ∈ builds.rows, a.status = .live → b.status = .live →
            a.place = b.place → a.key = b.key) then
          some ⟨r.documents, r.chunks, builds, howned,
            fun a ha b hb hacur hbcur hfile =>
            Table.eq_of_key ha hb (hcurrent a ha b hb hacur hbcur hfile),
            fun a ha b hb halive hblive hplace =>
            Table.eq_of_key ha hb (hlive a ha b hb halive hblive hplace)⟩
        else none
    else none
  else none

def upgrade (now : Time) (s : PlainCorpus) : Option BuiltCorpus :=
  s.withSuperseded.repoint.deleteDuplicates.withBuilds now

/-! ## The repair -/

namespace Repair

variable {r : Repair} {d first : TenantDocument} {c : TenantChunk}

theorem keeper_of_mem (hd : d ∈ r.documents.rows) : ∃ first, r.keeper d = some first :=
  firstOf_of_mem hd

theorem keeper_mem (h : r.keeper d = some first) : first ∈ r.documents.rows := (firstOf_eq_some h).1

theorem keeper_file (h : r.keeper d = some first) : first.file = d.file := (firstOf_eq_some h).2.1

theorem keeper_self (h : r.keeper d = some first) : r.keeper first = some first := firstOf_self h

theorem mem_ranked {k : Uuid × Uuid} :
    k ∈ r.ranked ↔ ∃ d ∈ r.documents.rows, ∃ first, r.keeper d = some first ∧
      k = (d.id, first.id) := by
  simp only [ranked, List.mem_filterMap, Option.map_eq_some_iff]
  constructor
  · rintro ⟨d, hd, first, hfirst, hk⟩
    exact ⟨d, hd, first, hfirst, hk.symm⟩
  · rintro ⟨d, hd, first, hfirst, hk⟩
    exact ⟨d, hd, first, hfirst, hk.symm⟩

/-- A document has one line in the ranking. -/
theorem ranked_of_mem (hd : d ∈ r.documents.rows) (hfirst : r.keeper d = some first)
    {k : Uuid × Uuid} (hk : k ∈ r.ranked) (hid : k.1 = d.id) : k.2 = first.id := by
  obtain ⟨d', hd', first', hfirst', rfl⟩ := mem_ranked.mp hk
  have hsame : d' = d := Table.eq_of_key hd' hd hid
  rw [hsame, hfirst] at hfirst'
  rw [Option.some.inj hfirst']

/-- A row is deleted unless it is the earliest of its file. -/
theorem deletes_iff (hd : d ∈ r.documents.rows) (hfirst : r.keeper d = some first) :
    r.deletes d ↔ d.id ≠ first.id := by
  constructor
  · rintro ⟨k, hk, hid⟩
    obtain ⟨hranked, hne⟩ := List.mem_filter.mp hk
    rw [← ranked_of_mem hd hfirst hranked hid, ← hid]
    exact of_decide_eq_true hne
  · intro hne
    exact ⟨(d.id, first.id),
      List.mem_filter.mpr ⟨mem_ranked.mpr ⟨d, hd, first, hfirst, rfl⟩, decide_eq_true hne⟩, rfl⟩

theorem not_deletes_keeper (hfirst : r.keeper d = some first) : ¬ r.deletes first := by
  rw [deletes_iff (keeper_mem hfirst) (keeper_self hfirst)]
  exact not_not.mpr rfl

theorem repointed_eq (r : Repair) (c : TenantChunk) :
    r.repointed c = { c with documentId := (r.repointed c).documentId } := by
  unfold repointed
  split <;> rfl

/-- The chunk goes to the earliest document of the file of its own. -/
theorem repointed_documentId (hd : d ∈ r.documents.rows) (hid : d.id = c.documentId)
    (hfirst : r.keeper d = some first) : (r.repointed c).documentId = first.id := by
  unfold repointed
  split
  · rename_i k hfound
    have hmatch : k.1 = c.documentId := by simpa using List.find?_some hfound
    exact ranked_of_mem hd hfirst (List.mem_filter.mp (List.mem_of_find?_eq_some hfound)).1
      (hmatch.trans hid.symm)
  · -- no line of the ranking moves it: its document is the earliest
    rename_i hnone
    by_contra hne
    have hmoved : (d.id, first.id) ∈ r.duplicates := by
      refine List.mem_filter.mpr ⟨mem_ranked.mpr ⟨d, hd, first, hfirst, rfl⟩, decide_eq_true ?_⟩
      exact fun hsame => hne (hid.symm.trans hsame)
    have hunmatched := List.find?_eq_none.mp hnone _ hmoved
    rw [decide_eq_true_eq] at hunmatched
    exact hunmatched hid

/-- After the first statement every chunk has a document that the second one keeps. -/
theorem repoint_kept (h : r.Owned) :
    ∀ c ∈ r.repoint.chunks.rows, ∃ d ∈ r.documents.rows, ¬ r.deletes d ∧ d.id = c.documentId := by
  intro c hc
  obtain ⟨b, hb, rfl⟩ := List.mem_map.mp hc
  obtain ⟨d, hd, hid⟩ := h b hb
  obtain ⟨first, hfirst⟩ := keeper_of_mem hd
  exact ⟨first, keeper_mem hfirst, not_deletes_keeper hfirst,
    (repointed_documentId hd hid hfirst).symm⟩

/-- The deletion takes no chunk with it. -/
theorem repaired_chunks (h : r.Owned) :
    r.repoint.deleteDuplicates.chunks.rows = r.chunks.rows.map r.repointed := by
  refine List.filter_eq_self.mpr ?_
  intro c hc
  refine decide_eq_true ?_
  rintro ⟨d, hd, hdeletes, hid⟩
  obtain ⟨kept, hkept, hnot, hkid⟩ := repoint_kept h c hc
  have hsame : d = kept := Table.eq_of_key hd hkept (hid.trans hkid.symm)
  exact hnot (hsame ▸ hdeletes)

theorem mem_repaired_documents :
    d ∈ r.repoint.deleteDuplicates.documents.rows ↔ r.keeper d = some d ∧ d ∈ r.documents.rows := by
  rw [deleteDuplicates, Table.mem_deleteWhere]
  constructor
  · rintro ⟨hd, hnot⟩
    obtain ⟨first, hfirst⟩ := keeper_of_mem hd
    have hid : d.id = first.id := not_not.mp (fun hne => hnot ((deletes_iff hd hfirst).mpr hne))
    have hsame : d = first := Table.eq_of_key hd (keeper_mem hfirst) hid
    exact ⟨hfirst.trans (congrArg some hsame.symm), hd⟩
  · rintro ⟨hself, hd⟩
    exact ⟨hd, not_deletes_keeper hself⟩

/-- The document that a chunk goes to is there. -/
theorem keeper_repaired (hfirst : r.keeper d = some first) :
    first ∈ r.repoint.deleteDuplicates.documents.rows :=
  mem_repaired_documents.mpr ⟨keeper_self hfirst, keeper_mem hfirst⟩

theorem repaired_owned (h : r.Owned) : r.repoint.deleteDuplicates.Owned := by
  intro c hc
  rw [repaired_chunks h] at hc
  obtain ⟨d, hd, hnot, hid⟩ := repoint_kept h c hc
  exact ⟨d, Table.mem_deleteWhere.mpr ⟨hd, hnot⟩, hid⟩

/-- One row is left of each file. -/
theorem repaired_file {a b : TenantDocument} (ha : a ∈ r.repoint.deleteDuplicates.documents.rows)
    (hb : b ∈ r.repoint.deleteDuplicates.documents.rows) (hfile : a.file = b.file) : a = b := by
  have hsame : r.keeper a = r.keeper b := firstOf_congr hfile
  rw [(mem_repaired_documents.mp ha).1, (mem_repaired_documents.mp hb).1] at hsame
  exact Option.some.inj hsame

end Repair

/-! ## The backfill -/

section
variable {now : Time} {chunks : List TenantChunk}

theorem backfill_nodup (now : Time) (chunks : List TenantChunk) :
    ((backfill now chunks).map TenantBuild.key).Nodup := by
  have hkeys : (backfill now chunks).map TenantBuild.key =
      ((groupCounts (chunks.map TenantChunk.place)).map Prod.fst).map
      (fun place => (place.1, place.2, 1)) := by
    rw [backfill, List.map_map, List.map_map]
    rfl
  rw [hkeys, map_fst_groupCounts]
  refine (List.nodup_dedup _).map ?_
  rintro ⟨tenant, collection⟩ ⟨tenant', collection'⟩ heq
  cases heq
  rfl

theorem mem_backfill {b : TenantBuild} (h : b ∈ backfill now chunks) :
    b.buildVersion = 1 ∧ b.status = .live := by
  obtain ⟨g, -, rfl⟩ := List.mem_map.mp h
  exact ⟨rfl, rfl⟩

/-- A collection has one row where it has chunks, and none where it has none. -/
theorem filter_backfill (place : Uuid × String) :
    (backfill now chunks).filter (fun b => b.place = place) =
    if place ∈ chunks.map TenantChunk.place then
        [backfillRow now (place, (chunks.map TenantChunk.place).countP (fun p => p = place))]
    else [] := by
  rw [backfill, List.filter_map]
  have hplace : (groupCounts (chunks.map TenantChunk.place)).filter
      ((fun b => decide (b.place = place)) ∘ backfillRow now) =
      (groupCounts (chunks.map TenantChunk.place)).filter (fun g => g.1 = place) := rfl
  rw [hplace, filter_groupCounts]
  split <;> rfl

end

/-! ## What the migration leaves -/

/-- No constraint fails where one row is left of each file. -/
theorem withBuilds_eq (now : Time) {r : Repair} (howned : r.Owned)
    (hfile : ∀ a ∈ r.documents.rows, ∀ b ∈ r.documents.rows, a.file = b.file → a = b) :
    ∃ t, r.withBuilds now = some t ∧ t.documents = r.documents ∧ t.chunks = r.chunks ∧
      t.builds.rows = backfill now r.chunks.rows := by
  have hcurrent : ∀ a ∈ r.documents.rows, ∀ b ∈ r.documents.rows, a.current → b.current →
      a.file = b.file → a.id = b.id :=
    fun a ha b hb _ _ hsame => congrArg (fun d => d.id) (hfile a ha b hb hsame)
  have hnodup := backfill_nodup now r.chunks.rows
  have hbuilds : (Table.empty : TenantBuildTable).tryInsertAll (backfill now r.chunks.rows) =
      some ⟨backfill now r.chunks.rows, hnodup⟩ := dif_pos hnodup
  have hlive : ∀ a ∈ backfill now r.chunks.rows, ∀ b ∈ backfill now r.chunks.rows,
      a.status = .live → b.status = .live → a.place = b.place → a.key = b.key := by
    intro a ha b hb _ _ hplace
    have hversion : a.buildVersion = b.buildVersion :=
      (mem_backfill ha).1.trans (mem_backfill hb).1.symm
    rw [TenantBuild.place, TenantBuild.place, Prod.mk.injEq] at hplace
    rw [TenantBuild.key, TenantBuild.key, hplace.1, hplace.2, hversion]
  rw [Repair.withBuilds, dif_pos howned, dif_pos hcurrent, hbuilds]
  exact ⟨_, dif_pos hlive, rfl, rfl, rfl⟩

/-- The migration goes through. -/
theorem upgrade_eq (now : Time) (s : PlainCorpus) :
    ∃ t, upgrade now s = some t ∧
      t.documents = s.withSuperseded.repoint.deleteDuplicates.documents ∧
      t.chunks.rows = s.chunks.rows.map s.withSuperseded.repointed ∧
      t.builds.rows = backfill now t.chunks.rows := by
  have hbefore : s.withSuperseded.Owned := by
    intro c hc
    obtain ⟨d, hd, hid⟩ := s.owned c hc
    exact ⟨d.withSuperseded, List.mem_map_of_mem hd, hid⟩
  obtain ⟨t, ht, hdocuments, hchunks, hbuilds⟩ := withBuilds_eq now (Repair.repaired_owned hbefore)
    (fun _ ha _ hb hfile => Repair.repaired_file ha hb hfile)
  refine ⟨t, ht, hdocuments, ?_, ?_⟩
  · rw [hchunks, Repair.repaired_chunks hbefore]
    rfl
  · rw [hbuilds, hchunks]

/-- The chunk is the same but for its document, and that is of the same file. -/
structure Moved (s : PlainCorpus) (t : BuiltCorpus) (c c' : TenantChunk) : Prop where
  same : c' = { c with documentId := c'.documentId }
  file : ∀ d ∈ s.documents.rows, d.id = c.documentId →
    ∃ d' ∈ t.documents.rows, d'.id = c'.documentId ∧ d'.file = d.file

/-- What the migration owes: every chunk is there, of each file the earliest row and no other,
one build for each collection that has chunks, live and counted, and what could be read
before can be read. -/
structure LosesNothing (s : PlainCorpus) (t : BuiltCorpus) : Prop where
  chunks : List.Forall₂ (Moved s t) s.chunks.rows t.chunks.rows
  kept : ∀ d ∈ s.documents.rows, ∃ e ∈ t.documents.rows, e.file = d.file
  single : ∀ a ∈ t.documents.rows, ∀ b ∈ t.documents.rows, a.file = b.file → a = b
  earliest : ∀ e ∈ t.documents.rows, ∃ d ∈ s.documents.rows, e = d.withSuperseded ∧
    ∀ d' ∈ s.documents.rows, d'.file = d.file → d.createdAt < d'.createdAt ∨
    d.createdAt = d'.createdAt ∧ d.id ≤ d'.id
  built : ∀ place, s.readable place ≠ [] →
    ∃ b, t.builds.rows.filter (fun b => b.place = place) = [b] ∧ b.status = .live ∧
    b.buildVersion = 1 ∧ b.chunkCount = (s.readable place).length
  read : ∀ place, List.Forall₂ (Moved s t) (s.readable place) (t.readable place)

theorem repointed_place (r : Repair) (c : TenantChunk) : (r.repointed c).place = c.place := by
  rw [r.repointed_eq]
  rfl

section
variable {s : PlainCorpus} {t : BuiltCorpus}

theorem mem_withSuperseded {e : TenantDocument} :
    e ∈ s.withSuperseded.documents.rows ↔ ∃ d ∈ s.documents.rows, d.withSuperseded = e :=
  List.mem_map

theorem moved_repointed
    (hdocuments : t.documents = s.withSuperseded.repoint.deleteDuplicates.documents)
    (c : TenantChunk) : Moved s t c (s.withSuperseded.repointed c) := by
  refine ⟨s.withSuperseded.repointed_eq c, ?_⟩
  intro d hd hid
  have hadded : d.withSuperseded ∈ s.withSuperseded.documents.rows :=
    mem_withSuperseded.mpr ⟨d, hd, rfl⟩
  obtain ⟨first, hfirst⟩ := Repair.keeper_of_mem hadded
  refine ⟨first, ?_, (Repair.repointed_documentId hadded hid hfirst).symm,
    Repair.keeper_file hfirst⟩
  rw [hdocuments]
  exact Repair.keeper_repaired hfirst

/-- The chunks of a collection after the migration. -/
theorem filter_chunks (hchunks : t.chunks.rows = s.chunks.rows.map s.withSuperseded.repointed)
    (place : Uuid × String) :
    t.chunks.rows.filter (fun c => c.place = place) =
      (s.readable place).map s.withSuperseded.repointed := by
  rw [hchunks, List.filter_map, PlainCorpus.readable]
  congr 1
  refine List.filter_congr ?_
  intro c _
  rw [Function.comp_apply, repointed_place]

/-- Each of the chunks and the one it has become. -/
theorem forall₂_moved
    (hdocuments : t.documents = s.withSuperseded.repoint.deleteDuplicates.documents)
    (cs : List TenantChunk) : List.Forall₂ (Moved s t) cs (cs.map s.withSuperseded.repointed) := by
  rw [List.forall₂_map_right_iff, List.forall₂_same]
  exact fun c _ => moved_repointed hdocuments c

theorem filter_builds {now : Time}
    (hchunks : t.chunks.rows = s.chunks.rows.map s.withSuperseded.repointed)
    (hbuilds : t.builds.rows = backfill now t.chunks.rows) {place : Uuid × String}
    (h : s.readable place ≠ []) :
    t.builds.rows.filter (fun b => b.place = place) =
      [backfillRow now (place, (s.readable place).length)] := by
  have hplaces : t.chunks.rows.map TenantChunk.place = s.chunks.rows.map TenantChunk.place := by
    rw [hchunks, List.map_map]
    exact List.map_congr_left (fun c _ => repointed_place _ c)
  have hmem : place ∈ s.chunks.rows.map TenantChunk.place := by
    obtain ⟨c, hc⟩ := List.exists_mem_of_ne_nil _ h
    obtain ⟨hrow, hplace⟩ := List.mem_filter.mp hc
    exact List.mem_map.mpr ⟨c, hrow, of_decide_eq_true hplace⟩
  have hcount : (s.chunks.rows.map TenantChunk.place).countP (fun p => p = place) =
      (s.readable place).length := by
    rw [List.countP_map, List.countP_eq_length_filter]
    rfl
  rw [hbuilds, filter_backfill, hplaces, if_pos hmem, hcount]

/-- The version a read resolves to, where there is anything to read. -/
theorem readable_eq {now : Time}
    (hchunks : t.chunks.rows = s.chunks.rows.map s.withSuperseded.repointed)
    (hbuilds : t.builds.rows = backfill now t.chunks.rows) (place : Uuid × String) :
    t.readable place = (s.readable place).map s.withSuperseded.repointed := by
  have hversion : ∀ c ∈ t.chunks.rows, c.buildVersion = 1 := by
    intro c hc
    rw [hchunks] at hc
    obtain ⟨b, hb, rfl⟩ := List.mem_map.mp hc
    rw [Repair.repointed_eq]
    exact s.first_build b hb
  unfold BuiltCorpus.readable BuiltCorpus.liveVersion
  cases hfind : t.builds.rows.find? (fun b => b.place = place ∧ b.status = .live) with
  | none =>
    -- a collection without a live build had no chunks
    have hempty : s.readable place = [] := by
      by_contra hne
      have hrow : backfillRow now (place, (s.readable place).length) ∈
          t.builds.rows.filter (fun b => b.place = place) := by
        rw [filter_builds hchunks hbuilds hne]
        exact List.mem_cons_self
      have hnone := List.find?_eq_none.mp hfind _ (List.mem_filter.mp hrow).1
      rw [decide_eq_true_eq] at hnone
      exact hnone ⟨rfl, rfl⟩
    rw [hempty]
    rfl
  | some b =>
    have hb : b ∈ t.builds.rows := List.mem_of_find?_eq_some hfind
    rw [hbuilds] at hb
    rw [Option.map_some, (mem_backfill hb).1, ← filter_chunks hchunks]
    refine List.filter_congr ?_
    intro c hc
    rw [hversion c hc]
    simp

end

/-- Whatever the tables held, the migration goes through and loses nothing. -/
theorem upgrade_loses_nothing (now : Time) (s : PlainCorpus) :
    ∃ t, upgrade now s = some t ∧ LosesNothing s t := by
  obtain ⟨t, ht, hdocuments, hchunks, hbuilds⟩ := upgrade_eq now s
  refine ⟨t, ht, ?_, ?_, ?_, ?_, ?_, ?_⟩
  · rw [hchunks]
    exact forall₂_moved hdocuments _
  · intro d hd
    obtain ⟨first, hfirst⟩ := Repair.keeper_of_mem (mem_withSuperseded.mpr ⟨d, hd, rfl⟩)
    refine ⟨first, ?_, Repair.keeper_file hfirst⟩
    rw [hdocuments]
    exact Repair.keeper_repaired hfirst
  · rw [hdocuments]
    exact fun a ha b hb hfile => Repair.repaired_file ha hb hfile
  · intro e he
    rw [hdocuments] at he
    obtain ⟨hself, hadded⟩ := Repair.mem_repaired_documents.mp he
    obtain ⟨d, hd, rfl⟩ := mem_withSuperseded.mp hadded
    refine ⟨d, hd, rfl, ?_⟩
    intro d' hd' hfile
    have hage :=
      (firstOf_eq_some hself).2.2 d'.withSuperseded (mem_withSuperseded.mpr ⟨d', hd', rfl⟩) hfile
    exact Prod.Lex.toLex_le_toLex.mp hage
  · intro place hplace
    exact ⟨_, filter_builds hchunks hbuilds hplace, rfl, rfl, rfl⟩
  · intro place
    rw [readable_eq hchunks hbuilds]
    exact forall₂_moved hdocuments _

/-- Two rows of one file, of the same time. -/
def splitFile : PlainCorpus where
  documents := ⟨[⟨7, 1, "rag", "manuals", "pump.md", "9b", 4, "t/9b", none, 0⟩,
    ⟨3, 1, "rag", "manuals", "pump.md", "1c", 4, "t/1c", none, 0⟩],
    by decide⟩
  chunks := ⟨[⟨10, 1, 7, "manuals", "c_9b", 0, 1, "seal", .null, none, none, 0⟩,
    ⟨11, 1, 3, "manuals", "c_1c", 1, 1, "gland", .null, none, none, 0⟩],
    by decide⟩
  owned := by decide
  first_build := by decide

example : (upgrade 5 splitFile).map (fun t =>
    (t.documents.rows.map (fun d => d.id), t.chunks.rows.map TenantChunk.documentId,
      t.builds.rows.map TenantBuild.chunkCount)) =
      some ([3], [3, 3], [2]) := by decide +kernel

end AgenticPlatform.Corpus
