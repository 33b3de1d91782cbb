import AgenticPlatform.Foundation.Table
import AgenticPlatform.Foundation.Json
import AgenticPlatform.Identity.Principal
import AgenticPlatform.Settings

/-!
# Builds of a collection

The builds and the chunks of one collection of one tenant, and the four transactions
that replace the build being served. Chunks are keyed by the number of their build
without a reference to its row. Each transaction is one step; which execution opened
a build or wrote a chunk is kept beside the columns.
-/
namespace AgenticPlatform.Corpus
open AgenticPlatform.Foundation AgenticPlatform.Identity

inductive BuildStatus where
  | building | live | superseded | failed
deriving DecidableEq

structure BuildRow where
  buildVersion : Nat
  status : BuildStatus
  chunkCount : Nat
  runId : Option Uuid
  error : Option String
  promotedAt : Option Time
  /-- The execution that opened the build; not a column. -/
  openedBy : Nat
deriving DecidableEq

abbrev BuildTable := Table BuildRow BuildRow.buildVersion

structure ChunkRow where
  documentId : Uuid
  canonicalId : String
  ordinal : Nat
  buildVersion : Nat
  text : String
  embedding : List ℚ
  embeddingModel : String
  /-- The column `meta`. -/
  metadata : Json
  /-- The execution that wrote the row; not a column. -/
  writtenBy : Nat
deriving DecidableEq

/-- The unique index on (canonical_id, build_version). -/
def ChunkRow.key (c : ChunkRow) : String × Nat := (c.canonicalId, c.buildVersion)

abbrev ChunkTable := Table ChunkRow ChunkRow.key

/-- Both tables, with the partial unique index that permits one live build. -/
structure Collection where
  builds : BuildTable
  chunks : ChunkTable
  one_live : ∀ a ∈ builds.rows, ∀ b ∈ builds.rows, a.status = .live → b.status = .live → a = b

namespace Collection

def empty : Collection where
  builds := Table.empty
  chunks := Table.empty
  one_live := by
    intro a ha
    cases ha

def chunksOf (c : Collection) (version : Nat) : List ChunkRow :=
  c.chunks.rows.filter (fun r => r.buildVersion = version)

/-- `live_version_or_none`. -/
def liveVersion (c : Collection) : Option Nat :=
  (c.builds.rows.find? (fun b => b.status = .live)).map BuildRow.buildVersion

theorem liveVersion_eq_some {c : Collection} {v : Nat} :
    c.liveVersion = some v ↔ ∃ b ∈ c.builds.rows, b.status = .live ∧ b.buildVersion = v := by
  rw [liveVersion, Option.map_eq_some_iff]
  constructor
  · rintro ⟨b, hb, rfl⟩
    exact ⟨b, List.mem_of_find?_eq_some hb, by simpa using List.find?_some hb, rfl⟩
  · rintro ⟨b, hb, hlive, rfl⟩
    cases hfind : c.builds.rows.find? (fun b => b.status = .live) with
    | none => exact absurd hlive (by simpa using List.find?_eq_none.mp hfind b hb)
    | some a =>
      have ha : a.status = .live := by simpa using List.find?_some hfind
      exact ⟨a, rfl, congrArg _ (c.one_live a (List.mem_of_find?_eq_some hfind) b hb ha hlive)⟩

/-- The live version depends on the live rows only. -/
theorem liveVersion_congr {c c' : Collection}
    (h : ∀ b, b.status = .live → (b ∈ c'.builds.rows ↔ b ∈ c.builds.rows)) :
    c'.liveVersion = c.liveVersion := by
  apply Option.ext
  intro v
  rw [liveVersion_eq_some, liveVersion_eq_some]
  constructor
  · rintro ⟨b, hb, hlive, hv⟩
    exact ⟨b, (h b hlive).mp hb, hlive, hv⟩
  · rintro ⟨b, hb, hlive, hv⟩
    exact ⟨b, (h b hlive).mpr hb, hlive, hv⟩

/-- The execution that opened a build, where its row is there. -/
def opener (c : Collection) (version : Nat) : Option Nat :=
  (c.builds.get version).map BuildRow.openedBy

theorem opener_eq_none {c : Collection} {v : Nat} : c.opener v = none ↔ v ∉ c.builds.keys := by
  rw [opener, Option.map_eq_none_iff, Table.get_eq_none]

theorem mem_chunksOf {c : Collection} {v : Nat} {r : ChunkRow} :
    r ∈ c.chunksOf v ↔ r ∈ c.chunks.rows ∧ r.buildVersion = v := by
  rw [chunksOf, List.mem_filter, decide_eq_true_eq]

/-- Deleting chunks of other builds leaves the chunks of a build as they are. -/
theorem chunksOf_deleteWhere {c c' : Collection} {p : ChunkRow → Prop} [DecidablePred p] {v : Nat}
    (h : c'.chunks = c.chunks.deleteWhere p)
    (hp : ∀ r ∈ c.chunks.rows, r.buildVersion = v → ¬ p r) : c'.chunksOf v = c.chunksOf v := by
  rw [chunksOf, h, Table.deleteWhere, List.filter_filter, chunksOf]
  apply List.filter_congr
  intro r hr
  by_cases hv : r.buildVersion = v
  · simp [hv, hp r hr hv]
  · simp [hv]

/-! ## Opening a build -/

/-- COALESCE(max(build_version), 0). -/
def maxVersion (c : Collection) : Nat := (c.builds.rows.map BuildRow.buildVersion).foldr max 0

theorem le_maxVersion {c : Collection} {v : Nat} (h : v ∈ c.builds.keys) : v ≤ c.maxVersion := by
  have hle : ∀ vs : List Nat, v ∈ vs → v ≤ vs.foldr max 0 := by
    intro vs hv
    induction vs with
    | nil => cases hv
    | cons w vs ih =>
      rcases List.mem_cons.mp hv with rfl | hv
      · exact Nat.le_max_left _ _
      · exact Nat.le_trans (ih hv) (Nat.le_max_right _ _)
  exact hle _ h

theorem succ_maxVersion_fresh (c : Collection) : c.maxVersion + 1 ∉ c.builds.keys := by
  intro h
  have hle := le_maxVersion h
  omega

def newBuild (version exec : Nat) (runId : Option Uuid) : BuildRow where
  buildVersion := version
  status := .building
  chunkCount := 0
  runId := runId
  error := none
  promotedAt := none
  openedBy := exec

def begin (c : Collection) (exec : Nat) (runId : Option Uuid) : Collection × Nat :=
  let version := c.maxVersion + 1
  ({ builds := c.builds.insert (newBuild version exec runId) c.succ_maxVersion_fresh
     chunks := c.chunks
     one_live := by
       intro a ha b hb hla hlb
       rcases Table.mem_insert.mp ha with ha | rfl
       · rcases Table.mem_insert.mp hb with hb | rfl
         · exact c.one_live a ha b hb hla hlb
         · cases hlb
       · cases hla }, version)

theorem liveVersion_begin (c : Collection) (exec : Nat) (runId : Option Uuid) :
    (c.begin exec runId).1.liveVersion = c.liveVersion := by
  apply liveVersion_congr
  intro b hlive
  constructor
  · intro hb
    rcases (Table.mem_insert (h := c.succ_maxVersion_fresh)).mp hb with hb | rfl
    · exact hb
    · cases hlive
  · intro hb
    exact (Table.mem_insert (h := c.succ_maxVersion_fresh)).mpr (Or.inl hb)

theorem mem_keys_begin (c : Collection) (exec : Nat) (runId : Option Uuid) :
    c.maxVersion + 1 ∈ (c.begin exec runId).1.builds.keys :=
  Table.mem_keys.mpr ⟨_, (Table.mem_insert (h := c.succ_maxVersion_fresh)).mpr (Or.inr rfl), rfl⟩

theorem opener_begin (c : Collection) (exec : Nat) (runId : Option Uuid) (v : Nat) :
    (c.begin exec runId).1.opener v = if c.maxVersion + 1 = v then some exec else c.opener v := by
  have hget : (c.begin exec runId).1.builds.get v =
      if c.maxVersion + 1 = v then some (newBuild (c.maxVersion + 1) exec runId)
      else c.builds.get v :=
    Table.get_insert _ _ c.succ_maxVersion_fresh v
  rw [opener, hget]
  split <;> rfl

/-! ## Promotion -/

def demoted (b : BuildRow) : BuildRow := { b with status := .superseded }

def promoted (now : Time) (count : Nat) (b : BuildRow) : BuildRow :=
  { b with status := .live, promotedAt := some now, chunkCount := count }

/-- The two UPDATEs. The second one matches no row where the build is gone. -/
def promoteRows (builds : BuildTable) (version : Nat) (now : Time) (count : Nat) : BuildTable :=
  (builds.updateWhere (fun b => b.status = .live) demoted (fun _ => rfl)).updateWhere
    (fun b => b.buildVersion = version) (promoted now count) (fun _ => rfl)

theorem mem_promoteRows {builds : BuildTable} {version count : Nat} {now : Time} {b : BuildRow}
    (h : b ∈ (promoteRows builds version now count).rows) :
    (b.buildVersion = version ∧ b.status = .live) ∨
      (b.buildVersion ≠ version ∧ b.status ≠ .live) := by
  rcases Table.mem_updateWhere (f := promoted now count) (fun _ => rfl) h with ⟨hb, hother⟩ |
    ⟨a, -, ha, rfl⟩
  · rcases Table.mem_updateWhere (f := demoted) (fun _ => rfl) hb with ⟨-, hlive⟩ | ⟨a, -, -, rfl⟩
    · exact Or.inr ⟨hother, hlive⟩
    · exact Or.inr ⟨hother, by simp [demoted]⟩
  · exact Or.inl ⟨ha, rfl⟩

def promote (c : Collection) (collection : String) (version : Nat) (now : Time) :
    Except String (Collection × Nat) :=
  let count := (c.chunksOf version).length
  if count = 0 then
    .error ("refusing to promote build " ++ toString version ++ " of '" ++ collection ++
      "': it has no chunks. The live build is left untouched.")
  else
    .ok ({ builds := promoteRows c.builds version now count
           chunks := c.chunks
           one_live := by
             intro a ha b hb hla hlb
             apply Table.eq_of_key ha hb
             rcases mem_promoteRows ha with ⟨hva, -⟩ | ⟨-, hna⟩
             · rcases mem_promoteRows hb with ⟨hvb, -⟩ | ⟨-, hnb⟩
               · exact hva.trans hvb.symm
               · exact absurd hlb hnb
             · exact absurd hla hna }, count)

/-- An update that keeps the ghost keeps the opener of every build. -/
theorem map_openedBy_updateWhere (builds : BuildTable) (p : BuildRow → Prop) [DecidablePred p]
    (f : BuildRow → BuildRow) (hf : ∀ b, (f b).buildVersion = b.buildVersion)
    (hopener : ∀ b, (f b).openedBy = b.openedBy) (v : Nat) :
    ((builds.updateWhere p f hf).get v).map BuildRow.openedBy =
      (builds.get v).map BuildRow.openedBy := by
  rw [Table.get_updateWhere, Option.map_map]
  congr 1
  funext b
  simp only [Function.comp_apply, Table.rewrite]
  split
  · exact hopener b
  · rfl

section PromoteSpec
variable {c c' : Collection} {collection : String} {version count : Nat} {now : Time}

theorem promote_builds (h : c.promote collection version now = .ok (c', count)) :
    c'.builds = promoteRows c.builds version now count ∧ c'.chunks = c.chunks ∧
      c.chunksOf version ≠ [] := by
  simp only [promote] at h
  split at h
  · cases h
  · cases h
    exact ⟨rfl, rfl, fun hnil => absurd (congrArg List.length hnil) ‹_›⟩

theorem keys_promote (h : c.promote collection version now = .ok (c', count)) :
    c'.builds.keys = c.builds.keys := by
  rw [(promote_builds h).1]
  exact (Table.keys_updateWhere _ _ (promoted now count) (fun _ => rfl)).trans
    (Table.keys_updateWhere _ _ demoted (fun _ => rfl))

theorem opener_promote (h : c.promote collection version now = .ok (c', count)) (v : Nat) :
    c'.opener v = c.opener v := by
  unfold opener
  rw [(promote_builds h).1]
  exact (map_openedBy_updateWhere _ _ (promoted now count) (fun _ => rfl) (fun _ => rfl) v).trans
    (map_openedBy_updateWhere _ _ demoted (fun _ => rfl) (fun _ => rfl) v)

/-- Afterwards no other build is live, and this one is where its row is there. -/
theorem liveVersion_promote (h : c.promote collection version now = .ok (c', count)) :
    c'.liveVersion = if version ∈ c.builds.keys then some version else none := by
  have honly : ∀ v, c'.liveVersion = some v → v = version ∧ version ∈ c.builds.keys := by
    intro v hv
    obtain ⟨b, hb, hlive, rfl⟩ := liveVersion_eq_some.mp hv
    have hkey := Table.key_mem_keys hb
    rw [keys_promote h] at hkey
    rw [(promote_builds h).1] at hb
    rcases mem_promoteRows hb with ⟨rfl, -⟩ | ⟨-, hnot⟩
    · exact ⟨rfl, hkey⟩
    · exact absurd hlive hnot
  split
  · rename_i hrow
    rw [← keys_promote h] at hrow
    obtain ⟨b, hb, hv⟩ := Table.mem_keys.mp hrow
    refine liveVersion_eq_some.mpr ⟨b, hb, ?_, hv⟩
    rw [(promote_builds h).1] at hb
    rcases mem_promoteRows hb with ⟨-, hlive⟩ | ⟨hne, -⟩
    · exact hlive
    · exact absurd hv hne
  · cases hlive : c'.liveVersion with
    | none => rfl
    | some v => exact absurd (honly v hlive).2 ‹_›

end PromoteSpec

/-! ## Failure -/

def failed (error : String) (b : BuildRow) : BuildRow :=
  { b with status := .failed, error := some (String.ofList (error.toList.take 2000)) }

def fail (c : Collection) (version : Nat) (error : String) : Collection where
  builds := c.builds.updateWhere (fun b => b.buildVersion = version ∧ b.status = .building)
    (failed error) (fun _ => rfl)
  chunks := c.chunks.deleteWhere (fun r => r.buildVersion = version)
  one_live := by
    intro a ha b hb hla hlb
    rcases Table.mem_updateWhere (f := failed error) (fun _ => rfl) ha with ⟨ha, -⟩ | ⟨a, -, -, rfl⟩
    · rcases Table.mem_updateWhere (f := failed error) (fun _ => rfl) hb with ⟨hb, -⟩ |
        ⟨b, -, -, rfl⟩
      · exact c.one_live a ha b hb hla hlb
      · cases hlb
    · cases hla

section FailSpec
variable (c : Collection) (version : Nat) (error : String)

theorem keys_fail : (c.fail version error).builds.keys = c.builds.keys :=
  Table.keys_updateWhere _ _ (failed error) (fun _ => rfl)

theorem opener_fail (v : Nat) : (c.fail version error).opener v = c.opener v :=
  map_openedBy_updateWhere _ _ (failed error) (fun _ => rfl) (fun _ => rfl) v

/-- Only a build in progress changes its status. -/
theorem liveVersion_fail : (c.fail version error).liveVersion = c.liveVersion := by
  apply liveVersion_congr
  intro b hlive
  constructor
  · intro hb
    rcases Table.mem_updateWhere (f := failed error) (fun _ => rfl) hb with ⟨hb, -⟩ | ⟨a, -, -, rfl⟩
    · exact hb
    · cases hlive
  · intro hb
    refine List.mem_map.mpr ⟨b, hb, if_neg ?_⟩
    intro hbuilding
    rw [hlive] at hbuilding
    cases hbuilding.2

theorem mem_chunks_fail {c : Collection} {version : Nat} {error : String} {r : ChunkRow} :
    r ∈ (c.fail version error).chunks.rows ↔ r ∈ c.chunks.rows ∧ r.buildVersion ≠ version :=
  Table.mem_deleteWhere

theorem chunksOf_fail {v : Nat} (h : v ≠ version) :
    (c.fail version error).chunksOf v = c.chunksOf v := by
  refine chunksOf_deleteWhere rfl ?_
  rintro r - rfl
  exact h

theorem chunksOf_fail_self : (c.fail version error).chunksOf version = [] := by
  refine List.filter_eq_nil_iff.mpr ?_
  intro r hr hv
  exact (mem_chunks_fail.mp hr).2 (of_decide_eq_true hv)

end FailSpec

/-! ## Reaping -/

def maxCoexistingBuilds : Nat := 2

/-- The versions below the live one that were served, the latest ones first. -/
def keep (c : Collection) (live : Nat) : List Nat :=
  (((c.builds.rows.filter (fun b => b.buildVersion < live ∧ (b.status = .live ∨
    b.status = .superseded))).map BuildRow.buildVersion).insertionSort (fun a b => b ≤ a)).take
    (maxCoexistingBuilds - 1)

structure ReapResult where
  deletedBuilds : List Nat
  kept : List Nat
  reason : Option String
deriving DecidableEq

def sorted (versions : List Nat) : List Nat := versions.insertionSort (fun a b => a ≤ b)

/-- The chunks of the doomed builds, then every build that is not kept. -/
def reapTo (c : Collection) (keepSet : List Nat) : Collection where
  builds := c.builds.deleteWhere (fun b => b.buildVersion ∉ keepSet)
  chunks := c.chunks.deleteWhere
    (fun r => r.buildVersion ∈ c.builds.keys ∧ r.buildVersion ∉ keepSet)
  one_live := by
    intro a ha b hb
    exact c.one_live a (Table.mem_deleteWhere.mp ha).1 b (Table.mem_deleteWhere.mp hb).1

def reap (c : Collection) : Collection × ReapResult :=
  match c.liveVersion with
  | none => (c, ⟨[], [], some "no live build"⟩)
  | some live =>
    let keepSet := live :: c.keep live
    let doomed := c.builds.keys.filter (fun v => v ∉ keepSet)
    (c.reapTo keepSet, ⟨sorted doomed, sorted keepSet, none⟩)

theorem reap_of_none {c : Collection} (h : c.liveVersion = none) : c.reap.1 = c := by
  simp only [reap, h]

theorem reap_of_live {c : Collection} {live : Nat} (h : c.liveVersion = some live) :
    c.reap.1 = c.reapTo (live :: c.keep live) := by
  simp only [reap, h]

/-- The versions a reap leaves alone. -/
def Spares (c : Collection) (version : Nat) : Prop :=
  ∀ live ∈ c.liveVersion, version ∈ live :: c.keep live

instance (c : Collection) (version : Nat) : Decidable (c.Spares version) :=
  inferInstanceAs (Decidable (∀ live ∈ c.liveVersion, version ∈ live :: c.keep live))

theorem spares_of_none {c : Collection} (h : c.liveVersion = none) (v : Nat) : c.Spares v := by
  intro live hlive
  rw [h] at hlive
  cases hlive

theorem spares_iff {c : Collection} {live v : Nat} (h : c.liveVersion = some live) :
    c.Spares v ↔ v = live ∨ v ∈ c.keep live := by
  simp [Spares, h]

section ReapSpec
variable (c : Collection)

theorem opener_reap (v : Nat) : c.reap.1.opener v = if c.Spares v then c.opener v else none := by
  cases hlive : c.liveVersion with
  | none => rw [reap_of_none hlive, if_pos (spares_of_none hlive v)]
  | some live =>
    rw [reap_of_live hlive]
    change ((c.builds.deleteWhere _).get v).map BuildRow.openedBy = _
    rw [Table.get_deleteWhere, opener]
    cases hget : c.builds.get v with
    | none => simp
    | some b =>
      obtain ⟨-, rfl⟩ := Table.get_eq_some.mp hget
      by_cases hkeep : c.Spares b.buildVersion
      · rw [if_pos hkeep]
        rw [spares_iff hlive] at hkeep
        rw [Option.filter_some_pos (by simpa using hkeep)]
      · rw [if_neg hkeep]
        rw [spares_iff hlive] at hkeep
        rw [Option.filter_some_neg (by simpa using hkeep), Option.map_none]

theorem mem_keys_reap {c : Collection} {v : Nat} :
    v ∈ c.reap.1.builds.keys ↔ v ∈ c.builds.keys ∧ c.Spares v := by
  rw [← not_iff_not, ← opener_eq_none, opener_reap, not_and_or, ← opener_eq_none]
  by_cases hspared : c.Spares v <;> simp [hspared]

theorem liveVersion_reap : c.reap.1.liveVersion = c.liveVersion := by
  cases hlive : c.liveVersion with
  | none => rw [reap_of_none hlive, hlive]
  | some live =>
    rw [reap_of_live hlive, ← hlive]
    apply liveVersion_congr
    intro b hb
    refine Table.mem_deleteWhere.trans (and_iff_left_of_imp ?_)
    intro hmem
    have hv : b.buildVersion = live :=
      Option.some.inj ((liveVersion_eq_some.mpr ⟨b, hmem, hb, rfl⟩).symm.trans hlive)
    simp [hv]

theorem mem_chunks_reap {c : Collection} {r : ChunkRow} :
    r ∈ c.reap.1.chunks.rows ↔
      r ∈ c.chunks.rows ∧ (c.Spares r.buildVersion ∨ r.buildVersion ∉ c.builds.keys) := by
  cases hlive : c.liveVersion with
  | none => simp [reap_of_none hlive, spares_of_none hlive]
  | some live =>
    rw [reap_of_live hlive, spares_iff hlive, ← List.mem_cons]
    refine Table.mem_deleteWhere.trans (and_congr_right ?_)
    intro
    rw [not_and_or, not_not, or_comm]

theorem chunksOf_reap {v : Nat} (h : c.Spares v) : c.reap.1.chunksOf v = c.chunksOf v := by
  cases hlive : c.liveVersion with
  | none => rw [reap_of_none hlive]
  | some live =>
    rw [reap_of_live hlive]
    refine chunksOf_deleteWhere rfl ?_
    rintro r - rfl hdoomed
    exact hdoomed.2 (List.mem_cons.mpr ((spares_iff hlive).mp h))

/-- A version below the live one that was served. -/
def ServedBelow (live version : Nat) : Prop :=
  version < live ∧ ∃ b ∈ c.builds.rows, b.buildVersion = version ∧ b.status = .superseded

/-- The head of a list sorted downwards is its greatest element. -/
theorem mem_take_one_insertionSort {versions : List Nat} {v : Nat} :
    v ∈ (versions.insertionSort (fun a b => b ≤ a)).take 1 ↔
      v ∈ versions ∧ ∀ w ∈ versions, w ≤ v := by
  have hsorted : (versions.insertionSort (fun a b => b ≤ a)).Pairwise (fun a b => b ≤ a) :=
    List.sortedGE_insertionSort.pairwise
  have hmem : ∀ w, w ∈ versions ↔ w ∈ versions.insertionSort (fun a b => b ≤ a) := by
    intro w
    rw [List.mem_insertionSort]
  simp only [hmem]
  revert hsorted
  cases versions.insertionSort (fun a b => b ≤ a) with
  | nil => simp
  | cons top rest =>
    intro hsorted
    have htop := (List.pairwise_cons.mp hsorted).1
    simp only [List.take_succ_cons, List.take_zero, List.mem_cons, List.not_mem_nil, or_false,
      forall_eq_or_imp]
    constructor
    · rintro rfl
      exact ⟨Or.inl rfl, Nat.le_refl _, htop⟩
    · rintro ⟨rfl | hv, hle, -⟩
      · rfl
      · have hge := htop v hv
        omega

/-- The latest version below the live one that was served. -/
def Predecessor (live version : Nat) : Prop :=
  c.ServedBelow live version ∧ ∀ w, c.ServedBelow live w → w ≤ version

/-- What is kept beside the live build is its predecessor. -/
theorem mem_keep {c : Collection} {live v : Nat} (hlive : c.liveVersion = some live) :
    v ∈ c.keep live ↔ c.Predecessor live v := by
  have hserved : ∀ w, w ∈ (c.builds.rows.filter (fun b => b.buildVersion < live ∧
      (b.status = .live ∨ b.status = .superseded))).map BuildRow.buildVersion ↔
      c.ServedBelow live w := by
    intro w
    simp only [List.mem_map, List.mem_filter, decide_eq_true_eq, ServedBelow]
    constructor
    · rintro ⟨b, ⟨hb, hlt, hstatus⟩, rfl⟩
      refine ⟨hlt, b, hb, rfl, hstatus.resolve_left ?_⟩
      intro hl
      have hv := Option.some.inj (hlive.symm.trans (liveVersion_eq_some.mpr ⟨b, hb, hl, rfl⟩))
      omega
    · rintro ⟨hlt, b, hb, rfl, hstatus⟩
      exact ⟨b, ⟨hb, hlt, Or.inr hstatus⟩, rfl⟩
  have hkeep : v ∈ c.keep live ↔ _ := mem_take_one_insertionSort
  rw [hkeep, Predecessor]
  simp only [hserved]

end ReapSpec

/-! ## Chunks and the rows of their builds -/

/-- Every chunk belongs to a build that has a row. -/
def ChunksKnown (c : Collection) : Prop := ∀ r ∈ c.chunks.rows, r.buildVersion ∈ c.builds.keys

theorem ChunksKnown.begin {c : Collection} (h : c.ChunksKnown) (exec : Nat) (runId : Option Uuid) :
    (c.begin exec runId).1.ChunksKnown := by
  intro r hr
  obtain ⟨b, hb, hv⟩ := Table.mem_keys.mp (h r hr)
  exact Table.mem_keys.mpr
    ⟨b, (Table.mem_insert (h := c.succ_maxVersion_fresh)).mpr (Or.inl hb), hv⟩

theorem ChunksKnown.promote {c c' : Collection} {collection : String} {version count : Nat}
    {now : Time} (h : c.ChunksKnown) (hc : c.promote collection version now = .ok (c', count)) :
    c'.ChunksKnown := by
  intro r hr
  rw [(promote_builds hc).2.1] at hr
  rw [keys_promote hc]
  exact h r hr

theorem ChunksKnown.fail {c : Collection} (h : c.ChunksKnown) (version : Nat) (error : String) :
    (c.fail version error).ChunksKnown := by
  intro r hr
  rw [keys_fail]
  exact h r (mem_chunks_fail.mp hr).1

theorem ChunksKnown.reap {c : Collection} (h : c.ChunksKnown) : c.reap.1.ChunksKnown := by
  intro r hr
  obtain ⟨hr, hspared⟩ := mem_chunks_reap.mp hr
  have hspared := hspared.resolve_right (fun hgone => hgone (h r hr))
  exact mem_keys_reap.mpr ⟨h r hr, hspared⟩

/-- The next build starts without chunks. -/
theorem ChunksKnown.below {c : Collection} (h : c.ChunksKnown) {r : ChunkRow}
    (hr : r ∈ c.chunks.rows) : r.buildVersion ≠ c.maxVersion + 1 := by
  intro hv
  exact c.succ_maxVersion_fresh (hv ▸ h r hr)

end Collection
end AgenticPlatform.Corpus
