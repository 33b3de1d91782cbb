import AgenticPlatform.Corpus.Builds
import AgenticPlatform.Foundation.StableSort
import AgenticPlatform.Foundation.Text

/-!
# The fingerprint of a build

The canonical ids of a build go into one digest, one directly after the other. The ids have
different lengths and nothing stands between them, but each starts with the letter and the
underscore that no other place of an id has, so the text that is hashed gives the ids back.
-/
namespace AgenticPlatform.Corpus
open AgenticPlatform.Foundation

structure FingerprintEnv where
  /-- The hexadecimal SHA-256 of the UTF-8 encoding. -/
  sha256 : String → String
  /-- What the collation of the database compares. -/
  collate : String → String

/-- Neither the digest nor the collation confuses two texts. -/
structure FingerprintEnv.Faithful (env : FingerprintEnv) : Prop where
  sha256 : Function.Injective env.sha256
  collate : Function.Injective env.collate

namespace Collection

/-- SELECT canonical_id FROM chunk WHERE build_version = :v. -/
def canonicalIds (c : Collection) (version : Nat) : List String :=
  (c.chunksOf version).map ChunkRow.canonicalId

def fingerprint (env : FingerprintEnv) (c : Collection) (version : Nat) : String :=
  env.sha256 (String.join (sortedBy env.collate (c.canonicalIds version)))

/-- The ids of a build are distinct. -/
theorem nodup_canonicalIds (c : Collection) (version : Nat) : (c.canonicalIds version).Nodup := by
  have hkeys : ((c.chunksOf version).map ChunkRow.key).Nodup :=
    c.chunks.nodup.sublist (List.filter_sublist.map ChunkRow.key)
  refine List.pairwise_map.mpr ((List.pairwise_map.mp hkeys).imp_of_mem ?_)
  intro a b ha hb hne heq
  refine hne (Prod.ext heq ?_)
  exact (mem_chunksOf.mp ha).2.trans (mem_chunksOf.mp hb).2.symm

end Collection

/-! ## Canonical ids -/

def isHexDigit (d : Char) : Bool := d.isDigit || ('a' ≤ d && d ≤ 'f')

/-- `c_` and then lowercase hexadecimal digits. -/
def IsCanonicalId (id : String) : Prop :=
  ∃ digits, id.toList = ['c', '_'] ++ digits ∧ digits ≠ [] ∧ ∀ d ∈ digits, isHexDigit d = true

theorem toList_join (texts : List String) :
    (String.join texts).toList = texts.flatMap String.toList := by
  induction texts with
  | nil => rfl
  | cons text texts ih => rw [String.join_cons, String.toList_append, ih, List.flatMap_cons]

/-- What follows the start of each id; no underscore comes before the start of the next one. -/
theorem exists_bodies {ids : List String} (hids : ∀ id ∈ ids, IsCanonicalId id) :
    ∃ bodies : List (List Char), ids.map String.toList = bodies.map (['c', '_'] ++ ·) ∧
      ∀ body ∈ bodies, '_' ∉ body ++ ['c'] := by
  induction ids with
  | nil => exact ⟨[], rfl, nofun⟩
  | cons id ids ih =>
    obtain ⟨bodies, hmap, hmark⟩ := ih (fun id' hid' => hids id' (List.mem_cons_of_mem id hid'))
    obtain ⟨digits, hid, -, hhex⟩ := hids id List.mem_cons_self
    refine ⟨digits :: bodies, by rw [List.map_cons, List.map_cons, hid, hmap], ?_⟩
    intro body hmem
    rcases List.mem_cons.mp hmem with rfl | hmem
    · intro hunderscore
      rcases List.mem_append.mp hunderscore with hdigit | hlast
      · exact absurd (hhex '_' hdigit) (by decide)
      · exact absurd hlast (by decide)
    · exact hmark body hmem

/-- With one more start at the end, every body ends at an underscore. -/
theorem join_rotate {ids : List String} {bodies : List (List Char)}
    (hmap : ids.map String.toList = bodies.map (['c', '_'] ++ ·)) :
    (String.join ids).toList ++ ['c', '_'] =
      ['c', '_'] ++ (bodies.map (· ++ ['c'])).flatMap (· ++ ['_']) := by
  have hjoin : ids.flatMap String.toList = bodies.flatMap (['c', '_'] ++ ·) := by
    rw [List.flatMap_def, hmap, ← List.flatMap_def]
  rw [toList_join, hjoin, flatMap_rotate, List.flatMap_map]
  simp only [List.append_assoc, List.singleton_append]

/-- The ids can be read from the text that is hashed. -/
theorem join_injective {ids ids' : List String} (hids : ∀ id ∈ ids, IsCanonicalId id)
    (hids' : ∀ id ∈ ids', IsCanonicalId id) (h : String.join ids = String.join ids') :
    ids = ids' := by
  obtain ⟨bodies, hmap, hmark⟩ := exists_bodies hids
  obtain ⟨bodies', hmap', hmark'⟩ := exists_bodies hids'
  have hflat : (bodies.map (· ++ ['c'])).flatMap (· ++ ['_']) =
      (bodies'.map (· ++ ['c'])).flatMap (· ++ ['_']) := by
    have hboth := join_rotate hmap
    rw [h, join_rotate hmap', List.append_right_inj] at hboth
    exact hboth.symm
  have hbodies :=
    flatMap_mark_injective (List.forall_mem_map.mpr hmark) (List.forall_mem_map.mpr hmark') hflat
  have hsame : bodies = bodies' :=
    List.map_injective_iff.mpr (fun _ _ hend => List.append_left_injective ['c'] hend) hbodies
  rw [← hsame, ← hmap] at hmap'
  exact (List.map_injective_iff.mpr (fun _ _ htext => String.toList_injective htext) hmap').symm

/-! ## What a fingerprint says -/

/-- The ids of a build are in the form of canonical ids. -/
def Collection.Canonical (c : Collection) (version : Nat) : Prop :=
  ∀ id ∈ c.canonicalIds version, IsCanonicalId id

/-- Two builds have the same ids. -/
def SameIds (c : Collection) (version : Nat) (c' : Collection) (version' : Nat) : Prop :=
  ∀ id, id ∈ c.canonicalIds version ↔ id ∈ c'.canonicalIds version'

/-- Two builds, of one collection or of two, have one fingerprint exactly where they have
the same ids. -/
theorem fingerprint_eq_iff {env : FingerprintEnv} (henv : env.Faithful) {c c' : Collection}
    {version version' : Nat} (hc : c.Canonical version) (hc' : c'.Canonical version') :
    c.fingerprint env version = c'.fingerprint env version' ↔ SameIds c version c' version' := by
  have hkeys : ((c.canonicalIds version).map env.collate).Nodup :=
    (c.nodup_canonicalIds version).map henv.collate
  have hperm : (c.canonicalIds version).Perm (c'.canonicalIds version') ↔
      SameIds c version c' version' :=
    List.perm_ext_iff_of_nodup (c.nodup_canonicalIds version) (c'.nodup_canonicalIds version')
  rw [← hperm, ← sortedBy_eq_iff_perm hkeys]
  constructor
  · intro h
    refine join_injective ?_ ?_ (henv.sha256 h)
    · exact fun id hid => hc id (mem_sortedBy.mp hid)
    · exact fun id hid => hc' id (mem_sortedBy.mp hid)
  · intro h
    rw [Collection.fingerprint, h, Collection.fingerprint]

end AgenticPlatform.Corpus
