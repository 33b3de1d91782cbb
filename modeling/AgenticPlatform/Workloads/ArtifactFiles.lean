import AgenticPlatform.Foundation.Dict
import AgenticPlatform.Foundation.JsonAscii
import AgenticPlatform.Foundation.Text
import AgenticPlatform.Workloads.GraphArtifacts
import Mathlib.Data.List.Induction
import Mathlib.Data.List.Sort

/-!
# The files of a taxonomy

What `materialize` writes under a tenant's root and what `capture` reads back. A root
belongs to a tenant and a domain and is kept from one publication to the next. A file is
written over, never removed, so what a later bundle does not bring is still found.
-/
namespace AgenticPlatform.Workloads
open AgenticPlatform.Foundation AgenticPlatform.Identity AgenticPlatform.Onboarding
open AgenticPlatform.Foundation.Json (Codec)

/-! ## Files -/

/-- `Path(name).name`. -/
def basename (name : String) : String :=
  let parts := (name.toList.splitOn '/').filter (fun part => part ≠ [] ∧ part ≠ ['.'])
  String.ofList (parts.getLast?.getD [])

/-- The files of one directory by name. A directory that is not there is an empty one. -/
structure CacheDir where
  files : List (String × String)
  distinct : (files.map Prod.fst).Nodup
  components : ∀ name ∈ files.map Prod.fst, '/' ∉ name.toList

def CacheDir.empty : CacheDir := ⟨[], List.nodup_nil, by simp⟩

theorem slash_notMem_splitOn (cs : List Char) : ∀ part ∈ cs.splitOn '/', '/' ∉ part := by
  induction cs with
  | nil => simp
  | cons c cs ih =>
    rw [List.splitOn_cons_eq_if_modifyHead]
    split
    · rintro part (_ | ⟨_, hpart⟩)
      · exact List.not_mem_nil
      · exact ih part hpart
    · rename_i hc
      cases hsplit : cs.splitOn '/' with
      | nil => simp
      | cons first rest =>
        rw [hsplit] at ih
        rintro part (_ | ⟨_, hpart⟩)
        · have hfirst := ih first List.mem_cons_self
          have hne : c ≠ '/' := fun he => hc (beq_iff_eq.mpr he)
          simp [hfirst, hne.symm]
        · exact ih part (List.mem_cons_of_mem first hpart)

/-- A stored name never leaves the directory downwards. -/
theorem slash_notMem_basename (name : String) : '/' ∉ (basename name).toList := by
  unfold basename
  rw [String.toList_ofList]
  cases hlast : ((name.toList.splitOn '/').filter
      (fun part => part ≠ [] ∧ part ≠ ['.'])).getLast? with
  | none => exact List.not_mem_nil
  | some part =>
    have hmem := List.mem_of_mem_filter (List.mem_of_getLast? hlast)
    exact slash_notMem_splitOn name.toList part hmem

/-- `none` where the name is that of a directory, and `write_text` raises. -/
def CacheDir.write (dir : CacheDir) (name text : String) : Option CacheDir :=
  if basename name = "" ∨ basename name = ".." then none
  else some
    { files := Dict.setItem dir.files (basename name) text
      distinct := Dict.nodup_setItem dir.distinct (basename name) text
      components := by
        intro key hkey
        rcases Dict.mem_keys_setItem.mp hkey with hold | rfl
        · exact dir.components key hold
        · exact slash_notMem_basename name }

section
variable (codec : Codec)

/-- Up to the first name that cannot be written, and whether all were. -/
def CacheDir.writeAll (dir : CacheDir) : List (String × Json) → CacheDir × Bool
  | [] => (dir, true)
  | file :: cache =>
    match dir.write file.1 (codec.dumps file.2) with
    | none => (dir, false)
    | some written => CacheDir.writeAll written cache

/-- `glob("*.json")`. -/
def matchesGlob (name : String) : Prop := ".json".toList <:+ name.toList

instance (name : String) : Decidable (matchesGlob name) :=
  inferInstanceAs (Decidable (".json".toList <:+ name.toList))

/-- A file that does not parse is skipped. -/
def CacheDir.read (dir : CacheDir) : List (String × Json) :=
  let found :=
    (dir.files.filter (fun file => matchesGlob file.1)).insertionSort (fun a b => a.1 ≤ b.1)
  found.filterMap (fun file => (codec.loads file.2).map (fun payload => (file.1, payload)))

/-- What lies under the root of one domain. -/
structure DomainFiles where
  schemaYaml : Option String
  instanceTable : Option String
  predicateMap : Option String
  extractionCache : CacheDir

def DomainFiles.empty : DomainFiles := ⟨.none, .none, .none, .empty⟩

/-! ## Materialise and capture -/

/-- The report of `materialize`. -/
structure Written where
  schema : Bool
  instanceTable : Bool
  predicateMap : Bool
  cacheFiles : Nat
  relationsAvailable : Bool
deriving DecidableEq

/-- A document that Python takes for false is not written. -/
def writeDocument (payload : Option Json) (file : Option String) : Option String :=
  ((truthy payload).map codec.dumps).or file

variable {γ : Type} (env : BuildEnv γ)

/-- The files and the report; no report where it raises. -/
def DomainFiles.materialize (files : DomainFiles) (artifacts : StoredArtifacts) :
    DomainFiles × Option Written :=
  let cache := files.extractionCache.writeAll codec artifacts.extractionCache
  let schema := schemaText env artifacts.schema
  let table := truthy artifacts.instanceTable
  let predicates := truthy artifacts.predicateMap
  let count := artifacts.extractionCache.length
  let written : DomainFiles :=
    { schemaYaml := schema.or files.schemaYaml
      instanceTable := writeDocument codec artifacts.instanceTable files.instanceTable
      predicateMap := writeDocument codec artifacts.predicateMap files.predicateMap
      extractionCache := cache.1 }
  let report : Written :=
    { schema := schema.isSome
      instanceTable := table.isSome
      predicateMap := predicates.isSome
      cacheFiles := count
      relationsAvailable := table.isSome && predicates.isSome && count ≠ 0 }
  (written, if cache.2 then some report else none)

/-- The dictionary that `capture` returns; a cache without files has no key in it. -/
structure Captured where
  instanceTable : Option Json
  predicateMap : Option Json
  extractionCache : List (String × Json)
deriving DecidableEq

/-- `none` where the document does not parse, and `json.loads` raises. -/
def readJson : Option String → Option (Option Json)
  | none => some none
  | some text => (codec.loads text).map some

def DomainFiles.capture (files : DomainFiles) : Option Captured :=
  match readJson codec files.instanceTable, readJson codec files.predicateMap with
  | some table, some predicates => some ⟨table, predicates, files.extractionCache.read codec⟩
  | _, _ => none

end

/-! ## The roots -/

structure ArtifactRoot where
  tenantId : Uuid
  domain : String
deriving DecidableEq

abbrev Disk := ArtifactRoot → DomainFiles

section
variable {γ : Type} (env : BuildEnv γ) (codec : Codec)

/-- Keyed by the tenant's id, and by the domain as `domain.strip().lower()` leaves it. -/
def tenantRoot (tenantId : Uuid) (domain : String) : ArtifactRoot :=
  ⟨tenantId, env.domainKey domain⟩

def Disk.empty : Disk := fun _ => .empty

/-- `materialize(tenant_root(ctx, domain), domain, artifacts)`. -/
def Disk.materialize (disk : Disk) (tenantId : Uuid) (domain : String)
    (artifacts : StoredArtifacts) : Disk × Option Written :=
  let written := (disk (tenantRoot env tenantId domain)).materialize codec env artifacts
  (Function.update disk (tenantRoot env tenantId domain) written.1, written.2)

def Disk.capture (disk : Disk) (tenantId : Uuid) (domain : String) : Option Captured :=
  (disk (tenantRoot env tenantId domain)).capture codec

end

/-! ## Bundles -/

/-- The name of a file that `capture` found. -/
def CapturedName (name : String) : Prop := '/' ∉ name.toList ∧ matchesGlob name

instance (name : String) : Decidable (CapturedName name) := inferInstanceAs (Decidable (_ ∧ _))

/-- The artifacts of a session, with the names its draft captured. -/
structure Bundle where
  artifacts : StoredArtifacts
  captured : ∀ file ∈ artifacts.extractionCache, CapturedName file.1
  distinct : (artifacts.extractionCache.map Prod.fst).Nodup

theorem basename_of_captured {name : String} (h : CapturedName name) : basename name = name := by
  have hlength : 5 ≤ name.toList.length := h.2.length_le
  have hnil : name.toList ≠ [] := by
    intro he
    rw [he] at hlength
    exact absurd hlength (by decide)
  have hdot : name.toList ≠ ['.'] := by
    intro he
    rw [he] at hlength
    exact absurd hlength (by decide)
  unfold basename
  rw [List.splitOn_eq_singleton h.1]
  simp [hnil, hdot]

theorem write_of_captured (dir : CacheDir) {name : String} (h : CapturedName name) (text : String) :
    ∃ written, dir.write name text = some written ∧
      written.files = Dict.setItem dir.files name text := by
  have hlength : 5 ≤ name.toList.length := h.2.length_le
  have hname : ¬ (basename name = "" ∨ basename name = "..") := by
    rw [basename_of_captured h]
    rintro (rfl | rfl) <;> exact absurd hlength (by decide)
  refine ⟨_, if_neg hname, ?_⟩
  change Dict.setItem dir.files (basename name) text = _
  rw [basename_of_captured h]

/-! ## The files as documents -/

section
variable {codec : Codec} {γ : Type} {env : BuildEnv γ}

/-- The files as written are the documents of the directory. -/
structure Mirrors (codec : Codec) (files : DomainFiles) (dir : Directory) : Prop where
  schema : files.schemaYaml = dir.schema
  instanceTable : files.instanceTable = dir.instanceTable.map codec.dumps
  predicateMap : files.predicateMap = dir.predicateMap.map codec.dumps
  extractionCache : files.extractionCache.files =
    dir.extractionCache.map (fun file => (file.1, codec.dumps file.2))

theorem mirrors_empty : Mirrors codec .empty .empty := ⟨rfl, rfl, rfl, rfl⟩

theorem writeAll_spec {cache : List (String × Json)} (h : ∀ file ∈ cache, CapturedName file.1)
    {dir : CacheDir} {documents : List (String × Json)}
    (hdir : dir.files = documents.map (fun file => (file.1, codec.dumps file.2))) :
    ∃ written, dir.writeAll codec cache = (written, true) ∧
      written.files =
      (Dict.update documents cache).map (fun file => (file.1, codec.dumps file.2)) := by
  induction cache generalizing dir documents with
  | nil => exact ⟨dir, rfl, hdir⟩
  | cons file cache ih =>
    obtain ⟨first, hfirst, hfiles⟩ :=
      write_of_captured dir (h file List.mem_cons_self) (codec.dumps file.2)
    rw [hdir, Dict.setItem_map] at hfiles
    obtain ⟨written, hall, hwritten⟩ := ih (fun f hf => h f (List.mem_cons_of_mem file hf)) hfiles
    refine ⟨written, ?_, hwritten⟩
    rw [CacheDir.writeAll, hfirst]
    exact hall

theorem writeDocument_map (payload document : Option Json) :
    writeDocument codec payload (document.map codec.dumps) =
      ((truthy payload).or document).map codec.dumps := by
  unfold writeDocument
  cases truthy payload <;> rfl

theorem cache_materialize (dir : Directory) (artifacts : StoredArtifacts) :
    (materialize env dir artifacts).extractionCache =
      Dict.update dir.extractionCache artifacts.extractionCache := by
  change artifacts.extractionCache.foldl _ dir.extractionCache =
    artifacts.extractionCache.foldl _ dir.extractionCache
  simp only [setField_eq_setItem]

/-- Materialising a bundle succeeds, and does to the files what it does to the documents. -/
theorem materialize_mirrors {files : DomainFiles} {dir : Directory} (h : Mirrors codec files dir)
    (b : Bundle) :
    Mirrors codec (files.materialize codec env b.artifacts).1 (materialize env dir b.artifacts) ∧
      (files.materialize codec env b.artifacts).2.isSome := by
  obtain ⟨written, hall, hwritten⟩ := writeAll_spec b.captured h.extractionCache
  unfold DomainFiles.materialize
  rw [hall]
  refine ⟨⟨?_, ?_, ?_, ?_⟩, rfl⟩
  · exact congrArg (Option.or (schemaText env b.artifacts.schema)) h.schema
  · rw [h.instanceTable]
    exact writeDocument_map b.artifacts.instanceTable dir.instanceTable
  · rw [h.predicateMap]
    exact writeDocument_map b.artifacts.predicateMap dir.predicateMap
  · rw [cache_materialize]
    exact hwritten

theorem readJson_map (document : Option Json) :
    readJson codec (document.map codec.dumps) = some document := by
  cases document with
  | none => rfl
  | some v =>
    change (codec.loads (codec.dumps v)).map some = _
    rw [codec.loads_dumps, Option.map_some]

/-- Every file that was written is read back. -/
theorem read_eq {dir : CacheDir} {documents : List (String × Json)}
    (h : ∀ file ∈ documents, matchesGlob file.1)
    (hdir : dir.files = documents.map (fun file => (file.1, codec.dumps file.2))) :
    dir.read codec = documents.insertionSort (fun a b => a.1 ≤ b.1) := by
  have hall : (documents.map (fun file => (file.1, codec.dumps file.2))).filter
      (fun file => matchesGlob file.1) =
      documents.map (fun file => (file.1, codec.dumps file.2)) := by
    refine List.filter_eq_self.mpr (fun file hfile => ?_)
    obtain ⟨document, hdocument, rfl⟩ := List.mem_map.mp hfile
    exact decide_eq_true (h document hdocument)
  unfold CacheDir.read
  rw [hdir, hall, ← List.map_insertionSort (fun a b : String × Json => a.1 ≤ b.1)
    (fun a b : String × String => a.1 ≤ b.1)
    (fun file => (file.1, codec.dumps file.2)) documents (fun _ _ _ _ => Iff.rfl)]
  simp only [List.filterMap_map, Function.comp_def, codec.loads_dumps, Option.map_some]
  exact List.filterMap_some

theorem capture_mirrors {files : DomainFiles} {dir : Directory} (h : Mirrors codec files dir)
    (hnames : ∀ file ∈ dir.extractionCache, matchesGlob file.1) :
    files.capture codec =
      some ⟨dir.instanceTable, dir.predicateMap,
        dir.extractionCache.insertionSort (fun a b => a.1 ≤ b.1)⟩ := by
  unfold DomainFiles.capture
  rw [h.instanceTable, h.predicateMap, readJson_map, readJson_map, read_eq hnames h.extractionCache]

end

/-! ## What is left of earlier bundles -/

section
variable {γ : Type} {env : BuildEnv γ} {dir : Directory} {bundles : List Bundle}

/-- The document is that of one of the payloads that were written, if any was. -/
def LeftBy (payloads : List (Option Json)) (document : Option Json) : Prop :=
  (document = none ↔ ∀ payload ∈ payloads, truthy payload = none) ∧ truthy document = document

theorem truthy_truthy (payload : Option Json) : truthy (truthy payload) = truthy payload := by
  unfold truthy
  rw [Option.filter_filter]
  simp only [Bool.and_self]

theorem LeftBy.append {payloads : List (Option Json)} {document : Option Json}
    (h : LeftBy payloads document) (payload : Option Json) :
    LeftBy (payloads ++ [payload]) ((truthy payload).or document) := by
  cases hp : truthy payload with
  | none =>
    refine ⟨?_, h.2⟩
    rw [Option.none_or, h.1, List.forall_mem_append, List.forall_mem_singleton]
    exact (and_iff_left hp).symm
  | some v =>
    refine ⟨iff_of_false (by simp) ?_, ?_⟩
    · intro hall
      have hnone := hall payload (List.mem_append_right payloads (List.mem_singleton_self payload))
      rw [hp] at hnone
      cases hnone
    · rw [Option.some_or, ← hp, truthy_truthy]

/-- The next payload is what is read exactly when it is written, or nothing is left to be read. -/
theorem LeftBy.eq_iff {payloads : List (Option Json)} {document : Option Json}
    (h : LeftBy payloads document) (payload : Option Json) :
    (truthy payload).or document = payload ↔ truthy payload = payload ∧
      (payload = none → ∀ earlier ∈ payloads, truthy earlier = none) := by
  cases hp : truthy payload with
  | some v =>
    have hsome : payload = some v := (Option.filter_eq_some_iff.mp hp).1
    rw [hsome, Option.some_or]
    simp
  | none =>
    rw [Option.none_or, ← h.1]
    constructor
    · intro hsame
      have hnone : payload = none := by rw [← hp, ← hsame, h.2]
      exact ⟨hnone.symm, fun _ => hsame.trans hnone⟩
    · rintro ⟨hnone, hleft⟩
      exact (hleft hnone.symm).trans hnone

def StoredArtifacts.cacheNames (artifacts : StoredArtifacts) : List String :=
  artifacts.extractionCache.map Prod.fst

structure Leftover (bundles : List Bundle) (dir : Directory) : Prop where
  instanceTable : LeftBy (bundles.map (fun b => b.artifacts.instanceTable)) dir.instanceTable
  predicateMap : LeftBy (bundles.map (fun b => b.artifacts.predicateMap)) dir.predicateMap
  cacheNames : ∀ name, name ∈ dir.extractionCache.map Prod.fst ↔
    ∃ b ∈ bundles, name ∈ b.artifacts.cacheNames
  distinct : (dir.extractionCache.map Prod.fst).Nodup

theorem leftover_empty : Leftover [] .empty where
  instanceTable := ⟨by simp [Directory.empty], rfl⟩
  predicateMap := ⟨by simp [Directory.empty], rfl⟩
  cacheNames := by simp [Directory.empty]
  distinct := List.nodup_nil

theorem Leftover.materialize (h : Leftover bundles dir) (b : Bundle) :
    Leftover (bundles ++ [b]) (materialize env dir b.artifacts) where
  instanceTable := by
    rw [List.map_append, List.map_singleton]
    exact h.instanceTable.append b.artifacts.instanceTable
  predicateMap := by
    rw [List.map_append, List.map_singleton]
    exact h.predicateMap.append b.artifacts.predicateMap
  cacheNames := by
    intro name
    rw [cache_materialize, Dict.mem_keys_update, h.cacheNames]
    simp [or_and_right, exists_or, StoredArtifacts.cacheNames]
  distinct := by
    rw [cache_materialize]
    exact Dict.nodup_update h.distinct b.artifacts.extractionCache

theorem Leftover.captured (h : Leftover bundles dir) :
    ∀ file ∈ dir.extractionCache, matchesGlob file.1 := by
  intro file hfile
  obtain ⟨b, -, hname⟩ := (h.cacheNames file.1).mp (List.mem_map_of_mem hfile)
  obtain ⟨named, hnamed, hsame⟩ := List.mem_map.mp hname
  exact hsame ▸ (b.captured named hnamed).2

/-- The dictionary holds the artifacts of the bundle, and no others. -/
structure Captured.Is (captured : Captured) (artifacts : StoredArtifacts) : Prop where
  instanceTable : captured.instanceTable = artifacts.instanceTable
  predicateMap : captured.predicateMap = artifacts.predicateMap
  extractionCache : ∀ name,
    captured.extractionCache.lookup name = artifacts.extractionCache.lookup name

/-- Whatever the older artifacts brought, the newer ones bring too. -/
structure StoredArtifacts.Covers (newer older : StoredArtifacts) : Prop where
  instanceTable : newer.instanceTable = none → truthy older.instanceTable = none
  predicateMap : newer.predicateMap = none → truthy older.predicateMap = none
  cacheNames : ∀ name ∈ older.cacheNames, name ∈ newer.cacheNames

/-- A document that is there is one that is written. -/
structure StoredArtifacts.Substantial (artifacts : StoredArtifacts) : Prop where
  instanceTable : truthy artifacts.instanceTable = artifacts.instanceTable
  predicateMap : truthy artifacts.predicateMap = artifacts.predicateMap

theorem lookup_update_eq_iff {older newer : List (String × Json)} (h : (newer.map Prod.fst).Nodup) :
    (∀ name, (Dict.update older newer).lookup name = newer.lookup name) ↔
      ∀ name ∈ older.map Prod.fst, name ∈ newer.map Prod.fst := by
  refine forall_congr' (fun name => ?_)
  rw [Dict.lookup_update h]
  by_cases hnew : name ∈ newer.map Prod.fst
  · obtain ⟨v, hv⟩ := Option.ne_none_iff_exists'.mp (fun hnone => Dict.lookup_eq_none.mp hnone hnew)
    simp [hv, hnew]
  · rw [Dict.lookup_eq_none.mpr hnew, Option.none_or, Dict.lookup_eq_none]
    exact (imp_iff_not hnew).symm

/-- Over what earlier bundles left, a bundle is read back exactly under the two conditions. -/
theorem Leftover.is_iff (h : Leftover bundles dir) (b : Bundle) :
    Captured.Is ⟨(Workloads.materialize env dir b.artifacts).instanceTable,
      (Workloads.materialize env dir b.artifacts).predicateMap,
      (Workloads.materialize env dir b.artifacts).extractionCache.insertionSort
      (fun a b => a.1 ≤ b.1)⟩ b.artifacts ↔
      b.artifacts.Substantial ∧ ∀ older ∈ bundles, b.artifacts.Covers older.artifacts := by
  have hcache : (∀ name, ((Workloads.materialize env dir b.artifacts).extractionCache.insertionSort
      (fun a b => a.1 ≤ b.1)).lookup name = b.artifacts.extractionCache.lookup name) ↔
      ∀ older ∈ bundles, ∀ name ∈ older.artifacts.cacheNames, name ∈ b.artifacts.cacheNames := by
    have hlookup : ∀ name,
        ((Workloads.materialize env dir b.artifacts).extractionCache.insertionSort
          (fun a b => a.1 ≤ b.1)).lookup name =
        (Dict.update dir.extractionCache b.artifacts.extractionCache).lookup name := by
      intro name
      rw [cache_materialize]
      exact Dict.lookup_perm (List.perm_insertionSort _ _)
        ((List.perm_insertionSort _ _).map Prod.fst |>.nodup_iff.mpr
          (Dict.nodup_update h.distinct _)) name
    simp only [hlookup, lookup_update_eq_iff b.distinct, h.cacheNames]
    constructor
    · intro hall older holder name hname
      exact hall name ⟨older, holder, hname⟩
    · rintro hall name ⟨older, holder, hname⟩
      exact hall older holder name hname
  have htable := h.instanceTable.eq_iff b.artifacts.instanceTable
  have hpredicates := h.predicateMap.eq_iff b.artifacts.predicateMap
  rw [List.forall_mem_map] at htable hpredicates
  constructor
  · intro his
    obtain ⟨htable, hearlier⟩ := htable.mp his.instanceTable
    obtain ⟨hpredicates, hearlier'⟩ := hpredicates.mp his.predicateMap
    exact ⟨⟨htable, hpredicates⟩, fun older holder =>
      ⟨fun hnone => hearlier hnone older holder, fun hnone => hearlier' hnone older holder,
        hcache.mp his.extractionCache older holder⟩⟩
  · rintro ⟨hsubstantial, hcovers⟩
    exact ⟨htable.mpr ⟨hsubstantial.instanceTable,
      fun hnone older holder => (hcovers older holder).instanceTable hnone⟩,
      hpredicates.mpr ⟨hsubstantial.predicateMap,
        fun hnone older holder => (hcovers older holder).predicateMap hnone⟩,
      hcache.mpr (fun older holder => (hcovers older holder).cacheNames)⟩

end

/-! ## Publications one after the other -/

structure Materialization where
  tenantId : Uuid
  domain : String
  bundle : Bundle

section
variable {γ : Type} (env : BuildEnv γ) (codec : Codec)

def Materialization.root (m : Materialization) : ArtifactRoot := tenantRoot env m.tenantId m.domain

def Disk.run (disk : Disk) (steps : List Materialization) : Disk :=
  steps.foldl (fun disk m => (disk.materialize env codec m.tenantId m.domain m.bundle.artifacts).1)
    disk

/-- The bundles that were materialised under a root. -/
def bundlesAt (steps : List Materialization) (root : ArtifactRoot) : List Bundle :=
  (steps.filter (fun m => m.root env = root)).map Materialization.bundle

theorem materialize_root (disk : Disk) (tenantId : Uuid) (domain : String)
    (artifacts : StoredArtifacts) :
    (disk.materialize env codec tenantId domain artifacts).1 (tenantRoot env tenantId domain) =
      ((disk (tenantRoot env tenantId domain)).materialize codec env artifacts).1 :=
  Function.update_self ..

theorem run_append (disk : Disk) (steps : List Materialization) (m : Materialization) :
    disk.run env codec (steps ++ [m]) =
      ((disk.run env codec steps).materialize env codec m.tenantId m.domain
        m.bundle.artifacts).1 := by
  unfold Disk.run
  rw [List.foldl_append, List.foldl_cons, List.foldl_nil]

theorem bundlesAt_append (steps : List Materialization) (m : Materialization)
    (root : ArtifactRoot) :
    bundlesAt env (steps ++ [m]) root = bundlesAt env steps root ++ if m.root env =
      root then [m.bundle]
      else [] := by
  unfold bundlesAt
  rw [List.filter_append, List.map_append]
  by_cases h : m.root env = root <;> simp [h]

theorem run_leaves (steps : List Materialization) (root : ArtifactRoot) :
    ∃ dir, Mirrors codec (Disk.empty.run env codec steps root) dir ∧
      Leftover (bundlesAt env steps root) dir := by
  induction steps using List.reverseRecOn with
  | nil => exact ⟨.empty, mirrors_empty, leftover_empty⟩
  | append_singleton steps m ih =>
    obtain ⟨dir, hfiles, hleft⟩ := ih
    rw [run_append, bundlesAt_append]
    by_cases hroot : m.root env = root
    · subst hroot
      refine ⟨materialize env dir m.bundle.artifacts, ?_, ?_⟩
      · rw [Materialization.root, materialize_root]
        exact (materialize_mirrors hfiles m.bundle).1
      · rw [if_pos rfl]
        exact hleft.materialize m.bundle
    · refine ⟨dir, ?_, ?_⟩
      · have hother : ((Disk.empty.run env codec steps).materialize env codec m.tenantId m.domain
            m.bundle.artifacts).1 root = Disk.empty.run env codec steps root :=
          Function.update_of_ne (Ne.symm hroot) _ _
        rwa [hother]
      · rw [if_neg hroot, List.append_nil]
        exact hleft

/-- What is captured after a publication, over any earlier ones. -/
theorem capture_run (earlier : List Materialization) (m : Materialization) :
    ∃ dir, Leftover (bundlesAt env earlier (m.root env)) dir ∧
      (Disk.empty.run env codec (earlier ++ [m])).capture env codec m.tenantId m.domain =
      some ⟨(materialize env dir m.bundle.artifacts).instanceTable,
        (materialize env dir m.bundle.artifacts).predicateMap,
        (materialize env dir m.bundle.artifacts).extractionCache.insertionSort
        (fun a b => a.1 ≤ b.1)⟩ := by
  obtain ⟨dir, hfiles, hleft⟩ := run_leaves env codec earlier (m.root env)
  refine ⟨dir, hleft, ?_⟩
  rw [run_append, Disk.capture, materialize_root]
  exact capture_mirrors (materialize_mirrors hfiles m.bundle).1
    (hleft.materialize m.bundle).captured

/-- A publication captures as the bundle it materialised exactly when the documents it has are
written, and it brings all that earlier bundles under the same root had brought. -/
theorem capture_returns_bundle_iff (earlier : List Materialization) (m : Materialization) :
    (∃ captured, (Disk.empty.run env codec (earlier ++ [m])).capture env codec m.tenantId m.domain =
      some captured ∧ captured.Is m.bundle.artifacts) ↔ m.bundle.artifacts.Substantial ∧
      ∀ older ∈ bundlesAt env earlier (m.root env), m.bundle.artifacts.Covers older.artifacts := by
  obtain ⟨dir, hleft, hcapture⟩ := capture_run env codec earlier m
  rw [hcapture]
  simp only [Option.some.injEq, exists_eq_left']
  exact hleft.is_iff m.bundle

end

/-! ## A second publication -/

def plainBuildEnv : BuildEnv Unit where
  sha256 text := text
  numberOfNodes _ := 0
  numberOfEdges _ := 0
  domainKey := fun domain => lower (strip domain)
  valueText _ := ""
  knowledgeGraph _ _ _ := some ()

def pumpTable : Json := .obj [("instances", .arr [.obj [("entity_type", .str "Pump")]])]

/-- A draft with relations. -/
def firstTaxonomy : Materialization where
  tenantId := 1
  domain := "Datacenter"
  bundle :=
    { artifacts :=
        { schema := some (.obj [("yaml", .str "domain: datacenter")])
          instanceTable := some pumpTable
          predicateMap := some (.obj [("predicate_map", .obj [("feeds", .str "FEEDS")])])
          candidateQueries := none
          extractionCache := [("chunk_1.json", .obj [("relations", .arr [])])] }
      captured := by decide
      distinct := by decide }

/-- A later draft of the domain, without. -/
def secondTaxonomy : Materialization where
  tenantId := 1
  domain := "datacenter"
  bundle :=
    { artifacts :=
        { schema := some (.obj [("yaml", .str "domain: datacenter")])
          instanceTable := some pumpTable
          predicateMap := none
          candidateQueries := none
          extractionCache := [("chunk_2.json", .obj [("relations", .arr [])])] }
      captured := by decide
      distinct := by decide }

theorem predicates_left_over :
    ¬ ∃ captured, (Disk.empty.run plainBuildEnv Json.asciiCodec
      [firstTaxonomy, secondTaxonomy]).capture
      plainBuildEnv Json.asciiCodec secondTaxonomy.tenantId secondTaxonomy.domain = some captured ∧
      captured.Is secondTaxonomy.bundle.artifacts := by
  obtain ⟨dir, hleft, hcapture⟩ :=
    capture_run plainBuildEnv Json.asciiCodec [firstTaxonomy] secondTaxonomy
  rintro ⟨captured, hcaptured, his⟩
  have hsame := Option.some.inj (hcaptured.symm.trans hcapture)
  rw [hsame] at his
  have hcovers := (hleft.is_iff secondTaxonomy.bundle).mp his
  have holder : firstTaxonomy.bundle ∈ bundlesAt plainBuildEnv [firstTaxonomy]
      (secondTaxonomy.root plainBuildEnv) := by
    have hroot : firstTaxonomy.root plainBuildEnv = secondTaxonomy.root plainBuildEnv := by
      decide +kernel
    simp [bundlesAt, hroot]
  have hleftOver := (hcovers.2 firstTaxonomy.bundle holder).predicateMap rfl
  exact absurd hleftOver (by decide +kernel)

end AgenticPlatform.Workloads
