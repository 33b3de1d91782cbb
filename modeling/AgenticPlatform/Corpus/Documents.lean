import AgenticPlatform.Foundation.Table
import AgenticPlatform.Foundation.Json
import AgenticPlatform.Identity.Principal
import AgenticPlatform.Settings
import Mathlib.Logic.Function.Basic

/-!
# Documents

The document rows of a tenant and the objects that hold their bytes. A document is
known by its collection and filename; an upload under a known name retires the row
that is there and puts a new one beside it, and a withdrawal retires a row. SHA-256
and the texts of identifiers are parameters, decoding and the ids the server generates
are arguments.
-/
namespace AgenticPlatform.Corpus
open AgenticPlatform.Foundation AgenticPlatform.Identity

abbrev Bytes := List UInt8

structure DocumentEnv where
  sha256 : Bytes → String
  uuidText : Uuid → String

structure DocumentRow where
  id : Uuid
  collection : String
  filename : String
  contentSha256 : String
  byteSize : Nat
  storageKey : String
  uploadedBy : Option Uuid
  createdAt : Time
  supersededAt : Option Time
  supersededBy : Option Uuid
deriving DecidableEq

/-- superseded_at IS NULL. -/
def DocumentRow.current (d : DocumentRow) : Prop := d.supersededAt = none

instance (d : DocumentRow) : Decidable d.current := inferInstanceAs (Decidable (_ = none))

abbrev DocumentTable := Table DocumentRow DocumentRow.id

/-- Rows and objects, with the partial unique index on the names of current rows. -/
structure Library where
  documents : DocumentTable
  objects : String → Option Bytes
  one_current : ∀ a ∈ documents.rows, ∀ b ∈ documents.rows, a.current → b.current →
    a.collection = b.collection → a.filename = b.filename → a = b

def Library.empty : Library where
  documents := Table.empty
  objects := fun _ => none
  one_current := by
    intro a ha
    cases ha

/-- The current documents of a collection. -/
def Library.currentOf (lib : Library) (collection : String) : List DocumentRow :=
  lib.documents.rows.filter (fun d => d.collection = collection ∧ d.current)

theorem mem_currentOf {lib : Library} {collection : String} {d : DocumentRow} :
    d ∈ lib.currentOf collection ↔ d ∈ lib.documents.rows ∧ d.collection = collection ∧
      d.current := by
  rw [Library.currentOf, List.mem_filter, decide_eq_true_eq]

/-! ## Upload -/

def collectionStart (c : Char) : Bool := c.isLower || c.isDigit

/-- The pattern ^[a-z0-9][a-z0-9_-]*$ with at most 128 characters. -/
def isCollectionName (name : String) : Bool :=
  match name.toList with
  | [] => false
  | c :: cs => collectionStart c && cs.all (fun c => collectionStart c || c = '_' || c = '-') &&
    cs.length < 128

theorem isCollectionName_manuals : isCollectionName "manuals" = true := by decide +kernel

/-- The payload; the content is what base64 decodes to, if it does. -/
structure DocumentCreate where
  collection : String
  filename : String
  content : Option Bytes
  collection_valid : isCollectionName collection = true
  filename_valid : 1 ≤ filename.toList.length ∧ filename.toList.length ≤ 512
deriving DecidableEq

/-- A collection name is made of few characters. -/
theorem mem_collectionName {name : String} {c : Char} (h : isCollectionName name = true)
    (hc : c ∈ name.toList) : (collectionStart c || c = '_' || c = '-') = true := by
  unfold isCollectionName at h
  split at h
  · cases h
  · rename_i a cs hname
    simp only [Bool.and_eq_true, List.all_eq_true] at h
    rw [hname, List.mem_cons] at hc
    rcases hc with rfl | hmem
    · simp [h.1.1]
    · exact h.1.2 c hmem

/-- A collection name has no colon. -/
theorem colon_not_mem {name : String} (h : isCollectionName name = true) : ':' ∉ name.toList := by
  intro hmem
  exact absurd (mem_collectionName h hmem) (by decide)

theorem slash_not_mem {name : String} (h : isCollectionName name = true) : '/' ∉ name.toList := by
  intro hmem
  exact absurd (mem_collectionName h hmem) (by decide)

/-- What two texts have before the first of a character, and after it. -/
theorem split_at_first {c : Char} {xs xs' ys ys' : List Char} (h : c ∉ xs) (h' : c ∉ xs')
    (heq : xs ++ c :: ys = xs' ++ c :: ys') : xs = xs' ∧ ys = ys' := by
  induction xs generalizing xs' with
  | nil =>
    cases xs' with
    | nil => exact ⟨rfl, (List.cons.inj heq).2⟩
    | cons x xs' => exact absurd ((List.cons.inj heq).1 ▸ List.mem_cons_self) h'
  | cons x xs ih =>
    cases xs' with
    | nil => exact absurd ((List.cons.inj heq).1 ▸ List.mem_cons_self) h
    | cons x' xs' =>
      obtain ⟨rfl, hrest⟩ := List.cons.inj heq
      obtain ⟨rfl, rfl⟩ :=
        ih (fun hm => h (List.mem_cons_of_mem x hm))
          (fun hm => h' (List.mem_cons_of_mem x hm)) hrest
      exact ⟨rfl, rfl⟩

inductive HttpError where
  | unsupportedType (suffix : String)
  | invalidBase64
  | emptyFile
  | tooLarge
  | storeUnavailable
  | notFound
  | notWithdrawn
  | stateChanged
deriving DecidableEq

def HttpError.status : HttpError → Nat
  | .unsupportedType _ => 415
  | .invalidBase64 | .emptyFile => 400
  | .tooLarge => 413
  | .storeUnavailable => 503
  | .notFound => 404
  | .notWithdrawn | .stateChanged => 409

def allowedSuffixes : List String := [".csv", ".html", ".md", ".txt"]

def maxUploadBytes : Nat := 50 * 1024 * 1024

/-- The last part of a path. -/
def pathName (filename : String) : List Char :=
  (((filename.toList.splitOn '/').filter (fun part => part ≠ [] ∧ part ≠ ['.'])).getLast?).getD []

/-- `Path(filename).suffix.lower()`: from the last dot on, unless that dot starts or ends
the name. -/
def pathSuffix (filename : String) : String :=
  let name := pathName filename
  let tail := name.reverse.takeWhile (fun c => c ≠ '.')
  if tail ≠ [] ∧ tail.length + 1 < name.length then
    String.ofList (('.' :: tail.reverse).map Char.toLower)
  else ""

def validate (q : DocumentCreate) : Except HttpError (String × Bytes) :=
  let suffix := pathSuffix q.filename
  if suffix ∉ allowedSuffixes then .error (.unsupportedType suffix)
  else
    match q.content with
    | none => .error .invalidBase64
    | some [] => .error .emptyFile
    | some content => if maxUploadBytes < content.length then .error .tooLarge
      else .ok (suffix, content)

/-- `key_for(ctx, "documents", collection, …)`. -/
def storageKeyFor (env : DocumentEnv) (tenantId : Uuid) (collection sha256 suffix : String) :
    String :=
  "t/" ++ env.uuidText tenantId ++ "/documents/" ++ collection ++ "/" ++ sha256 ++ suffix

/-- `put(if_absent=True)`; a conflict means that the bytes are there. -/
def putIfAbsent (objects : String → Option Bytes) (key : String) (content : Bytes) :
    String → Option Bytes :=
  if objects key = none then Function.update objects key (some content) else objects

theorem putIfAbsent_of_some {objects : String → Option Bytes} {key k : String}
    {content bytes : Bytes} (h : objects k = some bytes) :
    putIfAbsent objects key content k = some bytes := by
  unfold putIfAbsent
  split
  · rename_i hnone
    rw [Function.update_of_ne _, h]
    rintro rfl
    rw [h] at hnone
    cases hnone
  · exact h

def Library.existing (lib : Library) (collection filename : String) : Option DocumentRow :=
  lib.documents.rows.find? (fun d => d.collection = collection ∧ d.filename = filename ∧ d.current)

inductive CreateOutcome where
  | unchanged (d : DocumentRow)
  | created (d : DocumentRow) (replaced : Option Uuid)

/-- Who uploads, and what the server generates. -/
structure Upload where
  tenantId : Uuid
  by_ : Uuid
  newId : Uuid
  now : Time

def newDocument (env : DocumentEnv) (u : Upload) (q : DocumentCreate) (suffix : String)
    (content : Bytes) : DocumentRow where
  id := u.newId
  collection := q.collection
  filename := q.filename
  contentSha256 := env.sha256 content
  byteSize := content.length
  storageKey := storageKeyFor env u.tenantId q.collection (env.sha256 content) suffix
  uploadedBy := some u.by_
  createdAt := u.now
  supersededAt := none
  supersededBy := none

/-- UPDATE document SET superseded_at = now(), and later superseded_by. -/
def retired (now : Time) (by_ : Option Uuid) (d : DocumentRow) : DocumentRow :=
  { d with supersededAt := some now, supersededBy := by_ }

/-- The row under the name retired and linked, the new one inserted. `none` where the
generated id is taken. -/
def Library.replace (lib : Library) (now : Time) (row : DocumentRow) : Option Library :=
  let named :=
    fun d : DocumentRow => d.collection = row.collection ∧ d.filename = row.filename ∧ d.current
  let documents := lib.documents.updateWhere named (retired now (some row.id)) (fun _ => rfl)
  if h : row.id ∉ documents.keys then
    some
      { documents := documents.insert row h
        objects := lib.objects
        one_current := by
          have hold : ∀ d ∈ documents.rows, d.current → d ∈ lib.documents.rows ∧ ¬ named d := by
            intro d hd hcurrent
            rcases Table.mem_updateWhere (f := retired now (some row.id)) (fun _ => rfl) hd with
              hd |
              ⟨a, -, -, rfl⟩
            · exact hd
            · cases hcurrent
          intro a ha b hb hca hcb hcollection hfilename
          rcases Table.mem_insert.mp ha with ha | rfl
          · obtain ⟨ha, hna⟩ := hold a ha hca
            rcases Table.mem_insert.mp hb with hb | rfl
            · exact lib.one_current a ha b (hold b hb hcb).1 hca hcb hcollection hfilename
            · exact absurd ⟨hcollection, hfilename, hca⟩ hna
          · rcases Table.mem_insert.mp hb with hb | rfl
            · exact absurd ⟨hcollection.symm, hfilename.symm, hcb⟩ (hold b hb hcb).2
            · rfl }
  else none

/-- What an upload leaves of an older row. -/
def afterUpload (now : Time) (row d : DocumentRow) : DocumentRow :=
  Table.rewrite (fun d => d.collection = row.collection ∧ d.filename = row.filename ∧ d.current)
    (retired now (some row.id)) d

/-- Name, bytes and identity stay. -/
theorem afterUpload_same (now : Time) (row d : DocumentRow) :
    (afterUpload now row d).id = d.id ∧ (afterUpload now row d).collection = d.collection ∧
      (afterUpload now row d).filename = d.filename ∧
      (afterUpload now row d).storageKey = d.storageKey := by
  unfold afterUpload Table.rewrite
  split <;> exact ⟨rfl, rfl, rfl, rfl⟩

theorem afterUpload_current {now : Time} {row d : DocumentRow}
    (h : (afterUpload now row d).current) : afterUpload now row d = d := by
  unfold afterUpload Table.rewrite at h ⊢
  split at h
  · cases h
  · exact if_neg ‹_›

theorem replace_eq_some {lib lib' : Library} {now : Time} {row : DocumentRow}
    (h : lib.replace now row = some lib') :
    row.id ∉ lib.documents.keys ∧ lib'.objects = lib.objects ∧
      lib'.documents.rows = lib.documents.rows.map (afterUpload now row) ++ [row] := by
  simp only [Library.replace] at h
  split at h
  · rename_i hfresh
    cases h
    have hkeys := Table.keys_updateWhere lib.documents
      (fun d => d.collection = row.collection ∧ d.filename = row.filename ∧ d.current)
      (retired now (some row.id)) (fun _ => rfl)
    refine ⟨?_, rfl, rfl⟩
    intro hkey
    exact hfresh ((congrArg (fun keys => row.id ∈ keys) hkeys).mpr hkey)
  · cases h

/-- Bytes first, then the row. The object store may be unavailable. -/
def Library.createDocument (env : DocumentEnv) (lib : Library) (u : Upload) (q : DocumentCreate)
    (storeUp : Bool) : Option (Library × Except HttpError CreateOutcome) :=
  match validate q with
  | .error e => some (lib, .error e)
  | .ok (suffix, content) =>
    if storeUp = false then some (lib, .error .storeUnavailable)
    else
      let row := newDocument env u q suffix content
      let stored := { lib with objects := putIfAbsent lib.objects row.storageKey content }
      match lib.existing q.collection q.filename with
      | some old =>
        if old.contentSha256 = row.contentSha256 then some (stored, .ok (.unchanged old))
        else (stored.replace u.now row).map (fun lib' => (lib', .ok (.created row (some old.id))))
      | none => (stored.replace u.now row).map (fun lib' => (lib', .ok (.created row none)))

/-- An upload stores nothing, or the bytes, or the bytes and the row. -/
theorem createDocument_cases {env : DocumentEnv} {lib lib' : Library} {u : Upload}
    {q : DocumentCreate} {storeUp : Bool} {res : Except HttpError CreateOutcome}
    (h : lib.createDocument env u q storeUp = some (lib', res)) :
    (lib' = lib ∧ ∃ e, res = .error e) ∨ ∃ suffix content, validate q = .ok (suffix, content) ∧
      lib'.objects =
      putIfAbsent lib.objects (newDocument env u q suffix content).storageKey content ∧
      ((lib'.documents = lib.documents ∧ ∃ old, res = .ok (.unchanged old)) ∨
        ∃ replaced, res = .ok (.created (newDocument env u q suffix content) replaced) ∧
        u.newId ∉ lib.documents.keys ∧ lib'.documents.rows =
        lib.documents.rows.map (afterUpload u.now (newDocument env u q suffix content)) ++
        [newDocument env u q suffix content]) := by
  unfold Library.createDocument at h
  split at h
  · cases h
    exact Or.inl ⟨rfl, _, rfl⟩
  · rename_i suffix content hvalid
    split at h
    · cases h
      exact Or.inl ⟨rfl, _, rfl⟩
    · right
      refine ⟨suffix, content, hvalid, ?_⟩
      simp only at h
      split at h
      · split at h
        · cases h
          exact ⟨rfl, Or.inl ⟨rfl, _, rfl⟩⟩
        · obtain ⟨lib'', hreplace, hres⟩ := Option.map_eq_some_iff.mp h
          cases hres
          obtain ⟨hfresh, hobjects, hrows⟩ := replace_eq_some hreplace
          exact ⟨hobjects, Or.inr ⟨_, rfl, hfresh, hrows⟩⟩
      · obtain ⟨lib'', hreplace, hres⟩ := Option.map_eq_some_iff.mp h
        cases hres
        obtain ⟨hfresh, hobjects, hrows⟩ := replace_eq_some hreplace
        exact ⟨hobjects, Or.inr ⟨_, rfl, hfresh, hrows⟩⟩

/-! ## Withdrawal and purge -/

def withdrawn (now : Time) (d : DocumentRow) : DocumentRow := { d with supersededAt := some now }

/-- The row and its withdrawn form; `none` where there is no current row. -/
def Library.deleteDocument (lib : Library) (id : Uuid) (now : Time) :
    Option (Library × DocumentRow) :=
  (lib.documents.updateKey id DocumentRow.current (withdrawn now) (fun _ => rfl)).2.map (fun d =>
    ({ documents :=
      (lib.documents.updateKey id DocumentRow.current (withdrawn now) (fun _ => rfl)).1
       objects := lib.objects
       one_current := by
         have hold : ∀ d ∈
             (lib.documents.updateKey id DocumentRow.current (withdrawn now) (fun _ => rfl)).1.rows,
             d.current → d ∈ lib.documents.rows := by
           intro d hd hcurrent
           rcases Table.mem_updateWhere (f := withdrawn now) (fun _ => rfl) hd with ⟨hd, -⟩ |
             ⟨a, -, -, rfl⟩
           · exact hd
           · cases hcurrent
         intro a ha b hb hca hcb
         exact lib.one_current a (hold a ha hca) b (hold b hb hcb) hca hcb }, d))

/-- What a withdrawal leaves of a row. -/
def afterDelete (id : Uuid) (now : Time) (d : DocumentRow) : DocumentRow :=
  Table.rewrite (fun d => d.id = id ∧ d.current) (withdrawn now) d

theorem afterDelete_same (id : Uuid) (now : Time) (d : DocumentRow) :
    (afterDelete id now d).id = d.id ∧ (afterDelete id now d).collection = d.collection ∧
      (afterDelete id now d).filename = d.filename ∧
      (afterDelete id now d).storageKey = d.storageKey := by
  unfold afterDelete Table.rewrite
  split <;> exact ⟨rfl, rfl, rfl, rfl⟩

theorem afterDelete_current {id : Uuid} {now : Time} {d : DocumentRow}
    (h : (afterDelete id now d).current) : afterDelete id now d = d ∧ d.id ≠ id := by
  unfold afterDelete Table.rewrite at h ⊢
  split at h
  · cases h
  · rename_i hnot
    refine ⟨if_neg hnot, ?_⟩
    intro hid
    exact hnot ⟨hid, h⟩

theorem deleteDocument_eq_some {lib lib' : Library} {id : Uuid} {now : Time} {d : DocumentRow}
    (h : lib.deleteDocument id now = some (lib', d)) :
    (∃ a ∈ lib.documents.rows, a.id = id ∧ a.current ∧ d = withdrawn now a) ∧
      lib'.objects = lib.objects ∧
      lib'.documents.rows = lib.documents.rows.map (afterDelete id now) := by
  obtain ⟨d', hd, hres⟩ := Option.map_eq_some_iff.mp h
  cases hres
  obtain ⟨a, ha, hid, hcurrent, rfl⟩ :=
    (lib.documents.updateKey_eq_some (f := withdrawn now) (fun _ => rfl)).mp hd
  exact ⟨⟨a, ha, hid, hcurrent, rfl⟩, rfl, rfl⟩

/-- The object first, then the row. -/
def Library.purgeDocument (lib : Library) (id : Uuid) (storeUp : Bool) :
    Library × Except HttpError DocumentRow :=
  match lib.documents.get id with
  | none => (lib, .error .notFound)
  | some d =>
    if d.current then (lib, .error .notWithdrawn)
    else if storeUp = false then (lib, .error .storeUnavailable)
    else
      ({ documents := lib.documents.deleteWhere (fun r => r.id = id ∧ ¬ r.current)
         objects := Function.update lib.objects d.storageKey none
         one_current := by
           intro a ha b hb
           exact lib.one_current a (Table.mem_deleteWhere.mp ha).1
             b (Table.mem_deleteWhere.mp hb).1 },
             .ok d)

theorem purgeDocument_cases (lib : Library) (id : Uuid) (storeUp : Bool) :
    ((lib.purgeDocument id storeUp).1 = lib ∧ ∃ e, (lib.purgeDocument id storeUp).2 = .error e) ∨
      ∃ d ∈ lib.documents.rows, d.id = id ∧ ¬ d.current ∧ (lib.purgeDocument id storeUp).2 = .ok d ∧
      (lib.purgeDocument id storeUp).1.documents =
      lib.documents.deleteWhere (fun r => r.id = id ∧ ¬ r.current) := by
  unfold Library.purgeDocument
  split
  · exact Or.inl ⟨rfl, _, rfl⟩
  · rename_i d hget
    obtain ⟨hd, hid⟩ := Table.get_eq_some.mp hget
    split
    · exact Or.inl ⟨rfl, _, rfl⟩
    · split
      · exact Or.inl ⟨rfl, _, rfl⟩
      · exact Or.inr ⟨d, hd, hid, ‹_›, rfl, rfl⟩

end AgenticPlatform.Corpus
