import AgenticPlatform.Corpus.Documents
import AgenticPlatform.Foundation.Dict
import AgenticPlatform.Foundation.Text
import AgenticPlatform.Identity.Principal

/-!
# The object store

Every object of a tenant is kept under a prefix made of the tenant's id. `keyFor` derives a
key from parts, and every operation checks again that the key it is given lies under the
caller's prefix. The bucket is a list of keys and objects that answers as it is documented
to; faults of the transport are left out.
-/
namespace AgenticPlatform.Adapters
open AgenticPlatform.Foundation AgenticPlatform.Identity
open AgenticPlatform.Corpus (Bytes)

structure ObjectEnv where
  /-- `str` of an identifier. -/
  uuidText : Uuid → String
  /-- `repr` of a text. -/
  reprText : String → String
  /-- The hexadecimal SHA-256. -/
  sha256 : Bytes → String
  /-- The tag the service gives to content, without quotes. -/
  etag : Bytes → String

def uuidLetters : List Char := "0123456789abcdef-".toList

/-- An identifier is written in one way, in hexadecimal digits and dashes. -/
structure ObjectEnv.Faithful (env : ObjectEnv) : Prop where
  injective : Function.Injective env.uuidText
  letters : ∀ id, ∀ c ∈ (env.uuidText id).toList, c ∈ uuidLetters

/-! ## Keys -/

inductive ObjectError where
  /-- Keys that cannot be derived. -/
  | keyRejected (message : String)
  | notFound
  | conflict (key : String)
deriving DecidableEq

def tenantRoot : String := "t"

/-- `_prefix`. -/
def keyPrefix (env : ObjectEnv) (ctx : RequestContext) : String :=
  tenantRoot ++ "/" ++ env.uuidText ctx.tenant.id ++ "/"

def isNameStart (c : Char) : Bool := c.isAlphanum

def isNameChar (c : Char) : Bool := c.isAlphanum || c = '.' || c = '_' || c = '-'

/-- `^[A-Za-z0-9][A-Za-z0-9._-]{0,255}$`, where `$` also matches before a newline at the end. -/
def safePart (part : String) : Bool :=
  match part.toList with
  | [] => false
  | c :: cs =>
    let rest := if cs.getLast? = some '\n' then cs.dropLast else cs
    isNameStart c && rest.all isNameChar && rest.length ≤ 255

def unsafeMessage (env : ObjectEnv) (part : String) : String :=
  "key part " ++ env.reprText part ++ " is not a safe name — letters, digits, " ++
    "dot, dash and underscore only, and it may not start with a dot"

def keyFor (env : ObjectEnv) (ctx : RequestContext) (parts : List String) :
    Except ObjectError String :=
  if parts = [] then .error (.keyRejected "a key needs at least one part")
  else
    match parts.find? (fun part => !safePart part) with
    | some part => .error (.keyRejected (unsafeMessage env part))
    | none => .ok (keyPrefix env ctx ++ "/".intercalate parts)

/-- `".." in text`. -/
def hasTwoDots (text : String) : Prop := ['.', '.'] <:+: text.toList

instance (text : String) : Decidable (hasTwoDots text) :=
  inferInstanceAs (Decidable (['.', '.'] <:+: text.toList))

/-- `_checked`. -/
def checked (env : ObjectEnv) (ctx : RequestContext) (key : String) : Except ObjectError String :=
  if ¬ (keyPrefix env ctx).toList <+: key.toList ∨ hasTwoDots key then .error .notFound else .ok key

/-! ## Operations -/

structure S3Object where
  data : Bytes
  contentType : String
  modifiedAt : Time
  /-- The metadata. -/
  sha256 : String
  tenant : String
deriving DecidableEq

abbrev Bucket := List (String × S3Object)

structure StoredObject where
  key : String
  sizeBytes : Nat
  contentType : String
  etag : String
  modifiedAt : Time
  sha256 : Option String
deriving DecidableEq

def put (env : ObjectEnv) (ctx : RequestContext) (now : Time) (bucket : Bucket) (key : String)
    (data : Bytes) (contentType : String) (ifAbsent : Bool) :
    Except ObjectError (Bucket × StoredObject) :=
  do
  let checked ← checked env ctx key
  if ifAbsent ∧ (bucket.lookup checked).isSome then .error (.conflict key)
  else
    let object := ⟨data, contentType, now, env.sha256 data, env.uuidText ctx.tenant.id⟩
    .ok (Dict.setItem bucket checked object,
      ⟨checked, data.length, contentType, env.etag data, now, some (env.sha256 data)⟩)

def get (env : ObjectEnv) (ctx : RequestContext) (bucket : Bucket) (key : String) :
    Except ObjectError Bytes :=
  do
  let checked ← checked env ctx key
  match bucket.lookup checked with
  | some object => .ok object.data
  | none => .error .notFound

def head (env : ObjectEnv) (ctx : RequestContext) (bucket : Bucket) (key : String) :
    Except ObjectError StoredObject :=
  do
  let checked ← checked env ctx key
  match bucket.lookup checked with
  | some object =>
    .ok ⟨checked, object.data.length, object.contentType, env.etag object.data, object.modifiedAt,
      some object.sha256⟩
  | none => .error .notFound

/-- The keys under the tenant's prefix and this one. -/
def list (env : ObjectEnv) (ctx : RequestContext) (bucket : Bucket) (within : String) :
    Except ObjectError (List StoredObject) :=
  if hasTwoDots within ∨ ['/'] <+: within.toList then .error .notFound
  else
    let underPrefix := keyPrefix env ctx ++ within
    .ok ((bucket.filter (fun e => underPrefix.toList <+: e.1.toList)).map (fun e =>
      ⟨e.1, e.2.data.length, "application/octet-stream", env.etag e.2.data, e.2.modifiedAt, none⟩))

/-- Whether the object was there before. -/
def delete (env : ObjectEnv) (ctx : RequestContext) (bucket : Bucket) (key : String) :
    Except ObjectError (Bucket × Bool) :=
  do
  let checked ← checked env ctx key
  if (bucket.lookup checked).isSome then .ok (bucket.filter (fun e => e.1 ≠ checked), true)
  else .ok (bucket, false)

/-! ## What is accepted -/

/-- The tenant's operations go through with this key. -/
def Accepts (env : ObjectEnv) (ctx : RequestContext) (key : String) : Prop :=
  checked env ctx key = .ok key

section
variable {env : ObjectEnv} {ctx : RequestContext} {key : String}

theorem accepts_iff :
    Accepts env ctx key ↔ (keyPrefix env ctx).toList <+: key.toList ∧ ¬ hasTwoDots key := by
  unfold Accepts checked
  split
  · rename_i h
    exact iff_of_false nofun (fun hboth => h.elim (fun hout => hout hboth.1) hboth.2)
  · rename_i h
    rw [not_or, not_not] at h
    exact iff_of_true rfl h

theorem checked_of_not_accepts (h : ¬ Accepts env ctx key) :
    checked env ctx key = .error .notFound := by
  unfold checked
  rw [if_pos]
  by_contra hboth
  rw [not_or, not_not] at hboth
  exact h (accepts_iff.mpr hboth)

/-- What is put under a key can be read, inspected and deleted under it. -/
def Serves (env : ObjectEnv) (ctx : RequestContext) (key : String) : Prop :=
  ∀ (now : Time) (bucket : Bucket) (data : Bytes) (contentType : String), ∃ bucket' object,
    put env ctx now bucket key data contentType false = .ok (bucket', object) ∧
    get env ctx bucket' key = .ok data ∧ head env ctx bucket' key = .ok object ∧
    ∃ bucket'', delete env ctx bucket' key = .ok (bucket'', true)

theorem serves_iff : Serves env ctx key ↔ Accepts env ctx key := by
  constructor
  · intro h
    by_contra hnot
    obtain ⟨_, _, hput, -⟩ := h 0 [] [] ""
    rw [put, checked_of_not_accepts hnot] at hput
    cases hput
  · intro h now bucket data contentType
    rw [Accepts] at h
    refine ⟨_, _, by rw [put, h]; rfl, ?_, ?_, ?_⟩
    · simp [get, h, bind, Except.bind]
    · simp [head, h, bind, Except.bind]
    · simp [delete, h, bind, Except.bind]

end

end AgenticPlatform.Adapters
