import AgenticPlatform.Adapters.ObjectStore
import AgenticPlatform.Foundation.Transition

/-!
# Whose object a key names

The prefixes of two tenants part at the ids, so no key lies under both, and what a tenant
does leaves the objects of the others alone. Derived keys are told apart by their parts;
they are accepted again where no part has two dots in a row.
-/
namespace AgenticPlatform.Adapters
open AgenticPlatform.Foundation AgenticPlatform.Identity
open AgenticPlatform.Corpus (Bytes)

/-! ## Prefixes -/

section
variable {env : ObjectEnv} {a b ctx : RequestContext} {key : String}

theorem toList_keyPrefix (env : ObjectEnv) (ctx : RequestContext) :
    (keyPrefix env ctx).toList = ['t', '/'] ++ ((env.uuidText ctx.tenant.id).toList ++ ['/']) := by
  simp [keyPrefix, tenantRoot]

theorem slash_notMem_uuid (henv : env.Faithful) (id : Uuid) : '/' ∉ (env.uuidText id).toList := by
  intro hmem
  exact absurd (henv.letters id '/' hmem) (by decide)

theorem dot_notMem_keyPrefix (henv : env.Faithful) (ctx : RequestContext) :
    '.' ∉ (keyPrefix env ctx).toList := by
  rw [toList_keyPrefix]
  intro hmem
  rcases List.mem_append.mp hmem with hroot | hmem
  · exact absurd hroot (by decide)
  · rcases List.mem_append.mp hmem with hid | hslash
    · exact absurd (henv.letters _ '.' hid) (by decide)
    · exact absurd hslash (by decide)

/-- A key lies under the prefix of one tenant only. -/
theorem tenant_of_keyPrefix (henv : env.Faithful) (ha : (keyPrefix env a).toList <+: key.toList)
    (hb : (keyPrefix env b).toList <+: key.toList) : a.tenant.id = b.tenant.id := by
  obtain ⟨rest, hrest⟩ := hb
  rw [toList_keyPrefix, List.append_assoc] at hrest
  rw [toList_keyPrefix, ← hrest] at ha
  have hids := List.prefix_append_right_inj _ |>.mp ha
  rw [List.append_assoc, List.singleton_append] at hids
  have htext := eq_of_prefix_mark (slash_notMem_uuid henv _) (slash_notMem_uuid henv _) hids
  exact henv.injective (String.toList_injective htext)

theorem accepts_disjoint (henv : env.Faithful) (hne : a.tenant.id ≠ b.tenant.id)
    (ha : Accepts env a key) : ¬ Accepts env b key := by
  intro hb
  exact hne (tenant_of_keyPrefix henv (accepts_iff.mp ha).1 (accepts_iff.mp hb).1)

theorem listed_under {bucket : Bucket} {within : String} {objects : List StoredObject}
    (h : list env a bucket within = .ok objects) :
    ∀ o ∈ objects, (keyPrefix env a).toList <+: o.key.toList := by
  unfold list at h
  split at h
  · cases h
  · cases h
    intro o ho
    obtain ⟨e, he, rfl⟩ := List.mem_map.mp ho
    have hwhole := of_decide_eq_true (List.mem_filter.mp he).2
    rw [String.toList_append] at hwhole
    exact (List.prefix_append _ _).trans hwhole

end

/-! ## Derived keys -/

section
variable {env : ObjectEnv} {ctx : RequestContext} {parts : List String} {key : String}

theorem keyFor_eq_ok (h : keyFor env ctx parts = .ok key) :
    parts ≠ [] ∧ (∀ part ∈ parts, safePart part = true) ∧
      key = keyPrefix env ctx ++ "/".intercalate parts := by
  unfold keyFor at h
  split at h
  · cases h
  · rename_i hne
    split at h
    · cases h
    · rename_i hnone
      cases h
      refine ⟨hne, ?_, rfl⟩
      intro part hpart
      simpa using List.find?_eq_none.mp hnone part hpart

theorem slash_notMem_part {part : String} (h : safePart part = true) : '/' ∉ part.toList := by
  unfold safePart at h
  intro hmem
  split at h
  · cases h
  · rename_i c cs hpart
    simp only [Bool.and_eq_true, List.all_eq_true] at h
    obtain ⟨⟨hstart, hrest⟩, -⟩ := h
    rw [hpart] at hmem
    rcases List.mem_cons.mp hmem with rfl | hmem
    · exact absurd hstart (by decide)
    · split at hrest
      · rename_i hlast
        rw [← List.dropLast_append_getLast? '\n' hlast] at hmem
        rcases List.mem_append.mp hmem with hmem | hnewline
        · exact absurd (hrest '/' hmem) (by decide)
        · exact absurd hnewline (by decide)
      · exact absurd (hrest '/' hmem) (by decide)

theorem parts_of_key {parts' : List String} (h : keyFor env ctx parts = .ok key)
    (h' : keyFor env ctx parts' = .ok key) : parts = parts' := by
  obtain ⟨hne, hsafe, rfl⟩ := keyFor_eq_ok h
  obtain ⟨hne', hsafe', hkey⟩ := keyFor_eq_ok h'
  have hjoined := congrArg String.toList (String.append_right_inj _ |>.mp hkey)
  rw [String.toList_intercalate, String.toList_intercalate] at hjoined
  have hsplit : ∀ parts : List String, parts ≠ [] → (∀ part ∈ parts, safePart part = true) →
      (['/'].intercalate (parts.map String.toList)).splitOn '/' = parts.map String.toList := by
    intro parts hne hsafe
    refine List.splitOn_intercalate '/' ?_ (fun hnil => hne (List.map_eq_nil_iff.mp hnil))
    exact List.forall_mem_map.mpr (fun part hpart => slash_notMem_part (hsafe part hpart))
  have hlists : parts.map String.toList = parts'.map String.toList := by
    rw [← hsplit parts hne hsafe, ← hsplit parts' hne' hsafe']
    exact congrArg (List.splitOn '/') hjoined
  exact List.map_injective_iff.mpr (fun _ _ htext => String.toList_injective htext) hlists

/-- Two dots in a derived key are two dots in one of its parts. -/
theorem hasTwoDots_key (henv : env.Faithful) (h : keyFor env ctx parts = .ok key) :
    hasTwoDots key ↔ ∃ part ∈ parts, hasTwoDots part := by
  obtain ⟨-, -, rfl⟩ := keyFor_eq_ok h
  have hdots : (['.', '.'] : List Char) ≠ [] := List.cons_ne_nil _ _
  have hslash : '/' ∉ ['.', '.'] := by decide
  have hroot : ¬ ['.', '.'] <:+: ['t', '/'] ++ (env.uuidText ctx.tenant.id).toList := by
    intro hfound
    refine dot_notMem_keyPrefix henv ctx ?_
    rw [toList_keyPrefix, ← List.append_assoc]
    exact List.mem_append_left _ (hfound.subset List.mem_cons_self)
  have hsplit : (keyPrefix env ctx ++ "/".intercalate parts).toList =
      (['t', '/'] ++ (env.uuidText ctx.tenant.id).toList) ++
      '/' :: ['/'].intercalate (parts.map String.toList) := by
    rw [String.toList_append, toList_keyPrefix, String.toList_intercalate]
    simp
  rw [hasTwoDots, hsplit, infix_mark hdots hslash, infix_intercalate hdots hslash,
    or_iff_right hroot]
  simp only [List.mem_map, exists_exists_and_eq_and, hasTwoDots]

theorem accepts_keyFor_iff (henv : env.Faithful) (h : keyFor env ctx parts = .ok key) :
    Accepts env ctx key ↔ ∀ part ∈ parts, ¬ hasTwoDots part := by
  have hunder : (keyPrefix env ctx).toList <+: key.toList := by
    rw [(keyFor_eq_ok h).2.2, String.toList_append]
    exact List.prefix_append _ _
  rw [accepts_iff, and_iff_right hunder, hasTwoDots_key henv h]
  simp only [not_exists, not_and]

end

/-! ## Isolation -/

/-- What two tenants may expect of the keys of the first. -/
structure KeysSound (env : ObjectEnv) (a b : RequestContext) (bucket : Bucket) (within : String)
    (parts : List String) : Prop where
  disjoint : ∀ key, Accepts env a key → ¬ Accepts env b key
  listed : ∀ objects, list env a bucket within = .ok objects → ∀ o ∈ objects, ¬ Accepts env b o.key
  injective : ∀ parts' key, keyFor env a parts = .ok key → keyFor env a parts' = .ok key →
    parts = parts'
  served : ∀ key, keyFor env a parts = .ok key → Serves env a key

/-- Keys are isolated and injective in any case, and the derived ones are served exactly
where none of their parts has two dots in a row. -/
theorem keysSound_iff {env : ObjectEnv} (henv : env.Faithful) {a b : RequestContext}
    (hne : a.tenant.id ≠ b.tenant.id) (bucket : Bucket) (within : String) (parts : List String) :
    KeysSound env a b bucket within parts ↔
      ((∀ part ∈ parts, safePart part = true) → ∀ part ∈ parts, ¬ hasTwoDots part) := by
  constructor
  · intro h hsafe part hpart
    have hfind : parts.find? (fun part => !safePart part) = none := by
      refine List.find?_eq_none.mpr ?_
      intro p hp
      simp [hsafe p hp]
    have hkey : keyFor env a parts = .ok (keyPrefix env a ++ "/".intercalate parts) := by
      rw [keyFor, if_neg (List.ne_nil_of_mem hpart), hfind]
    exact (accepts_keyFor_iff henv hkey).mp (serves_iff.mp (h.served _ hkey)) part hpart
  · intro h
    refine ⟨fun key => accepts_disjoint henv hne, ?_, fun parts' key => parts_of_key, ?_⟩
    · intro objects hlist o ho hb
      exact hne (tenant_of_keyPrefix henv (listed_under hlist o ho) (accepts_iff.mp hb).1)
    · intro key hkey
      exact serves_iff.mpr ((accepts_keyFor_iff henv hkey).mpr (h (keyFor_eq_ok hkey).2.1))

/-! Two tenants, and identifiers written as tallies. -/

def tallyEnv : ObjectEnv where
  uuidText := fun id => String.ofList (List.replicate id 'a')
  reprText := id
  sha256 := fun _ => "digest"
  etag := fun _ => "tag"

theorem tallyEnv_faithful : tallyEnv.Faithful where
  injective := by
    intro x y h
    have hlength := congrArg List.length (String.ofList_injective h)
    rwa [List.length_replicate, List.length_replicate] at hlength
  letters := by
    intro id c hc
    rw [show (tallyEnv.uuidText id).toList = List.replicate id 'a' from String.toList_ofList] at hc
    rw [List.eq_of_mem_replicate hc]
    decide

def firstTenant : RequestContext := ⟨⟨7, ⟨1, "acme"⟩, "alice", [.owner]⟩, 5, none, none, none⟩

def secondTenant : RequestContext := ⟨⟨8, ⟨2, "globex"⟩, "bob", [.owner]⟩, 6, none, none, none⟩

/-- An object of each of them. -/
def sharedBucket : Bucket :=
  [("t/a/documents/manual.v2.md", ⟨[1, 2], "text/markdown", 3, "digest", "a"⟩),
    ("t/aa/documents/manual.v2.md", ⟨[7], "text/markdown", 4, "digest", "aa"⟩)]

example :
    (list tallyEnv firstTenant sharedBucket "documents/").toOption.map
      (fun objects => objects.map StoredObject.key) =
      some ["t/a/documents/manual.v2.md"] := by
  decide +kernel

theorem keysSound_manual :
    KeysSound tallyEnv firstTenant secondTenant sharedBucket "documents/"
      ["documents", "manual.v2.md"] :=
  (keysSound_iff tallyEnv_faithful (by decide) sharedBucket
    "documents/" ["documents", "manual.v2.md"]).mpr
    (fun _ => by decide +kernel)

/-- A key of two parts with two dots in the second is derived and then refused. -/
theorem twoDots_refused :
    keyFor tallyEnv firstTenant ["documents", "report..md"] = .ok "t/a/documents/report..md" ∧
      (∀ now bucket data contentType ifAbsent,
        put tallyEnv firstTenant now bucket "t/a/documents/report..md" data contentType ifAbsent =
        .error .notFound) ∧
      ¬ KeysSound tallyEnv firstTenant secondTenant sharedBucket ""
      ["documents", "report..md"] := by
  have hkey : keyFor tallyEnv firstTenant ["documents", "report..md"] =
      .ok "t/a/documents/report..md" := by decide +kernel
  have hrefused : ¬ Accepts tallyEnv firstTenant "t/a/documents/report..md" := by
    rw [accepts_iff]
    decide +kernel
  refine ⟨hkey, ?_, fun h => hrefused (serves_iff.mp (h.served _ hkey))⟩
  intro now bucket data contentType ifAbsent
  rw [put, checked_of_not_accepts hrefused]
  rfl

/-! ## Runs -/

/-- The operations that change the bucket, each with its caller. -/
inductive BucketAct where
  | put (ctx : RequestContext) (now : Time) (key : String) (data : Bytes) (contentType : String)
    (ifAbsent : Bool)
  | delete (ctx : RequestContext) (key : String)

def BucketAct.caller : BucketAct → RequestContext
  | .put ctx .. => ctx
  | .delete ctx _ => ctx

/-- An operation that is refused changes nothing. -/
def bucketStep (env : ObjectEnv) (bucket : Bucket) : BucketAct → Option Bucket
  | .put ctx now key data contentType ifAbsent =>
    match put env ctx now bucket key data contentType ifAbsent with
    | .ok (bucket', _) => some bucket'
    | .error _ => some bucket
  | .delete ctx key =>
    match delete env ctx bucket key with
    | .ok (bucket', _) => some bucket'
    | .error _ => some bucket

section
variable {env : ObjectEnv} {a : RequestContext} {bucket bucket' : Bucket} {key : String}

/-- An operation touches at most the object under its key, and only where the caller has it. -/
theorem bucketStep_lookup {act : BucketAct} (h : bucketStep env bucket act = some bucket')
    (hkey : ¬ Accepts env act.caller key) : bucket'.lookup key = bucket.lookup key := by
  cases act with
  | put ctx now target data contentType ifAbsent =>
    by_cases htarget : Accepts env ctx target
    · have hne : key ≠ target := fun heq => hkey (heq ▸ htarget)
      rw [Accepts] at htarget
      simp only [bucketStep, put, htarget, bind, Except.bind] at h
      split at h
      · rename_i hput
        split at hput
        · cases hput
        · cases hput
          cases h
          rw [Dict.lookup_setItem, if_neg hne]
      · cases h
        rfl
    · simp only [bucketStep, put, checked_of_not_accepts htarget, bind, Except.bind] at h
      cases h
      rfl
  | delete ctx target =>
    by_cases htarget : Accepts env ctx target
    · have hne : key ≠ target := fun heq => hkey (heq ▸ htarget)
      rw [Accepts] at htarget
      simp only [bucketStep, delete, htarget, bind, Except.bind] at h
      split at h
      · rename_i hdelete
        split at hdelete
        · cases hdelete
          cases h
          rw [Dict.lookup_filter (fun k => decide (k ≠ target)), if_pos (decide_eq_true hne)]
        · cases hdelete
          cases h
          rfl
      · cases h
        rfl
    · simp only [bucketStep, delete, checked_of_not_accepts htarget, bind, Except.bind] at h
      cases h
      rfl

/-- Whatever the other tenants do, the objects of a tenant stay as they are. -/
theorem objects_kept (henv : env.Faithful) {acts : List BucketAct}
    (h : Reaches (bucketStep env) bucket acts bucket')
    (hothers : ∀ act ∈ acts, act.caller.tenant.id ≠ a.tenant.id) (hkey : Accepts env a key) :
    bucket'.lookup key = bucket.lookup key := by
  induction acts generalizing bucket with
  | nil => rw [reaches_nil.mp h]
  | cons act acts ih =>
    obtain ⟨m, hm, hrest⟩ := reaches_cons.mp h
    rw [ih hrest (fun other hother => hothers other (List.mem_cons_of_mem act hother))]
    exact bucketStep_lookup hm (accepts_disjoint henv (hothers act List.mem_cons_self).symm hkey)

end

end AgenticPlatform.Adapters
