import AgenticPlatform.Foundation.Transition
import AgenticPlatform.Corpus.Documents

/-!
# Retained bytes

An upload stores its bytes and then its row; a purge erases the object and then the row.
Between the two any other request of the tenant may run. An object belongs to no row: its
key names a collection and a hash, and every upload of the same bytes to the collection
shares it.
-/
namespace AgenticPlatform.Corpus
open AgenticPlatform.Foundation AgenticPlatform.Identity

structure RetentionEnv where
  documents : DocumentEnv
  tenantId : Uuid

/-- An upload that passed the checks, and what the server generates for it. -/
structure Incoming where
  by_ : Uuid
  newId : Uuid
  now : Time
  request : DocumentCreate
  suffix : String
  content : Bytes
  valid : validate request = .ok (suffix, content)

def Incoming.row (env : RetentionEnv) (p : Incoming) : DocumentRow :=
  newDocument env.documents ⟨env.tenantId, p.by_, p.newId, p.now⟩ p.request p.suffix p.content

/-- Where a request stands between its transactions and its calls of the object store. -/
inductive RequestPhase where
  | idle
  /-- The bytes are stored. -/
  | stored (p : Incoming)
  /-- The transaction has read the current row of the name. -/
  | matched (p : Incoming) (existing : Option DocumentRow)
  /-- The purge has read a withdrawn row. -/
  | condemned (d : DocumentRow)
  /-- Its object is gone. -/
  | erased (d : DocumentRow)

structure RetentionState where
  library : Library
  phases : Nat → RequestPhase

def RetentionState.initial : RetentionState := ⟨.empty, fun _ => .idle⟩

def RetentionState.move (s : RetentionState) (i : Nat) (phase : RequestPhase) : RetentionState :=
  { s with phases := Function.update s.phases i phase }

/-- The new row beside the others, in a transaction that made none of them current.
`none` where the generated id or the name is taken. -/
def Library.insertRow (lib : Library) (documents : DocumentTable)
    (hold : ∀ d ∈ documents.rows, d.current → d ∈ lib.documents.rows) (row : DocumentRow) :
    Option Library :=
  if h : row.id ∉ documents.keys ∧ ∀ d ∈ documents.rows, d.current →
      ¬ (d.collection = row.collection ∧ d.filename = row.filename) then
    some
      { documents := documents.insert row h.1
        objects := lib.objects
        one_current := by
          intro a ha b hb hca hcb hcollection hfilename
          rcases Table.mem_insert.mp ha with hina | rfl
          · rcases Table.mem_insert.mp hb with hinb | rfl
            · exact lib.one_current a (hold a hina hca) b (hold b hinb hcb) hca hcb
                hcollection hfilename
            · exact absurd ⟨hcollection, hfilename⟩ (h.2 a hina hca)
          · rcases Table.mem_insert.mp hb with hinb | rfl
            · exact absurd ⟨hcollection.symm, hfilename.symm⟩ (h.2 b hinb hcb)
            · rfl }
  else none

theorem current_of_retired {documents : DocumentTable} {p : DocumentRow → Prop} [DecidablePred p]
    {now : Time} {by_ : Option Uuid} {d : DocumentRow}
    (hd : d ∈ (documents.updateWhere p (retired now by_) (fun _ => rfl)).rows)
    (hcurrent : d.current) : d ∈ documents.rows ∧ ¬ p d := by
  rcases Table.mem_updateWhere (f := retired now by_) (fun _ => rfl) hd with hd | ⟨a, -, -, rfl⟩
  · exact hd
  · cases hcurrent

theorem retired_id (now : Time) (row d : DocumentRow) : (retired now (some row.id) d).id = d.id :=
  rfl

/-- The writes of the upload's transaction: the row it read is retired and linked, the new
one inserted. -/
def Library.insertVersion (lib : Library) (now : Time) (row : DocumentRow) (old : Option Uuid) :
    Option Library :=
  lib.insertRow (lib.documents.updateWhere (fun d => old = some d.id)
    (retired now (some row.id)) (retired_id now row))
    (fun _ hd hcurrent => (current_of_retired hd hcurrent).1) row

inductive RetentionAct where
  /-- The checks of an upload and its bytes. -/
  | receive (i : Nat) (by_ newId : Uuid) (now : Time) (q : DocumentCreate) (storeUp : Bool)
  | select (i : Nat)
  | commit (i : Nat)
  | withdraw (id : Uuid) (now : Time)
  | selectPurge (i : Nat) (id : Uuid)
  | erase (i : Nat) (storeUp : Bool)
  | purgeRow (i : Nat)
  /-- The process dies, or the client is answered with an error. -/
  | abandon (i : Nat)

def receiveStep (env : RetentionEnv) (s : RetentionState) (i : Nat) (by_ newId : Uuid) (now : Time)
    (q : DocumentCreate) (storeUp : Bool) : RetentionState :=
  match h : validate q with
  | .error _ => s
  | .ok (suffix, content) =>
    let p : Incoming := ⟨by_, newId, now, q, suffix, content, h⟩
    if storeUp = false then s
    else
      { library := { s.library with
        objects := putIfAbsent s.library.objects (p.row env).storageKey p.content }
        phases := Function.update s.phases i (.stored p) }

def retentionStep (env : RetentionEnv) (s : RetentionState) : RetentionAct → Option RetentionState
  | .receive i by_ newId now q storeUp =>
    match s.phases i with
    | .idle => some (receiveStep env s i by_ newId now q storeUp)
    | _ => none
  | .select i =>
    match s.phases i with
    | .stored p =>
      match s.library.existing p.request.collection p.request.filename with
      | some old =>
        if old.contentSha256 = (p.row env).contentSha256 then some (s.move i .idle)
        else some (s.move i (.matched p (some old)))
      | none => some (s.move i (.matched p none))
    | _ => none
  | .commit i =>
    match s.phases i with
    | .matched p existing =>
      match s.library.insertVersion p.now (p.row env) (existing.map DocumentRow.id) with
      | some lib => some ⟨lib, Function.update s.phases i .idle⟩
      | none => some (s.move i .idle)
    | _ => none
  | .withdraw id now =>
    match s.library.deleteDocument id now with
    | some (lib, _) => some { s with library := lib }
    | none => some s
  | .selectPurge i id =>
    match s.phases i with
    | .idle =>
      match s.library.documents.get id with
      | some d => if d.current then some s else some (s.move i (.condemned d))
      | none => some s
    | _ => none
  | .erase i storeUp =>
    match s.phases i with
    | .condemned d =>
      if storeUp = false then some (s.move i .idle)
      else
        some
          { library := { s.library with
            objects := Function.update s.library.objects d.storageKey none }
            phases := Function.update s.phases i (.erased d) }
    | _ => none
  | .purgeRow i =>
    match s.phases i with
    | .erased d =>
      some
        { library :=
            { s.library with
              documents := s.library.documents.deleteWhere (fun r => r.id = d.id ∧ ¬ r.current)
              one_current := by
                intro a ha b hb
                exact s.library.one_current a (Table.mem_deleteWhere.mp ha).1 b
                  (Table.mem_deleteWhere.mp hb).1 }
          phases := Function.update s.phases i .idle }
    | _ => none
  | .abandon i => some (s.move i .idle)

variable {env : RetentionEnv} {s t : RetentionState} {a : RetentionAct} {lib : Library}

/-! ## Requests one after the other -/

/-- The row the transaction read is the one under the name, as long as no one else writes. -/
theorem existing_named (lib : Library) (collection filename : String) {d : DocumentRow}
    (hd : d ∈ lib.documents.rows) :
    (lib.existing collection filename).map DocumentRow.id = some d.id ↔
      d.collection = collection ∧ d.filename = filename ∧ d.current := by
  rw [Library.existing]
  cases hfind : lib.documents.rows.find?
      (fun d => d.collection = collection ∧ d.filename = filename ∧ d.current) with
  | none =>
    have hnone := List.find?_eq_none.mp hfind d hd
    rw [decide_eq_true_eq] at hnone
    exact iff_of_false (fun h => by cases h) hnone
  | some old =>
    have hold := List.mem_of_find?_eq_some hfind
    have hnamed := List.find?_some hfind
    rw [decide_eq_true_eq] at hnamed
    obtain ⟨hc, hf, hcurrent⟩ := hnamed
    rw [Option.map_some, Option.some_inj]
    constructor
    · intro hid
      have hsame : old = d := Table.eq_of_key hold hd hid
      exact hsame ▸ ⟨hc, hf, hcurrent⟩
    · rintro ⟨hc', hf', hcurrent'⟩
      exact congrArg DocumentRow.id
        (lib.one_current old hold d hd hcurrent hcurrent' (hc.trans hc'.symm) (hf.trans hf'.symm))

theorem insertRow_congr {documents documents' : DocumentTable} {row : DocumentRow}
    (h : documents = documents') (hold) (hold') :
    lib.insertRow documents hold row = lib.insertRow documents' hold' row := by
  subst h
  rfl

theorem insertVersion_existing (lib : Library) (now : Time) (row : DocumentRow) :
    lib.insertVersion now row ((lib.existing row.collection row.filename).map DocumentRow.id) =
      lib.replace now row := by
  have htable := Table.updateWhere_congr (f := retired now (some row.id)) (fun _ => rfl)
    (fun d hd => existing_named lib row.collection row.filename (d := d) hd)
  refine (insertRow_congr htable _
    (fun d hd hcurrent => (current_of_retired hd hcurrent).1)).trans ?_
  have hfree : ∀ d ∈ (lib.documents.updateWhere
      (fun d => d.collection = row.collection ∧ d.filename = row.filename ∧ d.current)
      (retired now (some row.id)) (fun _ => rfl)).rows,
      d.current → ¬ (d.collection = row.collection ∧ d.filename = row.filename) := by
    rintro d hd hcurrent ⟨hc, hf⟩
    exact (current_of_retired hd hcurrent).2 ⟨hc, hf, hcurrent⟩
  unfold Library.insertRow Library.replace
  split
  · rename_i h
    simp only
    split
    · rfl
    · rename_i hfresh
      exact absurd h.1 hfresh
  · rename_i h
    simp only
    split
    · rename_i hfresh
      exact absurd ⟨hfresh, hfree⟩ h
    · rfl

/-- The library with the bytes of an upload in it. -/
def Library.withBytes (env : RetentionEnv) (lib : Library) (p : Incoming) : Library :=
  { lib with objects := putIfAbsent lib.objects (p.row env).storageKey p.content }

theorem receiveStep_ok {i : Nat} {by_ newId : Uuid} {now : Time} {q : DocumentCreate}
    {suffix : String} {content : Bytes} (h : validate q = .ok (suffix, content)) :
    receiveStep env s i by_ newId now q true =
      ⟨s.library.withBytes env ⟨by_, newId, now, q, suffix, content, h⟩,
        Function.update s.phases i (.stored ⟨by_, newId, now, q, suffix, content, h⟩)⟩ := by
  unfold receiveStep
  split
  · rename_i e herror
    rw [h] at herror
    cases herror
  · rename_i suffix' content' hvalid
    cases h.symm.trans hvalid
    rfl

theorem unchanged_alone {i : Nat} {p : Incoming} {old : DocumentRow}
    (hphase : s.phases i = .stored p)
    (hold : s.library.existing p.request.collection p.request.filename = some old)
    (hsame : old.contentSha256 = (p.row env).contentSha256) :
    Leads (retentionStep env) s ⟨s.library, Function.update s.phases i .idle⟩ := by
  refine ⟨[.select i], reaches_cons.mpr ⟨_, ?_, .nil _ _⟩⟩
  simp [retentionStep, hphase, hold, hsame, RetentionState.move]

/-- The transaction of an upload that writes, with no other request between its statements. -/
theorem replaced_alone {i : Nat} {p : Incoming} {existing : Option DocumentRow}
    (hphase : s.phases i = .stored p)
    (hexisting : s.library.existing p.request.collection p.request.filename = existing)
    (hdiff : ∀ old ∈ existing, old.contentSha256 ≠ (p.row env).contentSha256)
    (hreplace : s.library.replace p.now (p.row env) = some lib) :
    Leads (retentionStep env) s ⟨lib, Function.update s.phases i .idle⟩ := by
  have hselect : retentionStep env s (.select i) = some (s.move i (.matched p existing)) := by
    cases existing with
    | none => simp [retentionStep, hphase, hexisting]
    | some old => simp [retentionStep, hphase, hexisting, hdiff old rfl]
  have hinsert : s.library.insertVersion p.now (p.row env) (existing.map DocumentRow.id) =
      some lib := by
    rw [← hexisting]
    exact (insertVersion_existing s.library p.now (p.row env)).trans hreplace
  have hcommit : retentionStep env (s.move i (.matched p existing)) (.commit i) =
      some ⟨lib, Function.update s.phases i .idle⟩ := by
    simp [retentionStep, RetentionState.move, hinsert]
  exact ⟨[.select i, .commit i],
    reaches_cons.mpr ⟨_, hselect, reaches_cons.mpr ⟨_, hcommit, .nil _ _⟩⟩⟩

/-- A request that overlaps with no other is the upload as one call. -/
theorem upload_alone {i : Nat} (hidle : s.phases i = .idle) {by_ newId : Uuid} {now : Time}
    {q : DocumentCreate} {storeUp : Bool} {res : Except HttpError CreateOutcome}
    (h : s.library.createDocument env.documents ⟨env.tenantId, by_, newId, now⟩ q storeUp =
      some (lib, res)) : Leads (retentionStep env) s ⟨lib, s.phases⟩ := by
  have hreceive : retentionStep env s (.receive i by_ newId now q storeUp) =
      some (receiveStep env s i by_ newId now q storeUp) := by
    simp [retentionStep, hidle]
  unfold Library.createDocument at h
  split at h
  · cases h
    exact .refl _ _
  · rename_i suffix content hvalid
    cases storeUp with
    | false =>
      cases h
      exact .refl _ _
    | true =>
      let p : Incoming := ⟨by_, newId, now, q, suffix, content, hvalid⟩
      let m : RetentionState := ⟨s.library.withBytes env p, Function.update s.phases i (.stored p)⟩
      have hphase : m.phases i = .stored p := Function.update_self ..
      have hback : Function.update m.phases i .idle = s.phases := by
        rw [Function.update_idem, ← hidle, Function.update_eq_self]
      rw [receiveStep_ok hvalid] at hreceive
      refine .trans (m := m) ⟨_, reaches_cons.mpr ⟨_, hreceive, .nil _ _⟩⟩ ?_
      rw [← hback]
      simp only [Bool.true_eq_false, if_false] at h
      split at h
      · rename_i old hold
        split at h
        · rename_i hsame
          cases h
          exact unchanged_alone (s := m) hphase hold hsame
        · rename_i hdiff
          obtain ⟨lib', hreplace, hres⟩ := Option.map_eq_some_iff.mp h
          cases hres
          refine replaced_alone (s := m) hphase hold ?_ hreplace
          intro old' hold'
          cases hold'
          exact hdiff
      · rename_i hnone
        obtain ⟨lib', hreplace, hres⟩ := Option.map_eq_some_iff.mp h
        cases hres
        exact replaced_alone (s := m) hphase hnone (fun _ hold => by cases hold) hreplace

/-- So is a purge. -/
theorem purge_alone {i : Nat} (hidle : s.phases i = .idle) (id : Uuid) (storeUp : Bool) :
    Leads (retentionStep env) s ⟨(s.library.purgeDocument id storeUp).1, s.phases⟩ := by
  unfold Library.purgeDocument
  split
  · exact .refl _ _
  · rename_i d hget
    split
    · exact .refl _ _
    · rename_i hcurrent
      cases storeUp with
      | false => exact .refl _ _
      | true =>
        have hselect : retentionStep env s (.selectPurge i id) =
            some (s.move i (.condemned d)) := by
          simp [retentionStep, hidle, hget, hcurrent]
        refine ⟨[.selectPurge i id, .erase i true, .purgeRow i], reaches_cons.mpr ⟨_, hselect, ?_⟩⟩
        obtain ⟨-, hid⟩ := Table.get_eq_some.mp hget
        have hback : Function.update s.phases i .idle = s.phases := by
          rw [← hidle, Function.update_eq_self]
        simp [Reaches, retentionStep, RetentionState.move, hid, hback]

/-! ## The condition -/

/-- Every current row names an object, and its bytes hash to what the row says. -/
def Retained (env : RetentionEnv) (lib : Library) : Prop :=
  ∀ d ∈ lib.documents.rows, d.current →
    (lib.objects d.storageKey).map env.documents.sha256 = some d.contentSha256

instance (env : RetentionEnv) (lib : Library) : Decidable (Retained env lib) :=
  inferInstanceAs (Decidable (∀ d ∈ lib.documents.rows, _))

/-- A purge erases an object that no current row names, and an upload inserts its row while
the object it stored is there. -/
def retains (env : RetentionEnv) (s : RetentionState) : RetentionAct → Prop
  | .erase i true =>
    match s.phases i with
    | .condemned d => ∀ r ∈ s.library.documents.rows, r.current → r.storageKey ≠ d.storageKey
    | _ => True
  | .commit i =>
    match s.phases i with
    | .matched p existing =>
      s.library.insertVersion p.now (p.row env) (existing.map DocumentRow.id) ≠ none →
        s.library.objects (p.row env).storageKey ≠ none
    | _ => True
  | _ => True

instance (env : RetentionEnv) (s : RetentionState) :
    (a : RetentionAct) → Decidable (retains env s a)
  | .erase i true => match h : s.phases i with
    | .condemned d =>
      decidable_of_iff (∀ r ∈ s.library.documents.rows, r.current → r.storageKey ≠ d.storageKey)
        (by simp [retains, h])
    | .idle | .stored _ | .matched _ _ | .erased _ => isTrue (by simp [retains, h])
  | .commit i => match h : s.phases i with
    | .matched p existing =>
      decidable_of_iff
        (s.library.insertVersion p.now (p.row env) (existing.map DocumentRow.id) = none ∨
          s.library.objects (p.row env).storageKey ≠ none)
        (by simp [retains, h, or_iff_not_imp_left])
    | .idle | .stored _ | .condemned _ | .erased _ => isTrue (by simp [retains, h])
  | .receive .. | .select _ | .withdraw .. | .selectPurge .. | .erase _ false | .purgeRow _ |
      .abandon _ =>
    isTrue trivial

/-! ## Keys -/

/-- The key of an object whose bytes have that hash. -/
def NamesDigest (env : RetentionEnv) (key digest : String) : Prop :=
  ∃ collection suffix, isCollectionName collection = true ∧ suffix ∈ allowedSuffixes ∧
    key = storageKeyFor env.documents env.tenantId collection digest suffix

theorem dot_of_suffix {suffix : String} (h : suffix ∈ allowedSuffixes) :
    ∃ cs, suffix.toList = '.' :: cs := by
  simp only [allowedSuffixes, List.mem_cons, List.not_mem_nil, or_false] at h
  rcases h with rfl | rfl | rfl | rfl
  · exact ⟨_, rfl⟩
  · exact ⟨_, rfl⟩
  · exact ⟨_, rfl⟩
  · exact ⟨_, rfl⟩

theorem storageKeyFor_toList (env : DocumentEnv) (tenantId : Uuid)
    (collection digest suffix : String) :
    (storageKeyFor env tenantId collection digest suffix).toList =
      ("t/".toList ++ (env.uuidText tenantId).toList ++ "/documents/".toList) ++
      (collection.toList ++ '/' :: (digest.toList ++ suffix.toList)) := by
  simp only [storageKeyFor, String.toList_append, List.append_assoc]
  rfl

/-- A key tells the hash. -/
theorem NamesDigest.unique {key digest digest' : String} (h : NamesDigest env key digest)
    (h' : NamesDigest env key digest') (hplain : '.' ∉ digest.toList)
    (hplain' : '.' ∉ digest'.toList) : digest = digest' := by
  obtain ⟨c, suffix, hc, hsuffix, rfl⟩ := h
  obtain ⟨c', suffix', hc', hsuffix', heq⟩ := h'
  have htexts := congrArg String.toList heq
  rw [storageKeyFor_toList, storageKeyFor_toList] at htexts
  obtain ⟨-, htail⟩ :=
    split_at_first (slash_not_mem hc) (slash_not_mem hc') (List.append_cancel_left htexts)
  obtain ⟨cs, hcs⟩ := dot_of_suffix hsuffix
  obtain ⟨cs', hcs'⟩ := dot_of_suffix hsuffix'
  rw [hcs, hcs'] at htail
  exact String.toList_inj.mp (split_at_first hplain hplain' htail).1

theorem validate_suffix {q : DocumentCreate} {suffix : String} {content : Bytes}
    (h : validate q = .ok (suffix, content)) : suffix ∈ allowedSuffixes := by
  unfold validate at h
  simp only at h
  split at h
  · cases h
  · rename_i hsuffix
    split at h
    · cases h
    · cases h
    · split at h
      · cases h
      · cases h
        exact not_not.mp hsuffix

theorem Incoming.names (env : RetentionEnv) (p : Incoming) :
    NamesDigest env (p.row env).storageKey (p.row env).contentSha256 :=
  ⟨p.request.collection, p.suffix, p.request.collection_valid, validate_suffix p.valid, rfl⟩

/-- Every object is under a key of its own hash. -/
def KeysTell (env : RetentionEnv) (lib : Library) : Prop :=
  ∀ key bytes, lib.objects key = some bytes → NamesDigest env key (env.documents.sha256 bytes)

/-! ## One step -/

theorem insertRow_eq_some {lib' : Library} {documents : DocumentTable} {hold} {row : DocumentRow}
    (h : lib.insertRow documents hold row = some lib') :
    lib'.objects = lib.objects ∧ ∀ d, d ∈ lib'.documents.rows ↔ d ∈ documents.rows ∨ d = row := by
  unfold Library.insertRow at h
  split at h
  · rename_i hfree
    cases h
    exact ⟨rfl, fun d => Table.mem_insert (h := hfree.1)⟩
  · cases h

theorem insertVersion_eq_some {lib' : Library} {now : Time} {row : DocumentRow} {old : Option Uuid}
    (h : lib.insertVersion now row old = some lib') :
    lib'.objects = lib.objects ∧
      (∀ d ∈ lib'.documents.rows, d.current → d ∈ lib.documents.rows ∨ d = row) ∧
      row ∈ lib'.documents.rows := by
  obtain ⟨hobjects, hrows⟩ := insertRow_eq_some h
  refine ⟨hobjects, ?_, (hrows row).mpr (Or.inr rfl)⟩
  intro d hd hcurrent
  rcases (hrows d).mp hd with hd | rfl
  · exact Or.inl (current_of_retired hd hcurrent).1
  · exact Or.inr rfl

/-- What a step may do to the rows and the objects. -/
inductive RetentionMove (env : RetentionEnv) (s : RetentionState) : RetentionAct → Library → Prop
  | quiet (a : RetentionAct) (h : retains env s a) : RetentionMove env s a s.library
  | put (a : RetentionAct) (p : Incoming) (lib : Library) (h : retains env s a)
    (hdocs : lib.documents = s.library.documents)
    (hobjects : lib.objects = putIfAbsent s.library.objects (p.row env).storageKey p.content) :
    RetentionMove env s a lib
  | insert (i : Nat) (p : Incoming) (existing : Option DocumentRow) (lib : Library)
    (hphase : s.phases i = .matched p existing)
    (h : s.library.insertVersion p.now (p.row env) (existing.map DocumentRow.id) = some lib) :
    RetentionMove env s (.commit i) lib
  | withdraw (id : Uuid) (now : Time) (lib : Library) (hobjects : lib.objects = s.library.objects)
    (hrows : lib.documents.rows = s.library.documents.rows.map (afterDelete id now)) :
    RetentionMove env s (.withdraw id now) lib
  | erase (i : Nat) (d : DocumentRow) (lib : Library) (hphase : s.phases i = .condemned d)
    (hdocs : lib.documents = s.library.documents)
    (hobjects : lib.objects = Function.update s.library.objects d.storageKey none) :
    RetentionMove env s (.erase i true) lib
  | purge (i : Nat) (lib : Library) (hobjects : lib.objects = s.library.objects)
    (hrows : ∀ d ∈ lib.documents.rows, d ∈ s.library.documents.rows) :
    RetentionMove env s (.purgeRow i) lib

theorem receiveStep_move {i : Nat} {by_ newId : Uuid} {now : Time} {q : DocumentCreate}
    {storeUp : Bool} :
    RetentionMove env s (.receive i by_ newId now q storeUp)
      (receiveStep env s i by_ newId now q storeUp).library := by
  unfold receiveStep
  split
  · exact .quiet _ trivial
  · rename_i suffix content hvalid
    simp only
    split
    · exact .quiet _ trivial
    · exact .put _ ⟨by_, newId, now, q, suffix, content, hvalid⟩ _ trivial rfl rfl

theorem retentionStep_move (h : retentionStep env s a = some t) :
    RetentionMove env s a t.library := by
  cases a with
  | receive i by_ newId now q storeUp =>
    simp only [retentionStep] at h
    split at h
    · cases h
      exact receiveStep_move
    · cases h
  | select i =>
    simp only [retentionStep] at h
    split at h
    · split at h
      · split at h
        · cases h
          exact .quiet _ trivial
        · cases h
          exact .quiet _ trivial
      · cases h
        exact .quiet _ trivial
    · cases h
  | commit i =>
    simp only [retentionStep] at h
    split at h
    · rename_i p existing hphase
      split at h
      · rename_i lib hlib
        cases h
        exact .insert i p existing lib hphase hlib
      · rename_i hlib
        cases h
        refine .quiet _ ?_
        simp [retains, hphase, hlib]
    · cases h
  | withdraw id now =>
    simp only [retentionStep] at h
    split at h
    · rename_i lib d hdelete
      cases h
      obtain ⟨-, hobjects, hrows⟩ := deleteDocument_eq_some hdelete
      exact .withdraw id now lib hobjects hrows
    · cases h
      exact .quiet _ trivial
  | selectPurge i id =>
    simp only [retentionStep] at h
    split at h
    · split at h
      · split at h
        · cases h
          exact .quiet _ trivial
        · cases h
          exact .quiet _ trivial
      · cases h
        exact .quiet _ trivial
    · cases h
  | erase i storeUp =>
    simp only [retentionStep] at h
    split at h
    · rename_i d hphase
      cases storeUp with
      | false =>
        cases h
        exact .quiet _ trivial
      | true =>
        cases h
        exact .erase i d _ hphase rfl rfl
    · cases h
  | purgeRow i =>
    simp only [retentionStep] at h
    split at h
    · cases h
      exact .purge i _ rfl (fun d hd => (Table.mem_deleteWhere.mp hd).1)
    · cases h
  | abandon i =>
    cases h
    exact .quiet _ trivial

theorem keysTell_move (hs : KeysTell env s.library) (h : RetentionMove env s a lib) :
    KeysTell env lib := by
  intro key bytes hkey
  cases h with
  | quiet => exact hs key bytes hkey
  | put a p lib hcond hdocs hobjects =>
    rw [hobjects, putIfAbsent] at hkey
    split at hkey
    · by_cases hsame : key = (p.row env).storageKey
      · subst hsame
        rw [Function.update_self] at hkey
        cases hkey
        exact p.names env
      · rw [Function.update_of_ne hsame] at hkey
        exact hs key bytes hkey
    · exact hs key bytes hkey
  | insert i p existing lib hphase hinsert =>
    rw [(insertVersion_eq_some hinsert).1] at hkey
    exact hs key bytes hkey
  | withdraw id now lib hobjects =>
    rw [hobjects] at hkey
    exact hs key bytes hkey
  | erase i d lib hphase hdocs hobjects =>
    rw [hobjects] at hkey
    by_cases hsame : key = d.storageKey
    · rw [hsame, Function.update_self] at hkey
      cases hkey
    · rw [Function.update_of_ne hsame] at hkey
      exact hs key bytes hkey
  | purge i lib hobjects =>
    rw [hobjects] at hkey
    exact hs key bytes hkey

/-- An object that is there at all is there with the right bytes. -/
theorem retained_of_present (hplain : ∀ content, '.' ∉ (env.documents.sha256 content).toList)
    (hs : KeysTell env s.library) (p : Incoming) :
    (s.library.objects (p.row env).storageKey).map env.documents.sha256 =
      some (p.row env).contentSha256 ↔
      s.library.objects (p.row env).storageKey ≠ none := by
  cases hobject : s.library.objects (p.row env).storageKey with
  | none => simp
  | some bytes =>
    have hsame := (hs _ bytes hobject).unique (p.names env) (hplain bytes) (hplain p.content)
    simp [hsame]

theorem retained_move (hplain : ∀ content, '.' ∉ (env.documents.sha256 content).toList)
    (hkeys : KeysTell env s.library) (hs : Retained env s.library) (h : RetentionMove env s a lib) :
    Retained env lib ↔ retains env s a := by
  cases h with
  | quiet a hcond => exact iff_of_true hs hcond
  | put a p lib hcond hdocs hobjects =>
    refine iff_of_true ?_ hcond
    intro d hd hcurrent
    rw [hdocs] at hd
    rw [hobjects]
    obtain ⟨bytes, hbytes, hdigest⟩ := Option.map_eq_some_iff.mp (hs d hd hcurrent)
    exact Option.map_eq_some_iff.mpr ⟨bytes, putIfAbsent_of_some hbytes, hdigest⟩
  | insert i p existing lib hphase hinsert =>
    obtain ⟨hobjects, hrows, hrow⟩ := insertVersion_eq_some hinsert
    have hcond : retains env s (.commit i) ↔ s.library.objects (p.row env).storageKey ≠ none := by
      simp [retains, hphase, hinsert]
    rw [hcond, ← retained_of_present hplain hkeys p]
    constructor
    · intro hret
      have hnew := hret (p.row env) hrow rfl
      rwa [hobjects] at hnew
    · intro hnew d hd hcurrent
      rw [hobjects]
      rcases hrows d hd hcurrent with hd | rfl
      · exact hs d hd hcurrent
      · exact hnew
  | withdraw id now lib hobjects hrows =>
    refine iff_of_true ?_ trivial
    intro d hd hcurrent
    rw [hrows] at hd
    obtain ⟨d₀, hd₀, rfl⟩ := List.mem_map.mp hd
    rw [hobjects, (afterDelete_current hcurrent).1]
    rw [(afterDelete_current hcurrent).1] at hcurrent
    exact hs d₀ hd₀ hcurrent
  | erase i d lib hphase hdocs hobjects =>
    have hcond : retains env s (.erase i true) ↔
        ∀ r ∈ s.library.documents.rows, r.current → r.storageKey ≠ d.storageKey := by
      simp [retains, hphase]
    rw [hcond, Retained, hdocs, hobjects]
    constructor
    · intro hret r hr hcurrent hsame
      have hgone := hret r hr hcurrent
      simp [hsame] at hgone
    · intro hunshared r hr hcurrent
      rw [Function.update_of_ne (hunshared r hr hcurrent)]
      exact hs r hr hcurrent
  | purge i lib hobjects hrows =>
    refine iff_of_true ?_ trivial
    intro d hd hcurrent
    rw [hobjects]
    exact hs d (hrows d hd) hcurrent

/-- Along a run of requests that overlap in any way, every current row keeps its bytes
exactly where no purge erases a shared object and none comes between an upload's bytes and
its row. -/
theorem bytes_retained_iff (hplain : ∀ content, '.' ∉ (env.documents.sha256 content).toList)
    {acts : List RetentionAct} (hrun : Reaches (retentionStep env) .initial acts s) :
    Throughout (retentionStep env) (fun s => Retained env s.library) .initial acts ↔
      Reaches (restrict (retains env) (retentionStep env)) .initial acts s := by
  have hkeys : Throughout (retentionStep env) (fun s => KeysTell env s.library) .initial acts := by
    refine Throughout.of_invariant
      (fun _ _ _ hs h => keysTell_move hs (retentionStep_move h)) ?_ acts
    intro key bytes hkey
    cases hkey
  have hstart : Retained env RetentionState.initial.library := fun d hd => by cases hd
  have hstep : ∀ m a m', KeysTell env m.library → KeysTell env m'.library → Retained env m.library →
      retentionStep env m a = some m' → (Retained env m'.library ↔ retains env m a) :=
    fun m a m' hm _ hret h => retained_move hplain hm hret (retentionStep_move h)
  exact Throughout.iff_restrict (P := fun s => Retained env s.library) hstep hkeys hstart hrun

/-- The hash of the one text that is uploaded here, "v1". -/
def sharedEnv : RetentionEnv where
  documents := ⟨fun _ => "3bfc269594ef649228e9a74bab00f042efc91d5acc6fbee31a382e80d42388fe",
    Nat.repr⟩
  tenantId := 7

theorem sharedEnv_plain : ∀ content, '.' ∉ (sharedEnv.documents.sha256 content).toList := by
  intro content
  change '.' ∉ "3bfc269594ef649228e9a74bab00f042efc91d5acc6fbee31a382e80d42388fe".toList
  decide +kernel

def textUpload (filename : String) (h : 1 ≤ filename.toList.length ∧ filename.toList.length ≤ 512) :
    DocumentCreate where
  collection := "manuals"
  filename := filename
  content := some [118, 49]
  collection_valid := isCollectionName_manuals
  filename_valid := h

/-- An upload from its first check to its commit. -/
def uploadActs (i : Nat) (newId : Uuid) (q : DocumentCreate) : List RetentionAct :=
  [.receive i 9 newId 0 q true, .select i, .commit i]

/-- A withdrawal and the purge after it. -/
def purgeActs (i : Nat) (id : Uuid) : List RetentionAct :=
  [.withdraw id 1, .selectPurge i id, .erase i true, .purgeRow i]

/-- A text is uploaded, purged and uploaded again. -/
def uploadedAgain : List RetentionAct :=
  uploadActs 0 1 (textUpload "a.txt" (by decide +kernel)) ++ purgeActs 1 1 ++
    uploadActs 2 2 (textUpload "a.txt" (by decide +kernel))

theorem uploadedAgain_run :
    (uploadedAgain.foldlM (restrict (retains sharedEnv) (retentionStep sharedEnv))
      .initial).isSome =
      true := by
  decide +kernel

theorem bytes_retained_uploadedAgain :
    ∃ s, Reaches (retentionStep sharedEnv) .initial uploadedAgain s ∧
      Throughout (retentionStep sharedEnv) (fun s => Retained sharedEnv s.library) .initial
      uploadedAgain := by
  have hrun := reaches_get uploadedAgain_run
  exact ⟨_, hrun.of_restrict, (bytes_retained_iff sharedEnv_plain hrun.of_restrict).mpr hrun⟩

/-- Two names for one text, and the first of them purged. -/
def sharedPurged : List RetentionAct :=
  uploadActs 0 1 (textUpload "a.txt" (by decide +kernel)) ++
    uploadActs 1 2 (textUpload "b.txt" (by decide +kernel)) ++ purgeActs 2 1

theorem sharedPurged_run :
    (sharedPurged.foldlM (retentionStep sharedEnv) .initial).isSome = true := by
  decide +kernel

/-- No request is under way, the second name is current, and its object is gone. -/
theorem purge_erases_shared_bytes :
    ∃ s, Reaches (retentionStep sharedEnv) .initial sharedPurged s ∧ (∀ i, s.phases i = .idle) ∧
      s.library.documents.rows.map (fun d => (d.id, d.filename)) = [(2, "b.txt")] ∧
      (∀ d ∈ s.library.documents.rows, d.current ∧ s.library.objects d.storageKey = none) ∧
      ¬ Retained sharedEnv s.library := by
  refine ⟨_, reaches_get sharedPurged_run,
    ?_, by decide +kernel, by decide +kernel, by decide +kernel⟩
  intro i
  match i with
  | 0 => rfl
  | 1 => rfl
  | 2 => rfl
  | i + 3 => rfl

end AgenticPlatform.Corpus
