import AgenticPlatform.Corpus.Documents
import AgenticPlatform.Correctness.LeaseSystem

/-!
# Requests and the rebuilds they queue

An upload, a withdrawal and a purge each admit a reindex run in the transaction that
changes the documents. The idempotency key of the run names the collection and what
caused it: the hash of the content, or the id of the document. Requests interleave with
the workers that execute the runs. Document ids are generated once.
-/
namespace AgenticPlatform.Corpus
open AgenticPlatform.Foundation AgenticPlatform.Identity AgenticPlatform.Db
  AgenticPlatform.Correctness

/-! ## Keys -/

inductive RebuildCause where
  | upload (sha256 : String)
  | delete (id : Uuid)
  | purge (id : Uuid)
deriving DecidableEq

def rebuildKey (env : DocumentEnv) (collection : String) : RebuildCause → String
  | .upload sha256 => "reindex:" ++ collection ++ ":" ++ sha256
  | .delete id => "reindex:" ++ collection ++ ":delete:" ++ env.uuidText id
  | .purge id => "reindex:" ++ collection ++ ":purge:" ++ env.uuidText id

/-- What the standard library promises: a hex digest has no colon, and two identifiers
are not written alike. -/
structure DocumentEnv.Faithful (env : DocumentEnv) : Prop where
  sha256_plain : ∀ content, ':' ∉ (env.sha256 content).toList
  uuidText_injective : Function.Injective env.uuidText

/-- The part of a key after the collection. -/
def RebuildCause.text (env : DocumentEnv) : RebuildCause → List Char
  | .upload sha256 => sha256.toList
  | .delete id => ['d', 'e', 'l', 'e', 't', 'e', ':'] ++ (env.uuidText id).toList
  | .purge id => ['p', 'u', 'r', 'g', 'e', ':'] ++ (env.uuidText id).toList

theorem rebuildKey_toList (env : DocumentEnv) (collection : String) (cause : RebuildCause) :
    (rebuildKey env collection cause).toList =
      "reindex:".toList ++ (collection.toList ++ ':' :: cause.text env) := by
  cases cause with
  | upload sha256 =>
    simp only [rebuildKey, String.toList_append, List.append_assoc]
    rfl
  | delete id =>
    simp only [rebuildKey, String.toList_append, List.append_assoc]
    rfl
  | purge id =>
    simp only [rebuildKey, String.toList_append, List.append_assoc]
    rfl

/-- The hash of an upload is one that was computed. -/
def RebuildCause.Plain : RebuildCause → Prop
  | .upload sha256 => ':' ∉ sha256.toList
  | .delete _ | .purge _ => True

theorem text_injective {env : DocumentEnv} (hu : Function.Injective env.uuidText)
    {cause cause' : RebuildCause} (h : cause.Plain) (h' : cause'.Plain)
    (heq : cause.text env = cause'.text env) : cause = cause' := by
  have hdelete : ∀ id, ':' ∈ RebuildCause.text env (.delete id) := by
    intro id
    exact List.mem_append_left _ (by decide)
  have hpurge : ∀ id, ':' ∈ RebuildCause.text env (.purge id) := by
    intro id
    exact List.mem_append_left _ (by decide)
  cases cause with
  | upload sha256 =>
    cases cause' with
    | upload sha256' => rw [String.toList_inj.mp heq]
    | delete id =>
      exact absurd (heq.symm ▸ hdelete id : ':' ∈ RebuildCause.text env (.upload sha256)) h
    | purge id =>
      exact absurd (heq.symm ▸ hpurge id : ':' ∈ RebuildCause.text env (.upload sha256)) h
  | delete id =>
    cases cause' with
    | upload sha256 =>
      exact absurd (heq ▸ hdelete id : ':' ∈ RebuildCause.text env (.upload sha256)) h'
    | delete id' => rw [hu (String.toList_inj.mp (List.append_cancel_left heq))]
    | purge id' => cases (List.cons.inj heq).1
  | purge id =>
    cases cause' with
    | upload sha256 =>
      exact absurd (heq ▸ hpurge id : ':' ∈ RebuildCause.text env (.upload sha256)) h'
    | delete id' => cases (List.cons.inj heq).1
    | purge id' => rw [hu (String.toList_inj.mp (List.append_cancel_left heq))]

theorem rebuildKey_injective {env : DocumentEnv} (hu : Function.Injective env.uuidText)
    {collection collection' : String} {cause cause' : RebuildCause} (hc : ':' ∉ collection.toList)
    (hc' : ':' ∉ collection'.toList) (h : cause.Plain) (h' : cause'.Plain)
    (heq : rebuildKey env collection cause = rebuildKey env collection' cause') :
    collection = collection' ∧ cause = cause' := by
  have htexts := congrArg String.toList heq
  rw [rebuildKey_toList, rebuildKey_toList] at htexts
  obtain ⟨hcollection, htext⟩ := split_at_first hc hc' (List.append_cancel_left htexts)
  exact ⟨String.toList_inj.mp hcollection, text_injective hu h h' htext⟩

/-! ## Requests and workers -/

structure RebuildEnv where
  documents : DocumentEnv
  tenant : Tenant
  retry : RetrySettings

/-- What the server supplies when a run is admitted. -/
structure Generated where
  release : String
  trace : Json
  runId : Uuid
  outboxId : Nat

/-- The library of one tenant, the runs, and the document ids generated so far. -/
structure RebuildState where
  library : Library
  runs : LeaseState
  ids : List Uuid

def RebuildState.initial : RebuildState := ⟨.empty, .initial, []⟩

def reindexPayload (collection : String) : Json := .obj [("collection", .str collection)]

def reindexRequest (env : DocumentEnv) (ctx : RequestContext) (collection : String)
    (cause : RebuildCause) : EnqueueRequest where
  ctx := ctx
  workload := "reindex"
  payload := reindexPayload collection
  idempotencyKey := some (rebuildKey env collection cause)
  maxAttempts := 3

/-- The call of `enqueue_run` in the transaction of a request. -/
def queueRebuild (env : RebuildEnv) (runs : LeaseState) (ctx : RequestContext) (now : Time)
    (collection : String) (cause : RebuildCause) (g : Generated) : Option LeaseState :=
  leaseStep env.retry runs (now, .enqueueRun g.release g.trace
    (reindexRequest env.documents ctx collection cause) g.runId g.outboxId)

inductive RebuildAct where
  | create (ctx : RequestContext) (q : DocumentCreate) (newId : Uuid) (now : Time) (storeUp : Bool)
    (g : Generated)
  | delete (ctx : RequestContext) (id : Uuid) (now : Time) (g : Generated)
  | purge (ctx : RequestContext) (id : Uuid) (now : Time) (storeUp : Bool) (g : Generated)
  /-- A worker, a reaper or a cancellation. -/
  | work (now : Time) (op : LeaseOp)

/-- Who sends a request; workers act for themselves. -/
def RebuildAct.tenant : RebuildAct → Option Tenant
  | .create ctx .. | .delete ctx .. | .purge ctx .. => some ctx.tenant
  | .work .. => none

/-- An upload is given an id that was not used before. -/
def RebuildAct.fresh (ids : List Uuid) : RebuildAct → Prop
  | .create _ _ newId _ _ _ => newId ∉ ids
  | _ => True

instance (ids : List Uuid) : (a : RebuildAct) → Decidable (a.fresh ids)
  | .create _ _ newId _ _ _ => inferInstanceAs (Decidable (newId ∉ ids))
  | .delete .. | .purge .. | .work .. => isTrue trivial

/-- Runs are admitted by the requests only. -/
def admits : LeaseOp → Bool
  | .enqueueRun .. => true
  | _ => false

def rebuildStep (env : RebuildEnv) (s : RebuildState) (a : RebuildAct) : Option RebuildState :=
  if (∀ tenant ∈ a.tenant, tenant = env.tenant) ∧ a.fresh s.ids then
    match a with
    | .create ctx q newId now storeUp g =>
      match s.library.createDocument env.documents ⟨env.tenant.id, ctx.principal.id, newId, now⟩ q
          storeUp with
      | none => none
      | some (lib, .ok (.created d _)) =>
        (queueRebuild env s.runs ctx now d.collection (.upload d.contentSha256) g).map
          (fun runs => ⟨lib, runs, newId :: s.ids⟩)
      | some (lib, _) => some { s with library := lib }
    | .delete ctx id now g =>
      match s.library.deleteDocument id now with
      | none => some s
      | some (lib, d) =>
        (queueRebuild env s.runs ctx now d.collection (.delete id) g).map
          (fun runs => ⟨lib, runs, s.ids⟩)
    | .purge ctx id now storeUp g =>
      match s.library.purgeDocument id storeUp with
      | (_, .error _) => some s
      | (lib, .ok d) =>
        (queueRebuild env s.runs ctx now d.collection (.purge id) g).map
          (fun runs => ⟨lib, runs, s.ids⟩)
    | .work now op =>
      if admits op then none
      else (leaseStep env.retry s.runs (now, op)).map (fun runs => { s with runs := runs })
  else none

/-! ## What a step can do -/

theorem rebuildKey_ne_empty (env : DocumentEnv) (collection : String) (cause : RebuildCause) :
    rebuildKey env collection cause ≠ "" := by
  intro hempty
  have htext := congrArg String.toList hempty
  rw [rebuildKey_toList] at htext
  exact absurd (List.append_eq_nil_iff.mp htext).1 (by decide)

theorem reindexRequest_key (env : DocumentEnv) (ctx : RequestContext) (collection : String)
    (cause : RebuildCause) :
    (reindexRequest env ctx collection cause).key = some (rebuildKey env collection cause) := by
  have hne := rebuildKey_ne_empty env collection cause
  simp [EnqueueRequest.key, orText, reindexRequest, hne]

/-- The run a request is answered with: the one that carries its key, or a new one. -/
theorem queueRebuild_cases {env : RebuildEnv} {runs runs' : LeaseState} {ctx : RequestContext}
    {now : Time} {collection : String} {cause : RebuildCause} {g : Generated}
    (h : queueRebuild env runs ctx now collection cause g = some runs') :
    ∃ id created, runs'.log = runs.log ++ [.admitted id created] ∧ ((∃ r, runWithKey runs.db.run
      ctx.tenant.id (some (rebuildKey env.documents collection cause)) = some r ∧
      id = r.id ∧ runs'.db = runs.db) ∨
      (runWithKey runs.db.run ctx.tenant.id (some (rebuildKey env.documents collection cause)) =
        none ∧
        id = g.runId ∧ runs'.db.run.rows = runs.db.run.rows ++
        [newRun now g.release (reindexRequest env.documents ctx collection cause) g.runId])) := by
  obtain ⟨e, hexec, -, hlog⟩ := leaseStep_eq_some.mp h
  obtain ⟨⟨db', id, created⟩, henqueue, hres⟩ := Option.map_eq_some_iff.mp hexec
  cases hres
  exact ⟨id, created, hlog, enqueueRun_keyed (reindexRequest_key env.documents ctx collection cause)
    (rebuildKey_ne_empty env.documents collection cause) henqueue⟩

/-- A request that queues nothing leaves the document rows alone. -/
inductive RebuildMove (env : RebuildEnv) (s : RebuildState) : RebuildAct → RebuildState → Prop
  | quiet {a} (lib : Library) (hdocs : lib.documents = s.library.documents) :
    RebuildMove env s a { s with library := lib }
  | create (ctx : RequestContext) (q : DocumentCreate) (newId : Uuid) (now : Time) (storeUp : Bool)
    (g : Generated) (suffix : String) (content : Bytes) (row : DocumentRow) (lib : Library)
    (runs : LeaseState) (ht : ctx.tenant = env.tenant) (hfresh : newId ∉ s.ids)
    (hvalid : validate q = .ok (suffix, content))
    (hrow : row =
      newDocument env.documents ⟨env.tenant.id, ctx.principal.id, newId, now⟩ q suffix content)
    (hdocs : lib.documents.rows = s.library.documents.rows.map (afterUpload now row) ++ [row])
    (hruns : queueRebuild env s.runs ctx now q.collection (.upload (env.documents.sha256 content))
      g = some runs) :
    RebuildMove env s (.create ctx q newId now storeUp g) ⟨lib, runs, newId :: s.ids⟩
  | delete (ctx : RequestContext) (id : Uuid) (now : Time) (g : Generated) (d : DocumentRow)
    (lib : Library) (runs : LeaseState) (ht : ctx.tenant = env.tenant)
    (hd : d ∈ s.library.documents.rows) (hid : d.id = id) (hcurrent : d.current)
    (hdocs : lib.documents.rows = s.library.documents.rows.map (afterDelete id now))
    (hruns : queueRebuild env s.runs ctx now d.collection (.delete id) g = some runs) :
    RebuildMove env s (.delete ctx id now g) ⟨lib, runs, s.ids⟩
  | purge (ctx : RequestContext) (id : Uuid) (now : Time) (storeUp : Bool) (g : Generated)
    (d : DocumentRow) (lib : Library) (runs : LeaseState) (ht : ctx.tenant = env.tenant)
    (hd : d ∈ s.library.documents.rows) (hid : d.id = id) (hcurrent : ¬ d.current)
    (hdocs : lib.documents = s.library.documents.deleteWhere (fun r => r.id = id ∧ ¬ r.current))
    (hruns : queueRebuild env s.runs ctx now d.collection (.purge id) g = some runs) :
    RebuildMove env s (.purge ctx id now storeUp g) ⟨lib, runs, s.ids⟩
  | work (now : Time) (op : LeaseOp) (runs : LeaseState) (hop : admits op = false)
    (hruns : leaseStep env.retry s.runs (now, op) = some runs) :
    RebuildMove env s (.work now op) { s with runs := runs }

theorem rebuildStep_move {env : RebuildEnv} {s t : RebuildState} {a : RebuildAct}
    (h : rebuildStep env s a = some t) : RebuildMove env s a t := by
  unfold rebuildStep at h
  split at h
  · rename_i hguard
    cases a with
    | create ctx q newId now storeUp g =>
      have ht : ctx.tenant = env.tenant := hguard.1 _ rfl
      cases hcreate : s.library.createDocument env.documents
          ⟨env.tenant.id, ctx.principal.id, newId, now⟩ q storeUp with
      | none => simp [hcreate] at h
      | some result =>
        obtain ⟨lib, res⟩ := result
        rcases createDocument_cases hcreate with ⟨rfl, e, rfl⟩ |
          ⟨suffix, content, hvalid, -, hcases⟩
        · simp only [hcreate] at h
          cases h
          exact .quiet _ rfl
        · rcases hcases with ⟨hdocs, old, rfl⟩ | ⟨replaced, rfl, -, hdocs⟩
          · simp only [hcreate] at h
            cases h
            exact .quiet lib hdocs
          · simp only [hcreate] at h
            obtain ⟨runs, hruns, hres⟩ := Option.map_eq_some_iff.mp h
            cases hres
            exact .create ctx q newId now storeUp g suffix content _ lib runs ht hguard.2 hvalid rfl
              hdocs hruns
    | delete ctx id now g =>
      have ht : ctx.tenant = env.tenant := hguard.1 _ rfl
      cases hdelete : s.library.deleteDocument id now with
      | none =>
        simp only [hdelete] at h
        cases h
        exact .quiet s.library rfl
      | some result =>
        obtain ⟨lib, d⟩ := result
        obtain ⟨⟨a, ha, hid, hcurrent, rfl⟩, -, hdocs⟩ := deleteDocument_eq_some hdelete
        simp only [hdelete] at h
        obtain ⟨runs, hruns, hres⟩ := Option.map_eq_some_iff.mp h
        cases hres
        exact .delete ctx id now g a lib runs ht ha hid hcurrent hdocs hruns
    | purge ctx id now storeUp g =>
      have ht : ctx.tenant = env.tenant := hguard.1 _ rfl
      cases hpurge : s.library.purgeDocument id storeUp with
      | mk lib res =>
        have hcases := purgeDocument_cases s.library id storeUp
        rw [hpurge] at hcases
        rcases hcases with ⟨-, e, rfl⟩ | ⟨d, hd, hid, hcurrent, rfl, hdocs⟩
        · simp only [hpurge] at h
          cases h
          exact .quiet s.library rfl
        · simp only [hpurge] at h
          obtain ⟨runs, hruns, hres⟩ := Option.map_eq_some_iff.mp h
          cases hres
          exact .purge ctx id now storeUp g d lib runs ht hd hid hcurrent hdocs hruns
    | work now op =>
      simp only at h
      split at h
      · cases h
      · rename_i hop
        obtain ⟨runs, hruns, hres⟩ := Option.map_eq_some_iff.mp h
        cases hres
        exact .work now op runs (Bool.eq_false_iff.mpr hop) hruns
  · cases h

/-! ## Runs and their causes -/

/-- A reindex run of a collection of the tenant. -/
def Rebuilds (env : RebuildEnv) (collection : String) (r : RunRow) : Prop :=
  r.tenantId = env.tenant.id ∧ r.workload = "reindex" ∧ r.input = reindexPayload collection

instance (env : RebuildEnv) (collection : String) (r : RunRow) :
    Decidable (Rebuilds env collection r) :=
  inferInstanceAs (Decidable (_ ∧ _ ∧ _))

/-- The document a withdrawal or a purge is about. -/
def RebuildCause.subject : RebuildCause → Option Uuid
  | .upload _ => none
  | .delete id | .purge id => some id

/-- A document that has been withdrawn: its id was given out and no current row has it. -/
def Gone (s : RebuildState) (id : Uuid) : Prop :=
  id ∈ s.ids ∧ ∀ d ∈ s.library.documents.rows, d.id = id → ¬ d.current

structure CausedBy (env : RebuildEnv) (s : RebuildState) (r : RunRow) (collection : String)
    (cause : RebuildCause) : Prop where
  rebuilds : Rebuilds env collection r
  key : r.idempotencyKey = some (rebuildKey env.documents collection cause)
  collection_plain : ':' ∉ collection.toList
  plain : cause.Plain
  gone : ∀ id ∈ cause.subject, Gone s id

structure RebuildInv (env : RebuildEnv) (s : RebuildState) : Prop where
  caused : ∀ r ∈ s.runs.db.run.rows, ∃ collection cause, CausedBy env s r collection cause
  known : ∀ d ∈ s.library.documents.rows, ':' ∉ d.collection.toList ∧ d.id ∈ s.ids

theorem rebuildInv_initial (env : RebuildEnv) : RebuildInv env .initial where
  caused := by
    intro r hr
    cases hr
  known := by
    intro d hd
    cases hd

section
variable {env : RebuildEnv} {s t : RebuildState}

/-- Ids are not taken back, and a current row with an old id was there before. -/
structure Ages (s t : RebuildState) : Prop where
  ids : ∀ id ∈ s.ids, id ∈ t.ids
  current : ∀ d ∈ t.library.documents.rows, d.current → d.id ∈ s.ids → d ∈ s.library.documents.rows

theorem Gone.later (h : Ages s t) {id : Uuid} (hgone : Gone s id) : Gone t id := by
  refine ⟨h.ids id hgone.1, ?_⟩
  intro d hd hid hcurrent
  have hold := h.current d hd hcurrent (by rw [hid]; exact hgone.1)
  exact hgone.2 d hold hid hcurrent

theorem CausedBy.later (h : Ages s t) {r : RunRow} {collection : String} {cause : RebuildCause}
    (hr : CausedBy env s r collection cause) : CausedBy env t r collection cause where
  rebuilds := hr.rebuilds
  key := hr.key
  collection_plain := hr.collection_plain
  plain := hr.plain
  gone := by
    intro id hid
    exact (hr.gone id hid).later h

/-- A run keeps its cause while workers move it on. -/
theorem CausedBy.rowStep {now : Time} {e : LeaseEvent} {r r' : RunRow} {collection : String}
    {cause : RebuildCause} (hr : CausedBy env s r collection cause)
    (h : RowStep env.retry now e r r') : CausedBy env s r' collection cause := by
  obtain ⟨htenant, hworkload, hkey, hinput⟩ := h.request_eq
  obtain ⟨ht, hw, hi⟩ := hr.rebuilds
  exact ⟨⟨htenant.trans ht, hworkload.trans hw, hinput.trans hi⟩, hkey.trans hr.key,
    hr.collection_plain, hr.plain, hr.gone⟩

/-- The runs after a request: the old ones, and perhaps one with the cause of the request. -/
theorem caused_queued {ctx : RequestContext} {now : Time} {collection : String}
    {cause : RebuildCause} {g : Generated} (hs : RebuildInv env s) (hage : Ages s t)
    (ht : ctx.tenant = env.tenant)
    (hruns : queueRebuild env s.runs ctx now collection cause g = some t.runs)
    (hcollection : ':' ∉ collection.toList) (hplain : cause.Plain)
    (hgone : ∀ id ∈ cause.subject, Gone t id) :
    ∀ r ∈ t.runs.db.run.rows, ∃ collection cause, CausedBy env t r collection cause := by
  have hold : ∀ r ∈ s.runs.db.run.rows, ∃ collection cause, CausedBy env t r collection cause := by
    intro r hr
    obtain ⟨c, k, hcaused⟩ := hs.caused r hr
    exact ⟨c, k, hcaused.later hage⟩
  obtain ⟨id, created, -, ⟨r, -, -, hdb⟩ | ⟨-, -, hrows⟩⟩ := queueRebuild_cases hruns
  · rw [hdb]
    exact hold
  · rw [hrows]
    intro r hr
    rcases List.mem_append.mp hr with hr | hr
    · exact hold r hr
    · cases List.mem_singleton.mp hr
      refine ⟨collection, cause, ⟨?_, rfl, rfl⟩, ?_, hcollection, hplain, hgone⟩
      · rw [← ht]
        rfl
      · exact reindexRequest_key env.documents ctx collection cause

theorem ages_create {now : Time} {row : DocumentRow} (hfresh : row.id ∉ s.ids)
    (hids : t.ids = row.id :: s.ids)
    (hdocs : t.library.documents.rows =
      s.library.documents.rows.map (afterUpload now row) ++ [row]) : Ages s t := by
  constructor
  · intro id hid
    rw [hids]
    exact List.mem_cons_of_mem _ hid
  · intro d hd hcurrent hold
    rw [hdocs] at hd
    rcases List.mem_append.mp hd with hd | hd
    · obtain ⟨a, ha, rfl⟩ := List.mem_map.mp hd
      rw [afterUpload_current hcurrent]
      exact ha
    · cases List.mem_singleton.mp hd
      exact absurd hold hfresh

theorem ages_delete {id : Uuid} {now : Time} (hids : t.ids = s.ids)
    (hdocs : t.library.documents.rows = s.library.documents.rows.map (afterDelete id now)) :
    Ages s t := by
  constructor
  · rw [hids]
    exact fun _ h => h
  · intro d hd hcurrent _
    rw [hdocs] at hd
    obtain ⟨a, ha, rfl⟩ := List.mem_map.mp hd
    rw [(afterDelete_current hcurrent).1]
    exact ha

theorem ages_subset (hids : t.ids = s.ids)
    (hdocs : ∀ d ∈ t.library.documents.rows, d ∈ s.library.documents.rows) : Ages s t := by
  constructor
  · rw [hids]
    exact fun _ h => h
  · exact fun d hd _ _ => hdocs d hd

/-- Rows that keep their id and collection stay known. -/
theorem known_map (hs : RebuildInv env s) {f : DocumentRow → DocumentRow}
    (hf : ∀ d, (f d).id = d.id ∧ (f d).collection = d.collection) :
    ∀ d ∈ s.library.documents.rows.map f, ':' ∉ d.collection.toList ∧ d.id ∈ s.ids := by
  intro d hd
  obtain ⟨a, ha, rfl⟩ := List.mem_map.mp hd
  rw [(hf a).1, (hf a).2]
  exact hs.known a ha

/-- After a withdrawal no current row has the id. -/
theorem gone_deleted (hs : RebuildInv env s) {d : DocumentRow} {now : Time}
    (hd : d ∈ s.library.documents.rows) (hids : t.ids = s.ids)
    (hdocs : t.library.documents.rows = s.library.documents.rows.map (afterDelete d.id now)) :
    Gone t d.id := by
  refine ⟨by rw [hids]; exact (hs.known d hd).2, ?_⟩
  intro a ha hid hcurrent
  rw [hdocs] at ha
  obtain ⟨a₀, -, rfl⟩ := List.mem_map.mp ha
  obtain ⟨hsame, hne⟩ := afterDelete_current hcurrent
  rw [hsame] at hid
  exact hne hid

/-- A row that is purged was not current, and no other row has its id. -/
theorem gone_purged (hs : RebuildInv env s) {d : DocumentRow} (hd : d ∈ s.library.documents.rows)
    (hcurrent : ¬ d.current) (hids : t.ids = s.ids)
    (hdocs : ∀ a ∈ t.library.documents.rows, a ∈ s.library.documents.rows) : Gone t d.id := by
  refine ⟨by rw [hids]; exact (hs.known d hd).2, ?_⟩
  intro a ha hid
  rw [Table.eq_of_key (hdocs a ha) hd hid]
  exact hcurrent

theorem rebuildInv_work {now : Time} {op : LeaseOp} {runs : LeaseState} (hs : RebuildInv env s)
    (hop : admits op = false) (hruns : leaseStep env.retry s.runs (now, op) = some runs) :
    RebuildInv env { s with runs := runs } := by
  have hage : Ages s { s with runs := runs } := ages_subset rfl (fun _ h => h)
  refine ⟨?_, hs.known⟩
  obtain ⟨e, hexec, -, -⟩ := leaseStep_eq_some.mp hruns
  rcases exec_rows hexec with ⟨release, trace, q, runId, outboxId, rfl, -⟩ | ⟨f, hrows, hstep, -⟩
  · cases hop
  · intro r hr
    have hr : r ∈ runs.db.run.rows := hr
    rw [hrows] at hr
    obtain ⟨r₀, hr₀, rfl⟩ := List.mem_map.mp hr
    obtain ⟨c, k, hcaused⟩ := hs.caused r₀ hr₀
    exact ⟨c, k, (hcaused.later hage).rowStep (hstep r₀ hr₀)⟩

theorem rebuildInv_step {a : RebuildAct} (hfaithful : env.documents.Faithful)
    (h : rebuildStep env s a = some t) (hs : RebuildInv env s) : RebuildInv env t := by
  cases rebuildStep_move h with
  | quiet lib hdocs =>
    have hage : Ages s { s with library := lib } :=
      ages_subset rfl (by rw [hdocs]; exact fun _ h => h)
    constructor
    · intro r hr
      obtain ⟨c, k, hcaused⟩ := hs.caused r hr
      exact ⟨c, k, hcaused.later hage⟩
    · intro d hd
      exact hs.known d (hdocs ▸ hd)
  | create ctx q newId now storeUp g suffix content row lib runs ht hfresh hvalid hrow
      hdocs hruns =>
    have hid : row.id = newId := by rw [hrow]; rfl
    have hcollection : row.collection = q.collection := by rw [hrow]; rfl
    have hplain := colon_not_mem q.collection_valid
    have hage : Ages s ⟨lib, runs, newId :: s.ids⟩ :=
      ages_create (by rw [hid]; exact hfresh) (by rw [hid]) hdocs
    constructor
    · refine caused_queued hs hage ht hruns hplain (hfaithful.sha256_plain content) ?_
      intro id hsubject
      cases hsubject
    · intro d hd
      rw [hdocs] at hd
      rcases List.mem_append.mp hd with hd | hd
      · have hsame := fun a => afterUpload_same now row a
        have hold := known_map hs (fun a => ⟨(hsame a).1, (hsame a).2.1⟩) d hd
        exact ⟨hold.1, List.mem_cons_of_mem _ hold.2⟩
      · cases List.mem_singleton.mp hd
        rw [hid, hcollection]
        exact ⟨hplain, List.mem_cons_self⟩
  | delete ctx id now g d lib runs ht hd hid hcurrent hdocs hruns =>
    subst hid
    have hage : Ages s ⟨lib, runs, s.ids⟩ := ages_delete rfl hdocs
    constructor
    · refine caused_queued hs hage ht hruns (hs.known d hd).1 trivial ?_
      intro id hsubject
      cases hsubject
      exact gone_deleted hs hd rfl hdocs
    · intro a ha
      rw [hdocs] at ha
      have hsame := fun a => afterDelete_same d.id now a
      exact known_map hs (fun a => ⟨(hsame a).1, (hsame a).2.1⟩) a ha
  | purge ctx id now storeUp g d lib runs ht hd hid hcurrent hdocs hruns =>
    subst hid
    have hsubset : ∀ a ∈ lib.documents.rows, a ∈ s.library.documents.rows := by
      intro a ha
      rw [hdocs] at ha
      exact (Table.mem_deleteWhere.mp ha).1
    have hage : Ages s ⟨lib, runs, s.ids⟩ := ages_subset rfl hsubset
    constructor
    · refine caused_queued hs hage ht hruns (hs.known d hd).1 trivial ?_
      intro id hsubject
      cases hsubject
      exact gone_purged hs hd hcurrent rfl hsubset
    · intro a ha
      exact hs.known a (hsubset a ha)
  | work now op runs hop hruns => exact rebuildInv_work hs hop hruns

/-! ## Which requests change what is current -/

/-- Rows that are rewritten outside a selection leave it as it is. -/
theorem filter_map_of_outside {f : DocumentRow → DocumentRow} {p : DocumentRow → Bool}
    {ds : List DocumentRow} (h : ∀ d ∈ ds, f d = d ∨ (p d = false ∧ p (f d) = false)) :
    (ds.map f).filter p = ds.filter p := by
  induction ds with
  | nil => rfl
  | cons d ds ih =>
    have hrest := ih (fun d' hd' => h d' (List.mem_cons_of_mem d hd'))
    rcases h d List.mem_cons_self with hsame | ⟨hout, hout'⟩
    · simp only [List.map_cons, List.filter_cons, hsame, hrest]
    · simp [hout, hout', hrest]

/-- An upload changes the current documents of its own collection only. -/
theorem currentOf_create {lib lib' : Library} {now : Time} {row : DocumentRow} {c : String}
    (hdocs : lib'.documents.rows = lib.documents.rows.map (afterUpload now row) ++ [row])
    (hc : row.collection ≠ c) : lib'.currentOf c = lib.currentOf c := by
  have hrow : decide (row.collection = c ∧ row.current) = false := decide_eq_false (fun h => hc h.1)
  rw [Library.currentOf, hdocs, List.filter_append, List.filter_singleton, hrow, cond_false,
    List.append_nil]
  apply filter_map_of_outside
  intro d _
  unfold afterUpload Table.rewrite
  split
  · rename_i hnamed
    have hd : d.collection ≠ c := hnamed.1 ▸ hc
    exact Or.inr ⟨decide_eq_false (fun h => hd h.1), decide_eq_false (fun h => hd h.1)⟩
  · exact Or.inl rfl

theorem currentOf_delete {lib lib' : Library} {id : Uuid} {now : Time} {d : DocumentRow}
    {c : String} (hd : d ∈ lib.documents.rows) (hid : d.id = id)
    (hdocs : lib'.documents.rows = lib.documents.rows.map (afterDelete id now))
    (hc : d.collection ≠ c) : lib'.currentOf c = lib.currentOf c := by
  rw [Library.currentOf, hdocs]
  apply filter_map_of_outside
  intro a ha
  unfold afterDelete Table.rewrite
  split
  · rename_i hmatch
    have hsame : a = d := Table.eq_of_key ha hd (hmatch.1.trans hid.symm)
    have hac : a.collection ≠ c := by rw [hsame]; exact hc
    exact Or.inr ⟨decide_eq_false (fun h => hac h.1), decide_eq_false (fun h => hac h.1)⟩
  · exact Or.inl rfl

theorem currentOf_purge {lib lib' : Library} {id : Uuid} (c : String)
    (hdocs : lib'.documents = lib.documents.deleteWhere (fun r => r.id = id ∧ ¬ r.current)) :
    lib'.currentOf c = lib.currentOf c := by
  rw [Library.currentOf, hdocs, Table.deleteWhere, List.filter_filter]
  apply List.filter_congr
  intro d _
  by_cases hcurrent : d.current <;> simp [hcurrent]

/-! ## The run a request is answered with -/

/-- The request is answered with a reindex run of the collection that is pending when it
commits. -/
def AnsweredPending (env : RebuildEnv) (c : String) (s t : RebuildState) : Prop :=
  ∃ id created, t.runs.log = s.runs.log ++ [.admitted id created] ∧
    ∃ r ∈ t.runs.db.run.rows, r.id = id ∧ Rebuilds env c r ∧ r.status = .pending

/-- Some reindex run of the collection is pending. -/
def RebuildPending (env : RebuildEnv) (c : String) (s : RebuildState) : Prop :=
  ∃ r ∈ s.runs.db.run.rows, Rebuilds env c r ∧ r.status = .pending

instance (env : RebuildEnv) (c : String) (s : RebuildState) : Decidable (RebuildPending env c s) :=
  inferInstanceAs (Decidable (∃ r ∈ s.runs.db.run.rows, _))

/-- No run of the tenant that has left the queue carries the key. -/
def KeyUnspent (env : RebuildEnv) (s : RebuildState) (key : String) : Prop :=
  ∀ r ∈ runWithKey s.runs.db.run env.tenant.id (some key), r.status = .pending

/-- An upload whose content was not indexed by a run that has left the queue. -/
def newContent (env : RebuildEnv) (s : RebuildState) : RebuildAct → Prop
  | .create _ q _ _ _ _ =>
    ∀ suffix content, validate q = .ok (suffix, content) →
      KeyUnspent env s
      (rebuildKey env.documents q.collection (.upload (env.documents.sha256 content)))
  | _ => True

/-- A run found under a key has the cause of the key. -/
theorem causedBy_of_found (hfaithful : env.documents.Faithful) (hs : RebuildInv env s) {c : String}
    {cause : RebuildCause} {r : RunRow} (hc : ':' ∉ c.toList) (hplain : cause.Plain)
    (hfound : runWithKey s.runs.db.run env.tenant.id (some (rebuildKey env.documents c cause)) =
      some r) : r ∈ s.runs.db.run.rows ∧ CausedBy env s r c cause := by
  obtain ⟨hr, -, -, hkey⟩ := runWithKey_some hfound
  obtain ⟨c', cause', hcaused⟩ := hs.caused r hr
  have hsame := Option.some.inj (hcaused.key.symm.trans hkey)
  obtain ⟨rfl, rfl⟩ :=
    rebuildKey_injective hfaithful.uuidText_injective hcaused.collection_plain hc hcaused.plain
      hplain hsame
  exact ⟨hr, hcaused⟩

theorem newRun_rebuilds {ctx : RequestContext} (ht : ctx.tenant = env.tenant) (now : Time)
    (c : String) (cause : RebuildCause) (g : Generated) :
    Rebuilds env c (newRun now g.release (reindexRequest env.documents ctx c cause) g.runId) := by
  refine ⟨?_, rfl, rfl⟩
  rw [← ht]
  rfl

/-- What a request that queues a rebuild leaves, by the run its key names. -/
theorem pending_iff_unspent (hfaithful : env.documents.Faithful) (hs : RebuildInv env s)
    {ctx : RequestContext} {now : Time} {c : String} {cause : RebuildCause} {g : Generated}
    (ht : ctx.tenant = env.tenant) (hc : ':' ∉ c.toList) (hplain : cause.Plain)
    (hruns : queueRebuild env s.runs ctx now c cause g = some t.runs) :
    (AnsweredPending env c s t ↔ KeyUnspent env s (rebuildKey env.documents c cause)) ∧
      (RebuildPending env c t ↔ KeyUnspent env s (rebuildKey env.documents c cause) ∨
        RebuildPending env c s) := by
  obtain ⟨id, created, hlog, hcases⟩ := queueRebuild_cases hruns
  rw [ht] at hcases
  rcases hcases with ⟨r, hfound, rfl, hdb⟩ | ⟨hnone, rfl, hrows⟩
  · -- The key names a run: nothing is written, and that run is the answer.
    obtain ⟨hr, hcaused⟩ := causedBy_of_found hfaithful hs hc hplain hfound
    have hunspent : KeyUnspent env s (rebuildKey env.documents c cause) ↔ r.status = .pending := by
      simp [KeyUnspent, hfound]
    rw [hunspent, RebuildPending, hdb]
    constructor
    · constructor
      · rintro ⟨id, created', hlog', r', hr', hid, -, hpending⟩
        have hevent := List.append_cancel_left (hlog.symm.trans hlog')
        cases hevent
        rw [hdb] at hr'
        rw [← Table.eq_of_key hr' hr hid]
        exact hpending
      · intro hpending
        exact ⟨r.id, created, hlog, r, by rw [hdb]; exact hr, rfl, hcaused.rebuilds, hpending⟩
    · constructor
      · exact Or.inr
      · rintro (hpending | hpending)
        · exact ⟨r, hr, hcaused.rebuilds, hpending⟩
        · exact hpending
  · have hunspent : KeyUnspent env s (rebuildKey env.documents c cause) := by
      simp [KeyUnspent, hnone]
    have hnew := newRun_rebuilds ht now c cause g
    have hmem : newRun now g.release (reindexRequest env.documents ctx c cause) g.runId ∈
        t.runs.db.run.rows := by
      rw [hrows]
      exact List.mem_append_right _ List.mem_cons_self
    constructor
    · exact iff_of_true ⟨g.runId, created, hlog, _, hmem, rfl, hnew, rfl⟩ hunspent
    · exact iff_of_true ⟨_, hmem, hnew, rfl⟩ (Or.inl hunspent)

/-- In every reachable state, a request that changes the current documents of a collection
is answered with a pending rebuild of it exactly when it is a withdrawal or brings content
whose rebuild has not left the queue; otherwise a pending rebuild is there only if it was
before. -/
theorem change_commits_with_rebuild_iff {a : RebuildAct} {acts : List RebuildAct} {c : String}
    (hfaithful : env.documents.Faithful) (hrun : Reaches (rebuildStep env) .initial acts s)
    (hstep : rebuildStep env s a = some t)
    (hchange : t.library.currentOf c ≠ s.library.currentOf c) :
    (AnsweredPending env c s t ↔ newContent env s a) ∧
      (RebuildPending env c t ↔ newContent env s a ∨ RebuildPending env c s) := by
  have hs : RebuildInv env s :=
    hrun.invariant (fun _ _ _ hs h => rebuildInv_step hfaithful h hs) (rebuildInv_initial env)
  cases rebuildStep_move hstep with
  | quiet lib hdocs => exact absurd (by rw [Library.currentOf, hdocs]; rfl) hchange
  | create ctx q newId now storeUp g suffix content row lib runs ht hfresh hvalid hrow
      hdocs hruns =>
    have hcollection : row.collection = q.collection := by rw [hrow]; rfl
    have hc : q.collection = c := by
      by_contra hne
      exact hchange (currentOf_create hdocs (by rw [hcollection]; exact hne))
    subst hc
    have hcontent : newContent env s (.create ctx q newId now storeUp g) ↔
        KeyUnspent env s
        (rebuildKey env.documents q.collection (.upload (env.documents.sha256 content))) := by
      simp [newContent, hvalid]
    rw [hcontent]
    exact pending_iff_unspent hfaithful hs ht (colon_not_mem q.collection_valid)
      (hfaithful.sha256_plain content) hruns
  | delete ctx id now g d lib runs ht hd hid hcurrent hdocs hruns =>
    have hc : d.collection = c := by
      by_contra hne
      exact hchange (currentOf_delete hd hid hdocs hne)
    subst hc
    have hunspent : KeyUnspent env s (rebuildKey env.documents d.collection (.delete id)) := by
      intro r hfound
      have hplain : (RebuildCause.delete id).Plain := trivial
      obtain ⟨-, hcaused⟩ := causedBy_of_found hfaithful hs (hs.known d hd).1 hplain hfound
      exact absurd hcurrent ((hcaused.gone id rfl).2 d hd hid)
    have hcontent : newContent env s (.delete ctx id now g) ↔
        KeyUnspent env s (rebuildKey env.documents d.collection (.delete id)) :=
      iff_of_true trivial hunspent
    rw [hcontent]
    exact pending_iff_unspent hfaithful hs ht (hs.known d hd).1 trivial hruns
  | purge ctx id now storeUp g d lib runs ht hd hid hcurrent hdocs hruns =>
    exact absurd (currentOf_purge c hdocs) hchange
  | work now op runs hop hruns => exact absurd rfl hchange

end

/-! ## A guide that is edited and reverted -/

def firstText : Bytes := [118, 49]

def secondText : Bytes := [118, 50]

/-- SHA-256 on the two texts of the guide. -/
def guideSha256 (content : Bytes) : String :=
  if content = firstText then "3bfc269594ef649228e9a74bab00f042efc91d5acc6fbee31a382e80d42388fe"
  else "fb04dcb6970e4c3d1873de51fd5a50d7bb46b3383113602665c350ec40b5f990"

def guideEnv : RebuildEnv where
  documents := { sha256 := guideSha256, uuidText := Nat.repr }
  tenant := sampleTenant
  retry := .default

theorem guideEnv_faithful : guideEnv.documents.Faithful where
  sha256_plain := by
    intro content
    change ':' ∉ (guideSha256 content).toList
    unfold guideSha256
    split <;> decide +kernel
  uuidText_injective := by
    intro a b h
    have hdigits := congrArg (fun text => Nat.ofDigitChars 10 text.toList 0) h
    simpa [guideEnv, Nat.ofDigitChars_toDigits] using hdigits

def guideUpload (content : Bytes) : DocumentCreate where
  collection := "manuals"
  filename := "guide.txt"
  content := some content
  collection_valid := isCollectionName_manuals
  filename_valid := by decide +kernel

def guideRun (runId : Uuid) : Generated := ⟨"r1", .emptyObj, runId, runId⟩

/-- A worker takes the run and completes it. -/
def finishRun (runId : Uuid) (worker : String) (now : Time) : List RebuildAct :=
  [.work now (.acquireSpecific sampleTenant runId worker 60), .work now (.call ⟨runId, sampleTenant,
    "reindex", reindexPayload "manuals", 1, 3, worker, now + 60⟩ (.complete none))]

/-- The first text is uploaded and indexed. -/
def guideIndexed : List RebuildAct :=
  [.create sampleContext (guideUpload firstText) 1 0 true (guideRun 100)] ++ finishRun 100 "w1" 1

/-- Then the second one. -/
def guideEdited : List RebuildAct :=
  guideIndexed ++ [.create sampleContext (guideUpload secondText) 2 10 true (guideRun 101)] ++
    finishRun 101 "w2" 11

theorem guideIndexed_run : (guideIndexed.foldlM (rebuildStep guideEnv) .initial).isSome = true := by
  decide +kernel

theorem guideEdited_run : (guideEdited.foldlM (rebuildStep guideEnv) .initial).isSome = true := by
  decide +kernel

def editGuide : RebuildAct :=
  .create sampleContext (guideUpload secondText) 2 10 true (guideRun 101)

theorem editGuide_run :
    (rebuildStep guideEnv ((guideIndexed.foldlM (rebuildStep guideEnv) .initial).get
      guideIndexed_run) editGuide).isSome = true := by
  decide +kernel

/-- The second text is new, so the edit is answered with a pending rebuild. -/
theorem change_commits_with_rebuild_edit :
    ∃ s t, Reaches (rebuildStep guideEnv) .initial guideIndexed s ∧
      rebuildStep guideEnv s editGuide = some t ∧
      t.library.currentOf "manuals" ≠ s.library.currentOf "manuals" ∧
      AnsweredPending guideEnv "manuals" s t := by
  have hrun := reaches_get guideIndexed_run
  have hstep := (Option.some_get editGuide_run).symm
  refine ⟨_, _, hrun, hstep, by decide +kernel, ?_⟩
  refine (change_commits_with_rebuild_iff guideEnv_faithful hrun hstep (by decide +kernel)).1.mpr ?_
  intro suffix content hvalid
  have hcontent : validate (guideUpload secondText) = .ok (".txt", secondText) := by rfl
  cases hcontent.symm.trans hvalid
  intro r hfound
  have hnone : runWithKey
      ((guideIndexed.foldlM (rebuildStep guideEnv) .initial).get guideIndexed_run).runs.db.run
      guideEnv.tenant.id (some (rebuildKey guideEnv.documents "manuals"
        (.upload (guideEnv.documents.sha256 secondText)))) = none := by decide +kernel
  rw [show (guideUpload secondText).collection = "manuals" from rfl, hnone] at hfound
  cases hfound

/-- The first text is uploaded again. -/
def revertGuide : RebuildAct :=
  .create sampleContext (guideUpload firstText) 3 20 true (guideRun 102)

theorem revertGuide_run :
    (rebuildStep guideEnv ((guideEdited.foldlM (rebuildStep guideEnv) .initial).get guideEdited_run)
      revertGuide).isSome = true := by
  decide +kernel

/-- The revert replaces the current row and is answered with the first run, which has
succeeded: no rebuild is pending. -/
theorem revert_commits_without_rebuild :
    ∃ s t, Reaches (rebuildStep guideEnv) .initial guideEdited s ∧
      rebuildStep guideEnv s revertGuide = some t ∧
      (s.library.currentOf "manuals").map DocumentRow.id = [2] ∧
      (t.library.currentOf "manuals").map DocumentRow.id = [3] ∧
      t.runs.db.run.rows.map RunRow.status = [.succeeded, .succeeded] ∧
      ¬ AnsweredPending guideEnv "manuals" s t ∧ ¬ RebuildPending guideEnv "manuals" t := by
  have hnone : ¬ RebuildPending guideEnv "manuals" ((rebuildStep guideEnv
      ((guideEdited.foldlM (rebuildStep guideEnv) .initial).get guideEdited_run) revertGuide).get
      revertGuide_run) := by
    decide +kernel
  refine ⟨_, _, reaches_get guideEdited_run,
    (Option.some_get revertGuide_run).symm, by decide +kernel,
    by decide +kernel, by decide +kernel, ?_, hnone⟩
  rintro ⟨id, created, -, r, hr, -, hrebuilds, hpending⟩
  exact hnone ⟨r, hr, hrebuilds, hpending⟩

end AgenticPlatform.Corpus
