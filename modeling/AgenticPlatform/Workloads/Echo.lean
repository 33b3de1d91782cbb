import AgenticPlatform.Corpus.Documents
import AgenticPlatform.Correctness.EffectReturns
import AgenticPlatform.Foundation.JsonFields
import AgenticPlatform.Foundation.Utf8

/-!
# The echo workload

Three steps, each performed once: a document row is registered, the text is made, and a
notification is appended. Attempts at the runs of a tenant overlap, stall, die at any point
and are made again, while documents are uploaded, withdrawn and purged. The collection of
the notifications holds what is appended here and nothing else. A statement is one step, on
the rows that were committed when it began.
-/
namespace AgenticPlatform.Workloads.Echo
open AgenticPlatform.Foundation AgenticPlatform.Identity AgenticPlatform.Db AgenticPlatform.Corpus
open AgenticPlatform.Correctness

structure EchoEnv where
  files : DocumentEnv
  /-- `str.upper`. -/
  upper : String → String
  /-- `str` of a value that is no text. -/
  strText : Json → String
  /-- The payloads of the runs, which nothing updates. -/
  payload : Uuid → List (String × Json)

section
variable (env : EchoEnv)

/-- `str(payload.get("message", ""))`. -/
def messageOf (runId : Uuid) : String :=
  match (env.payload runId).lookup "message" with
  | none => ""
  | some (.str text) => text
  | some value => env.strText value

def digestOf (message : String) : String := env.files.sha256 (utf8 message.toList)

def filenameOf (message : String) : String := clip 12 (digestOf env message) ++ ".txt"

/-- Unique per run. -/
def notificationKey (runId : Uuid) : String :=
  "c_" ++ String.ofList (((env.files.uuidText runId).toList.filter (fun c => c ≠ '-')).take 14)

/-! ## reserve -/

def echoDocument (message : String) (by_ newId : Uuid) (now : Time) : DocumentRow where
  id := newId
  collection := "echo"
  filename := filenameOf env message
  contentSha256 := digestOf env message
  byteSize := (utf8 message.toList).length
  storageKey := "echo/" ++ digestOf env message ++ ".txt"
  uploadedBy := some by_
  createdAt := now
  supersededAt := none
  supersededBy := none

end

def named (row d : DocumentRow) : Prop :=
  d.collection = row.collection ∧ d.filename = row.filename ∧ d.current

instance (row : DocumentRow) : DecidablePred (named row) :=
  fun _ => inferInstanceAs (Decidable (_ ∧ _ ∧ _))

/-- SET content_sha256 = EXCLUDED.content_sha256. -/
def rehashed (row d : DocumentRow) : DocumentRow := { d with contentSha256 := row.contentSha256 }

/-- The INSERT where no current document has the name. -/
def insertFresh (lib : Library) (row : DocumentRow)
    (hnone : ∀ d ∈ lib.documents.rows, ¬ named row d) (hfresh : row.id ∉ lib.documents.keys) :
    Library where
  documents := lib.documents.insert row hfresh
  objects := lib.objects
  one_current := by
    intro a ha b hb hca hcb hcollection hfilename
    rcases Table.mem_insert.mp ha with hold | rfl
    · rcases Table.mem_insert.mp hb with hold' | rfl
      · exact lib.one_current a hold b hold' hca hcb hcollection hfilename
      · exact absurd ⟨hcollection, hfilename, hca⟩ (hnone a hold)
    · rcases Table.mem_insert.mp hb with hold' | rfl
      · exact absurd ⟨hcollection.symm, hfilename.symm, hcb⟩ (hnone b hold')
      · rfl

/-- DO UPDATE, where one has. -/
def rehash (lib : Library) (row : DocumentRow) : Library where
  documents := lib.documents.updateWhere (named row) (rehashed row) (fun _ => rfl)
  objects := lib.objects
  one_current := by
    have hold : ∀ d ∈ (lib.documents.updateWhere (named row) (rehashed row) (fun _ => rfl)).rows,
        d ∈ lib.documents.rows ∧ ¬ named row d ∨ ∃ a ∈ lib.documents.rows, named row a ∧
        d = rehashed row a := by
      intro d hd
      exact Table.mem_updateWhere (f := rehashed row) (fun _ => rfl) hd
    intro a ha b hb hca hcb hcollection hfilename
    rcases hold a ha with ⟨ha', hna⟩ | ⟨a', ha', hna, rfl⟩
    · rcases hold b hb with ⟨hb', -⟩ | ⟨b', hb', hnb, rfl⟩
      · exact lib.one_current a ha' b hb' hca hcb hcollection hfilename
      · exact absurd ⟨hcollection.trans hnb.1, hfilename.trans hnb.2.1, hca⟩ hna
    · rcases hold b hb with ⟨hb', hnb⟩ | ⟨b', hb', -, rfl⟩
      · exact absurd ⟨hcollection.symm.trans hna.1, hfilename.symm.trans hna.2.1, hcb⟩ hnb
      · rw [lib.one_current a' ha' b' hb' hca hcb hcollection hfilename]

theorem not_named {lib : Library} {row : DocumentRow}
    (h : lib.documents.rows.find? (fun d => decide (named row d)) = none) :
    ∀ d ∈ lib.documents.rows, ¬ named row d := by
  intro d hd hnamed
  exact absurd (decide_eq_true hnamed) (List.find?_eq_none.mp h d hd)

/-- `INSERT … ON CONFLICT (…) WHERE superseded_at IS NULL DO UPDATE … RETURNING id`; `none`
where the generated id is taken. -/
def upsert (lib : Library) (row : DocumentRow) : Option (Library × Uuid) :=
  match h : lib.documents.rows.find? (fun d => decide (named row d)) with
  | some d => some (rehash lib row, d.id)
  | none => if hfresh :
    row.id ∉ lib.documents.keys then some (insertFresh lib row (not_named h) hfresh, row.id)
    else none

/-! ## announce -/

structure Notification where
  id : Uuid
  documentId : Uuid
  canonicalId : String
  ordinal : Int
  text : String
deriving DecidableEq

/-- The chunk rows of 'echo-notifications', all of build 1, under the unique constraint. -/
abbrev NotificationLog := Table Notification Notification.canonicalId

/-- The largest ordinal and one. -/
def nextOrdinal (rows : List Notification) : Int :=
  (rows.map Notification.ordinal).foldl max (-1) + 1

/-- The INSERT … SELECT: a row for every document of these bytes, and one of them is asked
for. `none` where the database refuses or there is no row. -/
def append (lib : Library) (log : NotificationLog) (digest key output : String) (seen : Nat)
    (newId : Uuid → Uuid) : Option (NotificationLog × Notification) :=
  let rows := (lib.documents.rows.filter (fun d => d.contentSha256 = digest)).map (fun d =>
    { id := newId d.id, documentId := d.id, canonicalId := key,
      ordinal := nextOrdinal (log.rows.take seen), text := clip 2000 output })
  match rows with
  | [n] => (log.tryInsert n).map (fun log' => (log', n))
  -- Two rows of one key violate the constraint.
  | _ => none

/-- ON DELETE CASCADE. -/
def cascade (lib : Library) (log : NotificationLog) : NotificationLog :=
  log.deleteWhere (fun n => n.documentId ∉ lib.documents.keys)

/-! ## The attempts -/

structure EchoResult where
  output : Json
  digest : String
  documentId : Json
  notificationId : Json
  repeatedSteps : List String
deriving DecidableEq

inductive AttemptPhase where
  | reserving (call : Nat)
  | transforming (reserved : EffectOutcome) (call : Nat)
  | announcing (reserved transformed : EffectOutcome) (call : Nat)
  /-- With the call that announced, which is not returned. -/
  | returned (result : EchoResult) (call : Nat)
  | raised
deriving DecidableEq

structure Attempt where
  runId : Uuid
  by_ : Uuid
  claimant : String
  phase : AttemptPhase
deriving DecidableEq

/-- The step that is being performed, and the call that performs it. -/
def AttemptPhase.performing : AttemptPhase → Option (String × Nat)
  | .reserving c => some ("reserve", c)
  | .transforming _ c => some ("transform", c)
  | .announcing _ _ c => some ("announce", c)
  | .returned .. | .raised => none

/-- `perform_once` with the policy of the step and the default claim_ttl. -/
def stepRequest (runId : Uuid) (step claimant : String) : EffectRequest where
  runId := runId
  step := step
  retryPolicy := if step = "announce" then .needsReconciliation else .safeToRepeat
  claimTtl := 300
  claimant := claimant

structure EchoState where
  effects : EffectState
  library : Library
  log : NotificationLog
  attempts : Nat → Option Attempt

def EchoState.initial (library : Library) : EchoState :=
  ⟨EffectState.initial, library, Table.empty, fun _ => none⟩

/-- What the server draws for a body, and how its transaction may end. -/
structure BodyDraw where
  now : Time
  newId : Uuid
  rowId : Uuid → Uuid
  /-- How many notifications were committed when the statement began. -/
  seen : Nat
  /-- What the exception of a refused statement says. -/
  refusal : String
  /-- What an exception says that is raised after the commit. -/
  lost : Option String

section
variable (env : EchoEnv)

def reservedResult (id : Uuid) : Json := .obj [("document_id", .str (env.files.uuidText id))]

def transformedResult (message : String) : Json :=
  .obj [("output", .str (env.upper message)),
    ("key", .str ("echo/" ++ digestOf env message ++ ".out"))]

def announcedResult (id : Uuid) : Json := .obj [("notification_id", .str (env.files.uuidText id))]

/-- `outcome.result[name]`. -/
def itemOf (o : EffectOutcome) (name : String) : Option Json :=
  (fieldsOf (o.result.getD .null)).lookup name

/-- `_reserve`, `_transform` or `_announce`. -/
def body (s : EchoState) (a : Attempt) (d : BodyDraw) :
    Option (Library × NotificationLog × Except String Json) :=
  let message := messageOf env a.runId
  match a.phase with
  | .reserving _ =>
    (upsert s.library (echoDocument env message a.by_ d.newId d.now)).map (fun (library, id) =>
      (library, s.log, .ok (reservedResult env id)))
  | .transforming .. => some (s.library, s.log, .ok (transformedResult env message))
  | .announcing _ transformed _ =>
    match itemOf transformed "output" with
    | some (.str output) =>
      match append s.library s.log (digestOf env message) (notificationKey env a.runId) output
          d.seen d.rowId with
      | some (log, n) => some (s.library, log, .ok (announcedResult env n.id))
      | none => some (s.library, s.log, .error d.refusal)
    | _ => some (s.library, s.log, .error d.refusal)
  | .returned .. | .raised => none

/-- What the body returns, or raises after it was applied. -/
def settled (d : BodyDraw) (outcome : Except String Json) : Except String Json :=
  match outcome, d.lost with
  | .ok _, some error => .error error
  | outcome, _ => outcome

/-- The steps that were there already. -/
def repeatedSteps (reserved transformed announced : EffectOutcome) : List String :=
  ([("reserve", reserved), ("transform", transformed), ("announce", announced)].filter
    (fun p => p.2.repeated)).map Prod.fst

/-- The dict that `run` returns; `none` where a key is missing. -/
def resultOf (message : String) (reserved transformed announced : EffectOutcome) :
    Option EchoResult :=
  do
  let output ← itemOf transformed "output"
  let documentId ← itemOf reserved "document_id"
  let notificationId ← itemOf announced "notification_id"
  some ⟨output, digestOf env message, documentId, notificationId,
    repeatedSteps reserved transformed announced⟩

end

/-! ## The system -/

inductive EchoAct where
  | start (k : Nat) (runId by_ : Uuid) (claimant : String) (call : Nat)
  /-- A step of the call an attempt is in, other than its body returning. -/
  | call (k : Nat) (a : CallAct)
  | perform (k : Nat) (d : BodyDraw)
  /-- The call has ended, and the attempt goes on or raises. -/
  | next (k : Nat) (call : Nat)
  | reap (runIds : List Uuid)
  | requestCancel (runId : Uuid)
  | upload (u : Upload) (q : DocumentCreate) (storeUp : Bool)
  | withdraw (id : Uuid) (now : Time)
  | purge (id : Uuid) (storeUp : Bool)

/-- A body that returns has been performed. -/
def CallAct.returns : CallAct → Bool
  | .settle (.ok _) => true
  | _ => false

def EchoState.put (s : EchoState) (k : Nat) (a : Attempt) (phase : AttemptPhase) : EchoState :=
  { s with attempts := Function.update s.attempts k (some { a with phase := phase }) }

section
variable (env : EchoEnv)

/-- Enter `perform_once` for a step. -/
def enter (s : EchoState) (k : Nat) (a : Attempt) (step : String) (phase : AttemptPhase)
    (call : Nat) : Option EchoState :=
  (effectStep s.effects (.begin call (stepRequest a.runId step a.claimant))).map (fun effects =>
    { s with effects := effects }.put k a phase)

/-- The line after a call that returned. -/
def advance (s : EchoState) (k : Nat) (a : Attempt) (o : EffectOutcome) (call : Nat) :
    Option EchoState :=
  match a.phase with
  | .reserving _ => enter s k a "transform" (.transforming o call) call
  | .transforming reserved _ => enter s k a "announce" (.announcing reserved o call) call
  | .announcing reserved transformed c =>
    match resultOf env (messageOf env a.runId) reserved transformed o with
    | some result => some (s.put k a (.returned result c))
    | none => some (s.put k a .raised)
  | .returned .. | .raised => none

def echoStep (s : EchoState) : EchoAct → Option EchoState
  | .start k runId by_ claimant call =>
    if s.attempts k ≠ none then none
    -- ValueError
    else if messageOf env runId = "" then some (s.put k ⟨runId, by_, claimant, .raised⟩ .raised)
    else enter s k ⟨runId, by_, claimant, .raised⟩ "reserve" (.reserving call) call
  | .call k act => do
    let a ← s.attempts k
    let (_, c) ← a.phase.performing
    if CallAct.returns act then none
    else (effectStep s.effects (.call c act)).map (fun effects => { s with effects := effects })
  | .perform k d => do
    let a ← s.attempts k
    let (_, c) ← a.phase.performing
    let (library, log, outcome) ← body env s a d
    let effects ← effectStep s.effects (.call c (.settle (settled d outcome)))
    some { s with effects := effects, library := library, log := log }
  | .next k call => do
    let a ← s.attempts k
    let (_, c) ← a.phase.performing
    let called ← s.effects.calls c
    match called.phase with
    | .done (.returned o) => advance env s k a o call
    | .done _ => some (s.put k a .raised)
    | _ => none
  | .reap runIds =>
    (effectStep s.effects (.reap runIds)).map (fun effects => { s with effects := effects })
  | .requestCancel runId =>
    (effectStep s.effects (.requestCancel runId)).map (fun effects => { s with effects := effects })
  | .upload u q storeUp =>
    (s.library.createDocument env.files u q storeUp).map
      (fun (library, _) => { s with library := library })
  | .withdraw id now =>
    (s.library.deleteDocument id now).map (fun (library, _) => { s with library := library })
  | .purge id storeUp =>
    let library := (s.library.purgeDocument id storeUp).1
    some { s with library := library, log := cascade library s.log }

/-! ## What a step does -/

/-- The steps of the system, taken apart. -/
inductive EchoMove (s : EchoState) : EchoAct → EchoState → Prop where
  | refuse (k : Nat) (runId by_ : Uuid) (claimant : String) (call : Nat)
    (hnew : s.attempts k = none) (hempty : messageOf env runId = "") :
    EchoMove s (.start k runId by_ claimant call) (s.put k ⟨runId, by_, claimant, .raised⟩ .raised)
  | start (k : Nat) (runId by_ : Uuid) (claimant : String) (call : Nat) (effects : EffectState)
    (hnew : s.attempts k = none) (hmessage : messageOf env runId ≠ "")
    (h : effectStep s.effects (.begin call (stepRequest runId "reserve" claimant)) = some effects) :
    EchoMove s (.start k runId by_ claimant call)
      ({ s with effects := effects }.put k ⟨runId, by_, claimant, .raised⟩ (.reserving call))
  | call (k : Nat) (act : CallAct) (a : Attempt) (step : String) (c : Nat) (effects : EffectState)
    (ha : s.attempts k = some a) (hp : a.phase.performing = some (step, c))
    (hret : CallAct.returns act = false) (h : effectStep s.effects (.call c act) = some effects) :
    EchoMove s (.call k act) { s with effects := effects }
  | perform (k : Nat) (d : BodyDraw) (a : Attempt) (step : String) (c : Nat) (library : Library)
    (log : NotificationLog) (outcome : Except String Json) (effects : EffectState)
    (ha : s.attempts k = some a) (hp : a.phase.performing = some (step, c))
    (hbody : body env s a d = some (library, log, outcome))
    (h : effectStep s.effects (.call c (.settle (settled d outcome))) = some effects) :
    EchoMove s (.perform k d) { s with effects := effects, library := library, log := log }
  | transform (k call : Nat) (a : Attempt) (c : Nat) (called : EffectCall) (o : EffectOutcome)
    (effects : EffectState) (ha : s.attempts k = some a) (hp : a.phase = .reserving c)
    (hc : s.effects.calls c = some called) (ho : called.phase = .done (.returned o))
    (h : effectStep s.effects (.begin call (stepRequest a.runId "transform" a.claimant)) =
      some effects) :
    EchoMove s (.next k call) ({ s with effects := effects }.put k a (.transforming o call))
  | announce (k call : Nat) (a : Attempt) (reserved : EffectOutcome) (c : Nat) (called : EffectCall)
    (o : EffectOutcome) (effects : EffectState) (ha : s.attempts k = some a)
    (hp : a.phase = .transforming reserved c) (hc : s.effects.calls c = some called)
    (ho : called.phase = .done (.returned o))
    (h : effectStep s.effects (.begin call (stepRequest a.runId "announce" a.claimant)) =
      some effects) :
    EchoMove s (.next k call) ({ s with effects := effects }.put k a (.announcing reserved o call))
  | finish (k call : Nat) (a : Attempt) (reserved transformed : EffectOutcome) (c : Nat)
    (called : EffectCall) (o : EffectOutcome) (result : EchoResult) (ha : s.attempts k = some a)
    (hp : a.phase = .announcing reserved transformed c) (hc : s.effects.calls c = some called)
    (ho : called.phase = .done (.returned o))
    (h : resultOf env (messageOf env a.runId) reserved transformed o = some result) :
    EchoMove s (.next k call) (s.put k a (.returned result c))
  | raise (k call : Nat) (a : Attempt) (ha : s.attempts k = some a) :
    EchoMove s (.next k call) (s.put k a .raised)
  | reap (runIds : List Uuid) (effects : EffectState)
    (h : effectStep s.effects (.reap runIds) = some effects) :
    EchoMove s (.reap runIds) { s with effects := effects }
  | requestCancel (runId : Uuid) (effects : EffectState)
    (h : effectStep s.effects (.requestCancel runId) = some effects) :
    EchoMove s (.requestCancel runId) { s with effects := effects }
  | upload (u : Upload) (q : DocumentCreate) (storeUp : Bool) (library : Library)
    (res : Except HttpError CreateOutcome)
    (h : s.library.createDocument env.files u q storeUp = some (library, res)) :
    EchoMove s (.upload u q storeUp) { s with library := library }
  | withdraw (id : Uuid) (now : Time) (library : Library) (d : DocumentRow)
    (h : s.library.deleteDocument id now = some (library, d)) :
    EchoMove s (.withdraw id now) { s with library := library }
  | purge (id : Uuid) (storeUp : Bool) :
    EchoMove s (.purge id storeUp)
      { s with library := (s.library.purgeDocument id storeUp).1, log :=
        cascade (s.library.purgeDocument id storeUp).1 s.log }

variable {env : EchoEnv}

theorem enter_eq_some {s t : EchoState} {k call : Nat} {a : Attempt} {step : String}
    {phase : AttemptPhase} (h : enter s k a step phase call = some t) :
    ∃ effects, effectStep s.effects (.begin call (stepRequest a.runId step a.claimant)) =
      some effects ∧
      t = { s with effects := effects }.put k a phase := by
  obtain ⟨effects, heff, rfl⟩ := Option.map_eq_some_iff.mp h
  exact ⟨effects, heff, rfl⟩

theorem echoStep_move {s t : EchoState} {act : EchoAct} (h : echoStep env s act = some t) :
    EchoMove env s act t := by
  cases act with
  | start k runId by_ claimant call =>
    simp only [echoStep] at h
    split at h
    · cases h
    · rename_i hnew
      split at h
      · cases h
        exact .refuse k runId by_ claimant call (not_not.mp hnew) ‹_›
      · obtain ⟨effects, heff, rfl⟩ := enter_eq_some h
        exact .start k runId by_ claimant call effects (not_not.mp hnew) ‹_› heff
  | call k act =>
    obtain ⟨a, ha, h⟩ := Option.bind_eq_some_iff.mp h
    obtain ⟨⟨step, c⟩, hp, h⟩ := Option.bind_eq_some_iff.mp h
    dsimp only at h
    split at h
    · cases h
    · obtain ⟨effects, heff, rfl⟩ := Option.map_eq_some_iff.mp h
      exact .call k act a step c effects ha hp (eq_false_of_ne_true ‹_›) heff
  | perform k d =>
    obtain ⟨a, ha, h⟩ := Option.bind_eq_some_iff.mp h
    obtain ⟨⟨step, c⟩, hp, h⟩ := Option.bind_eq_some_iff.mp h
    obtain ⟨⟨library, log, outcome⟩, hbody, h⟩ := Option.bind_eq_some_iff.mp h
    obtain ⟨effects, heff, h⟩ := Option.bind_eq_some_iff.mp h
    cases h
    exact .perform k d a step c library log outcome effects ha hp hbody heff
  | next k call =>
    obtain ⟨a, ha, hperforming⟩ := Option.bind_eq_some_iff.mp h
    obtain ⟨⟨step, c⟩, hp, hcalled⟩ := Option.bind_eq_some_iff.mp hperforming
    obtain ⟨called, hc, hnext⟩ := Option.bind_eq_some_iff.mp hcalled
    split at hnext
    · rename_i o ho
      unfold advance at hnext
      split at hnext
      · obtain ⟨effects, heff, rfl⟩ := enter_eq_some hnext
        rw [‹a.phase = _›] at hp
        cases hp
        exact .transform k call a c called o effects ha ‹_› hc ho heff
      · obtain ⟨effects, heff, rfl⟩ := enter_eq_some hnext
        rw [‹a.phase = _›] at hp
        cases hp
        exact .announce k call a _ c called o effects ha ‹_› hc ho heff
      · rw [‹a.phase = _›] at hp
        cases hp
        split at hnext
        · cases hnext
          exact .finish k call a _ _ c called o _ ha ‹_› hc ho ‹_›
        · cases hnext
          exact .raise k call a ha
      · cases hnext
      · cases hnext
    · cases hnext
      exact .raise k call a ha
    · cases hnext
  | reap runIds =>
    cases h
    exact .reap runIds _ rfl
  | requestCancel runId =>
    cases h
    exact .requestCancel runId _ rfl
  | upload u q storeUp =>
    obtain ⟨⟨library, res⟩, hlib, rfl⟩ := Option.map_eq_some_iff.mp h
    exact .upload u q storeUp library res hlib
  | withdraw id now =>
    obtain ⟨⟨library, d⟩, hlib, rfl⟩ := Option.map_eq_some_iff.mp h
    exact .withdraw id now library d hlib
  | purge id storeUp =>
    cases h
    exact .purge id storeUp

end

end AgenticPlatform.Workloads.Echo
