import AgenticPlatform.Foundation.EventLog
import AgenticPlatform.Scaling.Conversations
import AgenticPlatform.Workloads.Turns

/-!
# What the model is asked

The course a call takes, whatever goes on beside it: the model is asked once at most, with
one to five chunks that were read in a transaction which had found their build live, and
a refusal says so in the session. The history in a prompt is what was last said in the
session, by the same principal.
-/
namespace AgenticPlatform.Workloads
open AgenticPlatform.Foundation AgenticPlatform.Identity AgenticPlatform.Corpus
  AgenticPlatform.Scaling AgenticPlatform.Ports
open AgenticPlatform.Onboarding (falsy)

/-! ## What a step does -/

/-- An event that says nothing about a session. -/
def TurnEvent.quiet : TurnEvent → Prop
  | .opened .. | .wrote .. => False
  | _ => True

/-- What becomes of the sessions, with what is seen of it. -/
inductive SessionMove (sessions : SessionTable) : SessionTable → Option TurnEvent → Prop
  | kept (sessions' : SessionTable) (event : Option TurnEvent)
    (hsub : ∀ r ∈ sessions'.rows, r ∈ sessions.rows) (hquiet : ∀ e ∈ event, e.quiet) :
    SessionMove sessions sessions' event
  | loaded (q : Query) (row : SessionRow) (history : List Json) (now : Time)
    (hnames : q.names ≠ none) (hrow : row ∈ sessions.rows) (hopens : row.opensTo q.ctx now)
    (hhistory : historyOf row.state = some history) :
    SessionMove sessions sessions (some (.opened q row.id history))
  | created (q : Query) (row : SessionRow) (sessions' : SessionTable) (hnames : q.names = none)
    (hnew : row.id ∉ sessions.keys) (hrows : sessions'.rows = sessions.rows ++ [row])
    (hfresh : row.Fresh)
    (hown : row.tenantId = q.ctx.tenant.id ∧ row.principalId = q.ctx.principal.id) :
    SessionMove sessions sessions' (some (.opened q row.id []))
  | appended (ctx : RequestContext) (r row : SessionRow) (turn : Json) (now : Time)
    (hr : r ∈ sessions.rows) (hopens : r.opensTo ctx now)
    (happ : appended 50 now turn r = some row) :
    SessionMove sessions (sessions.update (replaced row) (replaced_id row))
      (some (.wrote ctx r.id turn))

theorem SessionMove.same (sessions : SessionTable) {event : Option TurnEvent}
    (h : ∀ e ∈ event, e.quiet) : SessionMove sessions sessions event :=
  .kept sessions event (fun _ hr => hr) h

section
variable {α : Type} (env : TurnEnv α)

/-- How a call goes on, and what is seen of it. -/
inductive Advance (s : TurnState) : TurnPhase → TurnPhase → Option TurnEvent → Prop
  | opened (q : Query) (sid : String) (history : List Json) :
    Advance s .idle (afterOpening q sid history) (some (.opened q sid history))
  | embedded (q : Query) (sid : String) (history : List Json) (probe : List ℚ) :
    Advance s (.opened q sid history) (.searching q sid history probe) none
  | unbuilt (q : Query) (sid : String) (history : List Json) (probe : List ℚ) :
    Advance s (.searching q sid history probe) (afterRows env q sid history probe []) none
  | live (q : Query) (sid : String) (history : List Json) (probe : List ℚ) (version : Nat)
    (hlive : (s.corpus q.ctx.tenant.id q.collection).liveVersion = some version) :
    Advance s (.searching q sid history probe) (.reading q sid history probe version)
      (some (.live version))
  | read (q : Query) (sid : String) (history : List Json) (probe : List ℚ) (version : Nat)
    (rows : List ChunkRow)
    (hrows : rows = (s.corpus q.ctx.tenant.id q.collection).chunksOf version) :
    Advance s (.reading q sid history probe version) (afterRows env q sid history probe rows)
      (some (.rows version rows))
  | unmatched (q : Query) (sid : String) (history : List Json) (rows : List ChunkRow) :
    Advance s (.loaded q sid history rows) (.refusing q sid noMatchText) none
  | matched (q : Query) (sid : String) (history : List Json) (rows : List ChunkRow)
    (sources : List TurnSource) (hne : sources ≠ []) (hlength : sources.length ≤ maxContextChunks)
    (hsub : ∀ source ∈ sources, source ∈ rows.map sourceOfRow) :
    Advance s (.loaded q sid history rows) (.asking q sid history sources) none
  | noted (q : Query) (sid text : String) :
    Advance s (.refusing q sid text) (.settling q sid ⟨text, false, []⟩) (some .noted)
  | asked (q : Query) (sid : String) (history : List Json) (sources : List TurnSource)
    (request : ChatRequest) (hrequest : chatRequest env.model q history sources = some request) :
    Advance s (.asking q sid history sources) (.waiting q sid sources)
      (some (.asked request sources))
  | replied (q : Query) (sid : String) (sources : List TurnSource) (content : String) :
    Advance s (.waiting q sid sources) (.settling q sid ⟨content, true, sources⟩)
      (some (.replied content))
  | user (q : Query) (sid : String) (r : Reply) (turn : Json)
    (hcast : env.cast (userTurn q) = some turn) :
    Advance s (.settling q sid r) (.closing q sid r) (some (.wrote q.ctx sid turn))
  | assistant (q : Query) (sid : String) (r : Reply) (turn : Json)
    (hcast : env.cast (assistantTurn q r) = some turn) :
    Advance s (.closing q sid r) (.answered q sid r) (some (.wrote q.ctx sid turn))
  | failed (phase : TurnPhase) : Advance s phase .failed none

/-- Somebody's call goes on, or none does. -/
inductive TurnMove (s : TurnState) : TurnState → Prop
  | call (t : TurnState) (k : Nat) (old phase : TurnPhase)
    (event : Option TurnEvent) (hk : s.calls k = old)
    (hadvance : Advance env s old phase event) (hcalls : t.calls = Function.update s.calls k phase)
    (hlog : t.log = s.log ++ event.toList.map (fun e => (k, e)))
    (hsessions : SessionMove s.sessions t.sessions event) :
    TurnMove s t
  | beside (t : TurnState) (hcalls : t.calls = s.calls) (hlog : t.log = s.log)
    (hsub : ∀ r ∈ t.sessions.rows, r ∈ s.sessions.rows) : TurnMove s t

variable {env} {s t : TurnState}

/-- A call goes on and leaves the sessions alone. -/
theorem TurnMove.quietly {k : Nat} {old phase : TurnPhase} {event : Option TurnEvent}
    (hk : s.calls k = old) (hadvance : Advance env s old phase event)
    (hcalls : t.calls = Function.update s.calls k phase)
    (hlog : t.log = s.log ++ event.toList.map (fun e => (k, e)))
    (hsessions : t.sessions = s.sessions) (hquiet : ∀ e ∈ event, e.quiet) : TurnMove env s t :=
  .call t k old phase event hk hadvance hcalls hlog (hsessions ▸ .same _ hquiet)

theorem turnMove_failed (s : TurnState) (k : Nat) : TurnMove env s (s.enter k .failed) := by
  refine .quietly rfl (.failed _) rfl (List.append_nil _).symm rfl ?_
  intro e he
  cases he

theorem openSession_eq_some {sessions sessions' : SessionTable} {q : Query} {now expiresAt : Time}
    {newId : String} {row : SessionRow} {history : List Json}
    (h : openSession sessions q now expiresAt newId = some (sessions', row))
    (hhistory : historyOf row.state = some history) :
    SessionMove sessions sessions' (some (.opened q row.id history)) := by
  unfold openSession at h
  split at h
  · rename_i sid hnames
    obtain ⟨r, hr, heq⟩ := Option.map_eq_some_iff.mp h
    obtain ⟨hget, hopens⟩ := Option.filter_eq_some_iff.mp hr
    cases heq
    exact .loaded q row history now (by rw [hnames]; exact Option.some_ne_none _)
      (Table.get_eq_some.mp hget).1 (of_decide_eq_true hopens) hhistory
  · rename_i hnames
    obtain ⟨sessions'', hinsert, heq⟩ := Option.map_eq_some_iff.mp h
    cases heq
    cases hhistory
    obtain ⟨hnew, hrows⟩ := Table.tryInsert_eq_some hinsert
    exact .created q _ sessions' hnames hnew hrows ⟨rfl, rfl⟩ ⟨rfl, rfl⟩

/-- The history of a session that has just been created can be read. -/
theorem openSession_unread {sessions sessions' : SessionTable} {q : Query} {now expiresAt : Time}
    {newId : String} {row : SessionRow}
    (h : openSession sessions q now expiresAt newId = some (sessions', row))
    (hhistory : historyOf row.state = none) : sessions' = sessions := by
  unfold openSession at h
  split at h
  · obtain ⟨r, -, heq⟩ := Option.map_eq_some_iff.mp h
    cases heq
    rfl
  · obtain ⟨sessions'', -, heq⟩ := Option.map_eq_some_iff.mp h
    cases heq
    cases hhistory

theorem append_move {k : Nat} {ctx : RequestContext} {sid : String} {turn : Json} {now : Time}
    {old next : TurnPhase} (hk : s.calls k = old)
    (h : ∀ stored, env.cast turn = some stored →
      Advance env s old next (some (.wrote ctx sid stored))) :
    TurnMove env s (s.append env k ctx sid turn now next) := by
  unfold TurnState.append
  split
  · exact turnMove_failed s k
  · rename_i sessions stored happend
    unfold appendTurn at happend
    split at happend
    · cases happend
    · rename_i r hr
      split at happend
      · cases happend
      · rename_i stored' hcast
        obtain ⟨row, hrow, heq⟩ := Option.map_eq_some_iff.mp happend
        cases heq
        obtain ⟨hget, hopens⟩ := Option.filter_eq_some_iff.mp hr
        obtain ⟨hmem, rfl⟩ := Table.get_eq_some.mp hget
        exact .call _ k old next _ hk (h stored hcast) rfl rfl
          (.appended ctx r row stored now hmem (of_decide_eq_true hopens) hrow)

/-- A call that has failed does nothing more. -/
theorem Advance.of_failed {phase : TurnPhase} {event : Option TurnEvent}
    (h : Advance env s .failed phase event) : phase = .failed ∧ event = none := by
  cases h
  exact ⟨rfl, rfl⟩

theorem Advance.to_failed {old : TurnPhase} {event : Option TurnEvent}
    (h : Advance env s old .failed event) : event = none := by
  generalize hphase : TurnPhase.failed = phase at h
  cases h with
  | failed => rfl
  | opened q sid history =>
    unfold afterOpening at hphase
    split at hphase <;> cases hphase
  | read q sid history probe version rows =>
    unfold afterRows at hphase
    split at hphase <;> split at hphase <;> cases hphase
  | _ => first | rfl | cases hphase

variable [LinearOrder α] [Add α] [Zero α]

/-- What is fused out of the rows of a build. -/
theorem hybridRetrieve_from {rows : List ChunkRow} {dense lexical : List String}
    {graph : GraphTraversal} {sources : List (FusedSource α)} {detail : RetrievalDetail}
    (h : hybridRetrieve env.fusion (documentsOf rows) dense lexical graph =
      some (sources, detail)) :
    (sources.map sourceOfFused).length ≤ maxContextChunks ∧
      ∀ source ∈ sources.map sourceOfFused, source ∈ rows.map sourceOfRow := by
  obtain ⟨sources', hfuse, heq⟩ := Option.map_eq_some_iff.mp h
  cases heq
  obtain ⟨sources'', hfuse', hbest⟩ :=
    fuse_best env.fusion (documentsOf rows) (contributions env.fusion dense lexical graph)
  cases hfuse.symm.trans hfuse'
  constructor
  · rw [List.length_map, length_fuse hfuse]
    exact Nat.min_le_left _ _
  · intro source hsource
    obtain ⟨fused, hfused, rfl⟩ := List.mem_map.mp hsource
    obtain ⟨doc, hdoc, hid, htext, -⟩ := hbest.documented fused hfused
    obtain ⟨row, hrow, rfl⟩ := List.mem_map.mp hdoc
    refine List.mem_map.mpr ⟨row, (List.mem_insertionSort _).mp hrow, ?_⟩
    rw [sourceOfFused, ← hid, ← htext]
    rfl

theorem turnStep_move {a : TurnAct} (h : turnStep env s a = some t) : TurnMove env s t := by
  cases a with
  | open_ k q now expiresAt newId =>
    simp only [turnStep] at h
    split at h
    · rename_i hk
      split at h
      · cases h
        exact turnMove_failed s k
      · rename_i sessions row hopen
        split at h
        · rename_i hhistory
          cases h
          cases openSession_unread hopen hhistory
          exact turnMove_failed s k
        · rename_i history hhistory
          cases h
          exact .call _ k _ _ _ hk (.opened q row.id history) rfl rfl
            (openSession_eq_some hopen hhistory)
    · cases h
  | embed k probe =>
    simp only [turnStep] at h
    split at h
    · rename_i q sid history hk
      cases h
      exact .quietly hk (.embedded q sid history probe) rfl (List.append_nil _).symm rfl (by simp)
    · cases h
  | lookup k =>
    simp only [turnStep] at h
    split at h
    · rename_i q sid history probe hk
      split at h
      · cases h
        exact .quietly hk (.unbuilt q sid history probe) rfl (List.append_nil _).symm rfl (by simp)
      · rename_i version hlive
        cases h
        exact .quietly hk (.live q sid history probe version hlive) rfl rfl rfl
          (by simp [TurnEvent.quiet])
    · cases h
  | read k =>
    simp only [turnStep] at h
    split at h
    · rename_i q sid history probe version hk
      cases h
      exact .quietly hk (.read q sid history probe version _ rfl) rfl rfl rfl
        (by simp [TurnEvent.quiet])
    · cases h
  | retrieve k dense lexical graph =>
    simp only [turnStep] at h
    split at h
    · rename_i q sid history rows hk
      split at h
      · cases h
        exact turnMove_failed s k
      · cases h
        exact .quietly hk (.unmatched q sid history rows) rfl (List.append_nil _).symm rfl (by simp)
      · rename_i sources detail hne hretrieve
        cases h
        obtain ⟨hlength, hsub⟩ := hybridRetrieve_from hretrieve
        have hsources : sources.map sourceOfFused ≠ [] := by
          intro hnil
          exact hne (List.map_eq_nil_iff.mp hnil)
        exact .quietly hk (.matched q sid history rows _ hsources hlength hsub) rfl
          (List.append_nil _).symm rfl (by simp)
    · cases h
  | note k now newId lost =>
    simp only [turnStep] at h
    split at h
    · rename_i q sid text hk
      cases h
      exact .quietly hk (.noted q sid text) rfl rfl rfl (by simp [TurnEvent.quiet])
    · cases h
  | ask k =>
    simp only [turnStep] at h
    split at h
    · rename_i q sid history sources hk
      split at h
      · cases h
        exact turnMove_failed s k
      · rename_i request hrequest
        cases h
        exact .quietly hk (.asked q sid history sources request hrequest) rfl rfl rfl
          (by simp [TurnEvent.quiet])
    · cases h
  | reply k content =>
    simp only [turnStep] at h
    split at h
    · rename_i q sid sources hk
      cases h
      exact .quietly hk (.replied q sid sources content) rfl rfl rfl (by simp [TurnEvent.quiet])
    · cases h
  | user k now =>
    simp only [turnStep] at h
    split at h
    · rename_i q sid r hk
      cases h
      exact append_move hk (fun stored hcast => .user q sid r stored hcast)
    · cases h
  | assistant k now =>
    simp only [turnStep] at h
    split at h
    · rename_i q sid r hk
      cases h
      exact append_move hk (fun stored hcast => .assistant q sid r stored hcast)
    · cases h
  | stop k =>
    cases h
    exact turnMove_failed s k
  | corpus tenantId collection c =>
    cases h
    exact .beside _ rfl rfl (fun _ hr => hr)
  | deleteSession ctx sessionId =>
    cases h
    exact .beside _ rfl rfl (fun _ hr => (Table.mem_deleteWhere.mp hr).1)
  | purgeSessions now =>
    cases h
    exact .beside _ rfl rfl (fun _ hr => (Table.mem_deleteWhere.mp hr).1)
  | gaps table =>
    cases h
    exact .beside _ rfl rfl (fun _ hr => hr)

end

/-! ## The course of a call -/

/-- What a call says that finds nothing to read. -/
def AnswerMode.emptyText : AnswerMode → String
  | .dense => refusalText
  | .graph => noDocumentsText

theorem nearestChunks_eq_nil {distance : List ℚ → ChunkRow → ℚ} {probe : List ℚ}
    {rows : List ChunkRow} : nearestChunks distance probe rows = [] ↔ rows = [] := by
  rw [nearestChunks, List.take_eq_nil_iff, ← List.length_eq_zero_iff, List.length_insertionSort,
    List.length_eq_zero_iff]
  simp [maxContextChunks]

section
variable {α : Type} [LinearOrder α] [Add α] [Zero α] (env : TurnEnv α)
  (corpus : Uuid → String → Collection) (acts : List TurnAct)

/-- The build was live in the caller's collection at a time of the run. -/
def WasLive (q : Query) (version : Nat) : Prop :=
  ∃ pre post m, acts = pre ++ post ∧ Reaches (turnStep env) (.initial corpus) pre m ∧
    (m.corpus q.ctx.tenant.id q.collection).liveVersion = some version

/-- The rows are what the caller's collection had of the build, later than it was live. -/
def WasRead (q : Query) (version : Nat) (rows : List ChunkRow) : Prop :=
  ∃ pre mid post m n, acts = pre ++ mid ++ post ∧ Reaches (turnStep env) (.initial corpus) pre m ∧
    Reaches (turnStep env) m mid n ∧
    (m.corpus q.ctx.tenant.id q.collection).liveVersion = some version ∧
    rows = (n.corpus q.ctx.tenant.id q.collection).chunksOf version

/-- A call that has read. -/
def HasRead (q : Query) (sid : String) (history : List Json) (rows : List ChunkRow)
    (events : List TurnEvent) : Prop :=
  ∃ version, events = [.opened q sid history, .live version, .rows version rows] ∧
    WasRead env corpus acts q version rows

/-- A call that has nothing to go by: no build, no chunk, or no chunk that matches. -/
def HasNothing (q : Query) (sid text : String) (events : List TurnEvent) : Prop :=
  ∃ history, (events = [.opened q sid history] ∧ text = q.mode.emptyText) ∨
    (HasRead env corpus acts q sid history [] events ∧ text = q.mode.emptyText) ∨
    (q.mode = .graph ∧ text = noMatchText ∧
      ∃ rows ≠ [], HasRead env corpus acts q sid history rows events)

/-- A call that has one to five chunks out of what it has read. -/
def HasSources (q : Query) (sid : String) (history : List Json) (sources : List TurnSource)
    (events : List TurnEvent) : Prop :=
  sources ≠ [] ∧ sources.length ≤ maxContextChunks ∧
    ∃ rows, HasRead env corpus acts q sid history rows events ∧
    ∀ source ∈ sources, source ∈ rows.map sourceOfRow

/-- A call that has asked the model about its sources. -/
def HasAsked (q : Query) (sid : String) (sources : List TurnSource) (events : List TurnEvent) :
    Prop :=
  ∃ history request before, HasSources env corpus acts q sid history sources before ∧
    chatRequest env.model q history sources = some request ∧
    events = before ++ [.asked request sources]

/-- A call that has its reply, from the model or without it. -/
def HasReply (q : Query) (sid : String) (r : Reply) (events : List TurnEvent) : Prop :=
  (r.grounded = true ∧ ∃ before, HasAsked env corpus acts q sid r.sources before ∧
    events = before ++ [.replied r.content]) ∨
    (r.grounded = false ∧ r.sources = [] ∧
      ∃ before, HasNothing env corpus acts q sid r.content before ∧ events = before ++ [.noted])

/-- What a call has done by this phase, unless it has failed. -/
def Course (events : List TurnEvent) : TurnPhase → Prop
  | .idle => events = []
  | .opened q sid history => events = [.opened q sid history]
  | .searching q sid history _ => events = [.opened q sid history]
  | .reading q sid history _ version => events = [.opened q sid history, .live version] ∧
    WasLive env corpus acts q version
  | .loaded q sid history rows => q.mode = .graph ∧ rows ≠ [] ∧
    HasRead env corpus acts q sid history rows events
  | .refusing q sid text => HasNothing env corpus acts q sid text events
  | .asking q sid history sources => HasSources env corpus acts q sid history sources events
  | .waiting q sid sources => HasAsked env corpus acts q sid sources events
  | .settling q sid r => HasReply env corpus acts q sid r events
  | .closing q sid r => ∃ before user, HasReply env corpus acts q sid r before ∧
    env.cast (userTurn q) = some user ∧ events = before ++ [.wrote q.ctx sid user]
  | .answered q sid r => ∃ before user assistant, HasReply env corpus acts q sid r before ∧
    env.cast (userTurn q) = some user ∧ env.cast (assistantTurn q r) = some assistant ∧
    events = before ++ [.wrote q.ctx sid user, .wrote q.ctx sid assistant]
  | .failed => False

/-- A call that has failed has done what it had done by then. -/
def CoursesOf (s : TurnState) : Prop :=
  ∀ k, ∃ phase, (s.calls k = phase ∨ s.calls k = .failed) ∧
    Course env corpus acts (eventsOf k s.log) phase

variable {env corpus acts} {q : Query} {sid : String} {s t : TurnState}

/-! ## What stays as the run goes on -/

theorem WasLive.later {version : Nat} (h : WasLive env corpus acts q version) (a : TurnAct) :
    WasLive env corpus (acts ++ [a]) q version := by
  obtain ⟨pre, post, m, rfl, hm, hlive⟩ := h
  exact ⟨pre, post ++ [a], m, List.append_assoc _ _ _, hm, hlive⟩

theorem WasRead.later {version : Nat} {rows : List ChunkRow}
    (h : WasRead env corpus acts q version rows) (a : TurnAct) :
    WasRead env corpus (acts ++ [a]) q version rows := by
  obtain ⟨pre, mid, post, m, n, rfl, hm, hn, hlive, hrows⟩ := h
  exact ⟨pre, mid, post ++ [a], m, n, List.append_assoc _ _ _, hm, hn, hlive, hrows⟩

theorem HasRead.later {history : List Json} {rows : List ChunkRow} {events : List TurnEvent}
    (h : HasRead env corpus acts q sid history rows events) (a : TurnAct) :
    HasRead env corpus (acts ++ [a]) q sid history rows events := by
  obtain ⟨version, hevents, hread⟩ := h
  exact ⟨version, hevents, hread.later a⟩

theorem HasNothing.later {text : String} {events : List TurnEvent}
    (h : HasNothing env corpus acts q sid text events) (a : TurnAct) :
    HasNothing env corpus (acts ++ [a]) q sid text events := by
  obtain ⟨history, hnone | ⟨hread, htext⟩ | ⟨hmode, htext, rows, hne, hread⟩⟩ := h
  · exact ⟨history, .inl hnone⟩
  · exact ⟨history, .inr (.inl ⟨hread.later a, htext⟩)⟩
  · exact ⟨history, .inr (.inr ⟨hmode, htext, rows, hne, hread.later a⟩)⟩

theorem HasSources.later {history : List Json} {sources : List TurnSource} {events : List TurnEvent}
    (h : HasSources env corpus acts q sid history sources events) (a : TurnAct) :
    HasSources env corpus (acts ++ [a]) q sid history sources events := by
  obtain ⟨hne, hlength, rows, hread, hsub⟩ := h
  exact ⟨hne, hlength, rows, hread.later a, hsub⟩

theorem HasAsked.later {sources : List TurnSource} {events : List TurnEvent}
    (h : HasAsked env corpus acts q sid sources events) (a : TurnAct) :
    HasAsked env corpus (acts ++ [a]) q sid sources events := by
  obtain ⟨history, request, before, hsources, hrequest, hevents⟩ := h
  exact ⟨history, request, before, hsources.later a, hrequest, hevents⟩

theorem HasReply.later {r : Reply} {events : List TurnEvent}
    (h : HasReply env corpus acts q sid r events) (a : TurnAct) :
    HasReply env corpus (acts ++ [a]) q sid r events := by
  obtain ⟨hgrounded, before, hasked, hevents⟩ | ⟨hgrounded, hnil, before, hnothing, hevents⟩ := h
  · exact .inl ⟨hgrounded, before, hasked.later a, hevents⟩
  · exact .inr ⟨hgrounded, hnil, before, hnothing.later a, hevents⟩

theorem Course.later {events : List TurnEvent} {phase : TurnPhase}
    (h : Course env corpus acts events phase) (a : TurnAct) :
    Course env corpus (acts ++ [a]) events phase := by
  cases phase with
  | idle | opened | searching => exact h
  | reading => exact ⟨h.1, h.2.later a⟩
  | loaded => exact ⟨h.1, h.2.1, h.2.2.later a⟩
  | refusing => exact HasNothing.later h a
  | asking => exact HasSources.later h a
  | waiting => exact HasAsked.later h a
  | settling => exact HasReply.later h a
  | closing =>
    obtain ⟨before, user, hreply, hrest⟩ := h
    exact ⟨before, user, hreply.later a, hrest⟩
  | answered =>
    obtain ⟨before, user, assistant, hreply, hrest⟩ := h
    exact ⟨before, user, assistant, hreply.later a, hrest⟩
  | failed => exact h

/-! ## What a step adds -/

/-- No rows, or some that have been read. -/
theorem course_afterRows {history : List Json} {probe : List ℚ} {rows : List ChunkRow}
    {events : List TurnEvent}
    (h : (rows = [] ∧ events = [.opened q sid history]) ∨
      HasRead env corpus acts q sid history rows events) :
    Course env corpus acts events (afterRows env q sid history probe rows) := by
  unfold afterRows
  split
  · rename_i hmode
    have htext : refusalText = q.mode.emptyText := by rw [hmode, AnswerMode.emptyText]
    split
    · rename_i hnil
      have hrows : rows = [] := nearestChunks_eq_nil.mp (List.map_eq_nil_iff.mp hnil)
      rcases h with ⟨-, hevents⟩ | hread
      · exact ⟨history, .inl ⟨hevents, htext⟩⟩
      · exact ⟨history, .inr (.inl ⟨hrows ▸ hread, htext⟩)⟩
    · rename_i hne
      refine ⟨hne, ?_, ?_⟩
      · rw [List.length_map]
        exact List.length_take_le _ _
      · rcases h with ⟨hrows, -⟩ | hread
        · exact absurd (List.map_eq_nil_iff.mpr (nearestChunks_eq_nil.mpr hrows)) hne
        · refine ⟨rows, hread, ?_⟩
          intro source hsource
          obtain ⟨row, hrow, rfl⟩ := List.mem_map.mp hsource
          exact List.mem_map_of_mem ((List.mem_insertionSort _).mp (List.mem_of_mem_take hrow))
  · rename_i hmode
    have htext : noDocumentsText = q.mode.emptyText := by rw [hmode, AnswerMode.emptyText]
    split
    · rename_i hrows
      rcases h with ⟨-, hevents⟩ | hread
      · exact ⟨history, .inl ⟨hevents, htext⟩⟩
      · exact ⟨history, .inr (.inl ⟨hrows ▸ hread, htext⟩)⟩
    · rename_i hrows
      rcases h with ⟨hnil, -⟩ | hread
      · exact absurd hnil hrows
      · exact ⟨hmode, hrows, hread⟩

theorem Course.advance {old phase : TurnPhase} {event : Option TurnEvent} {events : List TurnEvent}
    {a : TurnAct} (hs : Reaches (turnStep env) (.initial corpus) acts s)
    (h : Course env corpus acts events old) (hadvance : Advance env s old phase event)
    (hphase : phase ≠ .failed) :
    Course env corpus (acts ++ [a]) (events ++ event.toList) phase := by
  have hlater := h.later a
  cases hadvance with
  | opened q sid history =>
    cases h
    unfold afterOpening
    split <;> rfl
  | embedded q sid history probe => exact (List.append_nil _).trans h
  | unbuilt q sid history probe => exact course_afterRows (.inl ⟨rfl, (List.append_nil _).trans h⟩)
  | live q sid history probe version hlive =>
    cases h
    exact ⟨rfl, acts, [a], s, rfl, hs, hlive⟩
  | read q sid history probe version rows hrows =>
    obtain ⟨rfl, pre, post, m, rfl, hm, hlive⟩ := h
    obtain ⟨m', hm', hmid⟩ := reaches_append.mp hs
    cases hm.unique hm'
    exact course_afterRows (.inr ⟨version, rfl, pre, post, [a], m, s, rfl, hm, hmid, hlive, hrows⟩)
  | unmatched q sid history rows =>
    obtain ⟨hmode, hrows, hread⟩ := hlater
    exact ⟨history, .inr (.inr ⟨hmode, rfl, rows, hrows, (List.append_nil events).symm ▸ hread⟩)⟩
  | matched q sid history rows sources hne hlength hsub =>
    obtain ⟨-, -, hread⟩ := hlater
    exact ⟨hne, hlength, rows, (List.append_nil events).symm ▸ hread, hsub⟩
  | noted q sid text => exact .inr ⟨rfl, rfl, events, hlater, rfl⟩
  | asked q sid history sources request hrequest =>
    exact ⟨history, request, events, hlater, hrequest, rfl⟩
  | replied q sid sources content => exact .inl ⟨rfl, events, hlater, rfl⟩
  | user q sid r turn hcast => exact ⟨events, turn, hlater, hcast, rfl⟩
  | assistant q sid r turn hcast =>
    obtain ⟨before, user, hreply, huser, rfl⟩ := hlater
    exact ⟨before, user, turn, hreply, huser, hcast, List.append_assoc _ _ _⟩
  | failed => exact absurd rfl hphase

theorem CoursesOf.step {a : TurnAct} (h : CoursesOf env corpus acts s)
    (hs : Reaches (turnStep env) (.initial corpus) acts s) (hstep : turnStep env s a = some t) :
    CoursesOf env corpus (acts ++ [a]) t := by
  intro k
  obtain ⟨phase, hphase, hcourse⟩ := h k
  cases turnStep_move hstep with
  | beside hcalls hlog hsub =>
    rw [hcalls, hlog]
    exact ⟨phase, hphase, hcourse.later a⟩
  | call k' old new event hk hadvance hcalls hlog hsessions =>
    by_cases hkk : k = k'
    · subst hkk
      have hevents : eventsOf k t.log = eventsOf k s.log ++ event.toList := by
        rw [hlog]
        cases event with
        | none => simp
        | some e => simp
      rw [hcalls, hevents, Function.update_self]
      by_cases hfailed : new = .failed
      · subst hfailed
        rw [hadvance.to_failed]
        exact ⟨phase, .inr rfl, (List.append_nil _).symm ▸ hcourse.later a⟩
      · have hold : s.calls k = phase := by
          refine hphase.resolve_right ?_
          intro hs'
          cases hk.symm.trans hs'
          exact hfailed hadvance.of_failed.1
        exact ⟨new, .inl rfl, hcourse.advance hs ((hk.symm.trans hold) ▸ hadvance) hfailed⟩
    · have hevents : eventsOf k t.log = eventsOf k s.log := by
        rw [hlog]
        cases event with
        | none => simp
        | some e => exact eventsOf_other (fun heq => hkk heq.symm) _ _
      rw [hcalls, hevents, Function.update_of_ne hkk]
      exact ⟨phase, hphase, hcourse.later a⟩

theorem coursesOf_run (h : Reaches (turnStep env) (.initial corpus) acts s) :
    CoursesOf env corpus acts s := by
  induction acts using List.reverseRecOn generalizing s with
  | nil =>
    cases reaches_nil.mp h
    exact fun k => ⟨.idle, .inl rfl, rfl⟩
  | append_singleton acts a ih =>
    obtain ⟨m, hm, hstep⟩ := reaches_snoc.mp h
    exact (ih hm).step hm hstep

end

/-! ## What is said in a session -/

/-- What an event adds to what was said in a session, by whom. One that is created has nothing
said in it. -/
def heard (sid : String) (said : List (RequestContext × Json)) :
    TurnEvent → List (RequestContext × Json)
  | .opened q sid' _ => if q.names = none ∧ sid' = sid then [] else said
  | .wrote ctx sid' turn => if sid' = sid then said ++ [(ctx, turn)] else said
  | _ => said

def saidIn (sid : String) (log : List (Nat × TurnEvent)) : List (RequestContext × Json) :=
  log.foldl (fun said entry => heard sid said entry.2) []

/-- A row that keeps the last of these turns, all by its principal. -/
structure Keeps (r : SessionRow) (said : List (RequestContext × Json)) : Prop where
  kept : turnsOf r.state = some (lastTurns 50 (said.map Prod.snd))
  own : ∀ w ∈ said, w.1.tenant.id = r.tenantId ∧ w.1.principal.id = r.principalId

/-- A call that opens a session has, as its history, what was last said there, by its own
principal. -/
def Remembers (before : List (Nat × TurnEvent)) (entry : Nat × TurnEvent) : Prop :=
  ∀ q sid history, entry.2 = .opened q sid history →
    history = lastTurns maxHistoryTurns ((saidIn sid (before ++ [entry])).map Prod.snd) ∧
    ∀ w ∈ saidIn sid (before ++ [entry]), w.1.tenant.id = q.ctx.tenant.id ∧
    w.1.principal.id = q.ctx.principal.id

structure SessionsInv (s : TurnState) : Prop where
  rows : ∀ r ∈ s.sessions.rows, Keeps r (saidIn r.id s.log)
  calls : Along Remembers s.log

theorem saidIn_concat (sid : String) (log : List (Nat × TurnEvent)) (entry : Nat × TurnEvent) :
    saidIn sid (log ++ [entry]) = heard sid (saidIn sid log) entry.2 := by
  rw [saidIn, List.foldl_append]
  rfl

theorem heard_quiet {e : TurnEvent} (h : e.quiet) (sid : String)
    (said : List (RequestContext × Json)) : heard sid said e = said := by
  cases e with
  | opened | wrote => exact h.elim
  | _ => rfl

theorem lastTurns_lastTurns {few many : Int} (h : few ≤ many) (turns : List Json) :
    lastTurns few (lastTurns many turns) = lastTurns few turns := by
  have hlength := length_lastTurns many turns
  rw [lastTurns, hlength, lastTurns, lastTurns, List.drop_drop]
  congr 1
  omega

theorem historyOf_eq {state : List (String × Json)} {turns : List Json}
    (h : turnsOf state = some turns) :
    historyOf state = some (lastTurns maxHistoryTurns turns) := by
  unfold turnsOf at h
  split at h
  · rename_i hnone
    cases h
    rw [historyOf, hnone]
    rfl
  · rename_i turns' harr
    cases h
    rw [historyOf, harr]
    cases turns with
    | nil => rfl
    | cons turn turns => rfl
  · cases h

theorem Keeps.appended {r row : SessionRow} {said : List (RequestContext × Json)}
    {ctx : RequestContext} {now : Time} {turn : Json} (h : Keeps r said)
    (hopens : r.opensTo ctx now) (happ : appended 50 now turn r = some row) :
    Keeps row (said ++ [(ctx, turn)]) := by
  obtain ⟨turns, hturns, rfl⟩ := appended_eq_some happ
  cases h.kept.symm.trans hturns
  constructor
  · rw [List.map_append, List.map_singleton, turnsOf_setItem, trimmed_lastTurns (by decide)]
  · intro w hw
    rcases List.mem_append.mp hw with hold | hnew
    · exact h.own w hold
    · cases List.mem_singleton.mp hnew
      exact ⟨hopens.1.symm, hopens.2.1.symm⟩

/-- Where a session is opened with what it keeps. -/
theorem Keeps.remembers {log : List (Nat × TurnEvent)} {k : Nat} {q : Query} {r : SessionRow}
    {history : List Json} (h : Keeps r (saidIn r.id (log ++ [(k, .opened q r.id history)])))
    (hhistory : historyOf r.state = some history)
    (hown : r.tenantId = q.ctx.tenant.id ∧ r.principalId = q.ctx.principal.id) :
    Remembers log (k, .opened q r.id history) := by
  rintro q' sid' history' heq
  cases heq
  constructor
  · exact (Option.some.inj (hhistory.symm.trans (historyOf_eq h.kept))).trans
      (lastTurns_lastTurns (by decide) _)
  · intro w hw
    exact ⟨(h.own w hw).1.trans hown.1, (h.own w hw).2.trans hown.2⟩

theorem remembers_of_other {log : List (Nat × TurnEvent)} {k : Nat} {e : TurnEvent}
    (h : ∀ q sid history, e ≠ .opened q sid history) : Remembers log (k, e) :=
  fun q sid history heq => absurd heq (h q sid history)

/-- The sessions and the log, after an event or none. -/
theorem SessionMove.keeps {sessions sessions' : SessionTable} {event : Option TurnEvent}
    {log : List (Nat × TurnEvent)} (k : Nat) (h : SessionMove sessions sessions' event)
    (hrows : ∀ r ∈ sessions.rows, Keeps r (saidIn r.id log)) (hcalls : Along Remembers log) :
    (∀ r ∈ sessions'.rows, Keeps r (saidIn r.id (log ++ event.toList.map (fun e => (k, e))))) ∧
      Along Remembers (log ++ event.toList.map (fun e => (k, e))) := by
  cases h with
  | kept sessions' event hsub hquiet =>
    cases event with
    | none =>
      simp only [Option.toList_none, List.map_nil, List.append_nil]
      exact ⟨fun r hr => hrows r (hsub r hr), hcalls⟩
    | some e =>
      have he := hquiet e rfl
      constructor
      · intro r hr
        rw [Option.toList_some, List.map_singleton, saidIn_concat, heard_quiet he]
        exact hrows r (hsub r hr)
      · refine along_concat.mpr ⟨hcalls, remembers_of_other ?_⟩
        rintro q sid history rfl
        exact he
  | loaded q row history now hnames hrow hopens hhistory =>
    have hsame : ∀ sid, saidIn sid (log ++ [(k, .opened q row.id history)]) = saidIn sid log := by
      intro sid
      rw [saidIn_concat]
      exact if_neg (fun h => hnames h.1)
    constructor
    · intro r hr
      exact (hsame r.id).symm ▸ hrows r hr
    · refine along_concat.mpr ⟨hcalls, Keeps.remembers ?_ hhistory ⟨hopens.1, hopens.2.1⟩⟩
      exact (hsame row.id).symm ▸ hrows row hrow
  | created q row sessions' hnames hnew hnewrows hfresh hown =>
    have hnone : saidIn row.id (log ++ [(k, .opened q row.id [])]) = [] := by
      rw [saidIn_concat]
      exact if_pos ⟨hnames, rfl⟩
    have hkeeps : Keeps row (saidIn row.id (log ++ [(k, .opened q row.id [])])) := by
      rw [hnone]
      refine ⟨?_, fun w hw => absurd hw List.not_mem_nil⟩
      rw [turnsOf, hfresh.2]
      rfl
    constructor
    · intro r hr
      rcases List.mem_append.mp (hnewrows ▸ hr) with hold | hlast
      · have hne : row.id ≠ r.id := fun heq => hnew (heq ▸ Table.key_mem_keys hold)
        rw [Option.toList_some, List.map_singleton, saidIn_concat, heard, if_neg (fun h => hne h.2)]
        exact hrows r hold
      · cases List.mem_singleton.mp hlast
        exact hkeeps
    · refine along_concat.mpr ⟨hcalls, hkeeps.remembers ?_ hown⟩
      rw [historyOf, hfresh.2]
      rfl
  | appended ctx r row turn now hr hopens happ =>
    have hid : row.id = r.id := id_appended happ
    constructor
    · intro r' hr'
      obtain ⟨old, hold, rfl⟩ := Table.mem_update.mp hr'
      rw [Option.toList_some, List.map_singleton, saidIn_concat, replaced_id, heard]
      by_cases hsame : r.id = old.id
      · cases Table.eq_of_key hold hr hsame.symm
        rw [replaced, if_pos hid.symm, if_pos rfl]
        exact (hrows r hr).appended hopens happ
      · rw [replaced, if_neg (fun h => hsame (hid.symm.trans h.symm)), if_neg hsame]
        exact hrows old hold
    · exact along_concat.mpr ⟨hcalls, remembers_of_other (fun _ _ _ h => by cases h)⟩

section
variable {α : Type} [LinearOrder α] [Add α] [Zero α] {env : TurnEnv α}
  {corpus : Uuid → String → Collection} {acts : List TurnAct} {s t : TurnState}

theorem SessionsInv.step {a : TurnAct} (h : SessionsInv s) (hstep : turnStep env s a = some t) :
    SessionsInv t := by
  cases turnStep_move hstep with
  | beside hcalls hlog hsub =>
    constructor
    · intro r hr
      exact hlog ▸ h.rows r (hsub r hr)
    · exact hlog ▸ h.calls
  | call k old new event hk hadvance hcalls hlog hsessions =>
    obtain ⟨hrows, halong⟩ := hsessions.keeps k h.rows h.calls
    exact ⟨hlog ▸ hrows, hlog ▸ halong⟩

theorem sessionsInv_run (h : Reaches (turnStep env) (.initial corpus) acts s) : SessionsInv s := by
  refine h.invariant (fun _ _ _ => SessionsInv.step) ⟨?_, along_nil _⟩
  intro r hr
  exact absurd hr Table.mem_empty

/-! ## Calls of the model -/

/-- The one time the model was asked, and what had been done by then. -/
def AsksOnce (env : TurnEnv α) (corpus : Uuid → String → Collection) (acts : List TurnAct)
    (request : ChatRequest) (sources : List TurnSource) (events : List TurnEvent) : Prop :=
  ∃ q sid history before after, events = before ++ .asked request sources :: after ∧
    HasSources env corpus acts q sid history sources before ∧
    chatRequest env.model q history sources = some request ∧
    ∀ request' sources', .asked request' sources' ∉ before ++ after

variable {q : Query} {sid : String} {request : ChatRequest} {sources : List TurnSource}

theorem HasRead.silent {history : List Json} {rows : List ChunkRow} {events : List TurnEvent}
    (h : HasRead env corpus acts q sid history rows events) (request : ChatRequest)
    (sources : List TurnSource) : TurnEvent.asked request sources ∉ events := by
  obtain ⟨version, rfl, -⟩ := h
  simp

theorem HasNothing.silent {text : String} {events : List TurnEvent}
    (h : HasNothing env corpus acts q sid text events) (request : ChatRequest)
    (sources : List TurnSource) : TurnEvent.asked request sources ∉ events := by
  obtain ⟨history, ⟨rfl, -⟩ | ⟨hread, -⟩ | ⟨-, -, rows, -, hread⟩⟩ := h
  · simp
  · exact hread.silent request sources
  · exact hread.silent request sources

theorem AsksOnce.append {events more : List TurnEvent}
    (h : AsksOnce env corpus acts request sources events)
    (hmore : ∀ request' sources', .asked request' sources' ∉ more) :
    AsksOnce env corpus acts request sources (events ++ more) := by
  obtain ⟨q, sid, history, before, after, rfl, hsources, hrequest, honce⟩ := h
  refine ⟨q, sid, history, before, after ++ more, by simp, hsources, hrequest, ?_⟩
  intro request' sources' hmem
  rcases List.mem_append.mp (List.append_assoc before after more ▸ hmem) with hold | hnew
  · exact honce request' sources' hold
  · exact hmore request' sources' hnew

theorem HasAsked.once {sources' : List TurnSource} {events : List TurnEvent}
    (h : HasAsked env corpus acts q sid sources' events) (hmem : .asked request sources ∈ events) :
    AsksOnce env corpus acts request sources events := by
  obtain ⟨history, request', before, hsources, hrequest, rfl⟩ := h
  obtain ⟨-, -, rows, hread, -⟩ := id hsources
  rcases List.mem_append.mp hmem with hbefore | hlast
  · exact absurd hbefore (hread.silent request sources)
  · cases List.mem_singleton.mp hlast
    refine ⟨q, sid, history, before, [], rfl, hsources, hrequest, ?_⟩
    rw [List.append_nil]
    exact hread.silent

theorem HasReply.once {r : Reply} {events : List TurnEvent}
    (h : HasReply env corpus acts q sid r events) (hmem : .asked request sources ∈ events) :
    AsksOnce env corpus acts request sources events := by
  obtain ⟨-, before, hasked, rfl⟩ | ⟨-, -, before, hnothing, rfl⟩ := h
  · have hbefore : .asked request sources ∈ before := by simpa using hmem
    exact (hasked.once hbefore).append (by simp)
  · have hbefore : .asked request sources ∈ before := by simpa using hmem
    exact absurd hbefore (hnothing.silent request sources)

theorem Course.once {phase : TurnPhase} {events : List TurnEvent}
    (h : Course env corpus acts events phase) (hmem : .asked request sources ∈ events) :
    AsksOnce env corpus acts request sources events := by
  cases phase with
  | idle =>
    cases h
    cases hmem
  | opened | searching =>
    cases h
    simp at hmem
  | reading =>
    obtain ⟨rfl, -⟩ := h
    simp at hmem
  | loaded => exact absurd hmem (h.2.2.silent request sources)
  | refusing => exact absurd hmem (HasNothing.silent h request sources)
  | asking =>
    obtain ⟨-, -, rows, hread, -⟩ := h
    exact absurd hmem (hread.silent request sources)
  | waiting => exact HasAsked.once h hmem
  | settling => exact HasReply.once h hmem
  | closing =>
    obtain ⟨before, user, hreply, -, rfl⟩ := h
    have hbefore : .asked request sources ∈ before := by simpa using hmem
    exact (hreply.once hbefore).append (by simp)
  | answered =>
    obtain ⟨before, user, assistant, hreply, -, -, rfl⟩ := h
    have hbefore : .asked request sources ∈ before := by simpa using hmem
    exact (hreply.once hbefore).append (by simp)
  | failed => exact h.elim

/-- Whatever runs beside it, a call asks the model once at most, with one to five chunks: they
were read in the caller's own collection, of a build that the same transaction found live. -/
theorem asked_from_live (h : Reaches (turnStep env) (.initial corpus) acts s) {k : Nat}
    {request : ChatRequest} {sources : List TurnSource}
    (hasked : (k, .asked request sources) ∈ s.log) :
    ∃ q sid history before after, eventsOf k s.log = before ++ .asked request sources :: after ∧
      HasSources env corpus acts q sid history sources before ∧
      chatRequest env.model q history sources = some request ∧
      ∀ request' sources', .asked request' sources' ∉ before ++ after := by
  obtain ⟨phase, -, hcourse⟩ := coursesOf_run h k
  exact hcourse.once (mem_eventsOf.mpr hasked)

/-- The history in a prompt is what was last said in the session before the call opened it, six
turns at most, all said by callers of the same tenant and principal. -/
theorem prompt_remembers (h : Reaches (turnStep env) (.initial corpus) acts s) {k : Nat}
    {request : ChatRequest} {sources : List TurnSource}
    (hasked : (k, .asked request sources) ∈ s.log) :
    ∃ q sid history before after, s.log = before ++ (k, .opened q sid history) :: after ∧
      chatRequest env.model q history sources = some request ∧ history = lastTurns maxHistoryTurns
      ((saidIn sid (before ++ [(k, .opened q sid history)])).map Prod.snd) ∧
      ∀ w ∈ saidIn sid (before ++ [(k, .opened q sid history)]), w.1.tenant.id = q.ctx.tenant.id ∧
      w.1.principal.id = q.ctx.principal.id := by
  obtain ⟨phase, -, hcourse⟩ := coursesOf_run h k
  obtain ⟨q, sid, history, looked, rest, hevents, ⟨-, -, rows, ⟨version, rfl, -⟩, -⟩,
      hrequest, -⟩ :=
    hcourse.once (mem_eventsOf.mpr hasked)
  have hopened : (k, .opened q sid history) ∈ s.log := by
    rw [← mem_eventsOf, hevents]
    exact List.mem_cons_self
  obtain ⟨before, after, hlog⟩ := List.append_of_mem hopened
  obtain ⟨hhistory, hown⟩ := (sessionsInv_run h).calls before _ after hlog q sid history rfl
  exact ⟨q, sid, history, before, after, hlog, hrequest, hhistory, hown⟩

/-- A call that has answered wrote the question and its answer to the session, marked as grounded
exactly where the model was asked. Where it was not, there was nothing to read, or nothing that
matched, and the question was noted. -/
theorem answered_course (h : Reaches (turnStep env) (.initial corpus) acts s) {k : Nat} {q : Query}
    {sid : String} {r : Reply} (hk : s.calls k = .answered q sid r) :
    ∃ before user assistant,
      eventsOf k s.log = before ++ [.wrote q.ctx sid user, .wrote q.ctx sid assistant] ∧
      env.cast (userTurn q) = some user ∧ env.cast (assistantTurn q r) = some assistant ∧
      ((r.grounded = true ∧ ∃ asked, HasAsked env corpus acts q sid r.sources asked ∧
        before = asked ++ [.replied r.content]) ∨
        (r.grounded = false ∧ r.sources = [] ∧ ∃ looked,
        HasNothing env corpus acts q sid r.content looked ∧ before = looked ++ [.noted])) := by
  obtain ⟨phase, hphase, hcourse⟩ := coursesOf_run h k
  have heq : TurnPhase.answered q sid r = phase := by
    rcases hphase with hphase | hfailed
    · exact hk.symm.trans hphase
    · cases hk.symm.trans hfailed
  subst heq
  obtain ⟨before, user, assistant, hreply, huser, hassistant, hevents⟩ := hcourse
  exact ⟨before, user, assistant, hevents, huser, hassistant, hreply⟩

end

/-! ## Two questions in one session -/

/-- Every chunk is as near as another. -/
def flatEnv : TurnEnv Nat :=
  ⟨asciiGaps, some, fun _ _ => 0, ⟨fun _ => 1, fun _ => 1, fun _ => 1, id⟩, "small"⟩

def manual : Collection where
  builds := ⟨[⟨1, .live, 1, none, none, some 0, 1⟩], List.nodup_singleton _⟩
  chunks := ⟨[⟨4, "c_torque", 0, 1, "The torque is 5 Nm.", [], "e1", .emptyObj, 1⟩],
    List.nodup_singleton _⟩
  one_live _ ha _ hb _ _ := (List.mem_singleton.mp ha).trans (List.mem_singleton.mp hb).symm

def torqueQuery : Query := ⟨asker, "Which torque?", "manuals", none, .dense⟩

def unitQuery : Query := ⟨asker, "In which unit?", "manuals", some "s1", .dense⟩

def torqueSources : List TurnSource := [⟨"c_torque", "The torque is 5 Nm."⟩]

def torqueReply : Reply := ⟨"5 Nm [c_torque]", true, torqueSources⟩

/-- The second is opened before the first has written its answer, and another one finds nothing. -/
def talk : List TurnAct :=
  [.open_ 0 torqueQuery 0 50 "s1", .embed 0 [], .lookup 0, .read 0,
    .ask 0, .reply 0 "5 Nm [c_torque]", .user 0 1,
    .open_ 1 unitQuery 2 0 "", .assistant 0 3, .embed 1 [], .lookup 1, .read 1, .ask 1,
    .corpus 1 "manuals" .empty,
    .open_ 2 ⟨asker, "Which fuse?", "manuals", some "s1", .graph⟩ 4 0 "", .lookup 2,
    .note 2 5 9 false, .user 2 6, .assistant 2 7]

theorem talk_run :
    (talk.foldlM (turnStep flatEnv) (.initial (fun _ _ => manual))).isSome = true := by
  decide +kernel

def afterTalk : TurnState :=
  (talk.foldlM (turnStep flatEnv) (.initial (fun _ _ => manual))).get talk_run

/-- What the second question is sent as. -/
def unitRequest : ChatRequest :=
  { messages := [systemMessage .dense, .obj [("role", .str "user"),
    ("content", .str "Which torque?")], userMessage "In which unit?" torqueSources]
    model := "small"
    temperature := some ⟨"0", isNumber_zero⟩
    maxTokens := some ⟨"400", isNumber_fourHundred⟩
    tools := none
    responseFormat := none
    cacheable := false }

theorem unitRequest_asked : (1, TurnEvent.asked unitRequest torqueSources) ∈ afterTalk.log := by
  decide +kernel

theorem asked_from_live_talk : ∃ q sid history before after,
    eventsOf 1 afterTalk.log = before ++ .asked unitRequest torqueSources :: after ∧
      HasSources flatEnv (fun _ _ => manual) talk q sid history torqueSources before ∧
      chatRequest flatEnv.model q history torqueSources = some unitRequest ∧
      ∀ request' sources', .asked request' sources' ∉ before ++ after :=
  asked_from_live (reaches_get talk_run) unitRequest_asked

theorem prompt_remembers_talk :
    ∃ q sid history before after, afterTalk.log = before ++ (1, .opened q sid history) :: after ∧
      chatRequest flatEnv.model q history torqueSources = some unitRequest ∧ history = lastTurns
      maxHistoryTurns ((saidIn sid (before ++ [(1, .opened q sid history)])).map Prod.snd) ∧
      ∀ w ∈ saidIn sid (before ++ [(1, .opened q sid history)]), w.1.tenant.id = q.ctx.tenant.id ∧
      w.1.principal.id = q.ctx.principal.id :=
  prompt_remembers (reaches_get talk_run) unitRequest_asked

theorem torque_answered : afterTalk.calls 0 = .answered torqueQuery "s1" torqueReply := by
  decide +kernel

theorem answered_course_talk :
    ∃ before user assistant,
      eventsOf 0 afterTalk.log = before ++ [.wrote asker "s1" user, .wrote asker "s1" assistant] ∧
      flatEnv.cast (userTurn torqueQuery) = some user ∧
      flatEnv.cast (assistantTurn torqueQuery torqueReply) = some assistant ∧
      ((torqueReply.grounded = true ∧ ∃ asked,
        HasAsked flatEnv (fun _ _ => manual) talk torqueQuery "s1" torqueReply.sources asked ∧
        before = asked ++ [.replied torqueReply.content]) ∨
        (torqueReply.grounded = false ∧ torqueReply.sources = [] ∧ ∃ looked,
        HasNothing flatEnv (fun _ _ => manual) talk torqueQuery "s1" torqueReply.content looked ∧
        before = looked ++ [.noted])) :=
  answered_course (reaches_get talk_run) torque_answered

end AgenticPlatform.Workloads
