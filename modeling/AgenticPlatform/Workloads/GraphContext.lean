import AgenticPlatform.Foundation.Transition
import AgenticPlatform.Workloads.GraphEngine

/-!
# The context the engine spends under

The engine reaches the client through two variables of the module, which every request
sets, and a retriever spends under the context it was made with, also where the cache
hands it to a later request. A step below is one call of a request in any interleaving of
graph queries and drafting runs of one process; what a load, a build or a retrieval finds
is an argument.
-/
namespace AgenticPlatform.Workloads
open AgenticPlatform.Foundation AgenticPlatform.Identity

/-! ## Requests and calls -/

inductive GraphWork where
  /-- `answer`, or `build_graph` alone. -/
  | query (collection schemaDomain : String) (force : Bool)
  /-- A drafting run. -/
  | draft (collection : String)
deriving DecidableEq

structure GraphRequest where
  id : Uuid
  ctx : RequestContext
  llm : Client
  work : GraphWork
deriving DecidableEq

inductive GraphPhase where
  | arrived
  /-- `set_context` has run; the documents are not loaded. -/
  | bound
  | loaded (documents : List GraphDocument)
  /-- The lookup missed. -/
  | building (documents : List GraphDocument)
  /-- What `build_graph` returned. -/
  | built (retriever : PgVectorRetriever) (documents : List GraphDocument)
  /-- `answer` has set the context again. -/
  | answering (retriever : PgVectorRetriever)
  /-- The dense retrieval is done; the graph is being traversed. -/
  | traversing
  | drafting
  | ended
deriving DecidableEq

inductive Operation where
  | chat | embed
deriving DecidableEq

/-- A call of the instrumented client, and the request that it was made for. -/
structure LlmCall where
  request : Uuid
  operation : Operation
  llm : Client
  ctx : RequestContext
deriving DecidableEq

/-- Whom a usage row names. -/
structure UsageOwner where
  tenantId : Uuid
  principalId : Uuid
  runId : Option Uuid
deriving DecidableEq

/-- What `_record` writes. -/
def LlmCall.usageOwner (c : LlmCall) : UsageOwner :=
  ⟨c.ctx.tenant.id, c.ctx.principal.id, c.ctx.runId⟩

/-- The run that `cancellation_point` looks up. -/
def LlmCall.cancellingRun (c : LlmCall) : Option Uuid := c.ctx.runId

/-- A query arrives as a text or as a vector. -/
inductive Probe where
  | text (query : String)
  | vector (embedding : List ℚ)
deriving DecidableEq

/-! ## The process -/

structure ContextState (γ : Type) where
  /-- The variable `_llm`. -/
  llm : Option Client
  /-- The variable `_ctx`. -/
  ctx : Option RequestContext
  /-- The request that called `set_context` last; not a variable of the module. -/
  boundBy : Option Uuid
  cache : GraphCache γ
  requests : Table GraphRequest GraphRequest.id
  phase : Uuid → GraphPhase
  calls : List LlmCall

namespace ContextState

variable {γ : Type}

def init : ContextState γ where
  llm := none
  ctx := none
  boundBy := none
  cache := .empty
  requests := .empty
  phase := fun _ => .ended
  calls := []

def contextOf (s : ContextState γ) (id : Uuid) : Option RequestContext :=
  (s.requests.get id).map GraphRequest.ctx

def move (s : ContextState γ) (id : Uuid) (p : GraphPhase) : ContextState γ :=
  { s with phase := Function.update s.phase id p }

/-- `set_context(llm, ctx)`. -/
def setContext (s : ContextState γ) (r : GraphRequest) : ContextState γ :=
  { s with llm := some r.llm, ctx := some r.ctx, boundBy := some r.id }

def call (s : ContextState γ) (id : Uuid) (operation : Operation) (llm : Client)
    (ctx : RequestContext) : ContextState γ :=
  { s with calls := s.calls ++ [⟨id, operation, llm, ctx⟩] }

end ContextState

/-- One call of a request. -/
inductive RequestAct (γ : Type) where
  | setContext
  | loadDocuments (documents : List GraphDocument)
  | lookup
  | encode (texts : List String)
  | callLlm
  | store (graph : γ)
  | retrieve (probe : Probe)
  | chat
  | finish

inductive ContextAct (γ : Type) where
  | arrive (r : GraphRequest)
  | request (id : Uuid) (a : RequestAct γ)
  | invalidate (tenantId : Uuid)

/-- The phases in which the engine runs, and embeds what it needs. -/
def GraphPhase.engineRuns : GraphPhase → Bool
  | .building _ | .traversing | .drafting => true
  | _ => false

/-- Where the engine raises because nothing is bound. A traversal goes on without its
hits. -/
def GraphPhase.refused : GraphPhase → GraphPhase
  | .traversing => .traversing
  | _ => .ended

/-- A draft of an empty corpus fails. -/
def GraphWork.afterLoad (documents : List GraphDocument) : GraphWork → GraphPhase
  | .query .. => .loaded documents
  | .draft _ => if documents = [] then .ended else .drafting

section
variable {γ : Type} (env : GraphEnv γ)

/-- A call that the engine makes for a request, through the two variables. -/
def engineCall (s : ContextState γ) (id : Uuid) (operation : Operation) : ContextState γ :=
  match s.llm, s.ctx with
  | some llm, some ctx => s.call id operation llm ctx
  | _, _ => s.move id (s.phase id).refused

def requestStep (s : ContextState γ) (r : GraphRequest) : RequestAct γ → Option (ContextState γ)
  | .setContext =>
    match s.phase r.id with
    | .arrived => some ((s.setContext r).move r.id .bound)
    -- `answer` returns where there is no document.
    | .built retriever (_ :: _) => some ((s.setContext r).move r.id (.answering retriever))
    | _ => none
  | .loadDocuments documents =>
    match s.phase r.id with
    | .bound => some (s.move r.id (r.work.afterLoad documents))
    | _ => none
  | .lookup =>
    match r.work, s.phase r.id with
    | .query collection _ force, .loaded documents =>
      match s.cache.hit (cacheKey r.ctx collection) (corpusFingerprint env documents) force with
      | some e => some (s.move r.id (.built e.retriever documents))
      | none =>
        some (s.move r.id
          (if documents = [] then .built ⟨r.ctx, collection, r.llm⟩ [] else .building documents))
    | _, _ => none
  | .encode texts =>
    if (s.phase r.id).engineRuns then some (if texts = [] then s else engineCall s r.id .embed)
    else none
  | .callLlm => if s.phase r.id = .drafting then some (engineCall s r.id .chat) else none
  | .store graph =>
    match r.work, s.phase r.id with
    | .query collection schemaDomain _, .building documents =>
      let retriever : PgVectorRetriever := ⟨r.ctx, collection, r.llm⟩
      let entry := builtEntry env retriever schemaDomain documents graph
      some ({ s with cache := s.cache.put (cacheKey r.ctx collection) entry }.move r.id
        (.built retriever documents))
    | _, _ => none
  | .retrieve probe =>
    match s.phase r.id, probe with
    | .answering retriever, .text _ =>
      some ((s.call r.id .embed retriever.llm retriever.ctx).move r.id .traversing)
    | .answering _, .vector _ => some (s.move r.id .traversing)
    | _, _ => none
  | .chat => if s.phase r.id =
    .traversing then some ((s.call r.id .chat r.llm r.ctx).move r.id .ended) else none
  -- An early return, or an exception.
  | .finish => some (s.move r.id .ended)

def contextStep (s : ContextState γ) : ContextAct γ → Option (ContextState γ)
  | .arrive r =>
    (s.requests.tryInsert r).map
      (fun requests =>
        { s with requests := requests, phase := Function.update s.phase r.id .arrived })
  | .request id a => (s.requests.get id).bind (fun r => requestStep env s r a)
  | .invalidate tenantId => some { s with cache := s.cache.invalidate tenantId }

end

/-! ## Whose context a call is given -/

section
variable {γ : Type} {env : GraphEnv γ} {s t : ContextState γ}

/-- Every call was given the context of the request that it was made for. -/
def Attributed (s : ContextState γ) : Prop := ∀ c ∈ s.calls, s.contextOf c.request = some c.ctx

/-- The context that was bound last is the context of the request. -/
def BoundFor (s : ContextState γ) (id : Uuid) : Prop :=
  ∀ b ∈ s.boundBy, s.contextOf b = s.contextOf id

instance (s : ContextState γ) (id : Uuid) : Decidable (BoundFor s id) :=
  inferInstanceAs (Decidable (∀ b ∈ s.boundBy, s.contextOf b = s.contextOf id))

def GraphPhase.retriever : GraphPhase → Option PgVectorRetriever
  | .answering retriever => some retriever
  | _ => none

/-- No other request's `set_context` comes between a request's own and a call of the
engine for it, and the retriever that embeds its question was made for its own context. -/
def ownContext (s : ContextState γ) : ContextAct γ → Prop
  | .request id (.encode texts) => texts = [] ∨ BoundFor s id
  | .request id .callLlm => BoundFor s id
  | .request id (.retrieve (.text _)) => ∀ q ∈ (s.phase id).retriever, s.contextOf id = some q.ctx
  | _ => True

instance (s : ContextState γ) : (a : ContextAct γ) → Decidable (ownContext s a)
  | .request id (.encode texts) => inferInstanceAs (Decidable (texts = [] ∨ BoundFor s id))
  | .request id .callLlm => inferInstanceAs (Decidable (BoundFor s id))
  | .request id (.retrieve (.text _)) =>
    inferInstanceAs (Decidable (∀ q ∈ (s.phase id).retriever, s.contextOf id = some q.ctx))
  | .arrive _ | .request _ .setContext | .request _ (.loadDocuments _) | .request _ .lookup |
    .request _ (.store _)
  | .request _ (.retrieve (.vector _)) | .request _ .chat | .request _ .finish | .invalidate _ =>
    isTrue trivial

/-- What a step does to the two variables and to the log. -/
inductive ContextMove (s : ContextState γ) : ContextAct γ → ContextState γ → Prop
  | arrives (r : GraphRequest) (t : ContextState γ)
    (hrow : s.requests.tryInsert r = some t.requests) (hllm : t.llm = s.llm) (hctx : t.ctx = s.ctx)
    (hby : t.boundBy = s.boundBy) (hcalls : t.calls = s.calls) : ContextMove s (.arrive r) t
  | binds (r : GraphRequest) (p : GraphPhase) (hr : r ∈ s.requests.rows) :
    ContextMove s (.request r.id .setContext) ((s.setContext r).move r.id p)
  | quiet (a : ContextAct γ) (t : ContextState γ) (hown : ownContext s a)
    (hrows : t.requests = s.requests) (hllm : t.llm = s.llm) (hctx : t.ctx = s.ctx)
    (hby : t.boundBy = s.boundBy) (hcalls : t.calls = s.calls) : ContextMove s a t
  | spends (r : GraphRequest) (a : RequestAct γ) (operation : Operation) (hr : r ∈ s.requests.rows)
    (hown : ownContext s (.request r.id a) ↔ BoundFor s r.id) :
    ContextMove s (.request r.id a) (engineCall s r.id operation)
  | retrieves (r : GraphRequest) (q : PgVectorRetriever) (text : String) (hr : r ∈ s.requests.rows)
    (hphase : s.phase r.id = .answering q) :
    ContextMove s (.request r.id (.retrieve (.text text)))
      ((s.call r.id .embed q.llm q.ctx).move r.id .traversing)
  | answers (r : GraphRequest) (hr : r ∈ s.requests.rows) :
    ContextMove s (.request r.id .chat) ((s.call r.id .chat r.llm r.ctx).move r.id .ended)

theorem requestStep_move {r : GraphRequest} {a : RequestAct γ} (hr : r ∈ s.requests.rows)
    (h : requestStep env s r a = some t) : ContextMove s (.request r.id a) t := by
  cases a with
  | setContext =>
    simp only [requestStep] at h
    split at h
    · cases h
      exact .binds r .bound hr
    · cases h
      exact .binds r _ hr
    · cases h
  | loadDocuments documents =>
    simp only [requestStep] at h
    split at h
    · cases h
      exact .quiet _ _ trivial rfl rfl rfl rfl rfl
    · cases h
  | lookup =>
    simp only [requestStep] at h
    split at h
    · split at h <;> (cases h; exact .quiet _ _ trivial rfl rfl rfl rfl rfl)
    · cases h
  | encode texts =>
    simp only [requestStep] at h
    split at h
    · cases h
      by_cases htexts : texts = []
      · rw [if_pos htexts]
        exact .quiet _ _ (Or.inl htexts) rfl rfl rfl rfl rfl
      · rw [if_neg htexts]
        exact .spends r _ .embed hr (or_iff_right htexts)
    · cases h
  | callLlm =>
    simp only [requestStep] at h
    split at h
    · cases h
      exact .spends r _ .chat hr Iff.rfl
    · cases h
  | store graph =>
    simp only [requestStep] at h
    split at h
    · cases h
      exact .quiet _ _ trivial rfl rfl rfl rfl rfl
    · cases h
  | retrieve probe =>
    simp only [requestStep] at h
    split at h
    · rename_i q text hphase
      cases h
      exact .retrieves r q text hr hphase
    · cases h
      exact .quiet _ _ trivial rfl rfl rfl rfl rfl
    · cases h
  | chat =>
    simp only [requestStep] at h
    split at h
    · cases h
      exact .answers r hr
    · cases h
  | finish =>
    cases h
    exact .quiet _ _ trivial rfl rfl rfl rfl rfl

theorem contextStep_move {a : ContextAct γ} (h : contextStep env s a = some t) :
    ContextMove s a t := by
  cases a with
  | arrive r =>
    obtain ⟨requests, hrow, rfl⟩ := Option.map_eq_some_iff.mp h
    exact .arrives r _ hrow rfl rfl rfl rfl
  | request id a =>
    obtain ⟨r, hget, hstep⟩ := Option.bind_eq_some_iff.mp h
    obtain ⟨hr, rfl⟩ := Table.get_eq_some.mp hget
    exact requestStep_move hr hstep
  | invalidate tenantId =>
    cases h
    exact .quiet _ _ trivial rfl rfl rfl rfl rfl

/-- The two variables are unbound, or hold what the last `set_context` was given. -/
inductive Binding (s : ContextState γ) : Prop
  | unbound (hby : s.boundBy = none) (hctx : s.ctx = none)
  | bound (r : GraphRequest) (hr : r ∈ s.requests.rows) (hby : s.boundBy = some r.id)
    (hllm : s.llm = some r.llm) (hctx : s.ctx = some r.ctx)

structure ContextInvariant (s : ContextState γ) : Prop where
  binding : Binding s
  known : ∀ c ∈ s.calls, c.request ∈ s.requests.keys

theorem contextInvariant_init : ContextInvariant (ContextState.init : ContextState γ) where
  binding := .unbound rfl rfl
  known := by
    intro c hc
    cases hc

theorem contextOf_of_mem {r : GraphRequest} (hr : r ∈ s.requests.rows) :
    s.contextOf r.id = some r.ctx := by
  rw [ContextState.contextOf, Table.get_self hr, Option.map_some]

theorem contextOf_congr (hrows : t.requests = s.requests) (id : Uuid) :
    t.contextOf id = s.contextOf id := by
  rw [ContextState.contextOf, ContextState.contextOf, hrows]

/-- A request that arrives changes the context of no other one. -/
theorem contextOf_arrives {r : GraphRequest} {id : Uuid}
    (hrow : s.requests.tryInsert r = some t.requests) (hid : id ∈ s.requests.keys) :
    t.contextOf id = s.contextOf id := by
  obtain ⟨r', hr', rfl⟩ := Table.mem_keys.mp hid
  have hr : r' ∈ t.requests.rows := by
    rw [(Table.tryInsert_eq_some hrow).2]
    exact List.mem_append_left _ hr'
  rw [contextOf_of_mem hr, contextOf_of_mem hr']

theorem Binding.of_rows (hs : Binding s) (hrows : ∀ r ∈ s.requests.rows, r ∈ t.requests.rows)
    (hllm : t.llm = s.llm) (hctx : t.ctx = s.ctx) (hby : t.boundBy = s.boundBy) : Binding t := by
  cases hs with
  | unbound hnone hc => exact .unbound (hby.trans hnone) (hctx.trans hc)
  | bound r hr hsome hl hc =>
    exact .bound r (hrows r hr) (hby.trans hsome) (hllm.trans hl) (hctx.trans hc)

/-- The engine's call is made under the context of the request that bound it last, if it
is made. -/
theorem engineCall_cases (hs : Binding s) (id : Uuid) (operation : Operation) :
    (s.boundBy = none ∧ engineCall s id operation = s.move id (s.phase id).refused) ∨
      ∃ r ∈ s.requests.rows, s.boundBy = some r.id ∧
      engineCall s id operation = s.call id operation r.llm r.ctx := by
  cases hs with
  | unbound hby hctx =>
    refine Or.inl ⟨hby, ?_⟩
    unfold engineCall
    rw [hctx]
    split
    · cases ‹none = some _›
    · rfl
  | bound r hr hby hllm hctx =>
    refine Or.inr ⟨r, hr, hby, ?_⟩
    unfold engineCall
    rw [hctx, hllm]

theorem known_call {id : Uuid} {operation : Operation} {llm : Client} {ctx : RequestContext}
    (hs : ContextInvariant s) (hid : id ∈ s.requests.keys) :
    ∀ c ∈ (s.call id operation llm ctx).calls, c.request ∈ s.requests.keys := by
  intro c hc
  rcases List.mem_append.mp hc with hc | hc
  · exact hs.known c hc
  · cases List.mem_singleton.mp hc
    exact hid

theorem attributed_call {id : Uuid} {operation : Operation} {llm : Client} {ctx : RequestContext} :
    Attributed (s.call id operation llm ctx) ↔ Attributed s ∧ s.contextOf id = some ctx := by
  simp only [Attributed, ContextState.call, List.mem_append, List.mem_singleton, or_imp, forall_and,
    forall_eq]
  exact Iff.rfl

theorem contextInvariant_step {a : ContextAct γ} (hs : ContextInvariant s)
    (h : contextStep env s a = some t) : ContextInvariant t := by
  cases contextStep_move h with
  | arrives r t hrow hllm hctx hby hcalls =>
    have hrows : t.requests.rows = s.requests.rows ++ [r] := (Table.tryInsert_eq_some hrow).2
    refine ⟨hs.binding.of_rows ?_ hllm hctx hby, ?_⟩
    · intro r' hr'
      rw [hrows]
      exact List.mem_append_left _ hr'
    · intro c hc
      obtain ⟨r', hr', hid⟩ := Table.mem_keys.mp (hs.known c (hcalls ▸ hc))
      refine Table.mem_keys.mpr ⟨r', ?_, hid⟩
      rw [hrows]
      exact List.mem_append_left _ hr'
  | binds r p hr => exact ⟨.bound r hr rfl rfl rfl, hs.known⟩
  | quiet a t hown hrows hllm hctx hby hcalls =>
    refine ⟨hs.binding.of_rows ?_ hllm hctx hby, ?_⟩
    · intro r hr
      exact hrows ▸ hr
    · intro c hc
      exact hrows ▸ hs.known c (hcalls ▸ hc)
  | spends r a operation hr hown =>
    rcases engineCall_cases hs.binding r.id operation with ⟨-, heq⟩ | ⟨b, hb, hby, heq⟩
    · rw [heq]
      exact ⟨hs.binding.of_rows (fun _ hr => hr) rfl rfl rfl, hs.known⟩
    · rw [heq]
      exact ⟨hs.binding.of_rows (fun _ hr => hr) rfl rfl rfl, known_call hs (Table.key_mem_keys hr)⟩
  | retrieves r q text hr hphase =>
    exact ⟨hs.binding.of_rows (fun _ hr => hr) rfl rfl rfl, known_call hs (Table.key_mem_keys hr)⟩
  | answers r hr =>
    exact ⟨hs.binding.of_rows (fun _ hr => hr) rfl rfl rfl, known_call hs (Table.key_mem_keys hr)⟩

/-- A step keeps the calls attributed exactly where it meets the condition. -/
theorem attributed_step {a : ContextAct γ} (hs : ContextInvariant s)
    (h : contextStep env s a = some t) : Attributed t ↔ Attributed s ∧ ownContext s a := by
  cases contextStep_move h with
  | arrives r t hrow hllm hctx hby hcalls =>
    rw [and_iff_left (show ownContext s (.arrive r) from trivial), Attributed, Attributed, hcalls]
    refine forall₂_congr ?_
    intro c hc
    rw [contextOf_arrives hrow (hs.known c hc)]
  | binds r p hr =>
    exact (and_iff_left (show ownContext s (.request r.id .setContext) from trivial)).symm
  | quiet a t hown hrows hllm hctx hby hcalls =>
    rw [and_iff_left hown, Attributed, Attributed, hcalls]
    refine forall₂_congr ?_
    intro c hc
    rw [contextOf_congr hrows]
  | spends r a operation hr hown =>
    rw [hown]
    rcases engineCall_cases hs.binding r.id operation with ⟨hby, heq⟩ | ⟨b, hb, hby, heq⟩
    · have hvacuous : BoundFor s r.id := by
        intro b hb
        rw [hby] at hb
        cases hb
      rw [heq, and_iff_left hvacuous]
      exact Iff.rfl
    · have hbound : BoundFor s r.id ↔ s.contextOf r.id = some b.ctx := by
        rw [BoundFor, hby]
        simp only [Option.mem_def, Option.some.injEq, forall_eq']
        rw [contextOf_of_mem hb]
        exact eq_comm
      rw [heq, hbound]
      exact attributed_call
  | retrieves r q text hr hphase =>
    have hown : ownContext s (.request r.id (.retrieve (.text text))) ↔
        s.contextOf r.id = some q.ctx := by
      simp only [ownContext, hphase, GraphPhase.retriever, Option.mem_def, Option.some.injEq,
        forall_eq']
    rw [hown]
    exact attributed_call (s := s)
  | answers r hr =>
    rw [and_iff_left (show ownContext s (.request r.id .chat) from trivial)]
    refine (attributed_call (s := s)).trans ?_
    exact and_iff_left (contextOf_of_mem hr)

/-- The call is charged to a request, and cancelled with it. -/
def ChargedTo (r : GraphRequest) (c : LlmCall) : Prop :=
  c.ctx = r.ctx ∧ c.usageOwner = ⟨r.ctx.tenant.id, r.ctx.principal.id, r.ctx.runId⟩ ∧
    c.cancellingRun = r.ctx.runId

instance (r : GraphRequest) (c : LlmCall) : Decidable (ChargedTo r c) :=
  inferInstanceAs (Decidable (_ ∧ _ ∧ _))

theorem chargedTo_iff {r : GraphRequest} {c : LlmCall} : ChargedTo r c ↔ c.ctx = r.ctx := by
  refine ⟨And.left, ?_⟩
  intro h
  exact ⟨h, by rw [LlmCall.usageOwner, h], by rw [LlmCall.cancellingRun, h]⟩

theorem attributed_iff (hs : ContextInvariant s) :
    Attributed s ↔ ∀ c ∈ s.calls, ∀ r ∈ s.requests.rows, r.id = c.request → ChargedTo r c := by
  refine forall₂_congr ?_
  intro c hc
  obtain ⟨r, hr, hid⟩ := Table.mem_keys.mp (hs.known c hc)
  rw [← hid, contextOf_of_mem hr, Option.some.injEq]
  constructor
  · intro hctx r' hr' hid'
    cases Table.eq_of_key hr' hr hid'
    exact chargedTo_iff.mpr hctx.symm
  · intro h
    exact (chargedTo_iff.mp (h r hr rfl)).symm

/-- In every interleaving, every call is charged to the request that it was made for if and
only if no other `set_context` comes between a request's own and a call of the engine for
it, and no request embeds its question with the retriever of another one's context. -/
theorem spend_attribution_iff {acts : List (ContextAct γ)}
    (h : Reaches (contextStep env) .init acts s) :
    (∀ c ∈ s.calls, c.request ∈ s.requests.keys ∧
      ∀ r ∈ s.requests.rows, r.id = c.request → ChargedTo r c) ↔
      Reaches (restrict ownContext (contextStep env)) .init acts s := by
  have hs : ContextInvariant s :=
    h.invariant (fun s a t hs hst => contextInvariant_step (a := a) hs hst) contextInvariant_init
  have hfirst : Attributed (ContextState.init : ContextState γ) := by
    intro c hc
    cases hc
  have hkeeps :=
    h.keeps_iff_restrict (P := Attributed)
      (fun s a t hs hst => contextInvariant_step (a := a) hs hst)
      (fun s a t hs hst => attributed_step hs hst) contextInvariant_init
  rw [and_iff_right hfirst] at hkeeps
  rw [← hkeeps, attributed_iff hs]
  refine forall₂_congr ?_
  intro c hc
  exact and_iff_right (hs.known c hc)

end

/-! ## Two principals and one collection -/

/-- The digest is that of the one chunk id below. -/
def pumpEnv : GraphEnv Unit where
  sha256 := fun _ => "874359791b63bc9c53e9953a91b90f8776f0da05b4d14a264120058644fe5f43"
  numberOfNodes := fun _ => 1
  numberOfEdges := fun _ => 0

def pumpDocument : GraphDocument :=
  ⟨"c_8c6f1d2b9a4e7053", "The pump leaks.", .emptyObj, .str "unknown"⟩

def aliceAsks : GraphRequest :=
  ⟨1, ⟨⟨7, ⟨1, "acme"⟩, "alice", [.operator]⟩, 5, none, none, none⟩, 0,
    .query "manuals" "pumps" false⟩

def bobAsks : GraphRequest :=
  ⟨2, ⟨⟨8, ⟨1, "acme"⟩, "bob", [.operator]⟩, 6, none, none, none⟩, 0,
    .query "manuals" "pumps" false⟩

/-- A drafting run of another tenant. -/
def carolDrafts : GraphRequest :=
  ⟨3, ⟨⟨9, ⟨2, "globex"⟩, "carol", [.operator]⟩, 7, some 40, none, none⟩, 0, .draft "sites"⟩

def upToBuilt (r : GraphRequest) : List (ContextAct Unit) :=
  [.arrive r, .request r.id .setContext, .request r.id (.loadDocuments [pumpDocument]),
    .request r.id .lookup]

def askEngine (id : Uuid) : List (ContextAct Unit) :=
  [.request id .setContext, .request id (.retrieve (.text "Why does it leak?")),
    .request id (.encode ["pump"]), .request id .chat]

/-- A question, from its arrival to its answer, of a request that builds the graph. -/
def firstQuestion (r : GraphRequest) : List (ContextAct Unit) :=
  upToBuilt r ++ [.request r.id (.encode ["pump"]), .request r.id (.store ())] ++ askEngine r.id

def carolsDraft : List (ContextAct Unit) :=
  [.arrive carolDrafts, .request 3 .setContext, .request 3 (.loadDocuments [pumpDocument]),
    .request 3 .callLlm]

theorem oneAfterAnother_run : ((carolsDraft ++ firstQuestion aliceAsks).foldlM
    (restrict ownContext (contextStep pumpEnv)) .init).isSome = true := by decide +kernel

theorem spend_attribution_oneAfterAnother :
    ∃ s, Reaches (contextStep pumpEnv) .init (carolsDraft ++ firstQuestion aliceAsks) s ∧
      s.calls.map LlmCall.usageOwner =
      [⟨2, 9, some 40⟩, ⟨1, 7, none⟩, ⟨1, 7, none⟩, ⟨1, 7, none⟩, ⟨1, 7, none⟩] ∧
      ∀ c ∈ s.calls, c.request ∈ s.requests.keys ∧ ∀ r ∈ s.requests.rows, r.id = c.request →
      ChargedTo r c := by
  have hrun := reaches_get oneAfterAnother_run
  exact ⟨_, hrun.of_restrict, by decide +kernel, (spend_attribution_iff hrun.of_restrict).mpr hrun⟩

/-- Bob asks after Alice has her answer, and finds her graph in the cache. -/
def bobAfterAlice : List (ContextAct Unit) :=
  firstQuestion aliceAsks ++ upToBuilt bobAsks ++ askEngine 2

theorem bobAfterAlice_run : (bobAfterAlice.foldlM (contextStep pumpEnv) .init).isSome = true := by
  decide +kernel

/-- Alice's question is bound between two calls of Carol's run. -/
def aliceDuringDraft : List (ContextAct Unit) :=
  carolsDraft ++ [.arrive aliceAsks, .request 1 .setContext, .request 3 .callLlm]

theorem aliceDuringDraft_run :
    (aliceDuringDraft.foldlM (contextStep pumpEnv) .init).isSome = true := by
  decide +kernel

/-- Bob's question is embedded at Alice's expense, and Carol's run has a completion charged
to a tenant it has nothing to do with. -/
theorem spend_charged_to_another :
    (∃ s, Reaches (contextStep pumpEnv) .init bobAfterAlice s ∧ bobAsks ∈ s.requests.rows ∧
      ∃ c ∈ s.calls, c.request = bobAsks.id ∧ c.ctx = aliceAsks.ctx ∧ ¬ ChargedTo bobAsks c) ∧
      ∃ s, Reaches (contextStep pumpEnv) .init aliceDuringDraft s ∧ carolDrafts ∈ s.requests.rows ∧
      ∃ c ∈ s.calls, c.request = carolDrafts.id ∧ c.ctx = aliceAsks.ctx ∧
      ¬ ChargedTo carolDrafts c :=
  ⟨⟨_, reaches_get bobAfterAlice_run, by decide +kernel⟩,
    ⟨_, reaches_get aliceDuringDraft_run, by decide +kernel⟩⟩

end AgenticPlatform.Workloads
