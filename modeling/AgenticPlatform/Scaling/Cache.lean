import AgenticPlatform.Foundation.Dict
import AgenticPlatform.Foundation.JsonFields
import AgenticPlatform.Foundation.Transition
import AgenticPlatform.Observability.CacheKey
import AgenticPlatform.Observability.Llm

/-!
# Cached answers

A call that finds no answer in the cache has the provider make one and stores it; one that
finds an answer returns it. An answer is written as a JSON document field by field, and read
back by the adapter of the query route. Any number of calls of any tenants run
concurrently; entries expire, writes and reads fail. The ledger around a call is left out: a
call comes here when it has its reservation.
-/
namespace AgenticPlatform.Scaling
open AgenticPlatform.Foundation AgenticPlatform.Identity AgenticPlatform.Ports
  AgenticPlatform.Observability

structure CacheEnv where
  keys : KeyEnv
  codec : Json.Codec
  /-- The number that is written for a float. -/
  float : ℚ → Number

structure CacheStats where
  hits : Nat
  misses : Nat
  errors : Nat
deriving DecidableEq

/-- The entries that Redis has not expired, and what the client counts. -/
structure RedisSemanticCache where
  entries : List (String × String)
  stats : CacheStats

/-- How a write to Redis ends: an exception leaves open whether Redis has it. -/
inductive Write where
  | done
  | failed
  | unanswered
deriving DecidableEq

def Write.applied : Write → Bool
  | .failed => false
  | _ => true

/-- The document that `put` writes. -/
def cachedEntry (env : CacheEnv) (response : Ports.ChatResponse) : Json :=
  .obj [("content", .str response.content), ("model", .str response.model),
    ("usage", .obj [("input_tokens", .num (.ofInt response.usage.inputTokens)), ("output_tokens",
      .num (.ofInt response.usage.outputTokens)), ("reported", .bool response.usage.reported)]),
    ("cost_usd", .num (env.float response.costUsd)),
    ("finish_reason", .str response.finishReason)]

/-- What the keys of a tenant are taken to start with. -/
def tenantPrefix (env : CacheEnv) (ctx : RequestContext) : String :=
  "platform:cache:" ++ env.keys.uuidText ctx.tenant.id ++ ":"

/-- The pattern is this prefix and a star; the text of an identifier has no wildcard in it. -/
def matchesTenant (env : CacheEnv) (ctx : RequestContext) (key : String) : Bool :=
  (tenantPrefix env ctx).toList.isPrefixOf key.toList

namespace RedisSemanticCache
variable (env : CacheEnv) (c : RedisSemanticCache)

def get (key : String) (up : Bool) : RedisSemanticCache × Option Json :=
  if up then
    match c.entries.lookup key with
    | none => ({ c with stats := { c.stats with misses := c.stats.misses + 1 } }, none)
    | some text =>
      match env.codec.loads text with
      | some data => ({ c with stats := { c.stats with hits := c.stats.hits + 1 } }, some data)
      | none => ({ c with
        stats := { c.stats with hits := c.stats.hits + 1, errors := c.stats.errors + 1 } }, none)
  else ({ c with stats := { c.stats with errors := c.stats.errors + 1 } }, none)

def put (key : String) (response : Ports.ChatResponse) (write : Write) : RedisSemanticCache where
  entries := if write.applied then Dict.setItem c.entries key
    (env.codec.dumps (cachedEntry env response))
    else c.entries
  stats := if write = .done then c.stats else { c.stats with errors := c.stats.errors + 1 }

/-- `DEL`, or the time to live is up. -/
def delete (keys : List String) : RedisSemanticCache :=
  { c with entries := c.entries.filter (fun e => !keys.contains e.1) }

/-- The keys that a scan with the pattern comes upon: all of them or, where Redis fails, the first
few. -/
def scanned (ctx : RequestContext) (reached : Option Nat) : List String :=
  let keys := (c.entries.map Prod.fst).filter (matchesTenant env ctx)
  (reached.map keys.take).getD keys

/-- And the number of the keys deleted. -/
def invalidateTenant (ctx : RequestContext) (reached : Option Nat) : RedisSemanticCache × Nat :=
  (c.delete (c.scanned env ctx reached), (c.scanned env ctx reached).length)

end RedisSemanticCache

/-! ## Reading an entry -/

/-- The dictionary that the adapter hands to the chain. -/
structure CachedAnswer where
  content : String
  model : String
  usage : TokenUsage
  costUsd : ℚ
  finishReason : String
  attempts : Nat
deriving DecidableEq

/-- What `_CacheAdapter.get` makes of a document; `none` where a field is missing, or is not what
`put` writes. -/
def adapted (data : Json) : Option CachedAnswer := do
  let content ← textAt (fieldsOf data) "content"
  let model ← textAt (fieldsOf data) "model"
  let usage ← objectAt (fieldsOf data) "usage"
  let inputTokens ← intAt usage "input_tokens"
  let outputTokens ← intAt usage "output_tokens"
  let reported ← fieldOr boolAt usage "reported" true
  let finishReason ← fieldOr textAt (fieldsOf data) "finish_reason" "stop"
  some ⟨content, model, ⟨inputTokens, outputTokens, reported⟩, 0, finishReason, 1⟩

/-- `ChatResponse(**{**hit, "cache_hit": True})`. -/
def CachedAnswer.response (hit : CachedAnswer) : Ports.ChatResponse where
  content := hit.content
  model := hit.model
  usage := hit.usage
  costUsd := hit.costUsd
  finishReason := hit.finishReason
  toolCalls := []
  cacheHit := true
  attempts := hit.attempts
  cassetteKey := none

/-- The other decoder. -/
def responseFromCached (data : Json) : Option Ports.ChatResponse := do
  let usage ← fieldOr objectAt (fieldsOf data) "usage" []
  let content ← textAt (fieldsOf data) "content"
  let model ← textAt (fieldsOf data) "model"
  let inputTokens ← fieldOr intAt usage "input_tokens" 0
  let outputTokens ← fieldOr intAt usage "output_tokens" 0
  let reported ← fieldOr boolAt usage "reported" true
  let finishReason ← fieldOr textAt (fieldsOf data) "finish_reason" "stop"
  some
    { content := content
      model := model
      usage := ⟨inputTokens, outputTokens, reported⟩
      costUsd := 0
      finishReason := finishReason
      toolCalls := []
      cacheHit := true
      attempts := 1
      cassetteKey := none }

/-- What a call finds. -/
inductive Found where
  | miss
  | hit (answer : CachedAnswer)
  /-- An entry of another origin. -/
  | raised
deriving DecidableEq

def Found.of : Option Json → Found
  | none | some .null => .miss
  | some data =>
    match adapted data with
    | some answer => .hit answer
    | none => .raised

/-! ## Calls -/

/-- What the chain makes of an answer of the provider; `none` where reading it raises. -/
def answer (model : String) (r : ProviderResponse) (attempts : Nat) : Option Ports.ChatResponse :=
  r.read.bind (fun d => (chatResponse model r d attempts).map (fun c =>
    { content := c.content
      model := c.model
      usage := ⟨c.inputTokens, c.outputTokens, c.usageReported⟩
      costUsd := c.costUsd
      finishReason := c.finishReason
      toolCalls := c.toolCalls
      cacheHit := false
      attempts := c.attempts
      cassetteKey := none }))

inductive CallPhase where
  | dispatching
  | answered (response : Ports.ChatResponse)
  | ended

structure CacheCall where
  ctx : RequestContext
  request : Ports.ChatRequest
  phase : CallPhase

inductive CacheEvent where
  /-- The answer of a call is in the cache. -/
  | stored (ctx : RequestContext) (request : Ports.ChatRequest) (response : Ports.ChatResponse)
  /-- A call returned what it found. -/
  | hit (ctx : RequestContext) (request : Ports.ChatRequest) (response : Ports.ChatResponse)

structure CacheState where
  cache : RedisSemanticCache
  calls : Nat → Option CacheCall
  /-- The latest first. -/
  log : List CacheEvent

inductive CacheAct where
  | lookup (i : Nat) (ctx : RequestContext) (request : Ports.ChatRequest) (up : Bool)
  | deliver (i : Nat) (r : ProviderResponse) (attempts : Nat)
  /-- Cancelled, or every dispatch raised. -/
  | fail (i : Nat)
  | store (i : Nat) (write : Write)
  | expire (key : String)
  | invalidate (ctx : RequestContext) (reached : Option Nat)

namespace CacheState
variable (env : CacheEnv) (s : CacheState)

def initial : CacheState := ⟨⟨[], ⟨0, 0, 0⟩⟩, fun _ => none, []⟩

def move (i : Nat) (c : CacheCall) : CacheState :=
  { s with calls := Function.update s.calls i (some c) }

def found (ctx : RequestContext) (request : Ports.ChatRequest) (up : Bool) : Found :=
  if request.cacheable then .of (s.cache.get env (cacheKey env.keys ctx request) up).2 else .miss

def looked (i : Nat) (ctx : RequestContext) (request : Ports.ChatRequest) (up : Bool) :
    CacheState :=
  let cache :=
    if request.cacheable then (s.cache.get env (cacheKey env.keys ctx request) up).1 else s.cache
  match s.found env ctx request up with
  | .miss => { s with cache := cache }.move i ⟨ctx, request, .dispatching⟩
  | .hit answer =>
    { s with cache := cache, log := .hit ctx request answer.response :: s.log }.move i
    ⟨ctx, request, .ended⟩
  | .raised => { s with cache := cache }.move i ⟨ctx, request, .ended⟩

def stored (i : Nat) (ctx : RequestContext) (request : Ports.ChatRequest)
    (response : Ports.ChatResponse) (write : Write) : CacheState :=
  if request.cacheable then
    { s with
      cache := s.cache.put env (cacheKey env.keys ctx request) response write
      log := if write.applied then .stored ctx request response :: s.log else s.log }.move i
        ⟨ctx, request, .ended⟩
  else s.move i ⟨ctx, request, .ended⟩

end CacheState

def cacheStep (env : CacheEnv) (s : CacheState) : CacheAct → Option CacheState
  | .lookup i ctx request up =>
    if (s.calls i).isNone then some (s.looked env i ctx request up) else none
  | .deliver i r attempts =>
    match s.calls i with
    | some ⟨ctx, request, .dispatching⟩ =>
      some (s.move i ⟨ctx, request, ((answer request.model r attempts).map .answered).getD .ended⟩)
    | _ => none
  | .fail i =>
    match s.calls i with
    | some ⟨ctx, request, .dispatching⟩ => some (s.move i ⟨ctx, request, .ended⟩)
    | _ => none
  | .store i write =>
    match s.calls i with
    | some ⟨ctx, request, .answered response⟩ => some (s.stored env i ctx request response write)
    | _ => none
  | .expire key => some { s with cache := s.cache.delete [key] }
  | .invalidate ctx reached => some { s with cache := (s.cache.invalidateTenant env ctx reached).1 }

/-! ## Entries and where they stem from -/

def CacheEvent.storedUnder (env : CacheEnv) (key : String) : CacheEvent → Option Ports.ChatResponse
  | .stored ctx request response =>
    if cacheKey env.keys ctx request = key then some response else none
  | .hit _ _ _ => none

/-- The answer that was last stored under a key. -/
def origin (env : CacheEnv) (log : List CacheEvent) (key : String) : Option Ports.ChatResponse :=
  log.findSome? (CacheEvent.storedUnder env key)

variable {env : CacheEnv} {s t : CacheState}

@[simp] theorem origin_hit (log : List CacheEvent) (ctx : RequestContext)
    (request : Ports.ChatRequest) (response : Ports.ChatResponse) (key : String) :
    origin env (.hit ctx request response :: log) key = origin env log key :=
  rfl

theorem origin_stored (log : List CacheEvent) (ctx : RequestContext) (request : Ports.ChatRequest)
    (response : Ports.ChatResponse) (key : String) :
    origin env (.stored ctx request response :: log) key =
      if cacheKey env.keys ctx request = key then some response else origin env log key := by
  unfold origin
  rw [List.findSome?_cons, CacheEvent.storedUnder]
  by_cases hkey : cacheKey env.keys ctx request = key
  · rw [if_pos hkey, if_pos hkey]
  · rw [if_neg hkey, if_neg hkey]

/-- Every entry is the text of the answer that was last stored under its key. -/
def Stored (env : CacheEnv) (s : CacheState) : Prop :=
  ∀ key text, s.cache.entries.lookup key = some text → ∃ response,
    origin env s.log key = some response ∧ text = env.codec.dumps (cachedEntry env response)

theorem stored_initial : Stored env .initial := fun _ _ h => (by cases h)

theorem entries_get (c : RedisSemanticCache) (key : String) (up : Bool) :
    (c.get env key up).1.entries = c.entries := by
  unfold RedisSemanticCache.get
  split
  · split
    · rfl
    · split <;> rfl
  · rfl

theorem entries_looked (i : Nat) (ctx : RequestContext) (request : Ports.ChatRequest) (up : Bool) :
    (s.looked env i ctx request up).cache.entries = s.cache.entries := by
  unfold CacheState.looked
  cases hcacheable : request.cacheable <;> simp only [Bool.false_eq_true, if_true, if_false] <;>
    split <;> first | rfl | exact entries_get _ _ _

theorem lookup_delete (c : RedisSemanticCache) (keys : List String) (key : String) :
    (c.delete keys).entries.lookup key = if key ∈ keys then none else c.entries.lookup key := by
  unfold RedisSemanticCache.delete
  rw [Dict.lookup_filter (fun key => !keys.contains key) c.entries key]
  by_cases hmem : key ∈ keys <;> simp [hmem]

theorem origin_looked (i : Nat) (ctx : RequestContext) (request : Ports.ChatRequest) (up : Bool)
    (key : String) : origin env (s.looked env i ctx request up).log key = origin env s.log key := by
  unfold CacheState.looked
  cases s.found env ctx request up <;> rfl

/-- A step is a lookup, or stores an answer under its key, or adds nothing and lets entries go. -/
theorem cacheStep_cases {a : CacheAct} (h : cacheStep env s a = some t) :
    (∃ i ctx request up, a = .lookup i ctx request up ∧ t = s.looked env i ctx request up) ∨
      ((∀ i ctx request up, a ≠ .lookup i ctx request up) ∧
        ((∃ ctx request response, t.log = .stored ctx request response :: s.log ∧
        t.cache.entries = Dict.setItem s.cache.entries (cacheKey env.keys ctx request)
        (env.codec.dumps (cachedEntry env response))) ∨
        (t.log = s.log ∧ ∃ keys, t.cache.entries = (s.cache.delete keys).entries))) := by
  have hkept : s.cache.entries = (s.cache.delete []).entries := by
    simp [RedisSemanticCache.delete]
  cases a with
  | lookup i ctx request up =>
    simp only [cacheStep] at h
    split at h
    · cases h
      exact Or.inl ⟨i, ctx, request, up, rfl, rfl⟩
    · cases h
  | deliver i r attempts =>
    refine Or.inr ⟨fun _ _ _ _ heq => (by cases heq), Or.inr ?_⟩
    simp only [cacheStep] at h
    split at h
    · cases h
      exact ⟨rfl, [], hkept⟩
    · cases h
  | fail i =>
    refine Or.inr ⟨fun _ _ _ _ heq => (by cases heq), Or.inr ?_⟩
    simp only [cacheStep] at h
    split at h
    · cases h
      exact ⟨rfl, [], hkept⟩
    · cases h
  | store i write =>
    refine Or.inr ⟨fun _ _ _ _ heq => (by cases heq), ?_⟩
    simp only [cacheStep] at h
    split at h
    · rename_i ctx request response _
      cases h
      unfold CacheState.stored
      split
      · cases happlied : write.applied with
        | false =>
          exact Or.inr
            ⟨rfl, [], by simpa [CacheState.move, RedisSemanticCache.put, happlied] using hkept⟩
        | true =>
          exact Or.inl ⟨ctx, request, response,
            rfl, by simp only [CacheState.move, RedisSemanticCache.put, happlied, if_true]⟩
      · exact Or.inr ⟨rfl, [], hkept⟩
    · cases h
  | expire key =>
    cases h
    exact Or.inr ⟨fun _ _ _ _ heq => (by cases heq), Or.inr ⟨rfl, [key], rfl⟩⟩
  | invalidate ctx reached =>
    cases h
    exact Or.inr ⟨fun _ _ _ _ heq => (by cases heq),
      Or.inr ⟨rfl, s.cache.scanned env ctx reached, rfl⟩⟩

theorem stored_step {a : CacheAct} (hs : Stored env s) (h : cacheStep env s a = some t) :
    Stored env t := by
  rcases cacheStep_cases h with ⟨i, ctx, request, up, -, rfl⟩ | ⟨-, hstore | ⟨hlog, keys, hentries⟩⟩
  · intro key text hlookup
    rw [entries_looked] at hlookup
    obtain ⟨response, horigin, htext⟩ := hs key text hlookup
    rw [origin_looked]
    exact ⟨response, horigin, htext⟩
  · obtain ⟨ctx, request, response, hlog, hentries⟩ := hstore
    intro key text hlookup
    rw [hentries, Dict.lookup_setItem] at hlookup
    rw [hlog, origin_stored]
    by_cases hkey : key = cacheKey env.keys ctx request
    · rw [if_pos hkey] at hlookup
      rw [if_pos hkey.symm]
      exact ⟨response, rfl, (Option.some.inj hlookup).symm⟩
    · rw [if_neg hkey] at hlookup
      rw [if_neg (Ne.symm hkey)]
      exact hs key text hlookup
  · intro key text hlookup
    rw [hentries, lookup_delete] at hlookup
    rw [hlog]
    split at hlookup
    · cases hlookup
    · exact hs key text hlookup

/-! ## Decoding what was stored -/

/-- What is read back of an answer. -/
def CachedAnswer.ofResponse (response : Ports.ChatResponse) : CachedAnswer :=
  ⟨response.content, response.model, response.usage, 0, response.finishReason, 1⟩

theorem adapted_cachedEntry (response : Ports.ChatResponse) :
    adapted (cachedEntry env response) = some (.ofResponse response) := by
  simp [adapted, cachedEntry, fieldsOf, textAt, objectAt, intAt, boolAt, fieldOr, List.lookup,
    CachedAnswer.ofResponse]

theorem responseFromCached_cachedEntry (response : Ports.ChatResponse) :
    responseFromCached (cachedEntry env response) =
      some (CachedAnswer.ofResponse response).response := by
  simp [responseFromCached, cachedEntry, fieldsOf, textAt, objectAt, intAt, boolAt, fieldOr,
    List.lookup, CachedAnswer.ofResponse, CachedAnswer.response]

theorem found_cachedEntry (response : Ports.ChatResponse) :
    Found.of (some (cachedEntry env response)) = .hit (.ofResponse response) := by
  have hread : adapted (cachedEntry env response) = some (.ofResponse response) :=
    adapted_cachedEntry response
  unfold cachedEntry at hread ⊢
  simp only [Found.of, hread]

/-- The call reads an entry. -/
def CacheState.Hits (env : CacheEnv) (s : CacheState) (ctx : RequestContext)
    (request : Ports.ChatRequest) (up : Bool) : Prop :=
  request.cacheable = true ∧ up = true ∧
    (s.cache.entries.lookup (cacheKey env.keys ctx request)).isSome = true

instance (ctx : RequestContext) (request : Ports.ChatRequest) (up : Bool) :
    Decidable (s.Hits env ctx request up) :=
  inferInstanceAs (Decidable (_ ∧ _ ∧ _))

variable {ctx : RequestContext} {request : Ports.ChatRequest} {up : Bool}

theorem found_of_hits (hs : Stored env s) (h : s.Hits env ctx request up) :
    ∃ original, origin env s.log (cacheKey env.keys ctx request) = some original ∧
      s.found env ctx request up = .hit (.ofResponse original) := by
  obtain ⟨hcacheable, hup, hentry⟩ := h
  obtain ⟨text, htext⟩ := Option.isSome_iff_exists.mp hentry
  obtain ⟨original, horigin, hentry⟩ := hs _ text htext
  refine ⟨original, horigin, ?_⟩
  unfold CacheState.found RedisSemanticCache.get
  rw [if_pos hcacheable, if_pos hup]
  simp only [htext, hentry, env.codec.loads_dumps]
  exact found_cachedEntry original

theorem found_of_not_hits (h : ¬ s.Hits env ctx request up) :
    s.found env ctx request up = .miss := by
  unfold CacheState.found RedisSemanticCache.get
  split
  · rename_i hcacheable
    split
    · rename_i hup
      cases hlookup : s.cache.entries.lookup (cacheKey env.keys ctx request) with
      | none => rfl
      | some text => exact absurd ⟨hcacheable, hup, by rw [hlookup]; rfl⟩ h
    · rfl
  · rfl

/-! ## The same answer -/

/-- A hit is the answer that was stored, for nothing. -/
structure SameHit (original hit : Ports.ChatResponse) : Prop where
  content : hit.content = original.content
  model : hit.model = original.model
  usage : hit.usage = original.usage
  finishReason : hit.finishReason = original.finishReason
  toolCalls : hit.toolCalls = original.toolCalls
  cacheHit : hit.cacheHit = true
  costUsd : hit.costUsd = 0

theorem sameHit_iff (original : Ports.ChatResponse) :
    SameHit original (CachedAnswer.ofResponse original).response ↔ original.toolCalls = [] :=
  ⟨fun h => h.toolCalls.symm, fun h => ⟨rfl, rfl, rfl, rfl, h.symm, rfl, rfl⟩⟩

/-- Every hit is the answer that was last stored under its key before. -/
def HitsSame (env : CacheEnv) (log : List CacheEvent) : Prop :=
  ∀ later ctx request hit earlier, log = later ++ .hit ctx request hit :: earlier → ∃ original,
    origin env earlier (cacheKey env.keys ctx request) = some original ∧ SameHit original hit

/-- And every entry is decoded, by both decoders to the same. -/
structure Faithful (env : CacheEnv) (s : CacheState) : Prop where
  hits : HitsSame env s.log
  decoders : ∀ key text, s.cache.entries.lookup key = some text → ∃ data response,
    env.codec.loads text = some data ∧ (adapted data).map CachedAnswer.response = some response ∧
    responseFromCached data = some response

theorem decoders_of_stored (hs : Stored env s) {key text : String}
    (h : s.cache.entries.lookup key = some text) :
    ∃ data response, env.codec.loads text = some data ∧
      (adapted data).map CachedAnswer.response = some response ∧
      responseFromCached data = some response := by
  obtain ⟨response, -, rfl⟩ := hs key text h
  refine ⟨cachedEntry env response, _, env.codec.loads_dumps _, ?_,
    responseFromCached_cachedEntry response⟩
  rw [adapted_cachedEntry, Option.map_some]

theorem hitsSame_nil : HitsSame env [] := by
  intro later ctx request hit earlier h
  cases later <;> cases h

theorem hitsSame_stored (log : List CacheEvent) (response : Ports.ChatResponse) :
    HitsSame env (.stored ctx request response :: log) ↔ HitsSame env log := by
  constructor
  · rintro h later ctx request hit earlier rfl
    exact h (_ :: later) ctx request hit earlier rfl
  · intro h later ctx' request' hit earlier hlog
    cases later with
    | nil => cases hlog
    | cons e later =>
      cases hlog
      exact h later ctx' request' hit earlier rfl

theorem hitsSame_hit (log : List CacheEvent) (response : Ports.ChatResponse) :
    HitsSame env (.hit ctx request response :: log) ↔
      (∃ original, origin env log (cacheKey env.keys ctx request) = some original ∧
        SameHit original response) ∧
      HitsSame env log := by
  constructor
  · intro h
    refine ⟨h [] ctx request response log rfl, ?_⟩
    rintro later ctx request hit earlier rfl
    exact h (_ :: later) ctx request hit earlier rfl
  · rintro ⟨hhead, htail⟩ later ctx' request' hit earlier hlog
    cases later with
    | nil =>
      cases hlog
      exact hhead
    | cons e later =>
      cases hlog
      exact htail later ctx' request' hit earlier rfl

/-- The call does not hit the answer of a call that came with tool calls. -/
def CacheAct.Plain (env : CacheEnv) (s : CacheState) : CacheAct → Prop
  | .lookup _ ctx request up =>
    s.Hits env ctx request up →
      ((origin env s.log (cacheKey env.keys ctx request)).all (fun r => r.toolCalls.isEmpty)) = true
  | _ => True

instance : ∀ a : CacheAct, Decidable (a.Plain env s)
  | .lookup _ _ _ _ => inferInstanceAs (Decidable (_ → _))
  | .deliver _ _ _ | .fail _ | .store _ _ | .expire _ | .invalidate _ _ =>
    inferInstanceAs (Decidable True)

theorem plain_of_ne_lookup {a : CacheAct} (h : ∀ i ctx request up, a ≠ .lookup i ctx request up) :
    a.Plain env s := by
  cases a with
  | lookup i ctx request up => exact absurd rfl (h i ctx request up)
  | deliver | fail | store | expire | invalidate => trivial

/-- One step. -/
theorem hitsSame_step_iff {a : CacheAct} (hs : Stored env s) (h : cacheStep env s a = some t) :
    HitsSame env t.log ↔ HitsSame env s.log ∧ a.Plain env s := by
  rcases cacheStep_cases h with ⟨i, ctx, request, up, rfl, rfl⟩ | ⟨hother, heffect⟩
  · by_cases hhits : s.Hits env ctx request up
    · obtain ⟨original, horigin, hfound⟩ := found_of_hits hs hhits
      have hlog : (s.looked env i ctx request up).log =
          .hit ctx request (CachedAnswer.ofResponse original).response :: s.log := by
        unfold CacheState.looked
        rw [hfound]
        rfl
      rw [hlog, hitsSame_hit, and_comm]
      refine and_congr_right (fun _ => ?_)
      simp only [CacheAct.Plain, horigin, Option.some.injEq, exists_eq_left', sameHit_iff,
        Option.all_some, List.isEmpty_iff]
      exact ⟨fun hempty _ => hempty, fun hplain => hplain hhits⟩
    · have hlog : (s.looked env i ctx request up).log = s.log := by
        unfold CacheState.looked
        rw [found_of_not_hits hhits]
        rfl
      rw [hlog]
      exact (and_iff_left (fun hhit => absurd hhit hhits)).symm
  · rw [and_iff_left (plain_of_ne_lookup hother)]
    rcases heffect with ⟨ctx, request, response, hlog, -⟩ | ⟨hlog, -⟩
    · rw [hlog]
      exact hitsSame_stored _ _
    · rw [hlog]

/-- Every hit of a run is the answer that was stored exactly where no hit is on the answer of a
call that came with tool calls. -/
theorem hits_faithful_iff {acts : List CacheAct} (h : Reaches (cacheStep env) .initial acts t) :
    Throughout (cacheStep env) (Faithful env) .initial acts ↔
      Reaches (restrict (fun s a => a.Plain env s) (cacheStep env)) .initial acts t := by
  have hstored : Throughout (cacheStep env) (Stored env) .initial acts :=
    Throughout.of_invariant (fun _ _ _ => stored_step) stored_initial acts
  refine Throughout.iff_restrict ?_ hstored ⟨hitsSame_nil, fun _ _ h => (by cases h)⟩ h
  intro s a t hs ht hfaithful hstep
  have hhits := hitsSame_step_iff hs hstep
  rw [and_iff_right hfaithful.hits] at hhits
  exact ⟨fun hP => hhits.mp hP.hits,
    fun hplain => ⟨hhits.mpr hplain, fun _ _ => decoders_of_stored ht⟩⟩

/-! One question, asked twice. -/

def smallCache : CacheEnv :=
  ⟨plainKeys, Json.asciiCodec, fun _ => ⟨"2.6999999999999996e-06", by decide⟩⟩

def torqueReturned (finishReason : String) (toolCalls : List Json) : ProviderResponse where
  usage := some ⟨.int 10, .int 2⟩
  choices := some [⟨some ⟨some "5 Nm", some toolCalls⟩, some finishReason⟩]

/-- The first call has stored its answer. -/
def torqueCached (env : CacheEnv) (finishReason : String) (toolCalls : List Json) : CacheState :=
  let asked := CacheState.looked env .initial 0 aliceContext (torqueRequest none) true
  let phase :=
    ((answer "gpt-4o-mini" (torqueReturned finishReason toolCalls) 1).map CallPhase.answered).getD
      .ended
  let delivered := asked.move 0 ⟨aliceContext, torqueRequest none, phase⟩
  match phase with
  | .answered response => delivered.stored env 0 aliceContext (torqueRequest none) response .done
  | _ => delivered

def storeActs (finishReason : String) (toolCalls : List Json) : List CacheAct :=
  [.lookup 0 aliceContext (torqueRequest none) true,
    .deliver 0 (torqueReturned finishReason toolCalls) 1, .store 0 .done]

theorem torqueCached_reached (env : CacheEnv) (finishReason : String) (toolCalls : List Json) :
    Reaches (cacheStep env) .initial (storeActs finishReason toolCalls)
      (torqueCached env finishReason toolCalls) :=
  rfl

/-- The question again. -/
def askAgain : CacheAct := .lookup 1 aliceContext (torqueRequest none) true

def askedAgain (cached : CacheState) : CacheState :=
  cached.looked smallCache 1 aliceContext (torqueRequest none) true

theorem askedAgain_step (finishReason : String) (toolCalls : List Json) :
    cacheStep smallCache (torqueCached smallCache finishReason toolCalls) askAgain =
      some (askedAgain (torqueCached smallCache finishReason toolCalls)) := rfl

theorem hits_faithful_torque :
    Throughout (cacheStep smallCache) (Faithful smallCache) .initial
      (storeActs "stop" [] ++ [askAgain]) := by
  have hcached : Reaches (restrict (fun s a => a.Plain smallCache s) (cacheStep smallCache))
      .initial (storeActs "stop" []) (torqueCached smallCache "stop" []) := rfl
  have hplain : askAgain.Plain smallCache (torqueCached smallCache "stop" []) := by decide +kernel
  have hagain := restrict_eq_some.mpr ⟨hplain, askedAgain_step "stop" []⟩
  have hrun := reaches_snoc.mpr ⟨_, hcached, hagain⟩
  exact (hits_faithful_iff hrun.of_restrict).mpr hrun

/-- The first answer is a call of a tool; the second has none. -/
theorem hit_drops_tool_calls :
    ¬ Throughout (cacheStep smallCache) (Faithful smallCache) .initial
      (storeActs "tool_calls" [.obj [("id", .str "call_1")]] ++ [askAgain]) := by
  intro hfaithful
  have hcached := torqueCached_reached smallCache "tool_calls" [.obj [("id", .str "call_1")]]
  have hstored :=
    hcached.invariant (P := Stored smallCache) (fun _ _ _ hs h => stored_step hs h) stored_initial
  have hstep := askedAgain_step "tool_calls" [.obj [("id", .str "call_1")]]
  have hagain := hfaithful _ [] _ (List.append_nil _).symm (reaches_snoc.mpr ⟨_, hcached, hstep⟩)
  have hplain := ((hitsSame_step_iff hstored hstep).mp hagain.hits).2
  exact absurd hplain (by decide +kernel)

end AgenticPlatform.Scaling
