import AgenticPlatform.Foundation.JsonAscii
import AgenticPlatform.Identity.Principal
import AgenticPlatform.Ports.Llm
import Mathlib

/-!
# What a cached answer answers

A chat request is turned into text twice over: `_cache_key` hashes a payload, under which
an answer is stored and found, and `_dispatch_with_retry` builds the keyword arguments the
provider sees. The cassette fingerprints requests a third time, with `interaction_key`.
SHA-256, the serialisation and the texts of identifiers are parameters.
-/
namespace AgenticPlatform.Observability
open AgenticPlatform.Foundation AgenticPlatform.Identity AgenticPlatform.Ports

structure KeyEnv where
  sha256 : String → String
  /-- `json.dumps(…, sort_keys=True, default=str)`. -/
  dumps : Json → String
  /-- The same with separators `(",", ":")`. -/
  dumpsCompact : Json → String
  uuidText : Uuid → String

/-- Equal texts come from equal values; documents are equal up to the order of their keys. -/
structure KeyEnv.Faithful (env : KeyEnv) : Prop where
  sha256 : Function.Injective env.sha256
  dumps : ∀ v w, env.dumps v = env.dumps w → v.sortKeys = w.sortKeys
  dumpsCompact : ∀ v w, env.dumpsCompact v = env.dumpsCompact w → v.sortKeys = w.sortKeys
  uuidText : Function.Injective env.uuidText

def orNull (value : Option Json) : Json := value.getD .null

def cachePayload (env : KeyEnv) (ctx : RequestContext) (q : Ports.ChatRequest) : Json :=
  .obj [("tenant", .str (env.uuidText ctx.tenant.id)),
    ("model", .str q.model), ("messages", .arr q.messages),
    ("temperature", orNull (q.temperature.map .num)), ("tools", orNull (q.tools.map .arr))]

/-- `_cache_key`. -/
def cacheKey (env : KeyEnv) (ctx : RequestContext) (q : Ports.ChatRequest) : String :=
  env.sha256 (env.dumps (cachePayload env ctx q))

def interactionPayload (q : Ports.ChatRequest) : Json :=
  .obj [("model", .str q.model), ("messages", .arr q.messages),
    ("temperature", orNull (q.temperature.map .num)),
    ("max_tokens", orNull (q.maxTokens.map .num)), ("tools", orNull (q.tools.map .arr)),
    ("response_format", orNull (q.responseFormat.map .obj))]

/-- `interaction_key` of the cassette. -/
def interactionKey (env : KeyEnv) (q : Ports.ChatRequest) : String :=
  env.sha256 (env.dumpsCompact (interactionPayload q))

/-! ## What the provider is sent -/

/-- An argument that is sent where there is a value. -/
def argument (name : String) (value : Option Json) : List (String × Json) :=
  value.toList.map (fun v => (name, v))

/-- An empty list counts as none. -/
def sentTools (q : Ports.ChatRequest) : Option Json :=
  (q.tools.filter (fun tools => !tools.isEmpty)).map .arr

/-- So does an empty dictionary. -/
def sentFormat (q : Ports.ChatRequest) : Option Json :=
  (q.responseFormat.filter (fun fields => !fields.isEmpty)).map .obj

/-- The keyword arguments of `chat.completions.create`. -/
def dispatchKwargs (q : Ports.ChatRequest) : List (String × Json) :=
  [("model", .str q.model), ("messages", .arr q.messages)] ++
    argument "temperature" (q.temperature.map .num) ++
    argument "max_tokens" (q.maxTokens.map .num) ++ argument "tools" (sentTools q) ++
    argument "response_format" (sentFormat q)

/-- The provider sees the same. -/
def SameKwargs (q q' : Ports.ChatRequest) : Prop :=
  (Json.obj (dispatchKwargs q)).sortKeys = (Json.obj (dispatchKwargs q')).sortKeys

instance (q q' : Ports.ChatRequest) : Decidable (SameKwargs q q') :=
  inferInstanceAs (Decidable (_ = _))

/-- The arguments with the keys of every document in order. -/
def sortedKwargs (q : Ports.ChatRequest) : List (String × Json) :=
  [("model", .str q.model), ("messages", .arr (Json.sortItems q.messages))] ++
    argument "temperature" (q.temperature.map .num) ++
    argument "max_tokens" (q.maxTokens.map .num) ++
    argument "tools" ((sentTools q).map Json.sortKeys) ++
    argument "response_format" ((sentFormat q).map Json.sortKeys)

theorem argument_sorted (name : String) (value : Option Json) :
    (argument name value).map (fun f => (f.1, f.2.sortKeys)) =
      argument name (value.map Json.sortKeys) := by
  cases value <;> rfl

theorem dispatchKwargs_sorted (q : Ports.ChatRequest) :
    (dispatchKwargs q).map (fun f => (f.1, f.2.sortKeys)) = sortedKwargs q := by
  have hnumber : ∀ n : Option Number, (n.map Json.num).map Json.sortKeys = n.map Json.num := by
    intro n
    cases n <;> rfl
  simp only [dispatchKwargs, sortedKwargs, List.map_append, argument_sorted, hnumber]
  rfl

/-! ## What the keys determine -/

theorem numbers_of_orNull {a b : Option Number}
    (h : (orNull (a.map .num)).sortKeys = (orNull (b.map .num)).sortKeys) : a = b := by
  cases a <;> cases b <;> simp_all [orNull, Json.sortKeys]

theorem items_of_orNull {a b : Option (List Json)}
    (h : (orNull (a.map .arr)).sortKeys = (orNull (b.map .arr)).sortKeys) :
    a.map Json.sortItems = b.map Json.sortItems := by
  cases a <;> cases b <;> simp_all [orNull, Json.sortKeys]

theorem fields_of_orNull {a b : Option (List (String × Json))}
    (h : (orNull (a.map .obj)).sortKeys = (orNull (b.map .obj)).sortKeys) :
    a.map (fun fields => (Json.obj fields).sortKeys) =
      b.map (fun fields => (Json.obj fields).sortKeys) := by
  cases a <;> cases b <;> simp_all [orNull, Json.sortKeys]

theorem model_of_sortKeys {a b : String} (h : (Json.str a).sortKeys = (Json.str b).sortKeys) :
    a = b := by
  simpa [Json.sortKeys] using h

theorem items_of_sortKeys {a b : List Json} (h : (Json.arr a).sortKeys = (Json.arr b).sortKeys) :
    Json.sortItems a = Json.sortItems b := by
  simpa [Json.sortKeys] using h

/-- Which tools are sent depends on the tools up to the order of their keys. -/
theorem sentTools_of_items {q q' : Ports.ChatRequest}
    (h : q.tools.map Json.sortItems = q'.tools.map Json.sortItems) :
    (sentTools q).map Json.sortKeys = (sentTools q').map Json.sortKeys := by
  have hsent : ∀ q : Ports.ChatRequest, (sentTools q).map Json.sortKeys =
      ((q.tools.map Json.sortItems).filter (fun items => !items.isEmpty)).map .arr := by
    intro q
    cases htools : q.tools with
    | none => simp [sentTools, htools]
    | some tools => cases tools <;>
      simp [sentTools, htools, Json.sortItems, Json.sortKeys, Option.filter]
  rw [hsent, hsent, h]

/-- The same for the response format. -/
theorem sentFormat_of_fields {q q' : Ports.ChatRequest}
    (h : q.responseFormat.map (fun fields => (Json.obj fields).sortKeys) =
      q'.responseFormat.map (fun fields => (Json.obj fields).sortKeys)) :
    (sentFormat q).map Json.sortKeys = (sentFormat q').map Json.sortKeys := by
  have hsent : ∀ q : Ports.ChatRequest, (sentFormat q).map Json.sortKeys =
      (q.responseFormat.map (fun fields => (Json.obj fields).sortKeys)).filter
      (fun v => v ≠ .obj []) := by
    intro q
    cases hformat : q.responseFormat with
    | none => simp [sentFormat, hformat]
    | some fields =>
      cases fields with
      | nil => simp [sentFormat, hformat, Json.sortKeys, Json.sortFields, Option.filter]
      | cons f fs =>
        have hne : (Json.obj (f :: fs)).sortKeys ≠ .obj [] := by
          intro hempty
          rw [Json.sortKeys, Json.obj.injEq] at hempty
          have hlength := congrArg List.length hempty
          rw [List.length_insertionSort] at hlength
          cases hlength
        simp [sentFormat, hformat, Option.filter, hne]
  rw [hsent, hsent, h]

/-- All of a request that the key covers. -/
structure SameKeyed (q q' : Ports.ChatRequest) : Prop where
  model : q.model = q'.model
  messages : Json.sortItems q.messages = Json.sortItems q'.messages
  temperature : q.temperature = q'.temperature
  tools : q.tools.map Json.sortItems = q'.tools.map Json.sortItems

theorem sameKeyed_of_cacheKey {env : KeyEnv} (henv : env.Faithful) {ctx ctx' : RequestContext}
    {q q' : Ports.ChatRequest} (h : cacheKey env ctx q = cacheKey env ctx' q') :
    ctx.tenant.id = ctx'.tenant.id ∧ SameKeyed q q' := by
  have hsame := henv.dumps _ _ (henv.sha256 h)
  have hkeys : ["tenant", "model", "messages", "temperature", "tools"].Nodup := by decide
  refine ⟨henv.uuidText (model_of_sortKeys (Json.value_of_sortKeys hsame hkeys 0 rfl rfl)), ?_⟩
  constructor
  · exact model_of_sortKeys (Json.value_of_sortKeys hsame hkeys 1 rfl rfl)
  · exact items_of_sortKeys (Json.value_of_sortKeys hsame hkeys 2 rfl rfl)
  · exact numbers_of_orNull (Json.value_of_sortKeys hsame hkeys 3 rfl rfl)
  · exact items_of_orNull (Json.value_of_sortKeys hsame hkeys 4 rfl rfl)

/-- Of two requests that agree in all the key covers, the provider sees the same exactly where
they agree in what it does not cover. -/
theorem sameKwargs_iff {q q' : Ports.ChatRequest} (h : SameKeyed q q') :
    SameKwargs q q' ↔ q.maxTokens = q'.maxTokens ∧
      (sentFormat q).map Json.sortKeys = (sentFormat q').map Json.sortKeys := by
  constructor
  · intro hsame
    have hperm := Json.perm_of_sortKeys hsame
    rw [dispatchKwargs_sorted, dispatchKwargs_sorted] at hperm
    have htokens : ∀ (q : Ports.ChatRequest) (v : Json),
        ("max_tokens", v) ∈ sortedKwargs q ↔ q.maxTokens.map Json.num = some v := by
      intro q v
      simp [sortedKwargs, argument]
    have hformat : ∀ (q : Ports.ChatRequest) (v : Json),
        ("response_format", v) ∈ sortedKwargs q ↔ (sentFormat q).map Json.sortKeys = some v := by
      intro q v
      simp [sortedKwargs, argument]
    constructor
    · have hnum : q.maxTokens.map Json.num = q'.maxTokens.map Json.num :=
        Option.ext (fun v => by rw [← htokens, hperm.mem_iff, htokens])
      exact Option.map_injective (fun a b hab => Json.num.inj hab) hnum
    · exact Option.ext (fun v => by rw [← hformat, hperm.mem_iff, hformat])
  · rintro ⟨htokens, hformat⟩
    refine Json.sortKeys_obj_of_map ?_
    rw [dispatchKwargs_sorted, dispatchKwargs_sorted, sortedKwargs, sortedKwargs, h.model,
      h.messages, h.temperature, sentTools_of_items h.tools, htokens, hformat]

/-- Two requests under one cache key are of one tenant and look the same to the provider,
exactly where they have the same `max_tokens` and send the same response format. -/
theorem cache_key_sound_iff {env : KeyEnv} (henv : env.Faithful) {ctx ctx' : RequestContext}
    {q q' : Ports.ChatRequest} (h : cacheKey env ctx q = cacheKey env ctx' q') :
    (ctx.tenant.id = ctx'.tenant.id ∧ SameKwargs q q') ↔ q.maxTokens = q'.maxTokens ∧
      (sentFormat q).map Json.sortKeys = (sentFormat q').map Json.sortKeys := by
  obtain ⟨htenant, hkeyed⟩ := sameKeyed_of_cacheKey henv h
  rw [and_iff_right htenant]
  exact sameKwargs_iff hkeyed

/-! Two requests for one question, in texts that stand for their hashes. -/

def plainKeys : KeyEnv := ⟨fun text => text, Json.dumpsAscii, Json.dumpsAscii, Nat.repr⟩

theorem plainKeys_faithful : plainKeys.Faithful where
  sha256 := fun _ _ h => h
  dumps := fun _ _ h => Json.dumpsAscii_injective h
  dumpsCompact := fun _ _ h => Json.dumpsAscii_injective h
  uuidText := fun _ _ h => Nat.repr_injective h

def aliceContext : RequestContext := ⟨⟨7, ⟨1, "acme"⟩, "alice", [.owner]⟩, 5, none, none, none⟩

def torqueRequest (maxTokens : Option Number) : Ports.ChatRequest where
  messages := [.obj [("role", .str "user"), ("content", .str "Which torque?")]]
  model := "gpt-4o-mini"
  temperature := some ⟨"0", isNumber_zero⟩
  maxTokens := maxTokens
  tools := none
  responseFormat := none
  cacheable := true

/-- The order of the keys of a message makes no difference. -/
def reorderedRequest : Ports.ChatRequest :=
  { torqueRequest none with
    messages := [.obj [("content", .str "Which torque?"), ("role", .str "user")]] }

theorem cache_key_sound_reordered : aliceContext.tenant.id = aliceContext.tenant.id ∧
    SameKwargs (torqueRequest none) reorderedRequest := by
  have hkey : cacheKey plainKeys aliceContext (torqueRequest none) =
      cacheKey plainKeys aliceContext reorderedRequest := by
    decide +kernel
  exact (cache_key_sound_iff plainKeys_faithful hkey).mpr (by decide +kernel)

/-- One answer may be cut after five tokens, the other after four hundred. -/
theorem cache_key_ignores_max_tokens :
    (torqueRequest (some ⟨"5", by decide⟩)).cacheable = true ∧
      (torqueRequest (some ⟨"400", by decide⟩)).cacheable = true ∧
      cacheKey plainKeys aliceContext (torqueRequest (some ⟨"5", by decide⟩)) =
      cacheKey plainKeys aliceContext (torqueRequest (some ⟨"400", by decide⟩)) ∧
      ¬ SameKwargs (torqueRequest (some ⟨"5", by decide⟩))
      (torqueRequest (some ⟨"400", by decide⟩)) :=
  ⟨rfl, rfl, rfl, by decide +kernel⟩

/-- The fingerprint of the cassette covers all that is sent. -/
theorem interaction_key_sound {env : KeyEnv} (henv : env.Faithful) {q q' : Ports.ChatRequest}
    (h : interactionKey env q = interactionKey env q') : SameKwargs q q' := by
  have hsame := henv.dumpsCompact _ _ (henv.sha256 h)
  have hkeys : ["model", "messages", "temperature", "max_tokens", "tools",
      "response_format"].Nodup := by decide
  have hkeyed : SameKeyed q q' := by
    constructor
    · exact model_of_sortKeys (Json.value_of_sortKeys hsame hkeys 0 rfl rfl)
    · exact items_of_sortKeys (Json.value_of_sortKeys hsame hkeys 1 rfl rfl)
    · exact numbers_of_orNull (Json.value_of_sortKeys hsame hkeys 2 rfl rfl)
    · exact items_of_orNull (Json.value_of_sortKeys hsame hkeys 4 rfl rfl)
  have htokens := numbers_of_orNull (Json.value_of_sortKeys hsame hkeys 3 rfl rfl)
  have hformat := fields_of_orNull (Json.value_of_sortKeys hsame hkeys 5 rfl rfl)
  exact (sameKwargs_iff hkeyed).mpr ⟨htokens, sentFormat_of_fields hformat⟩

end AgenticPlatform.Observability
