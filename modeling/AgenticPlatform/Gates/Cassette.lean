import AgenticPlatform.Foundation.JsonFields
import AgenticPlatform.Foundation.Transition
import AgenticPlatform.Observability.CacheKey
import AgenticPlatform.Observability.Llm

/-!
# Cassettes

A cassette keeps one file for each fingerprint of a request. Recording writes what the
client returned where there is no file yet; replaying reads it back. The file has some of
the fields of a response, and what is read back gets the others from elsewhere.
-/
namespace AgenticPlatform.Gates.Cassette
open AgenticPlatform.Foundation AgenticPlatform.Ports AgenticPlatform.Observability

structure CassetteEnv where
  keys : KeyEnv
  codec : Json.Codec

/-- The text of the file of a key. -/
abbrev Directory := String → Option String

inductive Mode where
  | off | record | replay
deriving DecidableEq

/-! ## Interactions -/

structure Interaction where
  key : String
  model : String
  content : String
  inputTokens : Int
  outputTokens : Int
  finishReason : String
deriving DecidableEq

def Interaction.toResponse (i : Interaction) (costUsd : ℚ) : Ports.ChatResponse where
  content := i.content
  model := i.model
  usage := ⟨i.inputTokens, i.outputTokens, true⟩
  costUsd := costUsd
  finishReason := i.finishReason
  toolCalls := []
  cacheHit := false
  attempts := 1
  cassetteKey := some i.key

/-- The document that `put` writes. -/
def entry (key : String) (request : Ports.ChatRequest) (response : Ports.ChatResponse) : Json :=
  .obj [("key", .str key), ("model", .str response.model), ("content", .str response.content),
    ("input_tokens", .num (.ofInt response.usage.inputTokens)),
    ("output_tokens", .num (.ofInt response.usage.outputTokens)),
    ("finish_reason", .str response.finishReason),
    ("request", .obj [("model", .str request.model), ("messages", .arr request.messages),
      ("temperature", orNull (request.temperature.map .num))])]

/-- `none` where a field is missing, or is not what `put` writes. -/
def interactionIn (key : String) (fields : List (String × Json)) : Option Interaction := do
  let model ← textAt fields "model"
  let content ← textAt fields "content"
  let inputTokens ← intAt fields "input_tokens"
  let outputTokens ← intAt fields "output_tokens"
  let finishReason ← fieldOr textAt fields "finish_reason" "stop"
  some ⟨key, model, content, inputTokens, outputTokens, finishReason⟩

inductive GetError where
  | miss
  /-- A file of another origin. -/
  | unreadable
deriving DecidableEq

/-! ## The cassette -/

section
variable (env : CassetteEnv) (dir : Directory) (request : Ports.ChatRequest)

def get : Except GetError Interaction :=
  let key := interactionKey env.keys request
  match dir key with
  | none => .error .miss
  | some text =>
    match (env.codec.loads text).bind (fun data => interactionIn key (fieldsOf data)) with
    | some i => .ok i
    | none => .error .unreadable

/-- A file that is there is not overwritten. -/
def put (response : Ports.ChatResponse) : Directory :=
  let key := interactionKey env.keys request
  if (dir key).isSome then dir
  else Function.update dir key (some (env.codec.dumps (entry key request response)))

/-- The cost is the one the call would have had. -/
def replay : Except GetError Ports.ChatResponse :=
  (get env dir request).map (fun i => i.toResponse (price i.model i.inputTokens i.outputTokens))

end

/-- A call through a cassette, and what the client that it wraps does where it is called. -/
structure Call where
  mode : Mode
  request : Ports.ChatRequest
  inner : Option Ports.ChatResponse

/-- What a call leaves in the directory. -/
def Call.after (env : CassetteEnv) (dir : Directory) (c : Call) : Directory :=
  match c.mode, c.inner with
  | .record, some response => put env dir c.request response
  | _, _ => dir

def callStep (env : CassetteEnv) (dir : Directory) (c : Call) : Option Directory :=
  some (c.after env dir)

/-! ## Files -/

variable {env : CassetteEnv} {dir dir' : Directory} {request request' : Ports.ChatRequest}
  {response response' : Ports.ChatResponse}

theorem put_of_some {text : String} (h : dir (interactionKey env.keys request) = some text) :
    put env dir request response = dir :=
  if_pos (by rw [h]; rfl)

theorem put_empty (h : dir (interactionKey env.keys request) = none) :
    put env dir request response (interactionKey env.keys request) =
      some (env.codec.dumps (entry (interactionKey env.keys request) request response)) := by
  unfold put
  rw [h]
  exact Function.update_self _ _ _

theorem put_other {key : String} (h : key ≠ interactionKey env.keys request) :
    put env dir request response key = dir key := by
  unfold put
  split
  · rfl
  · exact Function.update_of_ne h _ _

/-- A call leaves the directory as it is, or records. -/
theorem Call.after_cases (env : CassetteEnv) (dir : Directory) (c : Call) :
    c.after env dir = dir ∨ ∃ response, c.after env dir = put env dir c.request response := by
  unfold Call.after
  split
  · exact Or.inr ⟨_, rfl⟩
  · exact Or.inl rfl

/-- A file that is written stays as it is, whatever is called after. -/
theorem file_kept {acts : List Call} {key text : String} (h : Reaches (callStep env) dir acts dir')
    (htext : dir key = some text) : dir' key = some text := by
  refine h.invariant (P := fun d => d key = some text) ?_ htext
  intro d c d' hd hstep
  cases hstep
  rcases c.after_cases env d with hsame | ⟨response, hput⟩
  · rw [hsame]
    exact hd
  · rw [hput]
    by_cases hkey : key = interactionKey env.keys c.request
    · rw [put_of_some (hkey ▸ hd)]
      exact hd
    · rw [put_other hkey]
      exact hd

/-- What is read for a request depends on its file. -/
theorem get_congr
    (h : dir (interactionKey env.keys request) = dir' (interactionKey env.keys request)) :
    get env dir request = get env dir' request := by
  unfold get
  simp only [h]

theorem get_entry
    (h : dir (interactionKey env.keys request) =
      some (env.codec.dumps (entry (interactionKey env.keys request) request response))) :
    get env dir request = .ok ⟨interactionKey env.keys request, response.model, response.content,
      response.usage.inputTokens, response.usage.outputTokens, response.finishReason⟩ := by
  unfold get
  simp only [h, env.codec.loads_dumps, Option.bind_some]
  have hread : interactionIn (interactionKey env.keys request)
      (fieldsOf (entry (interactionKey env.keys request) request response)) =
      some ⟨interactionKey env.keys request, response.model, response.content,
        response.usage.inputTokens, response.usage.outputTokens, response.finishReason⟩ := by
    simp [interactionIn, fieldsOf, entry, textAt, intAt, fieldOr, List.lookup]
  rw [hread]

/-! ## Replaying what was recorded -/

/-- The same as the one that was recorded. -/
structure SameAnswer (response replayed : Ports.ChatResponse) : Prop where
  content : replayed.content = response.content
  model : replayed.model = response.model
  usage : replayed.usage = response.usage
  finishReason : replayed.finishReason = response.finishReason
  costUsd : replayed.costUsd = response.costUsd
  toolCalls : replayed.toolCalls = response.toolCalls

/-- What is recorded, in the directory as it is now, is what is replayed from then on, and
recordings touch nothing but their own entry, once. -/
structure Fidelity (env : CassetteEnv) (dir : Directory) (request : Ports.ChatRequest)
    (response : Ports.ChatResponse) : Prop where
  replayed : ∀ acts dir',
    Reaches (callStep env) dir (⟨.record, request, some response⟩ :: acts) dir' →
    ∃ replayed, replay env dir' request = .ok replayed ∧ SameAnswer response replayed
  kept : ∀ acts dir', Reaches (callStep env) dir (⟨.record, request, some response⟩ :: acts) dir' →
    ∀ again other, interactionKey env.keys again = interactionKey env.keys request →
      replay env (put env dir' again other) request = replay env dir' request
  apart : ∀ dir' other another, interactionKey env.keys other ≠ interactionKey env.keys request →
    replay env (put env dir' other another) request = replay env dir' request ∧
      replay env (put env dir' request another) other = replay env dir' other

/-- Once recorded, a request is replayed with what its file has. -/
theorem replay_recorded (hempty : dir (interactionKey env.keys request) = none) {acts : List Call}
    (h : Reaches (callStep env) dir (⟨.record, request, some response⟩ :: acts) dir') :
    replay env dir' request = .ok
      { content := response.content
        model := response.model
        usage := ⟨response.usage.inputTokens, response.usage.outputTokens, true⟩
        costUsd := price response.model response.usage.inputTokens response.usage.outputTokens
        finishReason := response.finishReason
        toolCalls := []
        cacheHit := false
        attempts := 1
        cassetteKey := some (interactionKey env.keys request) } := by
  obtain ⟨m, hm, hrest⟩ := reaches_cons.mp h
  cases hm
  have hfile := file_kept hrest (put_empty hempty)
  unfold replay
  rw [get_entry hfile]
  rfl

/-- A recording is faithful exactly where the response has no tool calls, its usage was reported
and its cost is the price of its tokens. -/
theorem fidelity_iff (env : CassetteEnv) (dir : Directory) (request : Ports.ChatRequest)
    (response : Ports.ChatResponse) (hempty : dir (interactionKey env.keys request) = none) :
    Fidelity env dir request response ↔ response.toolCalls = [] ∧ response.usage.reported = true ∧
      response.costUsd =
      price response.model response.usage.inputTokens response.usage.outputTokens := by
  constructor
  · intro hfidelity
    have hrecorded : Reaches (callStep env) dir [⟨.record, request, some response⟩]
        (put env dir request response) :=
      reaches_single.mpr rfl
    obtain ⟨replayed, hreplay, hsame⟩ := hfidelity.replayed [] _ hrecorded
    rw [replay_recorded hempty hrecorded] at hreplay
    cases hreplay
    exact ⟨hsame.toolCalls.symm, (congrArg TokenUsage.reported hsame.usage).symm,
      hsame.costUsd.symm⟩
  · rintro ⟨htools, hreported, hcost⟩
    refine ⟨?_, ?_, ?_⟩
    · intro acts dir' h
      refine ⟨_, replay_recorded hempty h, rfl, rfl, ?_, rfl, hcost.symm, htools.symm⟩
      rw [← hreported]
    · intro acts dir' h again other hkey
      obtain ⟨m, hm, hrest⟩ := reaches_cons.mp h
      cases hm
      have hfile := file_kept hrest (put_empty hempty)
      rw [put_of_some (hkey.symm ▸ hfile)]
    · intro dir' other another hkey
      unfold replay
      rw [get_congr (put_other hkey.symm), get_congr (put_other hkey)]
      exact ⟨rfl, rfl⟩

/-! One question, with the answer in the text, and with a call of a tool. -/

def plainCassette : CassetteEnv := ⟨plainKeys, Json.asciiCodec⟩

def torqueResponse (finishReason : String) (toolCalls : List Json) : Ports.ChatResponse where
  content := "5 Nm"
  model := "gpt-4o-mini"
  usage := ⟨10, 2, true⟩
  costUsd := price "gpt-4o-mini" 10 2
  finishReason := finishReason
  toolCalls := toolCalls
  cacheHit := false
  attempts := 1
  cassetteKey := none

theorem fidelity_torque :
    Fidelity plainCassette (fun _ => none) (torqueRequest none) (torqueResponse "stop" []) :=
  (fidelity_iff plainCassette (fun _ => none) (torqueRequest none) (torqueResponse "stop" [])
    rfl).mpr ⟨rfl, rfl, rfl⟩

/-- The replayed answer ends in tool calls and has none. -/
theorem replay_drops_tool_calls :
    ¬ Fidelity plainCassette (fun _ => none) (torqueRequest none)
      (torqueResponse "tool_calls" [.obj [("id", .str "call_1")]]) := by
  intro hfidelity
  have hrecorded : Reaches (callStep plainCassette) (fun _ => none) [⟨.record, torqueRequest none,
      some (torqueResponse "tool_calls" [.obj [("id", .str "call_1")]])⟩] _ :=
    reaches_single.mpr rfl
  obtain ⟨replayed, hreplay, hsame⟩ := hfidelity.replayed [] _ hrecorded
  rw [replay_recorded rfl hrecorded] at hreplay
  cases hreplay
  cases hsame.toolCalls

end AgenticPlatform.Gates.Cassette
