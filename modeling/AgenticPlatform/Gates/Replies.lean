import AgenticPlatform.Foundation.Gate
import AgenticPlatform.Foundation.JsonText
import AgenticPlatform.Foundation.Text
import AgenticPlatform.Ports.Llm

/-!
# Replies of models

The judge and the annotator ask a model for a JSON object. What comes back is any text: it
may stand in a code fence, be no JSON, or be JSON of another kind. Reading it passes over
all of these; only what `json.loads` raises beside a `JSONDecodeError` gets through (an
integer with too many digits, or brackets nested too deep).
-/
namespace AgenticPlatform.Gates
open AgenticPlatform.Foundation AgenticPlatform.Ports

/-! ## What a call raises -/

inductive Raised where
  | runCancelled
  | error (name message : String)
deriving DecidableEq

inductive LoadsError where
  | decodeError
  | other (name message : String)
deriving DecidableEq

/-- What happens at the calls of a loop, by their number. -/
structure Provider where
  /-- The cancellation point before the call raises. -/
  cancelled : Nat → Bool
  /-- The content of the response. -/
  chat : Nat → ChatRequest → Except Raised String

structure ReplyEnv where
  /-- `json.loads`. -/
  loads : String → Except LoadsError Json
  /-- `str(value)` of a value that is not a string. -/
  valueText : Json → String

/-- `json.loads` on texts without blanks between the tokens. -/
def compactReplies : ReplyEnv where
  loads := fun text =>
    match Json.loads text with
    | some v => .ok v
    | none => .error .decodeError
  valueText := fun _ => ""

/-! ## The code fence -/

def fence : List Char := "```".toList

/-- Without `^\s*```(?:json)?\s*`. -/
def dropOpening (cs : List Char) : List Char :=
  let text := cs.dropWhile isSpace
  if fence.isPrefixOf text then
    let rest := text.drop 3
    (if "json".toList.isPrefixOf rest then rest.drop 4 else rest).dropWhile isSpace
  else cs

/-- Without `\s*```\s*$`. -/
def dropClosing (cs : List Char) : List Char :=
  let text := cs.rdropWhile isSpace
  if fence.isSuffixOf text then (text.rdrop 3).rdropWhile isSpace else cs

/-- `_FENCE.sub("", raw).strip()`. -/
def unfenced (raw : String) : String := strip (String.ofList (dropClosing (dropOpening raw.toList)))

example : unfenced " ```json\n[1]\n``` \n" = "[1]" := by decide +kernel

/-! ## The object in a reply -/

/-- The object that a reply holds, if it holds one. -/
def replyObject (env : ReplyEnv) (raw : String) : Except Raised (Option (List (String × Json))) :=
  if unfenced raw = "" then .ok none
  else
    match env.loads (unfenced raw) with
    | .ok (.obj fields) => .ok (some fields)
    | .ok _ => .ok none
    | .error .decodeError => .ok none
    | .error (.other name message) => .error (.error name message)

/-- What is raised over a reply is no cancellation. -/
theorem replyObject_error {env : ReplyEnv} {raw : String} {e : Raised}
    (h : replyObject env raw = .error e) : e ≠ .runCancelled := by
  unfold replyObject at h
  split at h
  · cases h
  · split at h
    · cases h
    · cases h
    · cases h
    · cases h
      exact fun hcancelled => (by cases hcancelled)

end AgenticPlatform.Gates
