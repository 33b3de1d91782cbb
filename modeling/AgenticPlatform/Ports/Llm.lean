import AgenticPlatform.Foundation.Json
import Mathlib.Data.Rat.Defs

/-!
# The model call

What a client of a model is handed and what it returns. A number of a request is the text
the encoder prints for it; costs are exact. The latency of a response is not kept.
-/
namespace AgenticPlatform.Ports
open AgenticPlatform.Foundation

/-- A number is the text the encoder prints for it. -/
structure ChatRequest where
  messages : List Json
  model : String
  temperature : Option Number
  maxTokens : Option Number
  tools : Option (List Json)
  responseFormat : Option (List (String × Json))
  cacheable : Bool
deriving DecidableEq

structure TokenUsage where
  inputTokens : Int
  outputTokens : Int
  reported : Bool
deriving DecidableEq

structure ChatResponse where
  content : String
  model : String
  usage : TokenUsage
  costUsd : ℚ
  finishReason : String
  toolCalls : List Json
  cacheHit : Bool
  attempts : Nat
  cassetteKey : Option String
deriving DecidableEq

end AgenticPlatform.Ports
