import AgenticPlatform.Foundation.JsonInteger
import AgenticPlatform.Foundation.Text
import AgenticPlatform.Gates.Datasets

/-!
# The metrics without a judge

What an answer is measured by, item by item, and the means over a run: each over the items
that have the metric, with their number beside it.
-/
namespace AgenticPlatform.Gates
open AgenticPlatform.Foundation

/-- Arithmetic of floats. -/
structure FloatEnv where
  /-- The quotient of two integers. -/
  div : Nat → Nat → ℚ
  /-- `sum(values) / len(values)`. -/
  mean : List ℚ → ℚ
  /-- `round(x, 4)`. -/
  round4 : ℚ → ℚ
  /-- `round(x, 2)`. -/
  round2 : ℚ → ℚ
  /-- What the encoder prints of a float. -/
  number : ℚ → Number

namespace QualityMetrics

/-! ## Tokens -/

structure TokenEnv where
  /-- `\w`. -/
  word : Char → Bool
  /-- `str.lower`. -/
  lower : String → String

def stopWords : List String :=
  ["a", "an", "and", "are", "as", "at", "be", "by", "for", "from", "has", "in", "is", "it", "its",
    "of", "on", "or", "that", "the", "this", "to", "was", "were", "when", "which", "with", "what",
    "how", "why", "does", "do"]

/-- `[\w\-]+`, everywhere in a text. -/
def words (env : TokenEnv) (text : String) : List String :=
  ((text.toList.splitOnP (fun c => !(env.word c || c = '-'))).filter (fun cs => cs ≠ [])).map
    String.ofList

/-- A set. -/
def tokens (env : TokenEnv) (text : String) : List String :=
  (((words env text).map env.lower).filter (fun t => t ∉ stopWords)).dedup

variable (floats : FloatEnv) (env : TokenEnv)

/-! ## One item -/

/-- How much of `part` is in `whole`. -/
def coverage (part whole : List String) : ℚ :=
  if part = [] then 0
  else floats.round4 (floats.div (part.filter (fun t => t ∈ whole)).length part.length)

def faithfulness (answer : String) (evidenceTexts : List String) : ℚ :=
  if strip answer = "" then 0
  else coverage floats (tokens env answer) (evidenceTexts.flatMap (tokens env))

def answerRelevancy (answer question expectedAnswer : String) : ℚ :=
  let wanted := (tokens env question ++ tokens env expectedAnswer).dedup
  if wanted = [] then 0 else coverage floats wanted (tokens env answer)

/-- None where the item declares no evidence. -/
def contextPrecision (retrieved mustCite : List String) : Option ℚ :=
  if mustCite = [] then none
  else if retrieved = [] then some 0
  else some (floats.round4
    (floats.div (mustCite.dedup.filter (fun c => c ∈ retrieved)).length retrieved.length))

/-- `\[(c_[0-9a-f]{6,32})\]` at the start: the id between the brackets. -/
def citationAt : List Char → Option String
  | '[' :: 'c' :: '_' :: rest =>
    let digits := rest.takeWhile (fun d => d ∈ hexDigits)
    if 6 ≤ digits.length ∧ digits.length ≤ 32 ∧
        (rest.dropWhile (fun d => d ∈ hexDigits)).head? = some ']' then
      some (String.ofList ('c' :: '_' :: digits))
    else none
  | _ => none

/-- Everywhere: no match starts inside another. -/
def citationsIn (cs : List Char) : List String := cs.tails.filterMap citationAt

/-- In order, each once. -/
def citations (answer : String) : List String :=
  (citationsIn answer.toList).foldl (fun seen c => if c ∈ seen then seen else seen ++ [c]) []

example : citations "See [c_0123ab], not [c_01] or [c_0123ab]." = ["c_0123ab"] := by decide +kernel

/-- None where the answer cites nothing. -/
def citationAccuracy (answer : String) (retrieved : List String) : Option ℚ :=
  let cited := citations answer
  if cited = [] then none
  else some (floats.round4 (floats.div (cited.filter (fun c => c ∈ retrieved)).length cited.length))

structure Score where
  faithfulness : ℚ
  answerRelevancy : ℚ
  contextPrecision : Option ℚ
  citationAccuracy : Option ℚ
  citations : List String
deriving DecidableEq

def score (answer question expectedAnswer : String)
    (retrieved evidenceTexts mustCite : List String) : Score where
  faithfulness := faithfulness floats env answer evidenceTexts
  answerRelevancy := answerRelevancy floats env answer question expectedAnswer
  contextPrecision := contextPrecision floats retrieved mustCite
  citationAccuracy := citationAccuracy floats answer retrieved
  citations := citations answer

/-! ## A run -/

/-- The fields that are averaged. -/
def measured : List (String × (Score → Option ℚ)) :=
  [("faithfulness", fun m => some m.faithfulness),
    ("answer_relevancy", fun m => some m.answerRelevancy),
    ("context_precision", Score.contextPrecision), ("citation_accuracy", Score.citationAccuracy)]

def Score.toJson (floats : FloatEnv) (m : Score) : Json :=
  let optional (value : Option ℚ) : Json :=
    (value.map (fun x => Json.num (floats.number x))).getD .null
  .obj [("faithfulness", .num (floats.number m.faithfulness)),
    ("answer_relevancy", .num (floats.number m.answerRelevancy)),
    ("context_precision", optional m.contextPrecision),
    ("citation_accuracy", optional m.citationAccuracy),
    ("citations", .arr (m.citations.map Json.str))]

/-- A value of the aggregate: a mean, or the number of items it is over. -/
inductive Quality where
  | mean (value : Option ℚ)
  | count (n : Nat)
deriving DecidableEq

def Quality.toJson (floats : FloatEnv) : Quality → Json
  | .mean value => (value.map (fun x => Json.num (floats.number x))).getD .null
  | .count n => .num (.ofInt n)

def aggregate (perItem : List Score) : List (String × Quality) :=
  measured.flatMap (fun m =>
    let values := perItem.filterMap m.2
    [(m.1, .mean (if values = [] then none else some (floats.round4 (floats.mean values)))),
      (m.1 ++ "_n", .count values.length)])

/-- The aggregate has the same keys whatever there is to average. -/
theorem keys_aggregate (perItem : List Score) :
    (aggregate floats perItem).map Prod.fst = measured.flatMap (fun m => [m.1, m.1 ++ "_n"]) := by
  simp only [aggregate, List.map_flatMap, List.map_cons, List.map_nil]

/-- A mean is over the items that have the metric, and there is one. -/
theorem mean_aggregate {perItem : List Score} {name : String} {value : ℚ}
    (h : (name, .mean (some value)) ∈ aggregate floats perItem) :
    ∃ m ∈ measured, m.1 = name ∧ perItem.filterMap m.2 ≠ [] ∧
      value = floats.round4 (floats.mean (perItem.filterMap m.2)) := by
  obtain ⟨m, hm, hmem⟩ := List.mem_flatMap.mp h
  simp only [List.mem_cons, Prod.mk.injEq, Quality.mean.injEq, List.not_mem_nil, or_false,
    reduceCtorEq, and_false] at hmem
  obtain ⟨rfl, hvalue⟩ := hmem
  refine ⟨m, hm, rfl, ?_⟩
  split at hvalue
  · cases hvalue
  · rename_i hne
    cases hvalue
    exact ⟨hne, rfl⟩

end QualityMetrics

end AgenticPlatform.Gates
