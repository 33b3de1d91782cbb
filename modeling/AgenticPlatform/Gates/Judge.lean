import AgenticPlatform.Gates.Datasets
import AgenticPlatform.Gates.Replies

/-!
# The judge

`verdict` asks a model to grade an answer, in up to three response formats, and takes the
first reply that is an object with a field `passed`. What the provider does at a call, and
whether the run has been cancelled before it, are arguments.
-/
namespace AgenticPlatform.Gates.Judge
open AgenticPlatform.Foundation AgenticPlatform.Ports AgenticPlatform.Db
open AgenticPlatform.Onboarding (falsy)

/-! ## Verdicts -/

inductive FixSurface where
  | answerPrompt | retrieval | kgInstanceTable | kgEntityType | corpusGap | expectedAnswer | none
deriving DecidableEq

def FixSurface.value : FixSurface → String
  | .answerPrompt => "prompts:answer"
  | .retrieval => "retrieval:top_k"
  | .kgInstanceTable => "kg:instance_table"
  | .kgEntityType => "kg:entity_type"
  | .corpusGap => "corpus:gap"
  | .expectedAnswer => "eval:expected_answer"
  | .none => "none"

def FixSurface.all : List FixSurface :=
  [.answerPrompt, .retrieval, .kgInstanceTable, .kgEntityType, .corpusGap, .expectedAnswer, .none]

/-- `FixSurface(text)`; none where that raises. -/
def fixSurface? (text : String) : Option FixSurface :=
  FixSurface.all.find? (fun surface => surface.value = text)

structure Verdict where
  passed : Bool
  reason : String
  fixSurface : FixSurface
  judgeUnavailable : Bool
deriving DecidableEq

/-! ## Reading a reply -/

/-- `str(data.get(name) or default)`. -/
def textOr (env : ReplyEnv) (data : List (String × Json)) (name default : String) : String :=
  match (data.lookup name).filter (fun value => !falsy value) with
  | some (.str text) => text
  | some value => env.valueText value
  | none => default

def verdictIn (env : ReplyEnv) (data : List (String × Json)) (passed : Json) : Verdict where
  passed := !falsy passed
  reason := clip 1000 (textOr env data "reason" "")
  fixSurface := (fixSurface? (textOr env data "fix_surface" "none")).getD .none
  judgeUnavailable := false

/-- `_parse`. -/
def parse (env : ReplyEnv) (raw : String) : Except Raised (Option Verdict) :=
  (replyObject env raw).map
    (fun data => data.bind (fun data => (data.lookup "passed").map (verdictIn env data)))

/-! ## What the judge is asked -/

def system : String := String.intercalate "\n"
  ["You grade whether an answer produced by a retrieval system conveys the same key " ++
      "facts as a reference answer, and pick where a failure should be fixed.",
    "",
    "You are given QUESTION, EXPECTED_ANSWER, ACTUAL_ANSWER, MUST_CITE (the chunk ids " ++
      "the reference was written from — informational only), and RETRIEVED_CHUNK_IDS.",
    "",
    "Grading rules:",
    "",
    "1. Grade loosely on content. The corpus states the same fact in several places, " ++
      "so the system may answer correctly from chunks other than MUST_CITE. That is not " ++
      "a failure.",
    "2. passed=true when ACTUAL_ANSWER conveys the same key facts as EXPECTED_ANSWER. " ++
      "Different phrasing, extra context and different evidence are all fine. Allow " ++
      "partial credit when most key facts are covered.",
    "3. passed=false only when the answer misses all the key facts, contradicts one, " ++
      "or claims the source does not contain something the evidence plausibly contains.",
    "4. Never fail an answer merely for citing different chunks, or for citing none.",
    "",
    "Choose exactly one fix_surface:",
    "  prompts:answer        the evidence was retrieved and the answer ignored it",
    "  retrieval:top_k       the answering content exists but was not retrieved",
    "  kg:instance_table     an entity the graph should know is missing",
    "  kg:entity_type        an entity type is missing from the schema",
    "  corpus:gap            nothing in the corpus could answer this",
    "  eval:expected_answer  the reference itself looks wrong or unanswerable",
    "  none                  the item passed",
    ""]

def shapeHint : String :=
  "\n\nRespond with only a json object, no prose and no code fence:\n" ++
    "\x7b\"passed\": true|false, \"reason\": \"<one short sentence>\", " ++
    "\"fix_surface\": \"<one of the values above>\"\x7d"

/-- `_SCHEMA`. -/
def schema : List (String × Json) :=
  let surfaces := Json.arr (FixSurface.all.map (fun surface => .str surface.value))
  let properties := Json.obj
    [("passed", .obj [("type", .str "boolean")]), ("reason", .obj [("type", .str "string")]),
      ("fix_surface", .obj [("type", .str "string"), ("enum", surfaces)])]
  let shape :=
    Json.obj [("type", .str "object"), ("properties", properties),
      ("required", .arr [.str "passed", .str "reason", .str "fix_surface"]),
      ("additionalProperties", .bool false)]
  [("type", .str "json_schema"),
    ("json_schema", .obj [("name", .str "verdict"), ("schema", shape)])]

def responseFormats : List (Option (List (String × Json))) :=
  [some schema, some [("type", .str "json_object")], none]

/-- `text or default`. -/
def orText (text default : String) : String := if text = "" then default else text

def userPrompt (item : EvalItem) (actualAnswer : String) (retrieved : List String) : String :=
  "QUESTION:\n" ++ item.question ++ "\n\n" ++ "EXPECTED_ANSWER:\n" ++ item.expectedAnswer ++
    "\n\n" ++ "ACTUAL_ANSWER:\n" ++ orText actualAnswer "(the system produced no answer)" ++
    "\n\n" ++ "MUST_CITE:\n" ++ orText (String.intercalate ", " item.mustCite) "(none)" ++ "\n\n" ++
    "RETRIEVED_CHUNK_IDS:\n" ++ orText (String.intercalate ", " (retrieved.take 20)) "(none)"

def chatRequest (model user : String) (responseFormat : Option (List (String × Json))) :
    ChatRequest where
  messages := [.obj [("role", .str "system"), ("content", .str (system ++ shapeHint))],
    .obj [("role", .str "user"), ("content", .str user)]]
  model := model
  temperature := some ⟨"0", isNumber_zero⟩
  maxTokens := some ⟨"300", by decide⟩
  tools := none
  responseFormat := responseFormat
  cacheable := false

/-! ## Grading -/

/-- Nothing to grade against. -/
def noReference : Verdict where
  passed := false
  reason := "no expected answer on this item — draft or write one first"
  fixSurface := .expectedAnswer
  judgeUnavailable := true

def unavailable (lastError : Option String) : Verdict where
  passed := false
  reason := "judge unavailable: " ++ lastError.getD "unparseable output"
  fixSurface := .none
  judgeUnavailable := true

section
variable (env : ReplyEnv) (provider : Provider) (model user : String)

/-- The loop over the response formats, with the type of the last error. -/
def grade (n : Nat) (lastError : Option String) :
    List (Option (List (String × Json))) → Except Raised Verdict
  | [] => .ok (unavailable lastError)
  | format :: formats =>
    if provider.cancelled n then .error .runCancelled
    else
      match provider.chat n (chatRequest model user format) with
      | .error .runCancelled => .error .runCancelled
      | .error (.error name _) => grade (n + 1) (some name) formats
      | .ok content =>
        match parse env content with
        | .error e => .error e
        | .ok (some v) => .ok v
        | .ok none => grade (n + 1) lastError formats

/-- The replies that the loop gets. -/
def received (n : Nat) : List (Option (List (String × Json))) → List String
  | [] => []
  | format :: formats =>
    if provider.cancelled n then []
    else
      match provider.chat n (chatRequest model user format) with
      | .error .runCancelled => []
      | .error (.error _ _) => received (n + 1) formats
      | .ok content =>
        match parse env content with
        | .ok none => content :: received (n + 1) formats
        | _ => [content]

end

/-- `item.expected_answer` is blank. -/
def blank (item : EvalItem) : Prop := strip item.expectedAnswer = ""

instance (item : EvalItem) : Decidable (blank item) := inferInstanceAs (Decidable (_ = _))

def verdict (env : ReplyEnv) (provider : Provider) (model : String) (item : EvalItem)
    (actualAnswer : String) (retrieved : List String) : Except Raised Verdict :=
  if blank item then .ok noReference
  else grade env provider model (userPrompt item actualAnswer retrieved) 0 none responseFormats

/-- The replies that `verdict` gets. -/
def replies (env : ReplyEnv) (provider : Provider) (model : String) (item : EvalItem)
    (actualAnswer : String) (retrieved : List String) : List String :=
  if blank item then []
  else received env provider model (userPrompt item actualAnswer retrieved) 0 responseFormats

/-! ## Sound verdicts -/

/-- The field `passed` of the object in a reply. -/
def gradeIn (env : ReplyEnv) (raw : String) : Option Json :=
  ((replyObject env raw).toOption.bind id).bind (List.lookup "passed")

/-- What a grading that has got these replies should come to. -/
structure Sound (env : ReplyEnv) (noExpected : Prop) (replies : List String)
    (r : Except Raised Verdict) : Prop where
  passed : ∀ v, r = .ok v → v.passed = true → v.judgeUnavailable = false →
    replies.findSome? (gradeIn env) = some (.bool true)
  unavailable : ∀ v, r = .ok v →
    (v.judgeUnavailable = true ↔ noExpected ∨ ¬ ∃ raw ∈ replies, ∃ b,
      gradeIn env raw = some (.bool b))
  raises : ∀ e, r = .error e → e = .runCancelled

/-- A reply that can be read, and whose grade, if it has one, is a Boolean. -/
def Clear (env : ReplyEnv) (raw : String) : Prop :=
  (∃ data, replyObject env raw = .ok data) ∧ ∀ v ∈ gradeIn env raw, ∃ b, v = .bool b

variable {env : ReplyEnv} {provider : Provider} {model user raw : String}

theorem parse_cases (env : ReplyEnv) (raw : String) :
    (∃ e, e ≠ .runCancelled ∧ replyObject env raw = .error e ∧ parse env raw = .error e) ∨
      ((∃ data, replyObject env raw = .ok data) ∧
        gradeIn env raw = none ∧ parse env raw = .ok none) ∨
      ∃ passed v, (∃ data, replyObject env raw = .ok data) ∧ gradeIn env raw = some passed ∧
      parse env raw = .ok (some v) ∧ v.passed = !falsy passed ∧ v.judgeUnavailable = false := by
  unfold parse gradeIn
  cases hread : replyObject env raw with
  | error e => exact Or.inl ⟨e, replyObject_error hread, rfl, rfl⟩
  | ok data =>
    right
    cases data with
    | none => exact Or.inl ⟨⟨_, rfl⟩, rfl, rfl⟩
    | some data =>
      cases hpassed : data.lookup "passed" with
      | none =>
        exact Or.inl
          ⟨⟨_, rfl⟩, by simp [Except.toOption, hpassed], by simp [Except.map, hpassed]⟩
      | some passed =>
        refine Or.inr ⟨passed, verdictIn env data passed, ⟨_, rfl⟩, ?_, ?_, rfl, rfl⟩
        · simp [Except.toOption, hpassed]
        · simp [Except.map, hpassed]

/-- A reply without a grade changes nothing. -/
theorem Sound.cons_iff {replies : List String} {r : Except Raised Verdict}
    (h : gradeIn env raw = none) :
    Sound env False (raw :: replies) r ↔ Sound env False replies r := by
  have hfirst : (raw :: replies).findSome? (gradeIn env) = replies.findSome? (gradeIn env) := by
    rw [List.findSome?_cons, h]
  have hany : (∃ x ∈ raw :: replies, ∃ b, gradeIn env x = some (.bool b)) ↔
      ∃ x ∈ replies, ∃ b, gradeIn env x = some (.bool b) := by
    simp [h]
  constructor
  · exact fun ⟨h₁, h₂, h₃⟩ => ⟨hfirst ▸ h₁, fun v hv => (h₂ v hv).trans (by rw [hany]), h₃⟩
  · exact fun ⟨h₁, h₂, h₃⟩ => ⟨hfirst.symm ▸ h₁, fun v hv => (h₂ v hv).trans (by rw [hany]), h₃⟩

/-- A reply with a grade decides, and should do so with a Boolean only. -/
theorem sound_graded_iff {passed : Json} {v : Verdict} (hgrade : gradeIn env raw = some passed)
    (hv : v.passed = !falsy passed) (hgraded : v.judgeUnavailable = false) :
    Sound env False [raw] (.ok v) ↔ ∃ b, passed = .bool b := by
  constructor
  · intro h
    by_contra hnone
    have hunavailable := (h.unavailable v rfl).mpr (Or.inr (by simpa [hgrade] using hnone))
    rw [hgraded] at hunavailable
    cases hunavailable
  · rintro ⟨b, rfl⟩
    refine ⟨?_, ?_, fun e he => (by cases he)⟩
    · intro v' hv' hpassed _
      cases hv'
      rw [hpassed] at hv
      simpa [hgrade, falsy] using hv
    · intro v' hv'
      cases hv'
      simp [hgraded, hgrade]

/-- The loop is sound exactly where the replies it gets are clear. -/
theorem grade_sound_iff (n : Nat) (lastError : Option String)
    (formats : List (Option (List (String × Json)))) :
    Sound env False (received env provider model user n formats)
      (grade env provider model user n lastError formats) ↔
      ∀ raw ∈ received env provider model user n formats, Clear env raw := by
  induction formats generalizing n lastError with
  | nil =>
    have hreceived : received env provider model user n [] = [] := rfl
    have hgraded : grade env provider model user n lastError [] = .ok (unavailable lastError) := rfl
    rw [hreceived, hgraded]
    simp only [List.not_mem_nil, false_implies, implies_true, iff_true]
    refine ⟨?_, ?_, fun e he => (by cases he)⟩
    · intro v hv _ hreached
      cases hv
      cases hreached
    · intro v hv
      cases hv
      simp [unavailable]
  | cons format formats ih =>
    have hcancelled : Sound env False [] (.error .runCancelled) := by
      refine ⟨fun v hv => (by cases hv), fun v hv => (by cases hv), ?_⟩
      intro e he
      cases he
      rfl
    unfold received grade
    split
    · simpa using hcancelled
    · cases hchat : provider.chat n (chatRequest model user format) with
      | error e =>
        cases e with
        | runCancelled => simpa using hcancelled
        | error name message => exact ih (n + 1) (some name)
      | ok content =>
        rcases parse_cases env content with ⟨e, he, hread, hparse⟩ | ⟨hread, hgrade, hparse⟩ |
          ⟨passed, v, hread, hgrade, hparse, hv, hgraded⟩
        · simp only [hparse, List.mem_singleton, forall_eq]
          constructor
          · exact fun h => absurd (h.raises e rfl) he
          · rintro ⟨⟨data, hdata⟩, -⟩
            rw [hread] at hdata
            cases hdata
        · simp only [hparse, List.forall_mem_cons]
          rw [Sound.cons_iff hgrade, ih (n + 1) lastError]
          have hclear : Clear env content := ⟨hread, by simp [hgrade]⟩
          simp only [hclear, true_and]
        · simp only [hparse, List.mem_singleton, forall_eq]
          rw [sound_graded_iff hgrade hv hgraded, Clear, and_iff_right hread]
          simp [hgrade]

/-- The verdict is sound exactly where every reply can be read and none is graded with anything
but a Boolean. -/
theorem verdict_sound_iff (env : ReplyEnv) (provider : Provider) (model : String) (item : EvalItem)
    (actualAnswer : String) (retrieved : List String) :
    Sound env (blank item) (replies env provider model item actualAnswer retrieved)
      (verdict env provider model item actualAnswer retrieved) ↔
      ∀ raw ∈ replies env provider model item actualAnswer retrieved, Clear env raw := by
  unfold replies verdict
  by_cases hblank : blank item
  · simp only [if_pos hblank, List.not_mem_nil, false_implies, implies_true, iff_true]
    refine ⟨?_, ?_, fun e he => (by cases he)⟩
    · intro v hv _ hreached
      cases hv
      cases hreached
    · intro v hv
      cases hv
      simp [noReference, hblank]
  · simp only [if_neg hblank]
    rw [show blank item = False from eq_false hblank]
    exact grade_sound_iff 0 none responseFormats

/-! One reply, which says "false" in quotation marks. -/

def quotedFalse : Provider where
  cancelled := fun _ => false
  chat := fun _ _ =>
    .ok ("\x7b\"passed\":\"false\",\"reason\":\"misses the key fact\"," ++
      "\"fix_surface\":\"prompts:answer\"\x7d")

def torqueAsked : EvalItem := ⟨"q1", "Which torque?", "5 Nm", ["c_0123ab"]⟩

/-- The verdict is that the answer passed. -/
theorem quoted_false_passes :
    verdict compactReplies quotedFalse "gpt-4o" torqueAsked "12 Nm" ["c_0123ab"] =
      .ok ⟨true, "misses the key fact", .answerPrompt, false⟩ ∧
      ¬ Sound compactReplies (blank torqueAsked)
      (replies compactReplies quotedFalse "gpt-4o" torqueAsked "12 Nm" ["c_0123ab"])
      (verdict compactReplies quotedFalse "gpt-4o" torqueAsked "12 Nm" ["c_0123ab"]) := by
  have hverdict : verdict compactReplies quotedFalse "gpt-4o" torqueAsked "12 Nm" ["c_0123ab"] =
      .ok ⟨true, "misses the key fact", .answerPrompt, false⟩ := by decide +kernel
  refine ⟨hverdict, ?_⟩
  intro hsound
  have hfirst := hsound.passed _ hverdict rfl rfl
  revert hfirst
  decide +kernel

end AgenticPlatform.Gates.Judge
