import AgenticPlatform.Corpus.Builds
import AgenticPlatform.Foundation.Dict
import AgenticPlatform.Foundation.Traversal
import AgenticPlatform.Gates.Replies
import AgenticPlatform.Gates.Review

/-!
# The calls of the annotator

`draft` asks a model for the expected answers that are missing, a few items at a time, each
with the passages it cites; `apply` fills them in. A reply maps ids to answers. Nothing in
the loop looks at whether an id is one that was asked. Where the model answers alike at
every call, these are the proposals that the routes of golden sets work with.
-/
namespace AgenticPlatform.Gates.AnnotatorCalls
open AgenticPlatform.Foundation AgenticPlatform.Ports AgenticPlatform.Corpus
open AgenticPlatform.Onboarding (falsy)

def maxItems : Int := 50

/-- `max(1, min(int(limit or 15), MAX_ITEMS))`. -/
def limitOf (limit : Int) : Nat := (max 1 (min (if limit = 0 then 15 else limit) maxItems)).toNat

/-! ## What is pending -/

/-- The labels of a dataset name, by item. -/
abbrev Labels := String → Option LabelRow

def Labels.humanAuthored (labels : Labels) (id : String) : Bool :=
  (labels id).any (fun row => row.answerSource.humanAuthored)

/-- A reviewer gave a reason. -/
def Labels.unusable (labels : Labels) (id : String) : Bool :=
  (labels id).any (fun row => row.unusableReason.any (fun reason => reason ≠ ""))

/-! ## The evidence -/

/-- `_evidence_texts`: the build is the live one when it is looked up, and its chunks are those
there are when they are read. -/
def evidenceTexts (atLookup atRead : Collection) (ids : List String) : List (String × String) :=
  match atLookup.liveVersion with
  | none => []
  | some v =>
    Dict.update [] (((atRead.chunksOf v).filter (fun row => row.canonicalId ∈ ids)).map
      (fun row => (row.canonicalId, row.text)))

def passages (evidence : List (String × String)) (item : EvalItem) : List String :=
  item.mustCite.filterMap (fun cid => evidence.lookup cid)

/-! ## The calls -/

def system : String := String.intercalate "\n"
  ["You write reference answers for evaluating a retrieval system.",
    "",
    "For each question you are given the exact source passages the question was drawn " ++
      "from. Answer ONLY from those passages.",
    "",
    "Rules:",
    "· Quote or closely paraphrase the passages. Do not add outside knowledge.",
    "· Be specific — include figures, identifiers and units exactly as they appear.",
    "· Two or three sentences. No preamble, no citation markers.",
    "· If the passages genuinely do not answer the question, return an empty string " ++
      "for that item rather than inventing one.",
    "",
    "Respond with only a json object mapping each item id to its answer:",
    "\x7b\"<id>\": \"<answer>\", ...\x7d",
    ""]

def block (evidence : List (String × String)) (item : EvalItem) : String :=
  "ITEM " ++ item.id ++ "\nQUESTION: " ++ item.question ++ "\nPASSAGES:\n" ++
    String.intercalate "\n\n---\n\n" (passages evidence item)

def chatRequest (model : String) (blocks : List String) : ChatRequest where
  messages := [.obj [("role", .str "system"), ("content", .str system)],
    .obj [("role", .str "user"), ("content", .str (String.intercalate "\n\n====\n\n" blocks))]]
  model := model
  temperature := some ⟨"0", isNumber_zero⟩
  maxTokens := some ⟨"1200", by decide⟩
  tools := none
  responseFormat := some [("type", .str "json_object")]
  cacheable := false

/-- `str(v or "").strip()`. -/
def answerText (env : ReplyEnv) (value : Json) : String :=
  strip (if falsy value then ""
    else
      match value with
      | .str text => text
      | value => env.valueText value)

/-- `_parse`. -/
def parse (env : ReplyEnv) (raw : String) : Except Raised (List (String × String)) :=
  (replyObject env raw).map
    (fun data => Dict.update [] ((data.getD []).map (fun f => (f.1, answerText env f.2))))

/-- The answers of a reply that say something. -/
def given (answers : List (String × String)) : List (String × String) :=
  answers.filter (fun a => a.2 ≠ "")

/-! ## Drafting -/

/-- The items of a batch that have evidence. -/
def asked (evidence : List (String × String)) (batch : List EvalItem) : List EvalItem :=
  batch.filter (fun item => passages evidence item ≠ [])

/-- A call that came back: the items its prompt showed, and the answers of the reply. -/
structure Exchange where
  number : Nat
  shown : List EvalItem
  answers : List (String × String)
deriving DecidableEq

/-- What the loop has come to. -/
structure Progress where
  drafted : List (String × String)
  skippedNoEvidence : Nat
  attempted : Nat
deriving DecidableEq

/-- A batch without a reply counts as attempted too. -/
def Progress.after (p : Progress) (batch asked : List EvalItem) (e : Option Exchange) :
    Progress where
  drafted := match e with
    | some e => Dict.update p.drafted (given e.answers)
    | none => p.drafted
  skippedNoEvidence := p.skippedNoEvidence + (batch.length - asked.length)
  attempted := p.attempted + asked.length

section
variable (env : ReplyEnv) (provider : Provider) (model : String) (evidence : List (String × String))

/-- One batch: no call where none of its items has evidence, none that came back where the call
fails. -/
def exchange (n : Nat) (batch : List EvalItem) : Except Raised (Option Exchange) :=
  if provider.cancelled n then .error .runCancelled
  else if asked evidence batch = [] then .ok none
  else
    match provider.chat n (chatRequest model ((asked evidence batch).map (block evidence))) with
    | .error .runCancelled => .error .runCancelled
    | .error (.error _ _) => .ok none
    | .ok content =>
      (parse env content).map (fun answers => some ⟨n, asked evidence batch, answers⟩)

def draftLoop (n : Nat) (p : Progress) : List (List EvalItem) → Except Raised Progress
  | [] => .ok p
  | batch :: batches =>
    match exchange env provider model evidence n batch with
    | .error e => .error e
    | .ok e => draftLoop (n + 1) (p.after batch (asked evidence batch) e) batches

/-- The calls of the loop that came back. -/
def exchanges (n : Nat) : List (List EvalItem) → List Exchange
  | [] => []
  | batch :: batches =>
    match exchange env provider model evidence n batch with
    | .error _ => []
    | .ok e => e.toList ++ exchanges (n + 1) batches

end

structure DraftReport where
  drafted : List (String × String)
  model : String
  attempted : Nat
  skippedNoEvidence : Nat
  note : Option String
  pendingAfter : Option Nat
deriving DecidableEq

structure DraftCall where
  /-- The collection when the live build is looked up, and when its chunks are read. -/
  atLookup : Collection
  atRead : Collection
  labels : Labels
  limit : Int
  model : String
  items : List EvalItem

def DraftCall.pending (q : DraftCall) : List EvalItem :=
  (q.items.filter (pendingDraft q.labels)).take (limitOf q.limit)

def DraftCall.evidence (q : DraftCall) : List (String × String) :=
  evidenceTexts q.atLookup q.atRead (q.pending.flatMap EvalItem.mustCite)

def draft (env : ReplyEnv) (provider : Provider) (q : DraftCall) : Except Raised DraftReport :=
  if q.pending = [] then .ok ⟨[], q.model, 0, 0, some "nothing pending", none⟩
  else
    (draftLoop env provider q.model q.evidence 0 ⟨[], 0, 0⟩ (batches q.pending)).map (fun p =>
      ⟨p.drafted, q.model, p.attempted, p.skippedNoEvidence, none,
        some (q.pending.length - p.drafted.length)⟩)

/-! ## Filling in -/

def applyItem (drafted : List (String × String)) (item : EvalItem) : RawItem :=
  match (drafted.lookup item.id).filter (fun answer => item.blank && answer ≠ "") with
  | some answer => Dict.setItem item.toDict "expected_answer" (.str answer)
  | none => item.toDict

def apply (items : List EvalItem) (drafted : List (String × String)) : List RawItem :=
  items.map (applyItem drafted)

/-! ## Who answered -/

/-- The last exchange with an answer to this id. -/
def answeredBy (es : List Exchange) (id : String) : Option Exchange :=
  es.reverse.find? (fun e => ((given e.answers).lookup id).isSome)

variable {env : ReplyEnv} {provider : Provider} {model : String} {evidence : List (String × String)}
  {item : EvalItem} {es : List Exchange}

/-- What a loop that ends has drafted is what the replies said, the last of them first. -/
theorem drafted_draftLoop {n : Nat} {p p' : Progress} {bs : List (List EvalItem)}
    (h : draftLoop env provider model evidence n p bs = .ok p') :
    p'.drafted = ((exchanges env provider model evidence n bs).map (fun e => given e.answers)).foldl
      Dict.update p.drafted := by
  induction bs generalizing n p with
  | nil =>
    cases h
    rfl
  | cons batch bs ih =>
    unfold draftLoop at h
    unfold exchanges
    split at h
    · cases h
    · rename_i e he
      rw [ih h]
      cases e with
      | none => rfl
      | some e => rfl

/-- What was shown, and what came back. -/
structure Exchange.Real (env : ReplyEnv) (provider : Provider) (model : String)
    (evidence : List (String × String)) (bs : List (List EvalItem)) (e : Exchange) : Prop where
  shown : ∃ batch ∈ bs, e.shown = asked evidence batch
  reply : ∃ content,
    provider.chat e.number (chatRequest model (e.shown.map (block evidence))) = .ok content ∧
    parse env content = .ok e.answers

/-- A batch that comes to something: it was not cancelled, and there is an exchange exactly where
an item has evidence and the call does not fail. -/
theorem exchange_cases {n : Nat} {batch : List EvalItem} {e : Option Exchange}
    (h : exchange env provider model evidence n batch = .ok e) :
    (asked evidence batch = [] ∧ e = none) ∨
      (asked evidence batch ≠ [] ∧ (∃ name message, provider.chat n (chatRequest model
        ((asked evidence batch).map (block evidence))) = .error (.error name message)) ∧ e = none) ∨
      (asked evidence batch ≠ [] ∧ ∃ content answers,
        provider.chat n (chatRequest model ((asked evidence batch).map (block evidence))) =
        .ok content ∧
        parse env content = .ok answers ∧ e = some ⟨n, asked evidence batch, answers⟩) := by
  unfold exchange at h
  split at h
  · cases h
  · split at h
    · rename_i hnone
      cases h
      exact Or.inl ⟨hnone, rfl⟩
    · rename_i hsome
      split at h
      · cases h
      · rename_i name message hchat
        cases h
        exact Or.inr (Or.inl ⟨hsome, ⟨name, message, hchat⟩, rfl⟩)
      · rename_i content hchat
        obtain ⟨answers, hparse, rfl⟩ := map_eq_ok h
        exact Or.inr (Or.inr ⟨hsome, content, answers, hchat, hparse, rfl⟩)

theorem real_exchanges {n : Nat} {bs : List (List EvalItem)} {e : Exchange}
    (h : e ∈ exchanges env provider model evidence n bs) :
    e.Real env provider model evidence bs := by
  induction bs generalizing n with
  | nil => cases h
  | cons batch bs ih =>
    unfold exchanges at h
    split at h
    · cases h
    · rename_i x hx
      rcases List.mem_append.mp h with hfirst | hlater
      · rcases exchange_cases hx with ⟨-, rfl⟩ | ⟨-, -, rfl⟩ |
          ⟨-, content, answers, hchat, hparse, rfl⟩
        · cases hfirst
        · cases hfirst
        · obtain rfl := List.mem_singleton.mp hfirst
          exact ⟨⟨batch, List.mem_cons_self, rfl⟩, content, hchat, hparse⟩
      · obtain ⟨⟨b, hb, hshown⟩, hreply⟩ := ih hlater
        exact ⟨⟨b, List.mem_cons_of_mem batch hb, hshown⟩, hreply⟩

/-! ## What an answer is -/

theorem nodup_parse {raw : String} {answers : List (String × String)}
    (h : parse env raw = .ok answers) : (answers.map Prod.fst).Nodup := by
  obtain ⟨data, -, rfl⟩ := map_eq_ok h
  have hnil : (([] : List (String × String)).map Prod.fst).Nodup := List.nodup_nil
  exact Dict.nodup_update hnil _

theorem nodup_given {answers : List (String × String)} (h : (answers.map Prod.fst).Nodup) :
    ((given answers).map Prod.fst).Nodup := h.sublist (List.filter_sublist.map _)

/-- White space around an answer is gone. -/
theorem strip_parse {raw id answer : String} {answers : List (String × String)}
    (hparse : parse env raw = .ok answers) (h : (id, answer) ∈ answers) :
    strip answer = answer := by
  have hlookup := (Dict.lookup_eq_some_iff_mem (nodup_parse hparse)).mpr h
  obtain ⟨data, -, rfl⟩ := map_eq_ok hparse
  rcases Dict.mem_of_lookup_update hlookup with hfield | hnone
  · obtain ⟨f, -, hf⟩ := List.mem_map.mp hfield
    cases hf
    exact strip_strip _
  · cases hnone

/-- An answer that counts says something, without white space around it. -/
theorem given_text {raw id answer : String} {answers : List (String × String)}
    (hparse : parse env raw = .ok answers) (h : (given answers).lookup id = some answer) :
    answer ≠ "" ∧ strip answer = answer := by
  have hmem := (Dict.lookup_eq_some_iff_mem (nodup_given (nodup_parse hparse))).mp h
  obtain ⟨hanswer, hne⟩ := List.mem_filter.mp hmem
  exact ⟨by simpa using hne, strip_parse hparse hanswer⟩

/-- What is drafted for an id is what the last exchange with an answer to it says. -/
theorem lookup_drafted (hes : ∀ e ∈ es, (e.answers.map Prod.fst).Nodup) (id : String) :
    ((es.map (fun e => given e.answers)).foldl Dict.update []).lookup id =
      (answeredBy es id).bind (fun e => (given e.answers).lookup id) := by
  have hnodup : ∀ o ∈ es.map (fun e => given e.answers), (o.map Prod.fst).Nodup := by
    intro o ho
    obtain ⟨e, he, rfl⟩ := List.mem_map.mp ho
    exact nodup_given (hes e he)
  rw [Dict.lookup_updates hnodup, List.lookup_nil, Option.or_none, ← List.map_reverse,
    List.findSome?_map]
  exact findSome?_eq_bind_find? _ _

/-! ## What an item is shown with -/

/-- A passage is the text of a chunk of the live build that the item cites. -/
theorem live_passage {atLookup atRead : Collection} {ids : List String}
    (h : passages (evidenceTexts atLookup atRead ids) item ≠ []) :
    ∃ v, atLookup.liveVersion = some v ∧
      ∃ row ∈ atRead.chunksOf v, row.canonicalId ∈ item.mustCite ∧
      row.text ∈ passages (evidenceTexts atLookup atRead ids) item := by
  obtain ⟨text, htext⟩ := List.exists_mem_of_ne_nil _ h
  obtain ⟨cid, hcid, hlookup⟩ := List.mem_filterMap.mp htext
  have hfound := hlookup
  unfold evidenceTexts at hfound
  split at hfound
  · cases hfound
  · rename_i v hv
    refine ⟨v, hv, ?_⟩
    rcases Dict.mem_of_lookup_update hfound with hmem | hnone
    · obtain ⟨row, hrow, hpair⟩ := List.mem_map.mp hmem
      cases hpair
      exact ⟨row, (List.mem_filter.mp hrow).1, hcid, htext⟩
    · cases hnone

variable {q : DraftCall} {report : DraftReport}

theorem DraftCall.pending_of_batch {batch : List EvalItem} (hbatch : batch ∈ batches q.pending)
    (hitem : item ∈ batch) : item ∈ q.pending := by
  rw [← flatten_batches q.pending]
  exact List.mem_flatten_of_mem hbatch hitem

theorem DraftCall.pendingDraft_of_mem (h : item ∈ q.pending) :
    item.blank = true ∧ q.labels.humanAuthored item.id = false ∧
      q.labels.unusable item.id = false := by
  obtain ⟨-, hpending⟩ := List.mem_filter.mp (List.mem_of_mem_take h)
  simpa [pendingDraft, Labels.humanAuthored, Labels.unusable, and_assoc] using hpending

/-! ## Answered as shown -/

def DraftCall.exchanges (env : ReplyEnv) (provider : Provider) (q : DraftCall) : List Exchange :=
  AnnotatorCalls.exchanges env provider q.model q.evidence 0 (batches q.pending)

/-- An item the annotator was to answer, was shown with evidence, and answered where it was
shown. -/
structure Shown (env : ReplyEnv) (provider : Provider) (q : DraftCall) (item : EvalItem)
    (payload : RawItem) : Prop where
  blank : item.blank = true
  notHuman : q.labels.humanAuthored item.id = false
  usable : q.labels.unusable item.id = false
  pending : item ∈ q.pending
  evidence : ∃ v, q.atLookup.liveVersion = some v ∧ ∃ row ∈ q.atRead.chunksOf v,
    row.canonicalId ∈ item.mustCite ∧ row.text ∈ passages q.evidence item
  answered : ∃ e, answeredBy (q.exchanges env provider) item.id = some e ∧ item ∈ e.shown ∧
    (∃ content, provider.chat e.number (chatRequest q.model (e.shown.map (block q.evidence))) =
      .ok content ∧ parse env content = .ok e.answers) ∧ ∃ answer,
    e.answers.lookup item.id = some answer ∧ payload.lookup "expected_answer" = some (.str answer)

theorem drafted_eq (h : draft env provider q = .ok report) (id : String) :
    report.drafted.lookup id =
      (answeredBy (q.exchanges env provider) id).bind (fun e => (given e.answers).lookup id) := by
  have hnodup : ∀ e ∈ q.exchanges env provider, (e.answers.map Prod.fst).Nodup := by
    intro e he
    obtain ⟨content, -, hparse⟩ := (real_exchanges he).reply
    exact nodup_parse hparse
  rw [← lookup_drafted hnodup]
  unfold draft at h
  split at h
  · rename_i hnone
    cases h
    rw [DraftCall.exchanges, hnone]
    rfl
  · obtain ⟨p, hp, rfl⟩ := map_eq_ok h
    rw [drafted_draftLoop hp]
    rfl

/-- The exchange that answered an id has said something about it. -/
theorem answeredBy_eq_some {e : Exchange} {id : String} (h : answeredBy es id = some e) :
    e ∈ es ∧ ∃ answer, (given e.answers).lookup id = some answer := by
  refine ⟨List.mem_reverse.mp (List.mem_of_find?_eq_some h), ?_⟩
  have hfound := List.find?_some h
  exact Option.isSome_iff_exists.mp hfound

/-- A blank item that an exchange has answered is filled in with what it said. -/
theorem applyItem_answered (h : draft env provider q = .ok report) (hblank : item.blank = true)
    {e : Exchange} {answer : String} (he : answeredBy (q.exchanges env provider) item.id = some e)
    (hanswer : (given e.answers).lookup item.id = some answer) :
    answer ≠ item.expectedAnswer ∧
      (applyItem report.drafted item).lookup "expected_answer" = some (.str answer) := by
  obtain ⟨content, -, hparse⟩ := (real_exchanges (answeredBy_eq_some he).1).reply
  obtain ⟨hne, hstrip⟩ := given_text hparse hanswer
  have hlookup : report.drafted.lookup item.id = some answer := by
    rw [drafted_eq h, he]
    exact hanswer
  constructor
  · rintro rfl
    exact hne (hstrip.symm.trans (of_decide_eq_true hblank))
  · rw [applyItem, hlookup, Option.filter_some_pos (by simp [hblank, hne])]
    simp

/-- Nothing else is touched. -/
theorem applyItem_untouched (h : draft env provider q = .ok report)
    (hnone : item.blank = true → answeredBy (q.exchanges env provider) item.id = none) :
    (applyItem report.drafted item).lookup "expected_answer" = some (.str item.expectedAnswer) := by
  have hfilter : (report.drafted.lookup item.id).filter (fun answer => item.blank && answer ≠ "") =
      none := by
    cases hblank : item.blank with
    | false => simp
    | true => rw [drafted_eq h, hnone hblank]; rfl
  rw [applyItem, hfilter]
  rfl

/-- An item that was shown where it was answered. -/
theorem shown_of_mem (h : draft env provider q = .ok report) (hblank : item.blank = true)
    {e : Exchange} (he : answeredBy (q.exchanges env provider) item.id = some e)
    (hin : item ∈ e.shown) : Shown env provider q item (applyItem report.drafted item) := by
  obtain ⟨hmem, answer, hanswer⟩ := answeredBy_eq_some he
  obtain ⟨-, hfilled⟩ := applyItem_answered h hblank he hanswer
  have hreal := real_exchanges hmem
  obtain ⟨batch, hbatch, hasked⟩ := hreal.shown
  obtain ⟨content, hchat, hparse⟩ := hreal.reply
  obtain ⟨hinBatch, hpassages⟩ := List.mem_filter.mp (hasked ▸ hin)
  have hpending := DraftCall.pending_of_batch hbatch hinBatch
  obtain ⟨-, hhuman, husable⟩ := DraftCall.pendingDraft_of_mem hpending
  have hlookup : e.answers.lookup item.id = some answer := by
    have hgiven := (Dict.lookup_eq_some_iff_mem (nodup_given (nodup_parse hparse))).mp hanswer
    exact (Dict.lookup_eq_some_iff_mem (nodup_parse hparse)).mpr (List.mem_filter.mp hgiven).1
  exact ⟨hblank, hhuman, husable, hpending, live_passage (of_decide_eq_true hpassages),
    e, he, hin, ⟨content, hchat, hparse⟩, answer, hlookup, hfilled⟩

/-- The items that a draft changes are all pending, shown with evidence and answered where they
were shown, exactly where no blank item got its last answer from an exchange that did not show
it. -/
theorem annotator_answers_shown_iff (h : draft env provider q = .ok report) :
    (∀ p ∈ q.items.zip (apply q.items report.drafted),
      p.2.lookup "expected_answer" ≠ some (.str p.1.expectedAnswer) →
      Shown env provider q p.1 p.2) ↔
      ∀ item ∈ q.items, item.blank = true →
      ∀ e, answeredBy (q.exchanges env provider) item.id = some e → item ∈ e.shown := by
  have hzip : q.items.zip (apply q.items report.drafted) =
      q.items.map (fun item => (item, applyItem report.drafted item)) := by
    rw [apply, ← List.zip_map', List.map_id']
  rw [hzip, List.forall_mem_map]
  constructor
  · intro hshown item hitem hblank e he
    obtain ⟨-, answer, hanswer⟩ := answeredBy_eq_some he
    obtain ⟨hne, hfilled⟩ := applyItem_answered h hblank he hanswer
    have hchanged : (applyItem report.drafted item).lookup "expected_answer" ≠
        some (.str item.expectedAnswer) := by
      rw [hfilled]
      simpa using hne
    obtain ⟨e', he', hin, -⟩ := (hshown item hitem hchanged).answered
    rw [he] at he'
    cases he'
    exact hin
  · intro hcond item hitem hchanged
    have hblank : item.blank = true := by
      by_contra hnot
      exact hchanged (applyItem_untouched h (fun hblank => absurd hblank hnot))
    cases he : answeredBy (q.exchanges env provider) item.id with
    | none => exact absurd (applyItem_untouched h (fun _ => he)) hchanged
    | some e => exact shown_of_mem h hblank he (hcond item hitem hblank e he)

/-! ## The annotator of the routes -/

/-- The annotator that one request meets, where the provider answers alike at every call. -/
def DraftCall.annotator (env : ReplyEnv) (provider : Provider) (q : DraftCall) : Annotator where
  model := q.model
  passages := passages q.evidence
  reply := fun blocks =>
    match provider.chat 0 (chatRequest q.model (blocks.map (fun b => block q.evidence b.1))) with
    | .ok content => (parse env content).toOption.getD []
    | .error _ => []

/-- One batch comes to the same. -/
theorem draftBatch_annotator
    (halike : ∀ n request, provider.chat n request = provider.chat 0 request) {n : Nat}
    {batch : List EvalItem} {e : Option Exchange}
    (h : exchange env provider q.model q.evidence n batch = .ok e) (p : Progress) :
    draftBatch (q.annotator env provider) p.drafted batch =
      (p.after batch (asked q.evidence batch) e).drafted := by
  have hblocks : (q.annotator env provider).blocks batch =
      (asked q.evidence batch).map (fun item => (item, passages q.evidence item)) := List.filter_map
  have hshown : ((asked q.evidence batch).map (fun item => (item, passages q.evidence item))).map
      (fun b => block q.evidence b.1) =
      (asked q.evidence batch).map (block q.evidence) := List.map_map
  have hreply : (q.annotator env provider).reply
    ((asked q.evidence batch).map (fun item => (item, passages q.evidence item))) =
      match provider.chat n
          (chatRequest q.model ((asked q.evidence batch).map (block q.evidence))) with
      | .ok content => (parse env content).toOption.getD []
      | .error _ => [] := by
    rw [halike n, ← hshown]
    rfl
  simp only [draftBatch, hblocks, hreply, List.map_eq_nil_iff]
  rcases exchange_cases h with ⟨hnone, rfl⟩ | ⟨hsome, ⟨name, message, hchat⟩, rfl⟩ |
    ⟨hsome, content, answers, hchat, hparse, rfl⟩
  · rw [if_pos hnone]
    rfl
  · rw [if_neg hsome, hchat]
    rfl
  · have hstrip : answers.map (fun a => (a.1, strip a.2)) = answers := by
      refine (List.map_congr_left (fun a ha => ?_)).trans (List.map_id answers)
      exact Prod.ext rfl (strip_parse hparse ha)
    rw [if_neg hsome, hchat]
    simp only [hparse, Except.toOption, Option.getD_some, hstrip]
    rfl

/-- The proposals of a request are those of this loop. -/
theorem drafted_eq_proposals
    (halike : ∀ n request, provider.chat n request = provider.chat 0 request) {r : DraftRequest}
    (hlimit : q.limit = r.limit.val) {d : Dataset} (hd : d.items = q.items) {labels : LabelTable}
    (hlabels : q.labels = forDataset labels r.tenantId r.name)
    (h : draft env provider q = .ok report) :
    report.drafted = r.proposals (q.annotator env provider) labels d := by
  have hloop : ∀ {n p p'} {bs : List (List EvalItem)},
      draftLoop env provider q.model q.evidence n p bs = .ok p' →
      p'.drafted = bs.foldl (draftBatch (q.annotator env provider)) p.drafted := by
    intro n p p' bs hbs
    induction bs generalizing n p with
    | nil =>
      cases hbs
      rfl
    | cons batch bs ih =>
      unfold draftLoop at hbs
      split at hbs
      · cases hbs
      · rename_i e he
        rw [ih hbs, List.foldl_cons, draftBatch_annotator halike he]
  have hpending : pendingItems q.labels d r.limit.val = q.pending := by
    obtain ⟨hone, hfifty⟩ := r.limit.property
    have htaken : limitOf q.limit = max 1 (min r.limit.val maxDrafts) := by
      rw [hlimit, limitOf, maxItems, maxDrafts]
      omega
    rw [DraftCall.pending, pendingItems, hd, htaken]
  rw [DraftRequest.proposals, Gates.draft, ← hlabels, hpending]
  unfold draft at h
  split at h
  · rename_i hnone
    cases h
    rw [hnone]
    rfl
  · obtain ⟨p, hp, rfl⟩ := map_eq_ok h
    exact hloop hp

/-- And so is what is filled in. -/
theorem applyItem_eq_filled (drafted : List (String × String)) (item : EvalItem) :
    applyItem drafted item = (item.filled drafted).toDict := by
  unfold applyItem EvalItem.filled proposalFor
  cases hblank : item.blank with
  | false => simp
  | true =>
    simp only [Bool.true_and, if_true]
    cases (drafted.lookup item.id).filter (fun answer => answer ≠ "") with
    | none => rfl
    | some answer => rfl

/-! A live build of one chunk and two questions without an answer, one of them left so by a
reviewer. -/

def torqueCorpus : Collection where
  builds := ⟨[⟨1, .live, 1, none, none, some 0, 1⟩], by decide⟩
  chunks := ⟨[⟨1, "c_0123ab", 0, 1, "The torque is 5 Nm.", [1], "e1", .emptyObj, 1⟩], by decide⟩
  one_live := by decide

def torqueAndLimit : List EvalItem :=
  [⟨"q1", "Which torque?", "", ["c_0123ab"]⟩, ⟨"q2", "Which limit?", "", ["c_0123ab"]⟩]

def limitReviewed : Labels := fun id =>
  if id = "q2" then some { newLabel ⟨1, "pumps", "q2"⟩ (by decide) with answerSource := .smeEdited }
  else none

def draftTorque : DraftCall :=
  ⟨torqueCorpus, torqueCorpus, limitReviewed, 15, "gpt-4.1", torqueAndLimit⟩

def replying (text : String) : Provider := ⟨fun _ => false, fun _ _ => .ok text⟩

def torqueReply : Provider := replying "\x7b\"q1\":\"5 Nm\"\x7d"

/-- The annotator was shown the first question only, and answers both. -/
def bothReply : Provider := replying "\x7b\"q1\":\"5 Nm\",\"q2\":\"6 Nm\"\x7d"

theorem annotator_answers_shown_torqueReply :
    draft compactReplies torqueReply draftTorque =
      .ok ⟨[("q1", "5 Nm")], "gpt-4.1", 1, 0, none, some 0⟩ ∧
      ∀ p ∈ torqueAndLimit.zip (apply torqueAndLimit [("q1", "5 Nm")]),
      p.2.lookup "expected_answer" ≠ some (.str p.1.expectedAnswer) →
      Shown compactReplies torqueReply draftTorque p.1 p.2 := by
  have hdraft : draft compactReplies torqueReply draftTorque =
      .ok ⟨[("q1", "5 Nm")], "gpt-4.1", 1, 0, none, some 0⟩ := by
    decide +kernel
  have hshown : ∀ item ∈ torqueAndLimit,
      (answeredBy (draftTorque.exchanges compactReplies torqueReply) item.id).all
      (fun e => item ∈ e.shown) = true := by decide +kernel
  refine ⟨hdraft, (annotator_answers_shown_iff hdraft).mpr ?_⟩
  intro item hitem _ e he
  simpa [he] using hshown item hitem

theorem annotator_answers_for_reviewer :
    draftTorque.labels.humanAuthored "q2" = true ∧
      ∃ report, draft compactReplies bothReply draftTorque = .ok report ∧
      ¬ ∀ p ∈ torqueAndLimit.zip (apply torqueAndLimit report.drafted),
      p.2.lookup "expected_answer" ≠ some (.str p.1.expectedAnswer) →
      Shown compactReplies bothReply draftTorque p.1 p.2 := by
  have hdraft : draft compactReplies bothReply draftTorque =
      .ok ⟨[("q1", "5 Nm"), ("q2", "6 Nm")], "gpt-4.1", 1, 0, none, some 0⟩ := by decide +kernel
  have hreviewed : draftTorque.labels.humanAuthored "q2" = true := by decide +kernel
  have hmem : ((⟨"q2", "Which limit?", "", ["c_0123ab"]⟩ : EvalItem),
      (⟨"q2", "Which limit?", "6 Nm", ["c_0123ab"]⟩ : EvalItem).toDict) ∈
      torqueAndLimit.zip (apply torqueAndLimit [("q1", "5 Nm"), ("q2", "6 Nm")]) := by
    decide +kernel
  refine ⟨hreviewed, _, hdraft, ?_⟩
  intro hall
  have hhuman := (hall _ hmem (by decide +kernel)).notHuman
  rw [hreviewed] at hhuman
  cases hhuman

end AgenticPlatform.Gates.AnnotatorCalls
