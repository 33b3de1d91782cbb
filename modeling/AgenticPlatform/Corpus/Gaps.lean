import AgenticPlatform.Foundation.Table
import AgenticPlatform.Foundation.Words
import AgenticPlatform.Identity.Principal
import AgenticPlatform.Settings

/-!
# Questions the corpus could not answer

The rows of `unanswered_question`, one for each tenant, collection and normalised question.
Asking again counts; seeding a dataset marks; the retention pass deletes what has neither
been seeded nor asked for a while. What is a letter and what is its lower case are
parameters, as is what the columns and the index refuse to store.
-/
namespace AgenticPlatform.Corpus
open AgenticPlatform.Foundation AgenticPlatform.Identity

structure GapEnv where
  /-- `\w`. -/
  isWord : Char → Bool
  /-- `str.lower`, which looks at the characters around a character. -/
  lower : List Char → List Char
  /-- Whether an insert of the collection, the question, its key and the mode raises nothing. -/
  storable : String → String → String → String → Bool

/-! ## When two questions are one -/

/-- `[^\w\s-]`. -/
def isPunct (env : GapEnv) (c : Char) : Bool := !env.isWord c && !isSpace c && c ≠ '-'

def lowered (env : GapEnv) (question : String) : List Char := env.lower (stripChars question.toList)

def normalise (env : GapEnv) (question : String) : String :=
  String.ofList (stripChars
    (subRuns isSpace ' ' (subRuns (isPunct env) ' ' (lowered env question))))

/-- The words of a question. -/
def questionWords (env : GapEnv) (question : String) : List (List Char) :=
  words (fun c => env.isWord c || c = '-') (lowered env question)

/-- What is documented of the two tables. -/
structure GapEnv.Lawful (env : GapEnv) : Prop where
  word_not_space : ∀ c, env.isWord c = true → isSpace c = false
  /-- A text of lower-case characters and blanks is its own lower case. -/
  lower_lowered : ∀ cs ds, (∀ c ∈ ds, c ∈ env.lower cs ∨ c = ' ') → env.lower ds = ds

section
variable {env : GapEnv}

/-- The key is the words with a blank between them. -/
theorem normalise_eq (h : env.Lawful) (question : String) :
    normalise env question = String.ofList ([' '].intercalate (questionWords env question)) := by
  have hkind : ∀ c, (!isSpace c && !isPunct env c) = (env.isWord c || decide (c = '-')) := by
    intro c
    have hspace := h.word_not_space c
    by_cases hdash : c = '-'
    · subst hdash
      simp [isPunct, show isSpace '-' = false from rfl]
    · cases hword : env.isWord c <;> cases hs : isSpace c <;> simp_all [isPunct]
  rw [normalise, stripChars_subRuns, words_subRuns (q := fun c => !isSpace c) rfl, questionWords]
  simp only [hkind]

theorem mem_questionWords {w : List Char} {question : String} (h : w ∈ questionWords env question) :
    w ≠ [] ∧ ∀ c ∈ w, (env.isWord c || c = '-') = true :=
  mem_words h

theorem word_space (h : env.Lawful) {c : Char} (hc : (env.isWord c || decide (c = '-')) = true) :
    isSpace c = false := by
  rcases Bool.or_eq_true _ _ ▸ hc with hword | hdash
  · exact h.word_not_space c hword
  · cases of_decide_eq_true hdash
    rfl

/-- Two questions are one exactly where they have the same words. -/
theorem normalise_inj (h : env.Lawful) {question question' : String} :
    normalise env question = normalise env question' ↔
      questionWords env question = questionWords env question' := by
  rw [normalise_eq h, normalise_eq h, String.ofList_inj]
  constructor
  · intro heq
    have hwords : ∀ q, words (fun c => !isSpace c) ([' '].intercalate (questionWords env q)) =
        questionWords env q := by
      intro q
      refine words_intercalate rfl (fun w hw => (mem_questionWords hw).1) ?_
      intro w hw c hc
      rw [word_space h ((mem_questionWords hw).2 c hc)]
      rfl
    rw [← hwords question, heq, hwords question']
  · exact fun heq => by rw [heq]

/-- The key of a key is the key. -/
theorem normalise_normalise (h : env.Lawful) (question : String) :
    normalise env (normalise env question) = normalise env question := by
  rw [normalise_inj h, questionWords, lowered, normalise_eq h, String.toList_ofList]
  have hspace : ∀ w ∈ questionWords env question, ∀ c ∈ w, isSpace c = false :=
    fun w hw c hc => word_space h ((mem_questionWords hw).2 c hc)
  have hblank : env.isWord ' ' = false := by
    cases hword : env.isWord ' ' with
    | false => rfl
    | true => exact absurd (h.word_not_space ' ' hword) (by decide)
  rw [stripChars_intercalate (fun w hw => (mem_questionWords hw).1) hspace]
  -- every character of it comes out of `lower`, or is a blank
  have hchars : ∀ c ∈ [' '].intercalate (questionWords env question), c ∈ lowered env question ∨
      c = ' ' := by
    intro c hc
    rcases mem_intercalate hc with hsep | ⟨w, hw, hcw⟩
    · exact Or.inr (List.mem_singleton.mp hsep)
    · exact Or.inl (mem_of_mem_words hw hcw)
  rw [h.lower_lowered _ _ hchars]
  exact words_intercalate (by simp [hblank]) (fun w hw => (mem_questionWords hw).1)
    (fun w hw => (mem_questionWords hw).2)

end

/-! ## The table -/

/-- The columns `seeded_into` and `seeded_at`, which are NULL together. -/
structure Seeding where
  into : String
  at_ : Time
deriving DecidableEq

structure GapKey where
  tenantId : Uuid
  collection : String
  questionKey : String
deriving DecidableEq

structure GapRow where
  id : Uuid
  tenantId : Uuid
  collection : String
  question : String
  questionKey : String
  mode : String
  occurrences : Nat
  firstAskedAt : Time
  lastAskedAt : Time
  lastAskedBy : Uuid
  seeded : Option Seeding
deriving DecidableEq

def GapRow.key (r : GapRow) : GapKey := ⟨r.tenantId, r.collection, r.questionKey⟩

abbrev GapTable := Table GapRow GapRow.key

/-- A call of `record`, with the `now()` of its transaction and the id that is generated. -/
structure Ask where
  ctx : RequestContext
  collection : String
  question : String
  mode : String
  now : Time
  newId : Uuid

def Ask.key (env : GapEnv) (a : Ask) : GapKey :=
  ⟨a.ctx.tenant.id, a.collection, normalise env a.question⟩

/-- `question.strip()[:MAX_QUESTION_CHARS]`. -/
def Ask.stored (a : Ask) : String := String.ofList ((stripChars a.question.toList).take 2000)

def newGap (env : GapEnv) (a : Ask) : GapRow where
  id := a.newId
  tenantId := a.ctx.tenant.id
  collection := a.collection
  question := a.stored
  questionKey := normalise env a.question
  mode := a.mode
  occurrences := 1
  firstAskedAt := a.now
  lastAskedAt := a.now
  lastAskedBy := a.ctx.principal.id
  seeded := none

def GapRow.askedAgain (a : Ask) (r : GapRow) : GapRow :=
  { r with
    occurrences := r.occurrences + 1, lastAskedAt := a.now, lastAskedBy := a.ctx.principal.id,
    mode := a.mode }

theorem GapRow.key_askedAgain (a : Ask) (r : GapRow) : (r.askedAgain a).key = r.key := rfl

/-- The INSERT … ON CONFLICT DO UPDATE; `none` where it raises. The column of the count is
an `integer`. -/
def upsertGap (env : GapEnv) (t : GapTable) (a : Ask) : Option GapTable :=
  if env.storable a.collection a.stored (normalise env a.question) a.mode then
    match t.get (a.key env) with
    | some r =>
      if r.occurrences + 1 < 2 ^ 31 then some (t.updateWhere (fun r' => r'.key = a.key env)
        (GapRow.askedAgain a) (GapRow.key_askedAgain a))
      else none
    | none => if a.newId ∈ t.rows.map GapRow.id then none else t.tryInsert (newGap env a)
  else none

/-- Note that the corpus had nothing for this. What the database raises is swallowed. -/
def record (env : GapEnv) (t : GapTable) (a : Ask) : GapTable :=
  if normalise env a.question = "" then t else (upsertGap env t a).getD t

/-- WHERE of the backlog: an empty collection does not narrow it. -/
def GapRow.listed (r : GapRow) (tenantId : Uuid) (collection : Option String)
    (includeSeeded : Bool) : Prop :=
  r.tenantId = tenantId ∧ (includeSeeded = true ∨ r.seeded = none) ∧
    ∀ c ∈ collection, c ≠ "" → r.collection = c

instance (r : GapRow) (tenantId : Uuid) (collection : Option String) (includeSeeded : Bool) :
    Decidable (r.listed tenantId collection includeSeeded) :=
  inferInstanceAs (Decidable (_ ∧ _ ∧ ∀ c ∈ collection, _))

/-- ORDER BY occurrences DESC, last_asked_at DESC. -/
def GapRow.before (r r' : GapRow) : Prop :=
  r'.occurrences < r.occurrences ∨ r'.occurrences = r.occurrences ∧ r'.lastAskedAt ≤ r.lastAskedAt

instance (r r' : GapRow) : Decidable (r.before r') := inferInstanceAs (Decidable (_ ∨ _))

/-- What `backlog` may return: rows that share both come in any order. -/
structure Backlog (t : GapTable) (tenantId : Uuid) (collection : Option String)
    (includeSeeded : Bool) (limit : Nat) (out : List GapRow) : Prop where
  nodup : out.Nodup
  listed : ∀ r ∈ out, r ∈ t.rows ∧ r.listed tenantId collection includeSeeded
  ordered : out.Pairwise GapRow.before
  short : out.length ≤ limit
  /-- What is left out comes after what is there, and is left out for the limit only. -/
  rest : ∀ r ∈ t.rows, r.listed tenantId collection includeSeeded → r ∉ out → out.length = limit ∧
    ∀ r' ∈ out, r'.before r

def GapRow.seededInto (datasetName : String) (now : Time) (r : GapRow) : GapRow :=
  { r with seeded := some ⟨datasetName, now⟩ }

theorem GapRow.key_seededInto (datasetName : String) (now : Time) (r : GapRow) :
    (r.seededInto datasetName now).key = r.key :=
  rfl

/-- `mark_seeded`, with the number of rows. -/
def markSeeded (t : GapTable) (tenantId : Uuid) (ids : List Uuid) (datasetName : String)
    (now : Time) : GapTable × Nat :=
  if ids = [] then (t, 0)
  else
    (t.updateWhere (fun r => r.tenantId = tenantId ∧ r.id ∈ ids ∧ r.seeded = none)
      (GapRow.seededInto datasetName now) (GapRow.key_seededInto datasetName now),
      (t.rows.filter (fun r => r.tenantId = tenantId ∧ r.id ∈ ids ∧ r.seeded = none)).length)

/-- `platform_purge_unanswered_questions`, of every tenant; `none` where it raises. -/
def purgeGaps (t : GapTable) (days : Int) (now : Time) : Option GapTable :=
  if days < 1 ∨ 3650 < days then none
  else some (t.deleteWhere (fun r => r.seeded = none ∧ r.lastAskedAt < now - 86400 * days))

end AgenticPlatform.Corpus
