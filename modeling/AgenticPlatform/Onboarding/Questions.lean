import AgenticPlatform.Corpus.Chunking
import AgenticPlatform.Foundation.JsonInteger
import AgenticPlatform.Gates.DatasetGrammar
import AgenticPlatform.Onboarding.Curation

/-!
# The questions of a draft

The engine proposes questions with the chunks they were drawn from. A draft stores them
under ids of its own, with the chunks the corpus does contain, and approves none. What is
said of a stored question names the requests that made it so.
-/
namespace AgenticPlatform.Onboarding
open AgenticPlatform.Foundation AgenticPlatform.Corpus AgenticPlatform.Gates

/-! ## Proposals -/

/-- What the engine proposes. -/
structure CandidateQuery where
  text : String
  evidenceChunkIds : List String
  sourceFile : String
  page : Option Int
  suggestedEntityHints : List String

/-- A chunk as `load_documents` gives it. That its id is the one of its text is a condition on
the rows of the live build: `chunk_document` writes them so, and `load_documents` does not look. -/
structure DraftDocument {τ : Type} (env : ChunkingEnv τ) where
  chunkId : String
  text : String
  id_eq : chunkId = canonicalId env text.toList

def queryId (index : Nat) : String := String.ofList ('q' :: Nat.toDigits 10 index)

section
variable {τ : Type} {env : ChunkingEnv τ}

/-- The evidence that the corpus does contain. -/
def citedChunks (documents : List (DraftDocument env)) (q : CandidateQuery) : List String :=
  q.evidenceChunkIds.filter (fun id => id ∈ documents.map DraftDocument.chunkId)

def proposal (documents : List (DraftDocument env)) (index : Nat) (q : CandidateQuery) :
    List (String × Json) :=
  [("id", .str (queryId index)), ("text", .str q.text),
    ("evidence_chunk_ids", .arr ((citedChunks documents q).map Json.str)),
    ("source_file", .str q.sourceFile),
    ("page", (q.page.map (fun page => Json.num (.ofInt page))).getD .null),
    ("entity_hints", .arr (q.suggestedEntityHints.map Json.str)), ("approved", .bool false),
    ("edited", .bool false)]

/-- The questions with the text of the error, where the engine raises one. -/
def proposeQueries (documents : List (DraftDocument env))
    (proposed : Except String (List CandidateQuery)) :
    List (List (String × Json)) × Option String :=
  if documents.isEmpty then ([], none)
  else
    match proposed with
    | .error message => ([], some message)
    | .ok queries => (queries.zipIdx.map (fun x => proposal documents x.2 x.1), none)

/-- The artifact, where there are questions. -/
def questionsPayload (proposed : List (List (String × Json)) × Option String) : Option Json :=
  if proposed.1.isEmpty then none else some (.obj [("queries", .arr (proposed.1.map Json.obj))])

end

theorem queryId_injective : Function.Injective queryId := by
  intro i j h
  have hdigits : Nat.toDigits 10 i = Nat.toDigits 10 j :=
    (List.cons.inj (String.ofList_injective h)).2
  calc
    i = Nat.ofDigitChars 10 (Nat.toDigits 10 i) 0 := Nat.ofDigitChars_ten_toDigits.symm
    _ = Nat.ofDigitChars 10 (Nat.toDigits 10 j) 0 := by rw [hdigits]
    _ = j := Nat.ofDigitChars_ten_toDigits

/-! ## What is stored -/

/-- The words of the proposal, or of a request for the question. -/
def Worded (made : List CurateRequest) (i : Nat) (q : CandidateQuery) (text : String) : Prop :=
  text = q.text ∨ ∃ r ∈ made, r.queryId = queryId i ∧ ∃ asked ∈ r.queryText, text = strip asked

/-- A request for the question has approved it. -/
def ApprovedBy (made : List CurateRequest) (i : Nat) : Prop :=
  ∃ r ∈ made, r.queryId = queryId i ∧ r.approved = some true

section
variable {τ : Type} {env : ChunkingEnv τ} (documents : List (DraftDocument env))

/-- A stored question: its id and evidence are those of the draft. -/
structure Reviewed (made : List CurateRequest) (i : Nat) (q : CandidateQuery)
    (fields : List (String × Json)) : Prop where
  id : fieldOf fields "id" = some (.str (queryId i))
  evidence : fieldOf fields "evidence_chunk_ids" =
    some (.arr ((citedChunks documents q).map Json.str))
  text : ∃ text, fieldOf fields "text" = some (.str text) ∧ Worded made i q text
  approved : ∃ approved, fieldOf fields "approved" = some (.bool approved) ∧
    (approved = true → ApprovedBy made i)

/-- The stored questions are those of the draft, in its order. -/
structure ReviewedAll (queries : List CandidateQuery) (made : List CurateRequest)
    (stored : List (List (String × Json))) : Prop where
  length : stored.length = queries.length
  each : ∀ i q fields, queries[i]? = some q → stored[i]? = some fields →
    Reviewed documents made i q fields

/-- What the artifact of a draft holds after these requests. -/
def Questions (queries : List CandidateQuery) (made : List CurateRequest) (payload : Json) : Prop :=
  ∃ stored, queriesOf (some payload) = some (stored.map Json.obj) ∧
    ReviewedAll documents queries made stored

end

/-! ## One request -/

section
variable {r : CurateRequest} {fields fields' : List (String × Json)}

theorem fieldOf_withText {text : String} (h : withText text fields = .ok fields') {name : String}
    (htext : name ≠ "text") (hedited : name ≠ "edited") :
    fieldOf fields' name = fieldOf fields name := by
  unfold withText at h
  split at h
  · cases h
  · split at h
    · cases h
      rfl
    · cases h
      rw [fieldOf_setField, if_neg hedited, fieldOf_setField, if_neg htext]

theorem fieldOf_withApproval (approved : Option Bool) (fields : List (String × Json))
    {name : String} (hname : name ≠ "approved") :
    fieldOf (withApproval approved fields) name = fieldOf fields name := by
  cases approved with
  | none => rfl
  | some approved => rw [withApproval, fieldOf_setField, if_neg hname]

/-- What a request makes of the question. -/
theorem curated_cases (h : curated r fields = .ok fields') :
    (r.queryText = none ∧ fields' = withApproval r.approved fields) ∨
      ∃ text texted, r.queryText = some text ∧ withText text fields = .ok texted ∧
      fields' = withApproval r.approved texted := by
  cases hquery : r.queryText with
  | none =>
    rw [curated, hquery] at h
    exact Or.inl ⟨rfl, (Except.ok.inj h).symm⟩
  | some text =>
    rw [curated, hquery] at h
    obtain ⟨texted, hwords, rfl⟩ := map_eq_ok h
    exact Or.inr ⟨text, texted, rfl, hwords, rfl⟩

/-- The other fields of the question stay as they are. -/
theorem fieldOf_curated (h : curated r fields = .ok fields') {name : String} (htext : name ≠ "text")
    (hedited : name ≠ "edited") (happroved : name ≠ "approved") :
    fieldOf fields' name = fieldOf fields name := by
  obtain ⟨-, rfl⟩ | ⟨text, texted, -, hwords, rfl⟩ := curated_cases h
  · exact fieldOf_withApproval r.approved fields happroved
  · exact (fieldOf_withApproval r.approved texted happroved).trans
      (fieldOf_withText hwords htext hedited)

theorem text_withText {text : String} (h : withText text fields = .ok fields') :
    fieldOf fields' "text" = some (.str (strip text)) := by
  unfold withText at h
  split at h
  · cases h
  · rename_i current hcurrent
    split at h
    · rename_i hsame
      cases h
      rw [hcurrent, hsame]
    · cases h
      rw [fieldOf_setField, if_neg (by decide), fieldOf_setField, if_pos rfl]

theorem text_curated (h : curated r fields = .ok fields') :
    fieldOf fields' "text" = match r.queryText with
      | none => fieldOf fields "text"
      | some text => some (.str (strip text)) := by
  obtain ⟨hquery, rfl⟩ | ⟨text, texted, hquery, hwords, rfl⟩ := curated_cases h
  · rw [hquery]
    exact fieldOf_withApproval r.approved fields (by decide)
  · rw [hquery]
    exact (fieldOf_withApproval r.approved texted (by decide)).trans (text_withText hwords)

theorem approved_curated (h : curated r fields = .ok fields') :
    fieldOf fields' "approved" = match r.approved with
      | none => fieldOf fields "approved"
      | some approved => some (.bool approved) := by
  have hbefore : ∃ texted, fieldOf texted "approved" = fieldOf fields "approved" ∧
      fields' = withApproval r.approved texted := by
    obtain ⟨-, rfl⟩ | ⟨text, texted, -, hwords, rfl⟩ := curated_cases h
    · exact ⟨fields, rfl, rfl⟩
    · exact ⟨texted, fieldOf_withText hwords (by decide) (by decide), rfl⟩
  obtain ⟨texted, hsame, rfl⟩ := hbefore
  cases happroved : r.approved with
  | none => exact hsame
  | some approved => exact (fieldOf_setField texted "approved" "approved" _).trans (if_pos rfl)

/-- The request changes one question in its place. -/
theorem curateList_set {stored : List (List (String × Json))} {queries : List Json}
    (h : curateList r (stored.map Json.obj) = .ok queries) :
    ∃ i fields fields', stored[i]? = some fields ∧ IsQuery r.queryId fields ∧
      curated r fields = .ok fields' ∧ queries = (stored.set i fields').map Json.obj := by
  induction stored generalizing queries with
  | nil => cases h
  | cons first stored ih =>
    obtain ⟨fields, rest, hcons, ⟨hid, fields', hcurated, rfl⟩ | ⟨-, rest', hrest, rfl⟩⟩ :=
      curateList_ok h
    · cases hcons
      exact ⟨0, first, fields', rfl, hid, hcurated, rfl⟩
    · cases hcons
      obtain ⟨i, fields, fields', hget, hid, hcurated, rfl⟩ := ih hrest
      exact ⟨i + 1, fields, fields', hget, hid, hcurated, rfl⟩

end

/-! ## Every request -/

theorem Worded.mono {made made' : List CurateRequest} {i : Nat} {q : CandidateQuery} {text : String}
    (h : Worded made i q text) (hsub : made ⊆ made') : Worded made' i q text :=
  h.imp_right (fun ⟨r, hr, hasked⟩ => ⟨r, hsub hr, hasked⟩)

theorem ApprovedBy.mono {made made' : List CurateRequest} {i : Nat} (h : ApprovedBy made i)
    (hsub : made ⊆ made') : ApprovedBy made' i := by
  obtain ⟨r, hr, happroved⟩ := h
  exact ⟨r, hsub hr, happroved⟩

section
variable {τ : Type} {env : ChunkingEnv τ} {documents : List (DraftDocument env)}
  {queries : List CandidateQuery}
variable {made made' : List CurateRequest} {r : CurateRequest} {i : Nat} {q : CandidateQuery}
variable {fields fields' : List (String × Json)} {stored : List (List (String × Json))}

theorem Reviewed.mono (h : Reviewed documents made i q fields) (hsub : made ⊆ made') :
    Reviewed documents made' i q fields where
  id := h.id
  evidence := h.evidence
  text := by
    obtain ⟨text, htext, hworded⟩ := h.text
    exact ⟨text, htext, hworded.mono hsub⟩
  approved := by
    obtain ⟨approved, hfield, hby⟩ := h.approved
    exact ⟨approved, hfield, fun ht => (hby ht).mono hsub⟩

/-- What a request leaves of the question it is for. -/
theorem Reviewed.curated (h : Reviewed documents made i q fields) (hmade : r ∈ made)
    (hid : IsQuery r.queryId fields) (hcurated : Onboarding.curated r fields = .ok fields') :
    Reviewed documents made i q fields' := by
  have hsame : r.queryId = queryId i := Json.str.inj (Option.some.inj (hid.symm.trans h.id))
  refine ⟨?_, ?_, ?_, ?_⟩
  · rw [fieldOf_curated hcurated (by decide) (by decide) (by decide)]
    exact h.id
  · rw [fieldOf_curated hcurated (by decide) (by decide) (by decide)]
    exact h.evidence
  · rw [text_curated hcurated]
    cases htext : r.queryText with
    | none => exact h.text
    | some asked => exact ⟨strip asked, rfl, Or.inr ⟨r, hmade, hsame, asked, htext, rfl⟩⟩
  · rw [approved_curated hcurated]
    cases happroved : r.approved with
    | none => exact h.approved
    | some approved => exact ⟨approved, rfl, fun ht => ⟨r, hmade, hsame, ht ▸ happroved⟩⟩

theorem ReviewedAll.mono (h : ReviewedAll documents queries made stored) (hsub : made ⊆ made') :
    ReviewedAll documents queries made' stored :=
  ⟨h.length, fun i q fields hq hfields => (h.each i q fields hq hfields).mono hsub⟩

theorem ReviewedAll.set (h : ReviewedAll documents queries made stored)
    (hnew : ∀ q, queries[i]? = some q → Reviewed documents made i q fields) :
    ReviewedAll documents queries made (stored.set i fields) where
  length := by rw [List.length_set, h.length]
  each := by
    intro j q fields' hq hfields
    rw [List.getElem?_set] at hfields
    split at hfields
    · rename_i hij
      subst hij
      split at hfields
      · cases hfields
        exact hnew q hq
      · cases hfields
    · exact h.each j q fields' hq hfields

/-- The ids of the stored questions. -/
theorem ReviewedAll.get (h : ReviewedAll documents queries made stored)
    (hget : stored[i]? = some fields) :
    ∃ q, queries[i]? = some q ∧ Reviewed documents made i q fields := by
  have hi : i < queries.length := h.length ▸ (List.getElem?_eq_some_iff.mp hget).1
  exact ⟨queries[i], List.getElem?_eq_getElem hi,
    h.each i _ fields (List.getElem?_eq_getElem hi) hget⟩

theorem Questions.mono {payload : Json} (h : Questions documents queries made payload)
    (hsub : made ⊆ made') : Questions documents queries made' payload := by
  obtain ⟨stored, hstored, hall⟩ := h
  exact ⟨stored, hstored, hall.mono hsub⟩

/-- A request keeps the questions those of the draft, whatever it has read. -/
theorem Questions.curate {payload new : Json} (h : Questions documents queries made payload)
    (hmade : r ∈ made) (hcurate : curate r (some payload) = .ok new) :
    Questions documents queries made new := by
  obtain ⟨stored, hstored, hall⟩ := h
  obtain ⟨base, list, list', -, hqueries, hlist, rfl⟩ := curate_ok.mp hcurate
  cases Option.some.inj (hstored.symm.trans hqueries)
  obtain ⟨i, fields, fields', hget, hid, hcurated, rfl⟩ := curateList_set hlist
  obtain ⟨q, hq, hreviewed⟩ := hall.get hget
  refine ⟨stored.set i fields', queriesOf_written base _, hall.set ?_⟩
  intro q' hq'
  cases Option.some.inj (hq.symm.trans hq')
  exact hreviewed.curated hmade hid hcurated

/-- A draft stores its questions unread. -/
theorem questions_proposed {proposed : Except String (List CandidateQuery)} {payload : Json}
    (h : questionsPayload (proposeQueries documents proposed) = some payload) :
    ∃ queries, proposed = .ok queries ∧ Questions documents queries [] payload := by
  unfold questionsPayload proposeQueries at h
  split at h
  · simp at h
  · cases proposed with
    | error message => simp at h
    | ok queries =>
      simp only at h
      split at h
      · cases h
      · cases h
        refine ⟨queries, rfl, queries.zipIdx.map (fun x => proposal documents x.2 x.1),
          rfl, by simp, ?_⟩
        intro i q fields hq hfields
        simp only [List.getElem?_map, List.getElem?_zipIdx, hq, Nat.zero_add, Option.map_some,
          Option.some.injEq] at hfields
        subst hfields
        exact ⟨rfl, rfl, ⟨q.text, rfl, Or.inl rfl⟩, ⟨false, rfl, by simp⟩⟩

end

/-! ## The ids of chunks -/

/-- What the digest of a text looks like. -/
def ShortDigest (sha1 : Chars → String) : Prop :=
  ∀ text, (sha1 text).toList.length = 16 ∧ ∀ c ∈ (sha1 text).toList, c ∈ hexDigits

theorem isChunkId_canonicalId {τ : Type} {env : ChunkingEnv τ} (h : ShortDigest env.sha1)
    (text : Chars) : IsChunkId (Corpus.canonicalId env text) := by
  obtain ⟨hlength, hdigits⟩ := h (stripChars text)
  refine ⟨(env.sha1 (stripChars text)).toList, ?_, by omega, by omega, hdigits⟩
  rw [Corpus.canonicalId, String.toList_append]
  rfl

end AgenticPlatform.Onboarding
