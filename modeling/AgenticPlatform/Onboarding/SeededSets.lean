import AgenticPlatform.Corpus.ChunkedText
import AgenticPlatform.Foundation.Transition
import AgenticPlatform.Foundation.Traversal
import AgenticPlatform.Gates.ContentHash
import AgenticPlatform.Onboarding.SeedEval

/-!
# What a seeded set holds

In every run, however the requests overlap, a set that is seeded has an item for each
approved question of the list that was read, in the order of one draft: approved by a
request, worded as proposed or as a request asked, citing chunks of the corpus the draft was
made from. The only fault that is found with a list is an approved question without words.
-/
namespace AgenticPlatform.Onboarding
open AgenticPlatform.Foundation AgenticPlatform.Identity AgenticPlatform.Db AgenticPlatform.Corpus
  AgenticPlatform.Gates

/-! ## What is told of a session -/

section
variable {τ : Type} {env : ChunkingEnv τ}

/-- The requests that have curated its questions. -/
def madeOf (events : List (SeedEvent env)) : List CurateRequest :=
  events.filterMap (fun e =>
    match e with
    | .curated r => some r
    | _ => none)

/-- The questions are those of a draft, after these events. -/
def Drafted (events : List (SeedEvent env)) (documents : List (DraftDocument env))
    (queries : List CandidateQuery) (stored : List (List (String × Json))) : Prop :=
  .proposed documents (.ok queries) ∈ events ∧ ReviewedAll documents queries (madeOf events) stored

/-- The item of an approved question. -/
structure SeededItem (documents : List (DraftDocument env)) (made : List CurateRequest) (i : Nat)
    (q : CandidateQuery) (item : EvalItem) : Prop where
  id : item.id = queryId i
  worded : ∃ text, Worded made i q text ∧ item.question = strip text
  asks : item.question ≠ ""
  approved : ApprovedBy made i
  unanswered : item.expectedAnswer = ""
  cites : item.mustCite = citedChunks documents q

/-- The set has the item of each approved question of the list. -/
def SeededFrom (events : List (SeedEvent env)) (read : List Json) (items : List EvalItem) : Prop :=
  ∃ documents queries stored, Drafted events documents queries stored ∧
    read = stored.map Json.obj ∧ items ≠ [] ∧
    List.Forall₂
    (fun i item => ∃ q, queries[i]? = some q ∧ SeededItem documents (madeOf events) i q item)
    (stored.findIdxs isApproved) items

variable (senv : SeedEnv)

def noQuestion (id : String) : String := "item " ++ senv.datasets.reprText id ++ " has no question"

/-- A refusal has its reason in what was done. -/
def RefusedFor (events : List (SeedEvent env)) : SeedError → Prop
  | .sessionNotFound | .noneApproved => True
  | .notScoreable message => ∃ documents queries i q text,
    SeedEvent.proposed documents (.ok queries) ∈ events ∧ queries[i]? = some q ∧
    ApprovedBy (madeOf events) i ∧ Worded (madeOf events) i q text ∧ strip text = "" ∧
    message = noQuestion senv (queryId i)
  | .malformed => False
  | .failed error => error = .tooLong ∨ error = .idTaken

/-- What an event says of those before it. -/
def Told (events : List (SeedEvent env)) : SeedEvent env → Prop
  | .seeded read items => SeededFrom events read items
  | .refused error => RefusedFor senv events error
  | _ => True

end

/-! ## Reading the questions -/

theorem mapM_objectOf (stored : List (List (String × Json))) :
    (stored.map Json.obj).mapM objectOf = some stored := by
  induction stored with
  | nil => rfl
  | cons fields stored ih =>
    rw [List.map_cons, List.mapM_cons, ih]
    rfl

theorem approvedOf_objects (stored : List (List (String × Json))) :
    approvedOf (stored.map Json.obj) = some (stored.filter isApproved) := by
  rw [approvedOf, mapM_objectOf]
  rfl

section
variable {τ : Type} {env : ChunkingEnv τ} {documents : List (DraftDocument env)}
  {queries : List CandidateQuery}
variable {made : List CurateRequest} {i : Nat} {q : CandidateQuery} {fields : List (String × Json)}

/-- The raw item of an approved question. -/
def rawQuestion (documents : List (DraftDocument env)) (i : Nat) (q : CandidateQuery)
    (text : String) : RawItem :=
  [("id", .str (queryId i)), ("question", .str text), ("expected_answer", .str ""),
    ("must_cite", .arr ((citedChunks documents q).map Json.str))]

/-- An item is made of an approved question. -/
def RawOf (documents : List (DraftDocument env)) (queries : List CandidateQuery)
    (made : List CurateRequest) (i : Nat) (raw : RawItem) : Prop :=
  ∃ q text, queries[i]? = some q ∧ Worded made i q text ∧ ApprovedBy made i ∧
    raw = rawQuestion documents i q text

theorem Reviewed.seedItem (h : Reviewed documents made i q fields)
    (happroved : isApproved fields = true) :
    ∃ text, Worded made i q text ∧ ApprovedBy made i ∧
      Onboarding.seedItem fields = some (rawQuestion documents i q text) := by
  obtain ⟨text, htext, hworded⟩ := h.text
  obtain ⟨approved, hfield, hby⟩ := h.approved
  have hevidence : evidenceOf fields = .arr ((citedChunks documents q).map Json.str) := by
    rw [evidenceOf, h.evidence]
    cases (citedChunks documents q).map Json.str <;> rfl
  refine ⟨text, hworded, hby ?_, ?_⟩
  · rw [isApproved, hfield] at happroved
    simpa [falsy] using happroved
  · rw [Onboarding.seedItem, h.id, htext, hevidence]
    rfl

/-- Every approved question has its item. -/
theorem mapM_seedItem {places : List Nat} {approved : List (List (String × Json))}
    (h : List.Forall₂ (fun i fields => (∃ q, queries[i]? = some q ∧
      Reviewed documents made i q fields) ∧ isApproved fields = true) places approved) :
    ∃ raws, approved.mapM seedItem = some raws ∧
      List.Forall₂ (RawOf documents queries made) places raws := by
  induction h with
  | nil => exact ⟨[], rfl, .nil⟩
  | cons hhead htail ih =>
    obtain ⟨⟨q, hq, hreviewed⟩, happroved⟩ := hhead
    obtain ⟨raws, hraws, hall⟩ := ih
    obtain ⟨text, hworded, hby, hitem⟩ := hreviewed.seedItem happroved
    refine ⟨_ :: raws, ?_, .cons ⟨q, text, hq, hworded, hby, rfl⟩ hall⟩
    rw [List.mapM_cons, hitem, hraws]
    rfl

/-! ## Validating the items -/

theorem isSpace_of_isDigit {c : Char} (h : c.isDigit = true) : isSpace c = false := by
  simp only [Char.isDigit, Bool.and_eq_true, decide_eq_true_eq, UInt32.le_iff_toNat_le] at h
  have hlow : 48 ≤ c.toNat := h.1
  have hhigh : c.toNat ≤ 57 := h.2
  simp only [isSpace, Bool.or_eq_false_iff, Bool.and_eq_false_iff, decide_eq_false_iff_not]
  omega

theorem queryId_ne_empty (i : Nat) : queryId i ≠ "" := by
  intro h
  have hchars := congrArg String.toList h
  rw [queryId, String.toList_ofList] at hchars
  cases hchars

theorem strip_queryId (i : Nat) : strip (queryId i) = queryId i := by
  have hspaces : ∀ c ∈ 'q' :: Nat.toDigits 10 i, isSpace c = false := by
    intro c hc
    rcases List.mem_cons.mp hc with rfl | hc
    · rfl
    · exact isSpace_of_isDigit (Nat.isDigit_of_mem_toDigits (by decide) (by decide) hc)
  rw [strip, queryId, String.toList_ofList, stripChars_eq_self]
  · exact fun c hc => hspaces c (List.mem_of_head? hc)
  · exact fun c hc => hspaces c (List.mem_of_getLast? hc)

section
variable {denv : DatasetEnv} {text : String}

theorem textField_question :
    textField denv (rawQuestion documents i q text) "question" = strip text :=
  textField_of_str rfl

theorem idOf_question : idOf denv (rawQuestion documents i q text) = queryId i :=
  (textField_of_str rfl).trans (strip_queryId i)

theorem citations_question :
    citations denv (rawQuestion documents i q text) = .ok (citedChunks documents q) := by
  exact citations_toDict denv ⟨queryId i, text, "", citedChunks documents q⟩

theorem citesOf_question :
    citesOf denv (rawQuestion documents i q text) = citedChunks documents q := by
  rw [citesOf, citations_question]
  rfl

/-- The evidence are ids a retriever returns. -/
theorem canonicalId_cited (hsha : ShortDigest env.sha1) :
    ∀ c ∈ citedChunks documents q, Gates.canonicalId c = true := by
  intro c hc
  have hdocument := of_decide_eq_true (List.mem_filter.mp hc).2
  obtain ⟨document, -, rfl⟩ := List.mem_map.mp hdocument
  rw [document.id_eq]
  exact (isChunkId_canonicalId hsha _).canonicalId

end

/-- The items are accepted, up to the first without words. -/
theorem buildItems_questions {senv : SeedEnv} (hsha : ShortDigest env.sha1) {places : List Nat}
    {raws : List RawItem} (h : List.Forall₂ (RawOf documents queries made) places raws)
    {seen : List String} (hnodup : places.Nodup) (hseen : ∀ i ∈ places, queryId i ∉ seen) :
    (∃ items, buildItems senv.datasets seen raws = .ok items ∧
      List.Forall₂ (fun i item => ∃ q, queries[i]? = some q ∧ SeededItem documents made i q item)
      places items) ∨
      ∃ i q text, queries[i]? = some q ∧ ApprovedBy made i ∧
      Worded made i q text ∧ strip text = "" ∧
      buildItems senv.datasets seen raws =
      .error (.invalidDataset (noQuestion senv (queryId i))) := by
  induction h generalizing seen with
  | nil => exact Or.inl ⟨[], rfl, .nil⟩
  | @cons i raw places raws hhead htail ih =>
    obtain ⟨q, text, hq, hworded, happroved, rfl⟩ := hhead
    have hid : textField senv.datasets (rawQuestion documents i q text) "id" = queryId i :=
      idOf_question
    have hnamed := queryId_ne_empty i
    have hfresh := hseen i List.mem_cons_self
    by_cases hblank : strip text = ""
    · refine Or.inr ⟨i, q, text, hq, happroved, hworded, hblank, ?_⟩
      rw [buildItems, buildItem, hid, if_neg hnamed, if_neg hfresh, textField_question,
        if_pos hblank]
      rfl
    · have hitem : Identified senv.datasets seen (rawQuestion documents i q text) :=
        ⟨hid.symm ▸ hnamed, hid.symm ▸ hfresh, textField_question.symm ▸ hblank⟩
      have hcite : ¬ Uncitable senv.datasets (rawQuestion documents i q text) := by
        rw [Uncitable, citations_question]
        simp
      rw [buildItems_cons hitem hcite (citesOf_question.symm ▸ canonicalId_cited hsha),
        idOf_question]
      have hrest : ∀ j ∈ places, queryId j ∉ queryId i :: seen := by
        intro j hj hmem
        rcases List.mem_cons.mp hmem with heq | hmem
        · exact (List.nodup_cons.mp hnodup).1 (queryId_injective heq ▸ hj)
        · exact hseen j (List.mem_cons_of_mem i hj) hmem
      rcases ih (List.nodup_cons.mp hnodup).2 hrest with ⟨items, hitems, hall⟩ |
        ⟨j, q', text', hq', happroved', hworded', hblank', herror⟩
      · refine Or.inl ⟨_ :: items, by rw [hitems]; rfl, .cons ⟨q, hq, ?_⟩ hall⟩
        exact ⟨hid, ⟨text, hworded, textField_question⟩, textField_question.trans_ne hblank,
          happroved, rfl, citesOf_question⟩
      · exact Or.inr ⟨j, q', text', hq', happroved', hworded', hblank', by rw [herror]; rfl⟩

end

/-! ## What is kept -/

section
variable {τ : Type} {env : ChunkingEnv τ}

theorem madeOf_append (events more : List (SeedEvent env)) :
    madeOf (events ++ more) = madeOf events ++ madeOf more :=
  List.filterMap_append

theorem Drafted.append {events : List (SeedEvent env)} {documents : List (DraftDocument env)}
    {queries : List CandidateQuery} {stored : List (List (String × Json))}
    (h : Drafted events documents queries stored) (more : List (SeedEvent env)) :
    Drafted (events ++ more) documents queries stored := by
  refine ⟨List.mem_append_left more h.1, h.2.mono ?_⟩
  rw [madeOf_append]
  exact List.subset_append_left _ _

/-- The artifact of a session. -/
def DraftedPayload (events : List (SeedEvent env)) (payload : Json) : Prop :=
  ∃ documents queries, SeedEvent.proposed documents (.ok queries) ∈ events ∧
    Questions documents queries (madeOf events) payload

/-- What a request that seeds holds. -/
def HeldFrom (events : List (SeedEvent env)) (read : List Json) (items : List RawItem) : Prop :=
  ∃ documents queries stored, Drafted events documents queries stored ∧
    read = stored.map Json.obj ∧ items ≠ [] ∧
    List.Forall₂ (RawOf documents queries (madeOf events)) (stored.findIdxs isApproved) items

structure SeedInv (senv : SeedEnv) (s : SeedState env) : Prop where
  stored : ∀ sessionId payload, s.stored sessionId = some payload →
    DraftedPayload (eventsOf sessionId s.log) payload
  loaded : ∀ n sessionId r payload, s.curations n = some (.loaded sessionId r (some payload)) →
    DraftedPayload (eventsOf sessionId s.log) payload
  held : ∀ m q domain collection read items,
    s.seedings m = some (.holding q domain collection read items) →
    HeldFrom (eventsOf q.sessionId s.log) read items
  told : Along (fun before entry => Told senv (eventsOf entry.1 before) entry.2) s.log

variable {senv : SeedEnv} {s : SeedState env} {events : List (SeedEvent env)}

theorem DraftedPayload.append {payload : Json} (h : DraftedPayload events payload)
    (more : List (SeedEvent env)) : DraftedPayload (events ++ more) payload := by
  obtain ⟨documents, queries, hproposed, hquestions⟩ := h
  refine ⟨documents, queries, List.mem_append_left more hproposed, hquestions.mono ?_⟩
  rw [madeOf_append]
  exact List.subset_append_left _ _

theorem RawOf.mono {documents : List (DraftDocument env)} {queries : List CandidateQuery}
    {made made' : List CurateRequest} {i : Nat} {raw : RawItem}
    (h : RawOf documents queries made i raw) (hsub : made ⊆ made') :
    RawOf documents queries made' i raw := by
  obtain ⟨q, text, hq, hworded, happroved, hraw⟩ := h
  exact ⟨q, text, hq, hworded.mono hsub, happroved.mono hsub, hraw⟩

theorem HeldFrom.append {read : List Json} {items : List RawItem} (h : HeldFrom events read items)
    (more : List (SeedEvent env)) : HeldFrom (events ++ more) read items := by
  obtain ⟨documents, queries, stored, hdrafted, hread, hne, hall⟩ := h
  refine ⟨documents, queries, stored, hdrafted.append more, hread, hne, hall.imp ?_⟩
  intro i raw hraw
  refine hraw.mono ?_
  rw [madeOf_append]
  exact List.subset_append_left _ _

theorem eventsOf_more (sessionId other : Uuid) (log : List (Uuid × SeedEvent env))
    (e : SeedEvent env) :
    ∃ more, eventsOf sessionId (log ++ [(other, e)]) = eventsOf sessionId log ++ more := by
  by_cases h : other = sessionId
  · subst h
    exact ⟨[e], eventsOf_self other log e⟩
  · exact ⟨[], (eventsOf_other h log e).trans (List.append_nil _).symm⟩

/-- Something more is told. -/
theorem SeedInv.noted (h : SeedInv senv s) {sessionId : Uuid} {e : SeedEvent env}
    (htold : Told senv (eventsOf sessionId s.log) e) : SeedInv senv (s.noted sessionId e) where
  stored := by
    intro id payload hstored
    obtain ⟨more, hmore⟩ := eventsOf_more id sessionId s.log e
    exact hmore ▸ (h.stored id payload hstored).append more
  loaded := by
    intro n id r payload hn
    obtain ⟨more, hmore⟩ := eventsOf_more id sessionId s.log e
    exact hmore ▸ (h.loaded n id r payload hn).append more
  held := by
    intro m q domain collection read items hm
    obtain ⟨more, hmore⟩ := eventsOf_more q.sessionId sessionId s.log e
    exact hmore ▸ (h.held m q domain collection read items hm).append more
  told := along_concat.mpr ⟨h.told, htold⟩

theorem SeedInv.curation (h : SeedInv senv s) {n : Nat} {phase : Option CurationPhase}
    (hphase : ∀ sessionId r payload, phase = some (.loaded sessionId r (some payload)) →
      DraftedPayload (eventsOf sessionId s.log) payload) : SeedInv senv (s.curation n phase) where
  stored := h.stored
  loaded := by
    intro k sessionId r payload hk
    rcases update_cases hk with ⟨-, hnew⟩ | ⟨-, hold⟩
    · exact hphase sessionId r payload hnew
    · exact h.loaded k sessionId r payload hold
  held := h.held
  told := h.told

theorem SeedInv.seeding (h : SeedInv senv s) {m : Nat} {phase : Option SeedPhase}
    (hphase : ∀ q domain collection read items,
      phase = some (.holding q domain collection read items) →
      HeldFrom (eventsOf q.sessionId s.log) read items) : SeedInv senv (s.seeding m phase) where
  stored := h.stored
  loaded := h.loaded
  held := by
    intro k q domain collection read items hk
    rcases update_cases hk with ⟨-, hnew⟩ | ⟨-, hold⟩
    · exact hphase q domain collection read items hnew
    · exact h.held k q domain collection read items hold
  told := h.told

theorem SeedInv.refuse (h : SeedInv senv s) {m : Nat} {sessionId : Uuid} {error : SeedError}
    (herror : RefusedFor senv (eventsOf sessionId s.log) error) :
    SeedInv senv (s.refuse m sessionId error) :=
  (h.seeding (by rintro q domain collection read items h; cases h)).noted herror

/-- A payload is written with the event that made it. -/
theorem SeedInv.put (h : SeedInv senv s) {sessionId : Uuid} {payload : Json} {e : SeedEvent env}
    (htold : Told senv (eventsOf sessionId s.log) e)
    (hpayload : DraftedPayload (eventsOf sessionId s.log ++ [e]) payload) :
    SeedInv senv (s.put sessionId payload e) where
  stored := by
    intro id other hstored
    rcases update_cases hstored with ⟨hkey, hnew⟩ | ⟨-, hold⟩
    · cases congrArg ArtifactKey.sessionId hkey
      cases Option.some.inj hnew
      exact (eventsOf_self sessionId s.log e).symm ▸ hpayload
    · exact (h.noted htold).stored id other hold
  loaded := (h.noted htold).loaded
  held := (h.noted htold).held
  told := (h.noted htold).told

/-- A request is committed over a list of the draft. -/
theorem DraftedPayload.curated {payload new : Json} {r : CurateRequest}
    (h : DraftedPayload events payload) (hcurate : curate r (some payload) = .ok new) :
    DraftedPayload (events ++ [.curated r]) new := by
  obtain ⟨documents, queries, hproposed, hquestions⟩ := h.append [.curated r]
  refine ⟨documents, queries, hproposed, hquestions.curate ?_ hcurate⟩
  rw [madeOf_append]
  exact List.mem_append_right _ List.mem_cons_self

theorem DraftedPayload.reads {payload : Json} (h : DraftedPayload events payload) :
    ∃ documents queries stored, Drafted events documents queries stored ∧
      candidateQueries (some payload) = some (stored.map Json.obj) := by
  obtain ⟨documents, queries, hproposed, stored, hstored, hall⟩ := h
  exact ⟨documents, queries, stored, ⟨hproposed, hall⟩, hstored⟩

theorem Drafted.held {documents : List (DraftDocument env)} {queries : List CandidateQuery}
    {stored : List (List (String × Json))} (h : Drafted events documents queries stored)
    (hne : stored.filter isApproved ≠ []) :
    ∃ raws, (stored.filter isApproved).mapM seedItem = some raws ∧
      HeldFrom events (stored.map Json.obj) raws := by
  have hplaces : List.Forall₂ (fun i fields => (∃ q, queries[i]? = some q ∧
      Reviewed documents (madeOf events) i q fields) ∧ isApproved fields = true)
      (stored.findIdxs isApproved) (stored.filter isApproved) := by
    refine List.forall₂_iff_get.mpr ⟨(forall₂_findIdxs isApproved stored).length_eq, ?_⟩
    intro k hk hk'
    exact ⟨h.2.get ((List.forall₂_iff_get.mp (forall₂_findIdxs isApproved stored)).2 k hk hk'),
      (List.mem_filter.mp (List.get_mem _ _)).2⟩
  obtain ⟨raws, hraws, hall⟩ := mapM_seedItem hplaces
  refine ⟨raws, hraws, documents, queries, stored, h, rfl, ?_, hall⟩
  rintro rfl
  exact hne (List.eq_nil_of_length_eq_zero (by rw [← hplaces.length_eq, hall.length_eq]; rfl))

theorem SeedInv.afterQueries (h : SeedInv senv s) (m : Nat) (q : SeedRequest)
    (domain collection : String) :
    SeedInv senv (Onboarding.afterQueries s m q domain collection) := by
  unfold Onboarding.afterQueries
  cases hstored : s.stored q.sessionId with
  | none => exact h.refuse trivial
  | some payload =>
    obtain ⟨documents, queries, stored, hdrafted, hreads⟩ :=
      (h.stored q.sessionId payload hstored).reads
    simp only [hreads, approvedOf_objects]
    split
    · rename_i hnone
      cases hnone
    · exact h.refuse trivial
    · rename_i approved hne happroved
      cases happroved
      obtain ⟨raws, hraws, hheld⟩ := hdrafted.held hne
      rw [hraws]
      refine h.seeding ?_
      rintro q' domain' collection' read items hphase
      cases hphase
      exact hheld

theorem save_refused {denv : DatasetEnv} {db : GoldenDb} {g : SaveStamp} {r : SaveRequest}
    {error : BuildError} (h : buildDataset denv r.items = .error error) :
    save denv db g r = .error (.build error) := by
  rw [save, h]

theorem save_failed {denv : DatasetEnv} {db : GoldenDb} {g : SaveStamp} {r : SaveRequest}
    {built : List EvalItem} {error : SaveError} (hbuild : buildDataset denv r.items = .ok built)
    (h : save denv db g r = .error error) : error = .tooLong ∨ error = .idTaken := by
  rw [save, hbuild] at h
  simp only at h
  split at h
  · cases h
    exact Or.inl rfl
  · split at h
    · cases h
    · cases h
      exact Or.inr rfl

/-- What is told of a save. -/
def SaveTold (senv : SeedEnv) (events : List (SeedEvent env)) (read : List Json) :
    Except SaveError (GoldenDb × Dataset) → Prop
  | .ok (_, dataset) => SeededFrom events read dataset.items
  | .error error => RefusedFor senv events (seedError error)

theorem HeldFrom.saved {read : List Json} {r : SaveRequest} (hsha : ShortDigest env.sha1)
    (h : HeldFrom events read r.items) (db : GoldenDb) (g : SaveStamp) :
    SaveTold senv events read (save senv.datasets db g r) := by
  obtain ⟨documents, queries, stored, hdrafted, rfl, hne, hall⟩ := h
  have hbuild : buildDataset senv.datasets r.items = buildItems senv.datasets [] r.items :=
    if_neg hne
  rcases buildItems_questions hsha hall List.nodup_findIdxs (fun _ _ => List.not_mem_nil) with
    ⟨items, hitems, hseeded⟩ | ⟨i, q, text, hq, happroved, hworded, hblank, herror⟩
  · cases hsave : save senv.datasets db g r with
    | ok saved =>
      obtain ⟨built, hbuilt, heq, -⟩ := save_eq_ok hsave
      cases Except.ok.inj ((hbuild.trans hitems).symm.trans hbuilt)
      refine ⟨documents, queries, stored, hdrafted, rfl, ?_, heq ▸ hseeded⟩
      intro hempty
      have hlengths := hseeded.length_eq.symm.trans hall.length_eq
      rw [← heq, hempty] at hlengths
      exact hne (List.eq_nil_of_length_eq_zero hlengths.symm)
    | error error =>
      rcases save_failed (hbuild.trans hitems) hsave with rfl | rfl
      · exact Or.inl rfl
      · exact Or.inr rfl
  · rw [save_refused (hbuild.trans herror)]
    exact ⟨documents, queries, i, q, text, hdrafted.1, hq, happroved, hworded, hblank, rfl⟩

/-! ## Every run -/

theorem seedInv_start (senv : SeedEnv) (env : ChunkingEnv τ) (golden : GoldenDb) :
    SeedInv senv (.start env golden) where
  stored := fun _ _ h => (by cases h)
  loaded := fun _ _ _ _ h => (by cases h)
  held := fun _ _ _ _ _ _ h => (by cases h)
  told := along_nil _

theorem seedInv_step {t : SeedState env} {a : SeedAct env} (hsha : ShortDigest env.sha1)
    (h : SeedInv senv s) (hstep : seedStep senv s a = some t) : SeedInv senv t := by
  cases a with
  | sessions rows =>
    cases hstep
    exact ⟨h.stored, h.loaded, h.held, h.told⟩
  | artifact key payload =>
    simp only [seedStep] at hstep
    split at hstep
    · cases hstep
    · rename_i hkind
      cases hstep
      refine ⟨?_, h.loaded, h.held, h.told⟩
      intro sessionId stored hstored
      rcases update_cases hstored with ⟨hkey, -⟩ | ⟨-, hold⟩
      · exact absurd (congrArg ArtifactKey.kind hkey).symm hkind
      · exact h.stored sessionId stored hold
  | golden db =>
    cases hstep
    exact ⟨h.stored, h.loaded, h.held, h.told⟩
  | propose sessionId documents queries =>
    simp only [seedStep] at hstep
    split at hstep
    · cases hstep
      exact h
    · rename_i payload hpayload
      cases hstep
      obtain ⟨queries, rfl, hquestions⟩ := questions_proposed hpayload
      exact h.put trivial ⟨documents, queries, List.mem_append_right _ List.mem_cons_self,
        hquestions.mono (List.nil_subset _)⟩
  | openCuration n sessionId r =>
    simp only [seedStep] at hstep
    split at hstep
    · cases hstep
      exact h
    · cases hstep
      exact h
    · cases hstep
      exact h.curation (by rintro id r payload h; cases h)
    · cases hstep
  | loadCuration n =>
    simp only [seedStep] at hstep
    split at hstep
    · rename_i sessionId r hn
      split at hstep
      · cases hstep
        exact h.curation (by rintro id r payload h; cases h)
      · cases hstep
        refine h.curation ?_
        intro id r' payload hphase
        simp only [Option.some.injEq, CurationPhase.loaded.injEq] at hphase
        obtain ⟨rfl, -, hpayload⟩ := hphase
        exact h.stored _ payload hpayload
    · cases hstep
  | commitCuration n =>
    simp only [seedStep] at hstep
    split at hstep
    · rename_i sessionId r read hn
      split at hstep
      · cases hstep
      · rename_i payload hcurate
        cases hstep
        cases read with
        | none => cases hcurate
        | some old =>
          have hclosed : SeedInv senv (s.curation n none) :=
            h.curation (by rintro id r payload h; cases h)
          exact hclosed.put trivial ((h.loaded n sessionId r old hn).curated hcurate)
    · cases hstep
  | dropCuration n =>
    cases hstep
    exact h.curation (by rintro id r payload h; cases h)
  | askSeed m q =>
    simp only [seedStep] at hstep
    split at hstep
    · cases hstep
    · cases hstep
      exact h.noted trivial
    · cases hstep
      exact h.seeding (by rintro q domain collection read items h; cases h)
  | readSeed m =>
    simp only [seedStep] at hstep
    split at hstep
    · cases hstep
      exact h.afterQueries m _ _ _
    · cases hstep
  | saveSeed m g =>
    simp only [seedStep] at hstep
    split at hstep
    · rename_i q domain collection read items hm
      have hheld := h.held m q domain collection read items hm
      have htold : SaveTold senv (eventsOf q.sessionId s.log) read (save senv.datasets s.golden g
          ⟨q.tenantId, q.by_, seedName senv q domain, collection, items⟩) :=
        hheld.saved hsha s.golden g
      have hdone : SeedInv senv (s.seeding m none) :=
        h.seeding (by rintro q domain collection read items h; cases h)
      split at hstep
      · rename_i golden dataset hsave
        cases hstep
        rw [hsave] at htold
        have hnoted : SeedInv senv
            ((s.seeding m none).noted q.sessionId (.seeded read dataset.items)) := hdone.noted htold
        exact ⟨hnoted.stored, hnoted.loaded, hnoted.held, hnoted.told⟩
      · rename_i error hsave
        cases hstep
        rw [hsave] at htold
        exact hdone.noted htold
    · cases hstep
  | dropSeed m =>
    cases hstep
    exact h.seeding (by rintro q domain collection read items h; cases h)

/-- In every run each set that is seeded is made of the approved questions of one draft, and a
list is only refused for a question without words. -/
theorem seeding_reviewed {golden : GoldenDb} {acts : List (SeedAct env)} {t : SeedState env}
    (hsha : ShortDigest env.sha1) (hrun : Reaches (seedStep senv) (.start env golden) acts t) :
    Along (fun before entry => Told senv (eventsOf entry.1 before) entry.2) t.log :=
  (hrun.invariant (fun _ _ _ hs hstep => seedInv_step hsha hs hstep)
    (seedInv_start senv env golden)).told

end

/-! Of two questions one is approved without words, and asked again; the other never is. -/

/-- With the digests of the two chunks there are. -/
def speedEnv : ChunkingEnv Char :=
  { charEnv with
    sha1 := fun text => if text = "The pump turns at 40 rpm.".toList then "daff4cee9369c5a2"
      else "fe7ba15635d17d18" }

theorem isShort_digest {digest : String} (hlength : digest.toList.length = 16)
    (hdigits : (digest.toList.all (fun c => hexDigits.contains c)) = true) :
    digest.toList.length = 16 ∧ ∀ c ∈ digest.toList, c ∈ hexDigits :=
  ⟨hlength, fun c hc => List.contains_iff_mem.mp (List.all_eq_true.mp hdigits c hc)⟩

theorem speedEnv_digest : ShortDigest speedEnv.sha1 := by
  intro text
  simp only [speedEnv]
  split
  · exact isShort_digest (by decide) (by decide)
  · exact isShort_digest (by decide) (by decide)

def speedSenv : SeedEnv := ⟨plainTextsEnv, id⟩

def speedDocuments : List (DraftDocument speedEnv) :=
  [⟨"c_daff4cee9369c5a2", "The pump turns at 40 rpm.", by decide⟩,
    ⟨"c_fe7ba15635d17d18", "The valve opens at 3 bar.", by decide⟩]

def speedQuery : CandidateQuery :=
  ⟨"How fast does the pump turn?", ["c_daff4cee9369c5a2", "c_0000000000000000"], "pump.md",
    none, ["pump"]⟩

def pressureQuery : CandidateQuery :=
  ⟨"When does the valve open?", ["c_fe7ba15635d17d18"], "valve.md", none, ["valve"]⟩

def speedSessions : SessionTable :=
  ⟨[newSession 10 "plant" "manuals" none 1 0], List.nodup_singleton _⟩

def blankThenAsked : List (SeedAct speedEnv) :=
  [.sessions speedSessions, .propose 10 speedDocuments (.ok [speedQuery, pressureQuery]),
   .openCuration 2 10 ⟨"q1", none, some false⟩, .loadCuration 2, .commitCuration 2,
   .openCuration 0 10 ⟨"q0", some "        ", some true⟩, .loadCuration 0, .commitCuration 0,
   .askSeed 0 ⟨10, none, 1, 2⟩, .readSeed 0, .saveSeed 0 ⟨5, 20, 30⟩,
   .openCuration 1 10 ⟨"q0", some " What is its speed? ", none⟩, .loadCuration 1, .commitCuration 1,
   .askSeed 1 ⟨10, none, 1, 2⟩, .readSeed 1, .saveSeed 1 ⟨6, 21, 31⟩]

/-- What the requests that seed were answered. -/
def seedAnswers (s : SeedState speedEnv) : List (Except String (List EvalItem)) :=
  s.log.filterMap (fun entry =>
    match entry.2 with
    | .seeded _ items => some (.ok items)
    | .refused (.notScoreable message) => some (.error message)
    | _ => none)

theorem blankThenAsked_run :
    (blankThenAsked.foldlM (seedStep speedSenv) (.start speedEnv .empty)).map seedAnswers =
      some [.error "item q0 has no question",
        .ok [⟨"q0", "What is its speed?", "", ["c_daff4cee9369c5a2"]⟩]] := by
  decide +kernel

theorem seeding_reviewed_blankThenAsked :
    ∃ t, Reaches (seedStep speedSenv) (.start speedEnv .empty) blankThenAsked t ∧
      seedAnswers t = [.error "item q0 has no question",
        .ok [⟨"q0", "What is its speed?", "", ["c_daff4cee9369c5a2"]⟩]] ∧
      Along (fun before entry => Told speedSenv (eventsOf entry.1 before) entry.2) t.log := by
  obtain ⟨t, hrun, hanswers⟩ := Option.map_eq_some_iff.mp blankThenAsked_run
  exact ⟨t, hrun, hanswers, seeding_reviewed speedEnv_digest hrun⟩

end AgenticPlatform.Onboarding
