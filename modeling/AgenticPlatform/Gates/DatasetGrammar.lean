import AgenticPlatform.Gates.ContentHash

/-!
# Which golden sets are accepted

A list of items is scoreable by its ids, its questions and its citations. `build_dataset`
goes through the items one by one; it differs from this where its pattern lets a newline
pass, and where a `must_cite` cannot be gone through.
-/
namespace AgenticPlatform.Gates
open AgenticPlatform.Foundation

variable {env : DatasetEnv} {seen : List String} {raw : RawItem} {raws : List RawItem}

/-! ## Citations -/

/-- `c_` and 6 to 32 lowercase hexadecimal digits: what a retriever can return. -/
def IsChunkId (c : String) : Prop :=
  ∃ digits, c.toList = 'c' :: '_' :: digits ∧ 6 ≤ digits.length ∧ digits.length ≤ 32 ∧
    ∀ d ∈ digits, d ∈ hexDigits

/-- Such an id with a newline behind it. -/
def IsChunkLine (c : String) : Prop := ∃ id, IsChunkId id ∧ c.toList = id.toList ++ ['\n']

theorem newline_notMem_hexDigits : '\n' ∉ hexDigits := by decide

theorem IsChunkId.canonicalId {c : String} (h : IsChunkId c) : canonicalId c = true := by
  obtain ⟨digits, hc, hmin, hmax, hhex⟩ := h
  have hlast : digits.getLast? ≠ some '\n' := by
    intro hlast
    exact newline_notMem_hexDigits (hhex '\n' (List.mem_of_getLast? hlast))
  simp only [Gates.canonicalId, hc, if_neg hlast]
  simpa [hmin, hmax] using hhex

theorem IsChunkLine.canonicalId {c : String} (h : IsChunkLine c) : canonicalId c = true := by
  obtain ⟨id, ⟨digits, hid, hmin, hmax, hhex⟩, hc⟩ := h
  simp only [Gates.canonicalId, hc, hid, List.cons_append, List.getLast?_append,
    List.getLast?_singleton, Option.some_or, if_true, List.dropLast_concat]
  simpa [hmin, hmax] using hhex

theorem IsChunkId.not_chunkLine {c : String} (h : IsChunkId c) : ¬ IsChunkLine c := by
  obtain ⟨digits, hc, -, -, hhex⟩ := h
  rintro ⟨id, ⟨digits', hid, -, -, -⟩, hc'⟩
  rw [hc, hid] at hc'
  simp only [List.cons_append, List.cons.injEq, true_and] at hc'
  refine newline_notMem_hexDigits (hhex '\n' ?_)
  rw [hc']
  exact List.mem_append_right _ List.mem_cons_self

/-- The pattern accepts these two and nothing else. -/
theorem canonicalId_iff {c : String} : canonicalId c = true ↔ IsChunkId c ∨ IsChunkLine c := by
  constructor
  · intro h
    unfold canonicalId at h
    split at h
    · rename_i rest hc
      split at h
      · rename_i hlast
        simp only [Bool.and_eq_true, decide_eq_true_eq, List.all_eq_true] at h
        obtain ⟨⟨hmin, hmax⟩, hhex⟩ := h
        refine Or.inr ⟨String.ofList ('c' :: '_' :: rest.dropLast),
          ⟨rest.dropLast, ?_, hmin, hmax, hhex⟩, ?_⟩
        · rw [String.toList_ofList]
        · rw [String.toList_ofList, hc, List.cons_append, List.cons_append,
            List.dropLast_append_getLast? '\n' hlast]
      · simp only [Bool.and_eq_true, decide_eq_true_eq, List.all_eq_true] at h
        exact Or.inl ⟨rest, hc, h.1.1, h.1.2, h.2⟩
    · cases h
  · rintro (h | h)
    · exact h.canonicalId
    · exact h.canonicalId

/-- `must_cite` cannot be gone through. -/
def Uncitable (env : DatasetEnv) (raw : RawItem) : Prop := citations env raw = .error .typeError

/-- The entries of `must_cite`, none where there is nothing to go through. -/
def citesOf (env : DatasetEnv) (raw : RawItem) : List String := (citations env raw).toOption.getD []

theorem citations_cases (env : DatasetEnv) (raw : RawItem) :
    citations env raw = .ok (citesOf env raw) ∨ Uncitable env raw := by
  unfold citesOf Uncitable citations
  split
  · exact Or.inl rfl
  · exact Or.inl rfl
  · exact Or.inl rfl
  · exact Or.inl rfl
  · exact Or.inr rfl

/-! ## One item -/

/-- What is required of an item before its citations are looked at. -/
structure Identified (env : DatasetEnv) (seen : List String) (raw : RawItem) : Prop where
  id : textField env raw "id" ≠ ""
  fresh : textField env raw "id" ∉ seen
  question : textField env raw "question" ≠ ""

/-- The item with its fields stripped. -/
def itemOf (env : DatasetEnv) (raw : RawItem) : EvalItem :=
  ⟨textField env raw "id", textField env raw "question", textField env raw "expected_answer",
    citesOf env raw⟩

theorem buildItem_identified (h : Identified env seen raw) (hcite : ¬ Uncitable env raw) :
    buildItem env seen raw = if (citesOf env raw).filter (fun c => !canonicalId c) ≠ [] then
        .error (.invalidDataset (badCitations env (textField env raw "id")
          ((citesOf env raw).filter (fun c => !canonicalId c))))
      else .ok (itemOf env raw) := by
  have hcitations := (citations_cases env raw).resolve_right hcite
  simp only [buildItem, if_neg h.id, if_neg h.fresh, if_neg h.question, hcitations]
  rfl

theorem buildItem_uncitable (h : Identified env seen raw) (hcite : Uncitable env raw) :
    buildItem env seen raw = .error .typeError := by
  rw [Uncitable] at hcite
  simp only [buildItem, if_neg h.id, if_neg h.fresh, if_neg h.question, hcite]
  rfl

theorem buildItem_ok (h : Identified env seen raw) (hcite : ¬ Uncitable env raw)
    (hcanonical : ∀ c ∈ citesOf env raw, canonicalId c = true) :
    buildItem env seen raw = .ok (itemOf env raw) := by
  rw [buildItem_identified h hcite, if_neg]
  rw [not_not, List.filter_eq_nil_iff]
  intro c hc
  simp [hcanonical c hc]

/-- Everything else is refused with a message. -/
theorem buildItem_refused
    (h : ¬ (Identified env seen raw ∧ ∀ c ∈ citesOf env raw, canonicalId c = true)) :
    ∃ message, buildItem env seen raw = .error (.invalidDataset message) := by
  by_cases hid : textField env raw "id" = ""
  · exact ⟨_, by rw [buildItem, if_pos hid]⟩
  by_cases hseen : textField env raw "id" ∈ seen
  · exact ⟨_, by rw [buildItem, if_neg hid, if_pos hseen]⟩
  by_cases hquestion : textField env raw "question" = ""
  · exact ⟨_, by rw [buildItem, if_neg hid, if_neg hseen, if_pos hquestion]⟩
  have hidentified : Identified env seen raw := ⟨hid, hseen, hquestion⟩
  have hbad : ∃ c ∈ citesOf env raw, canonicalId c ≠ true := by
    by_contra hnone
    exact h ⟨hidentified, fun c hc => not_not.mp (fun hne => hnone ⟨c, hc, hne⟩)⟩
  have hcite : ¬ Uncitable env raw := by
    intro hcite
    rw [Uncitable] at hcite
    obtain ⟨c, hc, -⟩ := hbad
    rw [citesOf, hcite] at hc
    cases hc
  rw [buildItem_identified hidentified hcite, if_pos]
  · exact ⟨_, rfl⟩
  · obtain ⟨c, hc, hne⟩ := hbad
    exact List.ne_nil_of_mem (List.mem_filter.mpr ⟨hc, by simpa using hne⟩)

/-! ## All items -/

def idOf (env : DatasetEnv) (raw : RawItem) : String := textField env raw "id"

/-- What is required of a list, as far as the pattern checks it. -/
structure Regular (env : DatasetEnv) (seen : List String) (raws : List RawItem) : Prop where
  ids : ∀ raw ∈ raws, idOf env raw ≠ "" ∧ idOf env raw ∉ seen
  distinct : (raws.map (idOf env)).Nodup
  questions : ∀ raw ∈ raws, textField env raw "question" ≠ ""
  canonical : ∀ raw ∈ raws, ∀ c ∈ citesOf env raw, canonicalId c = true

theorem regular_cons :
    Regular env seen (raw :: raws) ↔ Identified env seen raw ∧
      (∀ c ∈ citesOf env raw, canonicalId c = true) ∧ Regular env (idOf env raw :: seen) raws := by
  constructor
  · rintro ⟨hids, hdistinct, hquestions, hcanonical⟩
    obtain ⟨hnew, hdistinct⟩ := List.nodup_cons.mp hdistinct
    obtain ⟨hid, hfresh⟩ := hids raw List.mem_cons_self
    refine ⟨⟨hid, hfresh, hquestions raw List.mem_cons_self⟩, hcanonical raw List.mem_cons_self,
      ?_, hdistinct, fun r hr => hquestions r (List.mem_cons_of_mem raw hr),
      fun r hr => hcanonical r (List.mem_cons_of_mem raw hr)⟩
    intro r hr
    obtain ⟨hid, hfresh⟩ := hids r (List.mem_cons_of_mem raw hr)
    refine ⟨hid, ?_⟩
    intro hmem
    rcases List.mem_cons.mp hmem with heq | hmem
    · exact hnew (heq ▸ List.mem_map_of_mem hr)
    · exact hfresh hmem
  · rintro ⟨hitem, hcanonical, hrest⟩
    refine ⟨List.forall_mem_cons.mpr ⟨⟨hitem.id, hitem.fresh⟩, ?_⟩,
      List.nodup_cons.mpr ⟨?_, hrest.distinct⟩,
      List.forall_mem_cons.mpr ⟨hitem.question, hrest.questions⟩,
      List.forall_mem_cons.mpr ⟨hcanonical, hrest.canonical⟩⟩
    · exact fun r hr =>
        ⟨(hrest.ids r hr).1, fun hmem => (hrest.ids r hr).2 (List.mem_cons_of_mem _ hmem)⟩
    · intro hmem
      obtain ⟨r, hr, heq⟩ := List.mem_map.mp hmem
      exact (hrest.ids r hr).2 (heq ▸ List.mem_cons_self)

/-- The loop meets a `must_cite` it cannot go through, and nothing to refuse before it. -/
def Stumbles (env : DatasetEnv) (seen : List String) (raws : List RawItem) : Prop :=
  ∃ pre raw post, raws = pre ++ raw :: post ∧ Regular env seen pre ∧
    (∀ r ∈ pre, ¬ Uncitable env r) ∧ Identified env (pre.map (idOf env) ++ seen) raw ∧
    Uncitable env raw

theorem buildItems_cons (hitem : Identified env seen raw) (hcite : ¬ Uncitable env raw)
    (hcanonical : ∀ c ∈ citesOf env raw, canonicalId c = true) (raws : List RawItem) :
    buildItems env seen (raw :: raws) =
      (buildItems env (idOf env raw :: seen) raws).map (itemOf env raw :: ·) := by
  have hid : (itemOf env raw).id = idOf env raw := rfl
  rw [buildItems, buildItem_ok hitem hcite hcanonical]
  simp only [bind, Except.bind, hid]
  cases buildItems env (idOf env raw :: seen) raws <;> rfl

theorem buildItems_regular (h : Regular env seen raws) (hcite : ∀ raw ∈ raws, ¬ Uncitable env raw) :
    buildItems env seen raws = .ok (raws.map (itemOf env)) := by
  induction raws generalizing seen with
  | nil => rfl
  | cons raw raws ih =>
    obtain ⟨hitem, hcanonical, hrest⟩ := regular_cons.mp h
    rw [buildItems_cons hitem (hcite raw List.mem_cons_self) hcanonical,
      ih hrest (fun r hr => hcite r (List.mem_cons_of_mem raw hr))]
    rfl

theorem Identified.mono {seen' : List String} (h : Identified env seen raw) (hsub : seen' ⊆ seen) :
    Identified env seen' raw :=
  ⟨h.id, fun hmem => h.fresh (hsub hmem), h.question⟩

theorem buildItems_stumbles (h : Stumbles env seen raws) :
    buildItems env seen raws = .error .typeError := by
  obtain ⟨pre, raw, post, rfl, hpre, hcite, hitem, huncitable⟩ := h
  induction pre generalizing seen with
  | nil =>
    have hfirst : Identified env seen raw := hitem
    rw [List.nil_append, buildItems, buildItem_uncitable hfirst huncitable]
    rfl
  | cons first pre ih =>
    obtain ⟨hfirst, hcanonical, hrest⟩ := regular_cons.mp hpre
    have hlater : Identified env (pre.map (idOf env) ++ idOf env first :: seen) raw := by
      refine hitem.mono ?_
      intro id hid
      simpa [or_left_comm] using hid
    rw [List.cons_append, buildItems_cons hfirst (hcite first List.mem_cons_self) hcanonical,
      ih hrest (fun r hr => hcite r (List.mem_cons_of_mem first hr)) hlater]
    rfl

/-- The loop accepts, stumbles, or refuses with a message. -/
theorem buildItems_cases (env : DatasetEnv) (seen : List String) (raws : List RawItem) :
    (Regular env seen raws ∧ ∀ raw ∈ raws, ¬ Uncitable env raw) ∨ Stumbles env seen raws ∨
      (¬ Regular env seen raws ∧
        ∃ message, buildItems env seen raws = .error (.invalidDataset message)) := by
  induction raws generalizing seen with
  | nil => exact Or.inl ⟨⟨nofun, List.nodup_nil, nofun, nofun⟩, nofun⟩
  | cons raw raws ih =>
    by_cases hitem : Identified env seen raw ∧ ∀ c ∈ citesOf env raw, canonicalId c = true
    · obtain ⟨hitem, hcanonical⟩ := hitem
      by_cases hcite : Uncitable env raw
      · exact Or.inr (Or.inl
          ⟨[], raw, raws, rfl, ⟨nofun, List.nodup_nil, nofun, nofun⟩, nofun, hitem, hcite⟩)
      · rcases ih (idOf env raw :: seen) with ⟨hrest, hciteRest⟩ | hstumbles |
          ⟨hrest, message, hmessage⟩
        · exact Or.inl ⟨regular_cons.mpr ⟨hitem, hcanonical, hrest⟩,
            List.forall_mem_cons.mpr ⟨hcite, hciteRest⟩⟩
        · obtain ⟨pre, bad, post, rfl, hpre, hcitePre, hbad, huncitable⟩ := hstumbles
          refine Or.inr (Or.inl
            ⟨raw :: pre, bad, post, rfl, regular_cons.mpr ⟨hitem, hcanonical, hpre⟩,
              List.forall_mem_cons.mpr ⟨hcite, hcitePre⟩, hbad.mono ?_, huncitable⟩)
          intro id hid
          simpa [or_left_comm] using hid
        · refine Or.inr (Or.inr ⟨fun h => hrest (regular_cons.mp h).2.2, message, ?_⟩)
          rw [buildItems_cons hitem hcite hcanonical, hmessage]
          rfl
    · obtain ⟨message, hmessage⟩ := buildItem_refused hitem
      refine Or.inr (Or.inr
        ⟨fun h => hitem ⟨(regular_cons.mp h).1, (regular_cons.mp h).2.1⟩, message, ?_⟩)
      rw [buildItems, hmessage]
      rfl

/-! ## Scoreable sets -/

/-- What a golden set has to be. -/
structure Scoreable (env : DatasetEnv) (raws : List RawItem) : Prop where
  nonempty : raws ≠ []
  ids : ∀ raw ∈ raws, idOf env raw ≠ ""
  distinct : (raws.map (idOf env)).Nodup
  questions : ∀ raw ∈ raws, textField env raw "question" ≠ ""
  citations : ∀ raw ∈ raws, ∀ c ∈ citesOf env raw, IsChunkId c

/-- Just these lists are accepted, with their fields stripped, and the others refused. -/
structure AcceptsExactly (env : DatasetEnv) (raws : List RawItem) : Prop where
  accepts : (∃ items, buildDataset env raws = .ok items) ↔ Scoreable env raws
  stripped : ∀ items, buildDataset env raws = .ok items → items = raws.map (itemOf env)
  refuses : (∀ items, buildDataset env raws ≠ .ok items) →
    ∃ message, buildDataset env raws = .error (.invalidDataset message)

theorem Scoreable.regular (h : Scoreable env raws) : Regular env [] raws :=
  ⟨fun raw hraw => ⟨h.ids raw hraw, List.not_mem_nil⟩, h.distinct, h.questions,
    fun raw hraw c hc => (h.citations raw hraw c hc).canonicalId⟩

/-- A list is judged as it should be exactly where the loop does not stumble, and where a list
that is accepted has no id with a newline behind it. -/
theorem acceptsExactly_iff (env : DatasetEnv) (raws : List RawItem) : AcceptsExactly env raws ↔
    ¬ Stumbles env [] raws ∧ (Regular env [] raws → (∀ raw ∈ raws, ¬ Uncitable env raw) →
      ∀ raw ∈ raws, ∀ c ∈ citesOf env raw, ¬ IsChunkLine c) := by
  by_cases hempty : raws = []
  · subst hempty
    refine iff_of_true ⟨iff_of_false (by rintro ⟨items, h⟩; cases h) (fun h => h.nonempty rfl),
      nofun, fun _ => ⟨_, rfl⟩⟩
      ⟨?_, fun _ _ => nofun⟩
    rintro ⟨pre, raw, post, h, -⟩
    exact List.cons_ne_nil _ _ (List.append_eq_nil_iff.mp h.symm).2
  have hloop : buildDataset env raws = buildItems env [] raws := if_neg hempty
  constructor
  · rintro ⟨haccepts, -, hrefuses⟩
    constructor
    · intro hstumbles
      have herror := hloop.trans (buildItems_stumbles hstumbles)
      obtain ⟨message, hmessage⟩ := hrefuses (fun items hok => by rw [herror] at hok; cases hok)
      rw [herror] at hmessage
      cases hmessage
    · intro hregular hcite raw hraw c hc
      exact ((haccepts.mp ⟨_, hloop.trans (buildItems_regular hregular hcite)⟩).citations raw hraw c
        hc).not_chunkLine
  · rintro ⟨hsteady, hplain⟩
    rcases buildItems_cases env [] raws with ⟨hregular, hcite⟩ | hstumbles |
      ⟨hirregular, message, hmessage⟩
    · have hok := hloop.trans (buildItems_regular hregular hcite)
      refine ⟨iff_of_true ⟨_, hok⟩
        ⟨hempty, fun raw hraw => (hregular.ids raw hraw).1, hregular.distinct,
          hregular.questions, ?_⟩, ?_, fun hnot => absurd hok (hnot _)⟩
      · intro raw hraw c hc
        exact (canonicalId_iff.mp (hregular.canonical raw hraw c hc)).resolve_right
          (hplain hregular hcite raw hraw c hc)
      · intro items hitems
        rw [hok] at hitems
        exact (Except.ok.inj hitems).symm
    · exact absurd hstumbles hsteady
    · have herror := hloop.trans hmessage
      refine ⟨iff_of_false ?_ (fun h => hirregular h.regular), ?_, fun _ => ⟨message, herror⟩⟩
      · rintro ⟨items, hok⟩
        rw [herror] at hok
        cases hok
      · intro items hok
        rw [herror] at hok
        cases hok

/-! A citation that was copied with the end of its line. -/

def copiedLine : RawItem :=
  [("id", .str "q1"), ("question", .str "Which torque?"), ("must_cite", .arr [.str "c_0a1b2c\n"])]

/-- The set is accepted, and the retriever cannot emit the id. -/
theorem newline_accepted :
    buildDataset plainTextsEnv [copiedLine] = .ok [⟨"q1", "Which torque?", "", ["c_0a1b2c\n"]⟩] ∧
      ¬ AcceptsExactly plainTextsEnv [copiedLine] := by
  have hok : buildDataset plainTextsEnv [copiedLine] =
      .ok [⟨"q1", "Which torque?", "", ["c_0a1b2c\n"]⟩] := by decide +kernel
  refine ⟨hok, ?_⟩
  intro h
  have hid :=
    (h.accepts.mp ⟨_, hok⟩).citations copiedLine List.mem_cons_self "c_0a1b2c\n" (by decide +kernel)
  have hdigits : ("0a1b2c".toList.all (fun d => hexDigits.contains d)) = true := by decide
  have hhex : ∀ d ∈ "0a1b2c".toList, d ∈ hexDigits :=
    fun d hd => List.contains_iff_mem.mp (List.all_eq_true.mp hdigits d hd)
  exact hid.not_chunkLine ⟨"c_0a1b2c", ⟨"0a1b2c".toList, rfl, by decide, by decide, hhex⟩, rfl⟩

end AgenticPlatform.Gates
