import AgenticPlatform.Foundation.Gate
import AgenticPlatform.Gates.Datasets

/-!
# The hash of a golden set

`content_sha` hashes the items in the order of their ids, so it does not depend on the
order they came in; and what `build_dataset` has accepted it accepts again, unchanged.
-/
namespace AgenticPlatform.Gates
open AgenticPlatform.Foundation

variable {env : DatasetEnv} {seen : List String} {raw : RawItem} {raws : List RawItem}
  {item : EvalItem} {items items' : List EvalItem}

/-! ## What has been accepted -/

structure EvalItem.Accepted (item : EvalItem) : Prop where
  id : item.id ≠ ""
  question : item.question ≠ ""
  canonical : ∀ c ∈ item.mustCite, canonicalId c = true
  normalized : item.normalized = item

theorem buildItem_accepted (h : buildItem env seen raw = .ok item) :
    item.Accepted ∧ item.id ∉ seen := by
  have hnormalized := buildItem_normalized h
  simp only [buildItem] at h
  split at h
  · cases h
  · rename_i hid
    split at h
    · cases h
    · rename_i hfresh
      split at h
      · cases h
      · rename_i hquestion
        obtain ⟨mustCite, -, h⟩ := bind_eq_ok h
        split at h
        · cases h
        · rename_i hbad
          cases h
          refine ⟨⟨hid, hquestion, ?_, hnormalized⟩, hfresh⟩
          intro c hc
          have hnone := List.filter_eq_nil_iff.mp (not_not.mp hbad) c hc
          simpa using hnone

/-- An accepted item is accepted again where its id is new. -/
theorem EvalItem.Accepted.buildItem (hitem : item.Accepted) (hfresh : item.id ∉ seen) :
    buildItem env seen item.toDict = .ok item := by
  have hid : textField env item.toDict "id" = item.id :=
    (textField_of_str rfl).trans (congrArg EvalItem.id hitem.normalized)
  have hquestion : textField env item.toDict "question" = item.question :=
    (textField_of_str rfl).trans (congrArg EvalItem.question hitem.normalized)
  have hanswer : textField env item.toDict "expected_answer" = item.expectedAnswer :=
    (textField_of_str rfl).trans (congrArg EvalItem.expectedAnswer hitem.normalized)
  have hnone : item.mustCite.filter (fun c => !canonicalId c) = [] := by
    refine List.filter_eq_nil_iff.mpr ?_
    intro c hc
    simpa using hitem.canonical c hc
  simp only [Gates.buildItem, hid, hquestion, hanswer, citations_toDict, if_neg hitem.id,
    if_neg hfresh, if_neg hitem.question]
  exact if_neg (not_not.mpr hnone)

theorem buildItems_accepted (h : buildItems env seen raws = .ok items) :
    (∀ item ∈ items, item.Accepted ∧ item.id ∉ seen) ∧ (items.map EvalItem.id).Nodup := by
  induction raws generalizing seen items with
  | nil =>
    cases h
    exact ⟨fun _ hmem => absurd hmem List.not_mem_nil, List.nodup_nil⟩
  | cons raw raws ih =>
    obtain ⟨first, hfirst, h⟩ := bind_eq_ok h
    obtain ⟨rest, hrest, h⟩ := bind_eq_ok h
    cases h
    obtain ⟨haccepted, hnodup⟩ := ih hrest
    constructor
    · intro item hmem
      rcases List.mem_cons.mp hmem with rfl | hmem
      · exact buildItem_accepted hfirst
      · obtain ⟨hitem, hfresh⟩ := haccepted item hmem
        exact ⟨hitem, fun hseen => hfresh (List.mem_cons_of_mem _ hseen)⟩
    · refine List.nodup_cons.mpr ⟨?_, hnodup⟩
      intro hmem
      obtain ⟨item, hitem, hid⟩ := List.mem_map.mp hmem
      exact (haccepted item hitem).2 (hid ▸ List.mem_cons_self)

theorem buildItems_of_accepted (haccepted : ∀ item ∈ items, item.Accepted ∧ item.id ∉ seen)
    (hnodup : (items.map EvalItem.id).Nodup) :
    buildItems env seen (items.map EvalItem.toDict) = .ok items := by
  induction items generalizing seen with
  | nil => rfl
  | cons item items ih =>
    obtain ⟨hitem, hfresh⟩ := haccepted item List.mem_cons_self
    obtain ⟨hnew, hnodup⟩ := List.nodup_cons.mp hnodup
    have hrest : buildItems env (item.id :: seen) (items.map EvalItem.toDict) = .ok items := by
      refine ih ?_ hnodup
      intro x hx
      obtain ⟨hxitem, hxfresh⟩ := haccepted x (List.mem_cons_of_mem _ hx)
      refine ⟨hxitem, ?_⟩
      intro hmem
      rcases List.mem_cons.mp hmem with hid | hmem
      · exact hnew (hid ▸ List.mem_map_of_mem hx)
      · exact hxfresh hmem
    simp only [List.map_cons, buildItems, hitem.buildItem hfresh, hrest, bind, Except.bind]

theorem buildDataset_accepted (h : buildDataset env raws = .ok items) :
    items ≠ [] ∧ (∀ item ∈ items, item.Accepted) ∧ (items.map EvalItem.id).Nodup := by
  unfold buildDataset at h
  split at h
  · cases h
  · rename_i hraws
    obtain ⟨haccepted, hnodup⟩ := buildItems_accepted h
    refine ⟨?_, fun item hitem => (haccepted item hitem).1, hnodup⟩
    rintro rfl
    cases raws with
    | nil => exact hraws rfl
    | cons raw raws =>
      obtain ⟨first, -, h⟩ := bind_eq_ok h
      obtain ⟨rest, -, h⟩ := bind_eq_ok h
      cases h

/-- What has been accepted is accepted again, as it is. -/
theorem buildDataset_again (h : buildDataset env raws = .ok items) :
    buildDataset env (items.map EvalItem.toDict) = .ok items := by
  obtain ⟨hne, haccepted, hnodup⟩ := buildDataset_accepted h
  have hmap : items.map EvalItem.toDict ≠ [] := fun hnil => hne (List.map_eq_nil_iff.mp hnil)
  rw [buildDataset, if_neg hmap]
  exact buildItems_of_accepted (fun item hitem => ⟨haccepted item hitem, List.not_mem_nil⟩) hnodup

/-! ## The hash -/

/-- The encoding of an item with sorted keys determines it. -/
theorem EvalItem.toDict_injective {a b : EvalItem}
    (h : (Json.obj a.toDict).sortKeys = (Json.obj b.toDict).sortKeys) : a = b := by
  have hkeys : ["id", "question", "expected_answer", "must_cite"].Nodup := by decide
  have hid := Json.value_of_sortKeys h hkeys 0 rfl rfl
  have hquestion := Json.value_of_sortKeys h hkeys 1 rfl rfl
  have hanswer := Json.value_of_sortKeys h hkeys 2 rfl rfl
  have hcite := Json.value_of_sortKeys h hkeys 3 rfl rfl
  have htext : Json.sortKeys ∘ Json.str = Json.str := rfl
  simp only [Json.sortKeys, Json.sortItems_eq_map, List.map_map, htext, Json.str.injEq,
    Json.arr.injEq] at hid hquestion hanswer hcite
  have hmust : a.mustCite = b.mustCite :=
    List.map_injective_iff.mpr (fun x y hxy => Json.str.inj hxy) hcite
  cases a
  cases b
  simp_all

theorem contentSha_eq_iff (hsha : Function.Injective env.sha256)
    (hkeys : (items.map EvalItem.id).Nodup) :
    contentSha env items = contentSha env items' ↔ items.Perm items' := by
  have hdocs : Function.Injective (fun item : EvalItem => (Json.obj item.toDict).sortKeys) :=
    fun _ _ h => EvalItem.toDict_injective h
  rw [← sortedBy_eq_iff_perm hkeys]
  constructor
  · intro h
    have hsorted := Json.dumpsAscii_injective (hsha h)
    simp only [Json.sortKeys, Json.arr.injEq, Json.sortItems_eq_map, List.map_map] at hsorted
    exact List.map_injective_iff.mpr hdocs hsorted
  · intro h
    rw [contentSha, contentSha, h]

/-- The hash of an accepted list is that of its permutations and of no other list, and what is
stored of it is accepted again as it is. -/
theorem content_sha_is_version_identity (hsha : Function.Injective env.sha256)
    (h : buildDataset env raws = .ok items) :
    (∀ items', contentSha env items = contentSha env items' ↔ items.Perm items') ∧
      buildDataset env (items.map EvalItem.toDict) = .ok items :=
  ⟨fun _ => contentSha_eq_iff hsha (buildDataset_accepted h).2.2, buildDataset_again h⟩

/-! Two questions as they are sent, and in texts that stand for their hashes. -/

def plainTextsEnv : DatasetEnv where
  sha256 := id
  valueText := fun _ => ""
  reprText := id
  interval := ⟨21600, Governance.sixHours_isInterval⟩
  topK := ⟨5, Governance.five_isTopK⟩

def sentQuestions : List RawItem :=
  [[("id", .str " q2 "), ("question", .str "Which pump?\n"), ("must_cite", .arr [.str "c_0123ab"])],
    [("question", .str "Which valve?"), ("expected_answer", .str " V7"), ("id", .str "q1"),
      ("note", .null)]]

def storedQuestions : List EvalItem :=
  [⟨"q2", "Which pump?", "", ["c_0123ab"]⟩, ⟨"q1", "Which valve?", "V7", []⟩]

theorem sentQuestions_built : buildDataset plainTextsEnv sentQuestions = .ok storedQuestions := by
  decide +kernel

theorem content_sha_is_version_identity_sentQuestions :
    (∀ items', contentSha plainTextsEnv storedQuestions = contentSha plainTextsEnv items' ↔
      storedQuestions.Perm items') ∧
      buildDataset plainTextsEnv (storedQuestions.map EvalItem.toDict) = .ok storedQuestions :=
  content_sha_is_version_identity (fun _ _ h => h) sentQuestions_built

end AgenticPlatform.Gates
