import AgenticPlatform.Foundation.Traversal
import AgenticPlatform.Onboarding.DraftedOriginals
import AgenticPlatform.Workloads.ArtifactFiles

/-!
# Types that a taxonomy declares

`taxonomy_fit` counts the instances whose type is not declared, and an edit retypes
instances by a map from types to declared ones. The two look at a type differently: one
at the value and its prefix, the other at its text, with and without the prefix.
-/
namespace AgenticPlatform.Workloads
open AgenticPlatform.Foundation AgenticPlatform.Identity AgenticPlatform.Onboarding

/-! ## The report -/

abbrev instancesOf : Json → Option (List Json) := listAt "instances"

def removeRaw (text : String) : String :=
  if text.startsWith "raw:" then (text.drop 4).toString else text

section
variable (env : OnboardingEnv)

/-- Whether an instance is counted; `none` where the test raises: an instance that is no
object, a type that cannot be hashed. -/
def unclassified (declared : List String) : Json → Option Bool
  | .obj fields =>
    if (typeText env fields).startsWith "raw:" then some true
    else
      match fieldOf fields "entity_type" with
      | some (.str text) => some (text ∉ declared)
      | some (.arr _) | some (.obj _) => none
      | _ => some true
  | _ => none

def unclassifiedAmong (declared : List String) : List Json → Option (List Json)
  | [] => some []
  | item :: items =>
    match unclassified env declared item, unclassifiedAmong declared items with
    | some true, some rest => some (item :: rest)
    | some false, some rest => some rest
    | _, _ => none

/-- The type that is suggested for an instance. -/
def suggestionOf : Json → String
  | .obj fields =>
    match truthy (fieldOf fields "raw_type") with
    | some (.str text) => strip text
    | some value => strip (env.valueText value)
    | none => strip (removeRaw (typeText env fields))
  | _ => ""

/-- How often each type is suggested, in the order they come up. -/
def suggestionCounts (items : List Json) : List (String × Nat) :=
  items.foldl (fun counts item =>
    if suggestionOf env item = "" then counts
    else Dict.setItem counts (suggestionOf env item)
      ((counts.lookup (suggestionOf env item)).getD 0 + 1))
      []

/-- What `taxonomy_fit` returns; the share before it is rounded. -/
structure TaxonomyFit where
  instances : Nat
  instancesUnclassified : Nat
  unclassifiedShare : ℚ
  declaredEntityTypes : List String
  suggestedEntityTypes : List (String × Nat)

def taxonomyFit (declared : List String) (table : Json) : Option TaxonomyFit :=
  (instancesOf table).bind (fun items =>
    (unclassifiedAmong env declared items).map (fun counted =>
      { instances := items.length
        instancesUnclassified := counted.length
        unclassifiedShare := counted.length / items.length
        declaredEntityTypes := declared.dedup.insertionSort (· ≤ ·)
        suggestedEntityTypes :=
          ((suggestionCounts env counted).insertionSort (fun a b => b.2 ≤ a.2)).take 20 }))

/-! ## Retyping -/

/-- The type of an instance is not declared. -/
def Outside (declared : List String) : Json → Prop
  | .obj fields => (typeText env fields).startsWith "raw:" = true ∨
    ∀ text ∈ declared, fieldOf fields "entity_type" ≠ some (.str text)
  | _ => True

/-- The map leads the text of the type to no other text. -/
def KeepsType (retype : List (String × String)) : Json → Prop
  | .obj fields => ∀ mapped ∈ mappedType retype (typeText env fields), mapped = typeText env fields
  | _ => True

instance (declared : List String) : DecidablePred (Outside env declared)
  | .obj _ => inferInstanceAs (Decidable (_ ∨ ∀ text ∈ declared, _))
  | .null | .bool _ | .num _ | .str _ | .arr _ => isTrue trivial

instance (retype : List (String × String)) : DecidablePred (KeepsType env retype)
  | .obj fields =>
    inferInstanceAs (Decidable (∀ mapped ∈ mappedType retype (typeText env fields), _))
  | .null | .bool _ | .num _ | .str _ | .arr _ => isTrue trivial

/-- The count that `edit_schema` returns. -/
def instancesRetyped (retype : List (String × String)) (table : Json) : Option Nat :=
  (instancesOf table).map (fun items => items.countP (fun item => ¬ KeepsType env retype item))

end

/-! ## One instance -/

section
variable {env : OnboardingEnv} {declared : List String} {retype : List (String × String)}

theorem targetOf_eq_some {name target : String} (h : targetOf retype name = some target) :
    (name, target) ∈ retype := by
  obtain ⟨earlier, later, hretype, -⟩ :=
    List.lookup_eq_some_iff.mp (Option.filter_eq_some_iff.mp h).1
  rw [hretype]
  exact List.mem_append_right earlier List.mem_cons_self

theorem mappedType_eq_some {current mapped : String} (h : mappedType retype current = some mapped) :
    ∃ name, (name, mapped) ∈ retype := by
  rcases Option.or_eq_some_iff.mp h with h | ⟨-, h⟩
  · exact ⟨_, targetOf_eq_some h⟩
  · exact ⟨_, targetOf_eq_some h⟩

/-- What is no key, and has no prefix, is mapped nowhere. -/
theorem mappedType_eq_none {current : String} (hkey : ∀ e ∈ retype, e.1 ≠ current)
    (hraw : current.startsWith "raw:" = false) : mappedType retype current = none := by
  have htarget : targetOf retype current = none := by
    cases h : targetOf retype current with
    | none => rfl
    | some target => exact absurd rfl (hkey _ (targetOf_eq_some h))
  rw [mappedType, hraw, if_neg Bool.false_ne_true, htarget, Option.none_or]

/-- What the loop of `edit_schema` does to an instance. -/
inductive Retyped (env : OnboardingEnv) (retype : List (String × String)) : Json → Json → Prop
  | kept (item : Json) (hkeeps : KeepsType env retype item) : Retyped env retype item item
  | mapped (fields : List (String × Json)) (target : String)
    (htarget : mappedType retype (typeText env fields) = some target)
    (hnew : target ≠ typeText env fields) :
    Retyped env retype (.obj fields) (.obj (setField fields "entity_type" (.str target)))

theorem retyped_of_retypeInstance {item item' : Json}
    (h : retypeInstance env retype item = some item') : Retyped env retype item item' := by
  cases item with
  | obj fields =>
    simp only [retypeInstance] at h
    split at h
    · rename_i mapped hmapped
      split at h
      · rename_i hsame
        cases h
        refine .kept _ (fun target htarget => ?_)
        rw [hmapped] at htarget
        cases htarget
        exact hsame
      · cases h
        exact .mapped fields mapped hmapped ‹_›
    · rename_i hnone
      cases h
      refine .kept _ (fun target htarget => ?_)
      rw [hnone] at htarget
      cases htarget
  | null | bool _ | num _ | str _ | arr _ => cases h

theorem typeText_mapped (fields : List (String × Json)) (target : String) :
    typeText env (setField fields "entity_type" (.str target)) = target := by
  rw [typeText, fieldOf_setField, if_pos rfl]

/-- A target is a declared type, and has no prefix. -/
def TargetsDeclared (declared : List String) (retype : List (String × String)) : Prop :=
  (∀ text ∈ declared, text.startsWith "raw:" = false) ∧ ∀ e ∈ retype, e.2 ∈ declared

theorem unclassified_obj (declared : List String) (fields : List (String × Json)) :
    unclassified env declared (.obj fields) =
      if (typeText env fields).startsWith "raw:" then some true
      else
        match fieldOf fields "entity_type" with
        | some (.str text) => some (text ∉ declared)
        | some (.arr _) | some (.obj _) => none
        | _ => some true := rfl

theorem unclassified_eq_true {item : Json} (h : unclassified env declared item ≠ none) :
    unclassified env declared item = some true ↔ Outside env declared item := by
  cases item with
  | obj fields =>
    rw [unclassified_obj] at h ⊢
    change _ ↔ (typeText env fields).startsWith "raw:" = true ∨ _
    by_cases hraw : (typeText env fields).startsWith "raw:" = true
    · rw [if_pos hraw]
      exact iff_of_true rfl (Or.inl hraw)
    · rw [if_neg hraw] at h ⊢
      rw [iff_false_intro hraw, false_or]
      cases hfield : fieldOf fields "entity_type" with
      | none => exact iff_of_true rfl nofun
      | some value =>
        rw [hfield] at h
        cases value with
        | str text =>
          constructor
          · rintro hcounted declaredText hdeclared hsame
            cases Option.some.inj hsame
            exact of_decide_eq_true (Option.some.inj hcounted) hdeclared
          · intro hall
            exact congrArg some (decide_eq_true (fun hdeclared => hall text hdeclared rfl))
        | arr _ => exact absurd rfl h
        | obj _ => exact absurd rfl h
        | null | bool _ | num _ => exact iff_of_true rfl nofun
  | null | bool _ | num _ | str _ | arr _ => exact absurd rfl h

theorem declared_of_unclassified {item : Json} (h : unclassified env declared item = some false) :
    ∃ fields, item = .obj fields ∧
      ∃ text ∈ declared, fieldOf fields "entity_type" = some (.str text) := by
  have hinside :=
    mt (unclassified_eq_true (by rw [h]; exact Option.some_ne_none false)).mpr (by rw [h]; decide)
  cases item with
  | obj fields =>
    obtain ⟨-, hdeclared⟩ := not_or.mp hinside
    obtain ⟨text, htext⟩ := not_forall.mp hdeclared
    obtain ⟨hmem, hfield⟩ := Classical.not_imp.mp htext
    exact ⟨fields, rfl, text, hmem, not_not.mp hfield⟩
  | null | bool _ | num _ | str _ | arr _ => exact absurd trivial hinside

theorem unclassified_mapped (h : TargetsDeclared declared retype) {fields : List (String × Json)}
    {target : String} (htarget : mappedType retype (typeText env fields) = some target) :
    unclassified env declared (.obj (setField fields "entity_type" (.str target))) =
      some false := by
  obtain ⟨name, hname⟩ := mappedType_eq_some htarget
  have hdeclared : target ∈ declared := h.2 _ hname
  rw [unclassified_obj, typeText_mapped, h.1 target hdeclared, if_neg Bool.false_ne_true,
    fieldOf_setField, if_pos rfl]
  simp [hdeclared]

/-- Who is counted afterwards: whose type was not declared, and is not led elsewhere. -/
theorem unclassified_retyped (h : TargetsDeclared declared retype) {item item' : Json}
    (hitem : Retyped env retype item item') (hreads : unclassified env declared item' ≠ none) :
    unclassified env declared item' = some true ↔
      Outside env declared item ∧ KeepsType env retype item := by
  cases hitem with
  | kept _ hkeeps => rw [unclassified_eq_true hreads, and_iff_left hkeeps]
  | mapped fields target htarget hnew =>
    rw [unclassified_mapped h htarget]
    refine iff_of_false nofun ?_
    rintro ⟨-, hkeeps⟩
    exact hnew (hkeeps target htarget)

theorem fields_retyped {item item' : Json} (h : Retyped env retype item item') :
    item' = item ∨ ∃ fields fields', item = .obj fields ∧ item' = .obj fields' ∧
      ∀ name, name ≠ "entity_type" → fieldOf fields' name = fieldOf fields name := by
  cases h with
  | kept _ _ => exact Or.inl rfl
  | mapped fields target _ _ =>
    refine Or.inr ⟨fields, _, rfl, rfl, ?_⟩
    intro name hname
    rw [fieldOf_setField, if_neg hname]

/-- No target is a type that the map retypes. -/
def KeysDisjoint (retype : List (String × String)) : Prop := ∀ e ∈ retype, ∀ e' ∈ retype, e.1 ≠ e'.2

theorem keepsType_retyped (h : TargetsDeclared declared retype) (hdisjoint : KeysDisjoint retype)
    {item item' : Json} (hitem : Retyped env retype item item') : KeepsType env retype item' := by
  cases hitem with
  | kept _ hkeeps => exact hkeeps
  | mapped fields target htarget hnew =>
    obtain ⟨name, hname⟩ := mappedType_eq_some htarget
    have hnone := mappedType_eq_none (fun e he => hdisjoint e he _ hname) (h.1 target (h.2 _ hname))
    intro again hagain
    rw [typeText_mapped, hnone] at hagain
    cases hagain

theorem retypeInstance_of_keeps {fields : List (String × Json)}
    (h : KeepsType env retype (.obj fields)) :
    retypeInstance env retype (.obj fields) = some (.obj fields) := by
  simp only [retypeInstance]
  cases hmapped : mappedType retype (typeText env fields) with
  | none => rfl
  | some mapped => exact if_pos (h mapped hmapped)

/-! ## The table -/

theorem unclassifiedAmong_eq_some {items counted : List Json}
    (h : unclassifiedAmong env declared items = some counted) :
    (∀ item ∈ items, unclassified env declared item ≠ none) ∧
      counted = items.filter (fun item => unclassified env declared item = some true) := by
  induction items generalizing counted with
  | nil =>
    cases h
    exact ⟨nofun, rfl⟩
  | cons item items ih =>
    unfold unclassifiedAmong at h
    split at h
    · rename_i rest hitem hrest
      cases h
      obtain ⟨hreads, rfl⟩ := ih hrest
      refine ⟨List.forall_mem_cons.mpr ⟨by rw [hitem]; exact Option.some_ne_none true, hreads⟩, ?_⟩
      rw [List.filter_cons, if_pos (decide_eq_true hitem)]
    · rename_i rest hitem hrest
      cases h
      obtain ⟨hreads, rfl⟩ := ih hrest
      refine ⟨List.forall_mem_cons.mpr ⟨by rw [hitem]; exact Option.some_ne_none false, hreads⟩, ?_⟩
      rw [List.filter_cons, if_neg (by simp [hitem])]
    · cases h

theorem unclassifiedAmong_isSome {items : List Json}
    (h : ∀ item ∈ items, unclassified env declared item ≠ none) :
    (unclassifiedAmong env declared items).isSome := by
  induction items with
  | nil => rfl
  | cons item items ih =>
    obtain ⟨hitem, hitems⟩ := List.forall_mem_cons.mp h
    obtain ⟨counted, hcounted⟩ := Option.ne_none_iff_exists'.mp hitem
    obtain ⟨rest, hrest⟩ := Option.isSome_iff_exists.mp (ih hitems)
    rw [unclassifiedAmong, hcounted, hrest]
    cases counted <;> rfl

theorem retypeTable_eq_some {table after : Json} (h : retypeTable env retype table = some after) :
    ∃ fields items items', instancesOf table = some items ∧
      List.Forall₂ (fun item item' => retypeInstance env retype item = some item') items items' ∧
      after = .obj (setField fields "instances" (.arr items')) := by
  cases table with
  | obj fields =>
    simp only [retypeTable] at h
    split at h
    · rename_i hnone
      cases h
      exact ⟨fields, [], [], by rw [instancesOf, listAt, hnone], .nil, rfl⟩
    · rename_i items hitems
      obtain ⟨items', hmap, rfl⟩ := Option.map_eq_some_iff.mp h
      exact ⟨fields, items, items', by rw [instancesOf, listAt, hitems], forall₂_of_mapM hmap, rfl⟩
    · rename_i value hnotArr hvalue
      split at h
      · rename_i hfalsy
        cases h
        refine ⟨fields, [], [], ?_, .nil, rfl⟩
        rw [instancesOf, listAt, hvalue]
        cases value with
        | arr items => exact absurd rfl (hnotArr items)
        | null | bool _ | num _ | str _ | obj _ => exact if_pos hfalsy
      · cases h
  | null | bool _ | num _ | str _ | arr _ => cases h

/-- The table before an edit and after it. -/
theorem table_of_edit {q : EditRequest} {a b : ArtifactMap} (h : EditOf env q a b) {table : Json}
    (htable : a (singleton q.sessionId .instanceTable) = some table) :
    (q.retype = [] ∧ b (singleton q.sessionId .instanceTable) = some table) ∨
      q.retype ≠ [] ∧ ∃ after, b (singleton q.sessionId .instanceTable) = some after ∧
        retypeTable env q.retype table = some after := by
  cases h with
  | schema hschema hretype =>
    exact Or.inl ⟨hretype, (withSchema_of_ne a instanceTable_ne).trans htable⟩
  | retyped hschema hretype table' after htable' hafter =>
    cases htable.symm.trans htable'
    exact Or.inr ⟨hretype, after, Function.update_self .., hafter⟩

theorem keepsType_nil (item : Json) : KeepsType env [] item := by
  cases item with
  | obj fields => exact nofun
  | null | bool _ | num _ | str _ | arr _ => trivial

theorem instances_of_edit {q : EditRequest} {a b : ArtifactMap} (h : EditOf env q a b)
    {table after : Json} (htable : a (singleton q.sessionId .instanceTable) = some table)
    (hafter : b (singleton q.sessionId .instanceTable) = some after) :
    Option.Rel (List.Forall₂ (Retyped env q.retype)) (instancesOf table) (instancesOf after) := by
  rcases table_of_edit h htable with ⟨hretype, hsame⟩ | ⟨-, after', hafter', hretyped⟩
  · cases hsame.symm.trans hafter
    rw [hretype]
    cases instancesOf table with
    | none => exact .none
    | some items =>
      exact .some (List.forall₂_same.mpr (fun item _ => .kept item (keepsType_nil item)))
  · cases hafter'.symm.trans hafter
    obtain ⟨fields, items, items', hitems, hall, rfl⟩ := retypeTable_eq_some hretyped
    rw [hitems, instancesOf, listAt_setField]
    exact .some (hall.imp (fun _ _ => retyped_of_retypeInstance))

theorem exists_before {α β : Type} {R : α → β → Prop} {as : List α} {bs : List β}
    (h : List.Forall₂ R as bs) {b : β} (hb : b ∈ bs) : ∃ a ∈ as, R a b := by
  induction h with
  | nil => cases hb
  | cons hab _ ih =>
    rcases List.mem_cons.mp hb with rfl | hb
    · exact ⟨_, List.mem_cons_self, hab⟩
    · obtain ⟨a, ha, hab⟩ := ih hb
      exact ⟨a, List.mem_cons_of_mem _ ha, hab⟩

theorem filter_retyped (h : TargetsDeclared declared retype) {items items' : List Json}
    (hall : List.Forall₂ (Retyped env retype) items items')
    (hreads : ∀ item ∈ items', unclassified env declared item ≠ none) :
    items'.filter (fun item => unclassified env declared item = some true) =
      items.filter (fun item => Outside env declared item ∧ KeepsType env retype item) := by
  induction hall with
  | nil => rfl
  | cons hitem hall ih =>
    rename_i item item' items items'
    obtain ⟨hread, hreads⟩ := List.forall_mem_cons.mp hreads
    have hiff := unclassified_retyped h hitem hread
    rw [List.filter_cons, List.filter_cons, ih hreads]
    by_cases hcounted : unclassified env declared item' = some true
    · rw [if_pos (decide_eq_true hcounted), if_pos (decide_eq_true (hiff.mp hcounted))]
      -- an instance that is still counted was not touched
      cases hitem with
      | kept _ _ => rfl
      | mapped fields target htarget hnew =>
        rw [unclassified_mapped h htarget] at hcounted
        cases hcounted
    · rw [if_neg (by simpa using hcounted),
        if_neg (by simpa using fun ho hk => hcounted (hiff.mpr ⟨ho, hk⟩))]

theorem taxonomyFit_eq_some {table : Json} {fit : TaxonomyFit}
    (h : taxonomyFit env declared table = some fit) :
    ∃ items counted, instancesOf table = some items ∧
      unclassifiedAmong env declared items = some counted ∧ fit.instances = items.length ∧
      fit.instancesUnclassified = counted.length := by
  obtain ⟨items, hitems, h⟩ := Option.bind_eq_some_iff.mp h
  obtain ⟨counted, hcounted, rfl⟩ := Option.map_eq_some_iff.mp h
  exact ⟨items, counted, hitems, hcounted, rfl, rfl⟩

/-- The report on a table before and after its instances are retyped. -/
structure RetypingFixes (env : OnboardingEnv) (declared : List String)
    (retype : List (String × String)) (table after : Json) : Prop where
  reads : (taxonomyFit env declared table).isSome → (taxonomyFit env declared after).isSome
  /-- Counted are the instances whose type was not declared and that the map does not lead
  elsewhere. -/
  counted : ∀ fit, taxonomyFit env declared after = some fit →
    ∃ items items', instancesOf table = some items ∧ instancesOf after = some items' ∧
    fit.instances = items.length ∧ unclassifiedAmong env declared items' =
    some (items.filter (fun item => Outside env declared item ∧ KeepsType env retype item)) ∧
    fit.instancesUnclassified =
    (items.filter (fun item => Outside env declared item ∧ KeepsType env retype item)).length ∧
    ∀ item' ∈ items', unclassified env declared item' = some true ∨ ∃ fields, item' = .obj fields ∧
    ∃ text ∈ declared, fieldOf fields "entity_type" = some (.str text)
  fields : Option.Rel (List.Forall₂ (fun item item' => item' = item ∨
    ∃ fields fields', item = .obj fields ∧ item' = .obj fields' ∧
    ∀ name, name ≠ "entity_type" → fieldOf fields' name = fieldOf fields name))
    (instancesOf table) (instancesOf after)

theorem retypingFixes {table after : Json} (htargets : TargetsDeclared declared retype)
    (h : Option.Rel (List.Forall₂ (Retyped env retype)) (instancesOf table) (instancesOf after)) :
    RetypingFixes env declared retype table after where
  reads := by
    intro hsome
    obtain ⟨fit, hfit⟩ := Option.isSome_iff_exists.mp hsome
    obtain ⟨items, counted, hitems, hcounted, -, -⟩ := taxonomyFit_eq_some hfit
    rw [hitems] at h
    cases hafter : instancesOf after with
    | none =>
      rw [hafter] at h
      cases h
    | some items' =>
      rw [hafter] at h
      cases h with
      | some hall =>
        have hreads : ∀ item' ∈ items', unclassified env declared item' ≠ none := by
          intro item' hitem'
          obtain ⟨item, hitem, hretyped⟩ := exists_before hall hitem'
          cases hretyped with
          | kept _ _ => exact (unclassifiedAmong_eq_some hcounted).1 item' hitem
          | mapped fields target htarget hnew =>
            rw [unclassified_mapped htargets htarget]
            exact Option.some_ne_none false
        obtain ⟨counted', hcounted'⟩ :=
          Option.isSome_iff_exists.mp (unclassifiedAmong_isSome hreads)
        rw [taxonomyFit, hafter, Option.bind_some, hcounted']
        rfl
  counted := by
    intro fit hfit
    obtain ⟨items', counted, hitems', hcounted, htotal, hcount⟩ := taxonomyFit_eq_some hfit
    obtain ⟨hreads, hfilter⟩ := unclassifiedAmong_eq_some hcounted
    rw [hitems'] at h
    cases hitems : instancesOf table with
    | none =>
      rw [hitems] at h
      cases h
    | some items =>
      rw [hitems] at h
      cases h with
      | some hall =>
        have hsame := hfilter.trans (filter_retyped htargets hall hreads)
        refine ⟨items, items', rfl, hitems', htotal.trans hall.length_eq.symm,
          hcounted.trans (congrArg some hsame), hcount.trans (congrArg List.length hsame), ?_⟩
        intro item' hitem'
        cases hcase : unclassified env declared item' with
        | none => exact absurd hcase (hreads item' hitem')
        | some counted =>
          cases counted with
          | true => exact Or.inl rfl
          | false => exact Or.inr (declared_of_unclassified hcase)
  fields := by
    generalize instancesOf table = before at h
    generalize instancesOf after = later at h
    cases h with
    | none => exact .none
    | some hall => exact .some (hall.imp (fun _ _ => fields_retyped))

/-- A second edit with the same map writes the table as it found it. -/
theorem retypeTable_again (htargets : TargetsDeclared declared retype)
    (hdisjoint : KeysDisjoint retype) {table after : Json}
    (h : retypeTable env retype table = some after) :
    retypeTable env retype after = some after ∧ instancesRetyped env retype after = some 0 := by
  obtain ⟨fields, items, items', -, hall, rfl⟩ := retypeTable_eq_some h
  have hkeeps : ∀ item' ∈ items', KeepsType env retype item' := by
    intro item' hitem'
    obtain ⟨item, -, hretyped⟩ := exists_before hall hitem'
    exact keepsType_retyped htargets hdisjoint (retyped_of_retypeInstance hretyped)
  have hmap : items'.mapM (retypeInstance env retype) = some items' := by
    refine mapM_eq_self (fun item' hitem' => ?_)
    obtain ⟨item, -, hretyped⟩ := exists_before hall hitem'
    have hkept := hkeeps item' hitem'
    cases retyped_of_retypeInstance hretyped with
    | kept _ _ => exact hretyped
    | mapped fields target _ _ => exact retypeInstance_of_keeps hkept
  have hitems : fieldOf (setField fields "instances" (.arr items')) "instances" =
      some (.arr items') := by
    rw [fieldOf_setField, if_pos rfl]
  constructor
  · rw [retypeTable, hitems]
    simp only [hmap, Option.map_some]
    rw [setField_setField]
  · rw [instancesRetyped, instancesOf, listAt_setField, Option.map_some]
    refine congrArg some (List.countP_eq_zero.mpr ?_)
    intro item' hitem'
    simpa using hkeeps item' hitem'

/-- An edit that retypes, and the same edit once more. -/
theorem retyping_is_a_fix {db db' : OnboardingDb} {now : Time} {q : EditRequest}
    (h : editSchema env db now q = .ok db') (htargets : TargetsDeclared declared q.retype)
    {table : Json} (htable : db.artifacts (singleton q.sessionId .instanceTable) = some table) :
    ∃ after, db'.artifacts (singleton q.sessionId .instanceTable) = some after ∧
      RetypingFixes env declared q.retype table after ∧ ∀ (now' : Time) (db'' : OnboardingDb),
      KeysDisjoint q.retype → editSchema env db' now' q = .ok db'' →
      db''.artifacts (singleton q.sessionId .instanceTable) = some after ∧
      (q.retype ≠ [] → instancesRetyped env q.retype after = some 0) := by
  have hedit := editSchema_ok h
  have hafter : ∃ after, db'.artifacts (singleton q.sessionId .instanceTable) = some after := by
    rcases table_of_edit hedit htable with ⟨-, hsame⟩ | ⟨-, after, hafter, -⟩
    · exact ⟨table, hsame⟩
    · exact ⟨after, hafter⟩
  obtain ⟨after, hafter⟩ := hafter
  refine ⟨after, hafter, retypingFixes htargets (instances_of_edit hedit htable hafter), ?_⟩
  intro now' db'' hdisjoint hagain
  rcases table_of_edit (editSchema_ok hagain) hafter with ⟨hretype, hsame⟩ |
    ⟨hretype, later, hlater, hretyped'⟩
  · exact ⟨hsame, fun hne => absurd hretype hne⟩
  · rcases table_of_edit hedit htable with ⟨hnone, -⟩ | ⟨-, after', hafter', hretyped⟩
    · exact absurd hnone hretype
    · cases hafter'.symm.trans hafter
      obtain ⟨hsame, hnone⟩ := retypeTable_again htargets hdisjoint hretyped
      exact ⟨hlater.trans (hretyped'.symm.trans hsame), fun _ => hnone⟩

end

/-! ## A draft with one type that is not declared -/

def draftState : OnboardingState :=
  (tableDraft.foldlM (onboardingStep plainTexts) .initial).get tableDraft_run

/-- The instance table after an edit of the draft. -/
def tableAfter (q : EditRequest) : Option Json :=
  (editSchema plainTexts draftState.db 2 q).toOption.bind
    (fun db' => db'.artifacts (singleton 10 .instanceTable))

def declareAlarm : EditRequest := ⟨10, "declares Alarm", [("alarm", "Alarm")], 2⟩

def alarmTable (type : String) : Json :=
  .obj [("instances", .arr [.obj [("entity_type", .str type)]])]

theorem declareAlarm_run : tableAfter declareAlarm = some (alarmTable "Alarm") := by decide +kernel

theorem retyping_is_a_fix_declareAlarm :
    ∃ db' after, editSchema plainTexts draftState.db 2 declareAlarm = .ok db' ∧
      db'.artifacts (singleton 10 .instanceTable) = some after ∧ after = alarmTable "Alarm" ∧
      RetypingFixes plainTexts ["Alarm"] [("alarm", "Alarm")] (alarmTable "raw:alarm") after := by
  obtain ⟨db', hok, htable⟩ := Option.bind_eq_some_iff.mp declareAlarm_run
  have hedit : editSchema plainTexts draftState.db 2 declareAlarm = .ok db' := by
    cases hresult : editSchema plainTexts draftState.db 2 declareAlarm with
    | error e =>
      rw [hresult] at hok
      cases hok
    | ok db₁ =>
      rw [hresult] at hok
      cases hok
      rfl
  have htargets : TargetsDeclared ["Alarm"] declareAlarm.retype :=
    ⟨by decide +kernel, by decide +kernel⟩
  obtain ⟨after, hafter, hfixes, -⟩ :=
    retyping_is_a_fix hedit htargets
      (show draftState.db.artifacts (singleton 10 .instanceTable) =
        some (alarmTable "raw:alarm") by decide +kernel)
  exact ⟨db', after, hedit, hafter, Option.some.inj (hafter.symm.trans htable), hfixes⟩

/-- The map names the type, and leads it to the empty one, which is declared. -/
def emptyTarget : EditRequest := ⟨10, "declares the empty type", [("raw:alarm", "")], 2⟩

theorem empty_target_is_no_entry :
    (∀ text ∈ ["", "Alarm"], text.startsWith "raw:" = false) ∧
      (∀ e ∈ emptyTarget.retype, e.2 ∈ ["", "Alarm"]) ∧
      (emptyTarget.retype.lookup "raw:alarm").isSome ∧
      tableAfter emptyTarget = some (alarmTable "raw:alarm") ∧
      (taxonomyFit plainTexts ["", "Alarm"] (alarmTable "raw:alarm")).map
      TaxonomyFit.instancesUnclassified =
      some 1 := by
  decide +kernel

end AgenticPlatform.Workloads
