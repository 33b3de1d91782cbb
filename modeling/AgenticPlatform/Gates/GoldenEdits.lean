import AgenticPlatform.Gates.LatestAnswers

/-!
# Edits of a golden set that overlap

A review, a draft and the mining of gaps each load the latest version in one transaction and
save all items in another, a draft with calls of a model in between. Nothing compares the
version that is saved over with the one that was loaded. So an edit is kept as long as no
other version is stored between the two.
-/
namespace AgenticPlatform.Gates
open AgenticPlatform.Foundation AgenticPlatform.Identity AgenticPlatform.Db
  AgenticPlatform.Governance

structure EditEnv where
  datasets : DatasetEnv
  /-- `id.hex[:12]`. -/
  hex12 : Uuid → String

/-! ## Requests -/

/-- A row of the backlog. -/
structure Gap where
  id : Uuid
  question : String
deriving DecidableEq

structure MineRequest where
  tenantId : Uuid
  by_ : Uuid
  name : String
  collection : String
  gapIds : List Uuid

/-- The gaps that are asked for and are there. -/
def MineRequest.chosen (q : MineRequest) (backlog : List Gap) : List Gap :=
  backlog.filter (fun gap => gap.id ∈ q.gapIds)

/-- The item of a gap: no answer, and no evidence. -/
def Gap.item (env : EditEnv) (gap : Gap) : EvalItem :=
  ⟨"g_" ++ env.hex12 gap.id, gap.question, "", []⟩

/-- The items that a request for gaps adds to the ones there are. -/
def MineRequest.added (env : EditEnv) (q : MineRequest) (backlog : List Gap)
    (items : List EvalItem) : List EvalItem :=
  ((q.chosen backlog).map (Gap.item env)).filter (fun item => item.id ∉ items.map EvalItem.id)

/-- With what the request reads after it has loaded the version: the labels and what the
annotator makes of them, or the backlog. -/
inductive EditRequest where
  | review (q : ReviewRequest) (answer : String)
  | draft (q : DraftRequest) (annotator : Annotator) (labels : LabelTable)
  | mine (q : MineRequest) (backlog : List Gap)

def EditRequest.tenantId : EditRequest → Uuid
  | .review q _ => q.tenantId
  | .draft q _ _ => q.tenantId
  | .mine q _ => q.tenantId

def EditRequest.name : EditRequest → String
  | .review q _ => q.name
  | .draft q _ _ => q.name
  | .mine q _ => q.name

/-- What a request does to the items in memory: the ones it saves, and among them the ones
it edited. -/
structure Change where
  collection : String
  items : List EvalItem
  edited : List EvalItem

/-- `none` where the request ends without saving. -/
def EditRequest.change (env : EditEnv) : EditRequest → Option Dataset → Option Change
  | .review q answer, some d =>
    if ∀ item ∈ d.items, item.id ≠ q.itemId then none
    else
      some ⟨d.collection, d.items.map (EvalItem.reviewed q.itemId answer),
        (d.items.filter (fun item => item.id = q.itemId)).map (EvalItem.reviewed q.itemId answer)⟩
  | .draft q annotator labels, some d =>
    let drafted := q.proposals annotator labels d
    if drafted = [] then none
    else
      some ⟨d.collection, d.items.map (EvalItem.filled drafted),
        (d.items.filter (fun item => (proposalFor drafted item).isSome)).map
        (EvalItem.filled drafted)⟩
  | .mine q backlog, loaded =>
    let items := (loaded.map Dataset.items).getD []
    let added := q.added env backlog items
    -- a gap that is not there is refused
    if (∃ id ∈ q.gapIds, id ∉ backlog.map Gap.id) ∨ added = [] then none
    else some ⟨(loaded.map Dataset.collection).getD q.collection, items ++ added, added⟩
  | _, none => none

def EditRequest.by_ : EditRequest → Uuid
  | .review q _ => q.by_
  | .draft q _ _ => q.by_
  | .mine q _ => q.by_

def EditRequest.save (r : EditRequest) (c : Change) : SaveRequest :=
  ⟨r.tenantId, r.by_, r.name, c.collection, c.items.map EvalItem.toDict⟩

/-! ## Transactions -/

/-- An item as a request that got through left it. -/
structure KeptEdit where
  tenantId : Uuid
  name : String
  item : EvalItem
  byReviewer : Bool
deriving DecidableEq

def KeptEdit.key (e : KeptEdit) : LabelKey := ⟨e.tenantId, e.name, e.item.id⟩

def EditRequest.byReviewer : EditRequest → Bool
  | .review _ _ => true
  | _ => false

/-- What a request edited, as it is stored. -/
def EditRequest.edits (r : EditRequest) (c : Change) : List KeptEdit :=
  c.edited.map (fun item => ⟨r.tenantId, r.name, item.normalized, r.byReviewer⟩)

structure EditState where
  db : GoldenDb
  /-- The requests under way, with the version they loaded. -/
  requests : Nat → Option (EditRequest × Option Dataset)
  /-- What the requests that have saved edited. -/
  edits : List KeptEdit

def EditState.start (db : GoldenDb) : EditState := ⟨db, fun _ => none, []⟩

inductive EditAct where
  | load (n : Nat) (r : EditRequest) (loaded : Option Dataset)
  | save (n : Nat) (g : SaveStamp)

def editStep (env : EditEnv) (s : EditState) : EditAct → Option EditState
  | .load n r loaded =>
    if s.requests n = none ∧ Loads s.db.datasets r.tenantId r.name loaded then
      some { s with requests := Function.update s.requests n (some (r, loaded)) }
    else none
  | .save n g =>
    match s.requests n with
    | none => none
    | some (r, loaded) =>
      match r.change env loaded with
      | none => some { s with requests := Function.update s.requests n none }
      | some c =>
        match save env.datasets s.db g (r.save c) with
        | .ok (db, _) => some ⟨db, Function.update s.requests n none, r.edits c ++ s.edits⟩
        | .error .idTaken => none
        | .error _ => some { s with requests := Function.update s.requests n none }

/-- Versions that are put, which is how a dataset comes about. -/
def putStep (env : DatasetEnv) (db : GoldenDb) (p : SaveStamp × SaveRequest) : Option GoldenDb :=
  match save env db p.1 p.2 with
  | .ok (db', _) => some db'
  | .error _ => some db

/-! ## The property and the condition -/

/-- Whatever version `load` returns has this item. -/
def LoadsItem (t : DatasetTable) (tenantId : Uuid) (name : String) (item : EvalItem) : Prop :=
  ∀ out, Loads t tenantId name out → ∃ d, out = some d ∧ item ∈ d.items

/-- Where the edits are of different items, each of them is in the latest version, and so is
every answer the base had that no reviewer has edited. -/
def KeepsEdits (base : GoldenDb) (s : EditState) : Prop :=
  (s.edits.map KeptEdit.key).Nodup →
    (∀ e ∈ s.edits, LoadsItem s.db.datasets e.tenantId e.name e.item) ∧
    ∀ tenantId name r, Latest base.datasets tenantId name r → ∀ item ∈ r.items, item.blank = false →
      (∀ e ∈ s.edits, e.byReviewer = true → e.key ≠ ⟨tenantId, name, item.id⟩) →
      LoadsItem s.db.datasets tenantId name item

/-- What is saved is saved over the version that was loaded, and is what `load` returns next. -/
def savesLoaded (env : EditEnv) (s : EditState) : EditAct → Prop
  | .load _ _ _ => True
  | .save n g => ∀ p ∈ s.requests n, ∀ c ∈ p.1.change env p.2,
    ∀ built ∈ (p.1.save c).stores env.datasets,
    (∀ r ∈ s.db.datasets.rows, Latest s.db.datasets p.1.tenantId p.1.name r →
      ∃ d ∈ p.2, r.items.Perm d.items) ∧
    OnTop env.datasets s.db.datasets p.1.tenantId p.1.name g.now built

instance (env : EditEnv) (s : EditState) (a : EditAct) : Decidable (savesLoaded env s a) := by
  cases a <;> unfold savesLoaded <;> infer_instance

def putsOnTop (env : DatasetEnv) (db : GoldenDb) (p : SaveStamp × SaveRequest) : Prop :=
  ∀ built ∈ p.2.stores env, OnTop env db.datasets p.2.tenantId p.2.name p.1.now built

instance (env : DatasetEnv) (db : GoldenDb) (p : SaveStamp × SaveRequest) :
    Decidable (putsOnTop env db p) :=
  inferInstanceAs (Decidable (∀ built ∈ p.2.stores env, _))

/-! ## What is loaded -/

theorem loadsItem_iff {t : DatasetTable} {tenantId : Uuid} {name : String} {item : EvalItem} :
    LoadsItem t tenantId name item ↔
      (∃ r, Latest t tenantId name r) ∧ ∀ r, Latest t tenantId name r → item ∈ r.items := by
  constructor
  · intro h
    constructor
    · by_contra hnone
      obtain ⟨d, hd, -⟩ := h none (fun r hr hof => hnone (exists_latest hr hof))
      cases hd
    · intro r hr
      obtain ⟨d, hd, hitem⟩ := h (some r.dataset) ⟨r, hr.1, hr, rfl⟩
      cases hd
      exact hitem
  · rintro ⟨⟨r₀, hr₀⟩, hall⟩ out hout
    cases out with
    | none => exact absurd hr₀.2.1 (hout r₀ hr₀.1)
    | some d =>
      obtain ⟨r, -, hr, rfl⟩ := hout
      exact ⟨_, rfl, hall r hr⟩

/-- Another name is not affected by a save. -/
theorem LoadsItem.of_other {env : DatasetEnv} {db db' : GoldenDb} {g : SaveStamp} {q : SaveRequest}
    {saved : Dataset} (hsave : save env db g q = .ok (db', saved)) {tenantId : Uuid} {name : String}
    (hother : ¬ (q.tenantId = tenantId ∧ q.name = name)) {item : EvalItem}
    (h : LoadsItem db.datasets tenantId name item) : LoadsItem db'.datasets tenantId name item := by
  rw [loadsItem_iff] at h ⊢
  obtain ⟨⟨r, hr⟩, hall⟩ := h
  rcases save_versions hsave with ⟨-, hsame⟩ | ⟨-, hrows⟩
  · obtain ⟨r', hr', -⟩ := hsame.latest hr
    refine ⟨⟨r', hr'⟩, ?_⟩
    intro x' hx'
    obtain ⟨x, hx, hxsame⟩ := hsame.symm.latest hx'
    exact hxsame.items ▸ hall x hx
  · have hlatest := latest_of_other hrows hother
    exact ⟨⟨r, (hlatest r).mpr hr⟩, fun x hx => hall x ((hlatest x).mp hx)⟩

/-- What a save on top stores is loaded next. -/
theorem loadsItem_saved {env : DatasetEnv} {db db' : GoldenDb} {g : SaveStamp} {q : SaveRequest}
    {saved : Dataset} (hsave : save env db g q = .ok (db', saved))
    (htop : OnTop env db.datasets q.tenantId q.name g.now saved.items) {item : EvalItem}
    (hitem : item ∈ saved.items) : LoadsItem db'.datasets q.tenantId q.name item := by
  obtain ⟨hfound, hright⟩ := shows_of_onTop hsave htop
  exact loadsItem_iff.mpr ⟨hfound, fun r hr => (hright r hr).2.mem_iff.mpr hitem⟩

/-- What a request leaves of the items it loaded: each is saved as it is or edited, and one
with an answer is edited by reviewers only. -/
theorem change_spec {env : EditEnv} {r : EditRequest} {loaded : Option Dataset} {c : Change}
    (h : r.change env loaded = some c) : (∀ item ∈ c.edited, item ∈ c.items) ∧
      ∀ d ∈ loaded, ∀ item ∈ d.items, item ∈ c.items ∨
        ∃ edited ∈ c.edited, edited.id = item.id ∧ (item.blank = false → r.byReviewer = true) := by
  cases r with
  | review q answer =>
    cases loaded with
    | none => cases h
    | some d =>
      simp only [EditRequest.change] at h
      split at h
      · cases h
      · cases h
        constructor
        · intro item hitem
          obtain ⟨old, hold, rfl⟩ := List.mem_map.mp hitem
          exact List.mem_map_of_mem (List.mem_filter.mp hold).1
        · intro d' hd' item hitem
          cases hd'
          by_cases hid : item.id = q.itemId
          · refine Or.inr ⟨item.reviewed q.itemId answer, ?_, ?_, fun _ => rfl⟩
            · exact List.mem_map_of_mem (List.mem_filter.mpr ⟨hitem, decide_eq_true hid⟩)
            · rw [EvalItem.reviewed, if_pos hid]
          · refine Or.inl (List.mem_map.mpr ⟨item, hitem, ?_⟩)
            rw [EvalItem.reviewed, if_neg hid]
  | draft q annotator labels =>
    cases loaded with
    | none => cases h
    | some d =>
      simp only [EditRequest.change] at h
      generalize q.proposals annotator labels d = drafted at h
      split at h
      · cases h
      · cases h
        constructor
        · intro item hitem
          obtain ⟨old, hold, rfl⟩ := List.mem_map.mp hitem
          exact List.mem_map_of_mem (List.mem_filter.mp hold).1
        · intro d' hd' item hitem
          cases hd'
          cases hp : proposalFor drafted item with
          | none =>
            refine Or.inl (List.mem_map.mpr ⟨item, hitem, ?_⟩)
            rw [EvalItem.filled, hp, Option.getD_none]
          | some answer =>
            refine Or.inr ⟨item.filled drafted, ?_, rfl, ?_⟩
            · exact List.mem_map_of_mem (List.mem_filter.mpr ⟨hitem, by rw [hp]; rfl⟩)
            · intro hanswered
              rw [proposalFor, hanswered] at hp
              cases hp
  | mine q backlog =>
    simp only [EditRequest.change] at h
    split at h
    · cases h
    · cases h
      constructor
      · exact fun item hitem => List.mem_append_right _ hitem
      · intro d hd item hitem
        cases hd
        exact Or.inl (List.mem_append_left _ hitem)

/-! ## Steps -/

structure EditInv (s : EditState) : Prop where
  stored : StoredNormalized s.db.datasets
  loaded : ∀ n r d, s.requests n = some (r, some d) → ∀ item ∈ d.items, item.normalized = item
  edited : ∀ e ∈ s.edits, e.item.normalized = e.item ∧
    ∃ r ∈ s.db.datasets.rows, r.isOf e.tenantId e.name

/-- Versions stay. -/
theorem isOf_of_save {env : DatasetEnv} {db db' : GoldenDb} {g : SaveStamp} {q : SaveRequest}
    {saved : Dataset} (hsave : save env db g q = .ok (db', saved)) {tenantId : Uuid} {name : String}
    (h : (∃ r ∈ db.datasets.rows, r.isOf tenantId name) ∨ (q.tenantId = tenantId ∧ q.name = name)) :
    ∃ r ∈ db'.datasets.rows, r.isOf tenantId name := by
  rcases save_versions hsave with ⟨⟨x, hx, hof, -⟩, hsame⟩ | ⟨-, hrows⟩
  · have hold : ∃ r ∈ db.datasets.rows, r.isOf tenantId name := by
      rcases h with h | ⟨rfl, rfl⟩
      · exact h
      · exact ⟨x, hx, hof⟩
    obtain ⟨r, hr, hof⟩ := hold
    obtain ⟨r', hr', hsr⟩ := hsame.forth r hr
    exact ⟨r', hr', (hsr.isOf tenantId name).mp hof⟩
  · rw [hrows]
    rcases h with ⟨r, hr, hof⟩ | ⟨rfl, rfl⟩
    · exact ⟨r, List.mem_append_left _ hr, hof⟩
    · exact ⟨_, List.mem_append_right _ (List.mem_singleton_self _), rfl, rfl⟩

/-- A step loads a version, or saves a change, or ends a request. -/
theorem editStep_cases {env : EditEnv} {s t : EditState} {a : EditAct}
    (h : editStep env s a = some t) :
    (∃ n r loaded, a = .load n r loaded ∧ Loads s.db.datasets r.tenantId r.name loaded ∧
      t = { s with requests := Function.update s.requests n (some (r, loaded)) }) ∨
      (∃ n g r loaded c db saved, a = .save n g ∧ s.requests n = some (r, loaded) ∧
        r.change env loaded = some c ∧ save env.datasets s.db g (r.save c) = .ok (db, saved) ∧
        t = ⟨db, Function.update s.requests n none, r.edits c ++ s.edits⟩) ∨
      ∃ n, t = { s with requests := Function.update s.requests n none } := by
  cases a with
  | load n r loaded =>
    simp only [editStep] at h
    split at h
    · rename_i hloads
      exact Or.inl ⟨n, r, loaded, rfl, hloads.2, (Option.some.inj h).symm⟩
    · cases h
  | save n g =>
    simp only [editStep] at h
    split at h
    · cases h
    · rename_i r loaded hn
      split at h
      · exact Or.inr (Or.inr ⟨n, (Option.some.inj h).symm⟩)
      · rename_i c hc
        split at h
        · rename_i db saved hsave
          exact Or.inr (Or.inl
            ⟨n, g, r, loaded, c, db, saved, rfl, hn, hc, hsave, (Option.some.inj h).symm⟩)
        · cases h
        · exact Or.inr (Or.inr ⟨n, (Option.some.inj h).symm⟩)

theorem editInv_step {env : EditEnv} {s t : EditState} {a : EditAct} (h : EditInv s)
    (hstep : editStep env s a = some t) : EditInv t := by
  rcases editStep_cases hstep with ⟨n, r, loaded, -, hloads, rfl⟩ |
    ⟨n, g, r, loaded, c, db, saved, -, hn, hc, hsave, rfl⟩ | ⟨n, rfl⟩
  · refine ⟨h.stored, ?_, h.edited⟩
    intro m r' d hm
    rcases update_eq_some hm with ⟨-, he⟩ | ⟨-, hm⟩
    · cases he
      exact fun item hitem => (current_of_loads h.stored hloads item hitem).1
    · exact h.loaded m r' d hm
  · refine ⟨storedNormalized_save h.stored hsave, ?_, ?_⟩
    · intro m r' d hm
      rcases update_cases hm with ⟨-, he⟩ | ⟨-, hm⟩
      · cases he
      · exact h.loaded m r' d hm
    · intro e he
      rcases List.mem_append.mp he with he | he
      · obtain ⟨item, -, rfl⟩ := List.mem_map.mp he
        exact ⟨item.normalized_normalized, isOf_of_save hsave (Or.inr ⟨rfl, rfl⟩)⟩
      · obtain ⟨hnormal, hthere⟩ := h.edited e he
        exact ⟨hnormal, isOf_of_save hsave (Or.inl hthere)⟩
  · refine ⟨h.stored, ?_, h.edited⟩
    intro m r' d hm
    rcases update_cases hm with ⟨-, he⟩ | ⟨-, hm⟩
    · cases he
    · exact h.loaded m r' d hm

/-- An item that was loaded everywhere is saved again, unless it is edited. -/
theorem loadsItem_kept {env : EditEnv} {s : EditState} {g : SaveStamp} {r : EditRequest}
    {loaded : Option Dataset} {c : Change} {db : GoldenDb} {saved : Dataset}
    (hc : r.change env loaded = some c)
    (hsave : save env.datasets s.db g (r.save c) = .ok (db, saved))
    (hloaded : ∀ x ∈ s.db.datasets.rows, Latest s.db.datasets r.tenantId r.name x →
      ∃ d ∈ loaded, x.items.Perm d.items)
    (htop : OnTop env.datasets s.db.datasets r.tenantId r.name g.now saved.items) {tenantId : Uuid}
    {name : String} {item : EvalItem} (hnormal : item.normalized = item)
    (h : LoadsItem s.db.datasets tenantId name item) :
    LoadsItem db.datasets tenantId name item ∨ ∃ e ∈ r.edits c, e.key = ⟨tenantId, name, item.id⟩ ∧
      (item.blank = false → e.byReviewer = true) := by
  by_cases hname : r.tenantId = tenantId ∧ r.name = name
  · obtain ⟨rfl, rfl⟩ := hname
    obtain ⟨⟨x, hx⟩, hall⟩ := loadsItem_iff.mp h
    obtain ⟨d, hd, hperm⟩ := hloaded x hx.1 hx
    have hitem : item ∈ d.items := hperm.mem_iff.mp (hall x hx)
    rcases (change_spec hc).2 d hd item hitem with hkept | ⟨edited, hedited, hid, hblank⟩
    · have hsaved : item ∈ saved.items := by
        rw [items_of_save hsave rfl, ← hnormal]
        exact List.mem_map_of_mem hkept
      exact Or.inl (loadsItem_saved hsave htop hsaved)
    · refine Or.inr ⟨_, List.mem_map_of_mem hedited, ?_, hblank⟩
      have hstrip : strip item.id = item.id := congrArg EvalItem.id hnormal
      rw [KeptEdit.key, EvalItem.id_normalized, hid, hstrip]
  · exact Or.inl (h.of_other hsave hname)

theorem keepsEdits_step {env : EditEnv} {base : GoldenDb} {s t : EditState} {a : EditAct}
    (hbase : StoredNormalized base.datasets) (hinv : EditInv s) (h : KeepsEdits base s)
    (hcond : savesLoaded env s a) (hstep : editStep env s a = some t) : KeepsEdits base t := by
  rcases editStep_cases hstep with ⟨n, r, loaded, -, -, rfl⟩ |
    ⟨n, g, r, loaded, c, db, saved, rfl, hn, hc, hsave, rfl⟩ | ⟨n, rfl⟩
  · exact h
  · obtain ⟨hloaded, htop⟩ := hcond (r, loaded) hn c hc saved.items (stores_of_ok hsave)
    intro hdistinct
    rw [List.map_append, List.nodup_append] at hdistinct
    obtain ⟨-, hold, hapart⟩ := hdistinct
    obtain ⟨hedits, hanswers⟩ := h hold
    constructor
    · intro e he
      rcases List.mem_append.mp he with he | he
      · obtain ⟨item, hitem, rfl⟩ := List.mem_map.mp he
        have hsaved : item.normalized ∈ saved.items := by
          rw [items_of_save hsave rfl]
          exact List.mem_map_of_mem ((change_spec hc).1 item hitem)
        exact loadsItem_saved hsave htop hsaved
      · rcases loadsItem_kept hc hsave hloaded htop (hinv.edited e he).1 (hedits e he) with hkept |
          ⟨e', he', hkey, -⟩
        · exact hkept
        · -- then two requests edited the item
          exact absurd hkey (hapart _ (List.mem_map_of_mem he') _ (List.mem_map_of_mem he))
    · intro tenantId name x hx item hitem hanswered hreviewed
      have hbefore := hanswers tenantId name x hx item hitem hanswered
        (fun e he => hreviewed e (List.mem_append_right _ he))
      rcases loadsItem_kept hc hsave hloaded htop (hbase x hx.1 item hitem) hbefore with hkept |
        ⟨e, he, hkey, hby⟩
      · exact hkept
      · exact absurd hkey (hreviewed e (List.mem_append_left _ he) (hby hanswered))
  · exact h

/-! ## Runs -/

/-- What a list of puts on top leaves: stripped items, and one latest version of each name. -/
structure Settled (db : GoldenDb) : Prop where
  stored : StoredNormalized db.datasets
  one : ∀ tenantId name r r', Latest db.datasets tenantId name r →
    Latest db.datasets tenantId name r' → r.items.Perm r'.items

theorem settled_step {env : DatasetEnv} {db db' : GoldenDb} {p : SaveStamp × SaveRequest}
    (h : Settled db) (hcond : putsOnTop env db p) (hstep : putStep env db p = some db') :
    Settled db' := by
  unfold putStep at hstep
  split at hstep
  · rename_i saved hsave
    cases hstep
    refine ⟨storedNormalized_save h.stored hsave, ?_⟩
    intro tenantId name r r' hr hr'
    by_cases hname : p.2.tenantId = tenantId ∧ p.2.name = name
    · obtain ⟨rfl, rfl⟩ := hname
      have hshows := shows_of_onTop hsave (hcond saved.items (stores_of_ok hsave))
      exact (hshows.right r hr).2.trans (hshows.right r' hr').2.symm
    · rcases save_versions hsave with ⟨-, hsame⟩ | ⟨-, hrows⟩
      · obtain ⟨x, hx, hxr⟩ := hsame.symm.latest hr
        obtain ⟨x', hx', hxr'⟩ := hsame.symm.latest hr'
        rw [hxr.items, hxr'.items]
        exact h.one tenantId name x x' hx hx'
      · have hlatest := latest_of_other hrows hname
        exact h.one tenantId name r r' ((hlatest r).mp hr) ((hlatest r').mp hr')
  · cases hstep
    exact h

theorem settled_of_puts {env : DatasetEnv} {puts : List (SaveStamp × SaveRequest)} {db : GoldenDb}
    (h : Reaches (restrict (putsOnTop env) (putStep env)) .empty puts db) : Settled db := by
  refine h.invariant (P := Settled) ?_ ?_
  · intro db p db' hdb hstep
    obtain ⟨hcond, hstep⟩ := restrict_eq_some.mp hstep
    exact settled_step hdb hcond hstep
  · exact ⟨fun _ hr => absurd hr List.not_mem_nil, fun _ _ _ _ hr => absurd hr.1 List.not_mem_nil⟩

/-- From any versions, each put on top, and along any interleaving of reviews, drafts and
minings in which each is saved over the version it loaded: no edit of an item is lost, and
no answer is replaced that a reviewer did not edit. -/
theorem edits_kept_of_savesLoaded {env : EditEnv} {puts : List (SaveStamp × SaveRequest)}
    {base : GoldenDb}
    (hbase : Reaches (restrict (putsOnTop env.datasets) (putStep env.datasets)) .empty puts base)
    {acts : List EditAct} {s : EditState}
    (h : Reaches (restrict (savesLoaded env) (editStep env)) (.start base) acts s) :
    Throughout (editStep env) (KeepsEdits base) (.start base) acts := by
  have hsettled := settled_of_puts hbase
  have hstart : EditInv (.start base) ∧ KeepsEdits base (.start base) := by
    refine ⟨⟨hsettled.stored, (fun _ _ _ hn => by cases hn),
      fun _ he => absurd he List.not_mem_nil⟩, ?_⟩
    intro _
    refine ⟨fun _ he => absurd he List.not_mem_nil, ?_⟩
    intro tenantId name r hr item hitem _ _
    exact loadsItem_iff.mpr
      ⟨⟨r, hr⟩, fun r' hr' => (hsettled.one tenantId name r r' hr hr').mem_iff.mp hitem⟩
  have hkeeps : ∀ m a m', EditInv m ∧ KeepsEdits base m → savesLoaded env m a →
      editStep env m a = some m' → EditInv m' ∧ KeepsEdits base m' :=
    fun _ _ _ hm hcond hstep =>
      ⟨editInv_step hm.1 hstep, keepsEdits_step hsettled.stored hm.1 hm.2 hcond hstep⟩
  intro pre post m hacts hpre
  exact (h.throughout hkeeps hstart pre post m hacts hpre).2

/-- Two items, with these answers. -/
def twoItems (voltage torque : String) : List EvalItem :=
  [voltageItem voltage, ⟨"q2", "What torque?", torque, []⟩]

/-- SHA-256 on the versions of the two items that are saved here. -/
def twoItemsSha256 (text : String) : String :=
  if text = Json.dumpsAscii (.arr ((twoItems "" "").map (fun item => .obj item.toDict))) then
    "a54a5df012fc361ff8556e3c441c555f4bbccf3ca0853115192feabdaf14ba88"
  else if text =
      Json.dumpsAscii (.arr ((twoItems "230 V" "").map (fun item => .obj item.toDict))) then
    "9c6f0d689c3c2d7f328f67f92282a1cd758140bed98c8da0f83b5ee14a9cc3c2"
  else if text =
      Json.dumpsAscii (.arr ((twoItems "" "4 Nm").map (fun item => .obj item.toDict))) then
    "a4291734e7013354e809a685b36172745a3c80de566a6620c468756bac1715e7"
  else
    "4b712f8fcf5b6ccafacf8cd76f9b00fb20484e6e3eb45ebc8263c42e4a677639"

def twoItemsEnv : EditEnv :=
  ⟨{ voltageEnv.datasets with sha256 := twoItemsSha256 }, fun _ => "0123456789ab"⟩

def putTwo : SaveStamp × SaveRequest :=
  (⟨0, 1, 1⟩, ⟨7, 3, "safety", "manuals", (twoItems "" "").map EvalItem.toDict⟩)

theorem noReason_le : ∀ text ∈ (none : Option String), text.length ≤ 2000 := by simp

/-- A review of one of the items. -/
def reviewOf (itemId answer : String) (h : answer.length ≤ 20000) : EditRequest :=
  .review ⟨7, 3, "safety", itemId, ⟨some answer, none, none, none, by simpa using h, noReason_le⟩⟩
    answer

def twoVersion (id : Uuid) (voltage torque : String) : Option Dataset :=
  some ⟨id, "safety", "manuals", contentSha twoItemsEnv.datasets (twoItems voltage torque),
    twoItems voltage torque⟩

/-- Two reviewers edit one item each, one after the other. -/
def reviewsInTurn : List EditAct :=
  [.load 1 (reviewOf "q1" "230 V" (by decide)) (twoVersion 1 "" ""), .save 1 ⟨10, 2, 2⟩,
    .load 2 (reviewOf "q2" "4 Nm" (by decide)) (twoVersion 2 "230 V" ""), .save 2 ⟨20, 3, 3⟩]

theorem reviewsInTurn_run :
    ([putTwo].foldlM (restrict (putsOnTop twoItemsEnv.datasets) (putStep twoItemsEnv.datasets))
      .empty).bind (fun base =>
      (reviewsInTurn.foldlM (restrict (savesLoaded twoItemsEnv) (editStep twoItemsEnv))
          (.start base)).map (fun s =>
        (s.edits.map (fun e => e.item.id),
          decide (Loads s.db.datasets 7 "safety" (twoVersion 3 "230 V" "4 Nm"))))) =
      some (["q2", "q1"], true) := by
  decide +kernel

/-- The result at that run. -/
theorem edits_kept_reviewsInTurn :
    ∃ base s, Reaches (editStep twoItemsEnv) (.start base) reviewsInTurn s ∧
      Loads s.db.datasets 7 "safety" (twoVersion 3 "230 V" "4 Nm") ∧
      Throughout (editStep twoItemsEnv) (KeepsEdits base) (.start base) reviewsInTurn := by
  obtain ⟨base, hbase, hrest⟩ := Option.bind_eq_some_iff.mp reviewsInTurn_run
  obtain ⟨s, hs, hfacts⟩ := Option.map_eq_some_iff.mp hrest
  have hrun : Reaches (restrict (savesLoaded twoItemsEnv) (editStep twoItemsEnv)) (.start base)
      reviewsInTurn s := hs
  exact ⟨base, s, hrun.of_restrict, of_decide_eq_true (Prod.ext_iff.mp hfacts).2,
    edits_kept_of_savesLoaded hbase hrun⟩

/-- Both load the blank version, and save one after the other. -/
def reviewsAtOnce : List EditAct :=
  [.load 1 (reviewOf "q1" "230 V" (by decide)) (twoVersion 1 "" ""),
    .load 2 (reviewOf "q2" "4 Nm" (by decide)) (twoVersion 1 "" ""), .save 1 ⟨10, 2, 2⟩,
    .save 2 ⟨20, 3, 3⟩]

theorem reviewsAtOnce_run :
    ([putTwo].foldlM (restrict (putsOnTop twoItemsEnv.datasets) (putStep twoItemsEnv.datasets))
      .empty).bind (fun base =>
      (reviewsAtOnce.foldlM (editStep twoItemsEnv) (.start base)).map (fun s =>
        (s.edits, decide (Loads s.db.datasets 7 "safety" (twoVersion 3 "" "4 Nm"))))) =
      some ([⟨7, "safety", ⟨"q2", "What torque?", "4 Nm", []⟩, true⟩,
          ⟨7, "safety", voltageItem "230 V", true⟩], true) := by
  decide +kernel

/-- The second save takes the first answer back. -/
theorem edit_lost_reviewsAtOnce :
    ∃ base s, Reaches (restrict (putsOnTop twoItemsEnv.datasets) (putStep twoItemsEnv.datasets))
      .empty [putTwo] base ∧
      Reaches (editStep twoItemsEnv) (.start base) reviewsAtOnce s ∧
      Loads s.db.datasets 7 "safety" (twoVersion 3 "" "4 Nm") ∧ ¬ KeepsEdits base s := by
  obtain ⟨base, hbase, hrest⟩ := Option.bind_eq_some_iff.mp reviewsAtOnce_run
  obtain ⟨s, hs, hfacts⟩ := Option.map_eq_some_iff.mp hrest
  obtain ⟨hedits, hloads⟩ := Prod.ext_iff.mp hfacts
  have hversion := of_decide_eq_true hloads
  refine ⟨base, s, hbase, hs, hversion, ?_⟩
  intro hkeeps
  have hmem : (⟨7, "safety", voltageItem "230 V", true⟩ : KeptEdit) ∈ s.edits := by
    rw [show s.edits = _ from hedits]
    exact List.mem_cons_of_mem _ (List.mem_singleton_self _)
  have hdistinct : (s.edits.map KeptEdit.key).Nodup := by
    rw [show s.edits = _ from hedits]
    decide
  obtain ⟨d, hd, hitem⟩ := (hkeeps hdistinct).1 _ hmem _ hversion
  cases hd
  revert hitem
  decide

end AgenticPlatform.Gates
