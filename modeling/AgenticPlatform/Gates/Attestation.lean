import AgenticPlatform.Gates.LatestAnswers

/-!
# What a confirmation attests

Labels survive the versions of a dataset: a version that is put leaves them alone, a draft
leaves confirmations and reviewed answers alone, and what a review omits stays as it is. So
beside the store it is kept which answer an item had when it was confirmed last, which one a
reviewer submitted last, and how the answer was rewritten since, if it was.
-/
namespace AgenticPlatform.Gates
open AgenticPlatform.Foundation AgenticPlatform.Identity AgenticPlatform.Db
  AgenticPlatform.Governance

/-! ## Rewrites -/

/-- The request that rewrote an answer; a review says whether the item is confirmed, or not. -/
inductive Writer where
  | put
  | review (confirmed : Option Bool)
  | draft
deriving DecidableEq

structure Rewrite where
  writer : Writer
  before : Option String
  after : String
deriving DecidableEq

/-- An answer that the item has now and did not have before. -/
def rewriteOf (writer : Writer) (before after : DatasetTable) (k : LabelKey) : Option Rewrite :=
  ((currentAnswers after k).find? (fun answer => answer ∉ currentAnswers before k)).map
    (fun answer => ⟨writer, (currentAnswers before k).head?, answer⟩)

@[simp] theorem rewriteOf_self (writer : Writer) (t : DatasetTable) (k : LabelKey) :
    rewriteOf writer t t k = none := by
  simp [rewriteOf]

/-- Where an item has one answer, it is the one it had, or it is rewritten to it. -/
theorem rewriteOf_of_current {after : DatasetTable} {k : LabelKey} {answer : String}
    (hone : OneAnswer after) (h : Current after k answer) (writer : Writer)
    (before : DatasetTable) :
    (Current before k answer ∧ rewriteOf writer before after k = none) ∨
      (¬ Current before k answer ∧
        rewriteOf writer before after k =
        some ⟨writer, (currentAnswers before k).head?, answer⟩) := by
  have hall : ∀ x ∈ currentAnswers after k, x = answer :=
    fun x hx => hone k x answer (mem_currentAnswers.mp hx) h
  by_cases hbefore : Current before k answer
  · refine Or.inl ⟨hbefore, ?_⟩
    rw [rewriteOf, Option.map_eq_none_iff, List.find?_eq_none]
    intro x hx
    rw [hall x hx]
    simpa using mem_currentAnswers.mpr hbefore
  · refine Or.inr ⟨hbefore, ?_⟩
    have hnew : (currentAnswers after k).find? (fun x => x ∉ currentAnswers before k) =
        some answer := by
      have hsome : ((currentAnswers after k).find?
          (fun x => x ∉ currentAnswers before k)).isSome := by
        rw [List.find?_isSome]
        exact ⟨answer, mem_currentAnswers.mpr h, by simpa using mt mem_currentAnswers.mp hbefore⟩
      obtain ⟨x, hx⟩ := Option.isSome_iff_exists.mp hsome
      rw [hx, hall x (List.mem_of_find?_eq_some hx)]
    rw [rewriteOf, hnew, Option.map_some]

structure ReviewState where
  store : GoldenStore
  /-- When it was confirmed last. -/
  attested : LabelKey → List String
  sinceConfirmed : LabelKey → Option Rewrite
  /-- As it is stored, without white space at its ends. -/
  submitted : LabelKey → Option String
  sinceSubmitted : LabelKey → Option Rewrite

def ReviewState.initial : ReviewState :=
  ⟨⟨.empty, Table.empty⟩, fun _ => [], fun _ => none, fun _ => none, fun _ => none⟩

/-! ## Requests, one after another -/

/-- With the version that the request loads. -/
inductive ReviewAct where
  | put (g : SaveStamp) (q : SaveRequest)
  | review (g : SaveStamp) (labelledAt : Time) (q : ReviewRequest) (loaded : Option Dataset)
  | draft (g : SaveStamp) (labelledAt : Time) (annotator : Annotator) (q : DraftRequest)
    (loaded : Option Dataset)

def ReviewAct.loads (s : GoldenStore) : ReviewAct → Prop
  | .put _ _ => True
  | .review _ _ q loaded => Loads s.db.datasets q.tenantId q.name loaded
  | .draft _ _ _ q loaded => Loads s.db.datasets q.tenantId q.name loaded

instance (s : GoldenStore) (a : ReviewAct) : Decidable (a.loads s) := by
  cases a <;> unfold ReviewAct.loads <;> infer_instance

/-- What a request saves, where it gets so far. -/
def ReviewAct.saves (s : GoldenStore) : ReviewAct → Option (SaveStamp × SaveRequest)
  | .put g q => some (g, q)
  | .review g _ q (some d) =>
    if ∀ item ∈ d.items, item.id ≠ q.itemId then none
    else q.payload.expectedAnswer.map (fun answer => (g, q.edit d answer))
  | .draft g _ annotator q (some d) =>
    if q.proposals annotator s.labels d = [] then none
    else some (g, q.fill d (q.proposals annotator s.labels d))
  | _ => none

/-- A generated id is taken. -/
def ReviewAct.idTaken (env : DatasetEnv) (s : GoldenStore) (a : ReviewAct) : Bool :=
  (a.saves s).any (fun x => match save env s.db x.1 x.2 with
    | .error .idTaken => true
    | _ => false)

/-- The request leaves this store. -/
def ReviewState.moved (s : ReviewState) (writer : Writer) (store : GoldenStore) : ReviewState :=
  { s with
    store := store
    sinceConfirmed :=
      fun k => (rewriteOf writer s.store.db.datasets store.db.datasets k).or (s.sinceConfirmed k)
    sinceSubmitted :=
      fun k => (rewriteOf writer s.store.db.datasets store.db.datasets k).or (s.sinceSubmitted k) }

/-- A review that succeeds leaves this store. -/
def ReviewState.noted (s : ReviewState) (q : ReviewRequest) (store : GoldenStore) : ReviewState :=
  let moved := s.moved (.review q.payload.confirmed) store
  let confirms := q.payload.confirmed = some true
  { moved with
    attested := if confirms then Function.update s.attested q.key
      (currentAnswers store.db.datasets q.key)
      else s.attested
    sinceConfirmed :=
      if confirms then Function.update moved.sinceConfirmed q.key none else moved.sinceConfirmed
    submitted :=
      match q.payload.expectedAnswer with
      | some answer => Function.update s.submitted q.key (some (strip answer))
      | none => s.submitted
    sinceSubmitted :=
      match q.payload.expectedAnswer with
      | some _ => Function.update moved.sinceSubmitted q.key none
      | none => moved.sinceSubmitted }

@[simp] theorem ReviewState.store_moved (s : ReviewState) (writer : Writer) (store : GoldenStore) :
    (s.moved writer store).store = store := rfl

@[simp] theorem ReviewState.store_noted (s : ReviewState) (q : ReviewRequest)
    (store : GoldenStore) : (s.noted q store).store = store := rfl

@[simp] theorem ReviewState.moved_self (s : ReviewState) (writer : Writer) :
    s.moved writer s.store = s := by
  simp [ReviewState.moved]

def reviewStep (env : DatasetEnv) (s : ReviewState) (a : ReviewAct) : Option ReviewState :=
  if a.loads s.store ∧ a.idTaken env s.store = false then
    match a with
    | .put g q => some (s.moved .put (putDataset env s.store g q).1)
    | .review g labelledAt q loaded =>
      match reviewItem env s.store g labelledAt q loaded with
      | (store, .ok _) => some (s.noted q store)
      | (store, .error _) => some (s.moved (.review q.payload.confirmed) store)
    | .draft g labelledAt annotator q loaded =>
      some (s.moved .draft (draftAnswers env annotator s.store g labelledAt q loaded).1)
  else none

/-! ## What one request can do -/

inductive Outcome (env : DatasetEnv) (s : ReviewState) : ReviewAct → ReviewState → Prop
  | refused {a : ReviewAct} (h : ∀ x ∈ a.saves s.store, x.2.stores env = none) : Outcome env s a s
  | put {g : SaveStamp} {q : SaveRequest} {db : GoldenDb} {saved : Dataset}
    (hsave : save env s.store.db g q = .ok (db, saved)) :
    Outcome env s (.put g q) (s.moved .put { s.store with db := db })
  /-- No answer is submitted. -/
  | labelled {g : SaveStamp} {labelledAt : Time} {q : ReviewRequest} {d : Dataset}
    {labels : LabelTable} {label : LabelRow} (hanswer : q.payload.expectedAnswer = none)
    (hlabel : setLabel s.store.labels q.key q.by_ labelledAt q.verdict = some (labels, label)) :
    Outcome env s (.review g labelledAt q (some d)) (s.noted q { s.store with labels := labels })
  /-- The id does not fit the column of the label. -/
  | unlabelled {g : SaveStamp} {labelledAt : Time} {q : ReviewRequest} {d : Dataset}
    {answer : String} {db : GoldenDb} {saved : Dataset}
    (hloads : Loads s.store.db.datasets q.tenantId q.name (some d))
    (hfound : ∃ item ∈ d.items, item.id = q.itemId)
    (hanswer : q.payload.expectedAnswer = some answer)
    (hsave : save env s.store.db g (q.edit d answer) = .ok (db, saved)) (hlong : ¬ q.key.Fits) :
    Outcome env s (.review g labelledAt q (some d))
      (s.moved (.review q.payload.confirmed) { s.store with db := db })
  | reviewed {g : SaveStamp} {labelledAt : Time} {q : ReviewRequest} {d : Dataset} {answer : String}
    {db : GoldenDb} {saved : Dataset} {labels : LabelTable} {label : LabelRow}
    (hloads : Loads s.store.db.datasets q.tenantId q.name (some d))
    (hfound : ∃ item ∈ d.items, item.id = q.itemId)
    (hanswer : q.payload.expectedAnswer = some answer)
    (hsave : save env s.store.db g (q.edit d answer) = .ok (db, saved))
    (hlabel : setLabel s.store.labels q.key q.by_ labelledAt q.verdict = some (labels, label)) :
    Outcome env s (.review g labelledAt q (some d)) (s.noted q ⟨db, labels⟩)
  /-- The labels are as they were where one of the ids does not fit. -/
  | drafted {g : SaveStamp} {labelledAt : Time} {annotator : Annotator} {q : DraftRequest}
    {d : Dataset} {db : GoldenDb} {saved : Dataset} {labels : LabelTable}
    (hloads : Loads s.store.db.datasets q.tenantId q.name (some d))
    (hsome : q.proposals annotator s.store.labels d ≠ [])
    (hsave : save env s.store.db g (q.fill d (q.proposals annotator s.store.labels d)) =
      .ok (db, saved))
    (hlabels : ∀ k, isConfirmed labels k = isConfirmed s.store.labels k ∧
      isEdited labels k = isEdited s.store.labels k) :
    Outcome env s (.draft g labelledAt annotator q (some d)) (s.moved .draft ⟨db, labels⟩)

/-- Where no id is taken, what fails to be saved is not stored. -/
theorem stores_of_idTaken {env : DatasetEnv} {s : GoldenStore} {a : ReviewAct} {g : SaveStamp}
    {q : SaveRequest} {e : SaveError} (hfree : a.idTaken env s = false)
    (hsaves : a.saves s = some (g, q)) (hsave : save env s.db g q = .error e) :
    q.stores env = none := by
  refine stores_of_error hsave ?_
  rintro rfl
  simp only [ReviewAct.idTaken, hsaves, Option.any_some, hsave] at hfree
  cases hfree

theorem outcome_of_review {env : DatasetEnv} {s t : ReviewState} {g : SaveStamp} {labelledAt : Time}
    {q : ReviewRequest} {loaded : Option Dataset}
    (hloads : Loads s.store.db.datasets q.tenantId q.name loaded)
    (hfree : (ReviewAct.review g labelledAt q loaded).idTaken env s.store = false)
    (h : (match reviewItem env s.store g labelledAt q loaded with
      | (store, .ok _) => some (s.noted q store)
      | (store, .error _) => some (s.moved (.review q.payload.confirmed) store)) = some t) :
    Outcome env s (.review g labelledAt q loaded) t := by
  cases loaded with
  | none =>
    simp only [reviewItem, ReviewState.moved_self, Option.some.injEq] at h
    cases h
    exact .refused nofun
  | some d =>
    by_cases hnone : ∀ item ∈ d.items, item.id ≠ q.itemId
    · simp only [reviewItem, if_pos hnone, ReviewState.moved_self, Option.some.injEq] at h
      cases h
      refine .refused ?_
      intro x hx
      rw [ReviewAct.saves, if_pos hnone] at hx
      cases hx
    · have hfound : ∃ item ∈ d.items, item.id = q.itemId := by
        by_contra hno
        exact hnone (fun item hitem hid => hno ⟨item, hitem, hid⟩)
      cases hanswer : q.payload.expectedAnswer with
      | none =>
        simp only [reviewItem, if_neg hnone, hanswer, labelItem] at h
        cases hlabel : setLabel s.store.labels q.key q.by_ labelledAt q.verdict with
        | none =>
          simp only [hlabel, ReviewState.moved_self, Option.some.injEq] at h
          cases h
          refine .refused ?_
          intro x hx
          rw [ReviewAct.saves, if_neg hnone, hanswer] at hx
          cases hx
        | some out =>
          simp only [hlabel, Option.some.injEq] at h
          cases h
          exact .labelled hanswer hlabel
      | some answer =>
        simp only [reviewItem, if_neg hnone, hanswer, labelItem] at h
        cases hsave : save env s.store.db g (q.edit d answer) with
        | error e =>
          simp only [hsave, ReviewState.moved_self, Option.some.injEq] at h
          cases h
          refine .refused ?_
          have hsaves : (ReviewAct.review g labelledAt q (some d)).saves s.store =
              some (g, q.edit d answer) := by
            rw [ReviewAct.saves, if_neg hnone, hanswer, Option.map_some]
          intro x hx
          cases hsaves.symm.trans hx
          exact stores_of_idTaken hfree hsaves hsave
        | ok out =>
          simp only [hsave] at h
          cases hlabel : setLabel s.store.labels q.key q.by_ labelledAt q.verdict with
          | none =>
            simp only [hlabel, Option.some.injEq] at h
            cases h
            exact .unlabelled hloads hfound hanswer hsave (setLabel_eq_none hlabel)
          | some labelled =>
            simp only [hlabel, Option.some.injEq] at h
            cases h
            exact .reviewed hloads hfound hanswer hsave hlabel

theorem outcome_of_draft {env : DatasetEnv} {s : ReviewState} {g : SaveStamp} {labelledAt : Time}
    {annotator : Annotator} {q : DraftRequest} {loaded : Option Dataset}
    (hloads : Loads s.store.db.datasets q.tenantId q.name loaded)
    (hfree : (ReviewAct.draft g labelledAt annotator q loaded).idTaken env s.store = false) :
    Outcome env s (.draft g labelledAt annotator q loaded)
      (s.moved .draft (draftAnswers env annotator s.store g labelledAt q loaded).1) := by
  cases loaded with
  | none =>
    rw [draftAnswers, ReviewState.moved_self]
    exact .refused nofun
  | some d =>
    by_cases hnone : q.proposals annotator s.store.labels d = []
    · simp only [draftAnswers, if_pos hnone, ReviewState.moved_self]
      refine .refused ?_
      intro x hx
      rw [ReviewAct.saves, if_pos hnone] at hx
      cases hx
    · simp only [draftAnswers, if_neg hnone]
      cases hsave : save env s.store.db g (q.fill d (q.proposals annotator s.store.labels d)) with
      | error e =>
        simp only [ReviewState.moved_self]
        refine .refused ?_
        have hsaves : (ReviewAct.draft g labelledAt annotator q (some d)).saves s.store =
            some (g, q.fill d (q.proposals annotator s.store.labels d)) := by
          rw [ReviewAct.saves, if_neg hnone]
        intro x hx
        cases hsaves.symm.trans hx
        exact stores_of_idTaken hfree hsaves hsave
      | ok out =>
        simp only
        split
        · exact .drafted hloads hnone hsave (fun _ => ⟨rfl, rfl⟩)
        · rename_i labels hlabels
          exact .drafted hloads hnone hsave
            (fun k => ⟨isConfirmed_recordDrafted hlabels k, isEdited_recordDrafted hlabels k⟩)

theorem outcome_of_step {env : DatasetEnv} {s t : ReviewState} {a : ReviewAct}
    (h : reviewStep env s a = some t) : Outcome env s a t := by
  unfold reviewStep at h
  split at h
  · rename_i hguard
    obtain ⟨hloads, hfree⟩ := hguard
    cases a with
    | put g q =>
      cases h
      cases hsave : save env s.store.db g q with
      | ok out =>
        simp only [putDataset, hsave]
        exact .put hsave
      | error e =>
        simp only [putDataset, hsave, ReviewState.moved_self]
        refine .refused ?_
        intro x hx
        cases hx
        exact stores_of_idTaken hfree rfl hsave
    | review g labelledAt q loaded => exact outcome_of_review hloads hfree h
    | draft g labelledAt annotator q loaded =>
      cases h
      exact outcome_of_draft hloads hfree
  · cases h

/-! ## Where a proposal comes from -/

theorem mem_assignAnswer {answers : List (String × String)} {e x : String × String}
    (h : x ∈ assignAnswer answers e) : x ∈ answers ∨ x = e := by
  unfold assignAnswer at h
  split at h
  · obtain ⟨y, hy, rfl⟩ := List.mem_map.mp h
    split
    · exact Or.inr rfl
    · exact Or.inl hy
  · rcases List.mem_append.mp h with hold | hnew
    · exact Or.inl hold
    · exact Or.inr (List.mem_singleton.mp hnew)

theorem mem_foldl_assignAnswer {es answers : List (String × String)} {x : String × String}
    (h : x ∈ es.foldl assignAnswer answers) : x ∈ answers ∨ x ∈ es := by
  induction es generalizing answers with
  | nil => exact Or.inl h
  | cons e es ih =>
    rcases ih h with hacc | hlater
    · rcases mem_assignAnswer hacc with hold | rfl
      · exact Or.inl hold
      · exact Or.inr List.mem_cons_self
    · exact Or.inr (List.mem_cons_of_mem e hlater)

/-- A reply of the batch has an answer under this id. -/
def Annotator.Replies (annotator : Annotator) (batch : List EvalItem) (id : String) : Prop :=
  annotator.blocks batch ≠ [] ∧ ∃ e ∈ annotator.reply (annotator.blocks batch), e.1 = id

theorem mem_draftBatch {annotator : Annotator} {drafted : List (String × String)}
    {batch : List EvalItem} {x : String × String} (h : x ∈ draftBatch annotator drafted batch) :
    x ∈ drafted ∨ annotator.Replies batch x.1 := by
  unfold draftBatch at h
  split at h
  · exact Or.inl h
  · rename_i hsome
    rcases mem_foldl_assignAnswer h with hold | hgiven
    · exact Or.inl hold
    · obtain ⟨e, he, rfl⟩ := List.mem_map.mp (List.mem_filter.mp hgiven).1
      exact Or.inr ⟨hsome, e, he, rfl⟩

theorem mem_draft {annotator : Annotator} {labels : String → Option LabelRow} {d : Dataset}
    {limit : Nat} {x : String × String} (h : x ∈ draft annotator labels d limit) :
    ∃ batch ∈ batches (pendingItems labels d limit), annotator.Replies batch x.1 := by
  have hfold : ∀ (bs : List (List EvalItem)) (drafted : List (String × String)),
      x ∈ bs.foldl (draftBatch annotator) drafted → x ∈ drafted ∨
      ∃ batch ∈ bs, annotator.Replies batch x.1 := by
    intro bs
    induction bs with
    | nil => exact fun _ hx => Or.inl hx
    | cons b bs ih =>
      intro drafted hx
      rcases ih _ hx with hacc | ⟨batch, hbatch, hreplies⟩
      · rcases mem_draftBatch hacc with hold | hreplies
        · exact Or.inl hold
        · exact Or.inr ⟨b, List.mem_cons_self, hreplies⟩
      · exact Or.inr ⟨batch, List.mem_cons_of_mem b hbatch, hreplies⟩
  rcases hfold _ _ h with hnil | hreplied
  · cases hnil
  · exact hreplied

/-- Every reply answers only items that it was asked about. -/
def Annotator.AnswersAsked (annotator : Annotator) (pending : List EvalItem) : Prop :=
  ∀ batch ∈ batches pending, annotator.blocks batch ≠ [] →
    ∀ e ∈ annotator.reply (annotator.blocks batch), ∃ block ∈ annotator.blocks batch,
    block.1.id = e.1

instance (annotator : Annotator) (pending : List EvalItem) :
    Decidable (annotator.AnswersAsked pending) :=
  inferInstanceAs (Decidable (∀ batch ∈ batches pending, _))

/-- What is proposed is then pending. -/
theorem pending_of_proposed {annotator : Annotator} {q : DraftRequest} {labels : LabelTable}
    {d : Dataset} {id : String}
    (hasked : annotator.AnswersAsked (pendingItems (forDataset labels q.tenantId q.name) d q.limit))
    (h : id ∈ (q.proposals annotator labels d).map Prod.fst) :
    ∃ item ∈ d.items, item.id = id ∧
      pendingDraft (forDataset labels q.tenantId q.name) item = true := by
  obtain ⟨x, hx, rfl⟩ := List.mem_map.mp h
  obtain ⟨batch, hbatch, hsome, e, he, hid⟩ := mem_draft hx
  obtain ⟨block, hblock, hasks⟩ := hasked batch hbatch hsome e he
  obtain ⟨item, hitem, rfl⟩ := List.mem_map.mp (List.mem_filter.mp hblock).1
  have hpending : item ∈ pendingItems (forDataset labels q.tenantId q.name) d q.limit := by
    rw [← flatten_batches (pendingItems _ _ _)]
    exact List.mem_flatten_of_mem hbatch hitem
  obtain ⟨hmem, hyes⟩ := List.mem_filter.mp (List.mem_of_mem_take hpending)
  exact ⟨item, hmem, hasks.trans hid, hyes⟩

/-- Nothing that a reviewer edited is pending. -/
theorem not_edited_of_pending {labels : LabelTable} {k : LabelKey} {item : EvalItem}
    (h : pendingDraft (forDataset labels k.tenantId k.datasetName) item = true)
    (hid : item.id = k.itemId) : isEdited labels k = false := by
  have hmachine : (labels.get k).any (fun r => r.answerSource.humanAuthored) = false := by
    simp only [pendingDraft, forDataset, hid, Bool.and_eq_true, Bool.not_eq_true'] at h
    exact h.1.2
  cases hg : labels.get k with
  | none => simp [isEdited, hg]
  | some r =>
    rw [hg, Option.any_some] at hmachine
    rw [isEdited, hg, Option.any_some, decide_eq_false_iff_not]
    intro hedited
    rw [hedited] at hmachine
    cases hmachine

/-! ## The property and the conditions -/

/-- The answer is the one on record; or it was rewritten since, last to this, in a way that
keeps the record. -/
def Stands (onRecord : Prop) (keeps : Rewrite → Prop) (since : Option Rewrite) (answer : String) :
    Prop :=
  match since with
  | none => onRecord
  | some w => w.after = answer ∧ keeps w

/-- A version that is put may have another answer, a review that says nothing of the
confirmation may submit one, and a draft fills in a blank. -/
def Rewrite.KeepsConfirmation (w : Rewrite) : Prop :=
  w.writer = .put ∨ w.writer = .review none ∨ (w.writer = .draft ∧ w.before = some "")

structure Vouched (s : ReviewState) (k : LabelKey) (answer : String) : Prop where
  confirmed : isConfirmed s.store.labels k = true →
    Stands (answer ∈ s.attested k) Rewrite.KeepsConfirmation (s.sinceConfirmed k) answer
  edited : isEdited s.store.labels k = true →
    Stands (s.submitted k = some answer) (fun w => w.writer = .put) (s.sinceSubmitted k) answer

/-- What is confirmed has the answer it had when that was recorded, and what counts as
edited by a reviewer the answer that a reviewer submitted last, up to such rewrites. -/
def Attests (s : ReviewState) : Prop :=
  ∀ k answer, Current s.store.db.datasets k answer → Vouched s k answer

/-- What is saved is what `load` returns next. -/
def landsOnTop (env : DatasetEnv) (s : ReviewState) (a : ReviewAct) : Prop :=
  ∀ x ∈ a.saves s.store, ∀ built ∈ x.2.stores env,
    OnTop env s.store.db.datasets x.2.tenantId x.2.name x.1.now built

instance (env : DatasetEnv) (s : ReviewState) (a : ReviewAct) : Decidable (landsOnTop env s a) :=
  inferInstanceAs (Decidable (∀ x ∈ a.saves s.store, _))

/-- A draft takes no answer that it did not ask for. -/
def answersAsked (s : ReviewState) : ReviewAct → Prop
  | .draft _ _ annotator q (some d) =>
    annotator.AnswersAsked (pendingItems (forDataset s.store.labels q.tenantId q.name) d q.limit)
  | _ => True

instance (s : ReviewState) (a : ReviewAct) : Decidable (answersAsked s a) := by
  unfold answersAsked
  split <;> infer_instance

/-! ## Steps -/

theorem Stands.moved {onRecord : Prop} {keeps : Rewrite → Prop} {since : Option Rewrite}
    (writer : Writer) {before after : DatasetTable} {k : LabelKey} {answer : String}
    (hone : OneAnswer after) (hcurrent : Current after k answer)
    (hold : Current before k answer → Stands onRecord keeps since answer)
    (hnew : ¬ Current before k answer → keeps ⟨writer, (currentAnswers before k).head?, answer⟩) :
    Stands onRecord keeps ((rewriteOf writer before after k).or since) answer := by
  rcases rewriteOf_of_current hone hcurrent writer before with ⟨hbefore, hnone⟩ | ⟨hbefore, hsome⟩
  · rw [hnone, Option.none_or]
    exact hold hbefore
  · rw [hsome, Option.some_or]
    exact ⟨rfl, hnew hbefore⟩

theorem attests_put {s : ReviewState} {db : GoldenDb} (h : Attests s)
    (hone : OneAnswer db.datasets) : Attests (s.moved .put { s.store with db := db }) := by
  intro k answer hcurrent
  constructor
  · intro hyes
    exact Stands.moved _ hone hcurrent (fun hold => (h k answer hold).confirmed hyes)
      (fun _ => Or.inl rfl)
  · intro hyes
    exact Stands.moved _ hone hcurrent (fun hold => (h k answer hold).edited hyes) (fun _ => rfl)

/-- An answer that a draft gives goes to an item that has none. -/
theorem blank_of_drafted {env : DatasetEnv} {db db' : GoldenDb} {g : SaveStamp} {q : DraftRequest}
    {d saved : Dataset} {drafted : List (String × String)} {k : LabelKey} {answer : String}
    (hstored : StoredNormalized db.datasets) (hloads : Loads db.datasets q.tenantId q.name (some d))
    (hsave : save env db g (q.fill d drafted) = .ok (db', saved))
    (htop : OnTop env db.datasets q.tenantId q.name g.now saved.items)
    (hcurrent : Current db'.datasets k answer) (hnew : ¬ Current db.datasets k answer) :
    Current db.datasets k "" ∧ k.tenantId = q.tenantId ∧ k.datasetName = q.name ∧
      k.itemId ∈ drafted.map Prod.fst := by
  have hname : q.tenantId = k.tenantId ∧ q.name = k.datasetName := by
    by_contra hother
    exact hnew ((current_other hsave hother).mp hcurrent)
  obtain ⟨tenantId, name, itemId⟩ := k
  obtain ⟨rfl, rfl⟩ := hname
  obtain ⟨x, hx, hxid, hxanswer⟩ := (current_saved hsave htop).mp hcurrent
  rw [items_of_save hsave rfl] at hx
  obtain ⟨y, hy, rfl⟩ := List.mem_map.mp hx
  obtain ⟨item, hitem, rfl⟩ := List.mem_map.mp hy
  obtain ⟨hnormal, hbefore⟩ := current_of_loads hstored hloads item hitem
  have hid : item.id = itemId := (congrArg EvalItem.id hnormal).symm.trans hxid
  have hanswer : strip item.expectedAnswer = item.expectedAnswer :=
    congrArg EvalItem.expectedAnswer hnormal
  rw [EvalItem.expectedAnswer_normalized, EvalItem.filled] at hxanswer
  subst hid
  cases hproposal : proposalFor drafted item with
  | none =>
    rw [hproposal, Option.getD_none, hanswer] at hxanswer
    exact absurd (hxanswer ▸ hbefore) hnew
  | some text =>
    unfold proposalFor at hproposal
    split at hproposal
    · rename_i hblank
      have hempty : item.expectedAnswer = "" := hanswer.symm.trans (of_decide_eq_true hblank)
      obtain ⟨hlookup, -⟩ := Option.filter_eq_some_iff.mp hproposal
      refine ⟨hempty ▸ hbefore, rfl, rfl, ?_⟩
      by_contra hno
      rw [Dict.lookup_eq_none.mpr hno] at hlookup
      cases hlookup
    · cases hproposal

theorem attests_draft {env : DatasetEnv} {s : ReviewState} {g : SaveStamp} {annotator : Annotator}
    {q : DraftRequest} {d saved : Dataset} {db : GoldenDb} {labels : LabelTable} (h : Attests s)
    (hstored : StoredNormalized s.store.db.datasets) (hone : OneAnswer s.store.db.datasets)
    (hone' : OneAnswer db.datasets) (hloads : Loads s.store.db.datasets q.tenantId q.name (some d))
    (hsave : save env s.store.db g (q.fill d (q.proposals annotator s.store.labels d)) =
      .ok (db, saved))
    (htop : OnTop env s.store.db.datasets q.tenantId q.name g.now saved.items)
    (hlabels : ∀ k, isConfirmed labels k = isConfirmed s.store.labels k ∧
      isEdited labels k = isEdited s.store.labels k)
    (hasked : annotator.AnswersAsked
      (pendingItems (forDataset s.store.labels q.tenantId q.name) d q.limit)) :
    Attests (s.moved .draft ⟨db, labels⟩) := by
  intro k answer hcurrent
  have hblank := blank_of_drafted hstored hloads hsave htop hcurrent
  constructor
  · intro hyes
    refine Stands.moved _ hone' hcurrent
      (fun hold => (h k answer hold).confirmed ((hlabels k).1 ▸ hyes)) ?_
    intro hnew
    exact Or.inr (Or.inr ⟨rfl, head?_currentAnswers hone (hblank hnew).1⟩)
  · intro hyes
    have hedited : isEdited s.store.labels k = true := (hlabels k).2 ▸ hyes
    refine Stands.moved _ hone' hcurrent (fun hold => (h k answer hold).edited hedited) ?_
    intro hnew
    -- the item was asked about, so no reviewer had edited it
    obtain ⟨-, htenant, hname, hproposed⟩ := hblank hnew
    obtain ⟨item, -, hid, hpending⟩ := pending_of_proposed hasked hproposed
    rw [← htenant, ← hname] at hpending
    cases (not_edited_of_pending hpending hid).symm.trans hedited

/-- A review changes the answer of its own item only. -/
theorem current_reviewed {env : DatasetEnv} {db db' : GoldenDb} {g : SaveStamp} {q : ReviewRequest}
    {d saved : Dataset} {answer : String} {k : LabelKey} {text : String}
    (hstored : StoredNormalized db.datasets) (hloads : Loads db.datasets q.tenantId q.name (some d))
    (hsave : save env db g (q.edit d answer) = .ok (db', saved))
    (htop : OnTop env db.datasets q.tenantId q.name g.now saved.items)
    (hcurrent : Current db'.datasets k text) :
    (k ≠ q.key → Current db.datasets k text) ∧ (k = q.key → text = strip answer) := by
  by_cases hname : q.tenantId = k.tenantId ∧ q.name = k.datasetName
  · obtain ⟨tenantId, name, itemId⟩ := k
    obtain ⟨rfl, rfl⟩ := hname
    obtain ⟨x, hx, hxid, rfl⟩ := (current_saved hsave htop).mp hcurrent
    rw [items_of_save hsave rfl] at hx
    obtain ⟨y, hy, rfl⟩ := List.mem_map.mp hx
    obtain ⟨item, hitem, rfl⟩ := List.mem_map.mp hy
    obtain ⟨hnormal, hbefore⟩ := current_of_loads hstored hloads item hitem
    by_cases hid : item.id = q.itemId
    · have hstrip : strip item.id = item.id := congrArg EvalItem.id hnormal
      have hown : itemId = q.itemId := by
        rw [← hxid, EvalItem.reviewed, if_pos hid]
        exact hstrip.trans hid
      refine ⟨fun hne => absurd (congrArg (LabelKey.mk q.tenantId q.name) hown) hne, fun _ => ?_⟩
      rw [EvalItem.reviewed, if_pos hid]
      rfl
    · rw [EvalItem.reviewed, if_neg hid, hnormal] at hxid ⊢
      subst hxid
      exact ⟨fun _ => hbefore, fun hkey => absurd (congrArg LabelKey.itemId hkey) hid⟩
  · refine ⟨fun _ => (current_other hsave hname).mp hcurrent, ?_⟩
    rintro rfl
    exact absurd ⟨rfl, rfl⟩ hname

/-- The id does not fit, so there is no label that could stand beside the new answer. -/
theorem attests_unlabelled {s : ReviewState} {writer : Writer} {q : ReviewRequest} {db : GoldenDb}
    (h : Attests s) (hone : OneAnswer db.datasets) (hlong : ¬ q.key.Fits)
    (hother : ∀ k text, Current db.datasets k text → k ≠ q.key →
      Current s.store.db.datasets k text) : Attests (s.moved writer { s.store with db := db }) := by
  intro k answer hcurrent
  by_cases hk : k = q.key
  · subst k
    obtain ⟨hconfirmed, hedited⟩ := isConfirmed_of_not_fits (t := s.store.labels) hlong
    constructor
    · intro hyes
      cases hconfirmed.symm.trans hyes
    · intro hyes
      cases hedited.symm.trans hyes
  · have hold := hother k answer hcurrent hk
    have hvouched := h k answer hold
    constructor
    · intro hyes
      exact Stands.moved _ hone hcurrent (fun _ => hvouched.confirmed hyes)
        (fun hnew => absurd hold hnew)
    · intro hyes
      exact Stands.moved _ hone hcurrent (fun _ => hvouched.edited hyes)
        (fun hnew => absurd hold hnew)

/-- A review leaves what is kept of other items. -/
theorem vouched_noted_other {s : ReviewState} {q : ReviewRequest} {labelledAt : Time}
    {labels : LabelTable} {label : LabelRow} {db : GoldenDb} {k : LabelKey} {answer : String}
    (h : Vouched s k answer) (hone : OneAnswer db.datasets)
    (hlabel : setLabel s.store.labels q.key q.by_ labelledAt q.verdict = some (labels, label))
    (hk : k ≠ q.key) (hcurrent : Current db.datasets k answer)
    (hold : Current s.store.db.datasets k answer) : Vouched (s.noted q ⟨db, labels⟩) k answer := by
  have hconfirmed : isConfirmed labels k = isConfirmed s.store.labels k := by
    rw [isConfirmed_setLabel hlabel, if_neg hk]
  have hedited : isEdited labels k = isEdited s.store.labels k := by
    rw [isEdited_setLabel hlabel, if_neg (fun hboth => hk hboth.1)]
  constructor
  · intro hyes
    rw [ReviewState.store_noted, hconfirmed] at hyes
    have hstands :=
      Stands.moved (.review q.payload.confirmed) hone hcurrent (fun _ => h.confirmed hyes)
        (fun hnew => absurd hold hnew)
    simp only [ReviewState.noted]
    split
    · rw [Function.update_of_ne hk, Function.update_of_ne hk]
      exact hstands
    · exact hstands
  · intro hyes
    rw [ReviewState.store_noted, hedited] at hyes
    have hstands :=
      Stands.moved (.review q.payload.confirmed) hone hcurrent (fun _ => h.edited hyes)
        (fun hnew => absurd hold hnew)
    simp only [ReviewState.noted]
    cases q.payload.expectedAnswer with
    | none => exact hstands
    | some text =>
      simp only [Function.update_of_ne hk]
      exact hstands

/-- Its own item: a confirmation is of what is current, and what was submitted is current. -/
theorem vouched_noted_own {s : ReviewState} {q : ReviewRequest} {labelledAt : Time}
    {labels : LabelTable} {label : LabelRow} {db : GoldenDb} {answer : String} (h : Attests s)
    (hone : OneAnswer db.datasets)
    (hlabel : setLabel s.store.labels q.key q.by_ labelledAt q.verdict = some (labels, label))
    (hcurrent : Current db.datasets q.key answer)
    (hsubmitted : ∀ text, q.payload.expectedAnswer = some text → answer = strip text)
    (hsame : q.payload.expectedAnswer = none → Current s.store.db.datasets q.key answer) :
    Vouched (s.noted q ⟨db, labels⟩) q.key answer := by
  constructor
  · intro hyes
    rw [ReviewState.store_noted, isConfirmed_setLabel hlabel, if_pos rfl] at hyes
    simp only [ReviewState.noted]
    simp only [ReviewRequest.verdict] at hyes
    rcases hconfirmed : q.payload.confirmed with _ | _ | _
    · -- omitted: the confirmation stays, and the answer may be another one
      rw [hconfirmed, Option.getD_none] at hyes
      simp only [reduceCtorEq, if_false]
      exact Stands.moved _ hone hcurrent (fun hold => (h _ _ hold).confirmed hyes)
        (fun _ => Or.inr (Or.inl rfl))
    · rw [hconfirmed] at hyes
      cases hyes
    · simp only [if_true, Function.update_self]
      exact mem_currentAnswers.mpr hcurrent
  · intro hyes
    simp only [ReviewState.store_noted] at hyes
    simp only [ReviewState.noted]
    cases hanswer : q.payload.expectedAnswer with
    | none =>
      have hedited : isEdited labels q.key = isEdited s.store.labels q.key := by
        rw [isEdited_setLabel hlabel, if_neg (by simp [ReviewRequest.verdict, hanswer])]
      exact Stands.moved _ hone hcurrent (fun hold => (h _ _ hold).edited (hedited ▸ hyes))
        (fun hnew => absurd (hsame hanswer) hnew)
    | some text =>
      simp only [Function.update_self]
      exact congrArg some (hsubmitted text hanswer).symm

theorem attests_noted {s : ReviewState} {q : ReviewRequest} {labelledAt : Time}
    {labels : LabelTable} {label : LabelRow} {db : GoldenDb} (h : Attests s)
    (hone : OneAnswer db.datasets)
    (hlabel : setLabel s.store.labels q.key q.by_ labelledAt q.verdict = some (labels, label))
    (hother : ∀ k text, Current db.datasets k text → k ≠ q.key → Current s.store.db.datasets k text)
    (hsubmitted : ∀ answer, Current db.datasets q.key answer →
      ∀ text, q.payload.expectedAnswer = some text → answer = strip text)
    (hsame : ∀ answer, Current db.datasets q.key answer → q.payload.expectedAnswer = none →
      Current s.store.db.datasets q.key answer) : Attests (s.noted q ⟨db, labels⟩) := by
  intro k answer hcurrent
  by_cases hk : k = q.key
  · subst k
    exact vouched_noted_own h hone hlabel hcurrent (hsubmitted answer hcurrent)
      (hsame answer hcurrent)
  · have hold := hother k answer hcurrent hk
    exact vouched_noted_other (h k answer hold) hone hlabel hk hcurrent hold

structure ReviewInv (s : ReviewState) : Prop where
  stored : StoredNormalized s.store.db.datasets
  one : OneAnswer s.store.db.datasets
  attests : Attests s

theorem reviewInv_initial : ReviewInv .initial where
  stored _ hr := absurd hr List.not_mem_nil
  one := by
    rintro k a b ⟨r, hr, -⟩
    exact absurd hr.1 List.not_mem_nil
  attests := by
    rintro k answer ⟨r, hr, -⟩
    exact absurd hr.1 List.not_mem_nil

/-- A review that saves puts its version on top. -/
theorem onTop_review {env : DatasetEnv} {s : ReviewState} {g : SaveStamp} {labelledAt : Time}
    {q : ReviewRequest} {d : Dataset} {answer : String} {db : GoldenDb} {saved : Dataset}
    (htop : landsOnTop env s (.review g labelledAt q (some d)))
    (hfound : ∃ item ∈ d.items, item.id = q.itemId)
    (hanswer : q.payload.expectedAnswer = some answer)
    (hsave : save env s.store.db g (q.edit d answer) = .ok (db, saved)) :
    OnTop env s.store.db.datasets q.tenantId q.name g.now saved.items := by
  obtain ⟨item, hitem, hid⟩ := hfound
  have hsaves : (ReviewAct.review g labelledAt q (some d)).saves s.store =
      some (g, q.edit d answer) := by
    rw [ReviewAct.saves, if_neg (fun hnone => hnone item hitem hid), hanswer, Option.map_some]
  exact htop _ hsaves _ (stores_of_ok hsave)

theorem reviewInv_step {env : DatasetEnv} {s t : ReviewState} {a : ReviewAct} (h : ReviewInv s)
    (htop : landsOnTop env s a) (hasked : answersAsked s a) (hstep : reviewStep env s a = some t) :
    ReviewInv t := by
  cases outcome_of_step hstep with
  | refused _ => exact h
  | put hsave =>
    have hone := oneAnswer_save h.one hsave (htop _ rfl _ (stores_of_ok hsave))
    exact ⟨storedNormalized_save h.stored hsave, hone, attests_put h.attests hone⟩
  | labelled hanswer hlabel =>
    refine ⟨h.stored, h.one,
      attests_noted h.attests h.one hlabel (fun _ _ hcurrent _ => hcurrent) ?_ ?_⟩
    · intro answer _ text htext
      cases hanswer.symm.trans htext
    · exact fun _ hcurrent _ => hcurrent
  | unlabelled hloads hfound hanswer hsave hlong =>
    have hland := onTop_review htop hfound hanswer hsave
    have hone := oneAnswer_save h.one hsave hland
    refine ⟨storedNormalized_save h.stored hsave, hone, attests_unlabelled h.attests hone hlong ?_⟩
    exact fun k text hcurrent => (current_reviewed h.stored hloads hsave hland hcurrent).1
  | reviewed hloads hfound hanswer hsave hlabel =>
    have hland := onTop_review htop hfound hanswer hsave
    have hone := oneAnswer_save h.one hsave hland
    refine ⟨storedNormalized_save h.stored hsave, hone,
      attests_noted h.attests hone hlabel ?_ ?_ ?_⟩
    · exact fun k text hcurrent => (current_reviewed h.stored hloads hsave hland hcurrent).1
    · intro answer hcurrent text htext
      cases hanswer.symm.trans htext
      exact (current_reviewed h.stored hloads hsave hland hcurrent).2 rfl
    · intro answer _ hnone
      cases hanswer.symm.trans hnone
  | @drafted g labelledAt annotator q d db saved labels hloads hsome hsave hlabels =>
    have hsaves : (ReviewAct.draft g labelledAt annotator q (some d)).saves s.store =
        some (g, q.fill d (q.proposals annotator s.store.labels d)) := by
      rw [ReviewAct.saves, if_neg hsome]
    have hland := htop _ hsaves _ (stores_of_ok hsave)
    have hone := oneAnswer_save h.one hsave hland
    exact ⟨storedNormalized_save h.stored hsave, hone,
      attests_draft h.attests h.stored h.one hone hloads hsave hland hlabels hasked⟩

/-! ## Runs -/

/-- Along a run of requests on any datasets, each saving what `load` returns next and no
draft taking an answer it did not ask for, the answer of a confirmed item is the attested
one, or the last that was put, submitted without a word on the confirmation or drafted for a
blank since; and the answer of an edited item is the one submitted last, or the last that was
put since. -/
theorem confirmations_attest {env : DatasetEnv} {acts : List ReviewAct} {s : ReviewState}
    (h : Reaches (restrict answersAsked (restrict (landsOnTop env) (reviewStep env)))
      .initial acts s) : Attests s := by
  have hinv : ReviewInv s := by
    refine h.invariant ?_ reviewInv_initial
    intro m a t hm hstep
    obtain ⟨hasked, hstep⟩ := restrict_eq_some.mp hstep
    obtain ⟨htop, hstep⟩ := restrict_eq_some.mp hstep
    exact reviewInv_step hm htop hasked hstep
  exact hinv.attests

/-- SHA-256 on the four versions of the item. -/
def draftedSha256 (text : String) : String :=
  if text = Json.dumpsAscii (.arr [.obj (voltageItem "").toDict]) then
    "c436277730e87dae4d6bc544403b54e6b65caa194483a0f390ec7aa92736ecf6"
  else if text = Json.dumpsAscii (.arr [.obj (voltageItem "240 V").toDict]) then
    "52baf7106e4e0d91e63d0a6f427e498f3316cb5a2f5bc6a4b7db3fa4d033b046"
  else voltageSha256 text

def draftedEnv : DatasetEnv := { voltageEnv.datasets with sha256 := draftedSha256 }

def putVoltage (now : Time) (id : Uuid) (answer : String) : ReviewAct :=
  .put ⟨now, id, id⟩ ⟨7, 3, "safety", "manuals", [(voltageItem answer).toDict]⟩

/-- A review of the item that confirms it, without an answer of its own. -/
def confirmVoltage (now : Time) (loaded : Option Dataset) : ReviewAct :=
  .review ⟨now, 0, 0⟩ now
    ⟨7, 3, "safety", "q1", ⟨none, some true, none, none, by simp, by simp⟩⟩ loaded

/-- A review that edits its answer and confirms it again. -/
def editVoltage (now : Time) (id : Uuid) (loaded : Option Dataset) : ReviewAct :=
  .review ⟨now, id, id⟩ now
    ⟨7, 3, "safety", "q1", ⟨some " 110 V", some true, none, none, by decide, by simp⟩⟩ loaded

/-- A draft of the item, from the one passage it rests on. -/
def draftVoltage (now : Time) (id : Uuid) (loaded : Option Dataset) : ReviewAct :=
  .draft ⟨now, id, id⟩ now ⟨"gpt-4.1-mini", fun _ => ["Supply: 230 V."], fun _ => [("q1", "230 V")]⟩
    ⟨7, 3, "safety", ⟨15, by decide⟩⟩ loaded

/-- The version of the item with this answer. -/
def voltageVersion (id : Uuid) (answer : String) : Option Dataset :=
  some ⟨id, "safety", "manuals", contentSha draftedEnv [voltageItem answer], [voltageItem answer]⟩

/-- The item is put without an answer, drafted, confirmed, edited and confirmed; then a version
with another answer is put. -/
def reviewedThenPut : List ReviewAct :=
  [putVoltage 0 1 "", draftVoltage 10 2 (voltageVersion 1 ""),
    confirmVoltage 20 (voltageVersion 2 "230 V"),
    editVoltage 30 3 (voltageVersion 2 "230 V"), putVoltage 40 4 "240 V"]

theorem reviewedThenPut_run :
    (reviewedThenPut.foldlM
      (restrict answersAsked (restrict (landsOnTop draftedEnv) (reviewStep draftedEnv)))
      .initial).map (fun s => (currentAnswers s.store.db.datasets ⟨7, "safety", "q1"⟩,
        s.attested ⟨7, "safety", "q1"⟩, s.sinceConfirmed ⟨7, "safety", "q1"⟩)) =
      some (["240 V"], ["110 V"], some ⟨.put, some "110 V", "240 V"⟩) := by
  decide +kernel

/-- The result at that run. -/
theorem confirmations_attest_reviewedThenPut :
    ∃ s, Reaches (restrict answersAsked (restrict (landsOnTop draftedEnv) (reviewStep draftedEnv)))
      .initial reviewedThenPut s ∧
      currentAnswers s.store.db.datasets ⟨7, "safety", "q1"⟩ = ["240 V"] ∧
      s.attested ⟨7, "safety", "q1"⟩ = ["110 V"] ∧
      s.sinceConfirmed ⟨7, "safety", "q1"⟩ = some ⟨.put, some "110 V", "240 V"⟩ ∧ Attests s := by
  obtain ⟨s, hrun, hfacts⟩ := Option.map_eq_some_iff.mp reviewedThenPut_run
  simp only [Prod.mk.injEq] at hfacts
  obtain ⟨hcurrent, hattested, hsince⟩ := hfacts
  exact ⟨s, hrun, hcurrent, hattested, hsince, confirmations_attest hrun⟩

/-- The answer is confirmed, and a version with another answer is put. -/
def putUnderConfirmation : List ReviewAct :=
  [putVoltage 0 1 "230 V", confirmVoltage 10 (voltageVersion 1 "230 V"), putVoltage 20 2 "110 V"]

theorem putUnderConfirmation_run :
    (putUnderConfirmation.foldlM (reviewStep draftedEnv) .initial).map (fun s =>
        (isConfirmed s.store.labels ⟨7, "safety", "q1"⟩, s.attested ⟨7, "safety", "q1"⟩,
            currentAnswers s.store.db.datasets ⟨7, "safety", "q1"⟩)) =
            some (true, ["230 V"], ["110 V"]) := by
  decide +kernel

/-- The label survives the version, as it is meant to, and stands beside the other answer. -/
theorem confirmation_survives_put :
    ∃ s, Reaches (reviewStep draftedEnv) .initial putUnderConfirmation s ∧
      ¬ ∀ k answer, isConfirmed s.store.labels k = true → Current s.store.db.datasets k answer →
      answer ∈ s.attested k := by
  obtain ⟨s, hrun, hfacts⟩ := Option.map_eq_some_iff.mp putUnderConfirmation_run
  simp only [Prod.mk.injEq] at hfacts
  obtain ⟨hconfirmed, hattested, hanswers⟩ := hfacts
  have hcurrent : Current s.store.db.datasets ⟨7, "safety", "q1"⟩ "110 V" := by
    rw [← mem_currentAnswers, hanswers]
    exact List.mem_singleton_self _
  refine ⟨s, hrun, ?_⟩
  intro hall
  have hmem := hall _ _ hconfirmed hcurrent
  rw [hattested] at hmem
  revert hmem
  decide

end AgenticPlatform.Gates
