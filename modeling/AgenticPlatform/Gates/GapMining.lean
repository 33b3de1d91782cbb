import AgenticPlatform.Corpus.GapBacklog
import AgenticPlatform.Gates.ContentHash
import AgenticPlatform.Gates.GoldenEdits

/-!
# From a gap to an item

Requests that mine gaps into golden sets, each of whose transactions may be its last, among
asks, retention of gaps and other saves. A request reads the dataset, then the backlog,
saves the items, records where they come from, and only then marks the gaps.
-/
namespace AgenticPlatform.Gates
open AgenticPlatform.Foundation AgenticPlatform.Identity AgenticPlatform.Corpus

/-- What a row of the backlog gives to an item. -/
def gapOf (r : GapRow) : Gap := ⟨r.id, r.question⟩

/-- The id of the item of a gap, as it is stored. -/
def itemIdOf (env : EditEnv) (id : Uuid) : String := strip ("g_" ++ env.hex12 id)

/-- How far a request has come. -/
inductive MinePhase where
  | loaded (q : MineRequest) (existing : Option Dataset)
  | listed (q : MineRequest) (existing : Option Dataset) (backlog : List GapRow)
  | saved (q : MineRequest) (backlog : List GapRow) (added : List EvalItem)
  | labelled (q : MineRequest) (backlog : List GapRow)

/-- The request, and the rows it read, once it has saved. -/
def MinePhase.stored : MinePhase → Option (MineRequest × List GapRow)
  | .saved q backlog _ | .labelled q backlog => some (q, backlog)
  | _ => none

/-- The rows that are asked for and are there. -/
def chosenRows (q : MineRequest) (backlog : List GapRow) : List GapRow :=
  backlog.filter (fun r => r.id ∈ q.gapIds)

structure MineState where
  db : GoldenDb
  labels : LabelTable
  gaps : GapTable
  requests : Nat → Option MinePhase

def MineState.initial : MineState := ⟨.empty, Table.empty, Table.empty, fun _ => none⟩

def MineState.enter (s : MineState) (n : Nat) (phase : Option MinePhase) : MineState :=
  { s with requests := Function.update s.requests n phase }

inductive MineAct where
  | load (n : Nat) (q : MineRequest) (existing : Option Dataset)
  | list (n : Nat) (backlog : List GapRow)
  | save (n : Nat) (g : SaveStamp)
  | label (n : Nat)
  | mark (n : Nat) (now : Time)
  /-- The process dies, or a transaction fails. -/
  | stop (n : Nat)
  /-- A version somebody else saves. -/
  | put (g : SaveStamp) (q : SaveRequest)
  | record (a : Ask)
  | purge (days : Int) (now : Time)

instance (t : GapTable) (tenantId : Uuid) (collection : Option String) (includeSeeded : Bool)
    (limit : Nat) (out : List GapRow) :
    Decidable (Backlog t tenantId collection includeSeeded limit out) :=
  decidable_of_iff
    (out.Nodup ∧ (∀ r ∈ out, r ∈ t.rows ∧ r.listed tenantId collection includeSeeded) ∧
      out.Pairwise GapRow.before ∧ out.length ≤ limit ∧
      ∀ r ∈ t.rows, r.listed tenantId collection includeSeeded → r ∉ out →
      out.length = limit ∧ ∀ r' ∈ out, r'.before r)
    ⟨fun h => ⟨h.1, h.2.1, h.2.2.1, h.2.2.2.1, h.2.2.2.2⟩,
      fun h => ⟨h.nodup, h.listed, h.ordered, h.short, h.rest⟩⟩

/-- The retention of old versions of datasets is not among the steps. -/
def mineStep (gapEnv : GapEnv) (env : EditEnv) (s : MineState) : MineAct → Option MineState
  | .load n q existing =>
    if s.requests n = none ∧
      Loads s.db.datasets q.tenantId q.name existing then
      some (s.enter n (some (.loaded q existing)))
    else none
  | .list n backlog =>
    match s.requests n with
    | some (.loaded q existing) =>
      if Backlog s.gaps q.tenantId (some q.collection) false 500 backlog then
        some (s.enter n (some (.listed q existing backlog)))
      else none
    | _ => none
  | .save n g =>
    match s.requests n with
    | some (.listed q existing backlog) =>
      let r := EditRequest.mine q (backlog.map gapOf)
      match r.change env existing with
      -- a gap that is not there, or nothing to add
      | none => some (s.enter n none)
      | some c =>
        match save env.datasets s.db g (r.save c) with
        | .ok (db, _) => some { (s.enter n (some (.saved q backlog c.edited))) with db := db }
        | .error .idTaken => none
        | .error _ => some (s.enter n none)
    | _ => none
  | .label n =>
    match s.requests n with
    | some (.saved q backlog added) =>
      match setOrigin s.labels q.tenantId q.name (added.map EvalItem.id) .mined with
      | none => some (s.enter n none)
      | some labels => some { (s.enter n (some (.labelled q backlog))) with labels := labels }
    | _ => none
  | .mark n now =>
    match s.requests n with
    | some (.labelled q backlog) =>
      some { (s.enter n none) with
        gaps := (markSeeded s.gaps q.tenantId ((chosenRows q backlog).map GapRow.id) q.name now).1 }
    | _ => none
  | .stop n => some (s.enter n none)
  | .put g q =>
    match save env.datasets s.db g q with
    | .ok (db, _) => some { s with db := db }
    | .error .idTaken => none
    | .error _ => some s
  | .record a => some { s with gaps := record gapEnv s.gaps a }
  | .purge days now => some { s with gaps := (purgeGaps s.gaps days now).getD s.gaps }

/-! ## Versions that hold an item -/

/-- Some stored version of the dataset has an item of this id. An item is known by its id, and
that of a gap has twelve digits of the gap's. -/
def HoldsItem (t : DatasetTable) (tenantId : Uuid) (name itemId : String) : Prop :=
  ∃ v ∈ t.rows, v.isOf tenantId name ∧ ∃ item ∈ v.items, item.id = itemId

/-- Every version is stored under the hash of its items. -/
def HashesRight (env : DatasetEnv) (t : DatasetTable) : Prop :=
  ∀ v ∈ t.rows, v.contentSha256 = contentSha env v.items ∧ (v.items.map EvalItem.id).Nodup

section
variable {gapEnv : GapEnv} {env : EditEnv} {s t : MineState} {db db' : GoldenDb} {g : SaveStamp}
  {r : SaveRequest} {saved : Dataset}

/-- The items of a version that is saved, and their hash. -/
theorem saved_spec {env : DatasetEnv} (hsave : save env db g r = .ok (db', saved)) :
    saved.contentSha256 = contentSha env saved.items ∧ (saved.items.map EvalItem.id).Nodup := by
  obtain ⟨built, hbuilt, rfl, hsha, -⟩ := save_eq_ok hsave
  exact ⟨hsha, (buildDataset_accepted hbuilt).2.2⟩

theorem hashesRight_save {env : DatasetEnv} (h : HashesRight env db.datasets)
    (hsave : save env db g r = .ok (db', saved)) : HashesRight env db'.datasets := by
  rcases save_versions hsave with ⟨-, hsame⟩ | ⟨-, hrows⟩
  · intro v' hv'
    obtain ⟨v, hv, hvsame⟩ := hsame.back v' hv'
    rw [← hvsame.sha, ← hvsame.items]
    exact h v hv
  · intro v hv
    rw [hrows, List.mem_append, List.mem_singleton] at hv
    rcases hv with hv | rfl
    · exact h v hv
    · exact saved_spec hsave

/-- Saving takes no item away from the versions that are there. -/
theorem HoldsItem.save {env : DatasetEnv} {tenantId : Uuid} {name itemId : String}
    (h : HoldsItem db.datasets tenantId name itemId)
    (hsave : Gates.save env db g r = .ok (db', saved)) :
    HoldsItem db'.datasets tenantId name itemId := by
  obtain ⟨v, hv, hof, hitem⟩ := h
  rcases save_versions hsave with ⟨-, hsame⟩ | ⟨-, hrows⟩
  · obtain ⟨v', hv', hvsame⟩ := hsame.forth v hv
    exact ⟨v', hv', (hvsame.isOf tenantId name).mp hof, hvsame.items ▸ hitem⟩
  · exact ⟨v, hrows ▸ List.mem_append_left _ hv, hof, hitem⟩

/-- What is saved is held, also where its content was there before. -/
theorem holdsItem_saved {env : DatasetEnv} (hsha : Function.Injective env.sha256)
    (h : HashesRight env db.datasets) (hsave : save env db g r = .ok (db', saved)) {item : EvalItem}
    (hitem : item ∈ saved.items) : HoldsItem db'.datasets r.tenantId r.name item.id := by
  obtain ⟨hright, hnodup⟩ := saved_spec hsave
  rcases save_versions hsave with ⟨⟨v, hv, hof, hvsha⟩, hsame⟩ | ⟨-, hrows⟩
  · -- the same hash is that of the same items
    have hperm : saved.items.Perm v.items := by
      rw [← contentSha_eq_iff hsha hnodup, ← hright, ← hvsha, (h v hv).1]
    obtain ⟨v', hv', hvsame⟩ := hsame.forth v hv
    exact ⟨v', hv', (hvsame.isOf _ _).mp hof, item, hvsame.items ▸ hperm.mem_iff.mp hitem, rfl⟩
  · exact ⟨_, hrows ▸ List.mem_append_right _ (List.mem_singleton_self _), ⟨rfl, rfl⟩, item,
      hitem, rfl⟩

/-- What a request saves has the item of every row it chose. -/
theorem chosen_saved {q : MineRequest} {backlog : List GapRow} {existing : Option Dataset}
    {c : Change} (hc : (EditRequest.mine q (backlog.map gapOf)).change env existing = some c)
    (hsave : save env.datasets db g ((EditRequest.mine q (backlog.map gapOf)).save c) =
      .ok (db', saved)) :
    ∀ row ∈ chosenRows q backlog, ∃ item ∈ saved.items, item.id = itemIdOf env row.id := by
  intro row hrow
  obtain ⟨hmem, hasked⟩ := List.mem_filter.mp hrow
  have hchosen : gapOf row ∈ q.chosen (backlog.map gapOf) :=
    List.mem_filter.mpr ⟨List.mem_map_of_mem hmem, hasked⟩
  rw [items_of_save hsave rfl]
  simp only [EditRequest.change] at hc
  split at hc
  · cases hc
  · cases hc
    by_cases hthere :
      ((gapOf row).item env).id ∈ (((existing.map Dataset.items).getD []).map EvalItem.id)
    · obtain ⟨item, hitem, hid⟩ := List.mem_map.mp hthere
      exact ⟨item.normalized, List.mem_map_of_mem (List.mem_append_left _ hitem),
        congrArg strip hid⟩
    · have hadded : (gapOf row).item env ∈ q.added env (backlog.map gapOf)
          ((existing.map Dataset.items).getD []) :=
        List.mem_filter.mpr ⟨List.mem_map_of_mem hchosen, by simpa using hthere⟩
      exact ⟨((gapOf row).item env).normalized,
        List.mem_map_of_mem (List.mem_append_right _ hadded), rfl⟩

/-! ## Steps -/

/-- What a step does to the versions, the gaps and the requests that have saved. -/
inductive MineMove (gapEnv : GapEnv) (env : EditEnv) (s : MineState) : MineAct → MineState → Prop
  | phase (a : MineAct) (n : Nat) (phase : Option MinePhase) (labels : LabelTable)
    (hphase : ∀ x, phase = some x → ∀ p ∈ x.stored, ∃ y, s.requests n = some y ∧
      y.stored = some p) : MineMove gapEnv env s a { (s.enter n phase) with labels := labels }
  | stored (n : Nat) (g : SaveStamp) (q : MineRequest) (existing : Option Dataset)
    (backlog : List GapRow) (c : Change) (db : GoldenDb) (saved : Dataset)
    (hc : (EditRequest.mine q (backlog.map gapOf)).change env existing = some c)
    (hsave : save env.datasets s.db g ((EditRequest.mine q (backlog.map gapOf)).save c) =
      .ok (db, saved)) :
    MineMove gapEnv env s (.save n g)
      { (s.enter n (some (.saved q backlog c.edited))) with db := db }
  | marked (n : Nat) (now : Time) (q : MineRequest) (backlog : List GapRow)
    (hn : s.requests n = some (.labelled q backlog)) :
    MineMove gapEnv env s (.mark n now) { (s.enter n none) with
      gaps := (markSeeded s.gaps q.tenantId ((chosenRows q backlog).map GapRow.id) q.name now).1 }
  | put (g : SaveStamp) (q : SaveRequest) (db : GoldenDb) (saved : Dataset)
    (hsave : save env.datasets s.db g q = .ok (db, saved)) :
    MineMove gapEnv env s (.put g q) { s with db := db }
  | same (a : MineAct) : MineMove gapEnv env s a s
  | recorded (a : Ask) (gaps : GapTable) (hrec : recorded gapEnv s.gaps a = some gaps) :
    MineMove gapEnv env s (.record a) { s with gaps := gaps }
  | purged (days : Int) (now : Time) (gaps : GapTable)
    (hp : purgeGaps s.gaps days now = some gaps) :
    MineMove gapEnv env s (.purge days now) { s with gaps := gaps }

theorem mineStep_move {a : MineAct} (h : mineStep gapEnv env s a = some t) :
    MineMove gapEnv env s a t := by
  have hended : ∀ n (a : MineAct), MineMove gapEnv env s a (s.enter n none) :=
    fun n a => .phase a n none s.labels (fun x hx => by cases hx)
  cases a with
  | load n q existing =>
    simp only [mineStep] at h
    split at h
    · cases h
      exact .phase _ n _ s.labels (fun x hx p hp => by cases hx; cases hp)
    · cases h
  | list n backlog =>
    simp only [mineStep] at h
    split at h
    · split at h
      · cases h
        exact .phase _ n _ s.labels (fun x hx p hp => by cases hx; cases hp)
      · cases h
    · cases h
  | save n g =>
    simp only [mineStep] at h
    split at h
    · split at h
      · cases h
        exact hended n _
      · rename_i c hc
        split at h
        · rename_i db saved hsave
          cases h
          exact .stored n g _ _ _ c db saved hc hsave
        · cases h
        · cases h
          exact hended n _
    · cases h
  | label n =>
    simp only [mineStep] at h
    split at h
    · rename_i q backlog added hn
      split at h
      · cases h
        exact hended n _
      · cases h
        refine .phase _ n _ _ ?_
        rintro x hx p hp
        cases hx
        exact ⟨_, hn, hp⟩
    · cases h
  | mark n now =>
    simp only [mineStep] at h
    split at h
    · cases h
      exact .marked n now _ _ ‹_›
    · cases h
  | stop n =>
    cases h
    exact hended n _
  | put g q =>
    simp only [mineStep] at h
    split at h
    · cases h
      exact .put g q _ _ ‹_›
    · cases h
    · cases h
      exact .same _
  | record a =>
    cases h
    rw [record_eq]
    cases hrec : recorded gapEnv s.gaps a with
    | none => exact .same _
    | some gaps => exact .recorded a gaps hrec
  | purge days now =>
    simp only [mineStep] at h
    cases h
    cases hp : purgeGaps s.gaps days now with
    | none => exact .same _
    | some gaps => exact .purged days now gaps hp

/-- Versions have their hashes; a gap that is seeded has an item in the dataset it is seeded
into, and so has every gap a request is going to mark. -/
structure MineInv (env : EditEnv) (s : MineState) : Prop where
  hashes : HashesRight env.datasets s.db.datasets
  seeded : ∀ row ∈ s.gaps.rows, ∀ x, row.seeded = some x →
    HoldsItem s.db.datasets row.tenantId x.into (itemIdOf env row.id)
  pending : ∀ n x q backlog, s.requests n = some x → x.stored = some (q, backlog) →
    ∀ row ∈ chosenRows q backlog, HoldsItem s.db.datasets q.tenantId q.name (itemIdOf env row.id)

theorem mineInv_initial (env : EditEnv) : MineInv env .initial where
  hashes _ hv := absurd hv Table.mem_empty
  seeded _ hrow := absurd hrow Table.mem_empty
  pending _ _ _ _ hn := by cases hn

/-- The requests move, none of them to a gap it has not saved. -/
theorem MineInv.phase (h : MineInv env s) {n : Nat} {phase : Option MinePhase} (labels : LabelTable)
    (hphase : ∀ x, phase = some x → ∀ p ∈ x.stored, ∃ y, s.requests n = some y ∧
      y.stored = some p) : MineInv env { (s.enter n phase) with labels := labels } where
  hashes := h.hashes
  seeded := h.seeded
  pending m x q backlog hm hx := by
    rcases update_cases hm with ⟨-, hphase'⟩ | ⟨-, hm⟩
    · obtain ⟨y, hy, hystored⟩ := hphase x hphase' _ hx
      exact h.pending n y q backlog hy hystored
    · exact h.pending m x q backlog hm hx

theorem MineInv.stored (h : MineInv env s) (hsave : save env.datasets s.db g r = .ok (db, saved)) :
    MineInv env { s with db := db } where
  hashes := hashesRight_save h.hashes hsave
  seeded row hrow x hx := (h.seeded row hrow x hx).save hsave
  pending n x q backlog hn hx row hrow := (h.pending n x q backlog hn hx row hrow).save hsave

/-- The rows of the gaps move, none of them into a dataset. -/
theorem MineInv.gaps (h : MineInv env s) {gaps : GapTable}
    (hgaps : ∀ row ∈ gaps.rows, ∀ x, row.seeded = some x → ∃ old ∈ s.gaps.rows, old.id = row.id ∧
      old.tenantId = row.tenantId ∧ old.seeded = some x) : MineInv env { s with gaps := gaps } where
  hashes := h.hashes
  seeded row hrow x hx := by
    obtain ⟨old, hold, hid, htenant, hseeded⟩ := hgaps row hrow x hx
    exact hid ▸ htenant ▸ h.seeded old hold x hseeded
  pending := h.pending

theorem MineInv.marked (h : MineInv env s) {n : Nat} {q : MineRequest} {backlog : List GapRow}
    (hn : s.requests n = some (.labelled q backlog)) (now : Time) :
    MineInv env { (s.enter n none) with
      gaps := (markSeeded s.gaps q.tenantId ((chosenRows q backlog).map GapRow.id) q.name
          now).1 } where
  hashes := h.hashes
  seeded row hrow x hx := by
    rcases mem_markSeeded hrow with hold | ⟨b, -, ⟨htenant, hid, -⟩, rfl⟩
    · exact h.seeded row hold x hx
    · cases hx
      obtain ⟨chosen, hchosen, hsame⟩ := List.mem_map.mp hid
      have hholds := h.pending n _ q backlog hn rfl chosen hchosen
      rw [hsame, ← htenant] at hholds
      exact hholds
  pending := (h.phase s.labels (fun _ hx => by cases hx)).pending

theorem seeded_recorded {a : Ask} {gaps gaps' : GapTable}
    (hrec : recorded gapEnv gaps a = some gaps') :
    ∀ row ∈ gaps'.rows, ∀ x, row.seeded = some x → ∃ old ∈ gaps.rows, old.id = row.id ∧
      old.tenantId = row.tenantId ∧ old.seeded = some x := by
  intro row hrow x hx
  rcases recorded_cases (s := ⟨gaps, fun _ => []⟩) hrec with ⟨-, -, -, rfl⟩ | ⟨-, -, hrows⟩
  · rcases Table.mem_updateWhere (GapRow.key_askedAgain a) hrow with ⟨hold, -⟩ | ⟨b, hb, -, rfl⟩
    · exact ⟨row, hold, rfl, rfl, hx⟩
    · exact ⟨b, hb, rfl, rfl, hx⟩
  · rw [hrows, List.mem_append, List.mem_singleton] at hrow
    rcases hrow with hold | rfl
    · exact ⟨row, hold, rfl, rfl, hx⟩
    · cases hx

theorem mineInv_step (hsha : Function.Injective env.datasets.sha256) {a : MineAct}
    (h : MineInv env s) (hstep : mineStep gapEnv env s a = some t) : MineInv env t := by
  cases mineStep_move hstep with
  | phase _ n phase labels hphase => exact h.phase labels hphase
  | stored n g q existing backlog c db saved hc hsave =>
    have hstored := h.stored hsave
    refine ⟨hstored.hashes, hstored.seeded, ?_⟩
    intro m x q' backlog' hm hx row hrow
    rcases update_cases hm with ⟨-, hphase⟩ | ⟨-, hm⟩
    · cases hphase
      cases hx
      obtain ⟨item, hitem, hid⟩ := chosen_saved hc hsave row hrow
      exact hid ▸ holdsItem_saved hsha h.hashes hsave hitem
    · exact hstored.pending m x q' backlog' hm hx row hrow
  | marked n now q backlog hn => exact h.marked hn now
  | put g q db saved hsave => exact h.stored hsave
  | same => exact h
  | recorded a gaps hrec => exact h.gaps (seeded_recorded hrec)
  | purged days now gaps hp =>
    refine h.gaps ?_
    intro row hrow x hx
    rw [purgeGaps_eq_some hp] at hrow
    exact ⟨row, (Table.mem_deleteWhere.mp hrow).1, rfl, rfl, hx⟩

/-! ## Who marks -/

/-- A gap becomes seeded only when a request of its tenant marks it that asked for it by its
id, into the dataset of that request. -/
def MarksAsked (s : MineState) (a : MineAct) (t : MineState) : Prop :=
  ∀ row ∈ t.gaps.rows, ∀ x, row.seeded = some x →
    (∃ old ∈ s.gaps.rows, old.id = row.id ∧ old.seeded = some x) ∨
    ∃ n now q backlog, a = .mark n now ∧ s.requests n = some (.labelled q backlog) ∧
    q.tenantId = row.tenantId ∧ row.id ∈ q.gapIds ∧ x = ⟨q.name, now⟩

theorem marksAsked_step {a : MineAct} (hstep : mineStep gapEnv env s a = some t) :
    MarksAsked s a t := by
  intro row hrow x hx
  cases mineStep_move hstep with
  | phase _ n phase labels hphase => exact Or.inl ⟨row, hrow, rfl, hx⟩
  | stored n g q existing backlog c db saved hc hsave => exact Or.inl ⟨row, hrow, rfl, hx⟩
  | marked n now q backlog hn =>
    rcases mem_markSeeded hrow with hold | ⟨b, -, ⟨htenant, hid, -⟩, rfl⟩
    · exact Or.inl ⟨row, hold, rfl, hx⟩
    · obtain ⟨chosen, hchosen, hsame⟩ := List.mem_map.mp hid
      have hasked := (List.mem_filter.mp hchosen).2
      rw [decide_eq_true_eq, hsame] at hasked
      exact Or.inr ⟨n, now, q, backlog, rfl, hn, htenant.symm, hasked, (Option.some.inj hx).symm⟩
  | put g q db saved hsave => exact Or.inl ⟨row, hrow, rfl, hx⟩
  | same => exact Or.inl ⟨row, hrow, rfl, hx⟩
  | recorded a gaps hrec =>
    obtain ⟨old, hold, hid, -, hseeded⟩ := seeded_recorded hrec row hrow x hx
    exact Or.inl ⟨old, hold, hid, hseeded⟩
  | purged days now gaps hp =>
    have hrow' : row ∈ gaps.rows := hrow
    rw [purgeGaps_eq_some hp] at hrow'
    exact Or.inl ⟨row, (Table.mem_deleteWhere.mp hrow').1, rfl, hx⟩

/-- Wherever the requests stop, in every order of their transactions and whatever else is
saved, asked and purged in between: a gap is marked only by a request that asked for it, and
a gap that is marked has an item in a version of the dataset it is marked with. -/
theorem marked_has_item (hsha : Function.Injective env.datasets.sha256) {acts : List MineAct}
    (hrun : Reaches (mineStep gapEnv env) .initial acts t) :
    (∀ row ∈ t.gaps.rows, ∀ x, row.seeded = some x →
      HoldsItem t.db.datasets row.tenantId x.into (itemIdOf env row.id)) ∧
      EveryStep (mineStep gapEnv env) MarksAsked .initial acts := by
  constructor
  · have hinv : MineInv env t :=
      hrun.invariant (fun _ _ _ h hstep => mineInv_step hsha h hstep) (mineInv_initial env)
    exact hinv.seeded
  · intro pre a post m n _ _ hstep
    exact marksAsked_step hstep

end

/-! ## Two requests for one gap -/

/-- Texts that stand for their hashes. -/
def minedEnv : EditEnv := ⟨plainTextsEnv, fun _ => "00000000002a"⟩

def mineInto (name : String) : MineRequest := ⟨1, 7, name, "manuals", [42]⟩

def askedOnce : Ask := ⟨asker, "manuals", "Which torque?", "dense", 10, 42⟩

/-- Both read the open gap, and both save it; the second to mark it finds it marked. -/
def minedTwice : List MineAct :=
  [.record askedOnce, .load 0 (mineInto "safety") none, .load 1 (mineInto "voltage") none,
    .list 0 [newGap asciiGaps askedOnce], .list 1 [newGap asciiGaps askedOnce],
    .save 0 ⟨20, 1, 1⟩, .save 1 ⟨21, 2, 2⟩, .label 1, .label 0, .mark 1 30, .mark 0 31]

theorem minedTwice_run :
    (minedTwice.foldlM (mineStep asciiGaps minedEnv) .initial).isSome = true := by
  decide +kernel

theorem marked_has_item_minedTwice :
    ∃ t, Reaches (mineStep asciiGaps minedEnv) .initial minedTwice t ∧
      t.gaps.rows.map GapRow.seeded = [some ⟨"voltage", 30⟩] ∧
      ∀ row ∈ t.gaps.rows, ∀ x, row.seeded = some x →
      HoldsItem t.db.datasets row.tenantId x.into (itemIdOf minedEnv row.id) :=
  ⟨_, reaches_get minedTwice_run, by decide +kernel,
    (marked_has_item (fun _ _ h => h) (reaches_get minedTwice_run)).1⟩

end AgenticPlatform.Gates
