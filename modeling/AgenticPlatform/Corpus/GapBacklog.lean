import AgenticPlatform.Corpus.Gaps
import AgenticPlatform.Foundation.Transition

/-!
# The backlog over time

Calls of `record` and `mark_seeded` by any tenants, and retention passes, in any order. A
row tells how often its question was asked since the row is there, by whom and when last,
and how it was put first. A row that has been seeded stays, and stays seeded.
-/
namespace AgenticPlatform.Corpus
open AgenticPlatform.Foundation AgenticPlatform.Identity

structure GapState where
  gaps : GapTable
  /-- The asks a row has taken in, since it was inserted; not stored. -/
  asks : GapKey → List Ask

def GapState.initial : GapState := ⟨Table.empty, fun _ => []⟩

inductive GapAct where
  | record (a : Ask)
  | markSeeded (ctx : RequestContext) (ids : List Uuid) (datasetName : String) (now : Time)
  | purge (days : Int) (now : Time)

/-- Who does it; the retention pass is of no tenant. -/
def GapAct.tenantId : GapAct → Option Uuid
  | .record a => some a.ctx.tenant.id
  | .markSeeded ctx _ _ _ => some ctx.tenant.id
  | .purge _ _ => none

/-- The rows after a call of `record`, where it has written something. -/
def recorded (env : GapEnv) (t : GapTable) (a : Ask) : Option GapTable :=
  if normalise env a.question = "" then none else upsertGap env t a

theorem record_eq (env : GapEnv) (t : GapTable) (a : Ask) :
    record env t a = (recorded env t a).getD t := by
  unfold record recorded
  split <;> rfl

def gapStep (env : GapEnv) (s : GapState) : GapAct → Option GapState
  | .record a =>
    match recorded env s.gaps a with
    | none => some s
    | some gaps => some ⟨gaps, Function.update s.asks (a.key env) (s.asks (a.key env) ++ [a])⟩
  | .markSeeded ctx ids datasetName now =>
    some { s with gaps := (markSeeded s.gaps ctx.tenant.id ids datasetName now).1 }
  | .purge days now =>
    match purgeGaps s.gaps days now with
    | none => some s
    | some gaps => some ⟨gaps, fun k => if k ∈ gaps.keys then s.asks k else []⟩

/-! ## What a row tells -/

structure Tells (env : GapEnv) (asks : List Ask) (r : GapRow) : Prop where
  count : r.occurrences = asks.length
  first : ∃ a, asks.head? = some a ∧ r.id = a.newId ∧ r.question = a.stored ∧ r.firstAskedAt = a.now
  last : ∃ a, asks.getLast? = some a ∧ r.lastAskedAt = a.now ∧ r.lastAskedBy = a.ctx.principal.id ∧
    r.mode = a.mode
  same : ∀ a ∈ asks, a.key env = r.key

structure GapInv (env : GapEnv) (s : GapState) : Prop where
  tells : ∀ r ∈ s.gaps.rows, Tells env (s.asks r.key) r
  /-- No ask is left of a row that is gone. -/
  silent : ∀ k ∉ s.gaps.keys, s.asks k = []
  ids : (s.gaps.rows.map GapRow.id).Nodup

section
variable {env : GapEnv} {s t : GapState} {a : Ask} {gaps : GapTable}

theorem tells_new (env : GapEnv) (a : Ask) : Tells env [a] (newGap env a) where
  count := rfl
  first := ⟨a, rfl, rfl, rfl, rfl⟩
  last := ⟨a, rfl, rfl, rfl, rfl⟩
  same := by
    intro b hb
    cases List.mem_singleton.mp hb
    rfl

theorem Tells.askedAgain {asks : List Ask} {r : GapRow} (h : Tells env asks r)
    (ha : a.key env = r.key) : Tells env (asks ++ [a]) (r.askedAgain a) where
  count := by
    rw [List.length_append, List.length_singleton, ← h.count]
    rfl
  first := by
    obtain ⟨b, hb, hrest⟩ := h.first
    exact ⟨b, by rw [List.head?_append, hb, Option.some_or], hrest⟩
  last := ⟨a, by simp, rfl, rfl, rfl⟩
  same := by
    intro b hb
    rcases List.mem_append.mp hb with hb | hb
    · exact h.same b hb
    · cases List.mem_singleton.mp hb
      exact ha

/-- What a call writes: one more in the row of the question, or a row of its own. -/
theorem recorded_cases (h : recorded env s.gaps a = some gaps) :
    (∃ r ∈ s.gaps.rows, r.key = a.key env ∧ gaps = s.gaps.updateWhere (fun r' => r'.key = a.key env)
      (GapRow.askedAgain a) (GapRow.key_askedAgain a)) ∨
      (a.key env ∉ s.gaps.keys ∧ a.newId ∉ s.gaps.rows.map GapRow.id ∧
        gaps.rows = s.gaps.rows ++ [newGap env a]) := by
  unfold recorded upsertGap at h
  split at h
  · cases h
  · split at h
    · split at h
      · rename_i r hr
        obtain ⟨hmem, hkey⟩ := Table.get_eq_some.mp hr
        split at h
        · exact Or.inl ⟨r, hmem, hkey, (Option.some.inj h).symm⟩
        · cases h
      · split at h
        · cases h
        · rename_i hnone hid
          exact Or.inr ⟨Table.get_eq_none.mp hnone, hid, (Table.tryInsert_eq_some h).2⟩
    · cases h

theorem id_askedAgain (p : GapRow → Prop) [DecidablePred p] (a : Ask) (r : GapRow) :
    (Table.rewrite p (GapRow.askedAgain a) r).id = r.id := by
  unfold Table.rewrite
  split <;> rfl

/-- An update that keeps the ids keeps them distinct. -/
theorem ids_update {f : GapRow → GapRow} (hf : ∀ r, (f r).key = r.key) (hid : ∀ r, (f r).id = r.id)
    (h : (s.gaps.rows.map GapRow.id).Nodup) : ((s.gaps.update f hf).rows.map GapRow.id).Nodup := by
  have hsame : (s.gaps.update f hf).rows.map GapRow.id = s.gaps.rows.map GapRow.id := by
    rw [Table.update, List.map_map]
    exact List.map_congr_left (fun r _ => hid r)
  rwa [hsame]

theorem GapInv.record (h : GapInv env s) (hrec : recorded env s.gaps a = some gaps) :
    GapInv env ⟨gaps, Function.update s.asks (a.key env) (s.asks (a.key env) ++ [a])⟩ := by
  rcases recorded_cases hrec with ⟨r₀, hr₀, hkey₀, rfl⟩ | ⟨hfresh, hid, hrows⟩
  · refine ⟨?_, ?_,
      ids_update (Table.key_rewrite (GapRow.key_askedAgain a)) (id_askedAgain _ a) h.ids⟩
    · intro r hr
      rcases Table.mem_updateWhere (GapRow.key_askedAgain a) hr with ⟨hold, hother⟩ |
        ⟨b, hb, hkey, rfl⟩
      · simp only [Function.update_of_ne hother]
        exact h.tells r hold
      · simp only [GapRow.key_askedAgain, hkey, Function.update_self]
        exact (hkey ▸ h.tells b hb).askedAgain hkey.symm
    · intro k hk
      rw [Table.keys_updateWhere] at hk
      have hne : k ≠ a.key env := by
        rintro rfl
        exact hk (hkey₀ ▸ Table.key_mem_keys hr₀)
      simp only [Function.update_of_ne hne]
      exact h.silent k hk
  · have hmem : ∀ r, r ∈ gaps.rows ↔ r ∈ s.gaps.rows ∨ r = newGap env a := by
      intro r
      rw [hrows, List.mem_append, List.mem_singleton]
    refine ⟨?_, ?_, ?_⟩
    · intro r hr
      rcases (hmem r).mp hr with hold | rfl
      · have hne : r.key ≠ a.key env := fun heq => hfresh (heq ▸ Table.key_mem_keys hold)
        simp only [Function.update_of_ne hne]
        exact h.tells r hold
      · have hself : (newGap env a).key = a.key env := rfl
        simp only [hself, Function.update_self, h.silent _ hfresh, List.nil_append]
        exact tells_new env a
    · intro k hk
      have hsub : k ∉ s.gaps.keys := by
        intro hold
        obtain ⟨r, hr, rfl⟩ := Table.mem_keys.mp hold
        exact hk (Table.key_mem_keys ((hmem r).mpr (Or.inl hr)))
      have hne : k ≠ a.key env := by
        rintro rfl
        exact hk (Table.mem_keys.mpr ⟨newGap env a, (hmem _).mpr (Or.inr rfl), rfl⟩)
      simp only [Function.update_of_ne hne]
      exact h.silent k hsub
    · rw [hrows, List.map_append, List.map_singleton]
      refine List.nodup_append.mpr ⟨h.ids, List.nodup_singleton _, ?_⟩
      intro i hi j hj hij
      have hnew : i = a.newId := hij.trans (List.mem_singleton.mp hj)
      exact hid (hnew ▸ hi)

/-- What `mark_seeded` does to a row. -/
theorem mem_markSeeded {t : GapTable} {tenantId : Uuid} {ids : List Uuid} {datasetName : String}
    {now : Time} {r : GapRow} (h : r ∈ (markSeeded t tenantId ids datasetName now).1.rows) :
    r ∈ t.rows ∨ ∃ b ∈ t.rows, (b.tenantId = tenantId ∧ b.id ∈ ids ∧ b.seeded = none) ∧
      r = b.seededInto datasetName now := by
  unfold markSeeded at h
  split at h
  · exact Or.inl h
  · rcases Table.mem_updateWhere (GapRow.key_seededInto datasetName now) h with ⟨hold, -⟩ | hnew
    · exact Or.inl hold
    · exact Or.inr hnew

theorem keys_markSeeded (t : GapTable) (tenantId : Uuid) (ids : List Uuid) (datasetName : String)
    (now : Time) : (markSeeded t tenantId ids datasetName now).1.keys = t.keys := by
  unfold markSeeded
  split
  · rfl
  · exact Table.keys_updateWhere _ _ _ (GapRow.key_seededInto datasetName now)

theorem GapInv.markSeeded (h : GapInv env s) (tenantId : Uuid) (ids : List Uuid)
    (datasetName : String) (now : Time) :
    GapInv env { s with gaps := (Corpus.markSeeded s.gaps tenantId ids datasetName now).1 } where
  tells r hr := by
    rcases mem_markSeeded hr with hold | ⟨b, hb, -, rfl⟩
    · exact h.tells r hold
    · have hb := h.tells b hb
      exact ⟨hb.count, hb.first, hb.last, hb.same⟩
  silent k hk := h.silent k (keys_markSeeded s.gaps tenantId ids datasetName now ▸ hk)
  ids := by
    unfold Corpus.markSeeded
    split
    · exact h.ids
    · refine ids_update (Table.key_rewrite (GapRow.key_seededInto datasetName now)) ?_ h.ids
      intro r
      unfold Table.rewrite
      split <;> rfl

theorem purgeGaps_eq_some {t t' : GapTable} {days : Int} {now : Time}
    (h : purgeGaps t days now = some t') :
    t' = t.deleteWhere (fun r => r.seeded = none ∧ r.lastAskedAt < now - 86400 * days) := by
  unfold purgeGaps at h
  split at h
  · cases h
  · exact (Option.some.inj h).symm

theorem GapInv.purge (h : GapInv env s) {days : Int} {now : Time}
    (hp : purgeGaps s.gaps days now = some gaps) :
    GapInv env ⟨gaps, fun k => if k ∈ gaps.keys then s.asks k else []⟩ where
  tells r hr := by
    have hold : r ∈ s.gaps.rows := (Table.mem_deleteWhere.mp (purgeGaps_eq_some hp ▸ hr)).1
    have hkey : r.key ∈ gaps.keys := Table.key_mem_keys hr
    simp only [if_pos hkey]
    exact h.tells r hold
  silent _ hk := if_neg hk
  ids := by
    rw [purgeGaps_eq_some hp]
    exact h.ids.sublist (List.filter_sublist.map GapRow.id)

theorem gapInv_step {act : GapAct} (h : GapInv env s) (hstep : gapStep env s act = some t) :
    GapInv env t := by
  cases act with
  | record a =>
    simp only [gapStep] at hstep
    split at hstep
    · cases hstep
      exact h
    · cases hstep
      exact h.record ‹_›
  | markSeeded ctx ids datasetName now =>
    cases hstep
    exact h.markSeeded ctx.tenant.id ids datasetName now
  | purge days now =>
    simp only [gapStep] at hstep
    split at hstep
    · cases hstep
      exact h
    · cases hstep
      exact h.purge ‹_›

theorem gapInv_run {acts : List GapAct} (hrun : Reaches (gapStep env) .initial acts t) :
    GapInv env t :=
  hrun.invariant (fun _ _ _ h hstep => gapInv_step h hstep)
    ⟨fun _ hr => absurd hr Table.mem_empty, fun _ _ => rfl, List.nodup_nil⟩

/-- Whoever asks and in whatever order: a row counts the asks of its question since it was
made, holds the question as it was put first and who asked last, and two asks of a tenant in
a collection share their row exactly where the questions have the same words. -/
theorem gaps_tell (hlaw : env.Lawful) {acts : List GapAct}
    (hrun : Reaches (gapStep env) .initial acts t) :
    (∀ r ∈ t.gaps.rows, Tells env (t.asks r.key) r) ∧ ∀ r ∈ t.gaps.rows, ∀ r' ∈ t.gaps.rows,
      ∀ a ∈ t.asks r.key, ∀ a' ∈ t.asks r'.key, r.tenantId = r'.tenantId →
      r.collection = r'.collection →
      (r = r' ↔ questionWords env a.question = questionWords env a'.question) := by
  have hinv := gapInv_run hrun
  refine ⟨hinv.tells, ?_⟩
  intro r hr r' hr' a ha a' ha' htenant hcollection
  have hkey := (hinv.tells r hr).same a ha
  have hkey' := (hinv.tells r' hr').same a' ha'
  have hnorm : normalise env a.question = r.questionKey := congrArg GapKey.questionKey hkey
  have hnorm' : normalise env a'.question = r'.questionKey := congrArg GapKey.questionKey hkey'
  rw [← normalise_inj hlaw, hnorm, hnorm']
  constructor
  · exact fun h => congrArg GapRow.questionKey h
  · intro hq
    exact Table.eq_of_key hr hr' (by rw [GapRow.key, htenant, hcollection, hq, GapRow.key])

end

/-! ## What has been seeded -/

/-- The row is still there, as it was but for the count and who asked last. -/
def StillSeeded (s t : GapState) : Prop :=
  ∀ r ∈ s.gaps.rows, ∀ x, r.seeded = some x → ∃ r' ∈ t.gaps.rows, r'.id = r.id ∧ r'.key = r.key ∧
    r'.question = r.question ∧ r'.firstAskedAt = r.firstAskedAt ∧ r'.seeded = some x ∧
    r.occurrences ≤ r'.occurrences

theorem StillSeeded.refl (s : GapState) : StillSeeded s s :=
  fun r hr _ hx => ⟨r, hr, rfl, rfl, rfl, rfl, hx, le_refl _⟩

theorem StillSeeded.trans {s m t : GapState} (h : StillSeeded s m) (h' : StillSeeded m t) :
    StillSeeded s t := by
  intro r hr x hx
  obtain ⟨b, hb, hid, hkey, hquestion, hfirst, hseeded, hle⟩ := h r hr x hx
  obtain ⟨c, hc, hid', hkey', hquestion', hfirst', hseeded', hle'⟩ := h' b hb x hseeded
  exact ⟨c, hc, hid'.trans hid, hkey'.trans hkey, hquestion'.trans hquestion, hfirst'.trans hfirst,
    hseeded', hle.trans hle'⟩

section
variable {env : GapEnv} {s t : GapState}

theorem stillSeeded_record {a : Ask} {gaps : GapTable} (hrec : recorded env s.gaps a = some gaps)
    (asks : GapKey → List Ask) : StillSeeded s ⟨gaps, asks⟩ := by
  intro r hr x hx
  rcases recorded_cases hrec with ⟨-, -, -, rfl⟩ | ⟨-, -, hrows⟩
  · refine ⟨_, Table.rewrite_mem_updateWhere (GapRow.key_askedAgain a) hr, id_askedAgain _ a r,
      Table.key_rewrite (GapRow.key_askedAgain a) r, ?_⟩
    unfold Table.rewrite
    split
    · exact ⟨rfl, rfl, hx, Nat.le_succ _⟩
    · exact ⟨rfl, rfl, hx, le_refl _⟩
  · exact ⟨r, hrows ▸ List.mem_append_left _ hr, rfl, rfl, rfl, rfl, hx, le_refl _⟩

theorem mem_markSeeded_of_seeded {t : GapTable} {tenantId : Uuid} {ids : List Uuid}
    {datasetName : String} {now : Time} {r : GapRow} (hr : r ∈ t.rows)
    (h : ¬ (r.tenantId = tenantId ∧ r.id ∈ ids ∧ r.seeded = none)) :
    r ∈ (markSeeded t tenantId ids datasetName now).1.rows := by
  unfold markSeeded
  split
  · exact hr
  · exact Table.mem_updateWhere_of_neg (GapRow.key_seededInto datasetName now) hr h

theorem stillSeeded_step {act : GapAct} (hstep : gapStep env s act = some t) : StillSeeded s t := by
  cases act with
  | record a =>
    simp only [gapStep] at hstep
    split at hstep
    · cases hstep
      exact .refl s
    · cases hstep
      exact stillSeeded_record ‹_› _
  | markSeeded ctx ids datasetName now =>
    cases hstep
    intro r hr x hx
    have hopen : ¬ (r.tenantId = ctx.tenant.id ∧ r.id ∈ ids ∧ r.seeded = none) := by
      rintro ⟨-, -, hnone⟩
      rw [hx] at hnone
      cases hnone
    exact ⟨r, mem_markSeeded_of_seeded hr hopen, rfl, rfl, rfl, rfl, hx, le_refl _⟩
  | purge days now =>
    simp only [gapStep] at hstep
    split at hstep
    · cases hstep
      exact .refl s
    · rename_i gaps hp
      cases hstep
      intro r hr x hx
      refine ⟨r, ?_, rfl, rfl, rfl, rfl, hx, le_refl _⟩
      rw [purgeGaps_eq_some hp]
      refine Table.mem_deleteWhere.mpr ⟨hr, ?_⟩
      rintro ⟨hnone, -⟩
      rw [hx] at hnone
      cases hnone

/-- A step takes a row away only as the retention of a gap that is open and that nobody has
asked for so many days, and a tenant's step changes no row of another tenant. -/
def Considerate (s : GapState) (act : GapAct) (t : GapState) : Prop :=
  (∀ r ∈ s.gaps.rows, r.key ∉ t.gaps.keys → ∃ days now, act = .purge days now ∧ 1 ≤ days ∧
    days ≤ 3650 ∧ r.seeded = none ∧ r.lastAskedAt < now - 86400 * days) ∧
  ∀ tenantId, act.tenantId = some tenantId → ∀ r, r.tenantId ≠ tenantId →
    (r ∈ t.gaps.rows ↔ r ∈ s.gaps.rows)

theorem considerate_same (s : GapState) (act : GapAct) : Considerate s act s :=
  ⟨fun _ hr hgone => absurd (Table.key_mem_keys hr) hgone, fun _ _ _ _ => Iff.rfl⟩

theorem considerate_record {a : Ask} {gaps : GapTable} (hrec : recorded env s.gaps a = some gaps)
    (asks : GapKey → List Ask) : Considerate s (.record a) ⟨gaps, asks⟩ := by
  rcases recorded_cases hrec with ⟨-, -, -, rfl⟩ | ⟨-, -, hrows⟩
  · refine ⟨?_, ?_⟩
    · intro r hr hgone
      rw [Table.keys_updateWhere] at hgone
      exact absurd (Table.key_mem_keys hr) hgone
    · rintro tenantId hact r hother
      cases hact
      have hkey : ∀ b : GapRow, b.key = a.key env → b.tenantId = a.ctx.tenant.id :=
        fun b h => congrArg GapKey.tenantId h
      constructor
      · intro hr
        rcases Table.mem_updateWhere (GapRow.key_askedAgain a) hr with ⟨hold, -⟩ | ⟨b, -, hb, rfl⟩
        · exact hold
        · exact absurd (hkey b hb) hother
      · exact fun hr =>
          Table.mem_updateWhere_of_neg (GapRow.key_askedAgain a) hr (fun h => hother (hkey r h))
  · refine ⟨?_, ?_⟩
    · intro r hr hgone
      exact absurd (Table.mem_keys.mpr ⟨r, hrows ▸ List.mem_append_left _ hr, rfl⟩) hgone
    · rintro tenantId hact r hother
      cases hact
      have hnew : r ≠ newGap env a := by
        rintro rfl
        exact hother rfl
      rw [hrows, List.mem_append, List.mem_singleton]
      exact or_iff_left hnew

theorem considerate_step {act : GapAct} (hstep : gapStep env s act = some t) :
    Considerate s act t := by
  cases act with
  | record a =>
    simp only [gapStep] at hstep
    split at hstep
    · cases hstep
      exact considerate_same s _
    · cases hstep
      exact considerate_record ‹_› _
  | markSeeded ctx ids datasetName now =>
    cases hstep
    refine ⟨?_, ?_⟩
    · intro r hr hgone
      rw [keys_markSeeded] at hgone
      exact absurd (Table.key_mem_keys hr) hgone
    · rintro tenantId hact r hother
      cases hact
      constructor
      · intro hr
        rcases mem_markSeeded hr with hold | ⟨b, -, hb, rfl⟩
        · exact hold
        · exact absurd hb.1 hother
      · exact fun hr => mem_markSeeded_of_seeded hr (fun h => hother h.1)
  | purge days now =>
    simp only [gapStep] at hstep
    split at hstep
    · cases hstep
      exact considerate_same s _
    · rename_i gaps hp
      cases hstep
      have hdays : 1 ≤ days ∧ days ≤ 3650 := by
        unfold purgeGaps at hp
        split at hp
        · cases hp
        · omega
      refine ⟨?_, fun _ hact => by cases hact⟩
      intro r hr hgone
      by_cases hexpired : r.seeded = none ∧ r.lastAskedAt < now - 86400 * days
      · exact ⟨days, now, rfl, hdays.1, hdays.2, hexpired⟩
      · refine absurd (Table.key_mem_keys ?_) hgone
        rw [purgeGaps_eq_some hp]
        exact Table.mem_deleteWhere.mpr ⟨hr, hexpired⟩

/-- From any state and over any run: a row that has been seeded stays, into the dataset and
from the time it was first seeded, whatever is asked and marked again, and its question is
never again in the open backlog of anyone; nothing else than the retention of stale open
rows takes rows away, and no tenant touches the rows of another. -/
theorem seeding_final {acts : List GapAct} (hrun : Reaches (gapStep env) s acts t) :
    StillSeeded s t ∧ EveryStep (gapStep env) Considerate s acts ∧
      ∀ r ∈ s.gaps.rows, r.seeded ≠ none → ∀ tenantId collection limit out,
        Backlog t.gaps tenantId collection false limit out → ∀ r' ∈ out, r'.key ≠ r.key := by
  have hstill : StillSeeded s t :=
    hrun.relates StillSeeded.refl (fun _ _ _ => StillSeeded.trans) (fun _ _ _ => stillSeeded_step)
  refine ⟨hstill, ?_, ?_⟩
  · intro pre act post m n _ _ hstep
    exact considerate_step hstep
  · intro r hr hseeded tenantId collection limit out hout r' hr' hkey
    obtain ⟨x, hx⟩ := Option.ne_none_iff_exists'.mp hseeded
    obtain ⟨b, hb, -, hbkey, -, -, hbx, -⟩ := hstill r hr x hx
    obtain ⟨hmem, -, hopen, -⟩ := hout.listed r' hr'
    cases Table.eq_of_key hmem hb (hkey.trans hbkey.symm)
    rcases hopen with hfalse | hnone
    · cases hfalse
    · rw [hbx] at hnone
      cases hnone

end

/-! ## A question asked twice -/

/-- ASCII letters and digits only. -/
def asciiGaps : GapEnv where
  isWord c := c.isAlphanum || c = '_'
  lower cs := cs.map Char.toLower
  storable collection _ _ _ := collection.length ≤ 128

theorem toLower_toLower (c : Char) : c.toLower.toLower = c.toLower := by
  unfold Char.toLower
  grind

theorem asciiGaps_lawful : asciiGaps.Lawful where
  word_not_space := by
    intro c hc
    have hrange : 48 ≤ c.toNat ∧ c.toNat ≤ 122 := by
      change (decide ('A'.val ≤ c.val ∧ c.val ≤ 'Z'.val) ||
        (decide ('a'.val ≤ c.val) && decide (c.val ≤ 'z'.val)) ||
        (decide ('0'.val ≤ c.val) && decide (c.val ≤ '9'.val)) || decide (c = '_')) =
        true at hc
      simp only [Bool.or_eq_true, Bool.and_eq_true, decide_eq_true_eq, UInt32.le_iff_toNat_le] at hc
      rcases hc with ((⟨hlow, hhigh⟩ | ⟨hlow, hhigh⟩) | ⟨hlow, hhigh⟩) | rfl
      · exact ⟨le_trans (by decide) hlow, le_trans hhigh (by decide)⟩
      · exact ⟨le_trans (by decide) hlow, hhigh⟩
      · exact ⟨hlow, le_trans hhigh (by decide)⟩
      · decide
    simp only [isSpace, Bool.or_eq_false_iff, Bool.and_eq_false_iff, decide_eq_false_iff_not]
    omega
  lower_lowered := by
    intro cs ds h
    refine (List.map_congr_left ?_).trans (List.map_id ds)
    intro c hc
    rcases h c hc with hmem | rfl
    · obtain ⟨b, -, rfl⟩ := List.mem_map.mp hmem
      exact toLower_toLower b
    · rfl

def asker : RequestContext := ⟨⟨7, ⟨1, "acme"⟩, "alice", [.viewer]⟩, 5, none, none, none⟩

/-- A question asked in two ways, and another one. -/
def askedTwice : List GapAct :=
  [.record ⟨asker, "manuals", "Which torque?", "dense", 10, 1⟩,
    .record ⟨asker, "manuals", " which TORQUE ", "graph", 20, 2⟩,
    .record ⟨asker, "manuals", "Which fuse?", "dense", 30, 3⟩, .markSeeded asker [1] "safety" 40]

theorem askedTwice_run : (askedTwice.foldlM (gapStep asciiGaps) .initial).isSome = true := by
  decide +kernel

def afterTwice : GapState := (askedTwice.foldlM (gapStep asciiGaps) .initial).get askedTwice_run

theorem gaps_tell_askedTwice :
    Reaches (gapStep asciiGaps) .initial askedTwice afterTwice ∧
      afterTwice.gaps.rows.map (fun r => (r.question, r.occurrences)) =
      [("Which torque?", 2), ("Which fuse?", 1)] ∧
      ∀ r ∈ afterTwice.gaps.rows, Tells asciiGaps (afterTwice.asks r.key) r :=
  ⟨reaches_get askedTwice_run, by decide +kernel,
    (gaps_tell asciiGaps_lawful (reaches_get askedTwice_run)).1⟩

/-- The first is asked again after it was seeded; to the other one nobody comes back. -/
def askedAgain : List GapAct :=
  [.record ⟨asker, "manuals", "which torque", "dense", 90000, 4⟩,
    .markSeeded asker [1] "voltage" 90001, .purge 1 100000]

theorem askedAgain_run : (askedAgain.foldlM (gapStep asciiGaps) afterTwice).isSome = true := by
  decide +kernel

theorem seeding_final_askedAgain :
    ∃ t, Reaches (gapStep asciiGaps) afterTwice askedAgain t ∧
      t.gaps.rows.map (fun r => (r.seeded, r.occurrences)) = [(some ⟨"safety", 40⟩, 3)] ∧
      StillSeeded afterTwice t :=
  ⟨_, reaches_get askedAgain_run, by decide +kernel, (seeding_final (reaches_get askedAgain_run)).1⟩

end AgenticPlatform.Corpus
