import AgenticPlatform.Corpus.Builds
import AgenticPlatform.Gates.Datasets
import AgenticPlatform.Foundation.Transition

/-!
# What an eval run reads

The loop of `runner.run` with the retriever, the answerer and the evidence lookup of the
eval workload, between promotions and reaps of the collection. Each of the three opens a
session of its own, looks up the live build in it, and reads the chunks of the build it
has found. Nothing makes two of them find the same build.
-/
namespace AgenticPlatform.Workloads
open AgenticPlatform.Foundation AgenticPlatform.Identity AgenticPlatform.Corpus
  AgenticPlatform.Gates

/-! ## The run -/

structure EvalReadEnv where
  topK : Nat
  /-- `embedding <=> :v` from the embedding of a question. -/
  distance : String → ChunkRow → ℚ
  /-- The items whose evidence a reviewer found unusable. -/
  unusable : String → Bool

/-- ORDER BY embedding <=> :v LIMIT :k. -/
def nearest (env : EvalReadEnv) (question : String) (rows : List ChunkRow) : List ChunkRow :=
  (rows.insertionSort (fun a b => env.distance question a ≤ env.distance question b)).take env.topK

/-- WHERE canonical_id = ANY(:ids). -/
def chunkTexts (rows : List ChunkRow) (ids : List String) : List ChunkRow :=
  rows.filter (fun row => row.canonicalId ∈ ids)

def chunkText (rows : List ChunkRow) (cid : String) : Option String :=
  (rows.find? (fun row => row.canonicalId = cid)).map ChunkRow.text

def contextBlock (rows : List ChunkRow) (retrieved : List String) : String :=
  String.intercalate "\n\n"
    (retrieved.filterMap (fun cid => (chunkText rows cid).map (fun t => "[" ++ cid ++ "] " ++ t)))

def evidenceTexts (rows : List ChunkRow) (retrieved : List String) : List String :=
  retrieved.filterMap (chunkText rows)

def noSources : String :=
  "I don't have any indexed sources for that. Nothing in this collection matches the question."

/-- What an item is graded on: the part of `ItemOutcome` that depends on the corpus. -/
structure GradedItem where
  item : EvalItem
  retrieved : List String
  context : String
  answer : String
  evidence : List String
deriving DecidableEq

/-- Where the loop stands. A phase with a version has looked it up in its session. -/
inductive EvalPhase where
  | next
  | retrieving (item : EvalItem)
  | retrievingFrom (item : EvalItem) (version : Nat)
  | answering (item : EvalItem) (retrieved : List String)
  | answeringFrom (item : EvalItem) (retrieved : List String) (version : Nat)
  | asking (item : EvalItem) (retrieved : List String) (context : String)
  | scoring (item : EvalItem) (retrieved : List String) (context answer : String)
  | scoringFrom (item : EvalItem) (retrieved : List String) (context answer : String)
    (version : Nat)
  | ended
deriving DecidableEq

def EvalPhase.version : EvalPhase → Option Nat
  | .retrievingFrom _ v | .answeringFrom _ _ v | .scoringFrom _ _ _ _ v => some v
  | _ => none

/-- One of the three reads: the ids it was to find texts for, and the rows it got. -/
structure ChunkRead where
  wanted : List String
  rows : List ChunkRow

structure EvalReadState where
  collection : Collection
  rest : List EvalItem
  phase : EvalPhase
  graded : List GradedItem
  log : List ChunkRead
  /-- The build the first lookup found that found one. -/
  first : Option Nat

def EvalReadState.init (c : Collection) (items : List EvalItem) : EvalReadState :=
  ⟨c, items, .next, [], [], none⟩

inductive EvalReadAct where
  | next
  | lookup
  | read
  | reply (text : Option String)
  | raises
  | cancel
  | promote (collection : String) (version : Nat) (now : Time)
  | reap

/-- The end of a read, and where the run goes on. -/
def EvalReadState.haveRead (s : EvalReadState) (r : ChunkRead) (phase : EvalPhase) :
    EvalReadState :=
  { s with log := s.log ++ [r], phase := phase }

def EvalReadState.grade (s : EvalReadState) (g : GradedItem) : EvalReadState :=
  { s with graded := s.graded ++ [g], phase := .next }

/-- With nothing retrieved the answerer refuses and nothing more is read. -/
def EvalReadState.retrieved (s : EvalReadState) (item : EvalItem) (rows : List ChunkRow) :
    EvalReadState :=
  let s := s.haveRead ⟨[], rows⟩ (.answering item (rows.map ChunkRow.canonicalId))
  if rows = [] then s.grade ⟨item, [], "", noSources, []⟩ else s

def evalReadStep (env : EvalReadEnv) (s : EvalReadState) : EvalReadAct → Option EvalReadState
  | .next =>
    match s.phase, s.rest with
    | .next, [] => some { s with phase := .ended }
    | .next, item :: rest =>
      if env.unusable item.id then some { s with rest := rest }
      else some { s with rest := rest, phase := .retrieving item }
    | _, _ => none
  | .lookup =>
    let live := s.collection.liveVersion
    let s := { s with first := s.first.or live }
    match s.phase with
    | .retrieving item =>
      some (match live with
        | some v => { s with phase := .retrievingFrom item v }
        | none => s.retrieved item [])
    | .answering item retrieved =>
      some (match live with
        | some v => { s with phase := .answeringFrom item retrieved v }
        | none => s.haveRead ⟨retrieved, []⟩ (.asking item retrieved (contextBlock [] retrieved)))
    | .scoring item retrieved context answer =>
      some (match live with
        | some v => { s with phase := .scoringFrom item retrieved context answer v }
        | none => (s.haveRead ⟨retrieved, []⟩ .next).grade
          ⟨item, retrieved, context, answer, evidenceTexts [] retrieved⟩)
    | _ => none
  | .read =>
    match s.phase with
    | .retrievingFrom item v =>
      some (s.retrieved item (nearest env item.question (s.collection.chunksOf v)))
    | .answeringFrom item retrieved v =>
      let rows := chunkTexts (s.collection.chunksOf v) retrieved
      some (s.haveRead ⟨retrieved, rows⟩ (.asking item retrieved (contextBlock rows retrieved)))
    | .scoringFrom item retrieved context answer v =>
      let rows := chunkTexts (s.collection.chunksOf v) retrieved
      some ((s.haveRead ⟨retrieved, rows⟩ .next).grade
        ⟨item, retrieved, context, answer, evidenceTexts rows retrieved⟩)
    | _ => none
  | .reply text =>
    match s.phase with
    | .asking item retrieved context =>
      some { s with phase := .scoring item retrieved context (text.getD "") }
    | _ => none
  | .raises =>
    match s.phase with
    | .retrieving item | .retrievingFrom item _ => some (s.grade ⟨item, [], "", "", []⟩)
    | .answering item retrieved | .answeringFrom item retrieved _ =>
      some { s with phase := .scoring item retrieved "" "" }
    | .scoring .. | .scoringFrom .. => some { s with phase := .ended }
    | _ => none
  | .cancel => if s.phase = .ended then none else some { s with phase := .ended }
  | .promote collection version now =>
    match s.collection.promote collection version now with
    | .ok (c, _) => some { s with collection := c }
    | .error _ => some s
  | .reap => some { s with collection := s.collection.reap.1 }

/-! ## One build -/

/-- All ids and texts the run has used are of chunks of one build. -/
def OneBuild (log : List ChunkRead) : Prop := ∃ v, ∀ r ∈ log, ∀ row ∈ r.rows, row.buildVersion = v

/-- Every retrieved chunk that was looked up by its id was found. -/
def NoneMissing (log : List ChunkRead) : Prop :=
  ∀ r ∈ log, ∀ cid ∈ r.wanted, ∃ row ∈ r.rows, row.canonicalId = cid

/-- A lookup finds live the build the run has found live before, and the chunks of the
build that was looked up are read before it is reaped. -/
def steady (s : EvalReadState) : EvalReadAct → Prop
  | .lookup => ∀ v ∈ s.first, s.collection.liveVersion = some v
  | .read => ∀ v ∈ s.phase.version, v ∈ s.collection.builds.keys
  | _ => True

instance (s : EvalReadState) : (a : EvalReadAct) → Decidable (steady s a)
  | .lookup => inferInstanceAs (Decidable (∀ v ∈ s.first, _))
  | .read => inferInstanceAs (Decidable (∀ v ∈ s.phase.version, _))
  | .next | .reply _ | .raises | .cancel | .promote .. | .reap => isTrue trivial

/-- The build of the run still has these chunks, as long as its row is there. -/
def Kept (first : Option Nat) (c : Collection) (ids : List String) : Prop :=
  ∀ cid ∈ ids, ∃ v, first = some v ∧
    (v ∈ c.builds.keys → ∃ row ∈ c.chunksOf v, row.canonicalId = cid)

/-- What a phase holds is of the build of the run. -/
def PhaseReads (first : Option Nat) (c : Collection) : EvalPhase → Prop
  | .next | .retrieving _ | .ended => True
  | .retrievingFrom _ v => first = some v
  | .answering _ ids | .asking _ ids _ | .scoring _ ids _ _ => Kept first c ids
  | .answeringFrom _ ids v | .scoringFrom _ ids _ _ v => first = some v ∧ Kept first c ids

structure ReadInv (s : EvalReadState) : Prop where
  one_build : ∀ r ∈ s.log, ∀ row ∈ r.rows, s.first = some row.buildVersion
  none_missing : NoneMissing s.log
  evidence : ∀ g ∈ s.graded, g.evidence.length = g.retrieved.length
  phase : PhaseReads s.first s.collection s.phase

theorem ReadInv.init (c : Collection) (items : List EvalItem) : ReadInv (.init c items) where
  one_build := fun _ h => absurd h List.not_mem_nil
  none_missing := fun _ h => absurd h List.not_mem_nil
  evidence := fun _ h => absurd h List.not_mem_nil
  phase := trivial

section
variable {env : EvalReadEnv} {s t : EvalReadState}

theorem Kept.nil (first : Option Nat) (c : Collection) : Kept first c [] :=
  fun _ h => absurd h List.not_mem_nil

theorem PhaseReads.mono {first first' : Option Nat} {c c' : Collection} {phase : EvalPhase}
    (h : PhaseReads first c phase) (hfirst : ∀ v, first = some v → first' = some v)
    (hkept : ∀ ids, Kept first c ids → Kept first' c' ids) : PhaseReads first' c' phase := by
  cases phase with
  | next | retrieving _ | ended => trivial
  | retrievingFrom _ v => exact hfirst v h
  | answering _ ids => exact hkept ids h
  | asking _ ids _ => exact hkept ids h
  | scoring _ ids _ _ => exact hkept ids h
  | answeringFrom _ ids v => exact ⟨hfirst v h.1, hkept ids h.2⟩
  | scoringFrom _ ids _ _ v => exact ⟨hfirst v h.1, hkept ids h.2⟩

/-- The collection moves on, the chunks of a build whose row stays do not. -/
theorem ReadInv.moved {c : Collection} (h : ReadInv s)
    (hc : ∀ v ∈ c.builds.keys, v ∈ s.collection.builds.keys ∧
      c.chunksOf v = s.collection.chunksOf v) : ReadInv { s with collection := c } := by
  have hkept : ∀ ids, Kept s.first s.collection ids → Kept s.first c ids := by
    intro ids hids cid hcid
    obtain ⟨v, hv, hrow⟩ := hids cid hcid
    refine ⟨v, hv, fun hkey => ?_⟩
    obtain ⟨hold, hchunks⟩ := hc v hkey
    rw [hchunks]
    exact hrow hold
  exact ⟨h.one_build, h.none_missing, h.evidence, h.phase.mono (fun _ hv => hv) hkept⟩

theorem ReadInv.promote {collection : String} {version count : Nat} {now : Time} {c : Collection}
    (h : ReadInv s) (hc : s.collection.promote collection version now = .ok (c, count)) :
    ReadInv { s with collection := c } := by
  refine h.moved (fun v hv => ?_)
  rw [Collection.keys_promote hc] at hv
  exact ⟨hv, by rw [Collection.chunksOf, (Collection.promote_builds hc).2.1, Collection.chunksOf]⟩

theorem ReadInv.reap (h : ReadInv s) : ReadInv { s with collection := s.collection.reap.1 } := by
  refine h.moved (fun v hv => ?_)
  obtain ⟨hkey, hspared⟩ := Collection.mem_keys_reap.mp hv
  exact ⟨hkey, s.collection.chunksOf_reap hspared⟩

/-- A read adds rows of the build of the run and finds what it wants. -/
theorem ReadInv.haveRead {r : ChunkRead} {phase : EvalPhase} (h : ReadInv s)
    (hrows : ∀ row ∈ r.rows, s.first = some row.buildVersion)
    (hwanted : ∀ cid ∈ r.wanted, ∃ row ∈ r.rows, row.canonicalId = cid)
    (hphase : PhaseReads s.first s.collection phase) : ReadInv (s.haveRead r phase) := by
  refine ⟨?_, ?_, h.evidence, hphase⟩
  · intro r' hr'
    rcases List.mem_append.mp hr' with hr' | hr'
    · exact h.one_build r' hr'
    · rw [List.mem_singleton.mp hr']
      exact hrows
  · intro r' hr'
    rcases List.mem_append.mp hr' with hr' | hr'
    · exact h.none_missing r' hr'
    · rw [List.mem_singleton.mp hr']
      exact hwanted

theorem ReadInv.grade {g : GradedItem} (h : ReadInv s)
    (hg : g.evidence.length = g.retrieved.length) : ReadInv (s.grade g) := by
  refine ⟨h.one_build, h.none_missing, ?_, trivial⟩
  intro g' hg'
  rcases List.mem_append.mp hg' with hg' | hg'
  · exact h.evidence g' hg'
  · rw [List.mem_singleton.mp hg']
    exact hg

theorem ReadInv.retrieved {item : EvalItem} {rows : List ChunkRow} (h : ReadInv s)
    (hrows : ∀ row ∈ rows, s.first = some row.buildVersion ∧
      row ∈ s.collection.chunksOf row.buildVersion) : ReadInv (s.retrieved item rows) := by
  have hkept : Kept s.first s.collection (rows.map ChunkRow.canonicalId) := by
    intro cid hcid
    obtain ⟨row, hrow, rfl⟩ := List.mem_map.mp hcid
    exact ⟨row.buildVersion, (hrows row hrow).1, fun _ => ⟨row, (hrows row hrow).2, rfl⟩⟩
  have hread : ReadInv (s.haveRead ⟨[], rows⟩ (.answering item (rows.map ChunkRow.canonicalId))) :=
    h.haveRead (fun row hrow => (hrows row hrow).1)
      (fun _ hcid => absurd hcid List.not_mem_nil) hkept
  unfold EvalReadState.retrieved
  split
  · exact hread.grade rfl
  · exact hread

theorem length_evidenceTexts {rows : List ChunkRow} {ids : List String}
    (h : ∀ cid ∈ ids, ∃ row ∈ rows, row.canonicalId = cid) :
    (evidenceTexts rows ids).length = ids.length := by
  have hsome : ∀ cid ∈ ids, (chunkText rows cid).isSome := by
    intro cid hcid
    obtain ⟨row, hrow, rfl⟩ := h cid hcid
    rw [chunkText, Option.isSome_map, List.find?_isSome]
    exact ⟨row, hrow, decide_eq_true rfl⟩
  rw [evidenceTexts, List.length_filterMap_eq_countP, List.countP_eq_length]
  exact hsome

/-- The rows of a text lookup, where the build looked up still has its row. -/
theorem Kept.found {v : Nat} {c : Collection} {ids : List String} (h : Kept (some v) c ids)
    (hkey : v ∈ c.builds.keys) :
    ∀ cid ∈ ids, ∃ row ∈ chunkTexts (c.chunksOf v) ids, row.canonicalId = cid := by
  intro cid hcid
  obtain ⟨w, hw, hrow⟩ := h cid hcid
  cases hw
  obtain ⟨row, hmem, rfl⟩ := hrow hkey
  exact ⟨row, List.mem_filter.mpr ⟨hmem, decide_eq_true hcid⟩, rfl⟩

theorem mem_nearest {question : String} {rows : List ChunkRow} {row : ChunkRow}
    (h : row ∈ nearest env question rows) : row ∈ rows :=
  (List.mem_insertionSort _).mp (List.mem_of_mem_take h)

/-- A lookup in a steady run: what it finds is the build of the run from now on. -/
theorem ReadInv.first (h : ReadInv s) (hsteady : ∀ v ∈ s.first, s.collection.liveVersion = some v) :
    s.first.or s.collection.liveVersion = s.collection.liveVersion ∧
      ReadInv { s with first := s.collection.liveVersion } := by
  cases hfirst : s.first with
  | none =>
    refine ⟨rfl, ?_⟩
    have hno : ∀ ids, Kept s.first s.collection ids →
        Kept s.collection.liveVersion s.collection ids := by
      intro ids hids cid hcid
      obtain ⟨v, hv, -⟩ := hids cid hcid
      rw [hfirst] at hv
      cases hv
    refine ⟨?_, h.none_missing, h.evidence, h.phase.mono ?_ hno⟩
    · intro r hr row hrow
      have hnone := h.one_build r hr row hrow
      rw [hfirst] at hnone
      cases hnone
    · intro v hv
      rw [hfirst] at hv
      cases hv
  | some v =>
    have hlive := hsteady v hfirst
    rw [hlive]
    refine ⟨rfl, ?_⟩
    rw [← hfirst]
    exact h

/-- In a steady run a lookup that finds no build has nothing to look for. -/
theorem Kept.of_none {c : Collection} {ids : List String} (h : Kept none c ids) :
    ∀ cid ∈ ids, False := by
  intro cid hcid
  obtain ⟨v, hv, -⟩ := h cid hcid
  cases hv

theorem ReadInv.lookup (h : ReadInv s) (hsteady : ∀ v ∈ s.first, s.collection.liveVersion = some v)
    (hstep : evalReadStep env s .lookup = some t) : ReadInv t := by
  obtain ⟨hor, hfirst⟩ := h.first hsteady
  simp only [evalReadStep, hor] at hstep
  have hphase := hfirst.phase
  cases hp : s.phase with
  | retrieving item =>
    simp only [hp] at hstep
    cases hlive : s.collection.liveVersion with
    | none =>
      rw [hlive] at hstep hfirst
      cases hstep
      exact hfirst.retrieved (fun _ hrow => absurd hrow List.not_mem_nil)
    | some v =>
      rw [hlive] at hstep hfirst
      cases hstep
      exact ⟨hfirst.one_build, hfirst.none_missing, hfirst.evidence, rfl⟩
  | answering item ids =>
    simp only [hp] at hstep hphase
    cases hlive : s.collection.liveVersion with
    | none =>
      rw [hlive] at hstep hfirst hphase
      cases hstep
      exact hfirst.haveRead (fun _ hrow => absurd hrow List.not_mem_nil)
        (fun cid hcid => (Kept.of_none hphase cid hcid).elim) hphase
    | some v =>
      rw [hlive] at hstep hfirst hphase
      cases hstep
      exact ⟨hfirst.one_build, hfirst.none_missing, hfirst.evidence, rfl, hphase⟩
  | scoring item ids context answer =>
    simp only [hp] at hstep hphase
    cases hlive : s.collection.liveVersion with
    | none =>
      rw [hlive] at hstep hfirst hphase
      cases hstep
      refine (hfirst.haveRead (fun _ hrow => absurd hrow List.not_mem_nil)
        (fun cid hcid => (Kept.of_none hphase cid hcid).elim)
        (show PhaseReads _ _ .next from trivial)).grade ?_
      exact length_evidenceTexts (fun cid hcid => (Kept.of_none hphase cid hcid).elim)
    | some v =>
      rw [hlive] at hstep hfirst hphase
      cases hstep
      exact ⟨hfirst.one_build, hfirst.none_missing, hfirst.evidence, rfl, hphase⟩
  | next | retrievingFrom _ _ | answeringFrom _ _ _ | asking _ _ _ | scoringFrom _ _ _ _ _
  | ended =>
    simp only [hp] at hstep
    cases hstep

theorem ReadInv.read (h : ReadInv s) (hsteady : ∀ v ∈ s.phase.version, v ∈ s.collection.builds.keys)
    (hstep : evalReadStep env s .read = some t) : ReadInv t := by
  simp only [evalReadStep] at hstep
  have hphase := h.phase
  have hbuild : ∀ v, s.first = some v →
      ∀ row ∈ s.collection.chunksOf v, s.first = some row.buildVersion := by
    intro v hv row hrow
    rw [hv, (Collection.mem_chunksOf.mp hrow).2]
  cases hp : s.phase with
  | retrievingFrom item v =>
    simp only [hp] at hstep
    rw [hp] at hphase
    cases hstep
    refine h.retrieved (fun row hrow => ?_)
    have hmem := mem_nearest hrow
    refine ⟨hbuild v hphase row hmem, ?_⟩
    rw [(Collection.mem_chunksOf.mp hmem).2]
    exact hmem
  | answeringFrom item ids v =>
    simp only [hp] at hstep
    rw [hp] at hphase hsteady
    cases hstep
    obtain ⟨hv, hkept⟩ := hphase
    have hfound := (hv ▸ hkept).found (hsteady v rfl)
    exact h.haveRead (fun row hrow => hbuild v hv row (List.mem_of_mem_filter hrow)) hfound hkept
  | scoringFrom item ids context answer v =>
    simp only [hp] at hstep
    rw [hp] at hphase hsteady
    cases hstep
    obtain ⟨hv, hkept⟩ := hphase
    have hfound := (hv ▸ hkept).found (hsteady v rfl)
    exact (h.haveRead (fun row hrow => hbuild v hv row (List.mem_of_mem_filter hrow)) hfound
      (show PhaseReads _ _ .next from trivial)).grade
      (length_evidenceTexts hfound)
  | next | retrieving _ | answering _ _ | asking _ _ _ | scoring _ _ _ _ | ended =>
    simp only [hp] at hstep
    cases hstep

theorem ReadInv.raises (h : ReadInv s) (hstep : evalReadStep env s .raises = some t) :
    ReadInv t := by
  simp only [evalReadStep] at hstep
  have hphase := h.phase
  cases hp : s.phase with
  | retrieving _ | retrievingFrom _ _ =>
    simp only [hp] at hstep
    cases hstep
    exact h.grade rfl
  | answering _ ids =>
    simp only [hp] at hstep
    rw [hp] at hphase
    cases hstep
    exact ⟨h.one_build, h.none_missing, h.evidence, hphase⟩
  | answeringFrom _ ids v =>
    simp only [hp] at hstep
    rw [hp] at hphase
    cases hstep
    exact ⟨h.one_build, h.none_missing, h.evidence, hphase.2⟩
  | scoring _ _ _ _ | scoringFrom _ _ _ _ _ =>
    simp only [hp] at hstep
    cases hstep
    exact ⟨h.one_build, h.none_missing, h.evidence, trivial⟩
  | next | asking _ _ _ | ended =>
    simp only [hp] at hstep
    cases hstep

theorem ReadInv.step {a : EvalReadAct} (h : ReadInv s)
    (hstep : restrict steady (evalReadStep env) s a = some t) : ReadInv t := by
  obtain ⟨hsteady, hstep⟩ := restrict_eq_some.mp hstep
  cases a with
  | lookup => exact h.lookup hsteady hstep
  | read => exact h.read hsteady hstep
  | raises => exact h.raises hstep
  | next =>
    simp only [evalReadStep] at hstep
    split at hstep
    · cases hstep
      exact ⟨h.one_build, h.none_missing, h.evidence, trivial⟩
    · split at hstep
      · cases hstep
        exact ⟨h.one_build, h.none_missing, h.evidence, h.phase⟩
      · cases hstep
        exact ⟨h.one_build, h.none_missing, h.evidence, trivial⟩
    · cases hstep
  | reply text =>
    have hphase := h.phase
    simp only [evalReadStep] at hstep
    split at hstep
    case h_1 item ids context hp =>
      rw [hp] at hphase
      cases hstep
      exact ⟨h.one_build, h.none_missing, h.evidence, hphase⟩
    case h_2 => cases hstep
  | cancel =>
    simp only [evalReadStep] at hstep
    split at hstep
    · cases hstep
    · cases hstep
      exact ⟨h.one_build, h.none_missing, h.evidence, trivial⟩
  | promote collection version now =>
    simp only [evalReadStep] at hstep
    split at hstep
    case h_1 c count hc =>
      cases hstep
      exact h.promote hc
    case h_2 =>
      cases hstep
      exact h
  | reap =>
    cases hstep
    exact h.reap

/-- In a steady run all that is read is of one build, and nothing retrieved goes missing. -/
theorem eval_run_reads_one_build {c : Collection} {items : List EvalItem} {acts : List EvalReadAct}
    (hrun : Reaches (restrict steady (evalReadStep env)) (.init c items) acts s) :
    OneBuild s.log ∧ NoneMissing s.log ∧
      ∀ g ∈ s.graded, g.evidence.length = g.retrieved.length := by
  have hinv : ReadInv s := hrun.invariant (fun _ _ _ hm hstep => hm.step hstep) (.init c items)
  refine ⟨⟨s.first.getD 0, ?_⟩, hinv.none_missing, hinv.evidence⟩
  intro r hr row hrow
  rw [hinv.one_build r hr row hrow, Option.getD_some]

end

/-! Two builds of a collection that share a chunk, and one question. -/

def pumpChunk (version ordinal : Nat) (canonicalId text : String) : ChunkRow where
  documentId := 1
  canonicalId := canonicalId
  ordinal := ordinal
  buildVersion := version
  text := text
  embedding := [1]
  embeddingModel := "e1"
  metadata := .emptyObj
  writtenBy := version

def pumpCollection : Collection where
  builds := ⟨[⟨1, .live, 2, none, none, some 0, 1⟩,
    ⟨2, .building, 0, none, none, none, 2⟩], by decide⟩
  chunks := ⟨[pumpChunk 1 0 "c_torque" "The torque is 5 Nm.",
    pumpChunk 1 1 "c_pump" "The pump is sealed.", pumpChunk 2 0 "c_pump" "The pump is sealed.",
    pumpChunk 2 1 "c_limit" "The torque is 6 Nm."], by decide⟩
  one_live := by decide

def torqueItem : EvalItem := ⟨"q1", "Which torque?", "5 Nm", ["c_torque"]⟩

def byOrdinal : EvalReadEnv := ⟨2, fun _ row => row.ordinal, fun _ => false⟩

/-- A reap comes in between, and the promotion after the last read. -/
def promotedAfterwards : List EvalReadAct :=
  [.next, .lookup, .read, .reap, .lookup, .read, .reply (some "5 Nm"), .lookup, .read,
    .promote "pumps" 2 9, .next]

theorem eval_run_reads_one_build_promotedAfterwards :
    ∃ s, Reaches (restrict steady (evalReadStep byOrdinal))
      (.init pumpCollection [torqueItem]) promotedAfterwards s ∧
      s.graded.map GradedItem.evidence = [["The torque is 5 Nm.", "The pump is sealed."]] ∧
      OneBuild s.log ∧ NoneMissing s.log ∧
      ∀ g ∈ s.graded, g.evidence.length = g.retrieved.length := by
  have hfacts : ((promotedAfterwards.foldlM (restrict steady (evalReadStep byOrdinal))
      (.init pumpCollection [torqueItem])).map (fun s => s.graded.map GradedItem.evidence)) =
        some [["The torque is 5 Nm.", "The pump is sealed."]] := by decide +kernel
  obtain ⟨s, hrun, hgraded⟩ := Option.map_eq_some_iff.mp hfacts
  exact ⟨s, hrun, hgraded, eval_run_reads_one_build hrun⟩

/-- The promotion comes between the retrieval and the lookup of the texts. -/
def promotedMeanwhile : List EvalReadAct :=
  [.next, .lookup, .read, .promote "pumps" 2 9, .lookup, .read, .reply (some "I don't know."),
    .lookup, .read]

theorem evidence_missing_promotedMeanwhile :
    ∃ s, Reaches (evalReadStep byOrdinal) (.init pumpCollection [torqueItem]) promotedMeanwhile s ∧
      s.graded.map GradedItem.evidence = [["The pump is sealed."]] ∧ ¬ OneBuild s.log ∧
      ¬ NoneMissing s.log := by
  have hfacts : ((promotedMeanwhile.foldlM (evalReadStep byOrdinal)
      (.init pumpCollection [torqueItem])).map (fun s =>
      decide (s.graded.map GradedItem.evidence = [["The pump is sealed."]] ∧
        (∃ r ∈ s.log, ∃ row ∈ r.rows, row.buildVersion = 1) ∧
        (∃ r ∈ s.log, ∃ row ∈ r.rows, row.buildVersion = 2) ∧
        ∃ r ∈ s.log, ∃ cid ∈ r.wanted, ∀ row ∈ r.rows, row.canonicalId ≠ cid))) =
        some true := by decide +kernel
  obtain ⟨s, hrun, hs⟩ := Option.map_eq_some_iff.mp hfacts
  obtain ⟨hgraded, ⟨r, hr, row, hrow, hone⟩, ⟨r', hr', row', hrow', htwo⟩,
      ⟨r'', hr'', cid, hcid, hmissing⟩⟩ :=
    of_decide_eq_true hs
  refine ⟨s, hrun, hgraded, ?_, ?_⟩
  · rintro ⟨v, hv⟩
    have hsame := (hv r hr row hrow).trans (hv r' hr' row' hrow').symm
    rw [hone, htwo] at hsame
    cases hsame
  · intro hnone
    obtain ⟨row'', hrow'', hfound⟩ := hnone r'' hr'' cid hcid
    exact hmissing row'' hrow'' hfound

end AgenticPlatform.Workloads
