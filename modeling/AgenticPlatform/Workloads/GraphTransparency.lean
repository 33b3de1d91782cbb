import AgenticPlatform.Workloads.GraphBuilds
import Mathlib.Data.List.Induction

/-!
# What a graph is a graph of

A call returns the graph of what is committed at some moment of the call as long as five
things do not happen: a hit on an entry that another domain filled, or that a commit has
outdated and its invalidation has not reached; documents and artifacts that were never
committed together; a directory that holds files of other artifacts; an entry stored after
what it was built from is no longer committed; artifacts that cannot be read.
-/
namespace AgenticPlatform.Workloads
open AgenticPlatform.Foundation AgenticPlatform.Identity AgenticPlatform.Corpus
  AgenticPlatform.Onboarding

section
variable {γ : Type}

/-! ## The steps that go wrong -/

def BuildPhase.lookingUp : BuildPhase γ → Option (List GraphDocument)
  | .loaded documents => some documents
  | _ => none

def BuildPhase.findingSession : BuildPhase γ → Option (List GraphDocument)
  | .reading documents => some documents
  | _ => none

/-- The artifacts that the engine is about to read from the directory. -/
def BuildPhase.constructing : BuildPhase γ → Option StoredArtifacts
  | .ready _ stored => stored
  | _ => none

/-- What the graph that is about to be stored was built from. -/
def BuildPhase.storing : BuildPhase γ → Option (List GraphDocument × Option StoredArtifacts)
  | .constructed documents stored _ => some (documents, stored)
  | _ => none

/-- The documents and the artifacts are the committed ones. -/
def Reads (env : BuildEnv γ) (q : BuildRequest) (db : TenantDb) (documents : List GraphDocument)
    (stored : Option StoredArtifacts) : Prop :=
  loadDocuments (db.collections q.collection) = documents ∧
    db.publishedArtifacts env q.schemaDomain = stored

instance (env : BuildEnv γ) (q : BuildRequest) (db : TenantDb) (documents : List GraphDocument)
    (stored : Option StoredArtifacts) : Decidable (Reads env q db documents stored) :=
  inferInstanceAs (Decidable (_ ∧ _))

/-- The entry that a lookup finds was built for the domain, and no commit that touches it is
waiting for its invalidation. -/
def hitsFresh (env : BuildEnv γ) (s : GraphState γ) (q : BuildRequest)
    (documents : List GraphDocument) : Prop :=
  ∀ e ∈ s.cache.hit (cacheKey q.ctx q.collection)
    (corpusFingerprint env.toGraphEnv documents) q.force,
    e.stats.schemaDomain = q.schemaDomain ∧
    ∀ p ∈ s.pending, ¬ p.2.touches (env.domainKey q.schemaDomain) q.collection

instance (env : BuildEnv γ) (s : GraphState γ) (q : BuildRequest) (documents : List GraphDocument) :
    Decidable (hitsFresh env s q documents) :=
  inferInstanceAs (Decidable (∀ e ∈ s.cache.hit _ _ _, _ ∧ ∀ p ∈ s.pending, ¬ p.2.touches _ _))

def readsCommitted (env : BuildEnv γ) (s : GraphState γ) : GraphAct → Prop
  | .build i .lookup => ∀ c ∈ s.calls i, ∀ documents ∈ c.phase.lookingUp,
    hitsFresh env s c.request documents
  | .build i .findSession =>
    ∀ c ∈ s.calls i, ∀ documents ∈ c.phase.findingSession,
      loadDocuments (s.db.collections c.request.collection) = documents
  | .build i .construct =>
    ∀ c ∈ s.calls i, ∀ stored ∈ c.phase.constructing,
      s.disk (env.domainKey c.request.schemaDomain) = materialize env .empty stored
  | .build i .store => ∀ c ∈ s.calls i, ∀ read ∈ c.phase.storing,
    Reads env c.request s.db read.1 read.2
  | .build _ .degrade | .build _ (.failMaterialize _) => False
  | _ => True

instance (env : BuildEnv γ) (s : GraphState γ) : (a : GraphAct) → Decidable (readsCommitted env s a)
  | .build i .lookup =>
    inferInstanceAs
    (Decidable (∀ c ∈ s.calls i, ∀ documents ∈ c.phase.lookingUp, hitsFresh env s _ _))
  | .build i .findSession =>
    inferInstanceAs (Decidable (∀ c ∈ s.calls i, ∀ documents ∈ c.phase.findingSession, _ = _))
  | .build i .construct =>
    inferInstanceAs (Decidable (∀ c ∈ s.calls i, ∀ stored ∈ c.phase.constructing, _ = _))
  | .build i .store =>
    inferInstanceAs (Decidable (∀ c ∈ s.calls i, ∀ read ∈ c.phase.storing, Reads env _ _ _ _))
  | .build _ .degrade | .build _ (.failMaterialize _) => isFalse id
  | .build _ .load | .build _ .readArtifacts | .build _ .materialize | .start .. | .begin .. |
    .ingest .. | .promote ..
  | .reap _ | .publish .. | .invalidate _ => isTrue trivial

/-! ## The moments of a call -/

variable {env : BuildEnv γ} {tenantId : Uuid} {s t : GraphState γ}

theorem inFlight_of {i : Nat} {c : BuildCall γ} (hc : s.calls i = some c) :
    s.inFlight i = c.inFlight := by
  rw [GraphState.inFlight, hc, Option.any_some]

/-- A step of a call changes nothing that is committed, and nothing of another call. -/
theorem buildStep_frame {i : Nat} {q : BuildRequest} {p : BuildPhase γ} {a : BuildStep}
    (h : buildStep env s i q p a = some t) :
    BuildCall.inFlight ⟨q, p⟩ = true ∧ t.db = s.db ∧ t.moments = s.moments ∧ t.pending = s.pending ∧
      ∃ p', t.calls = Function.update s.calls i (some ⟨q, p'⟩) := by
  unfold buildStep at h
  split at h
  case h_11 => cases h
  case h_2 => split at h <;> (cases h; exact ⟨rfl, rfl, rfl, rfl, _, rfl⟩)
  case h_3 => split at h <;> (cases h; exact ⟨rfl, rfl, rfl, rfl, _, rfl⟩)
  case h_9 => split at h <;> (cases h; exact ⟨rfl, rfl, rfl, rfl, _, rfl⟩)
  all_goals
    cases h
    exact ⟨rfl, rfl, rfl, rfl, _, rfl⟩

theorem mem_moments_commit {db m : TenantDb} {i : Nat} :
    m ∈ (s.commit db).moments i ↔ m ∈ s.moments i ∨ (s.inFlight i = true ∧ m = db) := by
  rw [GraphState.commit]
  dsimp only
  split
  · rename_i hflight
    rw [List.mem_cons, or_comm, hflight, and_iff_right rfl]
  · rename_i hflight
    rw [or_iff_left]
    intro h
    exact hflight h.1

/-- While a call is in flight, what is committed is a moment of it. -/
def Tracks (s : GraphState γ) : Prop := ∀ i, s.inFlight i = true → s.db ∈ s.moments i

theorem tracks_commit (s : GraphState γ) (db : TenantDb) : Tracks (s.commit db) := by
  intro i hflight
  exact mem_moments_commit.mpr (Or.inr ⟨hflight, rfl⟩)

theorem inFlight_start {i j : Nat} {q : BuildRequest} :
    (s.start i q).inFlight j = if j = i then true else s.inFlight j := by
  rw [GraphState.inFlight, GraphState.start]
  dsimp only
  split
  · rename_i hij
    rw [hij, Function.update_self]
    rfl
  · rename_i hij
    rw [Function.update_of_ne hij]
    rfl

theorem tracks_step {a : GraphAct} (hs : Tracks s) (h : graphStep env tenantId s a = some t) :
    Tracks t := by
  cases graphStep_move h with
  | starts i q hfree htenant =>
    intro j hflight
    rw [inFlight_start] at hflight
    by_cases hij : j = i
    · rw [hij]
      change s.db ∈ Function.update s.moments i [s.db] i
      rw [Function.update_self]
      exact List.mem_singleton.mpr rfl
    · rw [if_neg hij] at hflight
      change s.db ∈ Function.update s.moments i [s.db] j
      rw [Function.update_of_ne hij]
      exact hs j hflight
  | builds i c a t hc hstep =>
    obtain ⟨hbefore, hdb, hmoments, -, p', hcalls⟩ := buildStep_frame hstep
    intro j hflight
    rw [hdb, hmoments]
    refine hs j ?_
    by_cases hij : j = i
    · rw [hij, inFlight_of hc]
      exact hbefore
    · rw [GraphState.inFlight, hcalls, Function.update_of_ne hij] at hflight
      exact hflight
  | unseen a collection c hdocs hquiet => exact tracks_commit s _
  | promotes j collection version now c => exact tracks_commit s _
  | publishes j sessionId now db domain hdb => exact tracks_commit s db
  | invalidates j => exact hs

/-- A moment is added while it is there. -/
theorem moments_origin {a : GraphAct} {i : Nat} {m : TenantDb}
    (h : graphStep env tenantId s a = some t) (hm : m ∈ t.moments i) :
    m ∈ s.moments i ∨ (t.inFlight i = true ∧ t.db = m) := by
  have hcommit : ∀ db, m ∈ (s.commit db).moments i → m ∈ s.moments i ∨
      (s.inFlight i = true ∧ db = m) := by
    intro db hmem
    exact (mem_moments_commit.mp hmem).imp_right (fun h => ⟨h.1, h.2.symm⟩)
  cases graphStep_move h with
  | starts j q hfree htenant =>
    change m ∈ Function.update s.moments j [s.db] i at hm
    by_cases hij : i = j
    · rw [hij, Function.update_self, List.mem_singleton] at hm
      refine Or.inr ⟨?_, hm.symm⟩
      rw [inFlight_start, if_pos hij]
    · rw [Function.update_of_ne hij] at hm
      exact Or.inl hm
  | builds j c a t hc hstep => exact Or.inl ((buildStep_frame hstep).2.2.1 ▸ hm)
  | unseen a collection c hdocs hquiet => exact hcommit _ hm
  | promotes j collection version now c => exact hcommit _ hm
  | publishes j sessionId now db domain hdb => exact hcommit db hm
  | invalidates j => exact Or.inl hm

/-- A call that has started keeps its moments. -/
theorem moments_grow {a : GraphAct} {i : Nat} (h : graphStep env tenantId s a = some t)
    (hi : s.calls i ≠ none) : t.calls i ≠ none ∧ ∀ m ∈ s.moments i, m ∈ t.moments i := by
  cases graphStep_move h with
  | starts j q hfree htenant =>
    have hij : i ≠ j := by
      rintro rfl
      exact hi hfree
    change Function.update s.calls j _ i ≠ none ∧
      ∀ m ∈ s.moments i, m ∈ Function.update s.moments j [s.db] i
    rw [Function.update_of_ne hij, Function.update_of_ne hij]
    exact ⟨hi, fun _ hm => hm⟩
  | builds j c a t hc hstep =>
    obtain ⟨-, -, hmoments, -, p', hcalls⟩ := buildStep_frame hstep
    rw [hcalls, hmoments]
    refine ⟨?_, fun _ hm => hm⟩
    by_cases hij : i = j
    · rw [hij, Function.update_self]
      nofun
    · rw [Function.update_of_ne hij]
      exact hi
  | unseen a collection c hdocs hquiet => exact ⟨hi, fun _ hm => mem_moments_commit.mpr (Or.inl hm)⟩
  | promotes j collection version now c =>
    exact ⟨hi, fun _ hm => mem_moments_commit.mpr (Or.inl hm)⟩
  | publishes j sessionId now db domain hdb =>
    exact ⟨hi, fun _ hm => mem_moments_commit.mpr (Or.inl hm)⟩
  | invalidates j => exact ⟨hi, fun _ hm => hm⟩

/-- It is committed in a state of the run in which the call is in flight. -/
def DuringCall (env : BuildEnv γ) (tenantId : Uuid) (first : GraphState γ) (acts : List GraphAct)
    (i : Nat) (m : TenantDb) : Prop :=
  ∃ pre post s, acts = pre ++ post ∧ Reaches (graphStep env tenantId) first pre s ∧
    s.inFlight i = true ∧ s.db = m

/-- The moments that are kept are the moments of the call. -/
theorem mem_moments_iff {db : TenantDb} {disk : String → Directory} {acts : List GraphAct} {i : Nat}
    {m : TenantDb} (h : Reaches (graphStep env tenantId) (.init db disk) acts s) :
    m ∈ s.moments i ↔ DuringCall env tenantId (.init db disk) acts i m := by
  constructor
  · intro hm
    induction acts using List.reverseRecOn generalizing s with
    | nil =>
      cases reaches_nil.mp h
      cases hm
    | append_singleton acts a ih =>
      obtain ⟨s', hpre, hstep⟩ := reaches_snoc.mp h
      rcases moments_origin hstep hm with hold | ⟨hflight, hnow⟩
      · obtain ⟨pre, post, x, rfl, hx⟩ := ih hpre hold
        exact ⟨pre, post ++ [a], x, List.append_assoc pre post [a], hx⟩
      · exact ⟨acts ++ [a], [], s, (List.append_nil _).symm, h, hflight, hnow⟩
  · rintro ⟨pre, post, x, rfl, hpre, hflight, rfl⟩
    obtain ⟨x', hx', hpost⟩ := reaches_append.mp h
    cases hpre.unique hx'
    have hnow : x.db ∈ x.moments i := by
      refine hpre.invariant (P := Tracks) (fun s a t hs hst => tracks_step hs hst) ?_ i hflight
      intro j hflight
      cases hflight
    have hstarted : x.calls i ≠ none := by
      intro hnone
      rw [GraphState.inFlight, hnone] at hflight
      cases hflight
    refine (hpost.relates (R := fun s t => s.calls i ≠ none → t.calls i ≠ none ∧
      ∀ m ∈ s.moments i, m ∈ t.moments i) ?_ ?_ ?_ hstarted).2 x.db hnow
    · intro s hs
      exact ⟨hs, fun _ hm => hm⟩
    · intro s y t hsy hyt hs
      obtain ⟨hy, hmy⟩ := hsy hs
      exact ⟨(hyt hy).1, fun m hm => (hyt hy).2 m (hmy m hm)⟩
    · intro s a t hst hs
      exact moments_grow hst hs

/-! ## What every call and every entry can rely on -/

/-- What a call has read was committed at one of its moments. -/
def PhaseSound (env : BuildEnv γ) (q : BuildRequest) (moments : List TenantDb) : BuildPhase γ → Prop
  | .found documents id =>
    ∃ db ∈ moments, loadDocuments (db.collections q.collection) = documents ∧
      db.publishedSession (env.domainKey q.schemaDomain) = some id
  | .fetched documents stored => ∃ db ∈ moments, Reads env q db documents (some stored)
  | .ready documents stored => ∃ db ∈ moments, Reads env q db documents stored
  | .constructed documents stored graph =>
    (∃ db ∈ moments, Reads env q db documents stored) ∧
      env.knowledgeGraph q.schemaDomain (stored.map (materialize env .empty)) documents = some graph
  | .returned (some graph) => ∃ db ∈ moments, db.graph env q.collection q.schemaDomain = some graph
  | _ => True

/-- An entry that no pending invalidation is about is the graph of what is committed. -/
structure Sound (env : BuildEnv γ) (tenantId : Uuid) (s : GraphState γ) : Prop where
  tracks : Tracks s
  tenants : ∀ i c, s.calls i = some c → c.request.ctx.tenant.id = tenantId
  phases : ∀ i c, s.calls i = some c → PhaseSound env c.request (s.moments i) c.phase
  artifacts : ∀ i, ∀ db ∈ s.moments i, db.artifacts = s.db.artifacts
  keys : ∀ key e, s.cache key = some e → key.1 = tenantId
  entries : ∀ key e, s.cache key = some e →
    (∀ p ∈ s.pending, ¬ p.2.touches (env.domainKey e.stats.schemaDomain) key.2) →
      s.db.graph env key.2 e.stats.schemaDomain = some e.graph

theorem sound_init (db : TenantDb) (disk : String → Directory) :
    Sound env tenantId (.init db disk) where
  tracks := by
    intro i hflight
    cases hflight
  tenants := by
    intro i c hc
    cases hc
  phases := by
    intro i c hc
    cases hc
  artifacts := by
    intro i m hm
    cases hm
  keys := by
    intro key e he
    cases he
  entries := by
    intro key e he
    cases he

theorem PhaseSound.mono {q : BuildRequest} {p : BuildPhase γ} {moments moments' : List TenantDb}
    (hsub : ∀ db ∈ moments, db ∈ moments') (h : PhaseSound env q moments p) :
    PhaseSound env q moments' p := by
  have hexists : ∀ {P : TenantDb → Prop}, (∃ db ∈ moments, P db) → ∃ db ∈ moments', P db := by
    rintro P ⟨db, hdb, hP⟩
    exact ⟨db, hsub db hdb, hP⟩
  unfold PhaseSound at h ⊢
  split
  case h_4 => exact ⟨hexists h.1, h.2⟩
  case h_6 => trivial
  all_goals exact hexists h

theorem graph_of_reads {q : BuildRequest} {db : TenantDb} {documents : List GraphDocument}
    {stored : Option StoredArtifacts} (h : Reads env q db documents stored) :
    db.graph env q.collection q.schemaDomain =
      env.knowledgeGraph q.schemaDomain (stored.map (materialize env .empty)) documents := by
  rw [TenantDb.graph, h.1, h.2]

theorem artifactsFor_congr {db db' : TenantDb} (h : db'.artifacts = db.artifacts) (id : Uuid) :
    db'.artifactsFor id = db.artifactsFor id := by
  simp only [TenantDb.artifactsFor, TenantDb.onboarding, h]

/-- The graph depends on the documents, the published session and the artifacts. -/
theorem graph_congr {db db' : TenantDb} {collection schemaDomain : String}
    (hdocs : loadDocuments (db'.collections collection) = loadDocuments (db.collections collection))
    (hsession : db'.publishedSession (env.domainKey schemaDomain) =
      db.publishedSession (env.domainKey schemaDomain))
    (hart : db'.artifacts = db.artifacts) :
    db'.graph env collection schemaDomain = db.graph env collection schemaDomain := by
  have hfor : db'.artifactsFor = db.artifactsFor := funext (artifactsFor_congr hart)
  rw [TenantDb.graph, TenantDb.graph, TenantDb.publishedArtifacts, TenantDb.publishedArtifacts,
    hdocs, hsession, hfor]

/-! ## Calls -/

theorem calls_move {i : Nat} {q : BuildRequest} {p : BuildPhase γ} :
    (s.move i q p).calls = Function.update s.calls i (some ⟨q, p⟩) := rfl

/-- A call moves on to a phase that is sound. -/
theorem sound_move {i : Nat} {c : BuildCall γ} {p : BuildPhase γ} (hs : Sound env tenantId s)
    (hc : s.calls i = some c) (hflight : c.inFlight = true)
    (hp : PhaseSound env c.request (s.moments i) p) :
    Sound env tenantId (s.move i c.request p) where
  tracks := by
    intro j hj
    by_cases hij : j = i
    · exact hs.tracks j (hij ▸ (inFlight_of hc).trans hflight)
    · rw [GraphState.inFlight, calls_move, Function.update_of_ne hij] at hj
      exact hs.tracks j hj
  tenants := by
    intro j d hd
    rcases update_eq_some hd with ⟨-, rfl⟩ | ⟨-, hd⟩
    · exact hs.tenants i c hc
    · exact hs.tenants j d hd
  phases := by
    intro j d hd
    rcases update_eq_some hd with ⟨rfl, rfl⟩ | ⟨-, hd⟩
    · exact hp
    · exact hs.phases j d hd
  artifacts := hs.artifacts
  keys := hs.keys
  entries := hs.entries

theorem sound_write {domain : String} {dir : Directory} (hs : Sound env tenantId s) :
    Sound env tenantId (s.write domain dir) :=
  ⟨hs.tracks, hs.tenants, hs.phases, hs.artifacts, hs.keys, hs.entries⟩

/-- An entry that is the graph of what is committed can be stored. -/
theorem sound_put {q : BuildRequest} {e : CachedGraph γ} (hs : Sound env tenantId s)
    (htenant : q.ctx.tenant.id = tenantId)
    (he : s.db.graph env q.collection e.stats.schemaDomain = some e.graph) :
    Sound env tenantId { s with cache := s.cache.put (cacheKey q.ctx q.collection) e } where
  tracks := hs.tracks
  tenants := hs.tenants
  phases := hs.phases
  artifacts := hs.artifacts
  keys := by
    intro key e' he'
    rcases put_eq_some he' with ⟨rfl, -⟩ | hold
    · exact htenant
    · exact hs.keys key e' hold
  entries := by
    intro key e' he' hpending
    rcases put_eq_some he' with ⟨rfl, rfl⟩ | hold
    · exact he
    · exact hs.entries key e' hold hpending

theorem sound_build {i : Nat} {q : BuildRequest} {p : BuildPhase γ} {a : BuildStep}
    (hs : Sound env tenantId s) (hc : s.calls i = some ⟨q, p⟩)
    (hcond : readsCommitted env s (.build i a)) (h : buildStep env s i q p a = some t) :
    Sound env tenantId t := by
  have hflight : BuildCall.inFlight ⟨q, p⟩ = true := (buildStep_frame h).1
  have hnow : s.db ∈ s.moments i := hs.tracks i ((inFlight_of hc).trans hflight)
  have hphase : PhaseSound env q (s.moments i) p := hs.phases i _ hc
  unfold buildStep at h
  split at h
  · cases h
    exact sound_move hs hc hflight trivial
  · rename_i documents
    split at h
    · rename_i e he
      cases h
      refine sound_move hs hc hflight ⟨s.db, hnow, ?_⟩
      obtain ⟨hdomain, hpending⟩ := hcond _ hc documents rfl e he
      rw [← hdomain] at hpending ⊢
      exact hs.entries _ e (hit_eq_some.mp he).1 hpending
    · cases h
      refine sound_move hs hc hflight ?_
      split <;> trivial
  · rename_i documents
    have hdocs := hcond _ hc documents rfl
    split at h
    · rename_i id hid
      cases h
      exact sound_move hs hc hflight ⟨s.db, hnow, hdocs, hid⟩
    · rename_i hnone
      cases h
      refine sound_move hs hc hflight ⟨s.db, hnow, hdocs, ?_⟩
      rw [TenantDb.publishedArtifacts, hnone]
      rfl
  · rename_i documents id
    cases h
    obtain ⟨db, hdb, hdocs, hid⟩ := hphase
    have hstored : db.publishedArtifacts env q.schemaDomain =
        (some (s.db.artifactsFor id)).filter (fun a => a ≠ .empty) := by
      rw [TenantDb.publishedArtifacts, hid, Option.map_some,
        artifactsFor_congr (hs.artifacts i db hdb)]
    refine sound_move hs hc hflight ?_
    split
    · rename_i hempty
      refine ⟨db, hdb, hdocs, ?_⟩
      rw [hstored, hempty]
      rfl
    · rename_i hne
      refine ⟨db, hdb, hdocs, ?_⟩
      rw [hstored, Option.filter_some_pos (by simpa using hne)]
  · cases h
    exact sound_move (sound_write hs) hc hflight hphase
  · exact hcond.elim
  · exact hcond.elim
  · exact hcond.elim
  · rename_i documents stored
    split at h
    · rename_i graph hgraph
      cases h
      refine sound_move hs hc hflight ⟨hphase, ?_⟩
      cases stored with
      | none => exact hgraph
      | some stored =>
        have hdisk := hcond _ hc stored rfl
        rw [Option.map_some, hdisk] at hgraph
        exact hgraph
    · cases h
      exact sound_move hs hc hflight trivial
  · rename_i documents stored graph
    cases h
    have hreads : Reads env q s.db documents stored := hcond _ hc (documents, stored) rfl
    have hgraph : s.db.graph env q.collection q.schemaDomain = some graph :=
      (graph_of_reads hreads).trans hphase.2
    refine sound_move (sound_put hs (hs.tenants i _ hc) ?_) hc hflight ⟨s.db, hnow, hgraph⟩
    exact hgraph
  · cases h

/-! ## Commits and invalidations -/

/-- A commit that announces what it touches. -/
theorem sound_commit {db : TenantDb} (pending : List (Nat × Reload)) (hs : Sound env tenantId s)
    (hart : db.artifacts = s.db.artifacts) (hsub : ∀ p ∈ s.pending, p ∈ pending)
    (hgraph : ∀ collection schemaDomain,
      (∀ p ∈ pending, ¬ p.2.touches (env.domainKey schemaDomain) collection) →
      db.graph env collection schemaDomain = s.db.graph env collection schemaDomain) :
    Sound env tenantId { s.commit db with pending := pending } where
  tracks := tracks_commit s db
  tenants := hs.tenants
  phases := by
    intro i c hc
    exact (hs.phases i c hc).mono (fun m hm => mem_moments_commit.mpr (Or.inl hm))
  artifacts := by
    intro i m hm
    rcases mem_moments_commit.mp hm with hm | ⟨-, rfl⟩
    · exact (hs.artifacts i m hm).trans hart.symm
    · rfl
  keys := hs.keys
  entries := by
    intro key e he hpending
    refine (hgraph key.2 e.stats.schemaDomain hpending).trans (hs.entries key e he ?_)
    intro p hp
    exact hpending p (hsub p hp)

/-- Of the commit of one collection, its own graphs can tell, and only by the documents. -/
theorem graph_of_collection {collection collection' schemaDomain : String} {c : Collection}
    (h : collection' ≠ collection ∨ loadDocuments c = loadDocuments (s.db.collections collection)) :
    ({ s.db with collections := Function.update s.db.collections collection c } : TenantDb).graph
      env collection' schemaDomain =
      s.db.graph env collection' schemaDomain := by
  refine graph_congr ?_ rfl rfl
  change loadDocuments (Function.update s.db.collections collection c collection') = _
  by_cases hsame : collection' = collection
  · rw [hsame, Function.update_self]
    exact h.resolve_left (fun hne => hne hsame)
  · rw [Function.update_of_ne hsame]

theorem sound_step {a : GraphAct} (hs : Sound env tenantId s) (hcond : readsCommitted env s a)
    (h : graphStep env tenantId s a = some t) : Sound env tenantId t := by
  cases graphStep_move h with
  | starts i q hfree htenant =>
    refine ⟨tracks_step hs.tracks h, ?_, ?_, ?_, hs.keys, hs.entries⟩
    · intro j c hc
      rcases update_eq_some hc with ⟨-, rfl⟩ | ⟨-, hc⟩
      · exact htenant
      · exact hs.tenants j c hc
    · intro j c hc
      rcases update_eq_some hc with ⟨rfl, rfl⟩ | ⟨hij, hc⟩
      · trivial
      · change PhaseSound env c.request (Function.update s.moments i [s.db] j) c.phase
        rw [Function.update_of_ne hij]
        exact hs.phases j c hc
    · intro j m hm
      change m ∈ Function.update s.moments i [s.db] j at hm
      by_cases hij : j = i
      · rw [hij, Function.update_self, List.mem_singleton] at hm
        rw [hm]
        rfl
      · rw [Function.update_of_ne hij] at hm
        exact hs.artifacts j m hm
  | builds i c a t hc hstep => exact sound_build hs hc hcond hstep
  | unseen a collection c hdocs hquiet =>
    refine sound_commit s.pending hs rfl (fun _ hp => hp) ?_
    intro collection' schemaDomain hpending
    exact graph_of_collection (Or.inr hdocs)
  | promotes j collection version now c =>
    refine sound_commit _ hs rfl (fun p hp => List.mem_cons_of_mem _ hp) ?_
    intro collection' schemaDomain hpending
    refine graph_of_collection (Or.inl ?_)
    rintro rfl
    exact hpending _ List.mem_cons_self rfl
  | publishes j sessionId now db domain hdb =>
    obtain ⟨hcollections, hart, hother⟩ := publish_spec hdb
    refine sound_commit _ hs hart (fun p hp => List.mem_cons_of_mem _ hp) ?_
    intro collection schemaDomain hpending
    refine graph_congr (by rw [hcollections]) (hother _ ?_) hart
    intro hdomain
    exact hpending _ List.mem_cons_self hdomain.symm
  | invalidates j =>
    refine ⟨hs.tracks, hs.tenants, hs.phases, hs.artifacts, ?_, ?_⟩
    · intro key e he
      exact hs.keys key e (invalidate_eq_some.mp he).2
    · intro key e he
      obtain ⟨hne, hold⟩ := invalidate_eq_some.mp he
      exact absurd (hs.keys key e hold) hne

/-- In every run whose steps all read and keep what is committed, a graph that a call
returns is the graph of the documents and the artifacts of one moment of the call. -/
theorem graph_cache_transparent {db : TenantDb} {disk : String → Directory} {acts : List GraphAct}
    {i : Nat} {q : BuildRequest} {graph : γ}
    (h : Reaches (restrict (readsCommitted env) (graphStep env tenantId)) (.init db disk) acts s)
    (hreturned : s.calls i = some ⟨q, .returned (some graph)⟩) :
    ∃ m, DuringCall env tenantId (.init db disk) acts i m ∧
      m.graph env q.collection q.schemaDomain = some graph := by
  have hs : Sound env tenantId s := by
    refine h.invariant ?_ (sound_init db disk)
    intro s a t hs hst
    obtain ⟨hcond, hst⟩ := restrict_eq_some.mp hst
    exact sound_step hs hcond hst
  obtain ⟨m, hm, hgraph⟩ := hs.phases i _ hreturned
  exact ⟨m, (mem_moments_iff h.of_restrict).mp hm, hgraph⟩

end

/-! ## One collection under two taxonomies -/

/-- A graph that shows the domain, the schema and the chunks it comes from. -/
def pumpsEnv : BuildEnv (String × Option String × List String) where
  sha256 := fun _ => "874359791b63bc9c53e9953a91b90f8776f0da05b4d14a264120058644fe5f43"
  numberOfNodes := fun graph => graph.2.2.length
  numberOfEdges := fun _ => 0
  domainKey := id
  valueText := fun _ => ""
  knowledgeGraph := fun domain dir documents =>
    some (domain, dir.bind Directory.schema, documents.map GraphDocument.chunkId)

/-- A taxonomy for pumps is approved, and nothing is published or indexed. -/
def approvedDb : TenantDb where
  collections := fun _ => .empty
  sessions := Table.empty.insert
    { newSession 20 "pumps" "manuals" (some 40) 7 0 with status := .approved } List.not_mem_nil
  artifacts := Table.empty.insert
    ⟨singleton 20 .schema, .obj [("yaml", .str "entity_types: [pump]")]⟩ List.not_mem_nil

def operatorContext : RequestContext :=
  ⟨⟨7, ⟨1, "acme"⟩, "alice", [.operator]⟩, 5, none, none, none⟩

def manualsRequest (schemaDomain : String) : BuildRequest :=
  ⟨operatorContext, 0, "manuals", schemaDomain, false⟩

/-- The first build of the collection, to its invalidation. -/
def indexManuals : List GraphAct :=
  [.begin "manuals" 0 none, .ingest "manuals" 1
    [⟨50, "c_8c6f1d2b9a4e7053", 0, 1, "The pump leaks.", [], "m", .emptyObj, 0⟩],
    .promote 9 "manuals" 1 1, .invalidate 9]

def publishPumps : List GraphAct := [.publish 8 20 2, .invalidate 8]

def steps (i : Nat) (steps : List BuildStep) : List GraphAct := steps.map (.build i)

/-- A taxonomy is published, one call builds its graph, and a second one finds it. -/
def publishedThenBuilt : List GraphAct :=
  indexManuals ++ publishPumps ++ [.start 0 (manualsRequest "pumps")] ++
    steps 0 [.load, .lookup, .findSession, .readArtifacts, .materialize, .construct, .store] ++
    [.start 1 (manualsRequest "pumps")] ++ steps 1 [.load, .lookup]

theorem publishedThenBuilt_run :
    (publishedThenBuilt.foldlM (restrict (readsCommitted pumpsEnv) (graphStep pumpsEnv 1))
      (.init approvedDb (fun _ => .empty))).isSome = true := by
  decide +kernel

theorem graph_cache_transparent_publishedThenBuilt :
    ∃ m, DuringCall pumpsEnv 1 (.init approvedDb (fun _ => .empty)) publishedThenBuilt 1 m ∧
      m.graph pumpsEnv "manuals" "pumps" =
      some ("pumps", some "entity_types: [pump]", ["c_8c6f1d2b9a4e7053"]) :=
  graph_cache_transparent (q := manualsRequest "pumps") (reaches_get publishedThenBuilt_run)
    (by decide +kernel)

/-- The second call asks for another domain. -/
def anotherDomain : List GraphAct :=
  indexManuals ++ [.start 0 (manualsRequest "pumps")] ++
    steps 0 [.load, .lookup, .findSession, .construct, .store] ++
    [.start 1 (manualsRequest "valves")] ++ steps 1 [.load, .lookup]

theorem anotherDomain_run :
    (anotherDomain.foldlM (graphStep pumpsEnv 1) (.init approvedDb (fun _ => .empty))).isSome =
      true := by
  decide +kernel

/-- The taxonomy is published, and the cache invalidated, while the first call builds. -/
def publishedMeanwhile : List GraphAct :=
  indexManuals ++ [.start 0 (manualsRequest "pumps")] ++
    steps 0 [.load, .lookup, .findSession] ++ publishPumps ++
    steps 0 [.construct, .store] ++ [.start 1 (manualsRequest "pumps")] ++ steps 1 [.load, .lookup]

theorem publishedMeanwhile_run :
    (publishedMeanwhile.foldlM (graphStep pumpsEnv 1) (.init approvedDb (fun _ => .empty))).isSome =
      true := by
  decide +kernel

/-- The second call returns the graph of another domain, and the graph without the taxonomy
that was published before it started. -/
theorem cached_graph_of_no_moment :
    (∃ s, Reaches (graphStep pumpsEnv 1) (.init approvedDb (fun _ => .empty)) anotherDomain s ∧
      s.calls 1 =
      some ⟨manualsRequest "valves", .returned (some ("pumps", none, ["c_8c6f1d2b9a4e7053"]))⟩ ∧
      ∀ m, DuringCall pumpsEnv 1 (.init approvedDb (fun _ => .empty)) anotherDomain 1 m →
      m.graph pumpsEnv "manuals" "valves" ≠ some ("pumps", none, ["c_8c6f1d2b9a4e7053"])) ∧ ∃ s,
      Reaches (graphStep pumpsEnv 1) (.init approvedDb (fun _ => .empty)) publishedMeanwhile s ∧
      s.calls 1 =
      some ⟨manualsRequest "pumps", .returned (some ("pumps", none, ["c_8c6f1d2b9a4e7053"]))⟩ ∧
      ∀ m, DuringCall pumpsEnv 1 (.init approvedDb (fun _ => .empty)) publishedMeanwhile 1 m →
      m.graph pumpsEnv "manuals" "pumps" ≠ some ("pumps", none, ["c_8c6f1d2b9a4e7053"]) := by
  have hdomain : ∀ m ∈ ((anotherDomain.foldlM (graphStep pumpsEnv 1)
      (.init approvedDb (fun _ => .empty))).get anotherDomain_run).moments 1,
      m.graph pumpsEnv "manuals" "valves" ≠ some ("pumps", none, ["c_8c6f1d2b9a4e7053"]) := by
    decide +kernel
  have hmeanwhile : ∀ m ∈ ((publishedMeanwhile.foldlM (graphStep pumpsEnv 1)
      (.init approvedDb (fun _ => .empty))).get publishedMeanwhile_run).moments 1,
      m.graph pumpsEnv "manuals" "pumps" ≠ some ("pumps", none, ["c_8c6f1d2b9a4e7053"]) := by
    decide +kernel
  refine ⟨⟨_, reaches_get anotherDomain_run, by decide +kernel, ?_⟩,
    ⟨_, reaches_get publishedMeanwhile_run, by decide +kernel, ?_⟩⟩
  · intro m hm
    exact hdomain m ((mem_moments_iff (reaches_get anotherDomain_run)).mpr hm)
  · intro m hm
    exact hmeanwhile m ((mem_moments_iff (reaches_get publishedMeanwhile_run)).mpr hm)

end AgenticPlatform.Workloads
