import AgenticPlatform.Workloads.Reindex

/-!
# The build being served

What a collection serves survives every interleaving of reindex executions as long as
no execution fails the build that is live at that moment, or promotes a build whose row
is gone. `fail` deletes the chunks of its build whatever the status of the row, and the
whole of the workload after `promote` is inside the try block that calls it.
-/
namespace AgenticPlatform.Workloads
open AgenticPlatform.Foundation AgenticPlatform.Identity AgenticPlatform.Corpus

variable {env : ReindexEnv} {s t : ReindexState} {a : ReindexAct}

/-! ## A collection does not go dark -/

/-- Exactly one build is live, and it has a chunk. -/
def Serving (c : Collection) : Prop :=
  ∃ b ∈ c.builds.rows, b.status = .live ∧ (∀ b' ∈ c.builds.rows, b'.status = .live → b' = b) ∧
    c.chunksOf b.buildVersion ≠ []

instance (c : Collection) : Decidable (Serving c) :=
  inferInstanceAs (Decidable (∃ b ∈ c.builds.rows, _))

theorem serving_iff {c : Collection} :
    Serving c ↔ ∃ v, c.liveVersion = some v ∧ c.chunksOf v ≠ [] := by
  constructor
  · rintro ⟨b, hb, hlive, -, hchunks⟩
    exact ⟨b.buildVersion, Collection.liveVersion_eq_some.mpr ⟨b, hb, hlive, rfl⟩, hchunks⟩
  · rintro ⟨v, hv, hchunks⟩
    obtain ⟨b, hb, hlive, rfl⟩ := Collection.liveVersion_eq_some.mp hv
    refine ⟨b, hb, hlive, ?_, hchunks⟩
    intro b' hb' hlive'
    exact c.one_live b' hb' b hb hlive' hlive

/-- The two steps that take a collection dark are not taken: to fail the build that is
live, and to promote chunks whose build row is gone. -/
def keepsServing (s : ReindexState) : ReindexAct → Prop
  | .fail e => ∀ v ∈ (s.execs e).version, s.collection.liveVersion ≠ some v
  | .promote e _ => ∀ v ∈ (s.execs e).version, s.collection.chunksOf v ≠ [] →
    v ∈ s.collection.builds.keys
  | _ => True

instance (s : ReindexState) : (a : ReindexAct) → Decidable (keepsServing s a)
  | .fail e => inferInstanceAs
    (Decidable (∀ v ∈ (s.execs e).version, s.collection.liveVersion ≠ some v))
  | .promote e _ =>
    inferInstanceAs (Decidable (∀ v ∈ (s.execs e).version, _ → v ∈ s.collection.builds.keys))
  | .create .. | .delete .. | .start _ | .begin .. | .copy _ | .select _ | .prepare _ |
    .ingest .. | .reap _
  | .finish _ | .raise .. | .crash _ => isTrue trivial

theorem chunksOf_writeChunks_ne_nil {c : Collection} {rows : List ChunkRow} {v : Nat}
    (h : c.chunksOf v ≠ []) : (writeChunks c rows).chunksOf v ≠ [] := by
  obtain ⟨r, hr⟩ := List.exists_mem_of_ne_nil _ h
  rw [Collection.mem_chunksOf] at hr
  apply List.ne_nil_of_mem (a := r)
  exact Collection.mem_chunksOf.mpr ⟨Table.mem_insertMissing rows hr.1, hr.2⟩

/-- A promotion that passes lights the collection. -/
theorem serving_promote {c : Collection} {e v count : Nat} {now : Time}
    (hc : s.collection.promote env.collection v now = .ok (c, count))
    (he : (s.execs e).version = some v) (hcond : keepsServing s (.promote e now)) : Serving c := by
  obtain ⟨-, hchunks, hne⟩ := Collection.promote_builds hc
  have hrow : v ∈ s.collection.builds.keys := hcond v he hne
  refine serving_iff.mpr ⟨v, ?_, ?_⟩
  · rw [Collection.liveVersion_promote hc, if_pos hrow]
  · rw [Collection.chunksOf, hchunks]
    exact hne

theorem serving_step (h : restrict keepsServing (reindexStep env) s a = some t)
    (hs : Serving s.collection) : Serving t.collection := by
  obtain ⟨hcond, hstep⟩ := restrict_eq_some.mp h
  obtain ⟨v, hlive, hchunks⟩ := serving_iff.mp hs
  cases reindexStep_move hstep with
  | request lib => exact hs
  | moves e p hp => exact hs
  | opens e runId previous he =>
    exact serving_iff.mpr ⟨v, (Collection.liveVersion_begin _ e runId).trans hlive, hchunks⟩
  | writes e w rows p ha he hp hrows =>
    exact serving_iff.mpr ⟨v, hlive, chunksOf_writeChunks_ne_nil hchunks⟩
  | promotes e w count now c he hc =>
    exact serving_promote hc (congrArg Phase.version he) hcond
  | reaps e w he =>
    refine serving_iff.mpr ⟨v, (Collection.liveVersion_reap _).trans hlive, ?_⟩
    have hspared := (Collection.spares_iff hlive).mpr (Or.inl rfl)
    exact (Collection.chunksOf_reap _ hspared).symm ▸ hchunks
  | fails e w error valueError he =>
    refine serving_iff.mpr ⟨v, (Collection.liveVersion_fail _ w error).trans hlive, ?_⟩
    have hne : v ≠ w := by
      intro hvw
      exact hcond w (congrArg Phase.version he) (hvw ▸ hlive)
    exact (Collection.chunksOf_fail _ w error hne).symm ▸ hchunks

/-- Once a promotion has passed, the collection serves a build with chunks in every state
of every interleaving. -/
theorem collection_never_dark {m m' : ReindexState} {e v : Nat} {now : Time}
    {acts : List ReindexAct}
    (hpromote : restrict keepsServing (reindexStep env) m (.promote e now) = some m')
    (hpassed : m'.execs e = .promoted v)
    (hrun : Reaches (restrict keepsServing (reindexStep env)) m' acts s) :
    Serving s.collection := by
  obtain ⟨hcond, hstep⟩ := restrict_eq_some.mp hpromote
  obtain ⟨c, count, he, hc, rfl⟩ := promote_passed hstep hpassed
  have hfirst : Serving c := serving_promote hc (congrArg Phase.version he) hcond
  refine hrun.invariant (P := fun s => Serving s.collection) ?_ hfirst
  intro s a t hs h
  exact serving_step h hs

/-- The first build is promoted and reaped, the second one replaces it, and the third one
ends empty-handed when the embedding service raises. -/
def threeReindexes : List ReindexAct :=
  [.reap 0, .finish 0] ++ upToPromote 1 ++ [.promote 1 2, .reap 1, .finish 1] ++
    (upToPromote 2).take 5 ++ [.raise 2 "TransientError: 503" false, .fail 2]

theorem beforePromote_run : ((upToPromote 0).foldlM (restrict keepsServing (reindexStep helloEnv))
    (.init helloLibrary)).isSome = true := by decide +kernel

/-- The first build is complete. -/
def beforePromote : ReindexState :=
  ((upToPromote 0).foldlM (restrict keepsServing (reindexStep helloEnv)) (.init helloLibrary)).get
    beforePromote_run

theorem firstPromote_run :
    (restrict keepsServing (reindexStep helloEnv) beforePromote (.promote 0 1)).isSome = true := by
  decide +kernel

/-- The first build is live. -/
def firstServed : ReindexState :=
  (restrict keepsServing (reindexStep helloEnv) beforePromote (.promote 0 1)).get firstPromote_run

theorem firstPromote_step :
    restrict keepsServing (reindexStep helloEnv) beforePromote (.promote 0 1) = some firstServed :=
  (Option.some_get firstPromote_run).symm

theorem threeReindexes_run :
    (threeReindexes.foldlM (restrict keepsServing (reindexStep helloEnv)) firstServed).isSome =
      true := by
  decide +kernel

theorem collection_never_dark_threeReindexes :
    ∃ m m' s, Reaches (restrict keepsServing (reindexStep helloEnv))
      (.init helloLibrary) (upToPromote 0) m ∧
      restrict keepsServing (reindexStep helloEnv) m (.promote 0 1) = some m' ∧
      m'.execs 0 = .promoted 1 ∧
      Reaches (restrict keepsServing (reindexStep helloEnv)) m' threeReindexes s ∧
      s.execs 2 = .ended .raised ∧ s.collection.liveVersion = some 2 ∧ Serving s.collection := by
  have hpassed : firstServed.execs 0 = .promoted 1 := by decide +kernel
  have hrun := reaches_get threeReindexes_run
  exact ⟨_, _, _, reaches_get beforePromote_run, firstPromote_step, hpassed,
    hrun, by decide +kernel,
    by decide +kernel, collection_never_dark firstPromote_step hpassed hrun⟩

/-- Graph invalidation raises after the promotion. -/
def raisedAfterPromote : List ReindexAct :=
  [.raise 0 "OperationalError: server closed the connection" false, .fail 0]

theorem raisedAfterPromote_run :
    (raisedAfterPromote.foldlM (reindexStep helloEnv) firstServed).isSome = true := by
  decide +kernel

/-- The only build is live and has lost its chunks. -/
theorem raise_after_promote_goes_dark : ∃ m m' s,
    Reaches (reindexStep helloEnv) (.init helloLibrary) (upToPromote 0) m ∧
    reindexStep helloEnv m (.promote 0 1) = some m' ∧ m'.execs 0 = .promoted 1 ∧
    Reaches (reindexStep helloEnv) m' raisedAfterPromote s ∧
    s.collection.liveVersion = some 1 ∧ ¬ Serving s.collection := by
  exact ⟨_, _, _, (reaches_get beforePromote_run).of_restrict,
    (restrict_eq_some.mp firstPromote_step).2,
    by decide +kernel, reaches_get raisedAfterPromote_run, by decide +kernel, by decide +kernel⟩

/-! ## What is served stays as it was promoted -/

/-- The execution that inserts or deletes the chunks of its own build in a step. -/
def ReindexAct.rewriter : ReindexAct → Option Nat
  | .copy e | .ingest e _ | .fail e => some e
  | _ => none

/-- No execution copies into, ingests into or fails the build that is live. -/
def sparesServed (s : ReindexState) (a : ReindexAct) : Prop :=
  ∀ e ∈ a.rewriter, ∀ v ∈ (s.execs e).version, s.collection.liveVersion ≠ some v

instance (s : ReindexState) (a : ReindexAct) : Decidable (sparesServed s a) :=
  inferInstanceAs (Decidable (∀ e ∈ a.rewriter, _))

theorem rewriter_of_writer {e : Nat} (h : a.writer = some e) : a.rewriter = some e := by
  cases a <;> first | exact h | cases h

/-- One step leaves the chunks of the live build as they are. -/
theorem chunksOf_live_step {v : Nat} (h : restrict sparesServed (reindexStep env) s a = some t)
    (hlive : s.collection.liveVersion = some v) :
    t.collection.chunksOf v = s.collection.chunksOf v := by
  obtain ⟨hcond, hstep⟩ := restrict_eq_some.mp h
  cases reindexStep_move hstep with
  | request lib => rfl
  | moves e p hp => rfl
  | opens e runId previous he => rfl
  | writes e w rows p ha he hp hrows =>
    refine chunksOf_writeChunks ?_
    intro r hr hv
    refine hcond e (rewriter_of_writer ha) w he ?_
    rw [hlive, ← hv, (hrows r hr).1]
  | promotes e w count now c he hc =>
    have hchunks := (Collection.promote_builds hc).2.1
    exact congrArg
      (fun chunks : ChunkTable => chunks.rows.filter (fun r => r.buildVersion = v)) hchunks
  | reaps e w he =>
    exact Collection.chunksOf_reap _ ((Collection.spares_iff hlive).mpr (Or.inl rfl))
  | fails e w error valueError he =>
    refine Collection.chunksOf_fail _ w error ?_
    intro hvw
    exact hcond e rfl w (congrArg Phase.version he) (hvw ▸ hlive)

/-- A build is live in every state of a run. -/
def LiveThroughout (env : ReindexEnv) (v : Nat) : ReindexState → List ReindexAct → Prop
  | s, [] => s.collection.liveVersion = some v
  | s, a :: acts => s.collection.liveVersion = some v ∧
    ∀ t ∈ reindexStep env s a, LiveThroughout env v t acts

instance decidableLiveThroughout (env : ReindexEnv) (v : Nat) :
    (s : ReindexState) → (acts : List ReindexAct) → Decidable (LiveThroughout env v s acts)
  | s, [] => inferInstanceAs (Decidable (s.collection.liveVersion = some v))
  | s, a :: acts =>
    have : ∀ t, Decidable (LiveThroughout env v t acts) :=
      fun t => decidableLiveThroughout env v t acts
    inferInstanceAs (Decidable (_ ∧ ∀ t ∈ reindexStep env s a, LiveThroughout env v t acts))

theorem chunksOf_live_run {v : Nat} {acts : List ReindexAct}
    (hrun : Reaches (restrict sparesServed (reindexStep env)) s acts t)
    (hlive : LiveThroughout env v s acts) : t.collection.chunksOf v = s.collection.chunksOf v := by
  induction acts generalizing s with
  | nil => rw [reaches_nil.mp hrun]
  | cons a acts ih =>
    obtain ⟨m, hm, hrest⟩ := reaches_cons.mp hrun
    have hnext := hlive.2 m (restrict_eq_some.mp hm).2
    rw [ih hrest hnext, chunksOf_live_step hm hlive.1]

/-- Whatever build is live when a run ends has the chunks it had at any moment of the run
since which it has been live: at its promotion, or at the start. -/
def ServedIntact (env : ReindexEnv) (s : ReindexState) (acts : List ReindexAct) : Prop :=
  ∀ pre post m t v, acts = pre ++ post → Reaches (reindexStep env) s pre m →
    Reaches (reindexStep env) m post t → LiveThroughout env v m post →
    t.collection.chunksOf v = m.collection.chunksOf v

theorem servedIntact_of_spares {acts : List ReindexAct}
    (hrun : Reaches (restrict sparesServed (reindexStep env)) s acts t) :
    ServedIntact env s acts := by
  rintro pre post m u v rfl hpre hpost hlive
  obtain ⟨m', hpre', hpost'⟩ := reaches_append.mp hrun
  cases hpre'.of_restrict.unique hpre
  cases hpost'.of_restrict.unique hpost
  exact chunksOf_live_run hpost' hlive

/-- The live build, where there is one, has a chunk. -/
def LiveStocked (c : Collection) : Prop := ∀ v ∈ c.liveVersion, c.chunksOf v ≠ []

theorem liveStocked_step (h : restrict sparesServed (reindexStep env) s a = some t)
    (hs : LiveStocked s.collection) : LiveStocked t.collection := by
  have hsame : t.collection.liveVersion = s.collection.liveVersion → LiveStocked t.collection := by
    intro hlive v hv
    have hv : s.collection.liveVersion = some v := hlive.symm.trans hv
    rw [chunksOf_live_step h hv]
    exact hs v hv
  cases reindexStep_move (restrict_eq_some.mp h).2 with
  | request lib => exact hsame rfl
  | moves e p hp => exact hsame rfl
  | opens e runId previous he => exact hsame (Collection.liveVersion_begin _ e runId)
  | writes e w rows p ha he hp hrows => exact hsame rfl
  | promotes e w count now c he hc =>
    intro v hv
    obtain ⟨-, hchunks, hne⟩ := Collection.promote_builds hc
    have hv : c.liveVersion = some v := hv
    rw [Collection.liveVersion_promote hc, Option.ite_none_right_eq_some] at hv
    obtain ⟨-, hv⟩ := hv
    cases hv
    rw [act_collection, Collection.chunksOf, hchunks]
    exact hne
  | reaps e w he => exact hsame (Collection.liveVersion_reap _)
  | fails e w error valueError he => exact hsame (Collection.liveVersion_fail _ w error)

/-- To fail the live build is to lose what is served. -/
theorem not_live_of_intact {acts : List ReindexAct} {e v : Nat} {u : ReindexState}
    (hstocked : LiveStocked t.collection) (hrun : Reaches (reindexStep env) s acts t)
    (hfail : reindexStep env t (.fail e) = some u)
    (hintact : ServedIntact env s (acts ++ [.fail e])) (hv : (t.execs e).version = some v) :
    t.collection.liveVersion ≠ some v := by
  intro hlive
  have hlast : Reaches (reindexStep env) t [.fail e] u := reaches_cons.mpr ⟨u, hfail, .nil _ u⟩
  obtain ⟨w, error, valueError, he, rfl⟩ := fail_caught hfail
  rw [he] at hv
  cases hv
  have hthroughout : LiveThroughout env v t [.fail e] := by
    refine ⟨hlive, ?_⟩
    intro t' ht'
    cases Option.some.inj (hfail.symm.trans ht')
    exact (Collection.liveVersion_fail _ v error).trans hlive
  have hkept := hintact acts [.fail e] t _ v rfl hrun hlast hthroughout
  rw [act_collection, Collection.chunksOf_fail_self] at hkept
  exact hstocked v hlive hkept.symm

/-- However executions overlap and wherever they raise, the build that is live when a run
ends is as it was when it became live, and as it was at the start where it was live then.
A failure keeps it so exactly where the build it fails is not the live one. -/
theorem failed_reindex_leaves_served_build {lib : Library} {earlier acts : List ReindexAct}
    (hearlier : Reaches (restrict sparesServed (reindexStep env)) (.init lib) earlier s)
    (hrun : Reaches (restrict sparesServed (reindexStep env)) s acts t) :
    ServedIntact env s acts ∧ ∀ e u, reindexStep env t (.fail e) = some u →
      (ServedIntact env s (acts ++ [.fail e]) ↔ ∀ v ∈ (t.execs e).version,
        t.collection.liveVersion ≠ some v) := by
  refine ⟨servedIntact_of_spares hrun, ?_⟩
  intro e u hfail
  constructor
  · intro hintact
    have hempty : LiveStocked (ReindexState.init lib).collection := by
      intro v hv
      cases hv
    have hstocked : LiveStocked t.collection := by
      refine (reaches_append.mpr ⟨s, hearlier, hrun⟩).invariant
        (P := fun s => LiveStocked s.collection) ?_ hempty
      intro s a t hs h
      exact liveStocked_step h hs
    intro v hv
    exact not_live_of_intact hstocked hrun.of_restrict hfail hintact hv
  · intro hspares
    have hfail : restrict sparesServed (reindexStep env) t (.fail e) = some u := by
      refine restrict_eq_some.mpr ⟨?_, hfail⟩
      rintro _ ⟨⟩
      exact hspares
    exact servedIntact_of_spares (reaches_snoc.mpr ⟨t, hrun, hfail⟩)

def firstReindex : List ReindexAct := upToPromote 0 ++ [.promote 0 1, .reap 0, .finish 0]

/-- The only document is withdrawn, so the next build is empty and its promotion is
refused. -/
def refusedReindex : List ReindexAct := [.delete 1 5] ++ upToPromote 1 ++ [.promote 1 6]

theorem firstReindex_run : (firstReindex.foldlM (restrict sparesServed (reindexStep helloEnv))
    (.init helloLibrary)).isSome = true := by decide +kernel

/-- The first build has been promoted and nothing runs. -/
def afterFirst : ReindexState :=
  (firstReindex.foldlM (restrict sparesServed (reindexStep helloEnv)) (.init helloLibrary)).get
    firstReindex_run

theorem refusedReindex_run :
    (refusedReindex.foldlM (restrict sparesServed (reindexStep helloEnv)) afterFirst).isSome =
      true := by
  decide +kernel

/-- The second build is about to be failed. -/
def refused : ReindexState :=
  (refusedReindex.foldlM (restrict sparesServed (reindexStep helloEnv)) afterFirst).get
    refusedReindex_run

theorem refused_fail_run : (reindexStep helloEnv refused (.fail 1)).isSome = true := by
  decide +kernel

theorem failed_reindex_leaves_served_build_unpromoted :
    ∃ s t u, Reaches (restrict sparesServed (reindexStep helloEnv))
      (.init helloLibrary) firstReindex s ∧
      Reaches (restrict sparesServed (reindexStep helloEnv)) s refusedReindex t ∧
      reindexStep helloEnv t (.fail 1) = some u ∧ u.execs 1 = .ended .unpromoted ∧
      LiveThroughout helloEnv 1 s (refusedReindex ++ [.fail 1]) ∧
      (s.collection.chunksOf 1).length = 1 ∧
      ServedIntact helloEnv s (refusedReindex ++ [.fail 1]) := by
  have hearlier := reaches_get firstReindex_run
  have hrun := reaches_get refusedReindex_run
  have hfail := (Option.some_get refused_fail_run).symm
  have hother : ∀ v ∈ (refused.execs 1).version, refused.collection.liveVersion ≠ some v := by
    decide +kernel
  have hlive : LiveThroughout helloEnv 1 afterFirst (refusedReindex ++ [.fail 1]) := by
    decide +kernel
  exact ⟨_, _, _, hearlier, hrun, hfail, by decide +kernel, hlive, by decide +kernel,
    ((failed_reindex_leaves_served_build hearlier hrun).2 1 _ hfail).mpr hother⟩

/-- The same interrupted execution: it ends by raising, and the build that is live has lost
the chunk it was promoted with. -/
theorem raise_after_promote_deletes_served :
    ∃ m s t, Reaches (reindexStep helloEnv) (.init helloLibrary) (upToPromote 0) m ∧
      reindexStep helloEnv m (.promote 0 1) = some s ∧
      Reaches (reindexStep helloEnv) s raisedAfterPromote t ∧ t.execs 0 = .ended .raised ∧
      LiveThroughout helloEnv 1 s raisedAfterPromote ∧ (s.collection.chunksOf 1).length = 1 ∧
      t.collection.chunksOf 1 = [] ∧ ¬ ServedIntact helloEnv s raisedAfterPromote := by
  have hrun := reaches_get raisedAfterPromote_run
  have hlive : LiveThroughout helloEnv 1 firstServed raisedAfterPromote := by decide +kernel
  refine ⟨_, _, _, (reaches_get beforePromote_run).of_restrict,
    (restrict_eq_some.mp firstPromote_step).2,
    hrun, by decide +kernel, hlive, by decide +kernel, by decide +kernel, ?_⟩
  intro hintact
  have hkept := hintact [] raisedAfterPromote _ _ 1 rfl (.nil _ firstServed) hrun hlive
  revert hkept
  decide +kernel

end AgenticPlatform.Workloads
