import AgenticPlatform.Workloads.Reindex

/-!
# Numbers of builds

The next number is one above the greatest row, chunks name their build by its number
alone, and a reap enumerates the rows. A reap that deletes the row of a build in progress
therefore frees a number that is still written to, and what is written to it afterwards
belongs to no row that a later reap enumerates.
-/
namespace AgenticPlatform.Workloads
open AgenticPlatform.Foundation AgenticPlatform.Identity AgenticPlatform.Corpus

variable {env : ReindexEnv} {s t : ReindexState} {a : ReindexAct}

/-! ## A number has one execution -/

/-- No reap deletes the row of a build whose execution is still in progress. -/
def sparesInProgress (s : ReindexState) : ReindexAct → Prop
  | .reap _ => ∀ b ∈ s.collection.builds.rows, (s.execs b.openedBy).version = some b.buildVersion →
      s.collection.Spares b.buildVersion
  | _ => True

instance (s : ReindexState) : (a : ReindexAct) → Decidable (sparesInProgress s a)
  | .reap _ => inferInstanceAs
    (Decidable (∀ b ∈ s.collection.builds.rows, _ → s.collection.Spares b.buildVersion))
  | .create .. | .delete .. | .start _ | .begin .. | .copy _ | .select _ | .prepare _ | .ingest .. |
    .promote ..
  | .finish _ | .raise .. | .fail _ | .crash _ => isTrue trivial

/-- Every build in progress has its row under its own execution, and every chunk was
written by the execution that opened its build. -/
structure OwnerInv (s : ReindexState) : Prop where
  held : ∀ e v, (s.execs e).version = some v → s.collection.opener v = some e
  written : ∀ r ∈ s.collection.chunks.rows, s.collection.opener r.buildVersion = some r.writtenBy

theorem ownerInv_init (lib : Library) : OwnerInv (.init lib) where
  held := by
    intro e v h
    cases h
  written := by
    intro r hr
    cases hr

theorem opener_some {c : Collection} {v e : Nat} (h : c.opener v = some e) :
    ∃ b ∈ c.builds.rows, b.buildVersion = v ∧ b.openedBy = e := by
  obtain ⟨b, hb, rfl⟩ := Option.map_eq_some_iff.mp h
  obtain ⟨hmem, hv⟩ := Table.get_eq_some.mp hb
  exact ⟨b, hmem, hv, rfl⟩

theorem mem_keys_of_opener {c : Collection} {v e : Nat} (h : c.opener v = some e) :
    v ∈ c.builds.keys := by
  obtain ⟨b, hb, rfl, -⟩ := opener_some h
  exact Table.key_mem_keys hb

/-- The phase of the execution that moves, or that of another one. -/
theorem version_act {c : Collection} {e e' v : Nat} {p : Phase}
    (h : ((s.act e c p).execs e').version = some v) :
    (e' = e ∧ p.version = some v) ∨ (e' ≠ e ∧ (s.execs e').version = some v) := by
  by_cases he : e' = e
  · subst he
    exact Or.inl ⟨rfl, by simpa [ReindexState.act] using h⟩
  · exact Or.inr ⟨he, by simpa [ReindexState.act, he] using h⟩

/-- An execution moves on with its own build, or with none. -/
theorem held_act (h : OwnerInv s) {c : Collection} {e : Nat} {p : Phase}
    (hp : p.version = (s.execs e).version ∨ p.version = none)
    (hopener : ∀ e' v, (s.execs e').version = some v → c.opener v = s.collection.opener v) :
    ∀ e' v, ((s.act e c p).execs e').version = some v → c.opener v = some e' := by
  intro e' v hv
  have hold : (s.execs e').version = some v := by
    rcases version_act hv with ⟨rfl, hmoved⟩ | ⟨-, hother⟩
    · rcases hp with hp | hp
      · exact hp.symm.trans hmoved
      · rw [hp] at hmoved
        cases hmoved
    · exact hother
  exact (hopener e' v hold).trans (h.held e' v hold)

theorem ownerInv_opens (h : OwnerInv s) (e : Nat) (runId : Option Uuid) (previous : Option Nat) :
    OwnerInv (s.act e (s.collection.begin e runId).1
      (.opened previous (s.collection.maxVersion + 1))) := by
  have hkept : ∀ v e', s.collection.opener v = some e' →
      (s.collection.begin e runId).1.opener v = some e' := by
    intro v e' hopener
    rw [Collection.opener_begin, if_neg]
    · exact hopener
    · rintro rfl
      exact s.collection.succ_maxVersion_fresh (mem_keys_of_opener hopener)
  constructor
  · intro e' v hv
    rcases version_act hv with ⟨rfl, hopened⟩ | ⟨-, hother⟩
    · cases hopened
      exact (Collection.opener_begin _ _ _ _).trans (if_pos rfl)
    · exact hkept v e' (h.held e' v hother)
  · intro r hr
    exact hkept _ _ (h.written r hr)

theorem ownerInv_writes (h : OwnerInv s) {e v : Nat} {rows : List ChunkRow} {p : Phase}
    (he : (s.execs e).version = some v) (hp : p.version = some v)
    (hrows : ∀ r ∈ rows, r.buildVersion = v ∧ r.writtenBy = e) :
    OwnerInv (s.act e (writeChunks s.collection rows) p) := by
  constructor
  · exact held_act h (Or.inl (hp.trans he.symm)) (fun _ _ _ => rfl)
  · intro r hr
    rcases Table.mem_of_insertMissing hr with hr | hr
    · exact h.written r hr
    · obtain ⟨rfl, rfl⟩ := hrows r hr
      exact h.held _ _ he

theorem ownerInv_reaps (h : OwnerInv s) {e v : Nat} (he : s.execs e = .promoted v)
    (hcond : sparesInProgress s (.reap e)) :
    OwnerInv (s.act e s.collection.reap.1 (.reaped v)) := by
  constructor
  · refine held_act h (Or.inl (by rw [he]; rfl)) ?_
    intro e' w hw
    obtain ⟨b, hb, rfl, rfl⟩ := opener_some (h.held e' w hw)
    rw [Collection.opener_reap, if_pos (hcond b hb hw)]
  · intro r hr
    obtain ⟨hr, hspared⟩ := Collection.mem_chunks_reap.mp hr
    have hopener := h.written r hr
    have hspared := hspared.resolve_right (fun hgone => hgone (mem_keys_of_opener hopener))
    exact (Collection.opener_reap _ _).trans ((if_pos hspared).trans hopener)

theorem ownerInv_step (h : restrict sparesInProgress (reindexStep env) s a = some t)
    (hs : OwnerInv s) : OwnerInv t := by
  obtain ⟨hcond, hstep⟩ := restrict_eq_some.mp h
  cases reindexStep_move hstep with
  | request lib => exact ⟨hs.held, hs.written⟩
  | moves e p hp => exact ⟨held_act hs hp (fun _ _ _ => rfl), hs.written⟩
  | opens e runId previous he => exact ownerInv_opens hs e runId previous
  | writes e v rows p ha he hp hrows => exact ownerInv_writes hs he hp hrows
  | promotes e v count now c he hc =>
    constructor
    · exact held_act hs (Or.inl (by rw [he]; rfl)) (fun _ w _ => Collection.opener_promote hc w)
    · intro r hr
      have hr : r ∈ c.chunks.rows := hr
      rw [(Collection.promote_builds hc).2.1] at hr
      exact (Collection.opener_promote hc _).trans (hs.written r hr)
  | reaps e v he => exact ownerInv_reaps hs he hcond
  | fails e v error valueError he =>
    constructor
    · exact held_act hs (Or.inr rfl) (fun _ w _ => Collection.opener_fail _ v error w)
    · intro r hr
      exact (Collection.opener_fail _ v error _).trans
        (hs.written r (Collection.mem_chunks_fail.mp hr).1)

/-- No number is held by two executions in progress, and the chunks of every build were
written by the execution that opened it. -/
theorem build_versions_not_shared {lib : Library} {acts : List ReindexAct}
    (hrun : Reaches (restrict sparesInProgress (reindexStep env)) (.init lib) acts s) :
    (∀ e e' v, (s.execs e).version = some v → (s.execs e').version = some v → e = e') ∧
      ∀ b ∈ s.collection.builds.rows, ∀ r ∈ s.collection.chunksOf b.buildVersion,
      r.writtenBy = b.openedBy := by
  have hinv : OwnerInv s :=
    hrun.invariant (fun _ _ _ hs h => ownerInv_step h hs) (ownerInv_init lib)
  constructor
  · intro e e' v he he'
    exact Option.some.inj ((hinv.held e v he).symm.trans (hinv.held e' v he'))
  · intro b hb r hr
    obtain ⟨hr, hv⟩ := Collection.mem_chunksOf.mp hr
    obtain ⟨b', hb', hv', hopener⟩ := opener_some (hinv.written r hr)
    rw [← hopener, Table.eq_of_key hb' hb (hv'.trans hv)]

/-- Two builds in progress at once; the second one waits for the reap of the first. -/
def takingTurns : List ReindexAct :=
  upToPromote 0 ++ [.promote 0 1, .start 1, .reap 0, .finish 0, .begin 1 none, .copy 1, .crash 1] ++
    upToPromote 2 ++ [.promote 2 2, .reap 2]

theorem takingTurns_run : (takingTurns.foldlM (restrict sparesInProgress (reindexStep helloEnv))
    (.init helloLibrary)).isSome = true := by decide +kernel

theorem build_versions_not_shared_takingTurns :
    ∃ s, Reaches (restrict sparesInProgress (reindexStep helloEnv))
      (.init helloLibrary) takingTurns s ∧
      (s.execs 2).version = some 3 ∧ s.collection.builds.keys = [1, 3] ∧
      ∀ b ∈ s.collection.builds.rows, ∀ r ∈ s.collection.chunksOf b.buildVersion,
      r.writtenBy = b.openedBy := by
  have hrun := reaches_get takingTurns_run
  exact ⟨_, hrun, by decide +kernel, by decide +kernel, (build_versions_not_shared hrun).2⟩

/-- The reap of the first execution deletes the row of the second one, and the third one
is given its number. -/
def freedNumber : List ReindexAct :=
  upToPromote 0 ++
    [.start 1, .begin 1 none, .promote 0 1, .reap 0, .finish 0, .start 2, .begin 2 none]

/-- Both write to it, and the third one promotes it. -/
def sharedBuild : List ReindexAct :=
  [.copy 1, .select 1, .prepare 1, .ingest 1 helloEmbed, .copy 2, .select 2, .prepare 2,
    .ingest 2 helloEmbed, .promote 2 2]

theorem freedNumber_run :
    (freedNumber.foldlM (reindexStep helloEnv) (.init helloLibrary)).isSome = true := by
  decide +kernel

theorem sharedBuild_run :
    (sharedBuild.foldlM (reindexStep helloEnv)
      ((freedNumber.foldlM (reindexStep helloEnv) (.init helloLibrary)).get
        freedNumber_run)).isSome =
      true := by
  decide +kernel

/-- Two executions in progress hold one number, and the chunk of the promoted build was
written by the one that did not open it. -/
theorem reaped_number_shared : ∃ s t,
    Reaches (reindexStep helloEnv) (.init helloLibrary) freedNumber s ∧
    (s.execs 1).version = some 2 ∧ (s.execs 2).version = some 2 ∧
    Reaches (reindexStep helloEnv) s sharedBuild t ∧
    ∃ b ∈ t.collection.builds.rows, b.status = .live ∧ b.openedBy = 2 ∧
      ∃ r ∈ t.collection.chunksOf b.buildVersion, r.writtenBy = 1 := by
  exact ⟨_, _, reaches_get
    freedNumber_run, by decide +kernel, by decide +kernel, reaches_get sharedBuild_run,
    by decide +kernel⟩

/-! ## Two builds after a reap -/

/-- Chunks are written only while the row of their build is there. -/
def writesKnown (s : ReindexState) (a : ReindexAct) : Prop :=
  ∀ e ∈ a.writer, ∀ v ∈ (s.execs e).version, v ∈ s.collection.builds.keys

instance (s : ReindexState) (a : ReindexAct) : Decidable (writesKnown s a) :=
  inferInstanceAs (Decidable (∀ e ∈ a.writer, _))

theorem chunksKnown_step (h : restrict writesKnown (reindexStep env) s a = some t)
    (hs : s.collection.ChunksKnown) : t.collection.ChunksKnown := by
  obtain ⟨hcond, hstep⟩ := restrict_eq_some.mp h
  cases reindexStep_move hstep with
  | request lib => exact hs
  | moves e p hp => exact hs
  | opens e runId previous he => exact hs.begin e runId
  | writes e v rows p ha he hp hrows =>
    refine chunksKnown_writeChunks hs ?_
    intro r hr
    rw [(hrows r hr).1]
    exact hcond e ha v he
  | promotes e v count now c he hc => exact hs.promote hc
  | reaps e v he => exact hs.reap
  | fails e v error valueError he => exact hs.fail v error

/-- After a reap that found a live build, every chunk belongs to it or to its predecessor,
and the chunks of these two are the ones that were there before. -/
theorem two_builds_after_reap {lib : Library} {acts : List ReindexAct} {e live : Nat}
    (hrun : Reaches (restrict writesKnown (reindexStep env)) (.init lib) acts s)
    (hlive : s.collection.liveVersion = some live) (hreap : reindexStep env s (.reap e) = some t) :
    (∀ r ∈ t.collection.chunks.rows,
      r.buildVersion = live ∨ s.collection.Predecessor live r.buildVersion) ∧
      ∀ v, v = live ∨ s.collection.Predecessor live v →
      t.collection.chunksOf v = s.collection.chunksOf v := by
  have hknown : s.collection.ChunksKnown := by
    refine hrun.invariant (P := fun s => s.collection.ChunksKnown) ?_ ?_
    · intro s a t hs h
      exact chunksKnown_step h hs
    · intro r hr
      cases hr
  have hspares : ∀ v, s.collection.Spares v ↔ v = live ∨ s.collection.Predecessor live v := by
    intro v
    rw [Collection.spares_iff hlive, Collection.mem_keep hlive]
  have ht : t.collection = s.collection.reap.1 := by
    simp only [reindexStep] at hreap
    split at hreap
    · cases hreap
      rfl
    · cases hreap
  rw [ht]
  constructor
  · intro r hr
    obtain ⟨hr, hspared⟩ := Collection.mem_chunks_reap.mp hr
    exact (hspares _).mp (hspared.resolve_right (fun hgone => hgone (hknown r hr)))
  · intro v hv
    exact Collection.chunksOf_reap _ ((hspares v).mpr hv)

/-- Three builds one after the other, and an execution that crashed between them. -/
def beforeThirdReap : List ReindexAct :=
  upToPromote 0 ++ [.promote 0 1, .reap 0, .finish 0, .start 1, .begin 1 none, .copy 1, .crash 1] ++
    upToPromote 2 ++ [.promote 2 2, .reap 2, .finish 2] ++ upToPromote 3 ++ [.promote 3 3]

theorem beforeThirdReap_run : (beforeThirdReap.foldlM (restrict writesKnown (reindexStep helloEnv))
    (.init helloLibrary)).isSome = true := by decide +kernel

theorem thirdReap_run :
    (reindexStep helloEnv ((beforeThirdReap.foldlM (restrict writesKnown (reindexStep helloEnv))
      (.init helloLibrary)).get beforeThirdReap_run) (.reap 3)).isSome = true := by
  decide +kernel

theorem two_builds_after_reap_third :
    ∃ s t, Reaches (restrict writesKnown (reindexStep helloEnv))
      (.init helloLibrary) beforeThirdReap s ∧
      s.collection.liveVersion = some 4 ∧ reindexStep helloEnv s (.reap 3) = some t ∧
      s.collection.chunks.rows.map ChunkRow.buildVersion = [1, 3, 4] ∧
      ∀ r ∈ t.collection.chunks.rows, r.buildVersion = 4 ∨
      s.collection.Predecessor 4 r.buildVersion := by
  have hrun := reaches_get beforeThirdReap_run
  have hreap := (Option.some_get thirdReap_run).symm
  exact ⟨_, _, hrun, by decide +kernel, hreap, by decide +kernel,
    (two_builds_after_reap hrun (by decide +kernel) hreap).1⟩

/-- The row of the first build is reaped while its execution waits for the embedding
service; it writes its chunk, crashes, and the third build replaces the second. -/
def lateWriter : List ReindexAct :=
  (upToPromote 0).take 5 ++ upToPromote 1 ++
    [.promote 1 1, .reap 1, .finish 1, .ingest 0 helloEmbed, .crash 0] ++
    upToPromote 2 ++ [.promote 2 2]

theorem lateWriter_run :
    (lateWriter.foldlM (reindexStep helloEnv) (.init helloLibrary)).isSome = true := by
  decide +kernel

theorem lateReap_run : (reindexStep helloEnv ((lateWriter.foldlM (reindexStep helloEnv)
    (.init helloLibrary)).get lateWriter_run) (.reap 2)).isSome = true := by decide +kernel

/-- After the reap of the only execution in progress the chunks carry three numbers. -/
theorem late_writer_leaves_third_build :
    ∃ s t, Reaches (reindexStep helloEnv) (.init helloLibrary) lateWriter s ∧
      (∀ e, e ≠ 2 → (s.execs e).version = none) ∧ s.collection.liveVersion = some 3 ∧
      reindexStep helloEnv s (.reap 2) = some t ∧
      t.collection.chunks.rows.map ChunkRow.buildVersion = [2, 1, 3] ∧
      ¬ s.collection.Predecessor 3 1 := by
  refine ⟨_, _, reaches_get lateWriter_run,
    ?_, by decide +kernel, (Option.some_get lateReap_run).symm,
    by decide +kernel, ?_⟩
  · intro e he
    match e, he with
    | 0, _ => decide +kernel
    | 1, _ => decide +kernel
    | 2, he => exact absurd rfl he
    | n + 3, _ => rfl
  · rw [← Collection.mem_keep (by decide +kernel)]
    decide +kernel

end AgenticPlatform.Workloads
