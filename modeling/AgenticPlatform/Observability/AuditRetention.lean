import AgenticPlatform.Observability.AuditDigest

/-!
# Audit retention

A pass that runs alone finds every event its loop query saw, so each chain survives it.
Passes that overlap do not: a slow pass writes an anchor for rows that another has
deleted meanwhile. What saves an overlap is that each pass still finds the rows its
query counted.
-/
namespace AgenticPlatform.Observability
open AgenticPlatform.Foundation AgenticPlatform.Identity AgenticPlatform.Db

/-! ## The loop query -/

theorem mem_candidates {events : List AuditRow} {cutoff : Time} {batch : Nat} {tenant : Uuid}
    {e : AuditRow} (h : e ∈ candidates events cutoff batch tenant) :
    e ∈ rowsOf events tenant ∧ e.recordedAt < cutoff := by
  obtain ⟨hrows, hold⟩ := List.mem_filter.mp (List.mem_of_mem_take h)
  exact ⟨(List.mem_insertionSort _).mp hrows, of_decide_eq_true hold⟩

/-- A boundary is the last candidate of its tenant. -/
theorem mem_boundaries {events : List AuditRow} {cutoff : Time} {batch : Nat} {b : Boundary}
    (h : b ∈ boundaries events cutoff batch) :
    ∃ e, (candidates events cutoff batch b.tenantId).getLast? = some e ∧
      b.id = e.id ∧ b.hash = e.hash ∧
      b.counted = (candidates events cutoff batch b.tenantId).map AuditRow.id := by
  obtain ⟨tenant, -, hb⟩ := List.mem_filterMap.mp h
  obtain ⟨e, he, rfl⟩ := Option.map_eq_some_iff.mp hb
  exact ⟨e, he, rfl, rfl, rfl⟩

theorem boundary_event {events : List AuditRow} {cutoff : Time} {batch : Nat} {b : Boundary}
    (h : b ∈ boundaries events cutoff batch) :
    ∃ e ∈ rowsOf events b.tenantId, e.id = b.id ∧ e.hash = b.hash := by
  obtain ⟨e, he, hid, hhash, -⟩ := mem_boundaries h
  exact ⟨e, (mem_candidates (List.mem_of_getLast? he)).1, hid.symm, hhash.symm⟩

theorem present_of_mem {events : List AuditRow} {b : Boundary} {e : AuditRow}
    (he : e ∈ rowsOf events b.tenantId) (hid : e.id = b.id) (hhash : e.hash = b.hash) :
    present events b = true := by
  obtain ⟨hmem, htenant⟩ := List.mem_filter.mp he
  apply List.any_eq_true.mpr
  exact ⟨e, hmem, by simp [of_decide_eq_true htenant, hid, hhash]⟩

theorem present_append {events : List AuditRow} {b : Boundary} (more : List AuditRow)
    (h : present events b = true) : present (events ++ more) b = true := by
  rw [present, List.any_append, Bool.or_eq_true]
  exact Or.inl h

/-! ## One pass at a time -/

/-- A pass starts when no other is under way. -/
def onePassAtATime (s : AuditState) : AuditAct → Prop
  | .startPass _ _ _ => s.running = []
  | _ => True

instance (s : AuditState) (a : AuditAct) : Decidable (onePassAtATime s a) := by
  cases a <;> unfold onePassAtATime <;> infer_instance

/-- The pass under way is the only one, and the events of its boundaries are there. -/
structure PassAlone (s : AuditState) : Prop where
  running : ∀ p todo done, s.passes p = .looping todo done → s.running = [p]
  present : ∀ p todo done, s.passes p = .looping todo done → ∀ b ∈ todo, present s.events b = true

theorem passAlone_initial : PassAlone .initial where
  running := by
    intro p todo done h
    cases h
  present := by
    intro p todo done h
    cases h

/-- A step that takes no event away and starts no pass. -/
theorem passAlone_frame {s t : AuditState} (h : PassAlone s) (hrunning : t.running = s.running)
    (hpasses : ∀ p todo done, t.passes p = .looping todo done →
      ∃ todo' done', s.passes p = .looping todo' done' ∧ ∀ b ∈ todo, b ∈ todo')
    (hevents : ∀ b, present s.events b = true → present t.events b = true) : PassAlone t where
  running := by
    intro p todo done hp
    obtain ⟨todo', done', hp', -⟩ := hpasses p todo done hp
    rw [hrunning]
    exact h.running p todo' done' hp'
  present := by
    intro p todo done hp b hb
    obtain ⟨todo', done', hp', hmem⟩ := hpasses p todo done hp
    exact hevents b (h.present p todo' done' hp' b (hmem b hb))

/-- A step of a transaction. -/
theorem passAlone_txn {s t : AuditState} (h : PassAlone s) (hpasses : t.passes = s.passes)
    (hrunning : t.running = s.running)
    (hevents : ∀ b, present s.events b = true → present t.events b = true) : PassAlone t := by
  apply passAlone_frame h hrunning _ hevents
  intro p todo done hp
  rw [hpasses] at hp
  exact ⟨todo, done, hp, fun b hb => hb⟩

theorem passAlone_start {s : AuditState} (h : PassAlone s) (hidle : s.running = []) (p : Nat)
    (cutoff : Time) (batch : Nat) : PassAlone { s with
      passes := Function.update s.passes p (.looping (boundaries s.events cutoff batch) [])
      running := p :: s.running } := by
  have hfirst : ∀ q todo done,
      Function.update s.passes p (.looping (boundaries s.events cutoff batch) []) q =
      .looping todo done →
      q = p ∧ todo = boundaries s.events cutoff batch := by
    intro q todo done hq
    rcases update_cases hq with ⟨he, hx⟩ | ⟨-, hq⟩
    · cases hx
      exact ⟨he, rfl⟩
    · have hrunning := h.running q todo done hq
      rw [hidle] at hrunning
      cases hrunning
  constructor
  · intro q todo done hq
    rw [(hfirst q todo done hq).1]
    show p :: s.running = [p]
    rw [hidle]
  · intro q todo done hq b hb
    rw [(hfirst q todo done hq).2] at hb
    obtain ⟨e, he, hid, hhash⟩ := boundary_event hb
    exact present_of_mem he hid hhash

/-- The end of a pass: no other is under way. -/
theorem passAlone_end {s t : AuditState} {p : Nat} {todo : List Boundary}
    {done : List (Boundary × List Nat)} {removed : Option Nat} (h : PassAlone s)
    (hp : s.passes p = .looping todo done)
    (hpasses : t.passes = Function.update s.passes p (.ended removed)) : PassAlone t := by
  have hnone : ∀ q todo' done', t.passes q ≠ .looping todo' done' := by
    intro q todo' done' hq
    rw [hpasses] at hq
    rcases update_cases hq with ⟨-, hx⟩ | ⟨hne, hq⟩
    · cases hx
    · have hsame := (h.running p todo done hp).symm.trans (h.running q todo' done' hq)
      exact hne (List.head_eq_of_cons_eq hsame).symm
  exact ⟨fun q todo' done' hq => absurd hq (hnone q todo' done'),
    fun q todo' done' hq => absurd hq (hnone q todo' done')⟩

theorem passAlone_step {env : AuditEnv} {s t : AuditState} {a : AuditAct} (h : PassAlone s)
    (ha : onePassAtATime s a) (hstep : auditStep env s a = some t) : PassAlone t := by
  cases auditStep_move hstep with
  | begin n tenant now hn ht =>
    subst ht
    exact passAlone_txn h rfl rfl (fun _ hb => hb)
  | lock n tenant now pending prev hn hfree ht =>
    subst ht
    exact passAlone_txn h rfl rfl (fun _ hb => hb)
  | readPrev n tenant now pending prev hn hlock ht =>
    subst ht
    exact passAlone_txn h rfl rfl (fun _ hb => hb)
  | insert n q tenant now pending prev hn ht =>
    subst ht
    exact passAlone_txn h rfl rfl (fun _ hb => hb)
  | commit n tenant now pending prev hn ht =>
    subst ht
    exact passAlone_txn h rfl rfl (fun _ hb => present_append pending hb)
  | rollback n ht =>
    subst ht
    exact passAlone_txn h rfl rfl (fun _ hb => hb)
  | startPass p cutoff batch hp ht =>
    subst ht
    exact passAlone_start h ha p cutoff batch
  | refusePass p cutoff batch hp ht =>
    subst ht
    refine passAlone_frame h rfl ?_ (fun _ hb => hb)
    intro q todo done hq
    rcases update_cases hq with ⟨-, hx⟩ | ⟨-, hq⟩
    · cases hx
    · exact ⟨todo, done, hq, fun b hb => hb⟩
  | anchor p b todo done hp hfree ht =>
    subst ht
    refine passAlone_frame h rfl ?_ (fun _ hb => hb)
    intro q todo' done' hq
    rcases update_cases hq with ⟨he, hx⟩ | ⟨-, hq⟩
    · cases hx
      rw [he]
      exact ⟨_, _, hp, fun b' hb' => List.mem_cons_of_mem b hb'⟩
    · exact ⟨todo', done', hq, fun b' hb' => hb'⟩
  | commitPass p done removed hp ht =>
    refine passAlone_end h hp (?_ : t.passes = Function.update s.passes p (.ended removed))
    rw [ht]
    show Function.update (done.foldl AuditState.applyBoundary s).passes p _ = _
    rw [applyBoundaries_passes_eq]
  | abortPass p todo done hp ht =>
    refine passAlone_end h hp (?_ : t.passes = Function.update s.passes p (.ended none))
    rw [ht]
    rfl

theorem anchorsPresent_of_alone {s : AuditState} (h : PassAlone s) (a : AuditAct) :
    anchorsPresent s a := by
  cases a with
  | anchor p =>
    simp only [anchorsPresent]
    split
    · rename_i b todo done hp
      exact h.present p _ _ hp b List.mem_cons_self
    · trivial
  | _ => trivial

/-- Appends of any number of transactions, each of which may begin long before it has the
lock and may roll back, with retention passes one after the other: every chain verifies
in every state. -/
theorem chains_intact_one_pass_at_a_time {env : AuditEnv} {acts : List AuditAct} {s : AuditState}
    (h : Reaches (restrict onePassAtATime (auditStep env)) .initial acts s) (tenant : Uuid) :
    (verifyChain env (s.anchors tenant) (auditRows s.events tenant)).intact = true := by
  have hinv : AuditInv env s ∧ PassAlone s := by
    apply Reaches.invariant (P := fun m => AuditInv env m ∧ PassAlone m) _ h
      ⟨auditInv_initial env, passAlone_initial⟩
    intro m a t hm hstep
    obtain ⟨ha, hstep⟩ := restrict_eq_some.mp hstep
    exact ⟨auditInv_step hm.1 (anchorsPresent_of_alone hm.2 a) hstep, passAlone_step hm.2 ha hstep⟩
  exact hinv.1.intact tenant

def loginEvent : AppendRequest := ⟨7, "alice", "login", none, none, .allowed, none, some 5, none⟩

/-- A transaction appends, started later than one that appends after it. Retention begins
while the second is open, then deletes the second event as well, all there is; a third
transaction, next to one that rolls back, then finds only the anchor. -/
def quietRetention : List AuditAct :=
  [.begin 0 1 5, .begin 1 1 9, .lock 1, .readPrev 1, .insert 1 loginEvent, .commit 1, .lock 0,
    .readPrev 0, .startPass 0 10 10, .insert 0 loginEvent, .anchor 0, .commit 0, .commitPass 0,
    .startPass 1 10 1, .anchor 1, .begin 2 1 30, .begin 3 1 31, .lock 3, .readPrev 3,
    .insert 3 loginEvent, .rollback 3, .commitPass 1, .lock 2,
    .readPrev 2, .insert 2 loginEvent, .commit 2]

theorem quietRetention_run :
    (quietRetention.foldlM (restrict onePassAtATime (auditStep plainDigests)) .initial).isSome =
      true := by
  decide +kernel

theorem chains_intact_quietRetention :
    ∃ s, Reaches (restrict onePassAtATime (auditStep plainDigests)) .initial quietRetention s ∧
      s.events.map AuditRow.id = [4] ∧ (s.anchors 1).map Anchor.throughEventId = some 2 ∧
      (verifyChain plainDigests (s.anchors 1) (auditRows s.events 1)).intact = true := by
  have hrun := reaches_get quietRetention_run
  exact ⟨_, hrun, by decide +kernel, by decide +kernel, chains_intact_one_pass_at_a_time hrun 1⟩

/-! ## Passes that overlap -/

/-- At the loop query no event up to a boundary is younger than the cutoff, and at each
upsert every event that the query counted is still in the table. -/
def undisturbed (s : AuditState) : AuditAct → Prop
  | .startPass _ cutoff batch =>
    ∀ b ∈ boundaries s.events cutoff batch, ∀ e ∈ rowsOf s.events b.tenantId, e.id ≤ b.id →
      e.recordedAt < cutoff
  | .anchor p =>
    match s.passes p with
    | .looping (b :: _) _ => ∀ i ∈ b.counted, i ∈ (rowsOf s.events b.tenantId).map AuditRow.id
    | _ => True
  | _ => True

instance (s : AuditState) (a : AuditAct) : Decidable (undisturbed s a) := by
  unfold undisturbed
  split
  · infer_instance
  · split <;> infer_instance
  · infer_instance

/-- What remains true of a boundary while its pass runs: whatever is left of the events up
to it was counted, and nothing comes in below it. -/
structure Current (s : AuditState) (b : Boundary) : Prop where
  counted : b.id ∈ b.counted
  nodup : b.counted.Nodup
  upto : ∀ i ∈ b.counted, i ≤ b.id
  bounded : b.id < s.nextId
  covers : ∀ e ∈ rowsOf s.events b.tenantId, e.id ≤ b.id → e.id ∈ b.counted
  hash : ∀ e ∈ rowsOf s.events b.tenantId, e.id = b.id → e.hash = b.hash
  pending : ∀ n now pending prev, s.txns n = .active b.tenantId now pending prev →
    ∀ e ∈ pending, b.id < e.id

/-- Rows come from the table or an open transaction, and new ones get new ids. -/
theorem current_frame {env : AuditEnv} {s t : AuditState} {b : Boundary} (hinv : AuditInv env s)
    (h : Current s b) (hnext : s.nextId ≤ t.nextId)
    (hevents : ∀ e ∈ t.events, e ∈ s.events ∨
      ∃ n tenant now pending prev, s.txns n = .active tenant now pending prev ∧ e ∈ pending)
    (hpending : ∀ n tenant now pending prev, t.txns n = .active tenant now pending prev →
      ∀ e ∈ pending, s.nextId ≤ e.id ∨
      ∃ now' pending' prev', s.txns n = .active tenant now' pending' prev' ∧ e ∈ pending') :
    Current t b := by
  have hrows : ∀ e ∈ rowsOf t.events b.tenantId, e ∈ rowsOf s.events b.tenantId ∨ b.id < e.id := by
    intro e he
    obtain ⟨hmem, htenant⟩ := List.mem_filter.mp he
    rcases hevents e hmem with hold | ⟨n, tenant, now, pending, prev, hn, hp⟩
    · exact Or.inl (List.mem_filter.mpr ⟨hold, htenant⟩)
    · have hok := hinv.txns n
      rw [hn] at hok
      have hsame : tenant = b.tenantId := (hok.2.1 e hp).symm.trans (of_decide_eq_true htenant)
      subst hsame
      exact Or.inr (h.pending n now pending prev hn e hp)
  constructor
  · exact h.counted
  · exact h.nodup
  · exact h.upto
  · exact Nat.lt_of_lt_of_le h.bounded hnext
  · intro e he hle
    rcases hrows e he with hold | hlt
    · exact h.covers e hold hle
    · omega
  · intro e he hid
    rcases hrows e he with hold | hlt
    · exact h.hash e hold hid
    · omega
  · intro n now pending prev hn e he
    rcases hpending n _ now pending prev hn e he with hnew | ⟨now', pending', prev', hn', he'⟩
    · exact Nat.lt_of_lt_of_le h.bounded hnew
    · exact h.pending n now' pending' prev' hn' e he'

/-- The rows up to the last of a sorted list. -/
theorem upto_last {rows : List AuditRow} {e : AuditRow}
    (hsorted : rows.Pairwise (fun a b => a.id < b.id)) (hlast : rows.getLast? = some e) :
    ∀ f ∈ rows, f.id ≤ e.id := by
  obtain ⟨init, rfl⟩ := List.getLast?_eq_some_iff.mp hlast
  intro f hf
  rcases List.mem_append.mp hf with hf | hf
  · exact Nat.le_of_lt ((List.pairwise_append.mp hsorted).2.2 f hf e (List.mem_singleton_self e))
  · rw [List.mem_singleton.mp hf]

theorem current_start {env : AuditEnv} {s : AuditState} {cutoff : Time} {batch : Nat} {b : Boundary}
    (hinv : AuditInv env s) (hb : b ∈ boundaries s.events cutoff batch)
    (hold : ∀ e ∈ rowsOf s.events b.tenantId, e.id ≤ b.id → e.recordedAt < cutoff) :
    Current s b := by
  obtain ⟨e, he, hid, hhash, hcounted⟩ := mem_boundaries hb
  have hchain := hinv.chains b.tenantId
  have hrows := auditRows_eq hchain.sorted
  have hfilter :
      ((rowsOf s.events b.tenantId).filter (fun f => decide (f.recordedAt < cutoff))).Pairwise
      (fun a b => a.id < b.id) := hchain.sorted.filter _
  have hsorted :
      (candidates s.events cutoff batch b.tenantId).Pairwise (fun a b => a.id < b.id) := by
    rw [candidates, hrows]
    exact hfilter.take
  have hmem := (mem_candidates (List.mem_of_getLast? he)).1
  constructor
  · rw [hcounted, hid]
    exact List.mem_map_of_mem (List.mem_of_getLast? he)
  · rw [hcounted]
    exact (List.pairwise_map.mpr hsorted).imp (fun hlt => Nat.ne_of_lt hlt)
  · rw [hcounted, hid]
    intro i hi
    obtain ⟨f, hf, rfl⟩ := List.mem_map.mp hi
    exact upto_last hsorted he f hf
  · rw [hid]
    exact hchain.bounded e hmem
  · intro f hf hle
    rw [hcounted]
    apply List.mem_map_of_mem
    have hcandidate :
        f ∈ (rowsOf s.events b.tenantId).filter (fun f => decide (f.recordedAt < cutoff)) :=
      List.mem_filter.mpr ⟨hf, decide_eq_true (hold f hf hle)⟩
    -- what the batch leaves out comes after its last candidate
    rw [candidates, hrows]
    rw [candidates, hrows] at he
    rw [← List.take_append_drop batch ((rowsOf s.events b.tenantId).filter _)] at hcandidate hfilter
    rcases List.mem_append.mp hcandidate with htake | hdrop
    · exact htake
    · have hlt := (List.pairwise_append.mp hfilter).2.2 e (List.mem_of_getLast? he) f hdrop
      omega
  · intro f hf hsame
    rw [hhash, eq_of_id hchain.sorted hf hmem (hsame.trans hid)]
  · intro n now pending prev hn f hf
    have hok := hinv.txns n
    rw [hn] at hok
    rw [hid]
    exact (List.pairwise_append.mp hok.2.2.1.sorted).2.2 e hmem f hf

/-! ### The counts of the anchors -/

/-- What the commit of a pass makes of the anchor and the deletions of one tenant. -/
theorem applyBoundaries_tenant {done : List (Boundary × List Nat)}
    (hnodup : (done.map (fun d => d.1.tenantId)).Nodup) (s : AuditState) (tenant : Uuid) :
    ((done.foldl AuditState.applyBoundary s).anchors tenant = s.anchors tenant ∧
      (done.foldl AuditState.applyBoundary s).deleted tenant = s.deleted tenant) ∨
      ∃ d ∈ done, d.1.tenantId = tenant ∧
      (done.foldl AuditState.applyBoundary s).anchors tenant =
      some (upsertAnchor (s.anchors tenant) d.1) ∧
      (done.foldl AuditState.applyBoundary s).deleted tenant = s.deleted tenant + d.2.length := by
  induction done generalizing s with
  | nil => exact Or.inl ⟨rfl, rfl⟩
  | cons d done ih =>
    rw [List.map_cons, List.nodup_cons] at hnodup
    by_cases he : tenant = d.1.tenantId
    · subst he
      have hself : (s.applyBoundary d).anchors d.1.tenantId =
          some (upsertAnchor (s.anchors d.1.tenantId) d.1) ∧
          (s.applyBoundary d).deleted d.1.tenantId = s.deleted d.1.tenantId + d.2.length :=
        ⟨Function.update_self _ _ _, Function.update_self _ _ _⟩
      right
      refine ⟨d, List.mem_cons_self, rfl, ?_⟩
      rcases ih hnodup.2 (s.applyBoundary d) with ⟨hanchor, hdeleted⟩ | ⟨d', hd', hsame, -⟩
      · exact ⟨hanchor.trans hself.1, hdeleted.trans hself.2⟩
      · exact absurd (hsame ▸ List.mem_map_of_mem hd') hnodup.1
    · have hother : (s.applyBoundary d).anchors tenant = s.anchors tenant ∧
          (s.applyBoundary d).deleted tenant = s.deleted tenant :=
        ⟨Function.update_of_ne he _ _, Function.update_of_ne he _ _⟩
      rw [← hother.1, ← hother.2]
      rcases ih hnodup.2 (s.applyBoundary d) with hkept | ⟨d', hd', hrest⟩
      · exact Or.inl hkept
      · exact Or.inr ⟨d', List.mem_cons_of_mem d hd', hrest⟩

theorem applyBoundaries_events (done : List (Boundary × List Nat)) (s : AuditState) :
    ∀ e ∈ (done.foldl AuditState.applyBoundary s).events, e ∈ s.events := by
  induction done generalizing s with
  | nil => exact fun e he => he
  | cons d done ih => exact fun e he => (List.mem_filter.mp (ih (s.applyBoundary d) e he)).1

theorem applyBoundaries_txns (done : List (Boundary × List Nat)) (s : AuditState) :
    (done.foldl AuditState.applyBoundary s).txns = s.txns ∧
      (done.foldl AuditState.applyBoundary s).nextId = s.nextId := by
  induction done generalizing s with
  | nil => exact ⟨rfl, rfl⟩
  | cons d done ih => exact ih (s.applyBoundary d)

/-- The anchor of a tenant counts what was deleted. -/
structure CountInv (s : AuditState) : Prop where
  todo : ∀ p todo done, s.passes p = .looping todo done → ∀ b ∈ todo, Current s b
  done : ∀ p todo done, s.passes p = .looping todo done → ∀ d ∈ done, d.2.length = d.1.pos
  counts : ∀ tenant, ((s.anchors tenant).map Anchor.eventsAnchored).getD 0 = s.deleted tenant

theorem countInv_initial : CountInv .initial where
  todo := by
    intro p todo done h
    cases h
  done := by
    intro p todo done h
    cases h
  counts := fun _ => rfl

/-- A step of a transaction: the rows it adds to the table are its own. -/
theorem countInv_txn {env : AuditEnv} {s t : AuditState} {n : Nat} {x : AppendTxn}
    (hinv : AuditInv env s) (h : CountInv s) (hanchors : t.anchors = s.anchors)
    (hdeleted : t.deleted = s.deleted) (hpasses : t.passes = s.passes) (hnext : s.nextId ≤ t.nextId)
    (htxns : t.txns = Function.update s.txns n x)
    (hevents : ∀ e ∈ t.events, e ∈ s.events ∨
      ∃ n tenant now pending prev, s.txns n = .active tenant now pending prev ∧ e ∈ pending)
    (hx : ∀ tenant now pending prev, x = .active tenant now pending prev → ∀ e ∈ pending,
      s.nextId ≤ e.id ∨ ∃ now' pending' prev', s.txns n = .active tenant now' pending' prev' ∧
      e ∈ pending') : CountInv t where
  todo := by
    intro p todo done hp b hb
    rw [hpasses] at hp
    refine current_frame hinv (h.todo p todo done hp b hb) hnext hevents ?_
    intro m tenant now pending prev hm e he
    rw [htxns] at hm
    rcases update_cases hm with ⟨rfl, hsame⟩ | ⟨-, hm⟩
    · exact hx tenant now pending prev hsame e he
    · exact Or.inr ⟨now, pending, prev, hm, he⟩
  done := by
    intro p todo done hp
    rw [hpasses] at hp
    exact h.done p todo done hp
  counts := by
    rw [hanchors, hdeleted]
    exact h.counts

/-- A step of a pass that leaves the tables alone. -/
theorem countInv_pass {env : AuditEnv} {s t : AuditState} {p : Nat} {x : Pass}
    (hinv : AuditInv env s) (h : CountInv s) (hanchors : t.anchors = s.anchors)
    (hdeleted : t.deleted = s.deleted) (hevents : t.events = s.events) (hnext : t.nextId = s.nextId)
    (htxns : t.txns = s.txns) (hpasses : t.passes = Function.update s.passes p x)
    (hx : ∀ todo done, x = .looping todo done → (∀ b ∈ todo, Current s b) ∧
      ∀ d ∈ done, d.2.length = d.1.pos) : CountInv t := by
  have hcurrent : ∀ b, Current s b → Current t b := by
    intro b hb
    refine current_frame hinv hb (Nat.le_of_eq hnext.symm) ?_ ?_
    · rw [hevents]
      exact fun e he => Or.inl he
    · rw [htxns]
      exact fun n tenant now pending prev hn e he => Or.inr ⟨now, pending, prev, hn, he⟩
  constructor
  · intro q todo done hq b hb
    rw [hpasses] at hq
    rcases update_cases hq with ⟨rfl, hsame⟩ | ⟨-, hq⟩
    · exact hcurrent b ((hx todo done hsame).1 b hb)
    · exact hcurrent b (h.todo q todo done hq b hb)
  · intro q todo done hq
    rw [hpasses] at hq
    rcases update_cases hq with ⟨rfl, hsame⟩ | ⟨-, hq⟩
    · exact (hx todo done hsame).2
    · exact h.done q todo done hq
  · rw [hanchors, hdeleted]
    exact h.counts

theorem countInv_commitPass {env : AuditEnv} {s : AuditState} {p : Nat}
    {done : List (Boundary × List Nat)} (hinv : AuditInv env s) (h : CountInv s)
    (hp : s.passes p = .looping [] done) (removed : Option Nat) :
    CountInv ((done.foldl AuditState.applyBoundary s).endPass p removed) := by
  have hpass := hinv.passes p
  rw [hp] at hpass
  have hothers : ∀ q todo' done',
      Function.update (done.foldl AuditState.applyBoundary s).passes p (.ended removed) q =
      .looping todo' done' →
      s.passes q = .looping todo' done' := by
    intro q todo' done' hq
    rcases update_cases hq with ⟨-, hsame⟩ | ⟨-, hq⟩
    · cases hsame
    · rw [applyBoundaries_passes_eq] at hq
      exact hq
  obtain ⟨htxns, hnext⟩ := applyBoundaries_txns done s
  constructor
  · intro q todo' done' hq b hb
    refine current_frame hinv (h.todo q todo' done' (hothers q todo' done' hq) b hb)
      (Nat.le_of_eq hnext.symm) ?_ ?_
    · exact fun e he => Or.inl (applyBoundaries_events done s e he)
    · intro n tenant now pending prev hn e he
      have hn : (done.foldl AuditState.applyBoundary s).txns n = .active tenant now pending prev :=
        hn
      rw [htxns] at hn
      exact Or.inr ⟨now, pending, prev, hn, he⟩
  · exact fun q todo' done' hq => h.done q todo' done' (hothers q todo' done' hq)
  · intro tenant
    show (((done.foldl AuditState.applyBoundary s).anchors tenant).map Anchor.eventsAnchored).getD
      0 =
      (done.foldl AuditState.applyBoundary s).deleted tenant
    rcases applyBoundaries_tenant hpass.2 s tenant with ⟨hanchor, hdeleted⟩ |
      ⟨d, hd, -, hanchor, hdeleted⟩
    · rw [hanchor, hdeleted]
      exact h.counts tenant
    · rw [hanchor, hdeleted, h.done p [] done hp d hd, ← h.counts tenant]
      rfl

/-- The event of a boundary whose counted events are all there. -/
theorem present_of_current {s : AuditState} {b : Boundary} (h : Current s b)
    (hthere : ∀ i ∈ b.counted, i ∈ (rowsOf s.events b.tenantId).map AuditRow.id) :
    present s.events b = true := by
  obtain ⟨e, he, hid⟩ := List.mem_map.mp (hthere b.id h.counted)
  exact present_of_mem he hid (h.hash e he hid)

/-- The rows a pass deletes are then the rows it counted. -/
theorem deletable_length {env : AuditEnv} {s : AuditState} {b : Boundary} (hinv : AuditInv env s)
    (h : Current s b) (hthere : ∀ i ∈ b.counted, i ∈ (rowsOf s.events b.tenantId).map AuditRow.id) :
    (deletable s.events b).length = b.pos := by
  have hsplit : deletable s.events b =
      ((rowsOf s.events b.tenantId).filter (fun e => decide (e.id ≤ b.id))).map AuditRow.id := by
    rw [deletable, rowsOf, List.filter_filter]
    congr 1
    apply List.filter_congr
    intro e _
    rw [Bool.and_comm, ← Bool.decide_and]
  have hnodup : (deletable s.events b).Nodup := by
    rw [hsplit]
    apply List.Pairwise.imp (fun hlt => Nat.ne_of_lt hlt)
    exact List.pairwise_map.mpr ((hinv.chains b.tenantId).sorted.filter _)
  have hmem : ∀ i, i ∈ deletable s.events b ↔ i ∈ b.counted := by
    intro i
    rw [hsplit, List.mem_map]
    constructor
    · rintro ⟨e, he, rfl⟩
      obtain ⟨hrow, hle⟩ := List.mem_filter.mp he
      exact h.covers e hrow (of_decide_eq_true hle)
    · intro hi
      obtain ⟨e, he, rfl⟩ := List.mem_map.mp (hthere i hi)
      exact ⟨e, List.mem_filter.mpr ⟨he, decide_eq_true (h.upto e.id hi)⟩, rfl⟩
  exact ((List.perm_ext_iff_of_nodup hnodup h.nodup).mpr hmem).length_eq

theorem countInv_step {env : AuditEnv} {s t : AuditState} {a : AuditAct} (hinv : AuditInv env s)
    (h : CountInv s) (ha : undisturbed s a) (hstep : auditStep env s a = some t) : CountInv t := by
  cases auditStep_move hstep with
  | begin n tenant now hn ht =>
    subst ht
    refine countInv_txn hinv h rfl rfl rfl (Nat.le_refl _) rfl (fun e he => Or.inl he) ?_
    intro tenant' now' pending' prev' hsame e he
    cases hsame
    cases he
  | lock n tenant now pending prev hn hfree ht =>
    subst ht
    refine countInv_txn (n := n) hinv h rfl rfl rfl (Nat.le_refl _)
      (Function.update_eq_self n s.txns).symm (fun e he => Or.inl he) ?_
    exact fun tenant' now' pending' prev' hsame e he => Or.inr ⟨now', pending', prev', hsame, he⟩
  | readPrev n tenant now pending prev hn hlock ht =>
    subst ht
    refine countInv_txn hinv h rfl rfl rfl (Nat.le_refl _) rfl (fun e he => Or.inl he) ?_
    intro tenant' now' pending' prev' hsame e he
    cases hsame
    exact Or.inr ⟨now, pending, prev, hn, he⟩
  | insert n q tenant now pending prev hn ht =>
    subst ht
    refine countInv_txn hinv h rfl rfl rfl (Nat.le_succ _) rfl (fun e he => Or.inl he) ?_
    intro tenant' now' pending' prev' hsame e he
    cases hsame
    rcases List.mem_append.mp he with he | he
    · exact Or.inr ⟨now, pending, some prev, hn, he⟩
    · rw [List.mem_singleton.mp he]
      exact Or.inl (Nat.le_refl _)
  | commit n tenant now pending prev hn ht =>
    subst ht
    refine countInv_txn hinv h rfl rfl rfl (Nat.le_refl _) rfl ?_ ?_
    · intro e he
      rcases List.mem_append.mp he with he | he
      · exact Or.inl he
      · exact Or.inr ⟨n, tenant, now, pending, prev, hn, he⟩
    · intro tenant' now' pending' prev' hsame
      cases hsame
  | rollback n ht =>
    subst ht
    refine countInv_txn hinv h rfl rfl rfl (Nat.le_refl _) rfl (fun e he => Or.inl he) ?_
    intro tenant' now' pending' prev' hsame
    cases hsame
  | startPass p cutoff batch hp ht =>
    subst ht
    refine countInv_pass hinv h rfl rfl rfl rfl rfl rfl ?_
    intro todo done hsame
    cases hsame
    exact ⟨fun b hb => current_start hinv hb (ha b hb), fun d hd => (by cases hd)⟩
  | refusePass p cutoff batch hp ht =>
    subst ht
    refine countInv_pass hinv h rfl rfl rfl rfl rfl rfl ?_
    intro todo done hsame
    cases hsame
  | anchor p b todo done hp hfree ht =>
    subst ht
    simp only [undisturbed, hp] at ha
    have htodo := h.todo p _ _ hp
    refine countInv_pass hinv h rfl rfl rfl rfl rfl rfl ?_
    intro todo' done' hsame
    cases hsame
    refine ⟨fun b' hb' => htodo b' (List.mem_cons_of_mem b hb'), ?_⟩
    intro d hd
    rcases List.mem_append.mp hd with hd | hd
    · exact h.done p _ _ hp d hd
    · rw [List.mem_singleton.mp hd]
      exact deletable_length hinv (htodo b List.mem_cons_self) ha
  | commitPass p done removed hp ht =>
    subst ht
    exact countInv_commitPass hinv h hp removed
  | abortPass p todo done hp ht =>
    subst ht
    refine countInv_pass hinv h rfl rfl rfl rfl rfl rfl ?_
    intro todo' done' hsame
    cases hsame

theorem anchorsPresent_of_count {s : AuditState} {a : AuditAct} (h : CountInv s)
    (ha : undisturbed s a) : anchorsPresent s a := by
  cases a with
  | anchor p =>
    simp only [anchorsPresent]
    simp only [undisturbed] at ha
    split
    · rename_i b todo done hp
      rw [hp] at ha
      exact present_of_current (h.todo p _ _ hp b List.mem_cons_self) ha
    · trivial
  | _ => trivial

/-- No anchor goes back. -/
def Advances (s t : AuditState) : Prop :=
  ∀ tenant, ∀ a ∈ s.anchors tenant, ∃ a' ∈ t.anchors tenant, a.throughEventId ≤ a'.throughEventId

theorem advances_of_eq {s t : AuditState} (h : t.anchors = s.anchors) : Advances s t := by
  intro tenant a ha
  rw [h]
  exact ⟨a, ha, Nat.le_refl _⟩

/-- A pass writes an anchor for an event that is there, so above the old anchor. -/
theorem advances_commitPass {env : AuditEnv} {s : AuditState} {p : Nat}
    {done : List (Boundary × List Nat)} (hinv : AuditInv env s) (hp : s.passes p = .looping [] done)
    (removed : Option Nat) :
    Advances s ((done.foldl AuditState.applyBoundary s).endPass p removed) := by
  have hpass := hinv.passes p
  rw [hp] at hpass
  intro tenant a ha
  show ∃ a' ∈ (done.foldl AuditState.applyBoundary s).anchors tenant,
    a.throughEventId ≤ a'.throughEventId
  rcases applyBoundaries_tenant hpass.2 s tenant with ⟨hanchor, -⟩ | ⟨d, hd, htenant, hanchor, -⟩
  · rw [hanchor]
    exact ⟨a, ha, Nat.le_refl _⟩
  · obtain ⟨-, pre, e, post, hsplit, hid, -⟩ := hpass.1 d hd
    rw [htenant] at hsplit
    have habove :=
      (hinv.chains tenant).above e (hsplit ▸ List.mem_append_right pre List.mem_cons_self) a ha
    rw [hanchor]
    refine ⟨_, rfl, ?_⟩
    show a.throughEventId ≤ d.1.id
    rw [← hid]
    exact Nat.le_of_lt habove

theorem advances_step {env : AuditEnv} {s t : AuditState} {a : AuditAct} (hinv : AuditInv env s)
    (hstep : auditStep env s a = some t) : Advances s t := by
  cases auditStep_move hstep with
  | commitPass p done removed hp ht =>
    rw [ht]
    exact advances_commitPass hinv hp removed
  | _ =>
    apply advances_of_eq
    subst_vars
    rfl

def appendOnce (n : Nat) (tenant : Uuid) (now : Time) : List AuditAct :=
  [.begin n tenant now, .lock n, .readPrev n, .insert n loginEvent, .commit n]

/-- Two passes overlap. The first one fails after its upsert, so the second one finds what
it counted, and another append goes in between. -/
def failedPass : List AuditAct :=
  appendOnce 0 1 1 ++ appendOnce 1 2 2 ++
    [.startPass 0 10 1000, .anchor 0, .startPass 1 20 1000, .abortPass 0] ++
    appendOnce 2 1 30 ++ [.anchor 1, .anchor 1]

theorem failedPass_run :
    (failedPass.foldlM (restrict undisturbed (auditStep plainDigests)) .initial).isSome = true := by
  decide +kernel

theorem secondPass_run :
    ([AuditAct.commitPass 1].foldlM (restrict undisturbed (auditStep plainDigests))
      ((failedPass.foldlM (restrict undisturbed (auditStep plainDigests)) .initial).get
        failedPass_run)).isSome =
      true := by
  decide +kernel

/-- Three events. A pass computes its boundary, the first event; a later one anchors and
deletes the second as well. -/
def fastPass : List AuditAct :=
  appendOnce 0 1 1 ++ appendOnce 1 1 15 ++ appendOnce 2 1 30 ++
    [.startPass 0 10 1000, .startPass 1 20 1000, .anchor 1, .commitPass 1]

/-- The first pass goes on. -/
def slowPass : List AuditAct := [.anchor 0, .commitPass 0]

def firstLogin : AuditRow := newEvent plainDigests 1 1 1 none loginEvent

def secondLogin : AuditRow := newEvent plainDigests 1 15 2 (some firstLogin.hash) loginEvent

def thirdLogin : AuditRow := newEvent plainDigests 1 30 3 (some secondLogin.hash) loginEvent

/-- The anchor is at the first event again, which the third one does not name. -/
theorem thirdLogin_not_intact :
    (verifyChain plainDigests (some ⟨1, firstLogin.hash, 3⟩) [thirdLogin]).intact = false := by
  rw [Bool.eq_false_iff]
  intro hintact
  obtain ⟨-, hprev, -⟩ := verifyChain_intact.mp hintact
  have hgenuine : (links plainDigests).Genuine (some firstLogin.hash) :=
    .link firstLogin.toPayload .none
  have hchained : (links plainDigests).Chained (some firstLogin.hash) [secondLogin] :=
    ⟨rfl, rfl, trivial⟩
  exact Links.tip_ne (links_traceable plainDigests_faithful) hgenuine hchained
    (List.cons_ne_nil _ _) hprev

theorem fastPass_run : (fastPass.foldlM (auditStep plainDigests) .initial).isSome = true := by
  decide +kernel

theorem slowPass_run :
    (slowPass.foldlM (auditStep plainDigests)
      ((fastPass.foldlM (auditStep plainDigests) .initial).get fastPass_run)).isSome = true := by
  decide +kernel

end AgenticPlatform.Observability
