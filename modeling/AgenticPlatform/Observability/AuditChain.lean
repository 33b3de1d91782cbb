import AgenticPlatform.Observability.Audit

/-!
# The chain of a tenant

What the log keeps of one tenant: rows in the order of their ids, chained from the hash
of the anchor, all above it. An open transaction keeps the same of the rows followed by
its own, so its commit and the truncation that a retention pass commits both leave a
chain that verifies.
-/
namespace AgenticPlatform.Observability
open AgenticPlatform.Foundation AgenticPlatform.Identity AgenticPlatform.Db

def links (env : AuditEnv) : Links AuditRow String Payload where
  prev := AuditRow.prevHash
  hash := AuditRow.hash
  content := AuditRow.toPayload
  digest := digest env

/-- The rows of a tenant in the order they were committed. -/
def rowsOf (events : List AuditRow) (tenant : Uuid) : List AuditRow :=
  events.filter (fun e => e.tenantId = tenant)

structure ChainOk (env : AuditEnv) (rows : List AuditRow) (anchor : Option Anchor) (nextId : Nat) :
    Prop where
  sorted : rows.Pairwise (fun a b => a.id < b.id)
  chained : (links env).Chained (anchor.map Anchor.throughHash) rows
  above : ∀ e ∈ rows, ∀ a ∈ anchor, a.throughEventId < e.id
  bounded : ∀ e ∈ rows, e.id < nextId
  anchored : ∀ a ∈ anchor, a.throughEventId < nextId

/-! ## Verification of a chain -/

theorem auditRows_eq {events : List AuditRow} {tenant : Uuid}
    (h : (rowsOf events tenant).Pairwise (fun a b => a.id < b.id)) :
    auditRows events tenant = rowsOf events tenant := by
  apply List.Pairwise.insertionSort_eq
  exact h.imp (fun hlt => Nat.le_of_lt hlt)

/-- Rows in strict order are told apart by their ids. -/
theorem eq_of_id {rows : List AuditRow} (h : rows.Pairwise (fun a b => a.id < b.id))
    {e f : AuditRow} (he : e ∈ rows) (hf : f ∈ rows) (hid : e.id = f.id) : e = f := by
  have hnodup : (rows.map AuditRow.id).Nodup :=
    (List.pairwise_map.mpr h).imp (fun hlt => Nat.ne_of_lt hlt)
  exact List.inj_on_of_nodup_map hnodup he hf hid

theorem firstBreak_eq_none {env : AuditEnv} {anchorId : Option Nat} {expected : Option String}
    {rows : List AuditRow} : firstBreak env anchorId expected rows = none ↔
      (∀ e ∈ rows, ∀ a ∈ anchorId, a < e.id) ∧ (links env).Chained expected rows := by
  induction rows generalizing expected with
  | nil => simp [firstBreak, Links.Chained]
  | cons row rows ih =>
    simp only [firstBreak]
    by_cases hanchor : (anchorId.any (fun a => row.id ≤ a)) = true
    · rw [if_pos hanchor]
      constructor
      · intro h
        cases h
      · rintro ⟨habove, -⟩
        obtain ⟨a, ha, hle⟩ := (Option.any_eq_true _ _).mp hanchor
        have hlt := habove row List.mem_cons_self a ha
        have hle := of_decide_eq_true hle
        omega
    · rw [if_neg hanchor]
      have habove : ∀ a ∈ anchorId, a < row.id := by
        intro a ha
        by_contra hle
        exact hanchor ((Option.any_eq_true _ _).mpr ⟨a, ha, decide_eq_true (Nat.le_of_not_lt hle)⟩)
      by_cases hprev : row.prevHash = expected
      · rw [if_neg (not_not.mpr hprev)]
        by_cases hdigest : digest env row.toPayload row.prevHash = row.hash
        · rw [if_neg (not_not.mpr hdigest), ih]
          rw [hprev] at hdigest
          constructor
          · rintro ⟨hall, hrest⟩
            refine ⟨?_, hprev, hdigest.symm, hrest⟩
            intro e he
            rcases List.mem_cons.mp he with rfl | he
            · exact habove
            · exact hall e he
          · rintro ⟨hall, -, -, hrest⟩
            exact ⟨fun e he => hall e (List.mem_cons_of_mem row he), hrest⟩
        · rw [if_pos hdigest]
          constructor
          · intro h
            cases h
          · rintro ⟨-, -, hhash, -⟩
            rw [hprev] at hdigest
            exact absurd hhash.symm hdigest
      · rw [if_pos hprev]
        constructor
        · intro h
          cases h
        · rintro ⟨-, hprev', -⟩
          exact absurd hprev' hprev

theorem verifyChain_intact {env : AuditEnv} {anchor : Option Anchor} {rows : List AuditRow} :
    (verifyChain env anchor rows).intact = true ↔
      (∀ e ∈ rows, ∀ a ∈ anchor, a.throughEventId < e.id) ∧
        (links env).Chained (anchor.map Anchor.throughHash) rows := by
  show (firstBreak env _ _ rows).isNone = true ↔ _
  rw [Option.isNone_iff_eq_none, firstBreak_eq_none]
  have hanchor : (∀ e ∈ rows, ∀ a ∈ anchor.map Anchor.throughEventId, a < e.id) ↔
      ∀ e ∈ rows, ∀ a ∈ anchor, a.throughEventId < e.id := by
    cases anchor <;> simp
  rw [hanchor]

/-! ## Operations on a chain -/

variable {env : AuditEnv} {rows : List AuditRow} {anchor : Option Anchor} {nextId : Nat}

theorem chainOk_nil (env : AuditEnv) (nextId : Nat) : ChainOk env [] none nextId where
  sorted := .nil
  chained := trivial
  above := by
    intro e he
    cases he
  bounded := by
    intro e he
    cases he
  anchored := by
    intro a ha
    cases ha

theorem ChainOk.mono {nextId' : Nat} (h : ChainOk env rows anchor nextId) (hle : nextId ≤ nextId') :
    ChainOk env rows anchor nextId' :=
  { h with
    bounded := fun e he => Nat.lt_of_lt_of_le (h.bounded e he) hle
    anchored := fun a ha => Nat.lt_of_lt_of_le (h.anchored a ha) hle }

/-- The rows without the last ones. -/
theorem ChainOk.left {more : List AuditRow} (h : ChainOk env (rows ++ more) anchor nextId) :
    ChainOk env rows anchor nextId where
  sorted := (List.pairwise_append.mp h.sorted).1
  chained := (Links.chained_append.mp h.chained).1
  above := fun e he => h.above e (List.mem_append_left more he)
  bounded := fun e he => h.bounded e (List.mem_append_left more he)
  anchored := h.anchored

/-- An event that names the last hash, under the next id. -/
theorem ChainOk.append {tenant : Uuid} {now : Time} {q : AppendRequest}
    (h : ChainOk env rows anchor nextId) :
    ChainOk env (rows ++
      [newEvent env tenant now nextId ((links env).tip (anchor.map Anchor.throughHash) rows) q])
      anchor (nextId + 1) where
  sorted := by
    refine List.pairwise_append.mpr ⟨h.sorted, List.pairwise_singleton _ _, ?_⟩
    intro a ha b hb
    rw [List.mem_singleton.mp hb]
    exact h.bounded a ha
  chained := Links.chained_append.mpr ⟨h.chained, rfl, rfl, trivial⟩
  above := by
    intro e he a ha
    rcases List.mem_append.mp he with he | he
    · exact h.above e he a ha
    · rw [List.mem_singleton.mp he]
      exact h.anchored a ha
  bounded := by
    intro e he
    rcases List.mem_append.mp he with he | he
    · exact Nat.lt_succ_of_lt (h.bounded e he)
    · rw [List.mem_singleton.mp he]
      exact Nat.lt_succ_self nextId
  anchored := fun a ha => Nat.lt_succ_of_lt (h.anchored a ha)

/-- Everything up to one event is deleted and anchored at it. -/
theorem ChainOk.truncate {pre post : List AuditRow} {e : AuditRow}
    (h : ChainOk env (pre ++ e :: post) anchor nextId) (count : Nat) :
    ChainOk env post (some ⟨e.id, e.hash, count⟩) nextId where
  sorted := (List.pairwise_cons.mp (List.pairwise_append.mp h.sorted).2.1).2
  chained := (Links.chained_append.mp h.chained).2.2.2
  above := by
    intro f hf a ha
    cases ha
    exact (List.pairwise_cons.mp (List.pairwise_append.mp h.sorted).2.1).1 f hf
  bounded := fun f hf => h.bounded f (List.mem_append_right pre (List.mem_cons_of_mem e hf))
  anchored := by
    intro a ha
    cases ha
    exact h.bounded e (List.mem_append_right pre List.mem_cons_self)

/-- The anchor of the deleted part and the rest of the rows lead to the same hash. -/
theorem tip_truncate (env : AuditEnv) (p : Option String) (pre post : List AuditRow)
    (e : AuditRow) : (links env).tip (some e.hash) post = (links env).tip p (pre ++ e :: post) := by
  rw [Links.tip_append, Links.tip_cons]
  rfl

/-- The ids up to one event. -/
theorem ids_upto {pre post : List AuditRow} {e : AuditRow}
    (h : ChainOk env (pre ++ e :: post) anchor nextId) :
    (pre ++ e :: post).filter (fun f => decide (f.id ≤ e.id)) = pre ++ [e] := by
  have hsorted := List.pairwise_append.mp h.sorted
  have hpre : pre.filter (fun f => decide (f.id ≤ e.id)) = pre := by
    apply List.filter_eq_self.mpr
    intro f hf
    exact decide_eq_true (Nat.le_of_lt (hsorted.2.2 f hf e List.mem_cons_self))
  have hpost : post.filter (fun f => decide (f.id ≤ e.id)) = [] := by
    apply List.filter_eq_nil_iff.mpr
    intro f hf hle
    have hlt := (List.pairwise_cons.mp hsorted.2.1).1 f hf
    have hle := of_decide_eq_true hle
    omega
  rw [List.filter_append, hpre, List.filter_cons, if_pos (decide_eq_true (Nat.le_refl _)), hpost]

/-! ## Moves -/

/-- Everything a step can do. -/
inductive AuditMove (env : AuditEnv) (s t : AuditState) : AuditAct → Prop where
  | begin (n : Nat) (tenant : Uuid) (now : Time) (hn : s.txns n = .unused)
    (ht : t = { s with txns := Function.update s.txns n (.active tenant now [] none) }) :
    AuditMove env s t (.begin n tenant now)
  | lock (n : Nat) (tenant : Uuid) (now : Time) (pending : List AuditRow)
    (prev : Option (Option String)) (hn : s.txns n = .active tenant now pending prev)
    (hfree : s.locks tenant = none ∨ s.locks tenant = some n)
    (ht : t = { s with locks := Function.update s.locks tenant (some n) }) :
    AuditMove env s t (.lock n)
  | readPrev (n : Nat) (tenant : Uuid) (now : Time) (pending : List AuditRow)
    (prev : Option (Option String)) (hn : s.txns n = .active tenant now pending prev)
    (hlock : s.locks tenant = some n) (ht : t = { s with
        txns := Function.update s.txns n (.active tenant now pending
          (some (lastHash (s.events ++ pending) (s.anchors tenant) tenant))) }) :
          AuditMove
          env
          s
          t
          (.readPrev n)
  | insert (n : Nat) (q : AppendRequest) (tenant : Uuid) (now : Time) (pending : List AuditRow)
    (prev : Option String) (hn : s.txns n = .active tenant now pending (some prev))
    (ht : t = { s with
      nextId := s.nextId + 1
      txns := Function.update s.txns n
        (.active tenant now (pending ++ [newEvent env tenant now s.nextId prev q]) none) }) :
    AuditMove env s t (.insert n q)
  | commit (n : Nat) (tenant : Uuid) (now : Time) (pending : List AuditRow)
    (prev : Option (Option String)) (hn : s.txns n = .active tenant now pending prev)
    (ht : t = { s.endTxn n with events := s.events ++ pending }) : AuditMove env s t (.commit n)
  | rollback (n : Nat) (ht : t = s.endTxn n) : AuditMove env s t (.rollback n)
  | startPass (p : Nat) (cutoff : Time) (batch : Nat) (hp : s.passes p = .unused)
    (ht : t = { s with
      passes := Function.update s.passes p (.looping (boundaries s.events cutoff batch) [])
      running := p :: s.running }) : AuditMove env s t (.startPass p cutoff batch)
  | refusePass (p : Nat) (cutoff : Time) (batch : Nat) (hp : s.passes p = .unused)
    (ht : t = { s with passes := Function.update s.passes p (.ended none) }) :
    AuditMove env s t (.startPass p cutoff batch)
  | anchor (p : Nat) (b : Boundary) (todo : List Boundary) (done : List (Boundary × List Nat))
    (hp : s.passes p = .looping (b :: todo) done) (hfree : s.anchorLocks b.tenantId = none)
    (ht : t = { s with
      passes := Function.update s.passes p (.looping todo (done ++ [(b, deletable s.events b)]))
      anchorLocks := Function.update s.anchorLocks b.tenantId (some p) }) :
        AuditMove
        env
        s
        t
        (.anchor p)
  | commitPass (p : Nat) (done : List (Boundary × List Nat)) (removed : Option Nat)
    (hp : s.passes p = .looping [] done)
    (ht : t = (done.foldl AuditState.applyBoundary s).endPass p removed) :
    AuditMove env s t (.commitPass p)
  | abortPass (p : Nat) (todo : List Boundary) (done : List (Boundary × List Nat))
    (hp : s.passes p = .looping todo done) (ht : t = s.endPass p none) :
    AuditMove env s t (.abortPass p)

theorem auditStep_move {env : AuditEnv} {s t : AuditState} {a : AuditAct}
    (hstep : auditStep env s a = some t) : AuditMove env s t a := by
  cases a with
  | begin n tenant now =>
    simp only [auditStep] at hstep
    split at hstep
    · cases hstep
      exact .begin n tenant now ‹_› rfl
    · cases hstep
  | lock n =>
    simp only [auditStep] at hstep
    split at hstep
    · rename_i tenant now pending prev hn
      split at hstep
      · cases hstep
        exact .lock n tenant now pending prev hn ‹_› rfl
      · cases hstep
    · cases hstep
  | readPrev n =>
    simp only [auditStep] at hstep
    split at hstep
    · rename_i tenant now pending prev hn
      split at hstep
      · cases hstep
        exact .readPrev n tenant now pending prev hn ‹_› rfl
      · cases hstep
    · cases hstep
  | insert n q =>
    simp only [auditStep] at hstep
    split at hstep
    · rename_i tenant now pending prev hn
      cases hstep
      exact .insert n q tenant now pending prev hn rfl
    · cases hstep
  | commit n =>
    simp only [auditStep] at hstep
    split at hstep
    · rename_i tenant now pending prev hn
      cases hstep
      exact .commit n tenant now pending prev hn rfl
    · cases hstep
  | rollback n =>
    simp only [auditStep] at hstep
    split at hstep
    · cases hstep
      exact .rollback n rfl
    · cases hstep
  | startPass p cutoff batch =>
    simp only [auditStep] at hstep
    split at hstep
    · rename_i hp
      split at hstep
      · cases hstep
        exact .startPass p cutoff batch hp rfl
      · cases hstep
        exact .refusePass p cutoff batch hp rfl
    · cases hstep
  | anchor p =>
    simp only [auditStep] at hstep
    split at hstep
    · rename_i b todo done hp
      split at hstep
      · cases hstep
        exact .anchor p b todo done hp ‹_› rfl
      · cases hstep
    · cases hstep
  | commitPass p =>
    simp only [auditStep] at hstep
    split at hstep
    · rename_i done hp
      cases hstep
      exact .commitPass p done _ hp rfl
    · cases hstep
  | abortPass p =>
    simp only [auditStep] at hstep
    split at hstep
    · rename_i todo done hp
      cases hstep
      exact .abortPass p todo done hp rfl
    · cases hstep

/-! ## Open transactions and passes -/

/-- The transaction has the lock once it has read or written, and its rows continue the
chain of its tenant. -/
def AppendOk (env : AuditEnv) (s : AuditState) (n : Nat) : AppendTxn → Prop
  | .active tenant _ pending prev =>
    (pending ≠ [] ∨ prev ≠ none → s.locks tenant = some n) ∧ (∀ e ∈ pending, e.tenantId = tenant) ∧
      ChainOk env (rowsOf s.events tenant ++ pending) (s.anchors tenant) s.nextId ∧
      ∀ hash, prev = some hash → hash = (links env).tip ((s.anchors tenant).map Anchor.throughHash)
      (rowsOf s.events tenant ++ pending)
  | .unused | .ended => True

/-- The event of a boundary that a pass has written is still there, and the pass deletes
everything up to it. -/
def Written (s : AuditState) (p : Nat) (d : Boundary × List Nat) : Prop :=
  s.anchorLocks d.1.tenantId = some p ∧
    ∃ pre e post, rowsOf s.events d.1.tenantId = pre ++ e :: post ∧ e.id = d.1.id ∧
    e.hash = d.1.hash ∧ d.2 = (pre ++ [e]).map AuditRow.id

def PassOk (s : AuditState) (p : Nat) : Pass → Prop
  | .looping _ done => (∀ d ∈ done, Written s p d) ∧ (done.map (fun d => d.1.tenantId)).Nodup
  | .unused | .ended _ => True

structure AuditInv (env : AuditEnv) (s : AuditState) : Prop where
  chains : ∀ tenant, ChainOk env (rowsOf s.events tenant) (s.anchors tenant) s.nextId
  txns : ∀ n, AppendOk env s n (s.txns n)
  passes : ∀ p, PassOk s p (s.passes p)

theorem auditInv_initial (env : AuditEnv) : AuditInv env .initial where
  chains := fun _ => chainOk_nil env 1
  txns := fun _ => trivial
  passes := fun _ => trivial

theorem appendOk_frame {env : AuditEnv} {s t : AuditState} {n : Nat} {x : AppendTxn}
    (h : AppendOk env s n x) (hlocks : ∀ tenant, s.locks tenant = some n → t.locks tenant = some n)
    (hevents : t.events = s.events) (hanchors : t.anchors = s.anchors)
    (hnext : s.nextId ≤ t.nextId) : AppendOk env t n x := by
  cases x with
  | unused => trivial
  | ended => trivial
  | active tenant now pending prev =>
    obtain ⟨hlock, htenant, hchain, hprev⟩ := h
    unfold AppendOk
    rw [hevents, hanchors]
    exact ⟨fun hopen => hlocks tenant (hlock hopen), htenant, hchain.mono hnext, hprev⟩

theorem passOk_frame {s t : AuditState} {p : Nat} {x : Pass} (h : PassOk s p x)
    (hlocks : ∀ tenant, s.anchorLocks tenant = some p → t.anchorLocks tenant = some p)
    (hevents : t.events = s.events) : PassOk t p x := by
  cases x with
  | unused => trivial
  | ended removed => trivial
  | looping todo done =>
    refine ⟨?_, h.2⟩
    intro d hd
    obtain ⟨hlock, hrest⟩ := h.1 d hd
    unfold Written
    rw [hevents]
    exact ⟨hlocks _ hlock, hrest⟩

/-- A step of one transaction that leaves the tables alone. -/
theorem auditInv_txn {env : AuditEnv} {s t : AuditState} {n : Nat} {x : AppendTxn}
    (h : AuditInv env s) (hevents : t.events = s.events) (hanchors : t.anchors = s.anchors)
    (hnext : s.nextId ≤ t.nextId) (htxns : t.txns = Function.update s.txns n x)
    (hpasses : t.passes = s.passes) (hanchorLocks : t.anchorLocks = s.anchorLocks)
    (hlocks : ∀ m, m ≠ n → ∀ tenant, s.locks tenant = some m → t.locks tenant = some m)
    (hx : AppendOk env t n x) : AuditInv env t where
  chains := by
    rw [hevents, hanchors]
    exact fun tenant => (h.chains tenant).mono hnext
  txns := by
    intro m
    rw [htxns]
    by_cases he : m = n
    · subst he
      rw [Function.update_self]
      exact hx
    · rw [Function.update_of_ne he]
      exact appendOk_frame (h.txns m) (hlocks m he) hevents hanchors hnext
  passes := by
    intro p
    rw [hpasses]
    exact passOk_frame (h.passes p) (fun _ hl => hanchorLocks ▸ hl) hevents

/-- A step of one pass that leaves the tables alone. -/
theorem auditInv_pass {env : AuditEnv} {s t : AuditState} {p : Nat} {x : Pass} (h : AuditInv env s)
    (hevents : t.events = s.events) (hanchors : t.anchors = s.anchors) (hnext : t.nextId = s.nextId)
    (htxns : t.txns = s.txns) (hlocks : t.locks = s.locks)
    (hpasses : t.passes = Function.update s.passes p x)
    (hanchorLocks : ∀ q, q ≠ p → ∀ tenant, s.anchorLocks tenant = some q →
      t.anchorLocks tenant = some q)
    (hx : PassOk t p x) : AuditInv env t where
  chains := by
    rw [hevents, hanchors, hnext]
    exact h.chains
  txns := by
    intro m
    rw [htxns]
    exact appendOk_frame (h.txns m) (fun _ hl => hlocks ▸ hl) hevents hanchors
      (Nat.le_of_eq hnext.symm)
  passes := by
    intro q
    rw [hpasses]
    by_cases he : q = p
    · subst he
      rw [Function.update_self]
      exact hx
    · rw [Function.update_of_ne he]
      exact passOk_frame (h.passes q) (hanchorLocks q he) hevents

/-! ## Appends -/

theorem rowsOf_append (events more : List AuditRow) (tenant : Uuid) :
    rowsOf (events ++ more) tenant = rowsOf events tenant ++ rowsOf more tenant :=
  List.filter_append _ _

theorem rowsOf_own {pending : List AuditRow} {tenant : Uuid}
    (h : ∀ e ∈ pending, e.tenantId = tenant) : rowsOf pending tenant = pending :=
  List.filter_eq_self.mpr (fun e he => decide_eq_true (h e he))

theorem rowsOf_other {pending : List AuditRow} {tenant tenant' : Uuid}
    (h : ∀ e ∈ pending, e.tenantId = tenant) (hne : tenant' ≠ tenant) :
    rowsOf pending tenant' = [] := by
  apply List.filter_eq_nil_iff.mpr
  intro e he hsame
  exact hne ((of_decide_eq_true hsame).symm.trans (h e he))

/-- The SELECT finds what the next event has to name. -/
theorem lastHash_eq {events pending : List AuditRow} {tenant : Uuid}
    (htenant : ∀ e ∈ pending, e.tenantId = tenant)
    (hchain : ChainOk env (rowsOf events tenant ++ pending) anchor nextId) :
    lastHash (events ++ pending) anchor tenant =
      (links env).tip (anchor.map Anchor.throughHash) (rowsOf events tenant ++ pending) := by
  have hrows : rowsOf (events ++ pending) tenant = rowsOf events tenant ++ pending := by
    rw [rowsOf_append, rowsOf_own htenant]
  have hsorted : auditRows (events ++ pending) tenant = rowsOf events tenant ++ pending := by
    rw [auditRows_eq (hrows.symm ▸ hchain.sorted), hrows]
  rw [lastHash, hsorted]
  rfl

/-- Only the holder of the lock has rows or has read. -/
theorem idle_of_locked {env : AuditEnv} {s : AuditState} {n m : Nat} {tenant : Uuid} {now : Time}
    {pending : List AuditRow} {prev : Option (Option String)}
    (h : AppendOk env s m (.active tenant now pending prev)) (hlock : s.locks tenant = some n)
    (hne : m ≠ n) : pending = [] ∧ prev = none := by
  have hfree : ¬ (pending ≠ [] ∨ prev ≠ none) := by
    intro hopen
    exact hne (Option.some.inj ((h.1 hopen).symm.trans hlock))
  rw [not_or, not_not, not_not] at hfree
  exact hfree

theorem auditInv_commit {env : AuditEnv} {s : AuditState} {n : Nat} {tenant : Uuid} {now : Time}
    {pending : List AuditRow} {prev : Option (Option String)} (h : AuditInv env s)
    (hn : s.txns n = .active tenant now pending prev) :
    AuditInv env { s.endTxn n with events := s.events ++ pending } := by
  have hok := h.txns n
  rw [hn] at hok
  obtain ⟨hlock, htenant, hchain, -⟩ := hok
  have hrows : rowsOf (s.events ++ pending) tenant = rowsOf s.events tenant ++ pending := by
    rw [rowsOf_append, rowsOf_own htenant]
  have hothers : ∀ tenant', tenant' ≠ tenant →
      rowsOf (s.events ++ pending) tenant' = rowsOf s.events tenant' := by
    intro tenant' hne
    rw [rowsOf_append, rowsOf_other htenant hne, List.append_nil]
  constructor
  · intro tenant'
    show ChainOk env (rowsOf (s.events ++ pending) tenant') (s.anchors tenant') s.nextId
    by_cases he : tenant' = tenant
    · rw [he, hrows]
      exact hchain
    · rw [hothers tenant' he]
      exact h.chains tenant'
  · intro m
    show AppendOk env _ m (Function.update s.txns n .ended m)
    by_cases he : m = n
    · subst he
      rw [Function.update_self]
      trivial
    · rw [Function.update_of_ne he]
      have hm := h.txns m
      cases hx : s.txns m with
      | unused => trivial
      | ended => trivial
      | active tenant' now' pending' prev' =>
        rw [hx] at hm
        have hkeep : s.locks tenant' = some m →
            (s.locks tenant').filter (fun k => k ≠ n) = some m := by
          intro hl
          rw [hl]
          simp [he]
        by_cases hsame : tenant' = tenant ∧ pending ≠ []
        · obtain ⟨rfl, hopen⟩ := hsame
          obtain ⟨rfl, rfl⟩ := idle_of_locked hm (hlock (Or.inl hopen)) he
          refine ⟨fun hopen' => ?_, fun e he => (by cases he), ?_,
            fun hash hhash => (by cases hhash)⟩
          · rcases hopen' with hopen' | hopen' <;> exact absurd rfl hopen'
          · show ChainOk env (rowsOf (s.events ++ pending) tenant' ++ [])
              (s.anchors tenant') s.nextId
            rw [List.append_nil, hrows]
            exact hchain
        · have hsame' : rowsOf (s.events ++ pending) tenant' = rowsOf s.events tenant' := by
            by_cases ht : tenant' = tenant
            · have hempty : pending = [] := by
                by_contra hne
                exact hsame ⟨ht, hne⟩
              rw [hempty, List.append_nil]
            · exact hothers tenant' ht
          obtain ⟨hlock', htenant', hchain', hprev'⟩ := hm
          refine ⟨fun hopen => hkeep (hlock' hopen), htenant', ?_, ?_⟩
          · show ChainOk env (rowsOf (s.events ++ pending) tenant' ++ pending')
              (s.anchors tenant') s.nextId
            rw [hsame']
            exact hchain'
          · show ∀ hash, prev' = some hash →
              hash = (links env).tip ((s.anchors tenant').map Anchor.throughHash)
              (rowsOf (s.events ++ pending) tenant' ++ pending')
            rw [hsame']
            exact hprev'
  · intro p
    show PassOk _ p (s.passes p)
    have hp := h.passes p
    cases hx : s.passes p with
    | unused => trivial
    | ended removed => trivial
    | looping todo done =>
      rw [hx] at hp
      refine ⟨?_, hp.2⟩
      intro d hd
      obtain ⟨hanchor, pre, e, post, hsplit, hrest⟩ := hp.1 d hd
      refine ⟨hanchor, pre, e, post ++ rowsOf pending d.1.tenantId, ?_, hrest⟩
      show rowsOf (s.events ++ pending) d.1.tenantId = _
      rw [rowsOf_append, hsplit, List.append_assoc, List.cons_append]

/-! ## Retention -/

/-- The event of the boundary is still in the table. -/
def present (events : List AuditRow) (b : Boundary) : Bool :=
  events.any (fun e => e.tenantId = b.tenantId && e.id = b.id && e.hash = b.hash)

theorem written_of_present {env : AuditEnv} {s t : AuditState} {p : Nat} {b : Boundary}
    (h : AuditInv env s) (hpresent : present s.events b = true)
    (hlock : t.anchorLocks b.tenantId = some p) (hevents : t.events = s.events) :
    Written t p (b, deletable s.events b) := by
  obtain ⟨e, he, hb⟩ := List.any_eq_true.mp hpresent
  simp only [Bool.and_eq_true, decide_eq_true_eq] at hb
  obtain ⟨⟨htenant, hid⟩, hhash⟩ := hb
  have hmem : e ∈ rowsOf s.events b.tenantId := List.mem_filter.mpr ⟨he, decide_eq_true htenant⟩
  obtain ⟨pre, post, hsplit⟩ := List.append_of_mem hmem
  have hchain := h.chains b.tenantId
  rw [hsplit] at hchain
  refine ⟨hlock, pre, e, post, ?_, hid, hhash, ?_⟩
  · show rowsOf t.events b.tenantId = _
    rw [hevents, hsplit]
  · have hfilter : s.events.filter (fun f => decide (f.tenantId = b.tenantId ∧ f.id ≤ b.id)) =
        (rowsOf s.events b.tenantId).filter (fun f => decide (f.id ≤ e.id)) := by
      rw [rowsOf, List.filter_filter, hid]
      apply List.filter_congr
      intro f _
      rw [Bool.and_comm, ← Bool.decide_and]
    show (s.events.filter _).map AuditRow.id = _
    rw [hfilter, hsplit, ids_upto hchain]

theorem auditInv_anchor {env : AuditEnv} {s : AuditState} {p : Nat} {b : Boundary}
    {todo : List Boundary} {done : List (Boundary × List Nat)} (h : AuditInv env s)
    (hp : s.passes p = .looping (b :: todo) done) (hfree : s.anchorLocks b.tenantId = none)
    (hpresent : present s.events b = true) : AuditInv env { s with
      passes := Function.update s.passes p (.looping todo (done ++ [(b, deletable s.events b)]))
      anchorLocks := Function.update s.anchorLocks b.tenantId (some p) } := by
  have hpass := h.passes p
  rw [hp] at hpass
  have hne : ∀ d ∈ done, d.1.tenantId ≠ b.tenantId := by
    intro d hd hsame
    have hlock := (hpass.1 d hd).1
    rw [hsame, hfree] at hlock
    cases hlock
  refine auditInv_pass h rfl rfl rfl rfl rfl rfl ?_ ⟨?_, ?_⟩
  · intro q _ tenant hl
    show Function.update s.anchorLocks b.tenantId (some p) tenant = some q
    rw [Function.update_of_ne _ _ _, hl]
    rintro rfl
    rw [hfree] at hl
    cases hl
  · intro d hd
    rcases List.mem_append.mp hd with hd | hd
    · obtain ⟨hlock, hrest⟩ := hpass.1 d hd
      refine ⟨?_, hrest⟩
      show Function.update s.anchorLocks b.tenantId (some p) d.1.tenantId = some p
      rw [Function.update_of_ne (hne d hd)]
      exact hlock
    · rw [List.mem_singleton.mp hd]
      exact written_of_present h hpresent (Function.update_self _ _ _) rfl
  · rw [List.map_append]
    refine List.nodup_append.mpr ⟨hpass.2, List.nodup_singleton _, ?_⟩
    intro x hx y hy hxy
    obtain ⟨d, hd, rfl⟩ := List.mem_map.mp hx
    rw [List.map_singleton, List.mem_singleton] at hy
    exact hne d hd (hxy.trans hy)

/-! ### The commit of a pass -/

theorem rowsOf_applyBoundary_other {s : AuditState} {d : Boundary × List Nat} {tenant : Uuid}
    (hne : tenant ≠ d.1.tenantId) :
    rowsOf (s.applyBoundary d).events tenant = rowsOf s.events tenant := by
  show (s.events.filter _).filter _ = s.events.filter _
  rw [List.filter_filter]
  apply List.filter_congr
  intro e _
  by_cases he : e.tenantId = tenant
  · simp [he, hne]
  · simp [he]

theorem rowsOf_applyBoundary_self {env : AuditEnv} {s : AuditState} {d : Boundary × List Nat}
    {pre post : List AuditRow} {e : AuditRow} (h : AuditInv env s)
    (hsplit : rowsOf s.events d.1.tenantId = pre ++ e :: post)
    (hids : d.2 = (pre ++ [e]).map AuditRow.id) :
    rowsOf (s.applyBoundary d).events d.1.tenantId = post := by
  have hsorted := (h.chains d.1.tenantId).sorted
  rw [hsplit, List.append_cons] at hsorted
  have hkept : rowsOf (s.applyBoundary d).events d.1.tenantId =
      (rowsOf s.events d.1.tenantId).filter (fun f => decide (f.id ∉ d.2)) := by
    show (s.events.filter _).filter _ = (s.events.filter _).filter _
    rw [List.filter_filter, List.filter_filter]
    apply List.filter_congr
    intro f _
    by_cases hf : f.tenantId = d.1.tenantId <;> simp [hf]
  have hgone : (pre ++ [e]).filter (fun f => decide (f.id ∉ d.2)) = [] := by
    apply List.filter_eq_nil_iff.mpr
    intro f hf hnot
    have hnot := of_decide_eq_true hnot
    rw [hids] at hnot
    exact hnot (List.mem_map_of_mem hf)
  have hpost : post.filter (fun f => decide (f.id ∉ d.2)) = post := by
    apply List.filter_eq_self.mpr
    intro f hf
    apply decide_eq_true
    rw [hids]
    intro hmem
    obtain ⟨g, hg, hsame⟩ := List.mem_map.mp hmem
    have hlt := (List.pairwise_append.mp hsorted).2.2 g hg f hf
    omega
  rw [hkept, hsplit, List.append_cons, List.filter_append, hgone, hpost, List.nil_append]

/-- The anchor a pass writes for an event. -/
theorem upsertAnchor_eq (old : Option Anchor) {b : Boundary} {e : AuditRow} (hid : e.id = b.id)
    (hhash : e.hash = b.hash) : ∃ count, upsertAnchor old b = ⟨e.id, e.hash, count⟩ := by
  rw [hid, hhash]
  exact ⟨_, rfl⟩

theorem written_applyBoundary {s : AuditState} {p q : Nat} {d d' : Boundary × List Nat}
    (h : Written s q d') (hlock : s.anchorLocks d.1.tenantId = some p)
    (hne : q ≠ p ∨ d'.1.tenantId ≠ d.1.tenantId) : Written (s.applyBoundary d) q d' := by
  have hother : d'.1.tenantId ≠ d.1.tenantId := by
    rcases hne with hne | hne
    · intro hsame
      have hq := h.1
      rw [hsame, hlock] at hq
      exact hne (Option.some.inj hq).symm
    · exact hne
  obtain ⟨hq, hrest⟩ := h
  refine ⟨hq, ?_⟩
  rw [rowsOf_applyBoundary_other hother]
  exact hrest

/-- One boundary of a pass that commits. -/
theorem auditInv_applyBoundary {env : AuditEnv} {s : AuditState} {p : Nat} {d : Boundary × List Nat}
    (h : AuditInv env s) (hd : Written s p d) (hp : s.passes p = .ended none) :
    AuditInv env (s.applyBoundary d) := by
  obtain ⟨hlock, pre, e, post, hsplit, hid, hhash, hids⟩ := hd
  have hself := rowsOf_applyBoundary_self h hsplit hids
  obtain ⟨count, hanchor⟩ := upsertAnchor_eq (s.anchors d.1.tenantId) hid hhash
  have hset : (s.applyBoundary d).anchors d.1.tenantId = some ⟨e.id, e.hash, count⟩ := by
    rw [← hanchor]
    exact Function.update_self _ _ _
  have hkeep : ∀ tenant, tenant ≠ d.1.tenantId →
      (s.applyBoundary d).anchors tenant = s.anchors tenant :=
    fun tenant hne => Function.update_of_ne hne _ _
  constructor
  · intro tenant
    show ChainOk env _ _ s.nextId
    by_cases he : tenant = d.1.tenantId
    · subst he
      have hchain := h.chains d.1.tenantId
      rw [hsplit] at hchain
      rw [hself, hset]
      exact hchain.truncate count
    · rw [rowsOf_applyBoundary_other he, hkeep tenant he]
      exact h.chains tenant
  · intro n
    show AppendOk env _ n (s.txns n)
    have hn := h.txns n
    cases hx : s.txns n with
    | unused => trivial
    | ended => trivial
    | active tenant now pending prev =>
      rw [hx] at hn
      obtain ⟨hheld, htenant, hchain, hprev⟩ := hn
      refine ⟨hheld, htenant, ?_⟩
      show ChainOk env _ _ s.nextId ∧ _
      by_cases he : tenant = d.1.tenantId
      · subst he
        rw [hsplit, List.append_assoc, List.cons_append] at hchain hprev
        rw [hself, hset]
        refine ⟨hchain.truncate count, ?_⟩
        intro hash hsome
        rw [hprev hash hsome]
        exact (tip_truncate env _ pre (post ++ pending) e).symm
      · rw [rowsOf_applyBoundary_other he, hkeep tenant he]
        exact ⟨hchain, hprev⟩
  · intro q
    show PassOk _ q (s.passes q)
    have hq := h.passes q
    cases hx : s.passes q with
    | unused => trivial
    | ended removed => trivial
    | looping todo done =>
      rw [hx] at hq
      have hne : q ≠ p := by
        rintro rfl
        rw [hp] at hx
        cases hx
      exact ⟨fun d' hd' => written_applyBoundary (hq.1 d' hd') hlock (Or.inl hne), hq.2⟩

theorem auditInv_applyBoundaries {env : AuditEnv} {s : AuditState} {p : Nat}
    {done : List (Boundary × List Nat)} (h : AuditInv env s) (hdone : ∀ d ∈ done, Written s p d)
    (hnodup : (done.map (fun d => d.1.tenantId)).Nodup) (hp : s.passes p = .ended none) :
    AuditInv env (done.foldl AuditState.applyBoundary s) := by
  induction done generalizing s with
  | nil => exact h
  | cons d done ih =>
    have hd := hdone d List.mem_cons_self
    rw [List.map_cons, List.nodup_cons] at hnodup
    show AuditInv env (done.foldl AuditState.applyBoundary (s.applyBoundary d))
    apply ih (auditInv_applyBoundary h hd hp) _ hnodup.2 hp
    intro d' hd'
    apply written_applyBoundary (hdone d' (List.mem_cons_of_mem d hd')) hd.1
    right
    intro hsame
    exact hnodup.1 (hsame ▸ List.mem_map_of_mem hd')

/-- The fold reads and writes the tables only. -/
theorem applyBoundaries_passes (done : List (Boundary × List Nat)) (s : AuditState)
    (passes : Nat → Pass) :
    done.foldl AuditState.applyBoundary { s with passes := passes } =
      { done.foldl AuditState.applyBoundary s with passes := passes } := by
  induction done generalizing s with
  | nil => rfl
  | cons d done ih => exact ih (s.applyBoundary d)

theorem applyBoundaries_passes_eq (done : List (Boundary × List Nat)) (s : AuditState) :
    (done.foldl AuditState.applyBoundary s).passes = s.passes := by
  rw [show s = { s with passes := s.passes } from rfl, applyBoundaries_passes]

theorem auditInv_endPass {env : AuditEnv} {s : AuditState} (h : AuditInv env s) (p : Nat)
    (removed : Option Nat) : AuditInv env (s.endPass p removed) := by
  refine auditInv_pass h rfl rfl rfl rfl rfl rfl ?_ ?_
  · intro q hq tenant hl
    show (s.anchorLocks tenant).filter (fun r => r ≠ p) = some q
    rw [hl]
    simp [hq]
  · trivial

theorem auditInv_commitPass {env : AuditEnv} {s : AuditState} {p : Nat}
    {done : List (Boundary × List Nat)} (h : AuditInv env s) (hp : s.passes p = .looping [] done)
    (removed : Option Nat) :
    AuditInv env ((done.foldl AuditState.applyBoundary s).endPass p removed) := by
  have hpass := h.passes p
  rw [hp] at hpass
  -- the pass is over once its boundaries are applied, so nothing more is asked of it
  have hover : AuditInv env { s with passes := Function.update s.passes p (.ended none) } :=
    auditInv_pass h rfl rfl rfl rfl rfl rfl (fun _ _ _ hl => hl) trivial
  have happlied := auditInv_applyBoundaries hover hpass.1 hpass.2 (Function.update_self _ _ _)
  rw [applyBoundaries_passes] at happlied
  have hend := auditInv_endPass happlied p removed
  have hsame : ({ done.foldl AuditState.applyBoundary s with
      passes := Function.update s.passes p (.ended none) } : AuditState).endPass p removed =
        (done.foldl AuditState.applyBoundary s).endPass p removed := by
    simp only [AuditState.endPass, applyBoundaries_passes_eq, Function.update_idem]
  rw [hsame] at hend
  exact hend

/-! ## Steps -/

/-- A pass writes an anchor only for an event that is still in the table. -/
def anchorsPresent (s : AuditState) : AuditAct → Prop
  | .anchor p =>
    match s.passes p with
    | .looping (b :: _) _ => present s.events b = true
    | _ => True
  | _ => True

theorem auditInv_step {env : AuditEnv} {s t : AuditState} {a : AuditAct} (h : AuditInv env s)
    (ha : anchorsPresent s a) (hstep : auditStep env s a = some t) : AuditInv env t := by
  cases auditStep_move hstep with
  | begin n tenant now hn ht =>
    subst ht
    refine auditInv_txn h rfl rfl (Nat.le_refl _) rfl rfl rfl (fun _ _ _ hl => hl) ?_
    refine ⟨?_, fun e he => (by cases he), ?_, fun hash hhash => (by cases hhash)⟩
    · intro hopen
      rcases hopen with hopen | hopen <;> exact absurd rfl hopen
    · rw [List.append_nil]
      exact h.chains tenant
  | lock n tenant now pending prev hn hfree ht =>
    subst ht
    have hok := h.txns n
    rw [hn] at hok
    refine auditInv_txn (n := n) (x := .active tenant now pending prev) h rfl rfl (Nat.le_refl _) ?_
      rfl rfl ?_ ?_
    · rw [← hn]
      exact (Function.update_eq_self n s.txns).symm
    · intro m hm tenant' hl
      show Function.update s.locks tenant (some n) tenant' = some m
      rw [Function.update_of_ne _, hl]
      rintro rfl
      rcases hfree with hfree | hfree
      · rw [hfree] at hl
        cases hl
      · rw [hfree] at hl
        exact hm (Option.some.inj hl).symm
    · exact ⟨fun _ => Function.update_self _ _ _, hok.2⟩
  | readPrev n tenant now pending prev hn hlock ht =>
    subst ht
    have hok := h.txns n
    rw [hn] at hok
    obtain ⟨-, htenant, hchain, -⟩ := hok
    refine auditInv_txn h rfl rfl (Nat.le_refl _) rfl rfl rfl (fun _ _ _ hl => hl) ?_
    refine ⟨fun _ => hlock, htenant, hchain, ?_⟩
    intro hash hhash
    cases hhash
    exact lastHash_eq htenant hchain
  | insert n q tenant now pending prev hn ht =>
    subst ht
    have hok := h.txns n
    rw [hn] at hok
    obtain ⟨hheld, htenant, hchain, hprev⟩ := hok
    refine auditInv_txn h rfl rfl (Nat.le_succ _) rfl rfl rfl (fun _ _ _ hl => hl) ?_
    refine ⟨fun _ => hheld (Or.inr (Option.some_ne_none prev)), ?_, ?_,
      fun hash hhash => (by cases hhash)⟩
    · intro e he
      rcases List.mem_append.mp he with he | he
      · exact htenant e he
      · rw [List.mem_singleton.mp he]
        rfl
    · show ChainOk env
        (rowsOf s.events tenant ++ (pending ++ [newEvent env tenant now s.nextId prev q]))
        (s.anchors tenant) (s.nextId + 1)
      rw [hprev prev rfl, ← List.append_assoc]
      exact hchain.append
  | commit n tenant now pending prev hn ht =>
    subst ht
    exact auditInv_commit h hn
  | rollback n ht =>
    subst ht
    refine auditInv_txn h rfl rfl (Nat.le_refl _) rfl rfl rfl ?_ trivial
    intro m hm tenant hl
    show (s.locks tenant).filter (fun k => k ≠ n) = some m
    rw [hl]
    simp [hm]
  | startPass p cutoff batch hp ht =>
    subst ht
    refine auditInv_pass h rfl rfl rfl rfl rfl rfl (fun _ _ _ hl => hl) ?_
    exact ⟨fun d hd => (by cases hd), List.nodup_nil⟩
  | refusePass p cutoff batch hp ht =>
    subst ht
    exact auditInv_pass h rfl rfl rfl rfl rfl rfl (fun _ _ _ hl => hl) trivial
  | anchor p b todo done hp hfree ht =>
    subst ht
    simp only [anchorsPresent, hp] at ha
    exact auditInv_anchor h hp hfree ha
  | commitPass p done removed hp ht =>
    subst ht
    exact auditInv_commitPass h hp removed
  | abortPass p todo done hp ht =>
    subst ht
    exact auditInv_endPass h p none

/-- Every chain verifies. -/
theorem AuditInv.intact {env : AuditEnv} {s : AuditState} (h : AuditInv env s) (tenant : Uuid) :
    (verifyChain env (s.anchors tenant) (auditRows s.events tenant)).intact = true := by
  have hchain := h.chains tenant
  rw [auditRows_eq hchain.sorted]
  exact verifyChain_intact.mpr ⟨hchain.above, hchain.chained⟩

end AgenticPlatform.Observability
