import AgenticPlatform.Correctness.Outbox
import AgenticPlatform.Foundation.Transition
import Mathlib.Logic.Function.Basic

/-!
# Relay passes

`drain` is one transaction. Its SELECT takes the snapshot when it starts and computes
the candidates on it; the row locks are then taken one by one, rows locked by another
pass being skipped, and a row that changed since the snapshot is locked in its new
version, because nothing of the query's own condition is evaluated again: the filter
on `published_at` belongs to the materialized CTE. Every locked row is handed to
`publish`; the marks stay inside the transaction until it commits. A pass may crash at
any point, which drops its marks and its locks. Each pass has a number of its own.
-/
namespace AgenticPlatform.Correctness
open AgenticPlatform.Foundation AgenticPlatform.Identity AgenticPlatform.Db

/-- A pass under way: its `now()`, the candidates not tried yet, the rows locked and
not published yet, and the rows handed to `publish` with what is to be recorded. -/
structure Pass where
  now : Time
  waiting : List Nat
  locked : List OutboxRow
  marks : List (OutboxRow × Mark)
deriving DecidableEq

/-- The rows a pass has locked. -/
def Pass.held (p : Pass) : List Nat := p.locked.map OutboxRow.id ++ p.marks.map (fun m => m.1.id)

def Pass.markOf (p : Pass) (id : Nat) : Option Mark :=
  (p.marks.find? (fun m => m.1.id = id)).map Prod.snd

inductive PassState where
  | idle
  | active (p : Pass)
  | committed
  | crashed
deriving DecidableEq

/-- One call of `publish`: the pass that made it, the row, and whether it returned. -/
structure Publish where
  pass : Nat
  row : Nat
  ok : Bool
deriving DecidableEq

structure RelayState where
  db : Store
  passes : Nat → PassState
  /-- The pass that holds the lock on an outbox row. -/
  locks : Nat → Option Nat
  publishes : List Publish
  /-- Every row some pass has selected. -/
  batched : List Nat

def RelayState.initial (db : Store) : RelayState := ⟨db, fun _ => .idle, fun _ => none, [], []⟩

inductive RelayAct where
  | begin (k : Nat) (now : Time) (limit : Nat)
  | lock (k : Nat)
  | publish (k : Nat) (error : Option String)
  | commit (k : Nat)
  | crash (k : Nat)
deriving DecidableEq

/-- `now()`-stamped marks of a pass, made visible by its commit. -/
def Pass.markedOutbox (p : Pass) (o : OutboxRow) : OutboxRow :=
  (p.markOf o.id).elim o (markOutbox p.now o)

theorem Pass.markedOutbox_id (p : Pass) (o : OutboxRow) : (p.markedOutbox o).id = o.id := by
  unfold Pass.markedOutbox
  cases p.markOf o.id with
  | none => rfl
  | some m => cases m <;> rfl

/-- The runs whose pointer the pass has published. -/
def Pass.publishedRuns (p : Pass) : List Uuid :=
  (p.marks.filter (fun m => m.2 = .published)).map (fun m => m.1.runId)

def Pass.commitTo (p : Pass) (db : Store) : Store where
  run := db.run.updateWhere (fun r => r.id ∈ p.publishedRuns) (markRun p.now) (fun _ => rfl)
  outbox := db.outbox.update p.markedOutbox p.markedOutbox_id

/-- The locks that stay when pass `k` ends. -/
def release (locks : Nat → Option Nat) (k : Nat) (id : Nat) : Option Nat :=
  (locks id).filter (fun k' => k' ≠ k)

def relayStep (s : RelayState) : RelayAct → Option RelayState
  | .begin k now limit =>
    match s.passes k with
    | .idle =>
      some { s with
        passes := Function.update s.passes k (.active ⟨now, candidates s.db.outbox limit, [], []⟩)
        batched := s.batched ++ candidates s.db.outbox limit }
    | _ => none
  | .lock k =>
    match s.passes k with
    | .active ⟨now, id :: waiting, locked, marks⟩ =>
      match s.locks id, s.db.outbox.get id with
      | none, some o =>
        some { s with
          passes := Function.update s.passes k (.active ⟨now, waiting, locked ++ [o], marks⟩)
          locks := Function.update s.locks id (some k) }
      | _, _ => some { s with
        passes := Function.update s.passes k (.active ⟨now, waiting, locked, marks⟩) }
    | _ => none
  | .publish k error =>
    match s.passes k with
    | .active ⟨now, [], o :: locked, marks⟩ =>
      some { s with
        passes := Function.update s.passes k
          (.active ⟨now, [], locked, marks ++ [(o, error.elim .published .failed)]⟩)
        publishes := s.publishes ++ [⟨k, o.id, error.isNone⟩] }
    | _ => none
  | .commit k =>
    match s.passes k with
    | .active ⟨now, [], [], marks⟩ =>
      some { s with
        db := Pass.commitTo ⟨now, [], [], marks⟩ s.db
        passes := Function.update s.passes k .committed
        locks := release s.locks k }
    | _ => none
  | .crash k =>
    match s.passes k with
    | .active _ =>
      some { s with passes := Function.update s.passes k .crashed, locks := release s.locks k }
    | _ => none

/-! ## What a step does -/

theorem relayStep_begin {s t : RelayState} {k : Nat} {now : Time} {limit : Nat}
    (h : relayStep s (.begin k now limit) = some t) :
    s.passes k = .idle ∧ t = { s with
      passes := Function.update s.passes k (.active ⟨now, candidates s.db.outbox limit, [], []⟩)
      batched := s.batched ++ candidates s.db.outbox limit } := by
  simp only [relayStep] at h
  split at h
  · exact ⟨‹_›, (Option.some.inj h).symm⟩
  · cases h

/-- A lock step takes the row, or moves on from a row it cannot have. -/
theorem relayStep_lock {s t : RelayState} {k : Nat} (h : relayStep s (.lock k) = some t) :
    ∃ p id waiting, s.passes k = .active p ∧ p.waiting = id :: waiting ∧
      ((∃ o, s.locks id = none ∧ s.db.outbox.get id = some o ∧ t = { s with
          passes := Function.update s.passes k
            (.active { p with waiting := waiting, locked := p.locked ++ [o] })
          locks := Function.update s.locks id (some k) }) ∨
       ((s.locks id ≠ none ∨ s.db.outbox.get id = none) ∧ t = { s with
           passes := Function.update s.passes k (.active { p with waiting := waiting }) })) := by
  simp only [relayStep] at h
  split at h
  · rename_i now id waiting locked marks hp
    refine ⟨⟨now, id :: waiting, locked, marks⟩, id, waiting, hp, rfl, ?_⟩
    split at h
    · rename_i o hlock hget
      exact Or.inl ⟨o, hlock, hget, (Option.some.inj h).symm⟩
    · rename_i hcase
      refine Or.inr ⟨?_, (Option.some.inj h).symm⟩
      by_cases hlock : s.locks id = none
      · refine Or.inr ?_
        cases hget : s.db.outbox.get id with
        | none => rfl
        | some o => exact absurd hget (hcase o hlock)
      · exact Or.inl hlock
  · cases h

theorem relayStep_publish {s t : RelayState} {k : Nat} {error : Option String}
    (h : relayStep s (.publish k error) = some t) :
    ∃ p o locked, s.passes k = .active p ∧ p.waiting = [] ∧ p.locked = o :: locked ∧ t = { s with
      passes := Function.update s.passes k (.active
        { p with locked := locked, marks := p.marks ++ [(o, error.elim .published .failed)] })
      publishes := s.publishes ++ [⟨k, o.id, error.isNone⟩] } := by
  simp only [relayStep] at h
  split at h
  · rename_i now o locked marks hp
    exact ⟨⟨now, [], o :: locked, marks⟩, o, locked, hp, rfl, rfl, (Option.some.inj h).symm⟩
  · cases h

theorem relayStep_commit {s t : RelayState} {k : Nat} (h : relayStep s (.commit k) = some t) :
    ∃ p, s.passes k = .active p ∧ p.waiting = [] ∧ p.locked = [] ∧ t = { s with
      db := p.commitTo s.db
      passes := Function.update s.passes k .committed
      locks := release s.locks k } := by
  simp only [relayStep] at h
  split at h
  · rename_i now marks hp
    exact ⟨⟨now, [], [], marks⟩, hp, rfl, rfl, (Option.some.inj h).symm⟩
  · cases h

theorem relayStep_crash {s t : RelayState} {k : Nat} (h : relayStep s (.crash k) = some t) :
    ∃ p, s.passes k = .active p ∧ t = { s with
      passes := Function.update s.passes k .crashed
      locks := release s.locks k } := by
  simp only [relayStep] at h
  split at h
  · exact ⟨_, ‹_›, (Option.some.inj h).symm⟩
  · cases h

theorem release_eq_some {locks : Nat → Option Nat} {k k' id : Nat} :
    release locks k id = some k' ↔ locks id = some k' ∧ k' ≠ k := by
  simp [release, Option.filter_eq_some_iff]

/-! ## Locks, marks and the calls of `publish` -/

/-- A row of the initial tables that is published already. -/
def publishedIn (db : Store) (id : Nat) : Prop :=
  ∃ o ∈ db.outbox.rows, o.id = id ∧ o.publishedAt ≠ none

/-- What holds in every state: the lock table says who holds a row, a pass never meets
a row twice, its marks are its calls of `publish`, and a row is published exactly when
it was so at the start or a committed pass had a call for it that returned. -/
structure RelayInv (db : Store) (s : RelayState) : Prop where
  locks : ∀ id k, s.locks id = some k ↔ ∃ p, s.passes k = .active p ∧ id ∈ p.held
  nodup : ∀ k p, s.passes k = .active p → (p.waiting ++ p.held).Nodup
  known : ∀ k p id, s.passes k = .active p → id ∈ p.waiting ++ p.held → id ∈ s.db.outbox.keys
  begun : ∀ k id ok, ⟨k, id, ok⟩ ∈ s.publishes → s.passes k ≠ .idle
  marked : ∀ k p id, s.passes k = .active p →
    (⟨k, id, true⟩ ∈ s.publishes ↔ ∃ o, (o, Mark.published) ∈ p.marks ∧ o.id = id)
  published : ∀ id, publishedIn s.db id ↔
    publishedIn db id ∨ ∃ k, s.passes k = .committed ∧ ⟨k, id, true⟩ ∈ s.publishes

theorem relayInv_initial (db : Store) : RelayInv db (RelayState.initial db) := by
  refine ⟨?_, ?_, ?_, ?_, ?_, ?_⟩
  · intro id k
    simp [RelayState.initial]
  · intro k p hp
    cases hp
  · intro k p id hp
    cases hp
  · intro k id ok hmem
    cases hmem
  · intro k p id hp
    cases hp
  · intro id
    simp [RelayState.initial]

/-- The locks of a pass under way are the rows it holds. -/
theorem locks_own {db : Store} {s : RelayState} {k : Nat} {p : Pass} (h : RelayInv db s)
    (hp : s.passes k = .active p) (id : Nat) : s.locks id = some k ↔ id ∈ p.held := by
  rw [h.locks id k]
  constructor
  · intro ⟨p', hp', hid⟩
    rw [hp] at hp'
    cases hp'
    exact hid
  · intro hid
    exact ⟨p, hp, hid⟩

/-- Moving one pass on: the other passes keep their locks and their calls. -/
theorem relayInv_advance {db : Store} {s : RelayState} {k : Nat} {p : Pass}
    {locks : Nat → Option Nat} {publishes : List Publish} {batched : List Nat} (h : RelayInv db s)
    (hk : s.passes k ≠ .committed) (hmine : ∀ id, locks id = some k ↔ id ∈ p.held)
    (htheirs : ∀ id k', k' ≠ k → (locks id = some k' ↔ s.locks id = some k'))
    (hnodup : (p.waiting ++ p.held).Nodup)
    (hknown : ∀ id ∈ p.waiting ++ p.held, id ∈ s.db.outbox.keys)
    (hold : ∀ x ∈ s.publishes, x ∈ publishes) (hnew : ∀ x ∈ publishes, x ∈ s.publishes ∨ x.pass = k)
    (hmarked : ∀ id, ⟨k, id, true⟩ ∈ publishes ↔ ∃ o, (o, Mark.published) ∈ p.marks ∧ o.id = id) :
    RelayInv db { s with
      passes := Function.update s.passes k (.active p)
      locks := locks
      publishes := publishes
      batched := batched } := by
  have hothers : ∀ k' id ok, k' ≠ k → (⟨k', id, ok⟩ ∈ publishes ↔ ⟨k', id, ok⟩ ∈ s.publishes) := by
    intro k' id ok hne
    refine ⟨fun hmem => ?_, hold _⟩
    rcases hnew _ hmem with hmem | he
    · exact hmem
    · exact absurd he hne
  refine ⟨?_, ?_, ?_, ?_, ?_, ?_⟩
  · intro id k'
    by_cases he : k' = k
    · subst he
      rw [hmine id]
      constructor
      · intro hid
        exact ⟨p, by simp, hid⟩
      · intro ⟨p', hp', hid⟩
        simp only [Function.update_self, PassState.active.injEq] at hp'
        exact hp' ▸ hid
    · rw [htheirs id k' he, h.locks id k']
      simp only [Function.update_of_ne he]
  · intro k' p' hp'
    rcases update_cases hp' with ⟨rfl, he⟩ | ⟨-, hp'⟩
    · cases he
      exact hnodup
    · exact h.nodup k' p' hp'
  · intro k' p' id hp' hid
    rcases update_cases hp' with ⟨rfl, he⟩ | ⟨-, hp'⟩
    · cases he
      exact hknown id hid
    · exact h.known k' p' id hp' hid
  · intro k' id ok hmem hp'
    rcases update_cases hp' with ⟨rfl, he⟩ | ⟨hne, hp'⟩
    · cases he
    · exact h.begun k' id ok ((hothers k' id ok hne).mp hmem) hp'
  · intro k' p' id hp'
    rcases update_cases hp' with ⟨rfl, he⟩ | ⟨hne, hp'⟩
    · cases he
      exact hmarked id
    · rw [hothers k' id true hne]
      exact h.marked k' p' id hp'
  · intro id
    rw [h.published id]
    refine or_congr_right ?_
    constructor
    · intro ⟨k', hp', hmem⟩
      have hne : k' ≠ k := fun he => hk (he ▸ hp')
      exact ⟨k', by simp [Function.update_of_ne hne, hp'], hold _ hmem⟩
    · intro ⟨k', hp', hmem⟩
      rcases update_cases hp' with ⟨-, he⟩ | ⟨hne, hp'⟩
      · cases he
      · exact ⟨k', hp', (hothers k' id true hne).mp hmem⟩

/-- Ending one pass: its locks go, the rows it published are those it committed. -/
theorem relayInv_end {db db' : Store} {s : RelayState} {k : Nat} {p : Pass} {st : PassState}
    (h : RelayInv db s) (hp : s.passes k = .active p) (hst : st = .committed ∨ st = .crashed)
    (hkeys : db'.outbox.keys = s.db.outbox.keys)
    (hpub : ∀ id, publishedIn db' id ↔
      publishedIn s.db id ∨ (st = .committed ∧ ∃ o, (o, Mark.published) ∈ p.marks ∧ o.id = id)) :
    RelayInv db { s with
      db := db'
      passes := Function.update s.passes k st
      locks := release s.locks k } := by
  have hactive : ∀ k' p', Function.update s.passes k st k' = .active p' → k' ≠ k ∧
      s.passes k' = .active p' := by
    intro k' p' hp'
    rcases update_cases hp' with ⟨-, he⟩ | hp'
    · rcases hst with rfl | rfl <;> cases he
    · exact hp'
  refine ⟨?_, ?_, ?_, ?_, ?_, ?_⟩
  · intro id k'
    rw [release_eq_some, h.locks id k']
    constructor
    · intro ⟨⟨p', hp', hid⟩, hne⟩
      exact ⟨p', by simp [Function.update_of_ne hne, hp'], hid⟩
    · intro ⟨p', hp', hid⟩
      obtain ⟨hne, hp'⟩ := hactive k' p' hp'
      exact ⟨⟨p', hp', hid⟩, hne⟩
  · intro k' p' hp'
    exact h.nodup k' p' (hactive k' p' hp').2
  · intro k' p' id hp' hid
    rw [hkeys]
    exact h.known k' p' id (hactive k' p' hp').2 hid
  · intro k' id ok hmem hp'
    rcases update_cases hp' with ⟨-, he⟩ | ⟨-, hp'⟩
    · rcases hst with rfl | rfl <;> cases he
    · exact h.begun k' id ok hmem hp'
  · intro k' p' id hp'
    exact h.marked k' p' id (hactive k' p' hp').2
  · intro id
    rw [hpub id, h.published id, or_assoc, ← h.marked k p id hp]
    refine or_congr_right ?_
    constructor
    · rintro (⟨k', hp', hmem⟩ | ⟨rfl, hmem⟩)
      · have hne : k' ≠ k := by
          intro he
          rw [he, hp] at hp'
          cases hp'
        exact ⟨k', by simp [Function.update_of_ne hne, hp'], hmem⟩
      · exact ⟨k, by simp, hmem⟩
    · intro ⟨k', hp', hmem⟩
      rcases update_cases hp' with ⟨rfl, he⟩ | ⟨-, hp'⟩
      · exact Or.inr ⟨he, hmem⟩
      · exact Or.inl ⟨k', hp', hmem⟩

/-- With distinct rows the mark found for a row is the one recorded. -/
theorem markOf_eq_some {p : Pass} (hnodup : (p.marks.map (fun m => m.1.id)).Nodup) {id : Nat}
    {m : Mark} : p.markOf id = some m ↔ ∃ o, (o, m) ∈ p.marks ∧ o.id = id := by
  rw [Pass.markOf, Option.map_eq_some_iff]
  constructor
  · intro ⟨⟨o, m'⟩, hfind, hm⟩
    have hid : o.id = id := by simpa using List.find?_some hfind
    exact ⟨o, hm ▸ List.mem_of_find?_eq_some hfind, hid⟩
  · intro ⟨o, hmem, hid⟩
    cases hfind : p.marks.find? (fun m => m.1.id = id) with
    | none => exact absurd (decide_eq_true hid) (List.find?_eq_none.mp hfind (o, m) hmem)
    | some x =>
      have hx := List.mem_of_find?_eq_some hfind
      have hxid : x.1.id = id := by simpa using List.find?_some hfind
      have heq := List.inj_on_of_nodup_map hnodup hx hmem (hxid.trans hid.symm)
      exact ⟨x, rfl, by rw [heq]⟩

theorem publishedIn_commitTo {p : Pass} {db : Store}
    (hnodup : (p.marks.map (fun m => m.1.id)).Nodup)
    (hknown : ∀ m ∈ p.marks, m.1.id ∈ db.outbox.keys) (id : Nat) :
    publishedIn (p.commitTo db) id ↔ publishedIn db id ∨ ∃ o, (o, Mark.published) ∈ p.marks ∧
      o.id = id := by
  have hmark : ∀ o : OutboxRow, (p.markedOutbox o).publishedAt ≠ none ↔
      o.publishedAt ≠ none ∨ p.markOf o.id = some .published := by
    intro o
    unfold Pass.markedOutbox
    cases p.markOf o.id with
    | none => simp
    | some m => cases m <;> simp [markOutbox]
  constructor
  · intro ⟨o', ho', hid, hpub⟩
    obtain ⟨o, ho, rfl⟩ := List.mem_map.mp ho'
    rw [p.markedOutbox_id] at hid
    rcases (hmark o).mp hpub with hpub | hpub
    · exact Or.inl ⟨o, ho, hid, hpub⟩
    · rw [hid] at hpub
      exact Or.inr ((markOf_eq_some hnodup).mp hpub)
  · rintro (⟨o, ho, hid, hpub⟩ | hmem)
    · exact ⟨p.markedOutbox o, List.mem_map_of_mem ho, by rw [p.markedOutbox_id, hid],
        (hmark o).mpr (Or.inl hpub)⟩
    · obtain ⟨o', hmem', hid'⟩ := hmem
      obtain ⟨o, ho, hoid⟩ := Table.mem_keys.mp (hknown _ hmem')
      have hid : o.id = id := hoid.trans hid'
      refine ⟨p.markedOutbox o, List.mem_map_of_mem ho, by rw [p.markedOutbox_id, hid], ?_⟩
      refine (hmark o).mpr (Or.inr ?_)
      rw [hid]
      exact (markOf_eq_some hnodup).mpr ⟨o', hmem', hid'⟩

theorem relayInv_step {db : Store} {s t : RelayState} {a : RelayAct} (h : RelayInv db s)
    (hstep : relayStep s a = some t) : RelayInv db t := by
  cases a with
  | begin k now limit =>
    obtain ⟨hidle, rfl⟩ := relayStep_begin hstep
    refine relayInv_advance h (by rw [hidle]; nofun) ?_ (fun _ _ _ => Iff.rfl) ?_ ?_
      (fun _ hx => hx) (fun _ hx => Or.inl hx) ?_
    · intro id
      rw [h.locks id k, hidle]
      simp [Pass.held]
    · simpa [Pass.held] using nodup_candidates s.db.outbox limit
    · intro id hid
      have hc : id ∈ candidates s.db.outbox limit := by simpa [Pass.held] using hid
      obtain ⟨o, ho, hoid, -⟩ := mem_candidates hc
      exact hoid ▸ Table.key_mem_keys ho
    · intro id
      constructor
      · intro hmem
        exact absurd hidle (h.begun k id true hmem)
      · intro ⟨o, ho, _⟩
        cases ho
  | lock k =>
    obtain ⟨p, id, waiting, hp, hw, hcase⟩ := relayStep_lock hstep
    have hk : s.passes k ≠ .committed := by rw [hp]; nofun
    have hnodup := h.nodup k p hp
    have hknown := h.known k p
    rw [hw] at hnodup
    rcases hcase with ⟨o, hfree, hget, rfl⟩ | ⟨-, rfl⟩
    · obtain ⟨-, hoid⟩ := Table.get_eq_some.mp hget
      have hheld : Pass.held { p with waiting := waiting, locked := p.locked ++ [o] } =
          p.locked.map OutboxRow.id ++ id :: p.marks.map (fun m => m.1.id) := by
        simp [Pass.held, hoid]
      have hperm : (id :: waiting ++ p.held).Perm
          (waiting ++ Pass.held { p with waiting := waiting, locked := p.locked ++ [o] }) := by
        rw [hheld, Pass.held, List.cons_append]
        exact (List.perm_middle.symm.trans (List.perm_middle.symm.append_left waiting))
      refine relayInv_advance h hk ?_ ?_ (hperm.nodup_iff.mp hnodup) ?_ (fun _ hx => hx)
        (fun _ hx => Or.inl hx) (h.marked k p · hp)
      · intro id'
        by_cases hid : id' = id
        · subst hid
          rw [Function.update_self, hheld]
          simp
        · rw [Function.update_of_ne hid, locks_own h hp, hheld, Pass.held]
          simp [hid]
      · intro id' k' hne
        by_cases hid : id' = id
        · subst hid
          rw [Function.update_self, hfree]
          simp [hne.symm]
        · rw [Function.update_of_ne hid]
      · intro id' hid'
        refine hknown id' hp ?_
        rw [hw]
        exact hperm.mem_iff.mpr hid'
    · refine relayInv_advance h hk (fun id => locks_own h hp id) (fun _ _ _ => Iff.rfl)
        (List.nodup_cons.mp hnodup).2 ?_ (fun _ hx => hx) (fun _ hx => Or.inl hx)
        (h.marked k p · hp)
      intro id' hid'
      refine hknown id' hp ?_
      rw [hw]
      exact List.mem_cons_of_mem _ hid'
  | publish k error =>
    obtain ⟨p, o, locked, hp, hw, hl, rfl⟩ := relayStep_publish hstep
    have hperm : p.held.Perm (Pass.held { p with
        locked := locked, marks := p.marks ++ [(o, error.elim .published .failed)] }) := by
      simp only [Pass.held, hl, List.map_cons, List.cons_append, List.map_append, List.map_nil]
      rw [← List.append_assoc]
      exact (List.perm_append_singleton _ _).symm
    refine relayInv_advance h (by rw [hp]; nofun) ?_ (fun _ _ _ => Iff.rfl) ?_ ?_ ?_ ?_ ?_
    · intro id
      rw [locks_own h hp, hperm.mem_iff]
    · exact (hperm.append_left p.waiting).nodup_iff.mp (h.nodup k p hp)
    · intro id hid
      exact h.known k p id hp ((hperm.append_left p.waiting).mem_iff.mpr hid)
    · intro x hx
      exact List.mem_append_left _ hx
    · intro x hx
      rcases List.mem_append.mp hx with hx | hx
      · exact Or.inl hx
      · rw [List.mem_singleton] at hx
        exact Or.inr (by rw [hx])
    · intro id
      rw [List.mem_append, h.marked k p id hp]
      constructor
      · rintro (⟨o', ho', hid⟩ | hx)
        · exact ⟨o', List.mem_append_left _ ho', hid⟩
        · simp only [List.mem_singleton, Publish.mk.injEq] at hx
          obtain ⟨-, hid, hok⟩ := hx
          have herr : error = none := by simpa using hok.symm
          subst herr
          exact ⟨o, by simp, hid.symm⟩
      · intro ⟨o', ho', hid⟩
        rcases List.mem_append.mp ho' with ho' | ho'
        · exact Or.inl ⟨o', ho', hid⟩
        · refine Or.inr ?_
          simp only [List.mem_singleton, Prod.mk.injEq] at ho'
          obtain ⟨rfl, hmark⟩ := ho'
          cases error with
          | none => simp [hid]
          | some e => cases hmark
  | commit k =>
    obtain ⟨p, hp, hw, hl, rfl⟩ := relayStep_commit hstep
    have hnodup : (p.marks.map (fun m => m.1.id)).Nodup := by
      simpa [hw, hl, Pass.held] using h.nodup k p hp
    have hknown : ∀ m ∈ p.marks, m.1.id ∈ s.db.outbox.keys := by
      intro m hm
      refine h.known k p m.1.id hp ?_
      rw [Pass.held]
      exact List.mem_append_right _ (List.mem_append_right _ (List.mem_map_of_mem hm))
    refine relayInv_end h hp (Or.inl rfl) (Table.keys_update _ _ p.markedOutbox_id) ?_
    intro id
    rw [publishedIn_commitTo hnodup hknown]
    simp
  | crash k =>
    obtain ⟨p, hp, rfl⟩ := relayStep_crash hstep
    refine relayInv_end h hp (Or.inr rfl) rfl ?_
    intro id
    simp

theorem relayInv_reaches {db : Store} {acts : List RelayAct} {s : RelayState}
    (h : Reaches relayStep (RelayState.initial db) acts s) : RelayInv db s :=
  h.invariant (fun _ _ _ hs ht => relayInv_step hs ht) (relayInv_initial db)

end AgenticPlatform.Correctness
