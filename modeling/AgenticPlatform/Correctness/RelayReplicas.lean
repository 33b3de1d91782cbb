import AgenticPlatform.Correctness.Relay

/-!
# Several relays at once

The lock on a row keeps two passes from publishing it while both are under way. It
does not keep a pass whose snapshot is old from locking the row once the other has
committed: the candidate list was fixed by the snapshot and `published_at` is not read
again. When every call of `publish` returns and no pass crashes, the rows are
published exactly once when each of them was selected by some pass and no pass locks a
row that is published already.
-/
namespace AgenticPlatform.Correctness
open AgenticPlatform.Foundation AgenticPlatform.Identity AgenticPlatform.Db

/-- Every call of `publish` returns and no pass crashes. -/
def RelayAct.clean : RelayAct → Bool
  | .crash _ | .publish _ (some _) => false
  | .begin .. | .lock _ | .publish _ none | .commit _ => true

def cleanStep : RelayState → RelayAct → Option RelayState :=
  restrict (fun _ a => a.clean = true) relayStep

def publishCount (s : RelayState) (id : Nat) : Nat := s.publishes.countP (fun x => x.row = id)

/-- The candidate a pass tries to lock next. -/
def PassState.next : PassState → Option Nat
  | .active p => p.waiting.head?
  | _ => none

instance (db : Store) (id : Nat) : Decidable (publishedIn db id) :=
  inferInstanceAs (Decidable (∃ o ∈ db.outbox.rows, _ ∧ _))

/-- A pass locks a row that another pass has published since the snapshot. -/
def locksPublished (s : RelayState) : RelayAct → Prop
  | .lock k => ∃ id ∈ (s.passes k).next, s.locks id = none ∧ publishedIn s.db id
  | _ => False

instance (s : RelayState) : (a : RelayAct) → Decidable (locksPublished s a)
  | .lock k => inferInstanceAs (Decidable (∃ id ∈ (s.passes k).next, _ ∧ _))
  | .begin .. | .publish .. | .commit _ | .crash _ => isFalse id

/-- `publish` was called once for each row that was unpublished at the start. -/
def PublishedOnce (db : Store) (s : RelayState) : Prop :=
  ∀ o ∈ db.outbox.rows, o.publishedAt = none → publishCount s o.id = 1

/-- Each of these rows was within the limit of some pass's selection. -/
def Selected (db : Store) (s : RelayState) : Prop :=
  ∀ o ∈ db.outbox.rows, o.publishedAt = none → o.id ∈ s.batched

instance (db : Store) (s : RelayState) : Decidable (Selected db s) :=
  inferInstanceAs (Decidable (∀ o ∈ db.outbox.rows, _ → _))

theorem publishCount_append {s t : RelayState} {k id' : Nat} {ok : Bool}
    (h : t.publishes = s.publishes ++ [⟨k, id', ok⟩]) (id : Nat) :
    publishCount t id = publishCount s id + if id' = id then 1 else 0 := by
  simp only [publishCount, h, List.countP_append, List.countP_singleton, decide_eq_true_eq]

theorem one_le_publishCount {s : RelayState} {x : Publish} (h : x ∈ s.publishes) :
    1 ≤ publishCount s x.row :=
  List.countP_pos_iff.mpr ⟨x, h, by simp⟩

/-! ## What every pass selects -/

/-- Whatever a pass handles it has selected, and it selected it unpublished. -/
structure SelectionInv (db : Store) (s : RelayState) : Prop where
  relay : RelayInv db s
  keys : s.db.outbox.keys = db.outbox.keys
  handled : ∀ k p id, s.passes k = .active p → id ∈ p.waiting ++ p.held → id ∈ s.batched
  published : ∀ x ∈ s.publishes, x.row ∈ s.batched
  fresh : ∀ id ∈ s.batched, ¬ publishedIn db id ∧ id ∈ db.outbox.keys

theorem not_publishedIn_candidate {db : Store} {limit id : Nat}
    (h : id ∈ candidates db.outbox limit) : ¬ publishedIn db id ∧ id ∈ db.outbox.keys := by
  obtain ⟨o, ho, hid, hnone⟩ := mem_candidates h
  refine ⟨?_, hid ▸ Table.key_mem_keys ho⟩
  intro ⟨o', ho', hid', hpub⟩
  have heq : o' = o := Table.eq_of_key ho' ho (hid'.trans hid.symm)
  exact hpub (heq ▸ hnone)

theorem selectionInv_step {db : Store} {s t : RelayState} {a : RelayAct} (h : SelectionInv db s)
    (hstep : relayStep s a = some t) : SelectionInv db t := by
  have hrelay := relayInv_step h.relay hstep
  cases a with
  | begin k now limit =>
    obtain ⟨hidle, rfl⟩ := relayStep_begin hstep
    refine ⟨hrelay, h.keys, ?_, ?_, ?_⟩
    · intro k' p id hp hid
      rcases update_cases hp with ⟨rfl, he⟩ | ⟨-, hp⟩
      · cases he
        exact List.mem_append_right _ (by simpa [Pass.held] using hid)
      · exact List.mem_append_left _ (h.handled k' p id hp hid)
    · intro x hx
      exact List.mem_append_left _ (h.published x hx)
    · intro id hid
      rcases List.mem_append.mp hid with hid | hid
      · exact h.fresh id hid
      · obtain ⟨hnot, hkey⟩ := not_publishedIn_candidate hid
        rw [h.keys] at hkey
        exact ⟨fun hpub => hnot ((h.relay.published id).mpr (Or.inl hpub)), hkey⟩
  | lock k =>
    obtain ⟨p, id, waiting, hp, hw, hcase⟩ := relayStep_lock hstep
    have hown := h.handled k p
    rcases hcase with ⟨o, hfree, hget, rfl⟩ | ⟨-, rfl⟩
    · refine ⟨hrelay, h.keys, ?_, h.published, h.fresh⟩
      intro k' p' id' hp' hid'
      rcases update_cases hp' with ⟨rfl, he⟩ | ⟨-, hp'⟩
      · cases he
        have hoid : o.id = id := (Table.get_eq_some.mp hget).2
        refine hown id' hp ?_
        simp only [Pass.held, List.map_append, List.map_cons, List.map_nil, List.mem_append,
          List.mem_cons, hoid, hw] at hid' ⊢
        tauto
      · exact h.handled k' p' id' hp' hid'
    · refine ⟨hrelay, h.keys, ?_, h.published, h.fresh⟩
      intro k' p' id' hp' hid'
      rcases update_cases hp' with ⟨rfl, he⟩ | ⟨-, hp'⟩
      · cases he
        refine hown id' hp ?_
        rw [hw]
        exact List.mem_cons_of_mem _ hid'
      · exact h.handled k' p' id' hp' hid'
  | publish k error =>
    obtain ⟨p, o, locked, hp, hw, hl, rfl⟩ := relayStep_publish hstep
    have hown := h.handled k p
    refine ⟨hrelay, h.keys, ?_, ?_, h.fresh⟩
    · intro k' p' id' hp' hid'
      rcases update_cases hp' with ⟨rfl, he⟩ | ⟨-, hp'⟩
      · cases he
        refine hown id' hp ?_
        simp only [Pass.held, hl, List.map_append, List.map_cons, List.map_nil, List.mem_append,
          List.mem_cons] at hid' ⊢
        tauto
      · exact h.handled k' p' id' hp' hid'
    · intro x hx
      rcases List.mem_append.mp hx with hx | hx
      · exact h.published x hx
      · rw [List.mem_singleton] at hx
        rw [hx]
        refine hown o.id hp ?_
        simp [Pass.held, hl]
  | commit k =>
    obtain ⟨p, hp, hw, hl, rfl⟩ := relayStep_commit hstep
    refine ⟨hrelay, (Table.keys_update _ _ p.markedOutbox_id).trans h.keys, ?_,
      h.published, h.fresh⟩
    intro k' p' id' hp' hid'
    rcases update_cases hp' with ⟨-, he⟩ | ⟨-, hp'⟩
    · cases he
    · exact h.handled k' p' id' hp' hid'
  | crash k =>
    obtain ⟨p, hp, rfl⟩ := relayStep_crash hstep
    refine ⟨hrelay, h.keys, ?_, h.published, h.fresh⟩
    intro k' p' id' hp' hid'
    rcases update_cases hp' with ⟨-, he⟩ | ⟨-, hp'⟩
    · cases he
    · exact h.handled k' p' id' hp' hid'

theorem selectionInv_reaches {db : Store} {acts : List RelayAct} {s : RelayState}
    (h : Reaches cleanStep (RelayState.initial db) acts s) : SelectionInv db s := by
  refine h.invariant (fun _ _ _ hs ht => selectionInv_step hs (restrict_eq_some.mp ht).2) ?_
  refine ⟨relayInv_initial db, rfl, ?_, ?_, ?_⟩
  · intro k p id hp
    cases hp
  · intro x hx
    cases hx
  · intro id hid
    cases hid

/-! ## A row locked after it was published -/

/-- The row has been handed to `publish` twice, or once with one more call to come. -/
def Doomed (id : Nat) (s : RelayState) : Prop :=
  2 ≤ publishCount s id ∨
    (1 ≤ publishCount s id ∧ ∃ k p, s.passes k = .active p ∧ id ∈ p.locked.map OutboxRow.id)

theorem doomed_step {s t : RelayState} {a : RelayAct} {id : Nat} (h : Doomed id s)
    (hstep : cleanStep s a = some t) : Doomed id t := by
  obtain ⟨hclean, hstep⟩ := restrict_eq_some.mp hstep
  cases a with
  | begin k now limit =>
    obtain ⟨hidle, rfl⟩ := relayStep_begin hstep
    rcases h with h | ⟨h, k', p, hp, hid⟩
    · exact Or.inl h
    · refine Or.inr ⟨h, k', p, ?_, hid⟩
      have hne : k' ≠ k := by
        intro he
        rw [he, hidle] at hp
        cases hp
      simp [Function.update_of_ne hne, hp]
  | lock k =>
    obtain ⟨p, id', waiting, hp, -, hcase⟩ := relayStep_lock hstep
    rcases h with h | ⟨h, k', p', hp', hid⟩
    · rcases hcase with ⟨o, -, -, rfl⟩ | ⟨-, rfl⟩ <;> exact Or.inl h
    · by_cases he : k' = k
      · subst he
        rw [hp] at hp'
        cases hp'
        rcases hcase with ⟨o, -, -, rfl⟩ | ⟨-, rfl⟩
        · refine Or.inr ⟨h, k', _, Function.update_self .., ?_⟩
          rw [List.map_append]
          exact List.mem_append_left _ hid
        · exact Or.inr ⟨h, k', _, Function.update_self .., hid⟩
      · rcases hcase with ⟨o, -, -, rfl⟩ | ⟨-, rfl⟩ <;>
          exact Or.inr ⟨h, k', p', by simp [Function.update_of_ne he, hp'], hid⟩
  | publish k error =>
    obtain ⟨p, o, locked, hp, -, hl, ht⟩ := relayStep_publish hstep
    have hcount := publishCount_append (congrArg RelayState.publishes ht) id
    have hpasses := congrArg RelayState.passes ht
    rcases h with h | ⟨h, k', p', hp', hid⟩
    · exact Or.inl (by omega)
    · by_cases ho : o.id = id
      · rw [if_pos ho] at hcount
        exact Or.inl (by omega)
      · refine Or.inr ⟨by omega, ?_⟩
        by_cases he : k' = k
        · subst he
          rw [hp] at hp'
          cases hp'
          refine ⟨k', _, (congrFun hpasses k').trans (Function.update_self ..), ?_⟩
          rw [hl, List.map_cons] at hid
          rcases List.mem_cons.mp hid with hid | hid
          · exact absurd hid.symm ho
          · exact hid
        · exact ⟨k', p', by simp [hpasses, Function.update_of_ne he, hp'], hid⟩
  | commit k =>
    obtain ⟨p, hp, -, hl, rfl⟩ := relayStep_commit hstep
    rcases h with h | ⟨h, k', p', hp', hid⟩
    · exact Or.inl h
    · have hne : k' ≠ k := by
        intro he
        rw [he, hp] at hp'
        cases hp'
        rw [hl] at hid
        cases hid
      exact Or.inr ⟨h, k', p', by simp [Function.update_of_ne hne, hp'], hid⟩
  | crash k => cases hclean

/-- Locking a published row dooms it. -/
theorem doomed_of_locksPublished {db : Store} {s t : RelayState} {a : RelayAct}
    (h : SelectionInv db s) (hbad : locksPublished s a) (hstep : cleanStep s a = some t) :
    ∃ o ∈ db.outbox.rows, o.publishedAt = none ∧ Doomed o.id t := by
  obtain ⟨-, hstep⟩ := restrict_eq_some.mp hstep
  match a, hbad with
  | .lock k, ⟨id, hnext, hfree, hpub⟩ =>
    obtain ⟨p, id', waiting, hp, hw, hcase⟩ := relayStep_lock hstep
    have hid : id' = id := by simpa [hp, PassState.next, hw] using hnext
    subst hid
    obtain ⟨hnot, hkey⟩ := h.fresh id' (h.handled k p id' hp (by simp [hw]))
    obtain ⟨o, ho, hoid⟩ := Table.mem_keys.mp hkey
    have hnone : o.publishedAt = none := by
      by_contra hne
      exact hnot ⟨o, ho, hoid, hne⟩
    refine ⟨o, ho, hnone, ?_⟩
    rw [hoid]
    rcases (h.relay.published id').mp hpub with hinit | ⟨k', -, hmem⟩
    · exact absurd hinit hnot
    · have hone := one_le_publishCount hmem
      have hkeys : id' ∈ s.db.outbox.keys := h.keys ▸ hkey
      rcases hcase with ⟨o', -, hget, rfl⟩ | ⟨hno | hno, -⟩
      · refine Or.inr ⟨hone, k, _, Function.update_self .., ?_⟩
        have hoid' : o'.id = id' := (Table.get_eq_some.mp hget).2
        simp [hoid']
      · exact absurd hfree hno
      · exact absurd hkeys (Table.get_eq_none.mp hno)

/-! ## Runs in which no published row is locked -/

/-- A row is free and counted right, or its one holder is about to publish it or has
published it; what was selected is still to be tried, held, or published. -/
structure ReplicaInv (db : Store) (s : RelayState) : Prop where
  selection : SelectionInv db s
  marks : ∀ k p m, s.passes k = .active p → m ∈ p.marks → m.2 = .published
  free : ∀ id, ¬ publishedIn db id → s.locks id = none →
    (¬ publishedIn s.db id ∧ publishCount s id = 0) ∨ (publishedIn s.db id ∧ publishCount s id = 1)
  locked : ∀ k p o, s.passes k = .active p → o ∈ p.locked →
    ¬ publishedIn s.db o.id ∧ publishCount s o.id = 0
  marked : ∀ k p m, s.passes k = .active p → m ∈ p.marks →
    ¬ publishedIn s.db m.1.id ∧ publishCount s m.1.id = 1
  pending : ∀ id ∈ s.batched, (∃ k p, s.passes k = .active p ∧ id ∈ p.waiting) ∨ s.locks id ≠ none ∨
    publishedIn s.db id

theorem mem_held_of_locked {p : Pass} {o : OutboxRow} (h : o ∈ p.locked) : o.id ∈ p.held :=
  List.mem_append_left _ (List.mem_map_of_mem h)

theorem mem_held_of_marks {p : Pass} {m : OutboxRow × Mark} (h : m ∈ p.marks) : m.1.id ∈ p.held :=
  List.mem_append_right _ (List.mem_map.mpr ⟨m, h, rfl⟩)

theorem replicaInv_begin {db : Store} {s t : RelayState} {k : Nat} {now : Time} {limit : Nat}
    (h : ReplicaInv db s) (hstep : relayStep s (.begin k now limit) = some t) :
    ReplicaInv db t := by
  have hsel := selectionInv_step h.selection hstep
  obtain ⟨hidle, rfl⟩ := relayStep_begin hstep
  refine ⟨hsel, ?_, h.free, ?_, ?_, ?_⟩
  · intro k' p m hp hm
    rcases update_cases hp with ⟨rfl, he⟩ | ⟨-, hp⟩
    · cases he
      cases hm
    · exact h.marks k' p m hp hm
  · intro k' p o hp ho
    rcases update_cases hp with ⟨rfl, he⟩ | ⟨-, hp⟩
    · cases he
      cases ho
    · exact h.locked k' p o hp ho
  · intro k' p m hp hm
    rcases update_cases hp with ⟨rfl, he⟩ | ⟨-, hp⟩
    · cases he
      cases hm
    · exact h.marked k' p m hp hm
  · intro id hid
    rcases List.mem_append.mp hid with hid | hid
    · rcases h.pending id hid with ⟨k', p, hp, hwait⟩ | hrest
      · refine Or.inl ⟨k', p, ?_, hwait⟩
        have hne : k' ≠ k := by
          intro he
          rw [he, hidle] at hp
          cases hp
        simp [Function.update_of_ne hne, hp]
      · exact Or.inr hrest
    · exact Or.inl ⟨k, _, Function.update_self .., hid⟩

theorem replicaInv_lock {db : Store} {s t : RelayState} {k : Nat} (h : ReplicaInv db s)
    (hok : ¬ locksPublished s (.lock k)) (hstep : relayStep s (.lock k) = some t) :
    ReplicaInv db t := by
  have hsel := selectionInv_step h.selection hstep
  obtain ⟨p, id, waiting, hp, hw, hcase⟩ := relayStep_lock hstep
  have hmem : id ∈ p.waiting ++ p.held := by simp [hw]
  rcases hcase with ⟨o, hfree, hget, rfl⟩ | ⟨hno, rfl⟩
  · obtain ⟨-, hoid⟩ := Table.get_eq_some.mp hget
    have hunpub : ¬ publishedIn s.db id := by
      intro hpub
      exact hok ⟨id, by simp [hp, PassState.next, hw], hfree, hpub⟩
    have hzero : publishCount s id = 0 := by
      obtain ⟨hnot, -⟩ := h.selection.fresh id (h.selection.handled k p id hp hmem)
      rcases h.free id hnot hfree with ⟨-, hc⟩ | ⟨hpub, -⟩
      · exact hc
      · exact absurd hpub hunpub
    refine ⟨hsel, ?_, ?_, ?_, ?_, ?_⟩
    · intro k' p' m hp' hm
      rcases update_cases hp' with ⟨rfl, he⟩ | ⟨-, hp'⟩
      · cases he
        exact h.marks k' p m hp hm
      · exact h.marks k' p' m hp' hm
    · intro id' hnot hl
      by_cases hid : id' = id
      · rw [hid] at hl
        simp at hl
      · simp only [Function.update_of_ne hid] at hl
        exact h.free id' hnot hl
    · intro k' p' o' hp' ho'
      rcases update_cases hp' with ⟨rfl, he⟩ | ⟨-, hp'⟩
      · cases he
        rcases List.mem_append.mp ho' with ho' | ho'
        · exact h.locked k' p o' hp ho'
        · rw [List.mem_singleton] at ho'
          rw [ho', hoid]
          exact ⟨hunpub, hzero⟩
      · exact h.locked k' p' o' hp' ho'
    · intro k' p' m hp' hm
      rcases update_cases hp' with ⟨rfl, he⟩ | ⟨-, hp'⟩
      · cases he
        exact h.marked k' p m hp hm
      · exact h.marked k' p' m hp' hm
    · intro id' hid'
      by_cases hid : id' = id
      · refine Or.inr (Or.inl ?_)
        simp [hid]
      · rcases h.pending id' hid' with ⟨k', p', hp', hwait⟩ | hl | hpub
        · by_cases he : k' = k
          · subst he
            rw [hp] at hp'
            cases hp'
            rw [hw] at hwait
            rcases List.mem_cons.mp hwait with hwait | hwait
            · exact absurd hwait hid
            · exact Or.inl ⟨k', _, Function.update_self .., hwait⟩
          · exact Or.inl ⟨k', p', by simp [Function.update_of_ne he, hp'], hwait⟩
        · exact Or.inr (Or.inl (by simpa [Function.update_of_ne hid] using hl))
        · exact Or.inr (Or.inr hpub)
  · have hlocked : s.locks id ≠ none := by
      rcases hno with hno | hno
      · exact hno
      · exact absurd (h.selection.relay.known k p id hp hmem) (Table.get_eq_none.mp hno)
    refine ⟨hsel, ?_, h.free, ?_, ?_, ?_⟩
    · intro k' p' m hp' hm
      rcases update_cases hp' with ⟨rfl, he⟩ | ⟨-, hp'⟩
      · cases he
        exact h.marks k' p m hp hm
      · exact h.marks k' p' m hp' hm
    · intro k' p' o' hp' ho'
      rcases update_cases hp' with ⟨rfl, he⟩ | ⟨-, hp'⟩
      · cases he
        exact h.locked k' p o' hp ho'
      · exact h.locked k' p' o' hp' ho'
    · intro k' p' m hp' hm
      rcases update_cases hp' with ⟨rfl, he⟩ | ⟨-, hp'⟩
      · cases he
        exact h.marked k' p m hp hm
      · exact h.marked k' p' m hp' hm
    · intro id' hid'
      rcases h.pending id' hid' with ⟨k', p', hp', hwait⟩ | hrest
      · by_cases he : k' = k
        · subst he
          rw [hp] at hp'
          cases hp'
          rw [hw] at hwait
          rcases List.mem_cons.mp hwait with hwait | hwait
          · exact Or.inr (Or.inl (hwait ▸ hlocked))
          · exact Or.inl ⟨k', _, Function.update_self .., hwait⟩
        · exact Or.inl ⟨k', p', by simp [Function.update_of_ne he, hp'], hwait⟩
      · exact Or.inr hrest

/-- A call of `publish` counts for its own row alone, and only the pass that made it
holds that row. -/
theorem replicaInv_publish {db : Store} {s t : RelayState} {k : Nat} (h : ReplicaInv db s)
    (hstep : relayStep s (.publish k none) = some t) : ReplicaInv db t := by
  have hsel := selectionInv_step h.selection hstep
  obtain ⟨p, o, locked, hp, hw, hl, ht⟩ := relayStep_publish hstep
  have hcount := publishCount_append (congrArg RelayState.publishes ht)
  subst ht
  have hrelay := h.selection.relay
  have homem : o ∈ p.locked := by rw [hl]; exact List.mem_cons_self
  have hmine : s.locks o.id = some k := (locks_own hrelay hp o.id).mpr (mem_held_of_locked homem)
  have hnodup : (o.id :: (locked.map OutboxRow.id ++ p.marks.map (fun m => m.1.id))).Nodup := by
    have := h.selection.relay.nodup k p hp
    rw [hw, List.nil_append, Pass.held, hl] at this
    exact this
  have hfresh := (List.nodup_cons.mp hnodup).1
  -- a row held by this pass in another place, or by another pass, is another row
  have hother : ∀ k' p' id, s.passes k' = .active p' → id ∈ p'.held → k' ≠ k → o.id ≠ id := by
    intro k' p' id hp' hid hne he
    rw [← he, ← locks_own hrelay hp' o.id, hmine] at hid
    exact hne (Option.some.inj hid).symm
  refine ⟨hsel, ?_, ?_, ?_, ?_, ?_⟩
  · intro k' p' m hp' hm
    rcases update_cases hp' with ⟨rfl, he⟩ | ⟨-, hp'⟩
    · cases he
      rcases List.mem_append.mp hm with hm | hm
      · exact h.marks k' p m hp hm
      · rw [List.mem_singleton] at hm
        rw [hm]
        rfl
    · exact h.marks k' p' m hp' hm
  · intro id hnot hlock
    have hne : o.id ≠ id := by
      intro he
      rw [← he] at hlock
      rw [hmine] at hlock
      cases hlock
    rw [hcount, if_neg hne]
    exact h.free id hnot hlock
  · intro k' p' o' hp' ho'
    rw [hcount]
    rcases update_cases hp' with ⟨rfl, he⟩ | ⟨hne, hp'⟩
    · cases he
      have hne : o.id ≠ o'.id := by
        intro he
        exact hfresh (List.mem_append_left _ (he ▸ List.mem_map_of_mem ho'))
      rw [if_neg hne]
      exact h.locked k' p o' hp (by rw [hl]; exact List.mem_cons_of_mem _ ho')
    · rw [if_neg (hother k' p' o'.id hp' (mem_held_of_locked ho') hne)]
      exact h.locked k' p' o' hp' ho'
  · intro k' p' m hp' hm
    rw [hcount]
    rcases update_cases hp' with ⟨rfl, he⟩ | ⟨hne, hp'⟩
    · cases he
      rcases List.mem_append.mp hm with hm | hm
      · have hne : o.id ≠ m.1.id := by
          intro he
          exact hfresh (List.mem_append_right _ (he ▸ List.mem_map.mpr ⟨m, hm, rfl⟩))
        rw [if_neg hne]
        exact h.marked k' p m hp hm
      · rw [List.mem_singleton] at hm
        obtain ⟨hunpub, hzero⟩ := h.locked k' p o hp homem
        rw [hm, if_pos rfl, hzero]
        exact ⟨hunpub, rfl⟩
    · rw [if_neg (hother k' p' m.1.id hp' (mem_held_of_marks hm) hne)]
      exact h.marked k' p' m hp' hm
  · intro id hid
    rcases h.pending id hid with ⟨k', p', hp', hwait⟩ | hrest
    · have hne : k' ≠ k := by
        intro he
        rw [he, hp] at hp'
        cases hp'
        rw [hw] at hwait
        cases hwait
      exact Or.inl ⟨k', p', by simp [Function.update_of_ne hne, hp'], hwait⟩
    · exact Or.inr hrest

/-- The commit makes published exactly the rows whose lock it gives back. -/
theorem replicaInv_commit {db : Store} {s t : RelayState} {k : Nat} (h : ReplicaInv db s)
    (hstep : relayStep s (.commit k) = some t) : ReplicaInv db t := by
  have hsel := selectionInv_step h.selection hstep
  obtain ⟨p, hp, hw, hl, rfl⟩ := relayStep_commit hstep
  have hrelay := h.selection.relay
  have hnodup : (p.marks.map (fun m => m.1.id)).Nodup := by
    simpa [hw, hl, Pass.held] using hrelay.nodup k p hp
  have hknown : ∀ m ∈ p.marks, m.1.id ∈ s.db.outbox.keys := fun m hm =>
    hrelay.known k p m.1.id hp (List.mem_append_right _ (mem_held_of_marks hm))
  have hpub : ∀ id, publishedIn (p.commitTo s.db) id ↔
      publishedIn s.db id ∨ s.locks id = some k := by
    intro id
    rw [publishedIn_commitTo hnodup hknown, locks_own hrelay hp]
    refine or_congr_right ?_
    simp only [Pass.held, hl, List.map_nil, List.nil_append, List.mem_map]
    constructor
    · rintro ⟨o, ho, hid⟩
      exact ⟨_, ho, hid⟩
    · rintro ⟨⟨o, m⟩, hm, hid⟩
      have hmark : m = .published := h.marks k p _ hp hm
      exact ⟨o, hmark ▸ hm, hid⟩
  have hactive : ∀ k' p', Function.update s.passes k .committed k' = .active p' →
      k' ≠ k ∧ s.passes k' = .active p' := by
    intro k' p' hp'
    rcases update_cases hp' with ⟨-, he⟩ | hp'
    · cases he
    · exact hp'
  have hother : ∀ k' p' id, k' ≠ k → s.passes k' = .active p' → id ∈ p'.held →
      ¬ publishedIn s.db id → ¬ publishedIn (p.commitTo s.db) id := by
    intro k' p' id hne hp' hid hnot
    rw [hpub, not_or]
    refine ⟨hnot, ?_⟩
    rw [(locks_own hrelay hp' id).mpr hid]
    intro he
    exact hne (Option.some.inj he)
  refine ⟨hsel, ?_, ?_, ?_, ?_, ?_⟩
  · intro k' p' m hp' hm
    exact h.marks k' p' m (hactive k' p' hp').2 hm
  · intro id hnot hlock
    have hcases : s.locks id = none ∨ s.locks id = some k := by
      cases hk : s.locks id with
      | none => exact Or.inl rfl
      | some k' =>
        refine Or.inr ?_
        by_contra hne
        have hrel : release s.locks k id = some k' :=
          release_eq_some.mpr ⟨hk, fun he => hne (he ▸ rfl)⟩
        cases hrel.symm.trans hlock
    rcases hcases with hnone | hk
    · have hsame : publishedIn (p.commitTo s.db) id ↔ publishedIn s.db id := by
        rw [hpub, hnone]
        simp
      change (¬ publishedIn (p.commitTo s.db) id ∧ publishCount s id = 0) ∨
        (publishedIn (p.commitTo s.db) id ∧ publishCount s id = 1)
      rw [hsame]
      exact h.free id hnot hnone
    · have hheld := (locks_own hrelay hp id).mp hk
      simp only [Pass.held, hl, List.map_nil, List.nil_append, List.mem_map] at hheld
      obtain ⟨m, hm, hid⟩ := hheld
      obtain ⟨-, hone⟩ := h.marked k p m hp hm
      rw [hid] at hone
      exact Or.inr ⟨(hpub id).mpr (Or.inr hk), hone⟩
  · intro k' p' o hp' ho
    obtain ⟨hne, hp'⟩ := hactive k' p' hp'
    obtain ⟨hnot, hzero⟩ := h.locked k' p' o hp' ho
    exact ⟨hother k' p' o.id hne hp' (mem_held_of_locked ho) hnot, hzero⟩
  · intro k' p' m hp' hm
    obtain ⟨hne, hp'⟩ := hactive k' p' hp'
    obtain ⟨hnot, hone⟩ := h.marked k' p' m hp' hm
    exact ⟨hother k' p' m.1.id hne hp' (mem_held_of_marks hm) hnot, hone⟩
  · intro id hid
    rcases h.pending id hid with ⟨k', p', hp', hwait⟩ | hlock | hdone
    · have hne : k' ≠ k := by
        intro he
        rw [he, hp] at hp'
        cases hp'
        rw [hw] at hwait
        cases hwait
      exact Or.inl ⟨k', p', by simp [Function.update_of_ne hne, hp'], hwait⟩
    · by_cases hk : s.locks id = some k
      · exact Or.inr (Or.inr ((hpub id).mpr (Or.inr hk)))
      · refine Or.inr (Or.inl ?_)
        obtain ⟨k', hk'⟩ := Option.ne_none_iff_exists'.mp hlock
        have hrel : release s.locks k id = some k' :=
          release_eq_some.mpr ⟨hk', fun he => hk (by rw [hk', he])⟩
        simp [hrel]
    · exact Or.inr (Or.inr ((hpub id).mpr (Or.inl hdone)))

theorem replicaInv_step {db : Store} {s t : RelayState} {a : RelayAct} (h : ReplicaInv db s)
    (hok : ¬ locksPublished s a) (hstep : cleanStep s a = some t) : ReplicaInv db t := by
  obtain ⟨hclean, hstep⟩ := restrict_eq_some.mp hstep
  cases a with
  | begin k now limit => exact replicaInv_begin h hstep
  | lock k => exact replicaInv_lock h hok hstep
  | publish k error =>
    cases error with
    | none => exact replicaInv_publish h hstep
    | some e => cases hclean
  | commit k => exact replicaInv_commit h hstep
  | crash k => cases hclean

theorem replicaInv_initial (db : Store) : ReplicaInv db (RelayState.initial db) := by
  refine ⟨selectionInv_reaches (.nil cleanStep _), ?_, ?_, ?_, ?_, ?_⟩
  · intro k p m hp
    cases hp
  · intro id hnot _
    exact Or.inl ⟨hnot, rfl⟩
  · intro k p o hp
    cases hp
  · intro k p m hp
    cases hp
  · intro id hid
    cases hid

/-- Relay replicas: when every call of `publish` returns, no pass crashes and every
pass has ended, each row unpublished at the start was published exactly once if and
only if each was within the limit of some pass's selection and no pass locked a row
that was published already. -/
theorem relay_publishes_once_iff (db : Store) (acts : List RelayAct) (s : RelayState)
    (h : Reaches cleanStep (RelayState.initial db) acts s)
    (hended : ∀ k p, s.passes k ≠ .active p) :
    PublishedOnce db s ↔ Selected db s ∧
      Reaches (restrict (fun s a => ¬ locksPublished s a) cleanStep) (RelayState.initial db)
      acts s := by
  constructor
  · intro honce
    refine ⟨?_, reaches_restrict.mpr ⟨h, ?_⟩⟩
    · intro o ho hnone
      have hone := honce o ho hnone
      have hpos : 0 < publishCount s o.id := by omega
      obtain ⟨x, hx, hrow⟩ := List.countP_pos_iff.mp hpos
      have hid : x.row = o.id := by simpa using hrow
      exact hid ▸ (selectionInv_reaches h).published x hx
    · intro pre a post m hacts hpre hbad
      rw [hacts] at h
      obtain ⟨m', hpre', hrest⟩ := reaches_append.mp h
      have hm := hpre'.unique hpre
      subst hm
      obtain ⟨t, hstep, hpost⟩ := reaches_cons.mp hrest
      obtain ⟨o, ho, hnone, hdoom⟩ :=
        doomed_of_locksPublished (selectionInv_reaches hpre') hbad hstep
      have hone := honce o ho hnone
      rcases hpost.invariant (fun _ _ _ hs ht => doomed_step hs ht) hdoom with htwo |
        ⟨-, k, p, hp, -⟩
      · omega
      · exact hended k p hp
  · intro ⟨hsel, hok⟩ o ho hnone
    have hinv : ReplicaInv db s := by
      refine hok.invariant ?_ (replicaInv_initial db)
      intro s a t hs hstep
      obtain ⟨hok, hstep⟩ := restrict_eq_some.mp hstep
      exact replicaInv_step hs hok hstep
    have hbatched := hsel o ho hnone
    have hunlocked : s.locks o.id = none := by
      by_contra hl
      obtain ⟨k, hk⟩ := Option.ne_none_iff_exists'.mp hl
      obtain ⟨p, hp, -⟩ := (hinv.selection.relay.locks o.id k).mp hk
      exact hended k p hp
    have hpub : publishedIn s.db o.id := by
      rcases hinv.pending o.id hbatched with ⟨k, p, hp, -⟩ | hl | hpub
      · exact absurd hp (hended k p)
      · exact absurd hunlocked hl
      · exact hpub
    rcases hinv.free o.id (hinv.selection.fresh o.id hbatched).1 hunlocked with ⟨hnot, -⟩ |
      ⟨-, hone⟩
    · exact absurd hpub hnot
    · exact hone

/-! Two passes over one row. The second takes its snapshot before the first commits
and its lock afterwards. -/

def oneRowStore : Store :=
  ⟨Table.empty, ⟨[newOutbox 0 .emptyObj sampleRequest 10 1], by decide⟩⟩

def overlappingPasses : List RelayAct :=
  [.begin 1 0 100, .begin 2 0 100, .lock 1, .publish 1 none, .commit 1, .lock 2, .publish 2 none,
    .commit 2]

def consecutivePasses : List RelayAct :=
  [.begin 1 0 100, .lock 1, .publish 1 none, .commit 1, .begin 2 1 100, .commit 2]

theorem overlappingPasses_run :
    (overlappingPasses.foldlM cleanStep (RelayState.initial oneRowStore)).isSome = true := by
  decide +kernel

/-- The row is published twice, although every call returned and no pass crashed. -/
theorem relay_publishes_twice :
    ∃ s, Reaches cleanStep (RelayState.initial oneRowStore) overlappingPasses s ∧
      s.passes 1 = .committed ∧ s.passes 2 = .committed ∧ publishCount s 1 = 2 :=
  ⟨_, reaches_get overlappingPasses_run, by decide +kernel⟩

theorem consecutivePasses_run :
    (consecutivePasses.foldlM (restrict (fun s a => ¬ locksPublished s a) cleanStep)
      (RelayState.initial oneRowStore)).isSome = true := by decide +kernel

theorem consecutivePasses_ended (k : Nat) (p : Pass) :
    ((consecutivePasses.foldlM (restrict (fun s a => ¬ locksPublished s a) cleanStep)
      (RelayState.initial oneRowStore)).get consecutivePasses_run).passes k ≠ .active p := by
  match k with
  | 0 => nofun
  | 1 => nofun
  | 2 => nofun
  | n + 3 => nofun

/-- The result at two passes one after the other, which publish the row once. -/
theorem relay_publishes_once_consecutivePasses :
    ∃ s, Reaches cleanStep (RelayState.initial oneRowStore) consecutivePasses s ∧
      PublishedOnce oneRowStore s :=
  ⟨_, (reaches_get consecutivePasses_run).of_restrict,
    (relay_publishes_once_iff oneRowStore consecutivePasses _
      (reaches_get consecutivePasses_run).of_restrict consecutivePasses_ended).mpr
    ⟨by decide +kernel, reaches_get consecutivePasses_run⟩⟩

end AgenticPlatform.Correctness
