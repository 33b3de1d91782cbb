import AgenticPlatform.Scaling.Sessions

/-!
# No turn is lost

Whoever holds the lock of a row computes from the row that is there when it commits. A row
therefore counts the turns that were committed to its session and keeps the last of them, in
the order of the commits.
-/
namespace AgenticPlatform.Scaling
open AgenticPlatform.Foundation AgenticPlatform.Identity

/-! ## One row -/

/-- The last turns. -/
def lastTurns (maxTurns : Int) (turns : List Json) : List Json :=
  turns.drop (turns.length - maxTurns.toNat)

/-- A session without turns. -/
def SessionRow.Fresh (r : SessionRow) : Prop := r.turnCount = 0 ∧ r.state.lookup "turns" = none

/-- The row of a session to which these turns have been committed. -/
structure Recorded (maxTurns : Int) (start : SessionRow) (turns : List Json) (r : SessionRow) :
    Prop where
  count : r.turnCount = turns.length
  kept : turnsOf r.state = some (lastTurns maxTurns turns)
  others : ∀ key ≠ "turns", r.state.lookup key = start.state.lookup key

section
variable {maxTurns : Int} {now : Time} {turn : Json} {start r row : SessionRow} {turns : List Json}

theorem length_lastTurns (maxTurns : Int) (turns : List Json) :
    (lastTurns maxTurns turns).length = min turns.length maxTurns.toNat := by
  rw [lastTurns, List.length_drop]
  omega

theorem recorded_fresh (h : start.Fresh) (maxTurns : Int) : Recorded maxTurns start [] start where
  count := h.1
  kept := by simp only [turnsOf, h.2, lastTurns, List.drop_nil]
  others _ _ := rfl

/-- Trimming after every turn leaves what trimming at the end leaves. -/
theorem trimmed_lastTurns (hmax : 1 ≤ maxTurns) (turns : List Json) (turn : Json) :
    trimmed maxTurns (lastTurns maxTurns turns) turn = lastTurns maxTurns (turns ++ [turn]) := by
  have hlength := length_lastTurns maxTurns turns
  rw [trimmed, hlength, lastTurns, lastTurns, List.length_append, List.length_singleton]
  rcases Nat.lt_or_ge turns.length maxTurns.toNat with hshort | hlong
  · have hall : turns.length - maxTurns.toNat = 0 := by omega
    have hoffset :
        (max 0 (((min turns.length maxTurns.toNat : Nat) : Int) + 1 - maxTurns)).toNat = 0 := by
      omega
    have hnone : turns.length + 1 - maxTurns.toNat = 0 := by omega
    rw [hall, hoffset, hnone, List.drop_zero, List.drop_zero, List.drop_zero]
  · have hoffset :
        (max 0 (((min turns.length maxTurns.toNat : Nat) : Int) + 1 - maxTurns)).toNat = 1 := by
      omega
    have hsucc : turns.length + 1 - maxTurns.toNat = turns.length - maxTurns.toNat + 1 := by omega
    have hroom : turns.length - maxTurns.toNat ≤ turns.length := by omega
    rw [hoffset, hsucc, ← List.drop_append_of_le_length hroom, List.drop_drop]

theorem appended_eq_some (h : appended maxTurns now turn r = some row) :
    ∃ turns, turnsOf r.state = some turns ∧ row = { r with
      state := Dict.setItem r.state "turns" (.arr (trimmed maxTurns turns turn))
      turnCount := r.turnCount + 1
      updatedAt := now } := by
  unfold appended at h
  split at h
  · cases h
  · rename_i turns hturns
    split at h
    · cases h
    · exact ⟨turns, hturns, (Option.some.inj h).symm⟩

theorem id_appended (h : appended maxTurns now turn r = some row) : row.id = r.id := by
  obtain ⟨turns, -, rfl⟩ := appended_eq_some h
  rfl

theorem turnsOf_setItem (state : List (String × Json)) (turns : List Json) :
    turnsOf (Dict.setItem state "turns" (.arr turns)) = some turns := by
  rw [turnsOf, Dict.lookup_setItem, if_pos rfl]

/-- One more turn. -/
theorem Recorded.appended (hmax : 1 ≤ maxTurns) (h : Recorded maxTurns start turns r)
    (happ : appended maxTurns now turn r = some row) :
    Recorded maxTurns start (turns ++ [turn]) row := by
  obtain ⟨before, hbefore, rfl⟩ := appended_eq_some happ
  cases h.kept.symm.trans hbefore
  refine ⟨?_, ?_, ?_⟩
  · rw [List.length_append, List.length_singleton, ← h.count]
  · exact (turnsOf_setItem _ _).trans (congrArg some (trimmed_lastTurns hmax turns turn))
  · intro key hkey
    exact (Dict.lookup_setItem _ _ _ _).trans ((if_neg hkey).trans (h.others key hkey))

/-- It can always be appended. -/
theorem Recorded.exists_appended (hmax : 1 ≤ maxTurns) (h : Recorded maxTurns start turns r)
    (now : Time) (turn : Json) : ∃ row, Scaling.appended maxTurns now turn r = some row := by
  have hne : trimmed maxTurns (lastTurns maxTurns turns) turn ≠ [] := by
    rw [trimmed_lastTurns hmax]
    intro hnil
    have hlength := length_lastTurns maxTurns (turns ++ [turn])
    rw [hnil, List.length_append, List.length_singleton, List.length_nil] at hlength
    omega
  rw [Scaling.appended, h.kept]
  exact ⟨_, if_neg hne⟩

end

/-! ## What a step does -/

section
variable {cast : Json → Option Json} {maxTurns : Int} {s t : SessionsState}

/-- A phase in which a call holds no lock. -/
def AppendPhase.free : AppendPhase → Prop
  | .updated .. => False
  | _ => True

inductive SessionsMove (maxTurns : Int) (s : SessionsState) : SessionsState → Prop
  | same : SessionsMove maxTurns s s
  | phase (k : Nat) (phase : AppendPhase) (hfrom : (s.calls k).free) (hto : phase.free) :
    SessionsMove maxTurns s { s with calls := Function.update s.calls k phase }
  | created (r : SessionRow) (sessions : SessionTable) (hnew : r.id ∉ s.sessions.keys)
    (hfresh : r.Fresh) (hrows : sessions.rows = s.sessions.rows ++ [r]) :
    SessionsMove maxTurns s { s with
      sessions := sessions
      started := Function.update s.started r.id (some r)
      history := Function.update s.history r.id [] }
  | updated (k : Nat) (c : AppendCall) (r row : SessionRow) (turn : Json)
    (hk : s.calls k = .begun c) (hr : s.sessions.get c.sessionId = some r)
    (hfree : s.locks c.sessionId = none) (happ : appended maxTurns c.now turn r = some row) :
    SessionsMove maxTurns s { s with
      calls := Function.update s.calls k (.updated c row turn)
      locks := Function.update s.locks c.sessionId (some k) }
  | committed (k : Nat) (c : AppendCall) (row : SessionRow) (turn : Json)
    (hk : s.calls k = .updated c row turn) : SessionsMove maxTurns s { s with
      sessions := s.sessions.update (replaced row) (replaced_id row)
      calls := Function.update s.calls k (.returned row)
      locks := Function.update s.locks c.sessionId none
      history := Function.update s.history c.sessionId (s.history c.sessionId ++ [turn]) }
  | aborted (k : Nat) (c : AppendCall) (row : SessionRow) (turn : Json)
    (hk : s.calls k = .updated c row turn) : SessionsMove maxTurns s { s with
      calls := Function.update s.calls k .raised
      locks := Function.update s.locks c.sessionId none }
  | removed (p : SessionRow → Prop) [DecidablePred p]
    (hfree : ∀ r ∈ s.sessions.rows, p r → s.locks r.id = none) :
    SessionsMove maxTurns s { s with sessions := s.sessions.deleteWhere p }

theorem sessionsStep_move {a : SessionsAct} (h : sessionsStep cast maxTurns s a = some t) :
    SessionsMove maxTurns s t := by
  cases a with
  | create ctx sessionId workload now expiresAt =>
    simp only [sessionsStep] at h
    split at h
    · cases h
      exact .same
    · rename_i sessions hinsert
      cases h
      obtain ⟨hnew, hrows⟩ := Table.tryInsert_eq_some hinsert
      exact .created _ sessions hnew ⟨rfl, rfl⟩ hrows
  | begin k c =>
    simp only [sessionsStep] at h
    split at h
    · rename_i hk
      cases h
      exact .phase k _ (by rw [hk]; trivial) trivial
    · cases h
  | update k =>
    simp only [sessionsStep] at h
    split at h
    · rename_i c hk
      have hfrom : (s.calls k).free := by rw [hk]; trivial
      split at h
      · cases h
        exact .phase k _ hfrom trivial
      · rename_i r hr
        split at h
        · cases h
        · rename_i hfree
          split at h
          · cases h
            exact .phase k _ hfrom trivial
          · rename_i turn hturn
            split at h
            · cases h
              exact .phase k _ hfrom trivial
            · rename_i row happ
              cases h
              exact .updated k c r row turn hk (Option.filter_eq_some_iff.mp hr).1 hfree happ
    · cases h
  | commit k =>
    simp only [sessionsStep] at h
    split at h
    · cases h
      exact .committed k _ _ _ ‹_›
    · cases h
  | abort k =>
    simp only [sessionsStep] at h
    split at h
    · rename_i hk
      cases h
      exact .phase k _ (by rw [hk]; trivial) trivial
    · cases h
      exact .aborted k _ _ _ ‹_›
    · cases h
  | delete ctx sessionId =>
    simp only [sessionsStep] at h
    split at h
    · cases h
      exact .same
    · split at h
      · cases h
      · rename_i hfree
        cases h
        refine .removed _ ?_
        rintro r - rfl
        exact hfree
  | purge now =>
    simp only [sessionsStep] at h
    split at h
    · cases h
    · rename_i hfree
      cases h
      refine .removed _ ?_
      intro r hr hexpired
      by_contra hlocked
      exact hfree ⟨r, hr, hexpired, Option.isSome_iff_ne_none.mpr hlocked⟩

/-! ## Every run -/

/-- A call that has updated a row holds its lock, what it is to commit was computed from the
row that is there, and every row records its history. -/
structure SessionsInv (maxTurns : Int) (s : SessionsState) : Prop where
  holds : ∀ k c row turn, s.calls k = .updated c row turn → s.locks c.sessionId = some k
  pending : ∀ k c row turn, s.calls k = .updated c row turn →
    ∃ r, s.sessions.get c.sessionId = some r ∧ appended maxTurns c.now turn r = some row
  recorded : ∀ r ∈ s.sessions.rows, ∃ start, s.started r.id = some start ∧
    Recorded maxTurns start (s.history r.id) r

/-- Two calls do not hold one lock. -/
theorem SessionsInv.alone (h : SessionsInv maxTurns s) {k k' : Nat} {c c' : AppendCall}
    {row row' : SessionRow} {turn turn' : Json} (hk : s.calls k = .updated c row turn)
    (hk' : s.calls k' = .updated c' row' turn') (hne : k' ≠ k) : c'.sessionId ≠ c.sessionId := by
  intro hid
  have hlock' := h.holds k' c' row' turn' hk'
  rw [hid, h.holds k c row turn hk] at hlock'
  exact hne (Option.some.inj hlock').symm

theorem sessionsInv_initial (maxTurns : Int) {db : SessionTable} (hfresh : ∀ r ∈ db.rows, r.Fresh) :
    SessionsInv maxTurns (.initial db) where
  holds _ _ _ _ h := by cases h
  pending _ _ _ _ h := by cases h
  recorded r hr := ⟨r, Table.get_self hr, recorded_fresh (hfresh r hr) maxTurns⟩

/-- A call that is in a phase without a lock moves to another. -/
theorem SessionsInv.phase (h : SessionsInv maxTurns s) {k : Nat} {phase : AppendPhase}
    (hto : phase.free) :
    SessionsInv maxTurns { s with calls := Function.update s.calls k phase } where
  holds k' c row turn hk' := by
    rcases update_cases hk' with ⟨-, rfl⟩ | ⟨-, hk'⟩
    · exact hto.elim
    · exact h.holds k' c row turn hk'
  pending k' c row turn hk' := by
    rcases update_cases hk' with ⟨-, rfl⟩ | ⟨-, hk'⟩
    · exact hto.elim
    · exact h.pending k' c row turn hk'
  recorded := h.recorded

theorem SessionsInv.created (h : SessionsInv maxTurns s) {r : SessionRow} {sessions : SessionTable}
    (hnew : r.id ∉ s.sessions.keys) (hfresh : r.Fresh)
    (hrows : sessions.rows = s.sessions.rows ++ [r]) : SessionsInv maxTurns { s with
      sessions := sessions
      started := Function.update s.started r.id (some r)
      history := Function.update s.history r.id [] } where
  holds := h.holds
  pending k c row turn hk := by
    obtain ⟨r', hget, happ⟩ := h.pending k c row turn hk
    obtain ⟨hmem, hid⟩ := Table.get_eq_some.mp hget
    have hmem' : r' ∈ sessions.rows := hrows ▸ List.mem_append_left [r] hmem
    exact ⟨r', Table.get_eq_some.mpr ⟨hmem', hid⟩, happ⟩
  recorded r' hr' := by
    have hmem : r' ∈ s.sessions.rows ++ [r] := hrows ▸ hr'
    rcases List.mem_append.mp hmem with hold | hlast
    · have hid : r'.id ≠ r.id := fun heq => hnew (heq ▸ Table.key_mem_keys hold)
      simp only [Function.update_of_ne hid]
      exact h.recorded r' hold
    · cases List.mem_singleton.mp hlast
      simp only [Function.update_self]
      exact ⟨r, rfl, recorded_fresh hfresh maxTurns⟩

theorem SessionsInv.updated (h : SessionsInv maxTurns s) {k : Nat} {c : AppendCall}
    {r row : SessionRow} {turn : Json} (hr : s.sessions.get c.sessionId = some r)
    (hfree : s.locks c.sessionId = none)
    (happ : Scaling.appended maxTurns c.now turn r = some row) : SessionsInv maxTurns { s with
      calls := Function.update s.calls k (.updated c row turn)
      locks := Function.update s.locks c.sessionId (some k) } where
  holds k' c' row' turn' hk' := by
    rcases update_cases hk' with ⟨rfl, hsame⟩ | ⟨-, hk'⟩
    · cases hsame
      exact Function.update_self _ _ _
    · have hlock := h.holds k' c' row' turn' hk'
      have hne : c'.sessionId ≠ c.sessionId := by
        intro heq
        rw [heq, hfree] at hlock
        cases hlock
      exact (Function.update_of_ne hne _ _).trans hlock
  pending k' c' row' turn' hk' := by
    rcases update_cases hk' with ⟨-, hsame⟩ | ⟨-, hk'⟩
    · cases hsame
      exact ⟨r, hr, happ⟩
    · exact h.pending k' c' row' turn' hk'
  recorded := h.recorded

/-- A call that has updated a row returns or fails, and its lock is free. -/
theorem SessionsInv.released (h : SessionsInv maxTurns s) {k : Nat} {c : AppendCall}
    {row : SessionRow} {turn : Json} (hk : s.calls k = .updated c row turn) {phase : AppendPhase}
    (hto : phase.free) : SessionsInv maxTurns { s with
      calls := Function.update s.calls k phase
      locks := Function.update s.locks c.sessionId none } where
  holds k' c' row' turn' hk' := by
    rcases update_cases hk' with ⟨-, rfl⟩ | ⟨hne, hk'⟩
    · exact hto.elim
    · exact (Function.update_of_ne (h.alone hk hk' hne) _ _).trans (h.holds k' c' row' turn' hk')
  pending := (h.phase hto).pending
  recorded := h.recorded

/-- The row that is committed records one turn more; the other rows stay. -/
theorem SessionsInv.committed (hmax : 1 ≤ maxTurns) (h : SessionsInv maxTurns s) {k : Nat}
    {c : AppendCall} {row : SessionRow} {turn : Json} (hk : s.calls k = .updated c row turn) :
    SessionsInv maxTurns { s with
      sessions := s.sessions.update (replaced row) (replaced_id row)
      calls := Function.update s.calls k (.returned row)
      locks := Function.update s.locks c.sessionId none
      history := Function.update s.history c.sessionId (s.history c.sessionId ++ [turn]) } := by
  obtain ⟨r, hget, happ⟩ := h.pending k c row turn hk
  obtain ⟨hr, hid⟩ := Table.get_eq_some.mp hget
  have hrow : row.id = c.sessionId := (id_appended happ).trans hid
  have hto : (AppendPhase.returned row).free := trivial
  refine ⟨(h.released hk hto).holds, ?_, ?_⟩
  · intro k' c' row' turn' hk'
    rcases update_cases hk' with ⟨-, hsame⟩ | ⟨hne, hk'⟩
    · cases hsame
    · obtain ⟨r', hget', happ'⟩ := h.pending k' c' row' turn' hk'
      have hother : ¬ r'.id = row.id := by
        rw [(Table.get_eq_some.mp hget').2, hrow]
        exact h.alone hk hk' hne
      refine ⟨r', ?_, happ'⟩
      rw [Table.get_update, hget', Option.map_some, replaced, if_neg hother]
  · intro r' hr'
    have hmem : r' ∈ (s.sessions.update (replaced row) (replaced_id row)).rows := hr'
    obtain ⟨b, hb, rfl⟩ := Table.mem_update.mp hmem
    obtain ⟨start, hstart, hrecorded⟩ := h.recorded b hb
    by_cases hbid : b.id = row.id
    · have hsame : b = r := Table.eq_of_key hb hr (hbid.trans (hrow.trans hid.symm))
      have hrep : replaced row b = row := if_pos hbid
      rw [hsame, hid] at hstart hrecorded
      rw [hrep, hrow]
      simp only [Function.update_self]
      exact ⟨start, hstart, hrecorded.appended hmax happ⟩
    · have hrep : replaced row b = b := if_neg hbid
      rw [hrep]
      simp only [Function.update_of_ne (hrow ▸ hbid)]
      exact ⟨start, hstart, hrecorded⟩

theorem SessionsInv.removed (h : SessionsInv maxTurns s) {p : SessionRow → Prop} [DecidablePred p]
    (hfree : ∀ r ∈ s.sessions.rows, p r → s.locks r.id = none) :
    SessionsInv maxTurns { s with sessions := s.sessions.deleteWhere p } where
  holds := h.holds
  pending k c row turn hk := by
    obtain ⟨r, hget, happ⟩ := h.pending k c row turn hk
    obtain ⟨hr, hid⟩ := Table.get_eq_some.mp hget
    have hlock := h.holds k c row turn hk
    have hstays : ¬ p r := by
      intro hp
      have hnone := hfree r hr hp
      rw [hid, hlock] at hnone
      cases hnone
    exact ⟨r, Table.get_eq_some.mpr ⟨Table.mem_deleteWhere.mpr ⟨hr, hstays⟩, hid⟩, happ⟩
  recorded r hr := h.recorded r (Table.mem_deleteWhere.mp hr).1

theorem sessionsInv_step (hmax : 1 ≤ maxTurns) (h : SessionsInv maxTurns s) {a : SessionsAct}
    (hstep : sessionsStep cast maxTurns s a = some t) : SessionsInv maxTurns t := by
  cases sessionsStep_move hstep with
  | same => exact h
  | phase k phase hfrom hto => exact h.phase hto
  | created r sessions hnew hfresh hrows => exact h.created hnew hfresh hrows
  | updated k c r row turn hk hr hfree happ => exact h.updated hr hfree happ
  | committed k c row turn hk => exact h.committed hmax hk
  | aborted k c row turn hk => exact h.released hk trivial
  | removed p hfree => exact h.removed hfree

theorem sessionsInv_run (hmax : 1 ≤ maxTurns) {db : SessionTable} (hfresh : ∀ r ∈ db.rows, r.Fresh)
    {acts : List SessionsAct} (hrun : Reaches (sessionsStep cast maxTurns) (.initial db) acts t) :
    SessionsInv maxTurns t :=
  hrun.invariant (fun _ _ _ hs hstep => sessionsInv_step hmax hs hstep)
    (sessionsInv_initial maxTurns hfresh)

/-! ## Who may append -/

/-- A call of another principal, or after the session has lapsed. -/
theorem update_notFound {k : Nat} {c : AppendCall} (hk : s.calls k = .begun c)
    (hclosed : ∀ r, s.sessions.get c.sessionId = some r → ¬ r.opensTo c.ctx c.now) :
    sessionsStep cast maxTurns s (.update k) =
      some { s with calls := Function.update s.calls k .sessionNotFound } := by
  have hnone : (s.sessions.get c.sessionId).filter (fun r => r.opensTo c.ctx c.now) = none := by
    refine Option.filter_eq_none_iff.mpr ?_
    intro r hr
    simpa using hclosed r hr
  simp only [sessionsStep, hk, hnone]

/-- The call of the owner, when no other one holds the lock. -/
theorem update_appends (hmax : 1 ≤ maxTurns) (h : SessionsInv maxTurns s) {k : Nat} {c : AppendCall}
    {r : SessionRow} {turn : Json} (hk : s.calls k = .begun c)
    (hr : s.sessions.get c.sessionId = some r) (hopens : r.opensTo c.ctx c.now)
    (hfree : s.locks c.sessionId = none) (hturn : cast c.turn = some turn) :
    ∃ row, appended maxTurns c.now turn r = some row ∧
      sessionsStep cast maxTurns s (.update k) = some { s with
        calls := Function.update s.calls k (.updated c row turn)
        locks := Function.update s.locks c.sessionId (some k) } := by
  obtain ⟨start, -, hrecorded⟩ := h.recorded r (Table.get_eq_some.mp hr).1
  obtain ⟨row, hrow⟩ := hrecorded.exists_appended hmax c.now turn
  have hsome : (s.sessions.get c.sessionId).filter (fun r => r.opensTo c.ctx c.now) = some r :=
    Option.filter_eq_some_iff.mpr ⟨hr, decide_eq_true hopens⟩
  refine ⟨row, hrow, ?_⟩
  simp only [sessionsStep, hk, hsome, hfree, hturn, hrow]

/-- Whatever the calls and their order, the row of a session counts the turns that were
committed to it and keeps the last of them, in that order, and nothing else of its state
changes; a call that may not see the session changes no row. -/
theorem append_lossless (hmax : 1 ≤ maxTurns) {db : SessionTable} (hfresh : ∀ r ∈ db.rows, r.Fresh)
    {acts : List SessionsAct} (hrun : Reaches (sessionsStep cast maxTurns) (.initial db) acts t) :
    (∀ r ∈ t.sessions.rows, ∃ start, t.started r.id = some start ∧
      Recorded maxTurns start (t.history r.id) r) ∧
      (∀ k c, t.calls k = .begun c →
        (∀ r, t.sessions.get c.sessionId = some r → ¬ r.opensTo c.ctx c.now) →
        sessionsStep cast maxTurns t (.update k) =
        some { t with calls := Function.update t.calls k .sessionNotFound }) ∧
      ∀ k c r turn, t.calls k = .begun c → t.sessions.get c.sessionId = some r →
      r.opensTo c.ctx c.now → t.locks c.sessionId = none → cast c.turn = some turn →
      ∃ row, appended maxTurns c.now turn r = some row ∧
      sessionsStep cast maxTurns t (.update k) = some { t with
            calls := Function.update t.calls k (.updated c row turn)
            locks := Function.update t.locks c.sessionId (some k) } := by
  have hinv := sessionsInv_run hmax hfresh hrun
  refine ⟨hinv.recorded, ?_, ?_⟩
  · intro k c hk hclosed
    exact update_notFound hk hclosed
  · intro k c r turn hk hr hopens hfree hturn
    exact update_appends hmax hinv hk hr hopens hfree hturn

end

def speaker : RequestContext := ⟨⟨7, ⟨1, "acme"⟩, "alice", [.viewer]⟩, 5, none, none, none⟩

/-- Two messages sent quickly: both calls begin before either has committed. -/
def quickMessages : List SessionsAct :=
  [.create speaker "s1" "contracts" 10 100, .begin 0 ⟨speaker, "s1", .str "hello", 20⟩,
    .begin 1 ⟨speaker, "s1", .str "again", 20⟩, .update 0, .commit 0, .update 1, .commit 1]

theorem append_lossless_quickMessages :
    ∃ t, Reaches (sessionsStep some 1) (.initial Table.empty) quickMessages t ∧
      t.history "s1" = [.str "hello", .str "again"] ∧ ∀ r ∈ t.sessions.rows, ∃ start,
      t.started r.id = some start ∧ Recorded 1 start (t.history r.id) r := by
  have hsome : (quickMessages.foldlM (sessionsStep some 1) (.initial Table.empty)).isSome = true :=
    by decide
  have hrun := reaches_get hsome
  exact ⟨_, hrun, rfl, (append_lossless (by decide) (fun _ hr => absurd hr Table.mem_empty) hrun).1⟩

end AgenticPlatform.Scaling
