import AgenticPlatform.Correctness.SideEffects

/-!
# A completed step and the calls that come after it

The final UPDATE of a call is keyed on (run_id, step) alone. A claimant that stalls
past its claim, and wakes up after another call has taken the step over and completed
it, still writes its own ending on the completed row. These late final UPDATEs are
the only steps that touch a completed row, so a run keeps its completed steps exactly
when none of them changes what is stored.
-/
namespace AgenticPlatform.Correctness
open AgenticPlatform.Foundation AgenticPlatform.Identity AgenticPlatform.Db

/-- The final UPDATE from this phase would change what the row stores. -/
def Phase.rewrites (r : EffectRow) : Phase → Prop
  | .returned _ result => r.result ≠ some result
  | _ => True

instance (r : EffectRow) : (p : Phase) → Decidable (p.rewrites r)
  | .returned _ result => inferInstanceAs (Decidable (r.result ≠ some result))
  | .entered | .absent | .claimed _ | .running _ | .raised _ | .done _ => isTrue trivial

/-- The step is the final UPDATE of a call on a row that is completed already, and it
is not the completion with the very result stored there. -/
def overwrites (s : EffectState) : EffectAct → Prop
  | .call k (.finish _) =>
    ∃ c ∈ s.calls k, ∃ r ∈ s.rows c.req.key, r.status = .completed ∧ c.phase.rewrites r
  | _ => False

instance (s : EffectState) : (a : EffectAct) → Decidable (overwrites s a)
  | .call k (.finish _) =>
    inferInstanceAs (Decidable (∃ c ∈ s.calls k, ∃ r ∈ s.rows c.req.key, _ ∧ _))
  | .call _ (.claim _) | .call _ (.insert _) | .call _ .start | .call _ (.startError _)
  | .call _ (.settle _) | .call _ .die | .begin .. | .reap _ | .requestCancel _ => isFalse id

/-- Where a call that came after the completion may stand: before its claim, or ended
with the stored result. A cancelled run and a killed process end it early. -/
def Phase.servedFrom (result : Option Json) : Phase → Prop
  | .entered | .done .runCancelled | .done .died => True
  | .done (.returned o) => o.result = result ∧ o.repeated = true
  | _ => False

/-- Between `m`, where the step was completed with this result, and `t` nothing stored
has changed, and no call begun since has started the body. -/
structure KeepsCompleted (m : EffectState) (x : EffectKey) (result : Option Json)
    (t : EffectState) : Prop where
  row : ∃ r, t.rows x = some r ∧ r.status = .completed ∧ r.result = result
  later : ∀ k q p, m.calls k = none → t.calls k = some ⟨q, p⟩ → q.key = x → p.servedFrom result
  unstarted : ∀ k, m.calls k = none → (k, x) ∉ t.starts

/-- From every state of the run in which a step is completed, it stays as it is. -/
def StableAfterCompletion (acts : List EffectAct) : Prop :=
  ∀ pre mid post m t, acts = pre ++ mid ++ post → Reaches effectStep EffectState.initial pre m →
    Reaches effectStep m mid t → ∀ x r, m.rows x = some r → r.status = .completed →
      KeepsCompleted m x r.result t

theorem keepsCompleted_refl {m : EffectState} (hrec : StartsRecorded m) {x : EffectKey}
    {r : EffectRow} (hr : m.rows x = some r) (hs : r.status = .completed) :
    KeepsCompleted m x r.result m where
  row := ⟨r, hr, hs, rfl⟩
  later := by
    intro k q p hnone hk
    rw [hnone] at hk
    cases hk
  unstarted := fun k hnone hmem => hrec k x hmem hnone

/-- A move on a completed row leaves it alone unless it is an overwriting final UPDATE. -/
theorem callMove_completed {q : EffectRequest} {r : EffectRow} {p p' : Phase} {a : CallAct}
    {row : Option EffectRow} (h : CallMove q (some r) p a row p') (hs : r.status = .completed)
    (hok : ∀ now, a = .finish now → ¬ p.rewrites r) :
    ∃ r', row = some r' ∧ r'.status = .completed ∧ r'.result = r.result := by
  cases h with
  | claim now =>
    rw [claim_completed hs]
    exact ⟨r, rfl, hs, rfl⟩
  | complete _ now n result =>
    have hsame : r.result = some result := not_not.mp (hok now rfl)
    exact ⟨completeEffect now result r, rfl, rfl, hsame.symm⟩
  | fail _ now error => exact absurd trivial (hok now rfl)
  | _ => exact ⟨r, rfl, hs, rfl⟩

/-- A call that came after the completion is answered from the stored row. -/
theorem callMove_served {q : EffectRequest} {r : EffectRow} {p p' : Phase} {a : CallAct}
    {row : Option EffectRow} (h : CallMove q (some r) p a row p') (hs : r.status = .completed)
    (hp : p.servedFrom r.result) : p'.servedFrom r.result := by
  cases h with
  | claim now =>
    rw [claim_completed hs]
    exact ⟨rfl, rfl⟩
  | die => exact trivial
  | _ => exact hp.elim

theorem keepsCompleted_step {m s t : EffectState} {a : EffectAct} {x : EffectKey}
    {result : Option Json} (h : KeepsCompleted m x result s) (hok : ¬ overwrites s a)
    (hstep : effectStep s a = some t) : KeepsCompleted m x result t := by
  obtain ⟨r, hr, hs, rfl⟩ := h.row
  cases a with
  | begin k q =>
    obtain ⟨hnone, p, hp, rfl⟩ := effectStep_begin hstep
    refine ⟨h.row, ?_, h.unstarted⟩
    intro k' q' p' hm hk' hx
    rcases update_eq_some hk' with ⟨rfl, he⟩ | ⟨-, hk'⟩
    · cases he
      rcases hp with rfl | rfl <;> exact trivial
    · exact h.later k' q' p' hm hk' hx
  | call k a =>
    obtain ⟨q, p, row, p', hc, hmove, rfl⟩ := effectStep_call hstep
    refine ⟨?_, ?_, ?_⟩
    · by_cases hx : q.key = x
      · subst hx
        rw [hr] at hmove
        obtain ⟨r', hr', hs', hres'⟩ := callMove_completed hmove hs (by
          intro now ha hrw
          subst ha
          exact hok ⟨⟨q, p⟩, hc, r, hr, hs, hrw⟩)
        exact ⟨r', by simp [hr'], hs', hres'⟩
      · exact ⟨r, by simp [Function.update_of_ne (Ne.symm hx), hr], hs, rfl⟩
    · intro k' q' p'' hm hk' hx
      rcases update_eq_some hk' with ⟨rfl, he⟩ | ⟨-, hk'⟩
      · cases he
        rw [hx, hr] at hmove
        exact callMove_served hmove hs (h.later k' _ p hm hc hx)
      · exact h.later k' q' p'' hm hk' hx
    · intro k' hm hmem
      rcases List.mem_append.mp hmem with hmem | hmem
      · exact h.unstarted k' hm hmem
      · obtain ⟨rfl, hx, n, hn⟩ := mem_startedBy hmem
        have hserved := h.later k' q p hm hc hx.symm
        simp only at hn
        rw [hn] at hserved
        exact hserved
  | reap runIds =>
    cases hstep
    refine ⟨?_, h.later, h.unstarted⟩
    have hkeep : releaseClaim r = r := by simp [releaseClaim, hs]
    refine ⟨r, ?_, hs, rfl⟩
    simp only [hr, Option.map_some, hkeep, ite_self]
  | requestCancel runId =>
    cases hstep
    exact ⟨h.row, h.later, h.unstarted⟩

theorem keepsCompleted_reaches {m t : EffectState} {acts : List EffectAct} (hrec : StartsRecorded m)
    {x : EffectKey} {r : EffectRow} (hr : m.rows x = some r) (hs : r.status = .completed)
    (h : Reaches (restrict (fun s a => ¬ overwrites s a) effectStep) m acts t) :
    KeepsCompleted m x r.result t := by
  refine h.invariant ?_ (keepsCompleted_refl hrec hr hs)
  intro s a t hkeep hstep
  obtain ⟨hok, hstep⟩ := restrict_eq_some.mp hstep
  exact keepsCompleted_step hkeep hok hstep

/-- An overwriting final UPDATE does change the row. -/
theorem not_keepsCompleted_of_overwrites {m t : EffectState} {a : EffectAct}
    (hover : overwrites m a) (hstep : effectStep m a = some t) :
    ∃ x r, m.rows x = some r ∧ r.status = .completed ∧ ¬ KeepsCompleted m x r.result t := by
  match a, hover with
  | .call k (.finish now), ⟨⟨q, p⟩, hc, r, hr, hs, hrw⟩ =>
    refine ⟨q.key, r, hr, hs, ?_⟩
    intro hkeep
    obtain ⟨q', p', row, p'', hc', hmove, rfl⟩ := effectStep_call hstep
    rw [Option.mem_def.mp hc] at hc'
    cases hc'
    obtain ⟨r', hr', hs', hres'⟩ := hkeep.row
    have hrow : m.rows q.key = some r := hr
    simp only [Function.update_self] at hr'
    rw [hrow] at hmove
    cases hmove with
    | complete _ now n result =>
      cases hr'
      exact hrw hres'.symm
    | fail _ now error =>
      cases hr'
      cases hs'

/-- A run keeps its completed steps (the row's status and result never change again, no
call begun later starts the body, and each of them is answered with the stored result)
if and only if none of its final UPDATEs overwrites a completed row. -/
theorem completed_effects_stable_iff (acts : List EffectAct) (s : EffectState)
    (h : Reaches effectStep EffectState.initial acts s) :
    Reaches (restrict (fun s a => ¬ overwrites s a) effectStep) EffectState.initial acts s ↔
      StableAfterCompletion acts := by
  constructor
  · intro hok pre mid post m t hacts hpre hmid x r hr hs
    rw [hacts, List.append_assoc] at hok
    obtain ⟨m', hpre', hrest⟩ := reaches_append.mp hok
    obtain ⟨t', hmid', -⟩ := reaches_append.mp hrest
    have hm := hpre'.of_restrict.unique hpre
    subst hm
    have ht := hmid'.of_restrict.unique hmid
    subst ht
    exact keepsCompleted_reaches (startsRecorded_reaches hpre) hr hs hmid'
  · intro hstable
    refine reaches_restrict.mpr ⟨h, ?_⟩
    intro pre a post m hacts hpre hover
    rw [hacts] at h
    obtain ⟨m', hpre', hrest⟩ := reaches_append.mp h
    have hm := hpre'.unique hpre
    subst hm
    obtain ⟨t, hstep, -⟩ := reaches_cons.mp hrest
    obtain ⟨x, r, hr, hs, hnot⟩ := not_keepsCompleted_of_overwrites hover hstep
    refine hnot (hstable pre [a] post m' t (by simp [hacts]) hpre' ?_ x r hr hs)
    exact reaches_cons.mpr ⟨t, hstep, .nil effectStep t⟩

/-! A claimant that stalls past its claim. The first call claims at time 0 for five
minutes and starts the body; the second takes the lapsed claim over and completes; the
first body then raises, and a third call starts the body again. -/

def chargeRequest (claimant : String) : EffectRequest :=
  ⟨10, "charge", .safeToRepeat, 300, claimant⟩

def stalledRun : List EffectAct :=
  [.begin 1 (chargeRequest "a"), .call 1 (.claim 0), .call 1 (.insert 0), .call 1 .start,
   .begin 2 (chargeRequest "b"), .call 2 (.claim 400), .call 2 .start,
   .call 2 (.settle (.ok .emptyObj)), .call 2 (.finish 401)]

def wokenRun : List EffectAct :=
  [.call 1 (.settle (.error "TimeoutError: no reply")), .call 1 (.finish 402),
   .begin 3 (chargeRequest "c"), .call 3 (.claim 403), .call 3 .start]

theorem stalledRun_runs : (stalledRun.foldlM effectStep EffectState.initial).isSome = true := by
  decide +kernel

theorem wokenRun_runs :
    (wokenRun.foldlM effectStep
      ((stalledRun.foldlM effectStep EffectState.initial).get stalledRun_runs)).isSome = true := by
  decide +kernel

/-- The row was completed, and afterwards it is claimed anew and a later call has
started the body. -/
theorem completed_effect_restarted :
    ∃ m t, Reaches effectStep EffectState.initial stalledRun m ∧ Reaches effectStep m wokenRun t ∧
      (m.rows (10, "charge")).map EffectRow.status = some .completed ∧ m.calls 3 = none ∧
      (t.rows (10, "charge")).map EffectRow.status = some .started ∧
      (3, (10, "charge")) ∈ t.starts :=
  ⟨_, _, reaches_get stalledRun_runs, reaches_get wokenRun_runs, by decide +kernel⟩

/-- Up to the completion by the second call; a third one is answered from the row. -/
def answeredCharge : List EffectAct :=
  stalledRun ++ [.begin 3 (chargeRequest "c"), .call 3 (.claim 500)]

theorem answeredCharge_run :
    ((answeredCharge.foldlM (restrict (fun s a => ¬ overwrites s a) effectStep)
      EffectState.initial).map
      (fun s => (s.calls 3).map EffectCall.phase)) =
      some (some (.done (.returned ⟨some .emptyObj, true, 2⟩))) := by
  decide +kernel

/-- The run meets the condition and is stable after the completion. -/
theorem completed_effects_stable_answeredCharge :
    ∃ s, Reaches effectStep EffectState.initial answeredCharge s ∧
      (s.calls 3).map EffectCall.phase = some (.done (.returned ⟨some .emptyObj, true, 2⟩)) ∧
      StableAfterCompletion answeredCharge := by
  obtain ⟨s, hrun, hanswered⟩ := Option.map_eq_some_iff.mp answeredCharge_run
  have hmeets : Reaches (restrict (fun s a => ¬ overwrites s a) effectStep) EffectState.initial
      answeredCharge s := hrun
  exact ⟨s, hmeets.of_restrict, hanswered,
    (completed_effects_stable_iff answeredCharge s hmeets.of_restrict).mp hmeets⟩

end AgenticPlatform.Correctness
