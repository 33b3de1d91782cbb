import AgenticPlatform.Correctness.SideEffects

/-!
# Steps that must not be repeated

Under the reconciliation policy an abandoned claim is surfaced, never taken over. The
branch for a failed row does not look at the policy: an effect that raised, whether or
not it had been applied, is claimed again and its body started a second time. Away
from that branch a step has one claimant at a time, and once its body has been started
no other call gets past the claim.
-/
namespace AgenticPlatform.Correctness
open AgenticPlatform.Foundation AgenticPlatform.Identity AgenticPlatform.Db

/-- How often the body of a step has been started. -/
def bodyStarts (s : EffectState) (x : EffectKey) : Nat := (s.starts.map Prod.snd).count x

/-- Every attempt at the step is made under the reconciliation policy. -/
def asksReconciliation (x : EffectKey) (_ : EffectState) : EffectAct → Prop
  | .begin _ q => q.key = x → q.retryPolicy = .needsReconciliation
  | _ => True

instance (x : EffectKey) (s : EffectState) : (a : EffectAct) → Decidable (asksReconciliation x s a)
  | .begin _ q => inferInstanceAs (Decidable (q.key = x → q.retryPolicy = .needsReconciliation))
  | .call .. | .reap _ | .requestCancel _ => isTrue trivial

/-- The steps of a system in which one step is always performed under that policy. -/
def reconcilingStep (x : EffectKey) : EffectState → EffectAct → Option EffectState :=
  restrict (asksReconciliation x) effectStep

/-- A call claims the step from a failed row after the body has been started. -/
def reclaimsFailed (x : EffectKey) (s : EffectState) : EffectAct → Prop
  | .call k (.claim _) => bodyStarts s x ≠ 0 ∧
    ∃ c ∈ s.calls k, c.req.key = x ∧ c.phase = .entered ∧ ∃ r ∈ s.rows x, r.status = .failed
  | _ => False

instance (x : EffectKey) (s : EffectState) : (a : EffectAct) → Decidable (reclaimsFailed x s a)
  | .call k (.claim _) =>
    inferInstanceAs (Decidable (_ ∧ ∃ c ∈ s.calls k, _ ∧ _ ∧ ∃ r ∈ s.rows x, _))
  | .call _ (.finish _) | .call _ (.insert _) | .call _ .start | .call _ (.startError _)
  | .call _ (.settle _) | .call _ .die | .begin .. | .reap _ | .requestCancel _ => isFalse id

/-- The four kinds of move under the policy: nothing held before or after, a claim
gained, a claim kept on the same row, a claim let go. -/
theorem callMove_kinds {q : EffectRequest} {row row' : Option EffectRow} {p p' : Phase}
    {a : CallAct} (hq : q.retryPolicy = .needsReconciliation) (h : CallMove q row p a row' p') :
    (p.claiming = false ∧ p'.claiming = false ∧ row' = row) ∨
      (p.claiming = false ∧ (∃ n, p' = .claimed n) ∧ (∃ r, row' = some r ∧ r.status = .started) ∧
        (row = none ∨ ∃ now r, a = .claim now ∧ p = .entered ∧ row = some r ∧ r.status = .failed)) ∨
      (p.claiming = true ∧ p'.claiming = true ∧ row' = row ∧ ∀ n, p' ≠ .claimed n) ∨
      (p.claiming = true ∧ p'.claiming = false ∧ (row' = none → row = none)) := by
  cases h with
  | look now => exact Or.inl ⟨rfl, rfl, rfl⟩
  | claim now r =>
    cases hs : r.status with
    | started =>
      obtain ⟨hrow, hp | hp⟩ := claim_started now hs hq
      · rw [hrow, hp]
        exact Or.inl ⟨rfl, rfl, rfl⟩
      · rw [hrow, hp]
        exact Or.inl ⟨rfl, rfl, rfl⟩
    | completed =>
      rw [claim_completed hs]
      exact Or.inl ⟨rfl, rfl, rfl⟩
    | failed =>
      rw [claim_failed hs]
      exact Or.inr (Or.inl ⟨rfl, ⟨_, rfl⟩, ⟨_, rfl, rfl⟩, Or.inr ⟨now, r, rfl, rfl, rfl, hs⟩⟩)
  | insert now => exact Or.inr (Or.inl ⟨rfl, ⟨1, rfl⟩, ⟨_, rfl, rfl⟩, Or.inl rfl⟩)
  | lose now r => exact Or.inl ⟨rfl, rfl, rfl⟩
  | start _ n => exact Or.inr (Or.inr (Or.inl ⟨rfl, rfl, rfl, nofun⟩))
  | stop _ n error => exact Or.inr (Or.inr (Or.inl ⟨rfl, rfl, rfl, nofun⟩))
  | stopError _ n error => exact Or.inr (Or.inr (Or.inl ⟨rfl, rfl, rfl, nofun⟩))
  | settle _ n result => exact Or.inr (Or.inr (Or.inl ⟨rfl, rfl, rfl, nofun⟩))
  | throw _ n error => exact Or.inr (Or.inr (Or.inl ⟨rfl, rfl, rfl, nofun⟩))
  | complete _ now n result => exact Or.inr (Or.inr (Or.inr ⟨rfl, rfl, Option.map_eq_none_iff.mp⟩))
  | fail _ now error => exact Or.inr (Or.inr (Or.inr ⟨rfl, rfl, Option.map_eq_none_iff.mp⟩))
  | die _ _ hnot =>
    cases hp : p.claiming with
    | false => exact Or.inl ⟨rfl, rfl, rfl⟩
    | true => exact Or.inr (Or.inr (Or.inr ⟨rfl, rfl, id⟩))

/-- One claimant at a time, and none of them unstarted once the body has run. -/
structure OnceInv (x : EffectKey) (s : EffectState) : Prop where
  policy : ∀ k q p, s.calls k = some ⟨q, p⟩ → q.key = x → q.retryPolicy = .needsReconciliation
  held : ∀ k q p, s.calls k = some ⟨q, p⟩ → q.key = x → p.claiming = true →
    ∃ r, s.rows x = some r ∧ r.status = .started
  sole : ∀ k k' q q' p p', s.calls k = some ⟨q, p⟩ → s.calls k' = some ⟨q', p'⟩ → q.key = x →
    q'.key = x → p.claiming = true → p'.claiming = true → k = k'
  fresh : ∀ k q n, s.calls k = some ⟨q, .claimed n⟩ → q.key = x → bodyStarts s x = 0
  absent : s.rows x = none → bodyStarts s x = 0
  once : bodyStarts s x ≤ 1

theorem onceInv_initial (x : EffectKey) : OnceInv x EffectState.initial := by
  refine ⟨?_, ?_, ?_, ?_, fun _ => rfl, Nat.zero_le 1⟩
  · intro k q p hk
    cases hk
  · intro k q p hk
    cases hk
  · intro k k' q q' p p' hk
    cases hk
  · intro k q n hk
    cases hk

theorem startedBy_eq_nil {k : Nat} {q : EffectRequest} {p p' : Phase}
    (h : p.claiming = false ∨ p'.claiming = false) : startedBy k ⟨q, p⟩ p' = [] := by
  cases p with
  | claimed n =>
    cases p' with
    | running m => rcases h with h | h <;> cases h
    | _ => rfl
  | _ => rfl

/-- A move starts the body at most once, and only from a claim not used before. -/
theorem count_startedBy (k : Nat) (q : EffectRequest) (p p' : Phase) (x : EffectKey) :
    ((startedBy k ⟨q, p⟩ p').map Prod.snd).count x = 0 ∨
    (((startedBy k ⟨q, p⟩ p').map Prod.snd).count x = 1 ∧ ∃ n, p = .claimed n) := by
  cases p with
  | claimed n =>
    cases p' with
    | running m =>
      by_cases hx : q.key = x
      · exact Or.inr ⟨by simp [startedBy, hx], n, rfl⟩
      · exact Or.inl (by simp [startedBy, hx])
    | _ => exact Or.inl rfl
  | _ => exact Or.inl rfl

theorem bodyStarts_append (s : EffectState) (new : List (Nat × EffectKey)) (x : EffectKey)
    {rows : EffectKey → Option EffectRow} {calls : Nat → Option EffectCall} :
    bodyStarts { s with rows := rows, calls := calls, starts := s.starts ++ new } x =
      bodyStarts s x + (new.map Prod.snd).count x := by
  simp [bodyStarts, List.count_append]

/-- A step that leaves the row's presence, the standing claims and the count alone. -/
theorem onceInv_frame {x : EffectKey} {s t : EffectState} (h : OnceInv x s)
    (hpolicy : ∀ k q p, t.calls k = some ⟨q, p⟩ → q.key = x → q.retryPolicy = .needsReconciliation)
    (hcalls : ∀ k q p, t.calls k = some ⟨q, p⟩ → q.key = x → p.claiming = true →
      s.calls k = some ⟨q, p⟩)
    (hrow : ∀ r, s.rows x = some r → ∃ r', t.rows x = some r' ∧ r'.status = r.status)
    (hnone : t.rows x = none → s.rows x = none) (hcount : bodyStarts t x = bodyStarts s x) :
    OnceInv x t := by
  refine ⟨hpolicy, ?_, ?_, ?_, ?_, ?_⟩
  · intro k q p hk hx hp
    obtain ⟨r, hr, hs⟩ := h.held k q p (hcalls k q p hk hx hp) hx hp
    obtain ⟨r', hr', hs'⟩ := hrow r hr
    exact ⟨r', hr', hs'.trans hs⟩
  · intro k k' q q' p p' hk hk' hx hx' hp hp'
    exact h.sole k k' q q' p p' (hcalls k q p hk hx hp) (hcalls k' q' p' hk' hx' hp') hx hx' hp hp'
  · intro k q n hk hx
    rw [hcount]
    exact h.fresh k q n (hcalls k q _ hk hx rfl) hx
  · intro hn
    rw [hcount]
    exact h.absent (hnone hn)
  · rw [hcount]
    exact h.once

/-- One move of a call on the step itself. -/
theorem onceInv_call {x : EffectKey} {s : EffectState} {k : Nat} {a : CallAct} {q : EffectRequest}
    {p p' : Phase} {row : Option EffectRow} (h : OnceInv x s)
    (hok : ¬ reclaimsFailed x s (.call k a)) (hc : s.calls k = some ⟨q, p⟩) (hx : q.key = x)
    (hmove : CallMove q (s.rows x) p a row p') : OnceInv x { s with
      rows := Function.update s.rows x row
      calls := Function.update s.calls k (some ⟨q, p'⟩)
      starts := s.starts ++ startedBy k ⟨q, p⟩ p' } := by
  have hpol := h.policy k q p hc hx
  have hpolicy : ∀ k' q' p'', Function.update s.calls k (some ⟨q, p'⟩) k' = some ⟨q', p''⟩ →
      q'.key = x → q'.retryPolicy = .needsReconciliation := by
    intro k' q' p'' hk' hx'
    rcases update_eq_some hk' with ⟨rfl, he⟩ | ⟨-, hk'⟩
    · cases he
      exact hpol
    · exact h.policy k' q' p'' hk' hx'
  rcases callMove_kinds hpol hmove with ⟨hp, hp', hrow⟩ | ⟨hp, ⟨n, rfl⟩, ⟨r, hr, hst⟩, hfrom⟩ |
    ⟨hp, hp', hrow, hnc⟩ | ⟨hp, hp', hnone⟩
  · refine onceInv_frame h hpolicy ?_ ?_ ?_ ?_
    · intro k' q' p'' hk' _ hcl
      rcases update_eq_some hk' with ⟨rfl, he⟩ | ⟨-, hk'⟩
      · cases he
        rw [hp'] at hcl
        cases hcl
      · exact hk'
    · intro r hr
      exact ⟨r, by simp [hrow, hr], rfl⟩
    · intro hn
      simpa [hrow] using hn
    · rw [bodyStarts_append, startedBy_eq_nil (Or.inl hp)]
      rfl
  · -- a claim gained: nobody held the step, and its body has not been started
    have hfree : ∀ k' q' p'', s.calls k' = some ⟨q', p''⟩ → q'.key = x → p''.claiming ≠ true := by
      intro k' q' p'' hk' hx' hcl
      obtain ⟨r', hr', hst'⟩ := h.held k' q' p'' hk' hx' hcl
      rcases hfrom with hn | ⟨now, r'', -, -, hr'', hst''⟩
      · rw [hn] at hr'
        cases hr'
      · rw [hr''] at hr'
        cases hr'
        rw [hst''] at hst'
        cases hst'
    have hzero : bodyStarts s x = 0 := by
      rcases hfrom with hn | ⟨now, r', rfl, hpe, hr', hst'⟩
      · exact h.absent hn
      · by_contra hne
        exact hok ⟨hne, ⟨q, p⟩, hc, hx, hpe, r', hr', hst'⟩
    have hmine : ∀ k' q' p'', Function.update s.calls k (some ⟨q, .claimed n⟩) k' = some ⟨q', p''⟩ →
        q'.key = x → p''.claiming = true → k' = k := by
      intro k' q' p'' hk' hx' hcl
      rcases update_eq_some hk' with ⟨rfl, -⟩ | ⟨-, hk'⟩
      · rfl
      · exact absurd hcl (hfree k' q' p'' hk' hx')
    have hcount : bodyStarts { s with
        rows := Function.update s.rows x row
        calls := Function.update s.calls k (some ⟨q, .claimed n⟩)
        starts := s.starts ++ startedBy k ⟨q, p⟩ (.claimed n) } x = 0 := by
      rw [bodyStarts_append, startedBy_eq_nil (Or.inl hp), hzero]
      rfl
    refine ⟨hpolicy, ?_, ?_, ?_, ?_, ?_⟩
    · intro k' q' p'' hk' hx' hcl
      exact ⟨r, by simp [hr], hst⟩
    · intro k₁ k₂ q₁ q₂ p₁ p₂ hk₁ hk₂ hx₁ hx₂ hp₁ hp₂
      exact (hmine k₁ q₁ p₁ hk₁ hx₁ hp₁).trans (hmine k₂ q₂ p₂ hk₂ hx₂ hp₂).symm
    · intro _ _ _ _ _
      exact hcount
    · intro _
      exact hcount
    · rw [hcount]
      exact Nat.zero_le 1
  · -- a claim kept: its holder is the only one, and may be the one that starts the body
    have hmine : ∀ k' q' p'', Function.update s.calls k (some ⟨q, p'⟩) k' = some ⟨q', p''⟩ →
        q'.key = x → p''.claiming = true → k' = k := by
      intro k' q' p'' hk' hx' hcl
      rcases update_eq_some hk' with ⟨rfl, -⟩ | ⟨-, hk'⟩
      · rfl
      · exact h.sole k' k q' q p'' p hk' hc hx' hx hcl hp
    obtain ⟨r, hr, hst⟩ := h.held k q p hc hx hp
    refine ⟨hpolicy, ?_, ?_, ?_, ?_, ?_⟩
    · intro k' q' p'' _ _ _
      exact ⟨r, by simp [hrow, hr], hst⟩
    · intro k₁ k₂ q₁ q₂ p₁ p₂ hk₁ hk₂ hx₁ hx₂ hp₁ hp₂
      exact (hmine k₁ q₁ p₁ hk₁ hx₁ hp₁).trans (hmine k₂ q₂ p₂ hk₂ hx₂ hp₂).symm
    · intro k' q' n hk' hx'
      have he := hmine k' q' _ hk' hx' rfl
      subst he
      simp only [Function.update_self, Option.some.injEq, EffectCall.mk.injEq] at hk'
      exact absurd hk'.2 (hnc n)
    · intro hn
      simp [hrow, hr] at hn
    · rw [bodyStarts_append]
      rcases count_startedBy k q p p' x with hcnt | ⟨hcnt, n, rfl⟩
      · rw [hcnt]
        exact h.once
      · rw [hcnt, h.fresh k q n hc hx]
  · -- a claim let go: no one is left holding the step
    have hfree : ∀ k' q' p'', Function.update s.calls k (some ⟨q, p'⟩) k' = some ⟨q', p''⟩ →
        q'.key = x → p''.claiming ≠ true := by
      intro k' q' p'' hk' hx' hcl
      rcases update_eq_some hk' with ⟨rfl, he⟩ | ⟨hne, hk'⟩
      · cases he
        rw [hp'] at hcl
        cases hcl
      · exact hne (h.sole k' k q' q p'' p hk' hc hx' hx hcl hp)
    obtain ⟨r, hr, -⟩ := h.held k q p hc hx hp
    refine ⟨hpolicy, ?_, ?_, ?_, ?_, ?_⟩
    · intro k' q' p'' hk' hx' hcl
      exact absurd hcl (hfree k' q' p'' hk' hx')
    · intro k₁ k₂ q₁ q₂ p₁ p₂ hk₁ hk₂ hx₁ hx₂ hp₁ hp₂
      exact absurd hp₁ (hfree k₁ q₁ p₁ hk₁ hx₁)
    · intro k' q' n hk' hx'
      exact absurd rfl (hfree k' q' _ hk' hx')
    · intro hn
      have hn' := hnone (by simpa using hn)
      rw [hr] at hn'
      cases hn'
    · rw [bodyStarts_append, startedBy_eq_nil (Or.inr hp')]
      exact h.once

theorem onceInv_step {x : EffectKey} {s t : EffectState} {a : EffectAct} (h : OnceInv x s)
    (hok : ¬ reclaimsFailed x s a) (hstep : reconcilingStep x s a = some t) : OnceInv x t := by
  obtain ⟨hask, hstep⟩ := restrict_eq_some.mp hstep
  cases a with
  | begin k q =>
    obtain ⟨hnone, p, hp, rfl⟩ := effectStep_begin hstep
    refine onceInv_frame h ?_ ?_ (fun r hr => ⟨r, hr, rfl⟩) id rfl
    · intro k' q' p' hk' hx
      rcases update_eq_some hk' with ⟨rfl, he⟩ | ⟨-, hk'⟩
      · cases he
        exact hask hx
      · exact h.policy k' q' p' hk' hx
    · intro k' q' p' hk' _ hcl
      rcases update_eq_some hk' with ⟨rfl, he⟩ | ⟨-, hk'⟩
      · cases he
        rcases hp with rfl | rfl <;> cases hcl
      · exact hk'
  | call k a =>
    obtain ⟨q, p, row, p', hc, hmove, rfl⟩ := effectStep_call hstep
    by_cases hx : q.key = x
    · rw [hx] at hmove
      have hcall := onceInv_call h hok hc hx hmove
      rw [← hx] at hcall
      rw [← hx]
      exact hcall
    · have hcount : ((startedBy k ⟨q, p⟩ p').map Prod.snd).count x = 0 := by
        rw [List.count_eq_zero]
        intro hmem
        obtain ⟨⟨k', x'⟩, hmem, hx'⟩ := List.mem_map.mp hmem
        obtain ⟨-, he, -⟩ := mem_startedBy hmem
        exact hx (he.symm.trans hx')
      have hother : ∀ k' q' p'', Function.update s.calls k (some ⟨q, p'⟩) k' = some ⟨q', p''⟩ →
          q'.key = x → s.calls k' = some ⟨q', p''⟩ := by
        intro k' q' p'' hk' hx'
        rcases update_eq_some hk' with ⟨rfl, he⟩ | ⟨-, hk'⟩
        · cases he
          exact absurd hx' hx
        · exact hk'
      refine onceInv_frame h ?_ ?_ ?_ ?_ ?_
      · intro k' q' p'' hk' hx'
        exact h.policy k' q' p'' (hother k' q' p'' hk' hx') hx'
      · intro k' q' p'' hk' hx' _
        exact hother k' q' p'' hk' hx'
      · intro r hr
        exact ⟨r, by simp [Function.update_of_ne (Ne.symm hx), hr], rfl⟩
      · intro hn
        simpa [Function.update_of_ne (Ne.symm hx)] using hn
      · rw [bodyStarts_append, hcount, Nat.add_zero]
  | reap runIds =>
    cases hstep
    refine onceInv_frame h h.policy (fun k q p hk _ _ => hk) ?_ ?_ rfl
    · intro r hr
      simp only [hr, Option.map_some]
      split
      · refine ⟨releaseClaim r, rfl, ?_⟩
        unfold releaseClaim
        split <;> rfl
      · exact ⟨r, rfl, rfl⟩
    · intro hn
      simp only at hn
      split at hn
      · exact Option.map_eq_none_iff.mp hn
      · exact hn
  | requestCancel runId =>
    cases hstep
    exact onceInv_frame h h.policy (fun k q p hk _ _ => hk) (fun r hr => ⟨r, hr, rfl⟩) id rfl

/-! ## Calls made after the body was started -/

/-- Where such a call may stand: before its claim, or ended with the stored result or
with one of the refusals. -/
def Phase.declined (row : Option EffectRow) : Phase → Prop
  | .entered | .done .effectAlreadyRunning | .done (.needsReconciliation _) | .done .runCancelled
  | .done .died => True
  | .done (.returned o) => ∃ r, row = some r ∧ r.status = .completed ∧
    o = ⟨r.result, true, r.attempt⟩
  | _ => False

structure Declines (m : EffectState) (x : EffectKey) (t : EffectState) : Prop where
  inv : OnceInv x t
  ran : bodyStarts t x ≠ 0
  later : ∀ k q p, m.calls k = none → t.calls k = some ⟨q, p⟩ → q.key = x → p.declined (t.rows x)

/-- A completed row outlives the step, so an answer read from it stays true of it. -/
theorem declined_mono {p : Phase} {row row' : Option EffectRow} (h : p.declined row)
    (hkeep : ∀ r, row = some r → r.status = .completed → row' = some r) : p.declined row' := by
  cases p with
  | done e =>
    cases e with
    | returned o =>
      obtain ⟨r, hr, hs, ho⟩ := h
      exact ⟨r, hkeep r hr hs, hs, ho⟩
    | _ => exact h
  | _ => exact h

/-- No move changes a completed row: its claimant is gone, and a claim only reads it. -/
theorem callMove_keeps_completed {x : EffectKey} {s : EffectState} {k : Nat} {a : CallAct}
    {q : EffectRequest} {p p' : Phase} {row : Option EffectRow} (h : OnceInv x s)
    (hc : s.calls k = some ⟨q, p⟩) (hx : q.key = x) (hmove : CallMove q (s.rows x) p a row p') :
    ∀ r, s.rows x = some r → r.status = .completed → row = some r := by
  intro r hr hs
  have hidle : p.claiming ≠ true := by
    intro hp
    obtain ⟨r', hr', hs'⟩ := h.held k q p hc hx hp
    rw [hr] at hr'
    cases hr'
    rw [hs] at hs'
    cases hs'
  rcases callMove_kinds (h.policy k q p hc hx) hmove with ⟨-, -, hrow⟩ |
    ⟨-, -, -, hn | ⟨-, r', -, -, hr', hs'⟩⟩ | ⟨hp, -⟩ | ⟨hp, -⟩
  · rw [hrow, hr]
  · rw [hr] at hn
    cases hn
  · rw [hr] at hr'
    cases hr'
    rw [hs] at hs'
    cases hs'
  · exact absurd hp hidle
  · exact absurd hp hidle

theorem callMove_declined {x : EffectKey} {s : EffectState} {k : Nat} {a : CallAct}
    {q : EffectRequest} {p p' : Phase} {row : Option EffectRow} (h : OnceInv x s)
    (hran : bodyStarts s x ≠ 0) (hok : ¬ reclaimsFailed x s (.call k a))
    (hc : s.calls k = some ⟨q, p⟩) (hx : q.key = x) (hp : p.declined (s.rows x))
    (hmove : CallMove q (s.rows x) p a row p') : p'.declined row := by
  have hrow : ∃ r, s.rows x = some r := Option.ne_none_iff_exists'.mp (fun hn => hran (h.absent hn))
  obtain ⟨r, hr⟩ := hrow
  have hpol := h.policy k q p hc hx
  rw [hr] at hmove
  cases hmove with
  | claim now r =>
    cases hs : r.status with
    | started =>
      obtain ⟨-, hans | hans⟩ := claim_started now hs hpol
      · rw [hans]
        trivial
      · rw [hans]
        trivial
    | completed =>
      rw [claim_completed hs]
      exact ⟨r, rfl, hs, rfl⟩
    | failed => exact absurd ⟨hran, ⟨q, .entered⟩, hc, hx, rfl, r, hr, hs⟩ hok
  | die => trivial
  | _ => exact hp.elim

theorem declines_step {m s t : EffectState} {a : EffectAct} {x : EffectKey} (h : Declines m x s)
    (hok : ¬ reclaimsFailed x s a) (hstep : reconcilingStep x s a = some t) : Declines m x t := by
  have hinv := onceInv_step h.inv hok hstep
  obtain ⟨-, hstep⟩ := restrict_eq_some.mp hstep
  cases a with
  | begin k q =>
    obtain ⟨hnone, p, hp, rfl⟩ := effectStep_begin hstep
    refine ⟨hinv, h.ran, ?_⟩
    intro k' q' p' hm hk' hx
    rcases update_eq_some hk' with ⟨rfl, he⟩ | ⟨-, hk'⟩
    · cases he
      rcases hp with rfl | rfl <;> trivial
    · exact h.later k' q' p' hm hk' hx
  | call k a =>
    obtain ⟨q, p, row, p', hc, hmove, rfl⟩ := effectStep_call hstep
    refine ⟨hinv, ?_, ?_⟩
    · rw [bodyStarts_append]
      have hran := h.ran
      omega
    · intro k' q' p'' hm hk' hx
      by_cases hq : q.key = x
      · rw [hq] at hmove
        simp only [hq, Function.update_self]
        rcases update_eq_some hk' with ⟨rfl, he⟩ | ⟨-, hk'⟩
        · cases he
          exact callMove_declined h.inv h.ran hok hc hq (h.later k' _ p hm hc hq) hmove
        · exact declined_mono (h.later k' q' p'' hm hk' hx)
            (callMove_keeps_completed h.inv hc hq hmove)
      · simp only [Function.update_of_ne (Ne.symm hq)]
        rcases update_eq_some hk' with ⟨rfl, he⟩ | ⟨-, hk'⟩
        · cases he
          exact absurd hx hq
        · exact h.later k' q' p'' hm hk' hx
  | reap runIds =>
    cases hstep
    refine ⟨hinv, h.ran, ?_⟩
    intro k q p hm hk hx
    refine declined_mono (h.later k q p hm hk hx) ?_
    intro r hr hs
    have hkeep : releaseClaim r = r := by simp [releaseClaim, hs]
    simp only [hr, Option.map_some, hkeep, ite_self]
  | requestCancel runId =>
    cases hstep
    exact ⟨hinv, h.ran, h.later⟩

/-- A step performed under the reconciliation policy by every attempt has its body
started at most once, and every call begun after that start ends with the stored
result or a refusal, in every run in which no call claims the step from a failed row
after the body was started. -/
theorem reconciled_step_started_once (x : EffectKey) (acts : List EffectAct) (s : EffectState)
    (h : Reaches (restrict (fun s a => ¬ reclaimsFailed x s a) (reconcilingStep x))
      EffectState.initial acts s) :
    bodyStarts s x ≤ 1 ∧ ∀ later t,
      Reaches (restrict (fun s a => ¬ reclaimsFailed x s a) (reconcilingStep x)) s later t →
      bodyStarts s x ≠ 0 → ∀ k q p, s.calls k = none → t.calls k = some ⟨q, p⟩ → q.key = x →
      p.declined (t.rows x) := by
  have hinv : OnceInv x s := by
    refine h.invariant ?_ (onceInv_initial x)
    intro s a t hs hstep
    obtain ⟨hok, hstep⟩ := restrict_eq_some.mp hstep
    exact onceInv_step hs hok hstep
  refine ⟨hinv.once, ?_⟩
  intro later t hlater hran
  have hdecl : Declines s x t := by
    refine hlater.invariant ?_ ⟨hinv, hran, ?_⟩
    · intro m a t hm hstep
      obtain ⟨hok, hstep⟩ := restrict_eq_some.mp hstep
      exact declines_step hm hok hstep
    · intro k q p hnone hk
      rw [hnone] at hk
      cases hk
  exact hdecl.later

/-! An effect that raises after it was applied, and a call that comes later. -/

def mailRequest (claimant : String) : EffectRequest :=
  ⟨10, "mail", .needsReconciliation, 300, claimant⟩

def raisedRun : List EffectAct :=
  [.begin 1 (mailRequest "a"), .call 1 (.claim 0), .call 1 (.insert 0), .call 1 .start,
   .call 1 (.settle (.error "ConnectionError: reply lost")), .call 1 (.finish 1)]

def repeatedRun : List EffectAct :=
  raisedRun ++ [.begin 2 (mailRequest "b"), .call 2 (.claim 2), .call 2 .start]

theorem repeatedRun_runs :
    (repeatedRun.foldlM (reconcilingStep (10, "mail")) EffectState.initial).isSome = true := by
  decide +kernel

/-- The body of a step that must not be repeated is started twice. -/
theorem reconciled_step_started_twice :
    ∃ s, Reaches (reconcilingStep (10, "mail")) EffectState.initial repeatedRun s ∧
      bodyStarts s (10, "mail") = 2 :=
  ⟨_, reaches_get repeatedRun_runs, by decide +kernel⟩

theorem raisedRun_meets_condition :
    (raisedRun.foldlM (restrict (fun s a => ¬ reclaimsFailed (10, "mail") s a)
      (reconcilingStep (10, "mail"))) EffectState.initial).isSome = true := by
  decide +kernel

/-- The result at the run up to the effect's failure, where the body was started once. -/
theorem reconciled_step_started_once_raisedRun :
    ∃ s, Reaches (reconcilingStep (10, "mail")) EffectState.initial raisedRun s ∧
      bodyStarts s (10, "mail") ≤ 1 ∧ bodyStarts s (10, "mail") ≠ 0 :=
  ⟨_, (reaches_get raisedRun_meets_condition).of_restrict,
    (reconciled_step_started_once (10, "mail") raisedRun _
      (reaches_get raisedRun_meets_condition)).1,
    by decide +kernel⟩

end AgenticPlatform.Correctness
