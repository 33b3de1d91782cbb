import AgenticPlatform.Correctness.Reconciliation

/-!
# What the calls of a step return

A body that raised may have been applied, and its step is claimed again: the body may be
started twice. What the calls return does not show it. Under the reconciliation policy a
row has a claimant only while it is started, so the call that completes it is alone, nothing
rewrites the row afterwards, and every other call that returns reads what it stored.
-/
namespace AgenticPlatform.Correctness
open AgenticPlatform.Foundation AgenticPlatform.Identity AgenticPlatform.Db

/-! ## The claimant -/

/-- This call holds a claim on the step. -/
def Claims (x : EffectKey) (s : EffectState) (k : Nat) : Prop :=
  ∃ c ∈ s.calls k, c.req.key = x ∧ c.phase.claiming = true

/-- This call on the step has returned. -/
def Returned (x : EffectKey) (s : EffectState) (k : Nat) (o : EffectOutcome) : Prop :=
  ∃ c ∈ s.calls k, c.req.key = x ∧ c.phase = .done (.returned o)

/-- The claimants and the returns, as the row tells of them. -/
structure SoleInv (x : EffectKey) (s : EffectState) : Prop where
  policy : ∀ k, ∀ c ∈ s.calls k, c.req.key = x → c.req.retryPolicy = .needsReconciliation
  held : ∀ k, Claims x s k → ∃ r ∈ s.rows x, r.status = .started
  sole : ∀ k k', Claims x s k → Claims x s k' → k = k'
  answered : ∀ k o, Returned x s k o → ∃ r ∈ s.rows x, r.status = .completed ∧ r.result = o.result
  performed : ∀ r ∈ s.rows x, r.status = .completed → ∃ k o, Returned x s k o ∧ o.repeated = false
  once : ∀ k k' o o', Returned x s k o → Returned x s k' o' → o.repeated = false →
    o'.repeated = false → k = k'

theorem soleInv_initial (x : EffectKey) : SoleInv x EffectState.initial := by
  refine ⟨?_, ?_, ?_, ?_, ?_, ?_⟩
  · intro k c hc
    cases hc
  · rintro k ⟨c, hc, -⟩
    cases hc
  · rintro k k' ⟨c, hc, -⟩
    cases hc
  · rintro k o ⟨c, hc, -⟩
    cases hc
  · intro r hr
    cases hr
  · rintro k k' o o' ⟨c, hc, -⟩
    cases hc

/-! ## One move -/

/-- A call returns what a completed row stores, or what its own body returned. -/
theorem callMove_returned {q : EffectRequest} {row row' : Option EffectRow} {p : Phase}
    {a : CallAct} {o : EffectOutcome} (h : CallMove q row p a row' (.done (.returned o))) :
    (∃ r, row = some r ∧ row' = some r ∧ r.status = .completed ∧
      r.result = o.result ∧ o.repeated = true) ∨
      ∃ n j, p = .returned n j ∧ o.result = some j ∧ o.repeated = false ∧
      ∀ r ∈ row, ∃ r' ∈ row', r'.status = .completed ∧ r'.result = o.result := by
  generalize hp' : Phase.done (.returned o) = p' at h
  cases h with
  | claim now r =>
    left
    cases hs : r.status with
    | completed =>
      rw [claim_completed hs] at hp' ⊢
      cases hp'
      exact ⟨r, rfl, rfl, hs, rfl, rfl⟩
    | failed =>
      rw [claim_failed hs] at hp'
      cases hp'
    | started =>
      simp only [claim, hs] at hp'
      split at hp'
      · cases hp'
      · split at hp' <;> cases hp'
  | complete _ now n result =>
    cases hp'
    refine Or.inr ⟨n, result, rfl, rfl, rfl, ?_⟩
    intro r hr
    exact ⟨completeEffect now result r, by rw [Option.mem_def.mp hr]; rfl, rfl, rfl⟩
  | _ => cases hp'

theorem callMove_carries {q : EffectRequest} {row row' : Option EffectRow} {p : Phase} {a : CallAct}
    {n : Nat} {j : Json} (h : CallMove q row p a row' (.returned n j)) : a = .settle (.ok j) := by
  generalize hp' : Phase.returned n j = p' at h
  cases h with
  | settle _ n' result =>
    cases hp'
    rfl
  | claim now r =>
    unfold claim at hp'
    split at hp'
    · cases hp'
    · split at hp'
      · cases hp'
      · split at hp' <;> cases hp'
    · cases hp'
  | _ => cases hp'

/-- A row is completed by a call that returns, or was completed before. -/
theorem callMove_completes {q : EffectRequest} {row row' : Option EffectRow} {p p' : Phase}
    {a : CallAct} {r' : EffectRow} (h : CallMove q row p a row' p') (hr' : row' = some r')
    (hs : r'.status = .completed) :
    row = some r' ∨ ∃ o, p' = .done (.returned o) ∧ o.repeated = false := by
  cases h with
  | look now => cases hr'
  | claim now r =>
    left
    obtain rfl := Option.some.inj hr'
    cases hst : r.status with
    | completed => rw [claim_completed hst]
    | failed =>
      rw [claim_failed hst] at hs
      cases hs
    | started =>
      simp only [claim, hst] at hs ⊢
      split at hs
      · rw [if_pos ‹_›]
      · split at hs
        · rw [if_neg ‹_›, if_pos ‹_›]
        · cases hs
  | insert now =>
    cases hr'
    cases hs
  | complete _ now n result => exact Or.inr ⟨_, rfl, rfl⟩
  | fail _ now error =>
    obtain ⟨r, -, rfl⟩ := Option.map_eq_some_iff.mp hr'
    cases hs
  | _ => exact Or.inl hr'

theorem callMove_not_done {q : EffectRequest} {row row' : Option EffectRow} {p' : Phase}
    {e : Ending} {a : CallAct} (h : CallMove q row (.done e) a row' p') : False := by
  cases h with
  | die _ _ hnot => exact hnot e rfl

theorem releaseClaim_same (r : EffectRow) :
    (releaseClaim r).status = r.status ∧ (releaseClaim r).result = r.result := by
  unfold releaseClaim
  split <;> exact ⟨rfl, rfl⟩

/-! ## One step -/

section
variable {x : EffectKey} {s t : EffectState}

/-- A step that adds no claimant and no return, and leaves the row's status and result alone. -/
theorem soleInv_frame (h : SoleInv x s)
    (hpolicy : ∀ k, ∀ c ∈ t.calls k, c.req.key = x → c.req.retryPolicy = .needsReconciliation)
    (hclaims : ∀ k, Claims x t k → Claims x s k)
    (hreturned : ∀ k o, Returned x t k o ↔ Returned x s k o)
    (hrow : ∃ f : EffectRow → EffectRow, (∀ r, (f r).status = r.status ∧ (f r).result = r.result) ∧
      t.rows x = (s.rows x).map f) : SoleInv x t := by
  obtain ⟨f, hf, hrow⟩ := hrow
  refine ⟨hpolicy, ?_, fun k k' hk hk' => h.sole k k' (hclaims k hk) (hclaims k' hk'), ?_, ?_, ?_⟩
  · intro k hk
    obtain ⟨r, hr, hs⟩ := h.held k (hclaims k hk)
    exact ⟨f r, by rw [hrow, Option.mem_def.mp hr]; rfl, (hf r).1.trans hs⟩
  · intro k o hk
    obtain ⟨r, hr, hs, hres⟩ := h.answered k o ((hreturned k o).mp hk)
    exact ⟨f r, by rw [hrow, Option.mem_def.mp hr]; rfl, (hf r).1.trans hs, (hf r).2.trans hres⟩
  · intro r' hr' hs
    rw [hrow] at hr'
    obtain ⟨r, hr, rfl⟩ := Option.map_eq_some_iff.mp hr'
    obtain ⟨k, o, hk, ho⟩ := h.performed r hr ((hf r).1.symm.trans hs)
    exact ⟨k, o, (hreturned k o).mpr hk, ho⟩
  · intro k k' o o' hk hk'
    exact h.once k k' o o' ((hreturned k o).mp hk) ((hreturned k' o').mp hk')

variable {k : Nat} {q : EffectRequest} {p p' : Phase} {row : Option EffectRow}
  {starts : List (Nat × EffectKey)}

/-- The state after a move of one call. -/
def moved (s : EffectState) (k : Nat) (q : EffectRequest) (p' : Phase) (row : Option EffectRow)
    (starts : List (Nat × EffectKey)) : EffectState :=
  { s with
    rows := Function.update s.rows q.key row
    calls := Function.update s.calls k (some ⟨q, p'⟩)
    starts := starts }

/-- Who claims after a move: those who did before, and the caller where it does now. -/
theorem claims_moved {j : Nat} (h : Claims x (moved s k q p' row starts) j) :
    (j = k ∧ q.key = x ∧ p'.claiming = true) ∨ (j ≠ k ∧ Claims x s j) := by
  obtain ⟨c, hc, hx, hp⟩ := h
  rcases update_eq_some hc with ⟨rfl, rfl⟩ | ⟨hne, hc⟩
  · exact Or.inl ⟨rfl, hx, hp⟩
  · exact Or.inr ⟨hne, c, hc, hx, hp⟩

theorem returned_moved {j : Nat} {o : EffectOutcome} (hc : s.calls k = some ⟨q, p⟩)
    (hp : ∀ e, p ≠ .done e) :
    Returned x (moved s k q p' row starts) j o ↔
      (j = k ∧ q.key = x ∧ p' = .done (.returned o)) ∨ Returned x s j o := by
  constructor
  · rintro ⟨c, hcall, hx, hret⟩
    rcases update_eq_some hcall with ⟨rfl, rfl⟩ | ⟨hne, hcall⟩
    · exact Or.inl ⟨rfl, hx, hret⟩
    · exact Or.inr ⟨c, hcall, hx, hret⟩
  · rintro (⟨rfl, hx, hret⟩ | ⟨c, hcall, hx, hret⟩)
    · exact ⟨⟨q, p'⟩, Function.update_self .., hx, hret⟩
    · have hne : j ≠ k := by
        rintro rfl
        rw [Option.mem_def, hc] at hcall
        cases hcall
        exact hp _ hret
      exact ⟨c, (Function.update_of_ne hne _ _).trans hcall, hx, hret⟩

theorem policy_moved (h : SoleInv x s) (hc : s.calls k = some ⟨q, p⟩) :
    ∀ j, ∀ c ∈ (moved s k q p' row starts).calls j, c.req.key = x →
      c.req.retryPolicy = .needsReconciliation := by
  intro j c hcall hx
  rcases update_eq_some hcall with ⟨rfl, rfl⟩ | ⟨-, hcall⟩
  · exact h.policy j ⟨q, p⟩ hc hx
  · exact h.policy j c hcall hx

/-- A call on another step changes nothing here. -/
theorem soleInv_other (h : SoleInv x s) (hc : s.calls k = some ⟨q, p⟩) (hp : ∀ e, p ≠ .done e)
    (hx : q.key ≠ x) : SoleInv x (moved s k q p' row starts) := by
  refine soleInv_frame h (policy_moved h hc) ?_ ?_ ⟨id, fun r => ⟨rfl, rfl⟩, ?_⟩
  · intro j hj
    rcases claims_moved hj with ⟨-, hx', -⟩ | ⟨-, hj⟩
    · exact absurd hx' hx
    · exact hj
  · intro j o
    rw [returned_moved hc hp]
    exact or_iff_right (fun hj => hx hj.2.1)
  · rw [Option.map_id_fun, id]
    exact Function.update_of_ne (Ne.symm hx) _ _

/-- A call on the step itself. -/
theorem soleInv_move {a : CallAct} (h : SoleInv x s) (hc : s.calls k = some ⟨q, p⟩)
    (hp : ∀ e, p ≠ .done e) (hx : q.key = x) (hmove : CallMove q (s.rows x) p a row p') :
    SoleInv x (moved s k q p' row starts) := by
  have hrow : (moved s k q p' row starts).rows x = row := by
    subst hx
    exact Function.update_self ..
  have hmine : p.claiming = true → Claims x s k := fun hcl => ⟨⟨q, p⟩, hc, hx, hcl⟩
  have hret := @returned_moved x s k q p p' row starts
  have hkinds := callMove_kinds (h.policy k ⟨q, p⟩ hc hx) hmove
  -- a completed row has no claimant, so no move touches it
  have hstays : ∀ r ∈ s.rows x, r.status = .completed → row = some r := by
    intro r hr hs
    have hfree : p.claiming = true → False := by
      intro hcl
      obtain ⟨r', hr', hs'⟩ := h.held k (hmine hcl)
      rw [Option.mem_unique hr' hr, hs] at hs'
      cases hs'
    rcases hkinds with ⟨-, -, hsame⟩ | ⟨-, -, -, hnone | ⟨-, r', -, -, hr', hs'⟩⟩ |
      ⟨hcl, -⟩ | ⟨hcl, -⟩
    · rw [hsame, Option.mem_def.mp hr]
    · rw [hnone] at hr
      cases hr
    · rw [Option.mem_def.mp hr] at hr'
      cases hr'
      rw [hs] at hs'
      cases hs'
    · exact (hfree hcl).elim
    · exact (hfree hcl).elim
  refine ⟨policy_moved h hc, ?_, ?_, ?_, ?_, ?_⟩
  · intro j hj
    rw [hrow]
    rcases hkinds with ⟨-, hcl', hsame⟩ | ⟨-, -, ⟨r, hr, hs⟩, -⟩ | ⟨hcl, -, hsame, -⟩ |
      ⟨hcl, hcl', -⟩
    · rcases claims_moved hj with ⟨-, -, hcl⟩ | ⟨-, hj⟩
      · rw [hcl'] at hcl
        cases hcl
      · rw [hsame]
        exact h.held j hj
    · exact ⟨r, hr, hs⟩
    · rw [hsame]
      exact h.held k (hmine hcl)
    · rcases claims_moved hj with ⟨-, -, hcl''⟩ | ⟨hne, hj⟩
      · rw [hcl'] at hcl''
        cases hcl''
      · exact absurd (h.sole j k hj (hmine hcl)) hne
  · have halone : ∀ j, Claims x (moved s k q p' row starts) j → j = k ∨ p.claiming = false ∧
        p'.claiming = false ∧ Claims x s j := by
      intro j hj
      rcases claims_moved hj with ⟨rfl, -⟩ | ⟨hne, hj⟩
      · exact Or.inl rfl
      · rcases hkinds with ⟨hcl, hcl', -⟩ | ⟨-, -, -, hfrom⟩ | ⟨hcl, -⟩ | ⟨hcl, -⟩
        · exact Or.inr ⟨hcl, hcl', hj⟩
        · obtain ⟨r, hr, hs⟩ := h.held j hj
          rcases hfrom with hnone | ⟨-, r', -, -, hr', hs'⟩
          · rw [hnone] at hr
            cases hr
          · rw [hr'] at hr
            cases hr
            rw [hs'] at hs
            cases hs
        · exact Or.inl (h.sole j k hj (hmine hcl))
        · exact Or.inl (h.sole j k hj (hmine hcl))
    intro j j' hj hj'
    rcases halone j hj with rfl | ⟨-, hcl', hold⟩
    · rcases halone j' hj' with rfl | ⟨-, hcl', -⟩
      · rfl
      · rcases claims_moved hj with ⟨-, -, hcl⟩ | ⟨hne, -⟩
        · rw [hcl'] at hcl
          cases hcl
        · exact absurd rfl hne
    · rcases claims_moved hj' with ⟨-, -, hcl⟩ | ⟨-, hold'⟩
      · rw [hcl'] at hcl
        cases hcl
      · exact h.sole j j' hold hold'
  · intro j o hj
    rw [hrow]
    rcases (hret hc hp).mp hj with ⟨-, -, rfl⟩ | hj
    · rcases callMove_returned hmove with ⟨r, -, hr, hs, hres, -⟩ | ⟨n, j', rfl, -, -, hnew⟩
      · exact ⟨r, hr, hs, hres⟩
      · obtain ⟨r, hr, -⟩ := h.held k (hmine rfl)
        exact hnew r hr
    · obtain ⟨r, hr, hs, hres⟩ := h.answered j o hj
      exact ⟨r, hstays r hr hs, hs, hres⟩
  · intro r hr hs
    rw [hrow] at hr
    rcases callMove_completes hmove hr hs with hold | ⟨o, hp', ho⟩
    · obtain ⟨j, o, hj, ho⟩ := h.performed r hold hs
      exact ⟨j, o, (hret hc hp).mpr (Or.inr hj), ho⟩
    · exact ⟨k, o, (hret hc hp).mpr (Or.inl ⟨rfl, hx, hp'⟩), ho⟩
  · -- where this call performs the step, nobody has returned before
    have hfirst : ∀ o, p' = .done (.returned o) → o.repeated = false →
        ∀ j o', ¬ Returned x s j o' := by
      rintro o rfl ho j o' hj
      rcases callMove_returned hmove with ⟨r, -, -, -, -, hrep⟩ | ⟨n, _, rfl, -⟩
      · rw [ho] at hrep
        cases hrep
      · obtain ⟨r, hr, hs⟩ := h.held k (hmine rfl)
        obtain ⟨r', hr', hs', -⟩ := h.answered j o' hj
        rw [Option.mem_unique hr' hr, hs] at hs'
        cases hs'
    intro j j' o o' hj hj' ho ho'
    rcases (hret hc hp).mp hj with ⟨rfl, -, hp'⟩ | hold
    · rcases (hret hc hp).mp hj' with ⟨rfl, -⟩ | hold'
      · rfl
      · exact absurd hold' (hfirst o hp' ho j' o')
    · rcases (hret hc hp).mp hj' with ⟨rfl, -, hp'⟩ | hold'
      · exact absurd hold (hfirst o' hp' ho' j o)
      · exact h.once j j' o o' hold hold' ho ho'

theorem soleInv_step {a : EffectAct} (h : SoleInv x s) (hstep : reconcilingStep x s a = some t) :
    SoleInv x t := by
  obtain ⟨hpol, hstep⟩ := restrict_eq_some.mp hstep
  cases a with
  | begin k q =>
    obtain ⟨hnone, p, hp, rfl⟩ := effectStep_begin hstep
    refine soleInv_frame h ?_ ?_ ?_ ⟨id, fun r => ⟨rfl, rfl⟩, by rw [Option.map_id_fun, id]⟩
    · intro j c hc hx
      rcases update_eq_some hc with ⟨rfl, rfl⟩ | ⟨-, hc⟩
      · exact hpol hx
      · exact h.policy j c hc hx
    · rintro j ⟨c, hc, hx, hcl⟩
      rcases update_eq_some hc with ⟨rfl, rfl⟩ | ⟨-, hc⟩
      · rcases hp with rfl | rfl <;> cases hcl
      · exact ⟨c, hc, hx, hcl⟩
    · intro j o
      constructor
      · rintro ⟨c, hc, hx, hret⟩
        rcases update_eq_some hc with ⟨rfl, rfl⟩ | ⟨-, hc⟩
        · rcases hp with rfl | rfl <;> cases hret
        · exact ⟨c, hc, hx, hret⟩
      · rintro ⟨c, hc, hx, hret⟩
        have hne : j ≠ k := by
          rintro rfl
          rw [Option.mem_def, hnone] at hc
          cases hc
        exact ⟨c, (Function.update_of_ne hne _ _).trans hc, hx, hret⟩
  | call k a =>
    obtain ⟨q, p, row, p', hc, hmove, rfl⟩ := effectStep_call hstep
    have hp : ∀ e, p ≠ .done e := by
      rintro e rfl
      exact callMove_not_done hmove
    by_cases hx : q.key = x
    · subst hx
      exact soleInv_move h hc hp rfl hmove
    · exact soleInv_other h hc hp hx
  | reap runIds =>
    cases hstep
    refine soleInv_frame h h.policy (fun _ hk => hk) (fun _ _ => Iff.rfl)
      ⟨fun r => if x.1 ∈ runIds then releaseClaim r else r, ?_, ?_⟩
    · intro r
      dsimp only
      split
      · exact releaseClaim_same r
      · exact ⟨rfl, rfl⟩
    · simp only
      split
      · rfl
      · rw [Option.map_id']
  | requestCancel runId =>
    cases hstep
    exact soleInv_frame h h.policy (fun _ hk => hk) (fun _ _ => Iff.rfl)
      ⟨id, fun r => ⟨rfl, rfl⟩, by rw [Option.map_id_fun, id]⟩

theorem soleInv_reaches {acts : List EffectAct}
    (h : Reaches (reconcilingStep x) EffectState.initial acts s) : SoleInv x s :=
  h.invariant (fun _ _ _ hs hstep => soleInv_step hs hstep) (soleInv_initial x)

/-- What a call returned, it has returned for good. -/
theorem returned_step {a : EffectAct} (hstep : effectStep s a = some t) {k : Nat}
    {o : EffectOutcome} (h : Returned x s k o) : Returned x t k o := by
  obtain ⟨c, hc, hx, hret⟩ := h
  cases a with
  | begin j q =>
    obtain ⟨hnone, p, -, rfl⟩ := effectStep_begin hstep
    have hne : k ≠ j := by
      rintro rfl
      rw [Option.mem_def, hnone] at hc
      cases hc
    exact ⟨c, (Function.update_of_ne hne _ _).trans hc, hx, hret⟩
  | call j a =>
    obtain ⟨q, p, row, p', hc', hmove, rfl⟩ := effectStep_call hstep
    have hne : k ≠ j := by
      rintro rfl
      rw [Option.mem_def, hc'] at hc
      cases hc
      dsimp only at hret
      subst hret
      exact callMove_not_done hmove
    exact ⟨c, (Function.update_of_ne hne _ _).trans hc, hx, hret⟩
  | reap runIds =>
    cases hstep
    exact ⟨c, hc, hx, hret⟩
  | requestCancel runId =>
    cases hstep
    exact ⟨c, hc, hx, hret⟩

end

/-! ## What the bodies return -/

/-- Every result that is stored, carried to the final UPDATE or returned meets a condition on
its step. -/
structure ResultsMeet (P : EffectKey → Json → Prop) (s : EffectState) : Prop where
  stored : ∀ x, ∀ r ∈ s.rows x, ∀ j ∈ r.result, P x j
  complete : ∀ x, ∀ r ∈ s.rows x, r.status = .completed → r.result ≠ none
  carried : ∀ k, ∀ c ∈ s.calls k, ∀ n j, c.phase = .returned n j → P c.req.key j
  given : ∀ k x o, Returned x s k o → ∃ j, o.result = some j ∧ P x j

section
variable {P P' : EffectKey → Json → Prop}

theorem resultsMeet_initial (P : EffectKey → Json → Prop) : ResultsMeet P EffectState.initial := by
  refine ⟨?_, ?_, ?_, ?_⟩
  · intro x r hr
    cases hr
  · intro x r hr
    cases hr
  · intro k c hc
    cases hc
  · rintro k x o ⟨c, hc, -⟩
    cases hc

theorem ResultsMeet.imp {s : EffectState} (h : ResultsMeet P s) (himp : ∀ x j, P x j → P' x j) :
    ResultsMeet P' s where
  stored := fun x r hr j hj => himp x j (h.stored x r hr j hj)
  complete := h.complete
  carried := fun k c hc n j hp => himp c.req.key j (h.carried k c hc n j hp)
  given := by
    intro k x o hk
    obtain ⟨j, hj, hP⟩ := h.given k x o hk
    exact ⟨j, hj, himp x j hP⟩

/-- The row a move leaves stores what was stored, or what the call carried. -/
theorem callMove_result {q : EffectRequest} {row row' : Option EffectRow} {p p' : Phase}
    {a : CallAct} {r' : EffectRow} (h : CallMove q row p a row' p') (hr' : row' = some r') :
    (∃ r, row = some r ∧ r'.result = r.result ∧ (r'.status = .completed → r.status = .completed)) ∨
      (r'.result = none ∧ r'.status ≠ .completed) ∨ ∃ n j, p = .returned n j ∧
      r'.result = some j := by
  cases h with
  | look now => cases hr'
  | claim now r =>
    obtain rfl := Option.some.inj hr'
    refine Or.inl ⟨r, rfl, ?_⟩
    cases hs : r.status with
    | completed =>
      rw [claim_completed hs]
      exact ⟨rfl, fun _ => rfl⟩
    | failed =>
      rw [claim_failed hs]
      exact ⟨rfl, fun hdone => by cases hdone⟩
    | started =>
      simp only [claim, hs]
      split
      · exact ⟨rfl, fun h => absurd (hs.symm.trans h) (by decide)⟩
      · split
        · exact ⟨rfl, fun h => absurd (hs.symm.trans h) (by decide)⟩
        · exact ⟨rfl, fun hdone => by cases hdone⟩
  | insert now =>
    cases hr'
    exact Or.inr (Or.inl ⟨rfl, fun hdone => by cases hdone⟩)
  | complete _ now n result =>
    obtain ⟨r, -, rfl⟩ := Option.map_eq_some_iff.mp hr'
    exact Or.inr (Or.inr ⟨n, result, rfl, rfl⟩)
  | fail _ now error =>
    obtain ⟨r, hr, rfl⟩ := Option.map_eq_some_iff.mp hr'
    exact Or.inl ⟨r, hr, rfl, fun hdone => by cases hdone⟩
  | _ => exact Or.inl ⟨r', hr', rfl, id⟩

/-- Only a body brings a new result. -/
theorem resultsMeet_step {s t : EffectState} {a : EffectAct} (h : ResultsMeet P s)
    (hbody : ∀ k j, a = .call k (.settle (.ok j)) → ∀ c ∈ s.calls k, P c.req.key j)
    (hstep : effectStep s a = some t) : ResultsMeet P t := by
  cases a with
  | begin k q =>
    obtain ⟨-, p, hp, rfl⟩ := effectStep_begin hstep
    refine ⟨h.stored, h.complete, ?_, ?_⟩
    · intro j c hc n result hret
      rcases update_eq_some hc with ⟨rfl, rfl⟩ | ⟨-, hc⟩
      · rcases hp with rfl | rfl <;> cases hret
      · exact h.carried j c hc n result hret
    · rintro j x o ⟨c, hc, hx, hret⟩
      rcases update_eq_some hc with ⟨rfl, rfl⟩ | ⟨-, hc⟩
      · rcases hp with rfl | rfl <;> cases hret
      · exact h.given j x o ⟨c, hc, hx, hret⟩
  | call k a =>
    obtain ⟨q, p, row, p', hc, hmove, rfl⟩ := effectStep_call hstep
    refine ⟨?_, ?_, ?_, ?_⟩
    · intro x r' hr' j hj
      rcases update_cases hr' with ⟨rfl, hrow⟩ | ⟨-, hr⟩
      · rcases callMove_result hmove hrow with ⟨r, hr, hres, -⟩ | ⟨hres, -⟩ | ⟨n, j', rfl, hres⟩
        · exact h.stored q.key r hr j (hres ▸ hj)
        · rw [hres] at hj
          cases hj
        · rw [hres] at hj
          cases hj
          exact h.carried k ⟨q, _⟩ hc n j rfl
      · exact h.stored x r' hr j hj
    · intro x r' hr' hs hnone
      rcases update_cases hr' with ⟨rfl, hrow⟩ | ⟨-, hr⟩
      · rcases callMove_result hmove hrow with ⟨r, hr, hres, hst⟩ | ⟨-, hst⟩ | ⟨n, j', rfl, hres⟩
        · exact h.complete q.key r hr (hst hs) (hres ▸ hnone)
        · exact hst hs
        · rw [hres] at hnone
          cases hnone
      · exact h.complete x r' hr hs hnone
    · intro j c hcall n result hret
      rcases update_eq_some hcall with ⟨rfl, rfl⟩ | ⟨-, hcall⟩
      · dsimp only at hret
        subst hret
        exact hbody j result (by rw [callMove_carries hmove]) ⟨q, p⟩ hc
      · exact h.carried j c hcall n result hret
    · rintro j x o ⟨c, hcall, hx, hret⟩
      rcases update_eq_some hcall with ⟨rfl, rfl⟩ | ⟨-, hcall⟩
      · dsimp only at hx hret
        subst hx hret
        rcases callMove_returned hmove with ⟨r, hr, -, hs, hres, -⟩ | ⟨n, result, rfl, hres, -⟩
        · obtain ⟨result, hresult⟩ := Option.ne_none_iff_exists'.mp (h.complete q.key r hr hs)
          exact ⟨result, hres ▸ hresult, h.stored q.key r hr result hresult⟩
        · exact ⟨result, hres, h.carried j ⟨q, _⟩ hc n result rfl⟩
      · exact h.given j x o ⟨c, hcall, hx, hret⟩
  | reap runIds =>
    cases hstep
    have hold : ∀ x, ∀ r' ∈ (if x.1 ∈ runIds then (s.rows x).map releaseClaim else s.rows x),
        ∃ r ∈ s.rows x, r'.status = r.status ∧ r'.result = r.result := by
      intro x r' hr'
      split at hr'
      · obtain ⟨r, hr, rfl⟩ := Option.map_eq_some_iff.mp hr'
        exact ⟨r, hr, releaseClaim_same r⟩
      · exact ⟨r', hr', rfl, rfl⟩
    refine ⟨?_, ?_, h.carried, h.given⟩
    · intro x r' hr' j hj
      obtain ⟨r, hr, -, hres⟩ := hold x r' hr'
      exact h.stored x r hr j (hres ▸ hj)
    · intro x r' hr' hs
      obtain ⟨r, hr, hst, hres⟩ := hold x r' hr'
      rw [hres]
      exact h.complete x r hr (hst.symm.trans hs)
  | requestCancel runId =>
    cases hstep
    exact ⟨h.stored, h.complete, h.carried, h.given⟩

end

/-- Nobody has the result of a step, and nobody is about to store one. -/
structure Unanswered (x : EffectKey) (s : EffectState) : Prop where
  row : ∀ r ∈ s.rows x, r.status ≠ .completed
  carried : ∀ k, ∀ c ∈ s.calls k, c.req.key = x → ∀ n j, c.phase ≠ .returned n j
  returned : ∀ k o, ¬ Returned x s k o

/-- A step stays unanswered for as long as no body of it returns. -/
theorem unanswered_step {x : EffectKey} {s t : EffectState} {a : EffectAct} (h : Unanswered x s)
    (hbody : ∀ k j, a = .call k (.settle (.ok j)) → ∀ c ∈ s.calls k, c.req.key ≠ x)
    (hstep : effectStep s a = some t) : Unanswered x t := by
  cases a with
  | begin k q =>
    obtain ⟨-, p, hp, rfl⟩ := effectStep_begin hstep
    refine ⟨h.row, ?_, ?_⟩
    · intro j c hc hx n result hret
      rcases update_eq_some hc with ⟨rfl, rfl⟩ | ⟨-, hc⟩
      · rcases hp with rfl | rfl <;> cases hret
      · exact h.carried j c hc hx n result hret
    · rintro j o ⟨c, hc, hx, hret⟩
      rcases update_eq_some hc with ⟨rfl, rfl⟩ | ⟨-, hc⟩
      · rcases hp with rfl | rfl <;> cases hret
      · exact h.returned j o ⟨c, hc, hx, hret⟩
  | call k a =>
    obtain ⟨q, p, row, p', hc, hmove, rfl⟩ := effectStep_call hstep
    have hnew : q.key = x → ∀ o, p' ≠ .done (.returned o) := by
      rintro rfl o rfl
      rcases callMove_returned hmove with ⟨r, hr, -, hs, -⟩ | ⟨n, j, rfl, -⟩
      · exact h.row r hr hs
      · exact h.carried k ⟨q, _⟩ hc rfl n j rfl
    refine ⟨?_, ?_, ?_⟩
    · intro r hr hs
      rcases update_cases hr with ⟨rfl, hrow⟩ | ⟨-, hr⟩
      · rcases callMove_completes hmove hrow hs with hold | ⟨o, hp', -⟩
        · exact h.row r hold hs
        · exact hnew rfl o hp'
      · exact h.row r hr hs
    · intro j c hcall hx n result hret
      rcases update_eq_some hcall with ⟨rfl, rfl⟩ | ⟨-, hcall⟩
      · dsimp only at hx hret
        subst hret
        exact hbody j result (by rw [callMove_carries hmove]) ⟨q, p⟩ hc hx
      · exact h.carried j c hcall hx n result hret
    · rintro j o ⟨c, hcall, hx, hret⟩
      rcases update_eq_some hcall with ⟨rfl, rfl⟩ | ⟨-, hcall⟩
      · exact hnew hx o hret
      · exact h.returned j o ⟨c, hcall, hx, hret⟩
  | reap runIds =>
    cases hstep
    refine ⟨?_, h.carried, h.returned⟩
    intro r' hr'
    dsimp only at hr'
    split at hr'
    · obtain ⟨r, hr, rfl⟩ := Option.map_eq_some_iff.mp hr'
      rw [(releaseClaim_same r).1]
      exact h.row r hr
    · exact h.row r' hr'
  | requestCancel runId =>
    cases hstep
    exact ⟨h.row, h.carried, h.returned⟩

/-- A claimant that dies, or records its exception, leaves a row that is not completed. -/
theorem callMove_released {q : EffectRequest} {row row' : Option EffectRow} {p p' : Phase}
    {b : CallAct} (h : CallMove q row p b row' p')
    (hb : b = .die ∨ ∃ now error, b = .finish now ∧ p = .raised error)
    (hrow : ∀ r ∈ row, r.status = .started) :
    p'.claiming = false ∧ ∀ r ∈ row', r.status ≠ .completed := by
  rcases hb with rfl | ⟨now, error, rfl, rfl⟩
  · cases h with
    | die _ _ hnot =>
      refine ⟨rfl, ?_⟩
      intro r hr hs
      have hstarted := hrow r hr
      rw [hs] at hstarted
      cases hstarted
  · cases h with
    | fail _ _ _ =>
      refine ⟨rfl, ?_⟩
      intro r hr
      obtain ⟨r', -, rfl⟩ := Option.map_eq_some_iff.mp hr
      exact nofun

/-- Under the reconciliation policy it was the only claimant, so nobody has the result. -/
theorem unanswered_released {x : EffectKey} {s t : EffectState} {k : Nat} {c : EffectCall}
    {b : CallAct} (h : SoleInv x s) (ht : SoleInv x t) (hc : s.calls k = some c)
    (hx : c.req.key = x) (hcl : c.phase.claiming = true)
    (hb : b = .die ∨ ∃ now error, b = .finish now ∧ c.phase = .raised error)
    (hstep : effectStep s (.call k b) = some t) : Unanswered x t := by
  have hmine : Claims x s k := ⟨c, hc, hx, hcl⟩
  obtain ⟨r, hr, hstarted⟩ := h.held k hmine
  obtain ⟨q, p, row, p', hc', hmove, rfl⟩ := effectStep_call hstep
  rw [hc] at hc'
  cases hc'
  dsimp only at hx hb
  subst hx
  obtain ⟨hcl', hrow⟩ :=
    callMove_released hmove hb (fun r' hr' => by rw [Option.mem_unique hr' hr]; exact hstarted)
  have hopen : ∀ r' ∈ Function.update s.rows q.key row q.key, r'.status ≠ .completed := by
    rw [Function.update_self]
    exact hrow
  refine ⟨hopen, ?_, ?_⟩
  · intro j c hj hx n result hret
    have hclaims : Claims q.key (moved s k q p' row (s.starts ++ startedBy k ⟨q, p⟩ p')) j :=
      ⟨c, hj, hx, by rw [hret]; rfl⟩
    rcases claims_moved hclaims with ⟨-, -, hcl''⟩ | ⟨hne, hold⟩
    · rw [hcl'] at hcl''
      cases hcl''
    · exact hne (h.sole j k hold hmine)
  · intro j o hret
    obtain ⟨r', hr', hs', -⟩ := ht.answered j o hret
    exact hopen r' hr' hs'

/-- In every run in which a step is performed under the reconciliation policy, whatever
raises, stalls, dies or is reaped: the calls that return, return one result, exactly one of
them as the call that performed the step, and the row stores that result ever after. -/
theorem reconciled_returns_agree (x : EffectKey) (acts : List EffectAct) (s : EffectState)
    (h : Reaches (reconcilingStep x) EffectState.initial acts s) (k : Nat) (o : EffectOutcome)
    (hk : Returned x s k o) :
    (∃ k₀ o₀, Returned x s k₀ o₀ ∧ o₀.repeated = false ∧
      ∀ k' o', Returned x s k' o' → o'.result = o₀.result ∧ (o'.repeated = false → k' = k₀)) ∧
    ∀ later t, Reaches (reconcilingStep x) s later t →
      ∃ r ∈ t.rows x, r.status = .completed ∧ r.result = o.result := by
  have hinv := soleInv_reaches h
  constructor
  · obtain ⟨r, hr, hs, -⟩ := hinv.answered k o hk
    obtain ⟨k₀, o₀, hk₀, ho₀⟩ := hinv.performed r hr hs
    refine ⟨k₀, o₀, hk₀, ho₀, ?_⟩
    intro k' o' hk'
    obtain ⟨r₀, hr₀, -, hres₀⟩ := hinv.answered k₀ o₀ hk₀
    obtain ⟨r', hr', -, hres'⟩ := hinv.answered k' o' hk'
    refine ⟨?_, fun ho' => hinv.once k' k₀ o' o₀ hk' hk₀ ho' ho₀⟩
    rw [← hres', ← hres₀, Option.mem_unique hr' hr₀]
  · intro later t hlater
    have hrun := reaches_append.mpr ⟨s, h, hlater⟩
    have hkept : Returned x t k o := by
      refine hlater.invariant (P := fun m => Returned x m k o) ?_ hk
      intro m a m' hm hstep
      exact returned_step (restrict_eq_some.mp hstep).2 hm
    exact (soleInv_reaches hrun).answered k o hkept

/-! A body is applied and its reply lost; a second call starts it again and completes the
step, the first reader finds the stored result. -/

def answeredRun : List EffectAct :=
  repeatedRun ++ [.call 2 (.settle (.ok (.str "sent"))), .call 2 (.finish 3),
    .begin 3 (mailRequest "c"), .call 3 (.claim 4)]

theorem answeredRun_runs :
    (answeredRun.foldlM (reconcilingStep (10, "mail")) EffectState.initial).isSome = true := by
  decide +kernel

/-- The body has been started twice, and the two calls that return agree. -/
theorem reconciled_returns_agree_answeredRun :
    ∃ s, Reaches (reconcilingStep (10, "mail")) EffectState.initial answeredRun s ∧
      bodyStarts s (10, "mail") = 2 ∧ ∃ k₀ o₀, Returned (10, "mail") s k₀ o₀ ∧ o₀.repeated = false ∧
        o₀.result = some (.str "sent") := by
  refine ⟨_, reaches_get answeredRun_runs, by decide +kernel, ?_⟩
  obtain ⟨⟨k₀, o₀, hk₀, ho₀, hall⟩, -⟩ :=
    reconciled_returns_agree (10, "mail") answeredRun _
      (reaches_get answeredRun_runs) 3 ⟨some (.str "sent"), true, 2⟩
      ⟨⟨mailRequest "c",
        .done (.returned ⟨some (.str "sent"), true, 2⟩)⟩, by decide +kernel, by decide +kernel, rfl⟩
  refine ⟨k₀, o₀, hk₀, ho₀, ?_⟩
  exact (hall 3 ⟨some (.str "sent"), true, 2⟩ ⟨⟨mailRequest "c", .done
    (.returned ⟨some (.str "sent"), true, 2⟩)⟩, by decide +kernel, by decide +kernel, rfl⟩).1.symm

end AgenticPlatform.Correctness
