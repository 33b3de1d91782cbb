import Mathlib.Data.List.Basic
import Mathlib.Logic.Function.Basic

/-!
# Runs of a partial step function

A step function takes a state and an action and returns the next state, or `none`
where the action is not enabled there. A run is a finite list of actions, each
enabled in the state the ones before it lead to; nothing is assumed about who
issues an action or in which order. `restrict` keeps only the steps that meet a
condition on the state before the step, and `Reaches` of the restricted function
is what "every step of the run meets the condition" means.
-/
namespace AgenticPlatform.Foundation

variable {σ ℓ : Type*}

/-- The actions lead from the first state to the second. -/
def Reaches (step : σ → ℓ → Option σ) (s : σ) (acts : List ℓ) (t : σ) : Prop :=
  acts.foldlM step s = some t

/-- Some run leads from the first state to the second. -/
def Leads (step : σ → ℓ → Option σ) (s t : σ) : Prop := ∃ acts, Reaches step s acts t

/-- Disable the steps that break a condition on the state before the step. -/
def restrict (cond : σ → ℓ → Prop) [∀ s a, Decidable (cond s a)] (step : σ → ℓ → Option σ)
    (s : σ) (a : ℓ) : Option σ :=
  if cond s a then step s a else none

theorem Reaches.nil (step : σ → ℓ → Option σ) (s : σ) : Reaches step s [] s := rfl

theorem reaches_nil {step : σ → ℓ → Option σ} {s t : σ} : Reaches step s [] t ↔ s = t := by
  simp [Reaches]

theorem reaches_cons {step : σ → ℓ → Option σ} {s t : σ} {a : ℓ} {acts : List ℓ} :
    Reaches step s (a :: acts) t ↔ ∃ m, step s a = some m ∧ Reaches step m acts t := by
  simp only [Reaches, List.foldlM_cons]
  exact Option.bind_eq_some_iff

theorem reaches_single {step : σ → ℓ → Option σ} {s t : σ} {a : ℓ} :
    Reaches step s [a] t ↔ step s a = some t := by
  simp only [reaches_cons, reaches_nil, exists_eq_right]

theorem reaches_append {step : σ → ℓ → Option σ} {s t : σ} {pre post : List ℓ} :
    Reaches step s (pre ++ post) t ↔ ∃ m, Reaches step s pre m ∧ Reaches step m post t := by
  simp only [Reaches, List.foldlM_append]
  exact Option.bind_eq_some_iff

theorem reaches_snoc {step : σ → ℓ → Option σ} {s t : σ} {a : ℓ} {acts : List ℓ} :
    Reaches step s (acts ++ [a]) t ↔ ∃ m, Reaches step s acts m ∧ step m a = some t := by
  rw [reaches_append]
  simp only [reaches_cons, reaches_nil, exists_eq_right]

/-- A run that computes reaches the state it computes. -/
theorem reaches_get {step : σ → ℓ → Option σ} {s : σ} {acts : List ℓ}
    (h : (acts.foldlM step s).isSome = true) : Reaches step s acts ((acts.foldlM step s).get h) :=
  (Option.some_get h).symm

/-- A run has one last state. -/
theorem Reaches.unique {step : σ → ℓ → Option σ} {s t t' : σ} {acts : List ℓ}
    (h : Reaches step s acts t) (h' : Reaches step s acts t') : t = t' :=
  Option.some.inj (h.symm.trans h')

/-- What holds at the start and survives every step holds at the end of every run. -/
theorem Reaches.invariant {step : σ → ℓ → Option σ} {P : σ → Prop}
    (hstep : ∀ s a t, P s → step s a = some t → P t) {s t : σ} {acts : List ℓ}
    (h : Reaches step s acts t) (hs : P s) : P t := by
  induction acts generalizing s with
  | nil => exact reaches_nil.mp h ▸ hs
  | cons a acts ih =>
    obtain ⟨m, hm, hr⟩ := reaches_cons.mp h
    exact ih hr (hstep s a m hs hm)

/-- The same rule for a relation between the first state and the last one. -/
theorem Reaches.relates {step : σ → ℓ → Option σ} {R : σ → σ → Prop} (hrefl : ∀ s, R s s)
    (htrans : ∀ s m t, R s m → R m t → R s t) (hstep : ∀ s a t, step s a = some t → R s t)
    {s t : σ} {acts : List ℓ} (h : Reaches step s acts t) : R s t := by
  induction acts generalizing s with
  | nil => exact reaches_nil.mp h ▸ hrefl s
  | cons a acts ih =>
    obtain ⟨m, hm, hr⟩ := reaches_cons.mp h
    exact htrans s m t (hstep s a m hm) (ih hr)

theorem Leads.refl (step : σ → ℓ → Option σ) (s : σ) : Leads step s s := ⟨[], .nil step s⟩

theorem Leads.trans {step : σ → ℓ → Option σ} {s m t : σ} (h : Leads step s m)
    (h' : Leads step m t) : Leads step s t := by
  obtain ⟨pre, hpre⟩ := h
  obtain ⟨post, hpost⟩ := h'
  exact ⟨pre ++ post, reaches_append.mpr ⟨m, hpre, hpost⟩⟩

theorem restrict_eq_some {cond : σ → ℓ → Prop} [∀ s a, Decidable (cond s a)]
    {step : σ → ℓ → Option σ} {s t : σ} {a : ℓ} :
    restrict cond step s a = some t ↔ cond s a ∧ step s a = some t := by
  simp only [restrict]
  split <;> simp_all

/-- A run of the restricted steps is a run each of whose steps meets the condition. -/
theorem reaches_restrict {cond : σ → ℓ → Prop} [∀ s a, Decidable (cond s a)]
    {step : σ → ℓ → Option σ} {s t : σ} {acts : List ℓ} :
    Reaches (restrict cond step) s acts t ↔ Reaches step s acts t ∧
      ∀ pre a post m, acts = pre ++ a :: post → Reaches step s pre m → cond m a := by
  induction acts generalizing s with
  | nil =>
    rw [reaches_nil, reaches_nil]
    exact ⟨fun h => ⟨h, fun pre a post m hnil => by simp at hnil⟩, fun h => h.1⟩
  | cons b acts ih =>
    simp only [reaches_cons, restrict_eq_some, ih]
    constructor
    · intro ⟨m, ⟨hc, hm⟩, hr, hall⟩
      refine ⟨⟨m, hm, hr⟩, ?_⟩
      intro pre a post m' hacts hpre
      cases pre with
      | nil =>
        cases hacts
        exact reaches_nil.mp hpre ▸ hc
      | cons p pre =>
        cases hacts
        obtain ⟨n, hn, hpre⟩ := reaches_cons.mp hpre
        cases Option.some.inj (hm.symm.trans hn)
        exact hall pre a post m' rfl hpre
    · intro ⟨⟨m, hm, hr⟩, hall⟩
      refine ⟨m, ⟨hall [] b acts s rfl (.nil step s), hm⟩, hr, ?_⟩
      intro pre a post m' hacts hpre
      exact hall (b :: pre) a post m' (by rw [hacts]; rfl) (reaches_cons.mpr ⟨m, hm, hpre⟩)

theorem Reaches.of_restrict {cond : σ → ℓ → Prop} [∀ s a, Decidable (cond s a)]
    {step : σ → ℓ → Option σ} {s t : σ} {acts : List ℓ}
    (h : Reaches (restrict cond step) s acts t) : Reaches step s acts t :=
  (reaches_restrict.mp h).1

/-- The property holds in every state the run goes through. -/
def Throughout (step : σ → ℓ → Option σ) (P : σ → Prop) (s : σ) (acts : List ℓ) : Prop :=
  ∀ pre post m, acts = pre ++ post → Reaches step s pre m → P m

theorem throughout_cons {step : σ → ℓ → Option σ} {P : σ → Prop} {s m : σ} {a : ℓ} {acts : List ℓ}
    (hm : step s a = some m) :
    Throughout step P s (a :: acts) ↔ P s ∧ Throughout step P m acts := by
  constructor
  · intro h
    refine ⟨h [] (a :: acts) s rfl (.nil step s), ?_⟩
    intro pre post n hacts hpre
    exact h (a :: pre) post n (by rw [hacts]; rfl) (reaches_cons.mpr ⟨m, hm, hpre⟩)
  · rintro ⟨hs, h⟩ pre post n hacts hpre
    cases pre with
    | nil => exact reaches_nil.mp hpre ▸ hs
    | cons b pre =>
      cases hacts
      obtain ⟨m', hm', hpre⟩ := reaches_cons.mp hpre
      cases Option.some.inj (hm.symm.trans hm')
      exact h pre post n rfl hpre

/-- An invariant holds in every state of every run. -/
theorem Throughout.of_invariant {step : σ → ℓ → Option σ} {I : σ → Prop}
    (hinv : ∀ s a t, I s → step s a = some t → I t) {s : σ} (hs : I s) (acts : List ℓ) :
    Throughout step I s acts := by
  intro pre post m _ hpre
  exact hpre.invariant hinv hs

/-- Where, in the states the run goes through, the condition says exactly which steps keep
the property, it says whether the run does. -/
theorem Throughout.iff_restrict {cond : σ → ℓ → Prop} [∀ s a, Decidable (cond s a)]
    {step : σ → ℓ → Option σ} {I P : σ → Prop}
    (hstep : ∀ s a t, I s → I t → P s → step s a = some t → (P t ↔ cond s a)) {s t : σ}
    {acts : List ℓ} (hI : Throughout step I s acts) (hs : P s) (h : Reaches step s acts t) :
    Throughout step P s acts ↔ Reaches (restrict cond step) s acts t := by
  induction acts generalizing s with
  | nil =>
    refine ⟨fun _ => h, ?_⟩
    intro _ pre post m hacts hpre
    cases (List.append_eq_nil_iff.mp hacts.symm).1
    exact reaches_nil.mp hpre ▸ hs
  | cons a acts ih =>
    obtain ⟨m, hm, hr⟩ := reaches_cons.mp h
    obtain ⟨hIs, hIrest⟩ := (throughout_cons hm).mp hI
    have hkeeps := hstep s a m hIs (hIrest [] acts m rfl (.nil step m)) hs hm
    rw [throughout_cons hm, reaches_cons]
    constructor
    · rintro ⟨-, hall⟩
      have hPm : P m := hall [] acts m rfl (.nil step m)
      exact ⟨m, restrict_eq_some.mpr ⟨hkeeps.mp hPm, hm⟩, (ih hIrest hPm hr).mp hall⟩
    · rintro ⟨m', hm', hr'⟩
      obtain ⟨hcond, hm'⟩ := restrict_eq_some.mp hm'
      cases Option.some.inj (hm.symm.trans hm')
      exact ⟨hs, (ih hIrest (hkeeps.mpr hcond) hr).mpr hr'⟩

/-- The same where the condition does so in every state. -/
theorem throughout_iff_restrict {cond : σ → ℓ → Prop} [∀ s a, Decidable (cond s a)]
    {step : σ → ℓ → Option σ} {P : σ → Prop}
    (hstep : ∀ s a t, P s → step s a = some t → (P t ↔ cond s a)) {s t : σ} {acts : List ℓ}
    (hs : P s) (h : Reaches step s acts t) :
    Throughout step P s acts ↔ Reaches (restrict cond step) s acts t :=
  Throughout.iff_restrict (fun s a t _ _ => hstep s a t)
    (Throughout.of_invariant (I := fun _ => True) (fun _ _ _ _ _ => trivial) trivial acts) hs h

/-- Where, under an invariant, the steps after which the property holds are the ones before
which it held that meet the condition, the runs that keep it are the ones made of steps that
meet the condition. -/
theorem Reaches.keeps_iff_restrict {cond : σ → ℓ → Prop} [∀ s a, Decidable (cond s a)]
    {step : σ → ℓ → Option σ} {I P : σ → Prop} (hinv : ∀ s a t, I s → step s a = some t → I t)
    (hstep : ∀ s a t, I s → step s a = some t → (P t ↔ P s ∧ cond s a)) {s t : σ} {acts : List ℓ}
    (hI : I s) (h : Reaches step s acts t) : P t ↔ P s ∧ Reaches (restrict cond step) s acts t := by
  induction acts generalizing s with
  | nil =>
    cases reaches_nil.mp h
    exact ⟨fun hP => ⟨hP, .nil _ _⟩, And.left⟩
  | cons a acts ih =>
    obtain ⟨m, hm, hr⟩ := reaches_cons.mp h
    have hIm : I m := hinv s a m hI hm
    rw [ih hIm hr, hstep s a m hI hm, reaches_cons]
    constructor
    · rintro ⟨⟨hP, hcond⟩, hr'⟩
      exact ⟨hP, m, restrict_eq_some.mpr ⟨hcond, hm⟩, hr'⟩
    · rintro ⟨hP, m', hm', hr'⟩
      obtain ⟨hcond, hm'⟩ := restrict_eq_some.mp hm'
      cases Option.some.inj (hm.symm.trans hm')
      exact ⟨⟨hP, hcond⟩, hr'⟩

/-- A part of a restricted run, met by the steps without the restriction. -/
theorem Reaches.restrict_split {cond : σ → ℓ → Prop} [∀ s a, Decidable (cond s a)]
    {step : σ → ℓ → Option σ} {s m t : σ} {pre post : List ℓ}
    (h : Reaches (restrict cond step) s (pre ++ post) t) (hpre : Reaches step s pre m) :
    Reaches (restrict cond step) s pre m ∧ Reaches (restrict cond step) m post t := by
  obtain ⟨m', hpre', hpost⟩ := reaches_append.mp h
  cases hpre.unique hpre'.of_restrict
  exact ⟨hpre', hpost⟩

/-- Every step of the run is as the relation says. -/
def EveryStep (step : σ → ℓ → Option σ) (R : σ → ℓ → σ → Prop) (s : σ) (acts : List ℓ) : Prop :=
  ∀ pre a post m n, acts = pre ++ a :: post → Reaches step s pre m → step m a = some n → R m a n

/-- Where, under an invariant, the condition says exactly which steps are as the relation
says, it says exactly which runs are made of them. -/
theorem everyStep_iff_restrict {cond : σ → ℓ → Prop} [∀ s a, Decidable (cond s a)]
    {step : σ → ℓ → Option σ} {P : σ → Prop} {R : σ → ℓ → σ → Prop}
    (hinv : ∀ s a t, P s → step s a = some t → P t)
    (hstep : ∀ s a t, P s → step s a = some t → (R s a t ↔ cond s a)) {s t : σ} {acts : List ℓ}
    (hs : P s) (h : Reaches step s acts t) :
    EveryStep step R s acts ↔ Reaches (restrict cond step) s acts t := by
  rw [reaches_restrict]
  constructor
  · intro hevery
    refine ⟨h, ?_⟩
    intro pre a post m hacts hpre
    obtain ⟨m', hpre', hpost⟩ := reaches_append.mp (hacts ▸ h)
    cases hpre.unique hpre'
    obtain ⟨n, hn, -⟩ := reaches_cons.mp hpost
    exact (hstep m a n (hpre.invariant hinv hs) hn).mp (hevery pre a post m n hacts hpre hn)
  · rintro ⟨-, hcond⟩ pre a post m n hacts hpre hn
    exact (hstep m a n (hpre.invariant hinv hs) hn).mpr (hcond pre a post m hacts hpre)

/-- What the restricted steps are in states that keep an invariant of theirs, the steps of
a restricted run are. -/
theorem Reaches.everyStep {cond : σ → ℓ → Prop} [∀ s a, Decidable (cond s a)]
    {step : σ → ℓ → Option σ} {P : σ → Prop} {R : σ → ℓ → σ → Prop}
    (hinv : ∀ s a t, P s → cond s a → step s a = some t → P t)
    (hstep : ∀ s a t, P s → cond s a → step s a = some t → R s a t) {s t : σ} {acts : List ℓ}
    (hs : P s) (h : Reaches (restrict cond step) s acts t) : EveryStep step R s acts := by
  rintro pre a post m n rfl hpre hn
  have hcond := (reaches_restrict.mp h).2 pre a post m rfl hpre
  refine hstep m a n ((h.restrict_split hpre).1.invariant ?_ hs) hcond hn
  intro s a t hP hres
  exact hinv s a t hP (restrict_eq_some.mp hres).1 (restrict_eq_some.mp hres).2

/-- And its states keep the invariant. -/
theorem Reaches.throughout {cond : σ → ℓ → Prop} [∀ s a, Decidable (cond s a)]
    {step : σ → ℓ → Option σ} {P : σ → Prop}
    (hinv : ∀ s a t, P s → cond s a → step s a = some t → P t) {s t : σ} {acts : List ℓ} (hs : P s)
    (h : Reaches (restrict cond step) s acts t) : Throughout step P s acts := by
  rintro pre post m rfl hpre
  refine (h.restrict_split hpre).1.invariant ?_ hs
  intro s a t hP hres
  exact hinv s a t hP (restrict_eq_some.mp hres).1 (restrict_eq_some.mp hres).2

/-! ## One system behind another -/

section
variable {τ μ : Type*}

/-- What follows each step that meets the condition follows the run. -/
theorem Reaches.simulated {cond : σ → ℓ → Prop} [∀ s a, Decidable (cond s a)]
    {step : σ → ℓ → Option σ} {step' : τ → μ → Option τ} {act : ℓ → Option μ} {R : σ → τ → Prop}
    (hstep : ∀ s t a s', R s t → cond s a → step s a = some s' →
      ∃ t', Reaches step' t (act a).toList t' ∧ R s' t')
    {s s' : σ} {t : τ} {acts : List ℓ} (h : Reaches (restrict cond step) s acts s') (hR : R s t) :
    ∃ t', Reaches step' t (acts.filterMap act) t' ∧ R s' t' := by
  induction acts generalizing s t with
  | nil => exact ⟨t, .nil step' t, reaches_nil.mp h ▸ hR⟩
  | cons a acts ih =>
    obtain ⟨m, hm, hr⟩ := reaches_cons.mp h
    obtain ⟨hcond, hm⟩ := restrict_eq_some.mp hm
    obtain ⟨n, hn, hRn⟩ := hstep s t a m hR hcond hm
    obtain ⟨t', ht', hR'⟩ := ih hr hRn
    refine ⟨t', ?_, hR'⟩
    have hacts : (a :: acts).filterMap act = (act a).toList ++ acts.filterMap act := by
      rw [List.filterMap_cons]
      cases act a <;> rfl
    rw [hacts]
    exact reaches_append.mpr ⟨n, hn, ht'⟩

end

/-! ## One of many processes -/

/-- The one that was replaced, or another. -/
theorem update_cases {ι α : Type*} [DecidableEq ι] {f : ι → α} {n m : ι} {x y : α}
    (h : Function.update f n x m = y) : (m = n ∧ x = y) ∨ (m ≠ n ∧ f m = y) := by
  by_cases he : m = n
  · subst he
    rw [Function.update_self] at h
    exact Or.inl ⟨rfl, h⟩
  · rw [Function.update_of_ne he] at h
    exact Or.inr ⟨he, h⟩

theorem update_eq_some {ι α : Type*} [DecidableEq ι] {f : ι → Option α} {n m : ι} {x y : α}
    (h : Function.update f n (some x) m = some y) : (m = n ∧ y = x) ∨ (m ≠ n ∧ f m = some y) :=
  (update_cases h).imp_left (fun hx => ⟨hx.1, (Option.some.inj hx.2).symm⟩)

end AgenticPlatform.Foundation
