import AgenticPlatform.Observability.AuditRetention

/-!
# Verification next to retention

`verify_chain` sends two SELECTs, each with a snapshot of its own: the anchor first, then
the events. Appends and passes commit in between. The events it reads are chained from the
anchor that stands when they are read, so an alarm is false exactly where that anchor
carries another hash than the one it has read.
-/
namespace AgenticPlatform.Observability
open AgenticPlatform.Foundation AgenticPlatform.Identity AgenticPlatform.Db

instance (s : AuditState) : ∀ a : AuditAct, Decidable (anchorsPresent s a)
  | .anchor p =>
    show Decidable
      (match s.passes p with | .looping (b :: _) _ => present s.events b = true | _ => True) from
    match s.passes p with
    | .looping (b :: _) _ => inferInstanceAs (Decidable (present s.events b = true))
    | .unused | .looping [] _ | .ended _ => isTrue trivial
  | .begin _ _ _ | .lock _ | .readPrev _ | .insert _ _ | .commit _ | .rollback _ |
      .startPass _ _ _ | .commitPass _ | .abortPass _ =>
    isTrue trivial

/-- The anchor is read in the first state, the events in the second. -/
def verifyAcross (env : AuditEnv) (s t : AuditState) (tenant : Uuid) : ChainVerification :=
  verifyChain env (s.anchors tenant) (auditRows t.events tenant)

/-- The hash that the oldest event of a tenant has to name. -/
def anchorHash (s : AuditState) (tenant : Uuid) : Option String :=
  (s.anchors tenant).map Anchor.throughHash

/-- No pass commits a boundary of the tenant. -/
def sparesTenant (tenant : Uuid) (s : AuditState) : AuditAct → Prop
  | .commitPass p =>
    match s.passes p with
    | .looping _ done => ∀ d ∈ done, d.1.tenantId ≠ tenant
    | _ => True
  | _ => True

instance (tenant : Uuid) (s : AuditState) : ∀ a : AuditAct, Decidable (sparesTenant tenant s a)
  | .commitPass p =>
    show Decidable
      (match s.passes p with
        | .looping _ done => ∀ d ∈ done, d.1.tenantId ≠ tenant
        | _ => True) from
    match s.passes p with
    | .looping _ done => inferInstanceAs (Decidable (∀ d ∈ done, d.1.tenantId ≠ tenant))
    | .unused | .ended _ => isTrue trivial
  | .begin _ _ _ | .lock _ | .readPrev _ | .insert _ _ | .commit _ | .rollback _ |
      .startPass _ _ _ | .anchor _ | .abortPass _ =>
    isTrue trivial

variable {env : AuditEnv}

/-- A chain starts from one hash only. -/
theorem chained_start {rows : List AuditRow} {p q : Option String}
    (hp : (links env).Chained p rows) : (links env).Chained q rows ↔ rows = [] ∨ p = q := by
  cases rows with
  | nil => simp [Links.Chained]
  | cons e rows =>
    constructor
    · intro hq
      exact Or.inr (hp.1.symm.trans hq.1)
    · rintro (h | rfl)
      · cases h
      · exact hp

theorem intact_across_iff {s t : AuditState} (ht : AuditInv env t) (hsince : Advances s t)
    (tenant : Uuid) :
    (verifyAcross env s t tenant).intact = true ↔
      rowsOf t.events tenant = [] ∨ anchorHash t tenant = anchorHash s tenant := by
  have hchain := ht.chains tenant
  have habove : ∀ e ∈ rowsOf t.events tenant, ∀ a ∈ s.anchors tenant, a.throughEventId < e.id := by
    intro e he a ha
    obtain ⟨a', ha', hle⟩ := hsince tenant a ha
    exact Nat.lt_of_le_of_lt hle (hchain.above e he a' ha')
  rw [verifyAcross, auditRows_eq hchain.sorted, verifyChain_intact, and_iff_right habove]
  exact chained_start hchain.chained

/-- Between the passes that commit a boundary of the tenant its anchor stays. -/
theorem anchor_of_spares {s t : AuditState} {a : AuditAct} {tenant : Uuid} (hinv : AuditInv env s)
    (hspares : sparesTenant tenant s a) (hstep : auditStep env s a = some t) :
    t.anchors tenant = s.anchors tenant := by
  cases auditStep_move hstep with
  | commitPass p done removed hp ht =>
    have hpass := hinv.passes p
    rw [hp] at hpass
    simp only [sparesTenant, hp] at hspares
    rw [ht]
    change (done.foldl AuditState.applyBoundary s).anchors tenant = _
    rcases applyBoundaries_tenant hpass.2 s tenant with ⟨hkept, -⟩ | ⟨d, hd, hsame, -⟩
    · exact hkept
    · exact absurd hsame (hspares d hd)
  | _ =>
    subst_vars
    rfl

/-- A pass that removes the first of two events commits before the anchor is read, an append
after it. -/
def retainedFirst : List AuditAct :=
  appendOnce 0 1 1 ++ appendOnce 1 1 15 ++ [.startPass 0 10 1000, .anchor 0, .commitPass 0]

end AgenticPlatform.Observability
