import AgenticPlatform.Foundation.Aggregate
import AgenticPlatform.Foundation.Transition
import AgenticPlatform.Release.Canary

/-!
# The traffic adds up

A call rewrites the row it names and the active row, and leaves every other row with the
weight it has. So the weights go on adding up to 100 exactly where no canary is left
beside the named revision, and there goes on being one active revision exactly where the
name is not a wrong one: not that of the active revision, or not that of a missing one.
-/
namespace AgenticPlatform.Release
open AgenticPlatform.Foundation

variable {t t' : ReleaseTable} {a : ReleaseRow}

/-- The revision `a` is the only active one. -/
def OneActive (t : ReleaseTable) (a : ReleaseRow) : Prop :=
  a ∈ t.rows ∧ a.status = .active ∧ ∀ r ∈ t.rows, r.status = .active → r = a

/-- One active revision, and the whole of the traffic is routed. -/
def Conserved (t : ReleaseTable) : Prop :=
  (∃ a ∈ t.rows, OneActive t a) ∧ ((trafficSplit t).map Prod.snd).sum = 100

instance (t : ReleaseTable) (a : ReleaseRow) : Decidable (OneActive t a) :=
  inferInstanceAs (Decidable (_ ∧ _))

instance (t : ReleaseTable) : Decidable (Conserved t) := inferInstanceAs (Decidable (_ ∧ _))

/-- Before any canary: all traffic on the active revision. -/
def Settled (t : ReleaseTable) : Prop :=
  ∃ a ∈ t.rows, OneActive t a ∧ a.trafficWeight = 100 ∧ ∀ r ∈ t.rows, r ≠ a → r.trafficWeight = 0

def serving (r : ReleaseRow) : Prop := r.status = .active ∨ r.status = .canary

instance : DecidablePred serving := fun _ => inferInstanceAs (Decidable (_ ∨ _))

/-- The traffic of the canaries other than the named revision. -/
def canariesBeside (t : ReleaseTable) (revision : String) : Int :=
  sumWhere (fun r => r.status = .canary ∧ r.revision ≠ revision) ReleaseRow.trafficWeight t.rows

def IsActive (t : ReleaseTable) (revision : String) : Prop :=
  ∃ r ∈ t.rows, r.revision = revision ∧ r.status = .active

instance (t : ReleaseTable) (revision : String) : Decidable (IsActive t revision) :=
  inferInstanceAs (Decidable (∃ r ∈ t.rows, _))

/-! ## Sums over the table -/

/-- A weight that is not positive is zero. -/
theorem sum_trafficSplit (t : ReleaseTable) :
    ((trafficSplit t).map Prod.snd).sum = sumWhere serving ReleaseRow.trafficWeight t.rows := by
  have hsplit : ((trafficSplit t).map Prod.snd).sum =
      sumWhere (fun r => (r.status = .active ∨ r.status = .canary) ∧ 0 < r.trafficWeight)
        ReleaseRow.trafficWeight t.rows := by
    rw [trafficSplit, List.map_map]
    rfl
  rw [hsplit]
  refine sumWhere_congr ?_
  intro r _
  have hrange := r.weight_range
  by_cases hs : serving r
  · by_cases hw : 0 < r.trafficWeight
    · rw [if_pos ⟨hs, hw⟩, if_pos hs]
    · rw [if_neg (fun h => hw h.2), if_pos hs]
      omega
  · rw [if_neg (fun h => hs h.1), if_neg hs]

/-- What two updates make of a row. -/
def twice (k k' : String) (set set' : ReleaseRow → ReleaseRow) (r : ReleaseRow) : ReleaseRow :=
  Table.rewrite (fun r => r.revision = k') set' (Table.rewrite (fun r => r.revision = k) set r)

theorem rows_twice (t : ReleaseTable) (k k' : String) (set set' : ReleaseRow → ReleaseRow)
    (hset) (hset') :
    (setRevision (setRevision t k set hset) k' set' hset').rows =
      t.rows.map (twice k k' set set') := by
  simp only [setRevision, Table.updateWhere, Table.update, List.map_map]
  rfl

theorem mem_twice {k k' : String} {set set' : ReleaseRow → ReleaseRow} {hset} {hset'}
    {r : ReleaseRow} (h : r ∈ (setRevision (setRevision t k set hset) k' set' hset').rows) :
    ∃ r₀ ∈ t.rows, r = twice k k' set set' r₀ := by
  rw [rows_twice] at h
  obtain ⟨r₀, hr₀, rfl⟩ := List.mem_map.mp h
  exact ⟨r₀, hr₀, rfl⟩

/-- The rows beside the named one, and the named one as it is now. -/
theorem sumWhere_setRevision (t : ReleaseTable) (k : String) (set : ReleaseRow → ReleaseRow) (hset)
    (p : ReleaseRow → Prop) [DecidablePred p] :
    sumWhere p ReleaseRow.trafficWeight (setRevision t k set hset).rows =
      sumWhere (fun r => p r ∧ r.revision ≠ k) ReleaseRow.trafficWeight t.rows +
        (((t.get k).map set).filter (fun r => p r)).elim 0 ReleaseRow.trafficWeight := by
  rw [sumWhere_split _ k]
  congr 1
  · refine sumWhere_map ?_
    intro r _
    unfold Table.rewrite
    split
    · rename_i hk
      simp [hset, hk]
    · simp
  · rw [setRevision, Table.get_updateWhere]
    cases hget : t.get k with
    | none => rfl
    | some r =>
      obtain ⟨-, hk⟩ := Table.get_eq_some.mp hget
      simp [Table.rewrite, hk]

/-- What the rewritten row adds, where it adds the same whatever it was. -/
theorem elim_rewritten {k : String} {set : ReleaseRow → ReleaseRow} {p : ReleaseRow → Prop}
    [DecidablePred p] {w : Int}
    (h : ∀ r, r.revision = k → (if p (set r) then (set r).trafficWeight else 0) = w) :
    (((t.get k).map set).filter (fun r => p r)).elim 0 ReleaseRow.trafficWeight =
      if k ∈ t.keys then w
      else 0 := by
  cases hget : t.get k with
  | none =>
    rw [if_neg (Table.get_eq_none.mp hget)]
    rfl
  | some r =>
    obtain ⟨hr, hk⟩ := Table.get_eq_some.mp hget
    have hw := h r hk
    rw [if_pos (hk ▸ Table.key_mem_keys hr), Option.map_some]
    by_cases hp : p (set r)
    · rw [if_pos hp] at hw
      simpa [Option.filter, hp] using hw
    · rw [if_neg hp] at hw
      simpa [Option.filter, hp] using hw

/-- Beside the active revision only canaries serve. -/
theorem beside_active (ha : OneActive t a) (k : String) :
    sumWhere (fun r => (serving r ∧ r.revision ≠ a.revision) ∧ r.revision ≠ k)
      ReleaseRow.trafficWeight t.rows =
      canariesBeside t k := by
  refine sumWhere_congr ?_
  intro r hr
  by_cases hra : r = a
  · simp [hra, ha.2.1]
  · have hne : r.revision ≠ a.revision := fun h => hra (Table.eq_of_key hr ha.1 h)
    have hstatus : r.status ≠ .active := fun h => hra (ha.2.2 r hr h)
    simp [serving, hne, hstatus]

theorem activeRow_of_one (ha : OneActive t a) : activeRow t = .ok (some a) := by
  have hfilter : t.rows.filter (fun r => r.status = .active) = [a] := by
    have hnodup : (t.rows.filter (fun r => r.status = .active)).Nodup :=
      (List.Nodup.of_map _ t.nodup).sublist List.filter_sublist
    have hmem : a ∈ t.rows.filter (fun r => r.status = .active) :=
      List.mem_filter.mpr ⟨ha.1, decide_eq_true ha.2.1⟩
    cases hrows : t.rows.filter (fun r => r.status = .active) with
    | nil => rw [hrows] at hmem; cases hmem
    | cons x xs =>
      have hall : ∀ y ∈ x :: xs, y = a := by
        intro y hy
        rw [← hrows, List.mem_filter] at hy
        exact ha.2.2 y hy.1 (of_decide_eq_true hy.2)
      rw [hrows] at hnodup
      have hx : x = a := hall x List.mem_cons_self
      cases xs with
      | nil => rw [hx]
      | cons y ys =>
        have hy : y = a := hall y (by simp)
        simp [hx, hy] at hnodup
  rw [activeRow, hfilter]

/-- The only active row after the rows were rewritten one by one. -/
theorem OneActive.of_map {h : ReleaseRow → ReleaseRow} (hrows : t'.rows = t.rows.map h)
    {b : ReleaseRow} (hb : b ∈ t.rows) (hactive : (h b).status = .active)
    (honly : ∀ r ∈ t.rows, (h r).status = .active → r = b) : OneActive t' (h b) := by
  refine ⟨?_, hactive, ?_⟩
  · rw [hrows]
    exact List.mem_map_of_mem hb
  · intro r hr hstatus
    rw [hrows] at hr
    obtain ⟨r₀, hr₀, rfl⟩ := List.mem_map.mp hr
    rw [honly r₀ hr₀ hstatus]

theorem not_conserved_of_none (h : ∀ r ∈ t.rows, r.status ≠ .active) : ¬ Conserved t := by
  rintro ⟨⟨b, hb, -, hactive, -⟩, -⟩
  exact h b hb hactive

theorem conserved_iff_of_one (ha : OneActive t a) :
    Conserved t ↔ sumWhere serving ReleaseRow.trafficWeight t.rows = 100 := by
  rw [Conserved, sum_trafficSplit]
  exact ⟨fun h => h.2, fun h => ⟨⟨a, ha.1, ha⟩, h⟩⟩

theorem isActive_iff (ha : OneActive t a) {k : String} : IsActive t k ↔ k = a.revision := by
  constructor
  · rintro ⟨r, hr, rfl, hactive⟩
    rw [ha.2.2 r hr hactive]
  · rintro rfl
    exact ⟨a, ha.1, rfl, ha.2.1⟩

/-! ## One call -/

/-- After both rows of `start_canary` or `rollback` were written: the named one serves
with the weight `w` or not at all, and the active one has the weight `w'`. -/
theorem conserved_twice {k : String} (set set' : ReleaseRow → ReleaseRow) (hset) (hset')
    (w w' : Int) (ha : OneActive t a) (hk : k ≠ a.revision)
    (hstatus : ∀ r, (set r).status ≠ .active)
    (hweight : ∀ r, (if serving (set r) then (set r).trafficWeight else 0) = w)
    (hsame : (set' a).status = a.status) (hactive : (set' a).trafficWeight = w')
    (ht' : t' = setRevision (setRevision t k set hset) a.revision set' hset') :
    Conserved t' ↔ canariesBeside t k + (if k ∈ t.keys then w else 0) + w' = 100 := by
  subst ht'
  have hrow : Table.rewrite (fun r => r.revision = k) set a = a := if_neg (Ne.symm hk)
  have hone : OneActive (setRevision (setRevision t k set hset) a.revision set' hset')
      (twice k a.revision set set' a) := by
    refine .of_map (rows_twice t k a.revision set set' hset hset') ha.1 ?_ ?_
    · rw [twice, hrow, Table.rewrite, if_pos rfl, hsame]
      exact ha.2.1
    · intro r hr hr'
      by_contra hra
      have hne : r.revision ≠ a.revision := fun h => hra (Table.eq_of_key hr ha.1 h)
      have htwice : twice k a.revision set set' r =
          Table.rewrite (fun r => r.revision = k) set r := by
        refine if_neg ?_
        intro hname
        exact hne ((Table.key_rewrite hset r).symm.trans hname)
      rw [htwice, Table.rewrite] at hr'
      split at hr'
      · exact hstatus r hr'
      · exact hra (ha.2.2 r hr hr')
  have hget : (setRevision t k set hset).get a.revision = some a := by
    rw [setRevision, Table.get_updateWhere, Table.get_self ha.1, Option.map_some, hrow]
  have hserves : serving (set' a) := Or.inl (hsame.trans ha.2.1)
  have hnamed : ∀ r : ReleaseRow, r.revision = k →
      (if serving (set r) ∧ (set r).revision ≠ a.revision then (set r).trafficWeight else 0) =
      w := by
    intro r hr
    have hne : (set r).revision ≠ a.revision := by rw [hset, hr]; exact hk
    simpa [hne] using hweight r
  rw [conserved_iff_of_one hone, sumWhere_setRevision, sumWhere_setRevision, beside_active ha, hget,
    elim_rewritten hnamed]
  simp [Option.filter, hserves, hactive]

/-- Naming the active revision there leaves none. -/
theorem not_conserved_twice (set set' : ReleaseRow → ReleaseRow) (hset) (hset') (ha : OneActive t a)
    (hstatus : ∀ r, (set' (set r)).status ≠ .active)
    (ht' : t' = setRevision (setRevision t a.revision set hset) a.revision set' hset') :
    ¬ Conserved t' := by
  subst ht'
  refine not_conserved_of_none ?_
  intro r hr
  obtain ⟨r₀, hr₀, rfl⟩ := mem_twice hr
  by_cases hname : r₀.revision = a.revision
  · have htwice : twice a.revision a.revision set set' r₀ = set' (set r₀) := by
      simp [twice, Table.rewrite, hname, hset]
    rw [htwice]
    exact hstatus r₀
  · have htwice : twice a.revision a.revision set set' r₀ = r₀ := by
      simp [twice, Table.rewrite, hname]
    rw [htwice]
    intro hactive
    exact hname (congrArg ReleaseRow.revision (ha.2.2 r₀ hr₀ hactive))

theorem startCanary_conserved {k : String} {w : Int} (ha : OneActive t a)
    (h : startCanary t k w = .ok t') :
    Conserved t' ↔ ¬ IsActive t k ∧ canariesBeside t k = if k ∈ t.keys then 0 else w := by
  rw [startCanary, activeRow_of_one ha] at h
  simp only at h
  split at h
  · rename_i hw
    cases h
    rw [isActive_iff ha]
    by_cases hk : k = a.revision
    · subst hk
      have hdark :=
        not_conserved_twice (asCanary w hw) (weighed (100 - w) (rest_range hw)) (fun _ => rfl)
          (fun _ => rfl) ha (fun r hr => by cases hr) rfl
      simp [hdark]
    · have hweight : ∀ r,
          (if serving (asCanary w hw r) then (asCanary w hw r).trafficWeight else 0) = w := by
        intro r
        exact if_pos (Or.inr rfl)
      refine (conserved_twice (asCanary w hw) (weighed (100 - w) (rest_range hw)) (fun _ => rfl)
        (fun _ => rfl) w (100 - w) ha hk (fun r hr => by cases hr) hweight rfl rfl rfl).trans ?_
      by_cases hrow : k ∈ t.keys
      · simp only [hrow, if_true, hk, not_false_iff, true_and]
        omega
      · simp only [hrow, if_false, hk, not_false_iff, true_and]
        omega
  · cases h

theorem rollback_conserved {k reason : String} {now : Time} {res : RollbackResult}
    (ha : OneActive t a) (h : rollback t now k reason = .ok (t', res)) :
    Conserved t' ↔ ¬ IsActive t k ∧ canariesBeside t k = 0 := by
  rw [rollback, activeRow_of_one ha] at h
  simp only at h
  cases h
  rw [isActive_iff ha]
  by_cases hk : k = a.revision
  · subst hk
    have hdark :=
      not_conserved_twice (asRolledBack now reason) (weighed 100 (by decide)) (fun _ => rfl)
        (fun _ => rfl) ha (fun r hr => by cases hr) rfl
    simp [hdark]
  · have hweight : ∀ r,
      (if serving (asRolledBack now reason r) then (asRolledBack now reason r).trafficWeight
        else 0) = 0 := by
      intro r
      exact ite_self 0
    refine (conserved_twice (asRolledBack now reason) (weighed 100 (by decide)) (fun _ => rfl)
      (fun _ => rfl) 0 100 ha hk (fun r hr => by cases hr) hweight rfl rfl rfl).trans ?_
    simp only [ite_self, hk, not_false_iff, true_and]
    omega

theorem asRetired_revision (r : ReleaseRow) : (asRetired r).revision = r.revision := rfl

/-- What `promote` makes of the previous active revision: it is retired, unless its name
is empty. -/
def previousRetired (t : ReleaseTable) (a : ReleaseRow) : ReleaseTable :=
  if a.revision = "" then t else setRevision t a.revision asRetired asRetired_revision

theorem promote_eq {k : String} {now : Time} {res : PromoteResult} (ha : OneActive t a)
    (h : promote t now k = .ok (t', res)) :
    t' = setRevision (previousRetired t a) k (asActive now) (fun _ => rfl) := by
  rw [promote, activeRow_of_one ha] at h
  cases h
  rfl

theorem previousRetired_of_named (hname : a.revision ≠ "") :
    previousRetired t a = setRevision t a.revision asRetired (fun _ => rfl) := if_neg hname

/-- A missing revision cannot be made active, and the previous one is gone. -/
theorem promote_missing {k : String} {now : Time} (ha : OneActive t a) (hname : a.revision ≠ "")
    (hk : k ∉ t.keys) :
    ¬ Conserved (setRevision (previousRetired t a) k (asActive now) (fun _ => rfl)) := by
  refine not_conserved_of_none ?_
  intro r hr
  rw [previousRetired_of_named hname] at hr
  obtain ⟨r₀, hr₀, rfl⟩ := mem_twice hr
  have hne : r₀.revision ≠ k := fun h => hk (h ▸ Table.key_mem_keys hr₀)
  by_cases hra : r₀.revision = a.revision
  · have htwice : twice a.revision k asRetired (asActive now) r₀ = asRetired r₀ := by
      have hout : (asRetired r₀).revision ≠ k := hne
      simp [twice, Table.rewrite, hra, hout]
    rw [htwice]
    exact fun h => by cases h
  · have htwice : twice a.revision k asRetired (asActive now) r₀ = r₀ := by
      simp [twice, Table.rewrite, hra, hne]
    rw [htwice]
    intro hactive
    exact hra (congrArg ReleaseRow.revision (ha.2.2 r₀ hr₀ hactive))

/-- Making a revision active where no other one is. -/
theorem conserved_asActive {k : String} {now : Time} (hk : k ∈ t.keys)
    (hrest : ∀ r ∈ t.rows, r.revision ≠ k → r.status ≠ .active) :
    Conserved (setRevision t k (asActive now) (fun _ => rfl)) ↔ canariesBeside t k = 0 := by
  obtain ⟨b, hb, rfl⟩ := Table.mem_keys.mp hk
  have hone : OneActive (setRevision t b.revision (asActive now) (fun _ => rfl))
      (Table.rewrite (fun r => r.revision = b.revision) (asActive now) b) := by
    refine .of_map rfl hb ?_ ?_
    · rw [Table.rewrite, if_pos rfl]
      rfl
    · intro r hr hactive
      by_contra hrb
      have hne : r.revision ≠ b.revision := fun h => hrb (Table.eq_of_key hr hb h)
      rw [Table.rewrite, if_neg hne] at hactive
      exact hrest r hr hne hactive
  have hbeside :
      sumWhere (fun r => serving r ∧ r.revision ≠ b.revision) ReleaseRow.trafficWeight t.rows =
      canariesBeside t b.revision := by
    refine sumWhere_congr ?_
    intro r hr
    by_cases hne : r.revision = b.revision
    · simp [hne]
    · simp [serving, hne, hrest r hr hne]
  have hnamed : ∀ r : ReleaseRow, r.revision = b.revision →
      (if serving (asActive now r) then (asActive now r).trafficWeight else 0) = 100 := by
    intro r _
    exact if_pos (Or.inl rfl)
  have hsum := sumWhere_setRevision t b.revision (asActive now) (fun _ => rfl) serving
  rw [hbeside, elim_rewritten hnamed, if_pos hk] at hsum
  refine (conserved_iff_of_one hone).trans ?_
  rw [hsum]
  omega

/-- Retiring the active revision leaves the canaries alone. -/
theorem canariesBeside_previousRetired (ha : OneActive t a) (k : String) :
    canariesBeside (previousRetired t a) k = canariesBeside t k := by
  by_cases hname : a.revision = ""
  · rw [previousRetired, if_pos hname]
  · rw [previousRetired_of_named hname]
    have hretired : ∀ r : ReleaseRow, r.revision = a.revision →
        (if (asRetired r).status = .canary ∧
          (asRetired r).revision ≠ k then (asRetired r).trafficWeight else 0) = 0 := by
      intro r _
      exact if_neg (fun h => by cases h.1)
    have hothers :
        sumWhere (fun r => (r.status = .canary ∧ r.revision ≠ k) ∧ r.revision ≠ a.revision)
        ReleaseRow.trafficWeight t.rows =
        canariesBeside t k := by
      refine sumWhere_congr ?_
      intro r hr
      by_cases hra : r.revision = a.revision
      · rw [Table.eq_of_key hr ha.1 hra]
        simp [ha.2.1]
      · simp [hra]
    have hsum :=
      sumWhere_setRevision t a.revision asRetired (fun _ => rfl)
        (fun r => r.status = .canary ∧ r.revision ≠ k)
    rw [hothers, elim_rewritten hretired, ite_self, add_zero] at hsum
    exact hsum

/-- Only the named revision may still be active when it is made so. -/
theorem previousRetired_rest {k : String} (ha : OneActive t a)
    (hk : a.revision ≠ "" ∨ k = a.revision) :
    ∀ r ∈ (previousRetired t a).rows, r.revision ≠ k → r.status ≠ .active := by
  intro r hr hne hactive
  by_cases hname : a.revision = ""
  · rw [previousRetired, if_pos hname] at hr
    have hka : k = a.revision := hk.resolve_left (not_not_intro hname)
    exact hne ((congrArg ReleaseRow.revision (ha.2.2 r hr hactive)).trans hka.symm)
  · rw [previousRetired_of_named hname] at hr
    rcases Table.mem_updateWhere (f := asRetired) (fun _ => rfl) hr with ⟨hr, hnot⟩ |
      ⟨r₀, -, -, rfl⟩
    · exact hnot (congrArg ReleaseRow.revision (ha.2.2 r hr hactive))
    · cases hactive

theorem keys_previousRetired (t : ReleaseTable) (a : ReleaseRow) :
    (previousRetired t a).keys = t.keys := by
  unfold previousRetired
  split
  · rfl
  · exact Table.keys_updateWhere t _ asRetired (fun _ => rfl)

/-- Where the promotion of a revision keeps one active and the traffic whole. -/
def promotable (t : ReleaseTable) (k : String) : Prop :=
  if IsActive t "" then k ∉ t.keys ∨ (k = "" ∧ canariesBeside t k = 0)
  else k ∈ t.keys ∧ canariesBeside t k = 0

instance (t : ReleaseTable) (k : String) : Decidable (promotable t k) :=
  inferInstanceAs (Decidable (if IsActive t "" then _ else _))

theorem promote_conserved {k : String} {now : Time} {res : PromoteResult} (ha : OneActive t a)
    (hc : Conserved t) (h : promote t now k = .ok (t', res)) : Conserved t' ↔ promotable t k := by
  rw [promote_eq ha h, promotable]
  have hempty : IsActive t "" ↔ "" = a.revision := isActive_iff ha
  have hone : ∀ hk : k ∈ t.keys, a.revision ≠ "" ∨ k = a.revision →
      (Conserved (setRevision (previousRetired t a) k (asActive now) (fun _ => rfl)) ↔
        canariesBeside t k = 0) := by
    intro hk hname
    rw [← canariesBeside_previousRetired ha k]
    exact conserved_asActive (keys_previousRetired t a ▸ hk) (previousRetired_rest ha hname)
  by_cases hname : a.revision = ""
  · rw [if_pos (hempty.mpr hname.symm)]
    by_cases hk : k ∈ t.keys
    · by_cases hkempty : k = ""
      · rw [hone hk (Or.inr (hkempty.trans hname.symm))]
        exact ⟨fun h => Or.inr ⟨hkempty, h⟩, fun h => (h.resolve_left (not_not_intro hk)).2⟩
      · -- the previous revision keeps its status, so two are active
        have htwo : ¬ Conserved
            (setRevision (previousRetired t a) k (asActive now) (fun _ => rfl)) := by
          rintro ⟨⟨x, -, hx⟩, -⟩
          rw [previousRetired, if_pos hname] at hx
          obtain ⟨b, hb, hbk⟩ := Table.mem_keys.mp hk
          have hold :=
            hx.2.2 a (List.mem_map.mpr ⟨a, ha.1, if_neg (fun h => hkempty (h.symm.trans hname))⟩)
              ha.2.1
          have hnew := hx.2.2 (asActive now b) (List.mem_map.mpr ⟨b, hb, if_pos hbk⟩) rfl
          have hsame := congrArg ReleaseRow.revision (hnew.trans hold.symm)
          exact hkempty (hbk.symm.trans (hsame.trans hname))
        simp [htwo, hk, hkempty]
    · have hsame : setRevision (previousRetired t a) k (asActive now) (fun _ => rfl) = t := by
        rw [previousRetired, if_pos hname]
        refine Table.updateWhere_of_none (f := asActive now) (fun _ => rfl) ?_
        intro r hr hrk
        exact hk (hrk ▸ Table.key_mem_keys hr)
      rw [hsame]
      simp [hc, hk]
  · rw [if_neg (fun h => hname (hempty.mp h).symm)]
    by_cases hk : k ∈ t.keys
    · rw [hone hk (Or.inl hname)]
      simp [hk]
    · simp [promote_missing ha hname hk, hk]

/-! ## Sequences of calls -/

def rollable (t : ReleaseTable) (k : String) : Prop := ¬ IsActive t k ∧ canariesBeside t k = 0

instance (t : ReleaseTable) (k : String) : Decidable (rollable t k) :=
  inferInstanceAs (Decidable (_ ∧ _))

/-- The calls that keep the traffic whole. -/
def conserves (env : CanaryEnv) (t : ReleaseTable) : CanaryCall → Prop
  | .register .. => True
  | .startCanary k w => 0 ≤ w ∧ w ≤ 100 → ¬ IsActive t k ∧
    canariesBeside t k = if k ∈ t.keys then 0 else w
  | .rollback _ k _ => rollable t k
  | .promote _ k => promotable t k
  | .supervise _ k baseline stats th =>
    match (evaluateCanary env stats th k baseline).action with
    | .hold => True
    | .rollback => rollable t k
    | .promote => promotable t k

instance (env : CanaryEnv) (t : ReleaseTable) :
    (call : CanaryCall) → Decidable (conserves env t call)
  | .register .. => isTrue trivial
  | .startCanary k w => inferInstanceAs (Decidable (0 ≤ w ∧ w ≤ 100 → _ ∧ _ = _))
  | .rollback _ k _ => inferInstanceAs (Decidable (rollable t k))
  | .promote _ k => inferInstanceAs (Decidable (promotable t k))
  | .supervise _ k baseline stats th =>
    match h : (evaluateCanary env stats th k baseline).action with
    | .hold => isTrue (by simp [conserves, h])
    | .rollback => decidable_of_iff (rollable t k) (by simp [conserves, h])
    | .promote => decidable_of_iff (promotable t k) (by simp [conserves, h])

theorem Settled.conserved (h : Settled t) : Conserved t := by
  obtain ⟨a, ha, hone, hwhole, hothers⟩ := h
  refine ⟨⟨a, ha, hone⟩, ?_⟩
  have hserves : serving a := Or.inl hone.2.1
  have hbeside :
      sumWhere (fun r => serving r ∧ r.revision ≠ a.revision) ReleaseRow.trafficWeight t.rows =
      sumWhere (fun _ => False) ReleaseRow.trafficWeight t.rows := by
    refine sumWhere_congr ?_
    intro r hr
    by_cases hra : r = a
    · simp [hra]
    · simp [hothers r hr hra]
  rw [sum_trafficSplit, sumWhere_split t a.revision, hbeside, Table.get_self ha]
  simp [sumWhere, Option.filter, hserves, hwhole]

/-- A new revision has no traffic. -/
theorem register_conserved {now : Time} {k tag schema : String} (hc : Conserved t)
    (h : register t now k tag schema = .ok t') : Conserved t' := by
  unfold register at h
  split at h
  case isFalse => cases h
  cases h
  obtain ⟨⟨a, ha, hone⟩, hsum⟩ := hc
  have ha' : a ∈ (t.insertMissing [newRelease now k tag schema]).rows :=
    Table.mem_insertMissing _ ha
  refine ⟨⟨a, ha', ha', hone.2.1, ?_⟩, ?_⟩
  · intro r hr hactive
    rcases Table.mem_of_insertMissing hr with hr | hr
    · exact hone.2.2 r hr hactive
    · rw [List.mem_singleton.mp hr] at hactive
      cases hactive
  · have hfilter : trafficSplit (t.insertMissing [newRelease now k tag schema]) =
        trafficSplit t := by
      refine congrArg (List.map _) (Table.filter_insertMissing ?_)
      intro r hr
      rw [List.mem_singleton.mp hr]
      rfl
    rw [hfilter]
    exact hsum

theorem rollback_ok (now : Time) (k reason : String) (ha : OneActive t a) :
    ∃ res, rollback t now k reason = .ok res := by
  rw [rollback, activeRow_of_one ha]
  exact ⟨_, rfl⟩

theorem promote_ok (now : Time) (k : String) (ha : OneActive t a) :
    ∃ res, promote t now k = .ok res := by
  rw [promote, activeRow_of_one ha]
  exact ⟨_, rfl⟩

theorem canaryStep_startCanary {env : CanaryEnv} {k : String} {w : Int} (hc : Conserved t)
    (h : canaryStep env t (.startCanary k w) = some t') :
    Conserved t' ↔ conserves env t (.startCanary k w) := by
  obtain ⟨⟨a, -, ha⟩, -⟩ := id hc
  simp only [canaryStep, CanaryCall.execute] at h
  cases hstart : startCanary t k w with
  | error e =>
    rw [hstart] at h
    cases h
    have hw : ¬ (0 ≤ w ∧ w ≤ 100) := by
      intro hw
      rw [startCanary, activeRow_of_one ha] at hstart
      simp [hw] at hstart
    simp [conserves, hc, hw]
  | ok t₁ =>
    rw [hstart] at h
    cases h
    have hw : 0 ≤ w ∧ w ≤ 100 := by
      by_contra hw
      rw [startCanary, activeRow_of_one ha] at hstart
      simp [hw] at hstart
    rw [startCanary_conserved ha hstart, conserves]
    exact ⟨fun h _ => h, fun h => h hw⟩

theorem canaryStep_rollback {env : CanaryEnv} {k reason : String} {now : Time} (hc : Conserved t)
    (h : canaryStep env t (.rollback now k reason) = some t') : Conserved t' ↔ rollable t k := by
  obtain ⟨⟨a, -, ha⟩, -⟩ := hc
  obtain ⟨⟨t₁, res⟩, hback⟩ := rollback_ok now k reason ha
  simp only [canaryStep, CanaryCall.execute, hback, Except.map] at h
  cases h
  exact rollback_conserved ha hback

theorem canaryStep_promote {env : CanaryEnv} {k : String} {now : Time} (hc : Conserved t)
    (h : canaryStep env t (.promote now k) = some t') : Conserved t' ↔ promotable t k := by
  obtain ⟨⟨a, -, ha⟩, -⟩ := id hc
  obtain ⟨⟨t₁, res⟩, hpromote⟩ := promote_ok now k ha
  simp only [canaryStep, CanaryCall.execute, hpromote, Except.map] at h
  cases h
  exact promote_conserved ha hc hpromote

/-- Supervision is one of the other calls, or none. -/
theorem canaryStep_supervise (env : CanaryEnv) (t : ReleaseTable) (now : Time) (k baseline : String)
    (stats : String → RevisionStats) (th : Thresholds) :
    canaryStep env t (.supervise now k baseline stats th) =
      match (evaluateCanary env stats th k baseline).action with
      | .hold => some t
      | .rollback => canaryStep env t (.rollback now k
          ("; ".intercalate ((evaluateCanary env stats th k baseline).reasons.map env.reasonText)))
      | .promote => canaryStep env t (.promote now k) := by
  simp only [canaryStep, CanaryCall.execute, supervise]
  cases (evaluateCanary env stats th k baseline).action with
  | hold => rfl
  | rollback => rfl
  | promote => rfl

theorem canaryStep_conserved {env : CanaryEnv} {call : CanaryCall} (hc : Conserved t)
    (h : canaryStep env t call = some t') : Conserved t' ↔ conserves env t call := by
  cases call with
  | register now k tag schema =>
    simp only [canaryStep, CanaryCall.execute] at h
    cases hreg : register t now k tag schema with
    | error e =>
      rw [hreg] at h
      cases h
      exact iff_of_true hc trivial
    | ok t₁ =>
      rw [hreg] at h
      cases h
      exact iff_of_true (register_conserved hc hreg) trivial
  | startCanary k w => exact canaryStep_startCanary hc h
  | rollback now k reason => exact canaryStep_rollback hc h
  | promote now k => exact canaryStep_promote hc h
  | supervise now k baseline stats th =>
    rw [canaryStep_supervise] at h
    rw [conserves]
    cases haction : (evaluateCanary env stats th k baseline).action with
    | hold =>
      rw [haction] at h
      cases h
      exact iff_of_true hc trivial
    | rollback =>
      rw [haction] at h
      exact canaryStep_rollback hc h
    | promote =>
      rw [haction] at h
      exact canaryStep_promote hc h

/-- From a settled table, one active revision gets or shares the whole traffic after every
call exactly where every call of the sequence finds the table as `conserves` says. -/
theorem traffic_conserved_iff {env : CanaryEnv} {t₀ t : ReleaseTable} {calls : List CanaryCall}
    (hstart : Settled t₀) (hrun : Reaches (canaryStep env) t₀ calls t) :
    Throughout (canaryStep env) Conserved t₀ calls ↔
      Reaches (restrict (conserves env) (canaryStep env)) t₀ calls t :=
  throughout_iff_restrict (fun _ _ _ hc h => canaryStep_conserved hc h) hstart.conserved hrun

theorem allTraffic_range : (0 : Int) ≤ 100 ∧ (100 : Int) ≤ 100 := by decide

/-- Revision "v1" serves alone. -/
def onlyFirst : ReleaseTable :=
  ⟨[{ newRelease 0 "v1" "app:1" "0023" with
    status := .active, trafficWeight := 100, weight_range := allTraffic_range }],
    by decide⟩

theorem onlyFirst_settled : Settled onlyFirst :=
  ⟨{ newRelease 0 "v1" "app:1" "0023" with
    status := .active, trafficWeight := 100, weight_range := by decide },
    by decide, by decide, rfl, by decide⟩

def bareReasons : CanaryEnv := .exact "breach"

/-- Register, a slice of the traffic, all of it. -/
def rollOut : List CanaryCall :=
  [.register 1 "v2" "app:2" "0023", .startCanary "v2" 10, .promote 2 "v2"]

theorem rollOut_run :
    (rollOut.foldlM (restrict (conserves bareReasons) (canaryStep bareReasons)) onlyFirst).isSome =
      true := by
  decide +kernel

theorem rollOut_conserved :
    Settled onlyFirst ∧ Throughout (canaryStep bareReasons) Conserved onlyFirst rollOut := by
  refine ⟨onlyFirst_settled, ?_⟩
  have hrun := reaches_get rollOut_run
  exact (traffic_conserved_iff onlyFirst_settled hrun.of_restrict).mpr hrun

/-- A second canary beside the first: both keep their slices, and the active revision gives
up only the last one. -/
theorem second_canary_overcommits :
    ∃ t, Settled onlyFirst ∧
      Reaches (canaryStep bareReasons) onlyFirst
        [.register 1 "v2" "app:2" "0023", .register 1 "v3" "app:3" "0023", .startCanary "v2" 10,
          .startCanary "v3" 10] t ∧
      trafficSplit t = [("v1", 90), ("v2", 10), ("v3", 10)] ∧ ¬ Conserved t :=
  ⟨_, onlyFirst_settled, rfl, by decide +kernel, by decide +kernel⟩

end AgenticPlatform.Release
