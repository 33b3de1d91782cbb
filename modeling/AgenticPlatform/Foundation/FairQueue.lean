import Mathlib.Data.Finset.Card
import Mathlib.Data.Finset.Max
import Mathlib.Data.Prod.Lex
import Mathlib.Algebra.BigOperators.Group.Finset.Basic
import Mathlib.Algebra.Order.BigOperators.Group.Finset
import Mathlib.Logic.Function.Iterate

/-!
# A queue served fairly by classes

The elements that wait are numbered within their class, in their order; all first ones are
served before all second ones, and so on. A pass tries the first elements of the queue.
Those that fail keep their place. What the failing ones can do to the others does not
depend on how the others stand to each other: an element gets its turn exactly where few
enough of the failing ones are ahead of it when it waits with them alone.
-/
namespace AgenticPlatform.Foundation.FairQueue
open Finset

variable {α τ : Type*} [LinearOrder α] [DecidableEq τ] (cls : α → τ)

/-! ## Places -/

/-- The number of an element within its class. -/
def place (U : Finset α) (x : α) : ℕ := #{y ∈ U | cls y = cls x ∧ y ≤ x}

/-- It is served before the other. -/
def Before (U : Finset α) (x y : α) : Prop :=
  place cls U x < place cls U y ∨ (place cls U x = place cls U y ∧ x < y)

instance (U : Finset α) (x y : α) : Decidable (Before cls U x y) :=
  inferInstanceAs (Decidable (_ ∨ _))

/-- How many are served before it. -/
def ahead (U : Finset α) (x : α) : ℕ := #{y ∈ U | Before cls U y x}

variable {cls} {U V : Finset α} {x y : α}

theorem place_mono (h : U ⊆ V) (x : α) : place cls U x ≤ place cls V x :=
  card_le_card (filter_subset_filter _ h)

theorem place_lt (hy : y ∈ U) (hcls : cls x = cls y) (hlt : x < y) :
    place cls U x < place cls U y := by
  refine card_lt_card (ssubset_iff_of_subset ?_ |>.mpr ⟨y, ?_, ?_⟩)
  · intro z hz
    obtain ⟨hzU, hzc, hzx⟩ := mem_filter.mp hz
    exact mem_filter.mpr ⟨hzU, hzc.trans hcls, hzx.trans hlt.le⟩
  · exact mem_filter.mpr ⟨hy, rfl, le_rfl⟩
  · intro hyx
    exact absurd (mem_filter.mp hyx).2.2 (not_le.mpr hlt)

/-- Within a class, what comes earlier is served earlier. -/
theorem before_of_lt (hy : y ∈ U) (hcls : cls x = cls y) (hlt : x < y) : Before cls U x y :=
  Or.inl (place_lt hy hcls hlt)

theorem Before.trans {z : α} (h : Before cls U x y) (h' : Before cls U y z) : Before cls U x z := by
  rcases h with h | ⟨h, hxy⟩ <;> rcases h' with h' | ⟨h', hyz⟩
  · exact Or.inl (h.trans h')
  · exact Or.inl (h' ▸ h)
  · exact Or.inl (h ▸ h')
  · exact Or.inr ⟨h.trans h', hxy.trans hyz⟩

theorem not_before_self (x : α) : ¬ Before cls U x x := by simp [Before]

/-! ## More elements, more of them ahead -/

/-- The elements of one class that are served before an element. -/
def aheadIn (cls : α → τ) (U : Finset α) (b : τ) (x : α) : Finset α :=
  {y ∈ U | cls y = b ∧ Before cls U y x}

theorem mem_aheadIn {b : τ} : y ∈ aheadIn cls U b x ↔ y ∈ U ∧ cls y = b ∧ Before cls U y x :=
  mem_filter

/-- They are the first ones of their class. -/
theorem place_eq_card {b : τ} (hy : y ∈ aheadIn cls U b x) (hmax : ∀ z ∈ aheadIn cls U b x, z ≤ y) :
    place cls U y = #(aheadIn cls U b x) := by
  obtain ⟨hyU, hyb, hyx⟩ := mem_aheadIn.mp hy
  refine congrArg card (ext fun z => ?_)
  rw [mem_filter, mem_aheadIn]
  constructor
  · rintro ⟨hz, hzc, hzy⟩
    refine ⟨hz, hzc.trans hyb, ?_⟩
    rcases hzy.eq_or_lt with rfl | hlt
    · exact hyx
    · exact (before_of_lt hyU hzc hlt).trans hyx
  · rintro ⟨hz, hzb, hzx⟩
    exact ⟨hz, hzb.trans hyb.symm, hmax z (mem_aheadIn.mpr ⟨hz, hzb, hzx⟩)⟩

/-- The first of a class that is not served before has all the others of its class that are
served before in front of it. -/
theorem place_eq_card_succ {b : τ} (hy : y ∈ U) (hyb : cls y = b) (hyx : ¬ Before cls U y x)
    (hmin : ∀ z ∈ U, cls z = b → ¬ Before cls U z x → y ≤ z) :
    place cls U y = #(aheadIn cls U b x) + 1 := by
  have hnot : y ∉ aheadIn cls U b x := fun h => hyx (mem_aheadIn.mp h).2.2
  rw [← card_insert_of_notMem hnot]
  refine congrArg card (ext fun z => ?_)
  rw [mem_filter, mem_insert, mem_aheadIn]
  constructor
  · rintro ⟨hz, hzc, hzy⟩
    rcases hzy.eq_or_lt with rfl | hlt
    · exact Or.inl rfl
    · refine Or.inr ⟨hz, hzc.trans hyb, ?_⟩
      by_contra hzx
      exact absurd (hmin z hz (hzc.trans hyb) hzx) (not_le.mpr hlt)
  · rintro (rfl | ⟨hz, hzb, hzx⟩)
    · exact ⟨hy, rfl, le_rfl⟩
    · refine ⟨hz, hzb.trans hyb.symm, ?_⟩
      by_contra hlt
      exact hyx ((before_of_lt hz (hyb.trans hzb.symm) (not_le.mp hlt)).trans hzx)

theorem card_aheadIn_mono (h : U ⊆ V) (b : τ) (x : α) :
    #(aheadIn cls U b x) ≤ #(aheadIn cls V b x) := by
  by_contra hlt
  have hsome : (aheadIn cls U b x).Nonempty := card_pos.mp (by omega)
  -- The last of the class that is ahead in the smaller queue, …
  obtain ⟨y, hy, hmax⟩ := exists_max_image _ id hsome
  obtain ⟨hyU, hyb, hyx⟩ := mem_aheadIn.mp hy
  have hplace := place_eq_card hy hmax
  -- … and the first that is not in the larger one.
  have hrest : ({z ∈ V | cls z = b ∧ ¬ Before cls V z x} : Finset α).Nonempty := by
    by_contra hempty
    have hsub : aheadIn cls U b x ⊆ aheadIn cls V b x := by
      intro z hz
      obtain ⟨hzU, hzb, -⟩ := mem_aheadIn.mp hz
      refine mem_aheadIn.mpr ⟨h hzU, hzb, ?_⟩
      by_contra hzx
      exact hempty ⟨z, mem_filter.mpr ⟨h hzU, hzb, hzx⟩⟩
    exact hlt (card_le_card hsub)
  obtain ⟨z, hz, hmin⟩ := exists_min_image _ id hrest
  obtain ⟨hzV, hzb, hzx⟩ := mem_filter.mp hz
  have hplace' :=
    place_eq_card_succ hzV hzb hzx (fun w hw hwb hwx => hmin w (mem_filter.mpr ⟨hw, hwb, hwx⟩))
  have hx : place cls U x ≤ place cls V x := place_mono h x
  have hxy : place cls U y ≤ place cls V y := place_mono h y
  unfold Before at hyx hzx
  -- The places leave one case: both stand where the element does, the first ahead of it.
  have hlt' : y < x := by
    rcases hyx with hyx | ⟨-, hlt'⟩
    · omega
    · exact hlt'
  have hle : x ≤ z := by
    by_contra hzlt
    exact hzx (by
      rcases Nat.lt_or_ge (place cls V z) (place cls V x) with hp | hp
      · exact Or.inl hp
      · exact Or.inr ⟨by omega, not_le.mp hzlt⟩)
  have hlast := place_lt hzV (hyb.trans hzb.symm) (hlt'.trans_le hle)
  omega

/-- An element that waits with more others waits behind at least as many. -/
theorem ahead_mono (h : U ⊆ V) (x : α) : ahead cls U x ≤ ahead cls V x := by
  have hsum : ∀ W ⊆ V, ahead cls W x = ∑ b ∈ V.image cls, #(aheadIn cls W b x) := by
    intro W hW
    have hmaps : ∀ y ∈ W.filter (fun y => Before cls W y x), cls y ∈ V.image cls := by
      intro y hy
      exact mem_image_of_mem cls (hW (mem_filter.mp hy).1)
    rw [ahead, card_eq_sum_card_fiberwise hmaps]
    refine sum_congr rfl (fun b _ => congrArg card (ext fun y => ?_))
    simp only [mem_filter, mem_aheadIn]
    tauto
  rw [hsum U h, hsum V (Subset.refl V)]
  exact sum_le_sum (fun b _ => card_aheadIn_mono h b x)

/-! ## The first of the queue -/

/-- A class with an element that is not served before has at most one less than any other
class served before. -/
theorem card_aheadIn_le_succ {a b : τ} (hy : y ∈ U) (hyb : cls y = b) (hyx : ¬ Before cls U y x) :
    #(aheadIn cls U a x) ≤ #(aheadIn cls U b x) + 1 := by
  rcases (aheadIn cls U a x).eq_empty_or_nonempty with hnone | hsome
  · rw [hnone, card_empty]
    exact Nat.zero_le _
  -- The last of the one class that is ahead, and the first of the other that is not.
  obtain ⟨z, hz, hmax⟩ := exists_max_image _ id hsome
  have hrest : ({w ∈ U | cls w = b ∧ ¬ Before cls U w x} : Finset α).Nonempty :=
    ⟨y, mem_filter.mpr ⟨hy, hyb, hyx⟩⟩
  obtain ⟨w, hw, hmin⟩ := exists_min_image _ id hrest
  obtain ⟨hwU, hwb, hwx⟩ := mem_filter.mp hw
  have hlast := place_eq_card hz hmax
  have hfirst :=
    place_eq_card_succ hwU hwb hwx (fun v hv hvb hvx => hmin v (mem_filter.mpr ⟨hv, hvb, hvx⟩))
  have hzx := (mem_aheadIn.mp hz).2.2
  unfold Before at hzx hwx
  omega

theorem place_pos (hx : x ∈ U) : 0 < place cls U x :=
  card_pos.mpr ⟨x, mem_filter.mpr ⟨hx, rfl, le_rfl⟩⟩

/-- The first of its class has fewer elements ahead than there are classes. -/
theorem ahead_lt_card_classes (hx : x ∈ U) (hfirst : ∀ y ∈ U, cls y = cls x → x ≤ y) :
    ahead cls U x < #(U.image cls) := by
  have hplace : place cls U x = 1 := by
    refine card_eq_one.mpr ⟨x, ext fun y => ?_⟩
    rw [mem_filter, mem_singleton]
    constructor
    · rintro ⟨hy, hcls, hle⟩
      exact le_antisymm hle (hfirst y hy hcls)
    · rintro rfl
      exact ⟨hx, rfl, le_rfl⟩
  -- What is ahead of it is the first of its class too, and of another class.
  have hone : ∀ y ∈ U.filter (fun y => Before cls U y x), place cls U y = 1 ∧ y < x := by
    intro y hy
    obtain ⟨hyU, hyx⟩ := mem_filter.mp hy
    have hpos : 0 < place cls U y := place_pos hyU
    rcases hyx with hlt | ⟨heq, hlt⟩
    · omega
    · exact ⟨heq.trans hplace, hlt⟩
  have hinj : Set.InjOn cls (U.filter (fun y => Before cls U y x)) := by
    intro y hy z hz hcls
    have hyU := (mem_filter.mp hy).1
    have hzU := (mem_filter.mp hz).1
    have hy1 := (hone y hy).1
    have hz1 := (hone z hz).1
    rcases lt_trichotomy y z with hlt | heq | hlt
    · have := place_lt hzU hcls hlt
      omega
    · exact heq
    · have := place_lt hyU hcls.symm hlt
      omega
  rw [ahead, ← card_image_of_injOn hinj]
  refine card_lt_card (ssubset_iff_of_subset (image_subset_image (filter_subset _ U)) |>.mpr
    ⟨cls x, mem_image_of_mem cls hx, ?_⟩)
  intro hmem
  obtain ⟨y, hy, hcls⟩ := mem_image.mp hmem
  exact absurd (hone y hy).2 (not_lt.mpr (hfirst y (mem_filter.mp hy).1 hcls))

/-! ## Passes -/

section
variable (cls) (n : ℕ) (failing : α → Prop) [DecidablePred failing]

/-- A pass over the first of the queue: what fails stays, and what was not among them. -/
def pass (U : Finset α) : Finset α := {x ∈ U | failing x ∨ n ≤ ahead cls U x}

/-- An element and the failing ones, without the others. -/
def withFailing (U : Finset α) (x : α) : Finset α := {y ∈ U | failing y ∨ y = x}

end

variable {n : ℕ} {failing : α → Prop} [DecidablePred failing]

theorem pass_subset (U : Finset α) : pass cls n failing U ⊆ U := filter_subset _ _

theorem mem_pass_of_failing (hx : x ∈ U) (hf : failing x) : x ∈ pass cls n failing U :=
  mem_filter.mpr ⟨hx, Or.inl hf⟩

/-- What is served first of the elements that do not fail has only failing ones ahead. -/
theorem ahead_le_of_first (hx : x ∈ U) (hfirst : ∀ y ∈ U, Before cls U y x → failing y) :
    ahead cls U x ≤ ahead cls (withFailing failing U x) x := by
  have hplace : place cls U x = place cls (withFailing failing U x) x := by
    refine congrArg card (ext fun y => ?_)
    simp only [withFailing, mem_filter]
    constructor
    · rintro ⟨hy, hcls, hle⟩
      rcases hle.eq_or_lt with rfl | hlt
      · exact ⟨⟨hy, Or.inr rfl⟩, hcls, hle⟩
      · exact ⟨⟨hy, Or.inl (hfirst y hy (before_of_lt hx hcls hlt))⟩, hcls, hle⟩
    · rintro ⟨⟨hy, -⟩, hcls, hle⟩
      exact ⟨hy, hcls, hle⟩
  refine card_le_card (fun y hy => ?_)
  obtain ⟨hyU, hyx⟩ := mem_filter.mp hy
  refine mem_filter.mpr ⟨mem_filter.mpr ⟨hyU, Or.inl (hfirst y hyU hyx)⟩, ?_⟩
  have hle : place cls (withFailing failing U x) y ≤ place cls U y :=
    place_mono (filter_subset _ _) y
  rw [Before, ← hplace]
  rcases hyx with hlt | ⟨hsame, hlt⟩
  · exact Or.inl (hle.trans_lt hlt)
  · exact (hle.trans hsame.le).lt_or_eq.imp_right (fun heq => ⟨heq, hlt⟩)

variable (cls) in
/-- Of the elements that do not fail, one is served first. -/
theorem exists_first (h : ∃ x ∈ U, ¬ failing x) :
    ∃ x ∈ U, ¬ failing x ∧ ∀ y ∈ U, Before cls U y x → failing y := by
  obtain ⟨w, hw, hgood⟩ := h
  obtain ⟨x, hx, hmin⟩ := exists_min_image {x ∈ U | ¬ failing x} (fun x => toLex (place cls U x, x))
    ⟨w, mem_filter.mpr ⟨hw, hgood⟩⟩
  obtain ⟨hxU, hxgood⟩ := mem_filter.mp hx
  refine ⟨x, hxU, hxgood, ?_⟩
  intro y hy hyx
  by_contra hygood
  have hle := hmin y (mem_filter.mpr ⟨hy, hygood⟩)
  rw [Prod.Lex.toLex_le_toLex] at hle
  rcases hyx with hlt | ⟨hsame, hlt⟩
  · rcases hle with hle | ⟨hle, -⟩
    · exact absurd hlt (not_lt.mpr hle.le)
    · exact absurd hle hlt.ne'
  · rcases hle with hle | ⟨-, hle⟩
    · exact absurd hsame hle.ne'
    · exact absurd hlt (not_lt.mpr hle)

/-- The failing ones are the same after a pass. -/
theorem withFailing_pass (hx : x ∈ pass cls n failing U) :
    withFailing failing (pass cls n failing U) x = withFailing failing U x := by
  ext y
  simp only [withFailing, mem_filter]
  constructor
  · rintro ⟨hy, hcase⟩
    exact ⟨pass_subset U hy, hcase⟩
  · rintro ⟨hy, hf | rfl⟩
    · exact ⟨mem_pass_of_failing hy hf, Or.inl hf⟩
    · exact ⟨hx, Or.inr rfl⟩

/-- An element that waits behind too many failing ones waits for ever. -/
theorem mem_passes_of_blocked (hx : x ∈ U)
    (hblocked : n ≤ ahead cls (withFailing failing U x) x) (k : ℕ) :
    x ∈ (pass cls n failing)^[k] U := by
  induction k generalizing U with
  | zero => exact hx
  | succ k ih =>
    have hstays : x ∈ pass cls n failing U :=
      mem_filter.mpr ⟨hx, Or.inr (hblocked.trans (ahead_mono (filter_subset _ _) x))⟩
    rw [Function.iterate_succ_apply]
    refine ih hstays ?_
    rwa [withFailing_pass hstays]

/-- After enough passes only failing elements wait, exactly where each of the others has
fewer failing ones ahead of it than a pass tries. -/
theorem exists_passes_iff :
    (∃ k, ∀ x ∈ (pass cls n failing)^[k] U, failing x) ↔
      ∀ x ∈ U, ¬ failing x → ahead cls (withFailing failing U x) x < n := by
  constructor
  · rintro ⟨k, hk⟩ x hx hgood
    by_contra hblocked
    exact hgood (hk x (mem_passes_of_blocked hx (not_lt.mp hblocked) k))
  · intro h
    -- Each pass serves the first of those that do not fail.
    induction hsize : #{x ∈ U | ¬ failing x} using Nat.strong_induction_on generalizing U with
    | _ size ih =>
      by_cases hdone : ∃ x ∈ U, ¬ failing x
      · obtain ⟨x, hx, hgood, hfirst⟩ := exists_first cls hdone
        have hserved : x ∉ pass cls n failing U := by
          intro hx'
          rcases (mem_filter.mp hx').2 with hf | hle
          · exact hgood hf
          · exact absurd (hle.trans (ahead_le_of_first hx hfirst)) (not_le.mpr (h x hx hgood))
        have hfewer : #{y ∈ pass cls n failing U | ¬ failing y} < size := by
          rw [← hsize]
          refine card_lt_card
            ((ssubset_iff_of_subset (filter_subset_filter _ (pass_subset U))).mpr ⟨x, ?_, ?_⟩)
          · exact mem_filter.mpr ⟨hx, hgood⟩
          · exact fun hx' => hserved (mem_filter.mp hx').1
        obtain ⟨k, hk⟩ := ih _ hfewer (fun y hy hygood => by
          rw [withFailing_pass hy]
          exact h y (pass_subset U hy) hygood) rfl
        exact ⟨k + 1, by rwa [Function.iterate_succ_apply]⟩
      · refine ⟨0, fun x hx => ?_⟩
        by_contra hgood
        exact hdone ⟨x, hx, hgood⟩

end AgenticPlatform.Foundation.FairQueue
