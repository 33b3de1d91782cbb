import AgenticPlatform.Workloads.HybridRetrieve
import Mathlib.Algebra.BigOperators.Group.Finset.Basic
import Mathlib.Algebra.Order.BigOperators.Group.Finset
import Mathlib.Data.Finset.Card
import Mathlib.Data.Rat.Lemmas
import Mathlib.Tactic.FieldSimp
import Mathlib.Tactic.Linarith
import Mathlib.Tactic.NormNum
import Mathlib.Tactic.Positivity

/-!
# The best hit of the dense search

With the weights as exact numbers, no five chunks can all get ahead of the chunk that the
dense search found nearest: what the three retrievers have to give to five chunks is less
than five times what the nearest one has from the dense search alone, by an eighth. The code
adds doubles. A score is the sum of three weights at most, none above one, so rounding moves
it by less than 10⁻¹⁵, and all five together by far less than that eighth.
-/
namespace AgenticPlatform.Workloads
open AgenticPlatform.Foundation

/-! ## What one retriever has to give -/

section
variable {weight : Nat → ℚ}

/-- What a list of hits gives to a chunk, from a rank on. -/
def givenFrom (weight : Nat → ℚ) : Nat → List (Option String) → String → ℚ
  | _, [], _ => 0
  | rank, hit :: hits, chunkId =>
    (if hit = some chunkId then weight rank else 0) + givenFrom weight (rank + 1) hits chunkId

theorem givenFrom_nonneg (hpos : ∀ r, 0 ≤ weight r) (rank : Nat) (hits : List (Option String))
    (chunkId : String) : 0 ≤ givenFrom weight rank hits chunkId := by
  induction hits generalizing rank with
  | nil => exact le_refl 0
  | cons hit hits ih =>
    rw [givenFrom]
    split
    · exact add_nonneg (hpos rank) (ih _)
    · exact add_nonneg (le_refl 0) (ih _)

theorem givenFrom_eq_zero {hits : List (Option String)} {chunkId : String} (h : some chunkId ∉ hits)
    (rank : Nat) : givenFrom weight rank hits chunkId = 0 := by
  induction hits generalizing rank with
  | nil => rfl
  | cons hit hits ih =>
    obtain ⟨hhit, hhits⟩ := not_or.mp (fun hor => h (List.mem_cons.mpr hor))
    rw [givenFrom, if_neg (Ne.symm hhit), ih hhits, add_zero]

/-- A retriever that names a chunk once gives so many chunks at most its first weights. -/
theorem sum_givenFrom_le (hanti : Antitone weight) (hpos : ∀ r, 0 ≤ weight r)
    {hits : List (Option String)} (hnodup : (hits.filterMap id).Nodup) (rank : Nat)
    (chunks : Finset String) :
    ∑ chunkId ∈ chunks, givenFrom weight rank hits chunkId ≤ ∑ r ∈ Finset.range chunks.card,
      weight (rank + r) := by
  induction hits generalizing rank chunks with
  | nil =>
    simp only [givenFrom, Finset.sum_const_zero]
    exact Finset.sum_nonneg (fun r _ => hpos _)
  | cons hit hits ih =>
    -- a hit on none of the chunks
    have hmiss : hits.filterMap id |>.Nodup → (∀ chunkId ∈ chunks, hit ≠ some chunkId) →
        ∑ chunkId ∈ chunks, givenFrom weight rank (hit :: hits) chunkId ≤
          ∑ r ∈ Finset.range chunks.card, weight (rank + r) := by
      intro hrest hne
      have hsame : ∑ chunkId ∈ chunks, givenFrom weight rank (hit :: hits) chunkId =
          ∑ chunkId ∈ chunks, givenFrom weight (rank + 1) hits chunkId := by
        refine Finset.sum_congr rfl ?_
        intro chunkId hchunk
        rw [givenFrom, if_neg (hne chunkId hchunk), zero_add]
      rw [hsame]
      exact (ih hrest (rank + 1) chunks).trans (Finset.sum_le_sum (fun r _ => hanti (by omega)))
    cases hit with
    | none =>
      exact hmiss hnodup (fun _ _ => by simp)
    | some named =>
      have hcons : (some named :: hits).filterMap id = named :: hits.filterMap id := rfl
      rw [hcons, List.nodup_cons] at hnodup
      by_cases hin : named ∈ chunks
      · have hgone : some named ∉ hits :=
          fun h => hnodup.1 (List.mem_filterMap.mpr ⟨some named, h, rfl⟩)
        have hself : givenFrom weight rank (some named :: hits) named = weight rank := by
          rw [givenFrom, if_pos rfl, givenFrom_eq_zero hgone, add_zero]
        have hothers : ∑ chunkId ∈ chunks.erase named,
            givenFrom weight rank (some named :: hits) chunkId = ∑ chunkId ∈ chunks.erase named,
            givenFrom weight (rank + 1) hits chunkId := by
          refine Finset.sum_congr rfl ?_
          intro chunkId hchunk
          have hne : ¬ some named = some chunkId :=
            fun h => (Finset.mem_erase.mp hchunk).1 (Option.some.inj h).symm
          rw [givenFrom, if_neg hne, zero_add]
        have hcard : chunks.card = (chunks.erase named).card + 1 :=
          (Finset.card_erase_add_one hin).symm
        rw [← Finset.add_sum_erase _ _ hin, hself, hothers, hcard, Finset.sum_range_succ', add_comm]
        refine add_le_add ?_ (le_refl _)
        refine (ih hnodup.2 (rank + 1) _).trans (le_of_eq ?_)
        refine Finset.sum_congr rfl ?_
        intro r _
        rw [Nat.add_right_comm, Nat.add_assoc]
      · exact hmiss hnodup.2 (fun chunkId hchunk h => hin (Option.some.inj h ▸ hchunk))

theorem foldl_weight (l : List (Contribution ℚ)) (init : ℚ) :
    l.foldl (fun score c => score + c.weight) init =
      init + l.foldl (fun score c => score + c.weight) 0 := by
  induction l generalizing init with
  | nil => exact (add_zero init).symm
  | cons c l ih => rw [List.foldl_cons, List.foldl_cons, ih, ih (0 + c.weight), zero_add, add_assoc]

/-- The contributions of the hits, as numbers. -/
theorem sum_graphHits (hits : List (Option String)) (signal : String) (rank : Nat)
    (chunkId : String) :
    (((hits.zipIdx rank).filterMap (fun hit =>
      hit.1.map (fun named => (⟨named, weight hit.2, signal⟩ : Contribution ℚ)))).filter
      (fun c => c.chunkId = chunkId)).foldl (fun score c => score + c.weight) 0 =
      givenFrom weight rank hits chunkId := by
  induction hits generalizing rank with
  | nil => rfl
  | cons hit hits ih =>
    rw [List.zipIdx_cons, givenFrom, ← ih (rank + 1)]
    cases hit with
    | none => simp
    | some named =>
      by_cases hname : named = chunkId
      · subst hname
        simp [List.filterMap_cons_some, foldl_weight _ (weight rank)]
      · simp [List.filterMap_cons_some, hname]

end

/-! ## The exact weights -/

/-- The weights as numbers. -/
def exactWeights (round4 : ℚ → ℚ) : FusionEnv ℚ where
  dense rank := 1 / (rank + 1)
  lexical rank := 7 / 10 / (rank + 1)
  graph rank := 8 / 10 / (rank + 1)
  round4 := round4

theorem ratio_antitone {top : ℚ} (h : 0 ≤ top) :
    Antitone (fun rank : Nat => top / ((rank : ℚ) + 1)) := by
  intro a b hab
  have hcast : (a : ℚ) ≤ b := by exact_mod_cast hab
  exact div_le_div_of_nonneg_left h (by positivity) (by linarith)

theorem ratio_nonneg {top : ℚ} (h : 0 ≤ top) (rank : Nat) : 0 ≤ top / ((rank : ℚ) + 1) := by
  positivity

section
variable {round4 : ℚ → ℚ} {documents : List GraphDocument} {first : String}
  {rest lexical : List String} {graph : GraphTraversal}

theorem rankedHits_eq (weight : Nat → ℚ) (signal : String) (hits : List String) (rank : Nat) :
    (hits.zipIdx rank).map (fun hit => (⟨hit.1, weight hit.2, signal⟩ : Contribution ℚ)) =
      ((hits.map some).zipIdx rank).filterMap
      (fun hit => hit.1.map (fun named => ⟨named, weight hit.2, signal⟩)) := by
  induction hits generalizing rank with
  | nil => rfl
  | cons hit hits ih =>
    rw [List.zipIdx_cons, List.map_cons, ih, List.map_cons, List.zipIdx_cons]
    rfl

/-- The score of a chunk is what the three give it. -/
theorem fusedScore_exact (dense lexical : List String) (graph : GraphTraversal) (chunkId : String) :
    fusedScore (contributions (exactWeights round4) dense lexical graph) chunkId =
      givenFrom (exactWeights round4).dense 0 (dense.map some) chunkId +
      givenFrom (exactWeights round4).lexical 0 (lexical.map some) chunkId +
      givenFrom (exactWeights round4).graph 0 graph.hits chunkId := by
  rw [fusedScore, contributions, List.filter_append, List.filter_append, List.foldl_append,
    List.foldl_append, foldl_weight _ (List.foldl _ _ _),
    foldl_weight ((rankedHits (exactWeights round4).lexical "lexical" lexical).filter _),
    rankedHits, rankedHits, rankedHits_eq, rankedHits_eq, sum_graphHits, sum_graphHits,
    graphContributions, sum_graphHits]

theorem nodup_filterMap_some {hits : List String} (h : hits.Nodup) :
    ((hits.map some).filterMap id).Nodup := by
  rwa [List.filterMap_map, Function.id_comp, List.filterMap_some]

/-- What five other chunks can have. -/
theorem sum_fusedScore_lt (hdense : (first :: rest).Nodup) (hlexical : lexical.Nodup)
    (hgraph : (graph.hits.filterMap id).Nodup) {chunks : Finset String}
    (hcard : chunks.card = maxContextChunks) (hfirst : first ∉ chunks) :
    ∑ chunkId ∈ chunks,
      fusedScore (contributions (exactWeights round4) (first :: rest) lexical graph) chunkId <
      5 := by
  have hskip : ∑ chunkId ∈ chunks,
      givenFrom (exactWeights round4).dense 0 ((first :: rest).map some) chunkId =
      ∑ chunkId ∈ chunks, givenFrom (exactWeights round4).dense 1 (rest.map some) chunkId := by
    refine Finset.sum_congr rfl ?_
    intro chunkId hchunk
    have hne : ¬ some first = some chunkId := fun h => hfirst (Option.some.inj h ▸ hchunk)
    rw [List.map_cons, givenFrom, if_neg hne, zero_add]
  have hone : (0 : ℚ) ≤ 1 := by norm_num
  have hseven : (0 : ℚ) ≤ 7 / 10 := by norm_num
  have height : (0 : ℚ) ≤ 8 / 10 := by norm_num
  have hd :=
    sum_givenFrom_le (ratio_antitone hone) (ratio_nonneg hone)
      (nodup_filterMap_some (List.nodup_cons.mp hdense).2) 1 chunks
  have hl :=
    sum_givenFrom_le (ratio_antitone hseven) (ratio_nonneg hseven)
      (nodup_filterMap_some hlexical) 0 chunks
  have hg := sum_givenFrom_le (ratio_antitone height) (ratio_nonneg height) hgraph 0 chunks
  rw [hcard] at hd hl hg
  simp only [fusedScore_exact, Finset.sum_add_distrib, hskip]
  refine lt_of_le_of_lt (add_le_add (add_le_add hd hl) hg) ?_
  simp only [maxContextChunks, Finset.sum_range_succ, Finset.sum_range_zero]
  norm_num

/-- It is named before all others. -/
theorem idxOf_first (hdoc : first ∈ documents.map GraphDocument.chunkId) :
    (candidateIds documents
      (contributions (exactWeights round4) (first :: rest) lexical graph)).idxOf first = 0 := by
  have hknown : known documents (⟨first, (exactWeights round4).dense 0, "dense"⟩ : Contribution ℚ) =
      true := known_iff.mpr hdoc
  have hcons : contributions (exactWeights round4) (first :: rest) lexical graph =
      ⟨first, (exactWeights round4).dense 0, "dense"⟩ ::
      (contributions (exactWeights round4) (first :: rest) lexical graph).tail := rfl
  rw [candidateIds, hcons, List.filter_cons_of_pos hknown, List.map_cons, List.idxOf_cons_self]

theorem one_le_fusedScore_first :
    1 ≤ fusedScore (contributions (exactWeights round4) (first :: rest) lexical graph) first := by
  have hgive : ∀ {top : ℚ} (hits : List (Option String)) (rank : Nat), 0 ≤ top →
      0 ≤ givenFrom (fun r : Nat => top / ((r : ℚ) + 1)) rank hits first :=
    fun hits rank h => givenFrom_nonneg (ratio_nonneg h) rank hits first
  have hd := hgive (rest.map some) 1 (show (0 : ℚ) ≤ 1 by norm_num)
  have hl := hgive (lexical.map some) 0 (show (0 : ℚ) ≤ 7 / 10 by norm_num)
  have hg := hgive graph.hits 0 (show (0 : ℚ) ≤ 8 / 10 by norm_num)
  rw [fusedScore_exact, List.map_cons, givenFrom, if_pos rfl]
  simp only [exactWeights, Nat.cast_zero, zero_add, div_one] at hd hl hg ⊢
  linarith

/-- Who gets ahead of it has more than its first weight. -/
theorem one_lt_of_ahead (hdoc : first ∈ documents.map GraphDocument.chunkId) {other : String}
    (h : Ahead documents (contributions (exactWeights round4) (first :: rest) lexical graph)
      other first) :
    1 < fusedScore (contributions (exactWeights round4) (first :: rest) lexical graph) other := by
  rcases h with hlt | ⟨-, hidx⟩
  · exact lt_of_le_of_lt one_le_fusedScore_first hlt
  · rw [idxOf_first hdoc] at hidx
    exact absurd hidx (Nat.not_lt_zero _)

/-- The nearest chunk is among the sources whatever the other searches find, as long as none
of the three names a chunk twice. -/
theorem nearest_is_source (hdoc : first ∈ documents.map GraphDocument.chunkId)
    (hdense : (first :: rest).Nodup) (hlexical : lexical.Nodup)
    (hgraph : (graph.hits.filterMap id).Nodup) :
    ∃ sources detail, hybridRetrieve (exactWeights round4) documents (first :: rest) lexical graph =
      some (sources, detail) ∧
      first ∈ sources.map FusedSource.chunkId := by
  obtain ⟨sources, detail, hsome, hbest, -⟩ :=
    hybrid_best (exactWeights round4) documents (first :: rest) lexical graph
  have hcand : Candidate documents
      (contributions (exactWeights round4) (first :: rest) lexical graph) first :=
    ⟨hdoc, List.mem_map.mpr ⟨⟨first, _, "dense"⟩, List.mem_cons_self, rfl⟩⟩
  refine ⟨sources, detail, hsome, (hbest.chosen first).mpr ⟨hcand, ?_⟩⟩
  by_contra hmany
  obtain ⟨chunks, hsub, hcard⟩ := Finset.exists_subset_card_eq
    ((not_lt.mp hmany).trans_eq (List.toFinset_card_of_nodup ((List.nodup_dedup _).filter _)).symm)
  have hahead : ∀ other ∈ chunks,
      Ahead documents (contributions (exactWeights round4) (first :: rest) lexical graph)
      other first :=
    fun other h => of_decide_eq_true (List.mem_filter.mp (List.mem_toFinset.mp (hsub h))).2
  have hnot : first ∉ chunks := by
    intro h
    rcases hahead first h with hlt | ⟨-, hlt⟩ <;> exact lt_irrefl _ hlt
  -- five with more than one each have more than five in all
  have hlow : ∑ _ ∈ chunks, (1 : ℚ) ≤ ∑ chunkId ∈ chunks,
      fusedScore (contributions (exactWeights round4) (first :: rest) lexical graph) chunkId :=
    Finset.sum_le_sum (fun other h => le_of_lt (one_lt_of_ahead hdoc (hahead other h)))
  rw [Finset.sum_const, hcard, nsmul_eq_mul, mul_one] at hlow
  exact absurd (hlow.trans_lt (sum_fusedScore_lt hdense hlexical hgraph hcard hnot))
    (by norm_num [maxContextChunks])

end

/-! A chunk that only the dense search finds, with five others that two searches find. -/

def pumpDocuments : List GraphDocument :=
  ["c_a", "c_b", "c_c", "c_d", "c_e", "c_f"].map
    (fun chunkId => ⟨chunkId, "about " ++ chunkId, .obj [], .str "manual.pdf"⟩)

theorem nearest_is_source_pump :
    ∃ sources detail, hybridRetrieve (exactWeights id) pumpDocuments ["c_a", "c_b", "c_c", "c_d"]
      ["c_e", "c_f", "c_b", "c_c"] ⟨["pump"], [some "c_f", none, some "c_e", some "c_d"]⟩ =
      some (sources, detail) ∧
      "c_a" ∈ sources.map FusedSource.chunkId :=
  nearest_is_source (by decide) (by decide) (by decide) (by decide)

end AgenticPlatform.Workloads
