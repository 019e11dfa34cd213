import Mathlib
import SourceAtlas.Proofs.Fusions
import SourceAtlas.Proofs.Numbers

/-!
# Fused scores

What is fused of scores in floating point, and in which order. A score that is
undefined, such as infinity less infinity, is neither above nor below any other,
so a ranking has an order only where no fused score is undefined.
-/

namespace SourceAtlas.Search

open Json (Value Key)

/-! ## Numbers -/

section
variable {x y : Float} {xs : List Float}

theorem defined_orders : OrdersOn (fun x : Float => x.isNaN = false) (· == ·) fun x y => !Scalar.lt x y :=
  float_orders.congr (fun _ => isNaN_eq_false_iff.1) (fun _ _ => rfl) fun _ _ => rfl

/-- Numbers that are the same are equal, unless they are zeros of different signs. -/
theorem eq_of_beq_of_zero_or_positive (h : (x == y) = true) (hx : x = 0 ∨ isPositive x = true)
    (hy : y = 0 ∨ isPositive y = true) : x = y := by
  have hnegative : ¬ ((-0 : Float) = 0 ∨ isPositive (-0 : Float) = true) := by decide +kernel
  -- this lemma comes with no single module, only with the library as a whole
  rcases (Float.beq_iff_ne_nan_and_eq.1 h).2.2 with heq | ⟨-, rfl⟩ | ⟨rfl, -⟩
  · exact heq
  · exact absurd hy hnegative
  · exact absurd hx hnegative

theorem isPositive_of_one (hx : x.isNaN = false) (h : Scalar.lt x (ofNat 1) = false) : isPositive x = true := by
  by_contra hnot
  have hle := defined_orders.trans (ofNat 0) x (ofNat 1) (by decide +kernel) hx (by decide +kernel)
    (by simpa [isPositive] using hnot) (by simpa using h)
  exact absurd hle (by decide +kernel)

end

/-! ## The scores of an id -/

section
variable {vector vector' fulltext fulltext' hits hits' : List (Hit Float)} {related related' : List (Related Float)}
  {w : Signals Float} {k : Key}

theorem hitFor_perm (h : Apart hits) (hperm : hits.Perm hits') (k : Key) : hitFor hits' k = hitFor hits k := by
  have h' : Apart hits' := h.perm (hperm.map _)
  apply Option.ext
  intro hit
  rw [hitFor_eq_some_iff h', hitFor_eq_some_iff h, hperm.mem_iff]

theorem idsOf_perm (hvector : vector.Perm vector') (hfulltext : fulltext.Perm fulltext')
    (hrelated : related.Perm related') :
    (idsOf vector fulltext related).Perm (idsOf vector' fulltext' related') :=
  ((hvector.map _).append (hfulltext.map _)).append (hrelated.map _)

section
variable (hscores : ∀ hit ∈ fulltext, hit.score.isNaN = false)
include hscores

theorem largest_ceiling : Largest (ceiling fulltext) (ofNat 1 :: fulltext.map Hit.score) := by
  have hone : (ofNat 1 : Float).isNaN = false := by decide +kernel
  unfold ceiling
  cases fulltext with
  | nil => exact largest_foldl defined_orders hone (by simp)
  | cons hit hits =>
    obtain ⟨hhit, hhits⟩ := List.forall_mem_cons.1 hscores
    have hrest : ∀ x ∈ hits.map Hit.score ++ [ofNat 1], x.isNaN = false := by
      intro x hx
      rcases List.mem_append.1 hx with hx | hx
      · obtain ⟨other, hother, rfl⟩ := List.mem_map.1 hx
        exact hhits other hother
      · rwa [List.mem_singleton.1 hx]
    apply (largest_foldl defined_orders hhit hrest).congr
    intro y
    simp [or_comm, or_left_comm]

theorem positive_ceiling : isPositive (ceiling fulltext) = true := by
  have hlargest := largest_ceiling hscores
  refine isPositive_of_one ?_ (hlargest.2 _ List.mem_cons_self)
  rcases List.mem_cons.1 hlargest.1 with heq | hmem
  · rw [heq]
    decide +kernel
  · obtain ⟨hit, hhit, heq⟩ := List.mem_map.1 hmem
    rw [← heq]
    exact hscores hit hhit

theorem ceiling_perm (hperm : fulltext.Perm fulltext') : ceiling fulltext' = ceiling fulltext := by
  have hscores' : ∀ hit ∈ fulltext', hit.score.isNaN = false := fun hit hhit => hscores hit (hperm.mem_iff.2 hhit)
  have hall : ∀ x ∈ ofNat 1 :: fulltext.map Hit.score, x.isNaN = false := by
    intro x hx
    rcases List.mem_cons.1 hx with rfl | hx
    · decide +kernel
    · obtain ⟨hit, hhit, rfl⟩ := List.mem_map.1 hx
      exact hscores hit hhit
  have hlargest' : Largest (ceiling fulltext') (ofNat 1 :: fulltext.map Hit.score) :=
    (largest_ceiling hscores').congr fun y => ((hperm.map _).cons _).mem_iff
  exact eq_of_beq_of_zero_or_positive (hlargest'.beq defined_orders (largest_ceiling hscores) hall)
    (.inr (positive_ceiling hscores')) (.inr (positive_ceiling hscores))

end

section
variable (hrelated : ∀ r ∈ related, 0 ≤ r.distance)
include hrelated

theorem defined_nearness : ∀ x ∈ (related.filter (·.id == k)).map nearness, x.isNaN = false := by
  intro x hx
  obtain ⟨r, hr, rfl⟩ := List.mem_map.1 hx
  exact isNaN_nearness (hrelated r (List.mem_filter.1 hr).1)

theorem largest_graphScore (k : Key) :
    Largest (graphScore related k) (ofNat 0 :: (related.filter (·.id == k)).map nearness) :=
  largest_foldl defined_orders (by decide +kernel) (defined_nearness hrelated)

theorem zero_or_positive_graphScore (k : Key) :
    graphScore related k = 0 ∨ isPositive (graphScore related k) = true :=
  foldl_larger_eq_or defined_orders (by decide +kernel) (defined_nearness hrelated)

theorem graphScore_perm (hperm : related.Perm related') (k : Key) :
    graphScore related' k = graphScore related k := by
  have hrelated' : ∀ r ∈ related', 0 ≤ r.distance := fun r hr => hrelated r (hperm.mem_iff.2 hr)
  have hlargest' := (largest_graphScore hrelated' k).congr fun y =>
    ((((hperm.filter _).map nearness)).cons _).mem_iff
  have hall : ∀ x ∈ ofNat 0 :: (related.filter (·.id == k)).map nearness, x.isNaN = false :=
    List.forall_mem_cons.2 ⟨by decide +kernel, defined_nearness hrelated⟩
  exact eq_of_beq_of_zero_or_positive (hlargest'.beq defined_orders (largest_graphScore hrelated k) hall)
    (zero_or_positive_graphScore hrelated' k) (zero_or_positive_graphScore hrelated k)

end

/-- What the score of a full-text hit leaves undefined is so when it is fused. -/
theorem isNaN_fusedAs (vector : List (Hit Float)) (related : List (Related Float)) (w : Signals Float)
    (hfulltext : Apart fulltext) {hit : Hit Float} (hhit : hit ∈ fulltext) (h : hit.score.isNaN = true) :
    (fusedAs vector fulltext related w hit.id).score.isNaN = true := by
  have hfound : hitFor fulltext hit.id = some hit := (hitFor_eq_some_iff hfulltext).2 ⟨hhit, BEq.rfl⟩
  have hscore : fulltextScore fulltext hit.id = hit.score / ceiling fulltext := by simp [fulltextScore, hfound]
  apply isNaN_add
  left
  apply isNaN_add
  right
  apply isNaN_mul
  show (fulltextScore fulltext hit.id).isNaN = true
  rw [hscore]
  exact isNaN_div h

end

/-! ## Fused results -/

section
variable {vector vector' fulltext fulltext' : List (Hit Float)}
  {related related' : List (Related Float)} {w : Signals Float}
  (hvector : Apart vector) (hfulltext : Apart fulltext) (hrelated : ∀ r ∈ related, 0 ≤ r.distance)
  (htexts : ∀ k ∈ idsOf vector fulltext related, k.IsText)
  (hdefined : ∀ k ∈ idsOf vector fulltext related, (fusedAs vector fulltext related w k).score.isNaN = false)

include hfulltext hdefined in
theorem defined_of_fused : ∀ hit ∈ fulltext, hit.score.isNaN = false := by
  intro hit hhit
  by_contra hnot
  have hmem : hit.id ∈ idsOf vector fulltext related := by simp [idsOf, List.mem_map_of_mem hhit]
  have hundefined := isNaN_fusedAs vector related w hfulltext hhit (by simpa using hnot)
  rw [hdefined _ hmem] at hundefined
  cases hundefined

include hvector hfulltext hrelated hdefined in
theorem fusedAs_perm (hv : vector.Perm vector') (hf : fulltext.Perm fulltext')
    (hr : related.Perm related') (k : Key) :
    fusedAs vector' fulltext' related' w k = fusedAs vector fulltext related w k := by
  unfold fusedAs signalsOf vectorScore fulltextScore firstPayload
  rw [hitFor_perm hvector hv, hitFor_perm hfulltext hf, ceiling_perm (defined_of_fused hfulltext hdefined) hf,
    graphScore_perm hrelated hr]

theorem fused_orders : OrdersOn (fun r : Fused Float => r.score.isNaN = false ∧ r.id.Defined)
    (fun a b => a.score == b.score && a.id == b.id) fun a b => ranksBefore (a.score, a.id) (b.score, b.id) :=
  (orders_ranksBefore defined_orders).comap fun r : Fused Float => (r.score, r.id)

section
variable {ids : List Key} (hids : ∀ k ∈ ids, k ∈ idsOf vector fulltext related)
include htexts hdefined hids

theorem placed_fused : ∀ r ∈ ids.map (fusedAs vector fulltext related w), r.score.isNaN = false ∧ r.id.Defined := by
  intro r hr
  obtain ⟨k, hk, rfl⟩ := List.mem_map.1 hr
  exact ⟨hdefined k (hids k hk), (htexts k (hids k hk)).defined⟩

theorem pairwise_fused : (byScore (ids.map (fusedAs vector fulltext related w))).Pairwise fun a b =>
    b.score < a.score ∨ (a.score == b.score) = true ∧ a.id.le b.id = true := by
  have hplaced := placed_fused htexts hdefined hids
  refine (fused_orders.pairwise_mergeSort hplaced).imp_of_mem ?_
  intro a b ha hb hab
  have hcases := above_or_before defined_orders (hplaced a (List.mem_mergeSort.1 ha)).1
    (hplaced b (List.mem_mergeSort.1 hb)).1 hab
  simpa [Scalar.lt] using hcases

theorem byScore_fused_perm {ids' : List Key} (hperm : ids.Perm ids') :
    byScore (ids.map (fusedAs vector fulltext related w)) =
      byScore (ids'.map (fusedAs vector fulltext related w)) := by
  apply fused_orders.mergeSort_eq_of_perm (placed_fused htexts hdefined hids)
  · intro a ha b hb hab
    obtain ⟨j, hj, rfl⟩ := List.mem_map.1 ha
    obtain ⟨k, hk, rfl⟩ := List.mem_map.1 hb
    have hjk : (j == k) = true := (Bool.and_eq_true_iff.1 hab).2
    rw [(htexts k (hids k hk)).eq_of_beq hjk]
  · exact hperm.map _

end

include hvector hfulltext hrelated htexts hdefined in
theorem fuse_perm (hv : vector.Perm vector') (hf : fulltext.Perm fulltext') (hr : related.Perm related') :
    fuse vector' fulltext' related' w = fuse vector fulltext related w := by
  have hsame := idsOf_perm hv hf hr
  have hnonzero : ∀ r ∈ related, isZero (r.distance + ofNat 1) = false := fun r hr => isZero_succ (hrelated r hr)
  have hnonzero' : ∀ r ∈ related', isZero (r.distance + ofNat 1) = false :=
    fun r hr' => hnonzero r (hr.mem_iff.2 hr')
  have htexts' : ∀ k ∈ idsOf vector' fulltext' related', k.IsText := fun k hk => htexts k (hsame.mem_iff.2 hk)
  obtain ⟨ids, hdistinct, hids, hfuse⟩ := fuse_ok htexts hvector hfulltext hnonzero w
  obtain ⟨ids', hdistinct', hids', hfuse'⟩ :=
    fuse_ok htexts' (hvector.perm (hv.map _)) (hfulltext.perm (hf.map _)) hnonzero' w
  have hperm : ids.Perm ids' := by
    apply (List.perm_ext_iff_of_nodup hdistinct.nodup hdistinct'.nodup).2
    intro k
    rw [hids, hids', hsame.mem_iff]
  have hmap : ids'.map (fusedAs vector' fulltext' related' w) = ids'.map (fusedAs vector fulltext related w) :=
    List.map_congr_left fun k _ => fusedAs_perm hvector hfulltext hrelated hdefined hv hf hr k
  rw [hfuse, hfuse', hmap, byScore_fused_perm htexts hdefined (fun k => (hids k).1) hperm]

end

structure IsFusionOf (vector fulltext : List (Hit Float)) (related : List (Related Float))
    (w : Signals Float) (top : Float)
    (r : Fused Float) : Prop where
  vector_eq : r.scores.vector = ((hitFor vector r.id).map Hit.score).getD 0
  fulltext_eq : r.scores.fulltext = ((hitFor fulltext r.id).map (·.score / top)).getD 0
  graph_largest : Largest r.scores.graph (0 :: (related.filter (·.id == r.id)).map nearness)
  score_eq : r.score = w.vector * r.scores.vector + w.fulltext * r.scores.fulltext + w.graph * r.scores.graph
  payload_eq : r.payload = firstPayload vector fulltext r.id

/-- Every id that occurs has one result, with what its hits and its distances say, a full-text score
as a part of the largest one. If no fused score is undefined, higher scores come first, equal ones
by id, and any order of the lists gives the same. -/
theorem fuse_of_apart {vector fulltext : List (Hit Float)} {related : List (Related Float)} (hvector : Apart vector)
    (hfulltext : Apart fulltext) (hrelated : ∀ r ∈ related, 0 ≤ r.distance)
    (htexts : ∀ k ∈ idsOf vector fulltext related, k.IsText) (w : Signals Float) :
    ∃ rs top, fuse vector fulltext related w = .ok rs ∧
      Distinct (rs.map Fused.id) ∧ (∀ k, k ∈ rs.map Fused.id ↔ k ∈ idsOf vector fulltext related) ∧
      ((∀ hit ∈ fulltext, hit.score.isNaN = false) → Largest top (1 :: fulltext.map Hit.score)) ∧
      (∀ r ∈ rs, IsFusionOf vector fulltext related w top r) ∧
      ((∀ r ∈ rs, r.score.isNaN = false) →
        (rs.Pairwise fun a b => b.score < a.score ∨ (a.score == b.score) = true ∧ a.id.le b.id = true) ∧
        ∀ vector' fulltext' related', vector.Perm vector' → fulltext.Perm fulltext' → related.Perm related' →
          fuse vector' fulltext' related' w = .ok rs) := by
  have hnonzero : ∀ r ∈ related, isZero (r.distance + ofNat 1) = false := fun r hr => isZero_succ (hrelated r hr)
  obtain ⟨ids, hdistinct, hids, hfuse⟩ := fuse_ok htexts hvector hfulltext hnonzero w
  have hperm := byScore_perm (ids.map (fusedAs vector fulltext related w))
  have hkeys := hperm.map Fused.id
  have hmap : (ids.map (fusedAs vector fulltext related w)).map Fused.id = ids := by
    simp [Function.comp_def, fusedAs, weigh]
  rw [hmap] at hkeys
  refine ⟨_, ceiling fulltext, hfuse, hdistinct.perm hkeys.symm,
    fun k => by rw [hkeys.mem_iff, hids], largest_ceiling, ?_, ?_⟩
  · intro r hr
    obtain ⟨k, -, rfl⟩ := List.mem_map.1 (hperm.mem_iff.1 hr)
    exact ⟨rfl, rfl, largest_graphScore hrelated k, rfl, rfl⟩
  · intro hscores
    -- a full-text score that is undefined would be so in its fused score, so one condition is enough
    have hdefined : ∀ k ∈ idsOf vector fulltext related,
        (fusedAs vector fulltext related w k).score.isNaN = false :=
      fun k hk => hscores _ (hperm.mem_iff.2 (List.mem_map_of_mem ((hids k).2 hk)))
    refine ⟨pairwise_fused htexts hdefined fun k => (hids k).1, ?_⟩
    intro vector' fulltext' related' hv hf hr
    rw [fuse_perm hvector hfulltext hrelated htexts hdefined hv hf hr, hfuse]

def rated : List (Hit Float) := [⟨.str "a", 0.75, .obj [("name", "f")]⟩, ⟨.str "b", 0.25, .obj []⟩]

def worded : List (Hit Float) := [⟨.str "b", 4.0, .obj [("name", "g")]⟩, ⟨.str "c", 2.0, .obj []⟩]

def linked : List (Related Float) := [⟨.str "c", 3.0⟩, ⟨.str "c", 1.0⟩]

theorem fuse_reversed : ∃ rs,
    fuse rated worded linked usualWeights = .ok rs ∧ rs.map Fused.id = ["a", "b", "c"].map Key.str ∧
    fuse rated.reverse worded.reverse linked.reverse usualWeights = .ok rs := by
  have hfuse : fuse rated worded linked usualWeights =
      .ok ((["a", "b", "c"].map Key.str).map (fusedAs rated worded linked usualWeights)) :=
    ranked_of_sorted (by decide +kernel) (by decide +kernel)
  have htexts : ∀ k ∈ idsOf rated worded linked, k.IsText := by simp [idsOf, rated, worded, linked, Key.IsText]
  obtain ⟨rs, top, hrs, -, -, -, -, hordered⟩ :=
    fuse_of_apart (by decide) (by decide) (by decide +kernel) htexts usualWeights
  obtain rfl := Except.ok.inj (hfuse.symm.trans hrs)
  obtain ⟨-, hperm⟩ := hordered (by decide +kernel)
  exact ⟨_, hrs, rfl, hperm _ _ _ (List.reverse_perm _).symm (List.reverse_perm _).symm (List.reverse_perm _).symm⟩

/-! ## Undefined scores -/

theorem mergeSort_four {α : Type} {le : α → α → Bool} {a b c d : α} (hab : le a b = true) (hcd : le c d = true)
    (hac : le a c = true) (hbc : le b c = true) : [a, b, c, d].mergeSort le = [a, b, c, d] := by
  simp [List.mergeSort, List.MergeSort.Internal.splitInTwo, *]

def blurred : List (Hit Float) :=
  [⟨.str "a", 2, .obj []⟩, ⟨.str "b", 1, .obj []⟩, ⟨.str "n", 1e308, .obj []⟩, ⟨.str "c", 3, .obj []⟩]

def opposed : List (Hit Float) := [⟨.str "n", -1e308, .obj []⟩]

/-- Behind a score of infinity less infinity comes one that is higher than the first, and a distance
may have no place among floating point numbers. -/
theorem fuse_blurred :
    (∃ a b n c, fuse blurred opposed [] ⟨1e10, 1e10, 0⟩ = .ok [a, b, n, c] ∧ a.score < c.score) ∧
    Related.ofValue (.list [.str "a", .int (2 ^ 1024)]) = .error (.mishap .overflow) := by
  constructor
  · have hfuse : fuse blurred opposed [] ⟨1e10, 1e10, 0⟩ = ranked (fun r => (r.score, r.id))
        ((["a", "b", "n", "c"].map Key.str).map (fusedAs blurred opposed [] ⟨1e10, 1e10, 0⟩)) := rfl
    rw [hfuse, ranked, sortChecked_ok]
    · refine ⟨_, _, _, _, congrArg Except.ok (mergeSort_four ?_ ?_ ?_ ?_), ?_⟩ <;> decide +kernel
    · decide +kernel
  · have hlarge : floatOf (2 ^ 1024) = .error (.mishap .overflow) := if_pos (by decide +kernel)
    simp only [Related.ofValue, asFloat, hlarge]
    rfl

end SourceAtlas.Search
