import SourceAtlas.Proofs.Fusions
import SourceAtlas.Proofs.Relevance

/-!
# Favours

A symbol that one signal comes to rate higher does not fall behind another one.
A higher full-text score may be the largest, by which all of them are divided:
then the others come to less and never to more. All this is told in real
numbers, since rounding may put two scores in one place.
-/

namespace SourceAtlas

open Json (Value Key)

/-! ## The order of two members -/

section
variable {α : Type} {a b : α} {l : List α} {P : α → Prop} {same le : α → α → Bool}

theorem sublist_or_of_mem (ha : a ∈ l) (hb : b ∈ l) (hne : a ≠ b) : [a, b].Sublist l ∨ [b, a].Sublist l := by
  induction l with
  | nil => cases ha
  | cons c l ih =>
    by_cases hac : a = c
    · subst hac
      have hb : b ∈ l := by simpa [Ne.symm hne] using hb
      exact .inl ((List.singleton_sublist.2 hb).cons_cons a)
    by_cases hbc : b = c
    · subst hbc
      have ha : a ∈ l := by simpa [hne] using ha
      exact .inr ((List.singleton_sublist.2 ha).cons_cons b)
    · have ha : a ∈ l := by simpa [hac] using ha
      have hb : b ∈ l := by simpa [hbc] using hb
      exact (ih ha hb).imp (.cons c) (.cons c)

variable (h : OrdersOn P same le) (hl : ∀ c ∈ l, P c)
include h hl

theorem OrdersOn.le_of_before (hab : [a, b].Sublist (l.mergeSort le)) : le a b = true :=
  List.pairwise_iff_forall_sublist.1 (h.pairwise_mergeSort hl) hab

theorem OrdersOn.before_of_le (ha : a ∈ l) (hb : b ∈ l) (hle : le a b = true) (hne : same a b = false) :
    [a, b].Sublist (l.mergeSort le) := by
  have hiff := h.same_iff a b (hl a ha) (hl b hb)
  rw [hne] at hiff
  have hab : a ≠ b := by
    rintro rfl
    simp [hle] at hiff
  rcases sublist_or_of_mem (List.mem_mergeSort.2 ha) (List.mem_mergeSort.2 hb) hab with hab | hba
  · exact hab
  · have hle' := h.le_of_before hl hba
    simp [hle, hle'] at hiff

end

namespace Search

open Exact (real)

/-! ## Findings -/

def Hit.exact (h : Hit ℝ) : Hit Exact := ⟨h.id, real h.score, h.payload⟩

def Related.exact (r : Related ℝ) : Related Exact := ⟨r.id, real r.distance⟩

def Signals.exact (s : Signals ℝ) : Signals Exact := ⟨real s.vector, real s.fulltext, real s.graph⟩

structure Findings where
  vector : List (Hit ℝ)
  fulltext : List (Hit ℝ)
  related : List (Related ℝ)

namespace Findings

def ids (x : Findings) : List Key := idsOf x.vector x.fulltext x.related

/-- Whether each signal tells an id once, and nothing below zero where that has no meaning. -/
structure Sound (x : Findings) : Prop where
  vector : Apart x.vector
  fulltext : Apart x.fulltext
  texts : ∀ k ∈ x.ids, k.IsText
  scores : ∀ hit ∈ x.fulltext, 0 ≤ hit.score
  distances : ∀ r ∈ x.related, 0 ≤ r.distance

noncomputable def fuse (x : Findings) (w : Signals ℝ) : Outcome (List (Fused Exact)) :=
  Search.fuse (x.vector.map Hit.exact) (x.fulltext.map Hit.exact) (x.related.map Related.exact) w.exact

/-- One signal comes to rate an id higher that is known already. -/
inductive Favours (k : Key) : Findings → Findings → Prop where
  | vector (fulltext : List (Hit ℝ)) (related : List (Related ℝ)) (before after : List (Hit ℝ))
      (payload : Value) {s s' : ℝ}
      (h : s ≤ s') : Favours k ⟨before ++ ⟨k, s, payload⟩ :: after, fulltext, related⟩
        ⟨before ++ ⟨k, s', payload⟩ :: after, fulltext, related⟩
  | fulltext (vector : List (Hit ℝ)) (related : List (Related ℝ)) (before after : List (Hit ℝ))
      (payload : Value) {s s' : ℝ}
      (h : s ≤ s') : Favours k ⟨vector, before ++ ⟨k, s, payload⟩ :: after, related⟩
        ⟨vector, before ++ ⟨k, s', payload⟩ :: after, related⟩
  | related (vector fulltext : List (Hit ℝ)) (before after : List (Related ℝ)) {d : ℝ} (hd : 0 ≤ d)
      (hk : k ∈ idsOf vector fulltext (before ++ after)) : Favours k ⟨vector, fulltext, before ++ after⟩
        ⟨vector, fulltext, before ++ ⟨k, d⟩ :: after⟩

end Findings

/-! ## Scores in real numbers -/

noncomputable def top (hits : List (Hit ℝ)) : ℝ := (hits.map Hit.score).foldl max 1

noncomputable def vectorPart (hits : List (Hit ℝ)) (k : Key) : ℝ := ((hitFor hits k).map Hit.score).getD 0

noncomputable def fulltextPart (hits : List (Hit ℝ)) (k : Key) : ℝ :=
  ((hitFor hits k).map (·.score / top hits)).getD 0

noncomputable def graphPart (related : List (Related ℝ)) (k : Key) : ℝ :=
  ((related.filter (·.id == k)).map fun r => 1 / (r.distance + 1)).foldl max 0

section
variable {hits before after : List (Hit ℝ)} {related : List (Related ℝ)} {hit : Hit ℝ} {j k : Key}
  {s s' : ℝ} {payload : Value}

theorem foldl_max_le_iff (rs : List ℝ) (s b : ℝ) : rs.foldl max s ≤ b ↔ s ≤ b ∧ ∀ r ∈ rs, r ≤ b := by
  induction rs generalizing s with
  | nil => simp
  | cons r rs ih => simp [ih, and_assoc]

theorem le_foldl_max (rs : List ℝ) (s : ℝ) : s ≤ rs.foldl max s ∧ ∀ r ∈ rs, r ≤ rs.foldl max s :=
  (foldl_max_le_iff rs s _).1 le_rfl

theorem larger_real (r s : ℝ) : larger (real r) (real s) = real (max r s) := by
  unfold larger
  rw [Exact.lt_real]
  by_cases h : r < s
  · simp [h, max_eq_right h.le]
  · simp [h, max_eq_left (not_lt.1 h)]

theorem foldl_larger_real (rs : List ℝ) (s : ℝ) : (rs.map real).foldl larger (real s) = real (rs.foldl max s) := by
  induction rs generalizing s with
  | nil => rfl
  | cons r rs ih => simp [larger_real, ih]

theorem one_le_top (hits : List (Hit ℝ)) : 1 ≤ top hits := (le_foldl_max _ 1).1

theorem top_pos (hits : List (Hit ℝ)) : 0 < top hits := one_pos.trans_le (one_le_top hits)

theorem top_le_iff {b : ℝ} : top hits ≤ b ↔ 1 ≤ b ∧ ∀ hit ∈ hits, hit.score ≤ b := by
  rw [top, foldl_max_le_iff, List.forall_mem_map]

theorem ceiling_exact (hits : List (Hit ℝ)) : ceiling (hits.map Hit.exact) = real (top hits) := by
  unfold ceiling top
  cases hits with
  | nil => simp
  | cons hit hits =>
    have hmap : (hits.map Hit.exact).map Hit.score ++ [ofNat 1] = (hits.map Hit.score ++ [1]).map real := by
      simp [Hit.exact]
    show ((hits.map Hit.exact).map Hit.score ++ [ofNat 1]).foldl larger (real hit.score) = _
    rw [hmap, foldl_larger_real, List.foldl_append, List.foldl_cons, List.foldl_nil, List.map_cons, List.foldl_cons,
      List.foldl_assoc, max_comm]

theorem hitFor_exact (hits : List (Hit ℝ)) (k : Key) :
    hitFor (hits.map Hit.exact) k = (hitFor hits k).map Hit.exact := by
  unfold hitFor
  rw [List.find?_map]
  rfl

theorem vectorScore_exact (hits : List (Hit ℝ)) (k : Key) :
    vectorScore (hits.map Hit.exact) k = real (vectorPart hits k) := by
  unfold vectorScore vectorPart
  rw [hitFor_exact]
  cases hitFor hits k with
  | none => simp
  | some hit => rfl

theorem fulltextScore_exact (hits : List (Hit ℝ)) (k : Key) :
    fulltextScore (hits.map Hit.exact) k = real (fulltextPart hits k) := by
  unfold fulltextScore fulltextPart
  rw [hitFor_exact, ceiling_exact]
  cases hitFor hits k with
  | none => simp
  | some hit => exact Exact.real_div hit.score (top_pos hits).ne'

theorem isZero_exact {r : Related ℝ} (h : 0 ≤ r.distance) : isZero (r.exact.distance + ofNat 1) = false := by
  have hpos := add_pos_of_nonneg_of_pos h one_pos
  simp [Related.exact, Exact.isZero_real, hpos.ne']

theorem nearness_exact {r : Related ℝ} (h : 0 ≤ r.distance) : nearness r.exact = real (1 / (r.distance + 1)) := by
  have hne : r.distance + 1 ≠ 0 := (add_pos_of_nonneg_of_pos h one_pos).ne'
  show ofNat 1 / (real r.distance + ofNat 1) = _
  rw [Exact.ofNat_eq, Nat.cast_one, Exact.real_add, Exact.real_div 1 hne]

theorem graphScore_exact (h : ∀ r ∈ related, 0 ≤ r.distance) (k : Key) :
    graphScore (related.map Related.exact) k = real (graphPart related k) := by
  have hmap : ((related.map Related.exact).filter (·.id == k)).map nearness =
      ((related.filter (·.id == k)).map fun r => 1 / (r.distance + 1)).map real := by
    rw [List.filter_map, List.map_map, List.map_map]
    apply List.map_congr_left
    intro r hr
    exact nearness_exact (h r (List.mem_filter.1 hr).1)
  unfold graphScore
  rw [hmap, Exact.ofNat_eq, Nat.cast_zero, foldl_larger_real]
  rfl

/-! ## What a favour does to one score -/

theorem hitFor_middle (h : Apart (before ++ ⟨k, s, payload⟩ :: after)) :
    hitFor (before ++ ⟨k, s, payload⟩ :: after) k = some ⟨k, s, payload⟩ :=
  (hitFor_eq_some_iff h).2 ⟨by simp, BEq.rfl⟩

theorem hitFor_others (hjk : (k == j) = false) :
    hitFor (before ++ ⟨k, s, payload⟩ :: after) j = hitFor (before ++ after) j := by
  simp [hitFor, List.find?_append, hjk]

theorem apart_middle (h : Apart (before ++ ⟨k, s, payload⟩ :: after)) (s' : ℝ) :
    Apart (before ++ ⟨k, s', payload⟩ :: after) := by
  simpa [Apart] using h

theorem top_middle : top (before ++ ⟨k, s, payload⟩ :: after) = max (top (before ++ after)) s := by
  apply eq_of_forall_ge_iff
  intro b
  simp only [top_le_iff, max_le_iff, List.forall_mem_append, List.forall_mem_cons]
  tauto

theorem vectorPart_raised (h : Apart (before ++ ⟨k, s, payload⟩ :: after)) (hs : s ≤ s') :
    vectorPart (before ++ ⟨k, s, payload⟩ :: after) k ≤ vectorPart (before ++ ⟨k, s', payload⟩ :: after) k := by
  unfold vectorPart
  rw [hitFor_middle h, hitFor_middle (apart_middle h s')]
  exact hs

theorem vectorPart_others (hjk : (k == j) = false) (s s' : ℝ) :
    vectorPart (before ++ ⟨k, s', payload⟩ :: after) j = vectorPart (before ++ ⟨k, s, payload⟩ :: after) j := by
  unfold vectorPart
  rw [hitFor_others hjk, hitFor_others hjk]

/-- A score that is raised may come to be the largest, which it is then divided by. -/
theorem fulltextPart_raised (h : Apart (before ++ ⟨k, s, payload⟩ :: after)) (hs : 0 ≤ s) (hs' : s ≤ s') :
    fulltextPart (before ++ ⟨k, s, payload⟩ :: after) k ≤ fulltextPart (before ++ ⟨k, s', payload⟩ :: after) k := by
  have htop := top_pos (before ++ after)
  unfold fulltextPart
  rw [hitFor_middle h, hitFor_middle (apart_middle h s'), top_middle, top_middle]
  show s / max (top (before ++ after)) s ≤ s' / max (top (before ++ after)) s'
  rw [div_le_div_iff₀ (lt_max_of_lt_left htop) (lt_max_of_lt_left htop), mul_max_of_nonneg _ _ hs,
    mul_max_of_nonneg _ _ (hs.trans hs'), mul_comm s s']
  exact max_le_max_right _ (mul_le_mul_of_nonneg_right hs' htop.le)

/-- The other scores are divided by as much as before, or by more. -/
theorem fulltextPart_others (h : ∀ hit ∈ before ++ ⟨k, s, payload⟩ :: after, 0 ≤ hit.score) (hs : s ≤ s')
    (hjk : (k == j) = false) :
    fulltextPart (before ++ ⟨k, s', payload⟩ :: after) j ≤ fulltextPart (before ++ ⟨k, s, payload⟩ :: after) j := by
  have htop := top_pos (before ++ after)
  unfold fulltextPart
  rw [hitFor_others hjk, hitFor_others hjk, top_middle, top_middle]
  cases hfound : hitFor (before ++ after) j with
  | none => exact le_rfl
  | some hit =>
    have hmem : hit ∈ before ++ after := List.mem_of_find?_eq_some hfound
    have hscore : 0 ≤ hit.score := by
      apply h
      simp only [List.mem_append, List.mem_cons] at hmem ⊢
      tauto
    exact div_le_div_of_nonneg_left hscore (lt_max_of_lt_left htop) (max_le_max_left _ hs)

theorem graphPart_added (k : Key) (before after : List (Related ℝ)) (d : ℝ) :
    graphPart (before ++ after) k ≤ graphPart (before ++ ⟨k, d⟩ :: after) k := by
  have hbound := le_foldl_max (((before ++ ⟨k, d⟩ :: after).filter (·.id == k)).map fun r => 1 / (r.distance + 1)) 0
  unfold graphPart
  rw [foldl_max_le_iff]
  refine ⟨hbound.1, fun y hy => hbound.2 y ?_⟩
  obtain ⟨r, hr, rfl⟩ := List.mem_map.1 hy
  apply List.mem_map_of_mem
  simp only [List.mem_filter, List.mem_append, List.mem_cons] at hr ⊢
  tauto

theorem graphPart_others {before after : List (Related ℝ)} (hjk : (k == j) = false) (d : ℝ) :
    graphPart (before ++ ⟨k, d⟩ :: after) j = graphPart (before ++ after) j := by
  simp [graphPart, hjk]

end

/-! ## What a favour does to the ranking -/

namespace Findings

variable {x y : Findings} {w : Signals ℝ} {j k : Key}

noncomputable def total (x : Findings) (w : Signals ℝ) (k : Key) : ℝ :=
  w.vector * vectorPart x.vector k + w.fulltext * fulltextPart x.fulltext k + w.graph * graphPart x.related k

noncomputable def leads (x : Findings) (w : Signals ℝ) (j k : Key) : Bool :=
  ranksBefore (real (x.total w j), j) (real (x.total w k), k)

theorem leads_iff : x.leads w j k = true ↔ x.total w k < x.total w j ∨ x.total w j = x.total w k ∧ j.le k = true :=
  Exact.ranksBefore_real

theorem leads_orders (x : Findings) (w : Signals ℝ) : OrdersOn Key.IsText
    (fun j k => real (x.total w j) == real (x.total w k) && j == k) (x.leads w) :=
  (Exact.ranksBefore_orders.comap fun k => (real (x.total w k), k)).congr (fun _ hk => ⟨⟨_, rfl⟩, hk.defined⟩)
    (fun _ _ => rfl) fun _ _ => rfl

theorem ids_exact (x : Findings) :
    idsOf (x.vector.map Hit.exact) (x.fulltext.map Hit.exact) (x.related.map Related.exact) = x.ids := by
  simp [idsOf, ids, Function.comp_def, Hit.exact, Related.exact]

theorem apart_exact {hits : List (Hit ℝ)} (h : Apart hits) : Apart (hits.map Hit.exact) := by
  simpa [Apart, Function.comp_def, Hit.exact] using h

section
variable (h : x.Sound)
include h

theorem score_exact (w : Signals ℝ) (k : Key) :
    (fusedAs (x.vector.map Hit.exact) (x.fulltext.map Hit.exact) (x.related.map Related.exact) w.exact k).score =
      real (x.total w k) := by
  show real w.vector * vectorScore _ k + real w.fulltext * fulltextScore _ k + real w.graph * graphScore _ k = _
  rw [vectorScore_exact, fulltextScore_exact, graphScore_exact h.distances]
  rfl

theorem fuse_ids (w : Signals ℝ) : ∃ (rs : List (Fused Exact)) (ids : List Key), x.fuse w = .ok rs ∧
    Distinct (rs.map Fused.id) ∧ (∀ k, k ∈ ids ↔ k ∈ x.ids) ∧ rs.map Fused.id = ids.mergeSort (x.leads w) := by
  have hnonzero : ∀ r ∈ x.related.map Related.exact, isZero (r.distance + ofNat 1) = false := by
    rw [List.forall_mem_map]
    intro r hr
    exact isZero_exact (h.distances r hr)
  have htexts : ∀ k ∈ idsOf (x.vector.map Hit.exact) (x.fulltext.map Hit.exact) (x.related.map Related.exact),
      k.IsText := by
    rw [ids_exact]
    exact h.texts
  obtain ⟨ids, hdistinct, hmem, hfuse⟩ :=
    fuse_ok htexts (apart_exact h.vector) (apart_exact h.fulltext) hnonzero w.exact
  rw [ids_exact] at hmem
  have hsorted : (byScore (ids.map (fusedAs (x.vector.map Hit.exact) (x.fulltext.map Hit.exact)
      (x.related.map Related.exact) w.exact))).map Fused.id = ids.mergeSort (x.leads w) := by
    rw [byScore, ← List.map_mergeSort (r := x.leads w), List.map_map]
    · exact List.map_id _
    · intro j hj k hk
      rw [score_exact h, score_exact h]
      rfl
  refine ⟨_, ids, hfuse, ?_, hmem, hsorted⟩
  rw [hsorted]
  exact hdistinct.perm (List.mergeSort_perm _ _).symm

end

section
variable (hfavours : Favours k x y)
include hfavours

theorem Favours.mem : k ∈ x.ids := by
  cases hfavours with
  | related vector fulltext before after hd hk => exact hk
  | _ => simp [ids, idsOf]

theorem Favours.mem_ids_iff : j ∈ y.ids ↔ j ∈ x.ids := by
  cases hfavours with
  | related vector fulltext before after hd hk =>
    simp [ids, idsOf] at hk ⊢
    grind
  | _ => simp [ids, idsOf]

variable (h : x.Sound)
include h

theorem Favours.sound : y.Sound := by
  have htexts : ∀ k ∈ y.ids, k.IsText := fun k hk => h.texts k (hfavours.mem_ids_iff.1 hk)
  cases hfavours with
  | vector fulltext related before after payload hs =>
    exact ⟨apart_middle h.vector _, h.fulltext, htexts, h.scores, h.distances⟩
  | fulltext vector related before after payload hs =>
    refine ⟨h.vector, apart_middle h.fulltext _, htexts, ?_, h.distances⟩
    have hscores := h.scores
    simp only [List.forall_mem_append, List.forall_mem_cons] at hscores ⊢
    exact ⟨hscores.1, hscores.2.1.trans hs, hscores.2.2⟩
  | related vector fulltext before after hd hk =>
    refine ⟨h.vector, h.fulltext, htexts, h.scores, ?_⟩
    have hdistances := h.distances
    simp only [List.forall_mem_append, List.forall_mem_cons] at hdistances ⊢
    exact ⟨hdistances.1, hd, hdistances.2⟩

theorem Favours.total_le (hv : 0 ≤ w.vector) (hf : 0 ≤ w.fulltext) (hg : 0 ≤ w.graph) :
    x.total w k ≤ y.total w k := by
  unfold total
  cases hfavours with
  | vector fulltext related before after payload hs =>
    have hraised := vectorPart_raised h.vector hs
    gcongr
  | fulltext vector related before after payload hs =>
    have hraised := fulltextPart_raised h.fulltext (h.scores ⟨k, _, payload⟩ (by simp)) hs
    gcongr
  | @related vector fulltext before after d hd hk =>
    have hadded := graphPart_added k before after d
    gcongr

theorem Favours.le_total (hf : 0 ≤ w.fulltext) (hkj : (k == j) = false) : y.total w j ≤ x.total w j := by
  unfold total
  cases hfavours with
  | vector fulltext related before after payload hs => rw [vectorPart_others hkj]
  | fulltext vector related before after payload hs =>
    have hothers := fulltextPart_others h.scores hs hkj
    gcongr
  | related vector fulltext before after hd hk => rw [graphPart_others hkj]

/-- What comes after an id that is favoured comes after it still. -/
theorem Favours.stays_ahead (hv : 0 ≤ w.vector) (hf : 0 ≤ w.fulltext) (hg : 0 ≤ w.graph) :
    ∃ rs rs', x.fuse w = .ok rs ∧ y.fuse w = .ok rs' ∧ Distinct (rs.map Fused.id) ∧ Distinct (rs'.map Fused.id) ∧
      ∀ j, [k, j].Sublist (rs.map Fused.id) → [k, j].Sublist (rs'.map Fused.id) := by
  have hy := hfavours.sound h
  obtain ⟨rs, ids, hrs, hdistinct, hids, hsorted⟩ := fuse_ids h w
  obtain ⟨rs', ids', hrs', hdistinct', hids', hsorted'⟩ := fuse_ids hy w
  refine ⟨rs, rs', hrs, hrs', hdistinct, hdistinct', ?_⟩
  intro j hbefore
  have hkj : (k == j) = false := List.pairwise_iff_forall_sublist.1 hdistinct hbefore
  rw [hsorted] at hbefore
  rw [hsorted']
  have hj : j ∈ ids := List.mem_mergeSort.1 (hbefore.subset (by simp))
  have htexts : ∀ i ∈ ids, i.IsText := fun i hi => h.texts i ((hids i).1 hi)
  have htexts' : ∀ i ∈ ids', i.IsText := fun i hi => hy.texts i ((hids' i).1 hi)
  have hk' : k ∈ ids' := (hids' k).2 (hfavours.mem_ids_iff.2 hfavours.mem)
  have hj' : j ∈ ids' := (hids' j).2 (hfavours.mem_ids_iff.2 ((hids j).1 hj))
  have hleads := leads_iff.1 ((x.leads_orders w).le_of_before htexts hbefore)
  have hup := hfavours.total_le h hv hf hg
  have hdown := hfavours.le_total h hf hkj
  -- what leads goes up and what follows does not, so a tie is left to the ids only where it was so before
  apply (y.leads_orders w).before_of_le htexts' hk' hj'
  · rw [leads_iff]
    rcases hleads with hlt | ⟨heq, hle⟩
    · exact .inl (hdown.trans_lt (hlt.trans_le hup))
    · rcases (hdown.trans (heq.symm.le.trans hup)).lt_or_eq with hlt | heq'
      · exact .inl hlt
      · exact .inr ⟨heq'.symm, hle⟩
  · simp [hkj]

end

noncomputable def known (s : ℝ) : Findings where
  vector := [⟨.str "a", 1, .obj []⟩]
  fulltext := [⟨.str "a", s, .obj []⟩, ⟨.str "b", 3, .obj []⟩]
  related := []

theorem known_stays_ahead : ∃ rs, (known 4).fuse ⟨1, 1, 1⟩ = .ok rs ∧
    [.str "a", .str "b"].Sublist (rs.map Fused.id) := by
  have hfavours : Favours (.str "a") (known 2) (known 4) := .fulltext _ _ [] _ _ (by norm_num)
  have hne : (Key.str "a" == Key.str "b") = false ∧ (Key.str "b" == Key.str "a") = false := by decide
  have hsound : (known 2).Sound := by
    refine ⟨?_, ?_, ?_, ?_, ?_⟩ <;> simp [known, Apart, ids, idsOf, Key.IsText, hne]
  have hlead : (known 2).leads ⟨1, 1, 1⟩ (.str "a") (.str "b") = true := by
    rw [leads_iff]
    left
    simp [total, vectorPart, fulltextPart, graphPart, hitFor, top, known, hne]
    norm_num
  obtain ⟨rs, rs', hrs, hrs', -, -, hahead⟩ := hfavours.stays_ahead hsound (w := ⟨1, 1, 1⟩) (by norm_num)
    (by norm_num) (by norm_num)
  obtain ⟨rs₀, ids, hrs₀, -, hids, hsorted⟩ := fuse_ids hsound ⟨1, 1, 1⟩
  obtain rfl := Except.ok.inj (hrs.symm.trans hrs₀)
  refine ⟨rs', hrs', hahead _ ?_⟩
  rw [hsorted]
  apply ((known 2).leads_orders _).before_of_le (fun k hk => hsound.texts k ((hids k).1 hk))
  · exact (hids _).2 (by simp [Findings.ids, idsOf, known])
  · exact (hids _).2 (by simp [Findings.ids, idsOf, known])
  · exact hlead
  · simp [hne]

end Findings

end Search

end SourceAtlas
