import SourceAtlas.Proofs.RawHits

/-!
# When signals fail

A search asks three signals. One that fails is silent, and one without a share
is not asked at all, so whatever is out of order, a search answers with what
the others say. Of these, vectors alone are the hits as they were found, sorted.
-/

namespace SourceAtlas

open Json (Value Key)

theorem OrderedMap.mem_values_of_get? {κ α : Type} [BEq κ] {m : OrderedMap κ α} {k : κ} {v : α}
    (h : m.get? k = some v) :
    v ∈ m.values := by
  obtain ⟨j, hj, -⟩ := OrderedMap.mem_of_get? h
  exact List.mem_map.2 ⟨_, hj, rfl⟩

namespace Search

/-! ## Fusing does not fail -/

section
variable {α : Type} [Scalar α] {vector fulltext : List (Hit α)} {related : List (Related α)}

theorem fuse_returns (htexts : ∀ k ∈ idsOf vector fulltext related, k.IsText)
    (hrelated : ∀ r ∈ related, isZero (r.distance + ofNat 1) = false) (w : Signals α) :
    ∃ rs, fuse vector fulltext related w = .ok rs := by
  obtain ⟨m, hm⟩ : ∃ m, merged vector fulltext related = .ok m :=
    ⟨_, foldlM_ok (fun m r hr => merge_near m (hrelated r hr)) _⟩
  have hids : ∀ r ∈ m.entries.map (weigh w), r.id.IsText := by
    intro r hr
    obtain ⟨e, he, rfl⟩ := List.mem_map.1 hr
    exact htexts _ ((mem_keys_merged_iff htexts hm e.1).1 (List.mem_map_of_mem he))
  rw [fuse_eq, hm]
  show ∃ rs, ranked (fun r => (r.score, r.id)) (m.entries.map (weigh w)) = .ok rs
  refine ⟨_, sortChecked_ok fun r hr s hs => ?_⟩
  obtain ⟨t, ht⟩ := hids r hr
  obtain ⟨u, hu⟩ := hids s hs
  unfold rankable
  dsimp only
  rw [ht, hu]
  exact Bool.or_eq_true_iff.2 (.inr rfl)

end

end Search

namespace Atlas

open Search (Hit Related Signals)

variable {a b : Atlas} {query workspace topK limit : Value} {filters : Search.Filters}
  {weights : Option (Signals Float)} {w : Signals Float}

/-! ## Ids that are texts -/

structure Lettered (a : Atlas) : Prop where
  vectors : ∀ e ∈ a.vectors.points.entries, ∃ s, e.2.id = .str s
  texts : ∀ k ∈ a.texts.documents.keys, k.IsText
  symbols : ∀ d ∈ a.store.symbols.documents.values, ∀ id, Document.idOf (.obj d) = .ok id → id.IsText
  targets : ∀ ref type, ∀ target ∈ a.engine.out.neighbours ref type, target.IsText

namespace Lettered

variable (h : a.Lettered)
include h

theorem of_document {k : Key} {d : Document} (hd : a.texts.documents.get? k = some d) : k.IsText := by
  obtain ⟨j, hj, hjk⟩ := OrderedMap.mem_of_get? hd
  have htext := h.texts j (List.mem_map.2 ⟨_, hj, rfl⟩)
  rwa [htext.eq_of_beq (BEq.symm hjk)]

theorem of_means {target : Key} (htarget : target.IsText) {e : Key × Option Document}
    (hmeans : a.store.symbols.Means target workspace e) : e.1.IsText := by
  cases hmeans with
  | reference hget hid =>
    unfold Graph.Symbols.get? at hget
    split at hget
    · rename_i hd
      exact h.symbols _ (OrderedMap.mem_values_of_get? (hd.trans hget)) _ hid
    · obtain ⟨k, -, hk⟩ := Option.bind_eq_some_iff.1 hget
      exact h.symbols _ (OrderedMap.mem_values_of_get? hk) _ hid
  | name _ hd hid => exact h.symbols _ (List.mem_filter.1 hd).1 _ hid
  | itself => exact htarget

theorem of_leads {hit : Search.TextHit Float} {e : Key × Option Document} (hleads : a.Leads workspace hit e) :
    e.1.IsText := by
  obtain ⟨targets, htargets, target, htarget, hmeans⟩ := hleads
  refine h.of_means ?_ hmeans
  obtain ⟨ref, -, hfound⟩ := bind_eq_ok.1 htargets
  rw [Graph.Engine.dependencies, Graph.Adjacency.lookup_eq (h.targets ref) none] at hfound
  obtain rfl := pure_eq_ok.1 hfound
  simp only [List.mem_map, List.mem_flatMap, List.mem_mergeSort] at htarget
  obtain ⟨_, ⟨e, he, n, hn, rfl⟩, rfl⟩ := htarget
  obtain ⟨-, hall⟩ := Graph.Adjacency.of_mem_groups he
  exact h.targets ref e.1 n (hall ▸ hn)

theorem similar_texts {hits : List (Hit Float)}
    (hsimilar : ((similar query workspace filters limit).on a).1 = .ok hits) :
    ∀ hit ∈ hits, hit.id.IsText := by
  intro hit hhit
  obtain ⟨k, p, hp, hid, -⟩ := of_similar (eq_of_fst hsimilar) hhit
  obtain ⟨j, hj, -⟩ := OrderedMap.mem_of_get? hp
  obtain ⟨s, hs⟩ := h.vectors _ hj
  rw [hs] at hid
  exact ⟨s, (Except.ok.inj hid).symm⟩

theorem matching_texts {hits : List (Hit Float)}
    (hmatching : ((matching query workspace filters limit).on a).1 = .ok hits) :
    ∀ hit ∈ hits, hit.id.IsText := by
  intro hit hhit
  obtain ⟨d, hd, -⟩ := of_matching (eq_of_fst hmatching) hhit
  exact h.of_document hd

theorem related_texts {related : List (Related Float)}
    (hrelated : ((searchRelated query workspace limit filters).on a).1 = .ok related) :
    ∀ r ∈ related, r.id.IsText := by
  intro r hr
  obtain ⟨-, hits, hseeds, hit, hhit, hfound⟩ := (of_searchRelated (eq_of_fst hrelated) r.id).1 ⟨r, hr, BEq.rfl⟩
  have htext : ∃ k : Key, k.IsText ∧ (k == r.id) = true := by
    rcases hfound with hid | ⟨e, hleads, -, hid⟩
    · obtain ⟨-, -, hsearch⟩ := bind_eq_ok.1 hseeds
      obtain ⟨text, -, hsearch⟩ := bind_eq_ok.1 hsearch
      exact ⟨hit.id, h.of_document (Search.TextIndex.of_search hsearch hhit).1, hid⟩
    · exact ⟨e.1, h.of_leads hleads, hid⟩
  obtain ⟨k, hk, hid⟩ := htext
  rwa [hk.eq_of_beq (BEq.symm hid)]

end Lettered

/-! ## Distances -/

theorem distance_of_around {hit : Search.TextHit Float} {group : List (Related Float)}
    (h : (around workspace filters hit).on a = (.ok group, b)) :
    ∀ r ∈ group, r.distance = 0.0 ∨ r.distance = 1.0 := by
  unfold around at h
  obtain ⟨targets, _, -, h⟩ := Act.bind_ok h
  obtain ⟨resolved, _, -, h⟩ := Act.bind_ok h
  obtain ⟨kept, _, -, h⟩ := Act.bind_ok h
  rw [Act.on_pure] at h
  obtain rfl := Except.ok.inj (Prod.mk.inj h).1
  intro r hr
  rcases List.mem_cons.1 hr with rfl | hr
  · exact .inl rfl
  · obtain ⟨e, -, rfl⟩ := List.mem_map.1 hr
    exact .inr rfl

theorem distance_of_searchRelated {related : List (Related Float)}
    (h : ((searchRelated query workspace limit filters).on a).1 = .ok related) :
    ∀ r ∈ related, r.distance = 0.0 ∨ r.distance = 1.0 := by
  rw [on_searchRelated] at h
  obtain ⟨-, -, h⟩ := bind_eq_ok.1 h
  split at h
  · obtain rfl := pure_eq_ok.1 h
    nofun
  · obtain ⟨hits, -, h⟩ := bind_eq_ok.1 h
    obtain ⟨groups, hgroups, h⟩ := bind_eq_ok.1 h
    obtain rfl := pure_eq_ok.1 h
    obtain ⟨-, hall⟩ := Act.of_mapM (fun hit => reads_around workspace filters hit) (eq_of_fst hgroups)
    intro r hr
    obtain ⟨group, hgroup, hr⟩ := List.mem_flatten.1 hr
    obtain ⟨hit, -, hon⟩ := exists_of_mem_right hall hgroup
    exact distance_of_around hon r hr

/-! ## Asking signals -/

def blend (topK : Value) (weights : Option (Signals Float))
    (askVector askText : Value → Act Atlas (List (Hit Float)))
    (askGraph : Act Atlas (List (Related Float))) : Act Atlas (List (Search.Fused Float)) := do
  let a ← get
  let w ← Act.ofOutcome (weights.getD a.plan.weights).normalized.checked
  let vector ← signal w.vector (askVector (a.limitOf topK))
  let fulltext ← signal w.fulltext (askText (a.limitOf topK))
  let related ← signal w.graph askGraph
  let all ← Act.ofOutcome (Search.fuse vector fulltext related w)
  pure (firstOf (← asInt (a.limitOf topK)) all)

theorem searchHybrid_eq (query workspace topK : Value) (filters : Search.Filters)
    (weights : Option (Signals Float)) :
    searchHybrid query workspace topK filters weights = blend topK weights (similar query workspace filters)
      (matching query workspace filters) (searchRelated query workspace .null filters) := rfl

theorem signal_congr {α : Type} {weight : Float} (h : weight ≤ 0) (ask ask' : Act Atlas (List α)) :
    signal weight ask = signal weight ask' := by
  unfold signal
  rw [if_pos h, if_pos h]

section
variable (hweights : (weights.getD a.plan.weights).checked = .ok w)
include hweights

theorem checked_shares : (weights.getD a.plan.weights).normalized.checked = .ok w.normalized := by
  obtain ⟨hleast, rfl⟩ := Signals.checked_ok_iff.1 hweights
  exact Signals.checked_normalized hleast

/-- Signals that are asked in the same way make the same search. -/
theorem on_blend_congr {askVector askVector' askText askText' : Value → Act Atlas (List (Hit Float))}
    {askGraph askGraph' : Act Atlas (List (Related Float))}
    (hvector : ∀ limit, signal (w.share w.vector) (askVector limit) = signal (w.share w.vector) (askVector' limit))
    (hfulltext : ∀ limit, signal (w.share w.fulltext) (askText limit) =
      signal (w.share w.fulltext) (askText' limit))
    (hgraph : signal (w.share w.graph) askGraph = signal (w.share w.graph) askGraph') :
    (blend topK weights askVector askText askGraph).on a =
      (blend topK weights askVector' askText' askGraph').on a := by
  unfold blend
  rw [Act.on_bind, Act.on_bind, Act.on_get]
  dsimp only
  rw [Act.on_bind, Act.on_bind, Act.on_ofOutcome, checked_shares hweights, Signals.normalized_eq]
  dsimp only
  rw [hvector, hgraph]
  simp only [hfulltext]

end

theorem texts_of_heard {α : Type} {id : α → Key} {weight : Float} {answer : Outcome (List α)}
    (h : ∀ xs, answer = .ok xs → ∀ x ∈ xs, (id x).IsText) : ∀ k ∈ (heard weight answer).map id, k.IsText := by
  intro k hk
  obtain ⟨x, hx, rfl⟩ := List.mem_map.1 hk
  obtain ⟨xs, hxs, hx⟩ := of_heard hx
  exact h xs hxs x hx

theorem take_of_firstOf {α : Type} {n : Int} (hn : 1 ≤ n) (xs : List α) : firstOf n xs = xs.take n.toNat :=
  if_pos (by omega)

theorem idsOf_heard_texts (h : a.Lettered) (v : Signals Float) (query workspace limit : Value)
    (filters : Search.Filters) :
    ∀ k ∈ Search.idsOf (heard v.vector ((similar query workspace filters limit).on a).1)
      (heard v.fulltext ((matching query workspace filters limit).on a).1)
      (heard v.graph ((searchRelated query workspace .null filters).on a).1), k.IsText := by
  simp only [Search.idsOf, List.forall_mem_append]
  exact ⟨⟨texts_of_heard fun _ => h.similar_texts, texts_of_heard fun _ => h.matching_texts⟩,
    texts_of_heard fun _ => h.related_texts⟩

theorem isZero_heard (weight : Float) : ∀ r ∈ heard weight ((searchRelated query workspace limit filters).on a).1,
    Search.isZero (r.distance + Search.ofNat 1) = false := by
  intro r hr
  obtain ⟨related, hrelated, hr⟩ := of_heard hr
  rcases distance_of_searchRelated hrelated r hr with heq | heq
  · rw [heq]
    decide +kernel
  · rw [heq]
    decide +kernel

theorem searchHybrid_ok (query workspace : Value) (filters : Search.Filters) {n : Int}
    (hweights : (weights.getD a.plan.weights).checked = .ok w)
    (hlimit : asInt (a.limitOf topK) = .ok n) (hn : 1 ≤ n)
    (hids : a.Lettered) : ∃ all,
      Search.fuse (heard w.normalized.vector ((similar query workspace filters (a.limitOf topK)).on a).1)
        (heard w.normalized.fulltext ((matching query workspace filters (a.limitOf topK)).on a).1)
        (heard w.normalized.graph ((searchRelated query workspace .null filters).on a).1) w.normalized = .ok all ∧
      ((searchHybrid query workspace topK filters weights).on a).1 = .ok (all.take n.toNat) := by
  obtain ⟨all, hall⟩ := Search.fuse_returns
    (idsOf_heard_texts hids w.normalized query workspace (a.limitOf topK) filters)
    (isZero_heard w.normalized.graph) w.normalized
  refine ⟨all, hall, ?_⟩
  rw [on_searchHybrid, checked_shares hweights, hlimit]
  show (Search.fuse _ _ _ w.normalized >>= fun all => pure (firstOf n all)) = _
  rw [hall, ← take_of_firstOf hn]
  rfl

/-! ## Vectors alone -/

/-- Where vectors alone have a weight, nothing else is heard. -/
theorem heard_alone (h : w.VectorAlone) (hits : List (Hit Float)) (fulltext : Outcome (List (Hit Float)))
    (related : Outcome (List (Related Float))) : heard w.normalized.vector (.ok hits) = hits ∧
      heard w.normalized.fulltext fulltext = [] ∧ heard w.normalized.graph related = [] := by
  rw [Signals.normalized_eq]
  refine ⟨heard_ok ?_ hits, if_pos (h.allowed.share_of_zero h.fulltext), if_pos (h.allowed.share_of_zero h.graph)⟩
  obtain ⟨⟨hm, hv⟩, -⟩ := h.shares
  rw [Search.VectorIndex.le_iff, hv]
  exact Bool.false_ne_true

theorem searchHybrid_alone {n : Int} (hweights : (weights.getD a.plan.weights).checked = .ok w)
    (hlimit : asInt (a.limitOf topK) = .ok n) (hn : 1 ≤ n) (hids : a.Lettered) (halone : w.VectorAlone)
    (hvectors : a.vectors.Tabled) {hits : List (Hit Float)}
    (hhits : ((similar query workspace filters (a.limitOf topK)).on a).1 = .ok hits) :
    ∃ rs sorted, ((searchHybrid query workspace topK filters weights).on a).1 = .ok rs ∧ sorted.Perm hits ∧
      sorted.Pairwise Search.Before ∧ List.Forall₂ Search.Retells rs sorted := by
  obtain ⟨all, hall, hsearch⟩ := searchHybrid_ok query workspace filters hweights hlimit hn hids
  obtain ⟨hlength, hraw⟩ := raw_of_similar hvectors hlimit hhits
  obtain ⟨rs, sorted, hfuse, hperm, hsorted, hretells⟩ :=
    hraw.fuse_sorted halone.same_score (hids.similar_texts hhits)
  obtain ⟨hvector, hfulltext, hgraph⟩ := heard_alone halone hits _ _
  rw [hhits, hvector, hfulltext, hgraph, hfuse] at hall
  obtain rfl := Except.ok.inj hall
  refine ⟨rs, sorted, ?_, hperm, hsorted, hretells⟩
  rw [hsearch, List.take_of_length_le]
  rw [hretells.length_eq, hperm.length_eq]
  exact hlength

/-! ## The search -/

/-- Whatever is out of order, a search answers with the first of what is fused of the signals that
have a share and do not fail. Where no weight is undefined, a signal without weight is not asked, so
anything can stand in its place. Where vectors alone have a weight, their hits are sorted, and each
keeps its score. -/
theorem searchHybrid_falls_back {n : Int} (hweights : (weights.getD a.plan.weights).checked = .ok w)
    (hlimit : asInt (a.limitOf topK) = .ok n) (hn : 1 ≤ n) (hids : a.Lettered) :
    (∃ all, Search.fuse (heard w.normalized.vector ((similar query workspace filters (a.limitOf topK)).on a).1)
        (heard w.normalized.fulltext ((matching query workspace filters (a.limitOf topK)).on a).1)
        (heard w.normalized.graph ((searchRelated query workspace .null filters).on a).1) w.normalized = .ok all ∧
      ((searchHybrid query workspace topK filters weights).on a).1 = .ok (all.take n.toNat)) ∧
    (w.total.isNaN = false →
      ((w.vector == 0) = true → ∀ ask, (blend topK weights ask (matching query workspace filters)
        (searchRelated query workspace .null filters)).on a =
          (searchHybrid query workspace topK filters weights).on a) ∧
      ((w.fulltext == 0) = true → ∀ ask, (blend topK weights (similar query workspace filters) ask
        (searchRelated query workspace .null filters)).on a =
          (searchHybrid query workspace topK filters weights).on a) ∧
      ((w.graph == 0) = true → ∀ ask, (blend topK weights (similar query workspace filters)
        (matching query workspace filters) ask).on a = (searchHybrid query workspace topK filters weights).on a)) ∧
    (w.VectorAlone → ∀ dimensions uses, a.vectors = Search.VectorIndex.after dimensions uses →
      ∀ hits, ((similar query workspace filters (a.limitOf topK)).on a).1 = .ok hits →
        ∃ rs sorted, ((searchHybrid query workspace topK filters weights).on a).1 = .ok rs ∧ sorted.Perm hits ∧
          sorted.Pairwise Search.Before ∧ List.Forall₂ Search.Retells rs sorted) := by
  refine ⟨searchHybrid_ok query workspace filters hweights hlimit hn hids, fun hdefined => ?_, ?_⟩
  · obtain ⟨hleast, hw⟩ := Signals.checked_ok_iff.1 hweights
    have hallowed : w.Allowed := Signals.allowed_of_least (hw ▸ hleast) hdefined
    rw [searchHybrid_eq]
    refine ⟨fun hzero ask => ?_, fun hzero ask => ?_, fun hzero ask => ?_⟩
    · exact on_blend_congr hweights (fun _ => signal_congr (hallowed.share_of_zero hzero) _ _) (fun _ => rfl) rfl
    · exact on_blend_congr hweights (fun _ => rfl) (fun _ => signal_congr (hallowed.share_of_zero hzero) _ _) rfl
    · exact on_blend_congr hweights (fun _ => rfl) (fun _ => rfl) (signal_congr (hallowed.share_of_zero hzero) _ _)
  · intro halone dimensions uses hvectors hits hhits
    exact searchHybrid_alone hweights hlimit hn hids halone
      (hvectors ▸ Search.VectorIndex.tabled_after dimensions uses) hhits

def wordless : Atlas := { bilingual with faults := [(.searchTexts, .outage "down")] }

theorem lettered_wordless : wordless.Lettered := by
  have hpoints : wordless.vectors.points.entries = [(.str "2", ⟨"2", [.float 1.0], declared "2" "python"⟩)] := rfl
  have htexts : wordless.texts.documents.keys = [.str "1"] := rfl
  have hsymbols : wordless.store.symbols.documents.values = [declared "1" "java", declared "2" "python"] := rfl
  refine ⟨?_, ?_, ?_, fun ref type target h => absurd h List.not_mem_nil⟩
  · rw [hpoints]
    simp
  · rw [htexts]
    simp [Key.IsText]
  · rw [hsymbols]
    intro d hd id hid
    rcases List.mem_pair.1 hd with rfl | rfl
    · exact ⟨"1", (Except.ok.inj hid).symm⟩
    · exact ⟨"2", (Except.ok.inj hid).symm⟩

theorem searchHybrid_wordless :
    ∃ rs hits sorted, ((searchHybrid "f" "ws" .null {} (some ⟨2, 0, 0⟩)).on wordless).1 = .ok rs ∧
    ((similar "f" "ws" {} (.int 10)).on wordless).1 = .ok hits ∧ hits.map (·.id == .str "2") = [true] ∧
    sorted.Perm hits ∧ sorted.Pairwise Search.Before ∧ List.Forall₂ Search.Retells rs sorted ∧
    (blend .null (some ⟨2, 0, 0⟩) (similar "f" "ws" {}) (fun _ => throw (.outage "asked"))
      (searchRelated "f" "ws" .null {})).on wordless =
        (searchHybrid "f" "ws" .null {} (some ⟨2, 0, 0⟩)).on wordless := by
  have hweights : Signals.checked ⟨2, 0, 0⟩ = .ok (⟨2, 0, 0⟩ : Signals Float) :=
    Signals.checked_ok_iff.2 ⟨by decide +kernel, rfl⟩
  have hhits := eq_ok [] (x := ((similar "f" "ws" {} (.int 10)).on wordless).1) (by decide +kernel)
  have halone : Signals.VectorAlone ⟨2, 0, 0⟩ := by
    constructor <;> decide +kernel
  obtain ⟨-, hunasked, hsearch⟩ := @searchHybrid_falls_back wordless "f" "ws" .null {} (some ⟨2, 0, 0⟩) ⟨2, 0, 0⟩ 10
    hweights rfl (by decide) lettered_wordless
  obtain ⟨rs, sorted, hrs, hperm, hsorted, hretells⟩ := hsearch halone _ _ rfl _ hhits
  exact ⟨rs, _, sorted, hrs, hhits, by decide +kernel, hperm, hsorted, hretells,
    (hunasked (by decide +kernel)).2.1 (by decide +kernel) _⟩

theorem eq_ok_nil {α : Type} {x : Outcome (List α)} (h : x.toOption.map List.isEmpty = some true) : x = .ok [] := by
  cases x with
  | error f => cases h
  | ok xs =>
    cases xs with
    | nil => rfl
    | cons x xs => cases h

/-- A share can vanish though the weight is positive, an infinite weight leaves all scores
undefined, and where a weight is undefined signals without weight are asked. -/
theorem searchHybrid_shareless :
    (∃ hits all, ((similar "f" "ws" {} (.int 10)).on wordless).1 = .ok hits ∧ 0 < (1e-200 : Float) ∧
      Search.fuse hits [] [] (Signals.normalized ⟨1e-200, 1e200, 0⟩) = .ok all ∧
      all.map (·.id == .str "2") = [true] ∧
      ((searchHybrid "f" "ws" .null {} (some ⟨1e-200, 1e200, 0⟩)).on wordless).1 = .ok []) ∧
    (∃ hits rs, ((similar "f" "ws" {} (.int 10)).on wordless).1 = .ok hits ∧ hits.map (·.score.isNaN) = [false] ∧
      ((searchHybrid "f" "ws" .null {} (some ⟨1.0 / 0.0, 0, 0⟩)).on wordless).1 = .ok rs ∧
      rs.map (·.score.isNaN) = [true]) ∧
    ∃ rs, ((searchHybrid "f" "ws" .null {} (some ⟨0, 0.0 / 0.0, 0⟩)).on wordless).1 = .ok rs ∧
      rs.map (·.id == .str "2") = [true] ∧
      ((blend .null (some ⟨0, 0.0 / 0.0, 0⟩) (fun _ => pure []) (matching "f" "ws" {})
        (searchRelated "f" "ws" .null {})).on wordless).1 = .ok [] := by
  have hhits := eq_ok [] (x := ((similar "f" "ws" {} (.int 10)).on wordless).1) (by decide +kernel)
  refine ⟨⟨_, _, hhits, by decide +kernel, eq_ok [] (by decide +kernel), by decide +kernel, ?_⟩,
    ⟨_, _, hhits, by decide +kernel, eq_ok [] (by decide +kernel), by decide +kernel⟩,
    _, eq_ok [] (by decide +kernel), by decide +kernel, ?_⟩
  · exact eq_ok_nil (by decide +kernel)
  · exact eq_ok_nil (by decide +kernel)

end Atlas

end SourceAtlas
