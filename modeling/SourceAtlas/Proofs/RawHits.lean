import SourceAtlas.Proofs.Filtering
import SourceAtlas.Proofs.Shares

/-!
# Raw hits

What a search of vectors answers with, and what becomes of it when no other
signal counts. The points are different ones, the closest first, and those whose
score is undefined last. Sorting keeps those last, though it compares them with
nothing, and puts the others in order.
-/

namespace SourceAtlas

open Json (Value Key)

/-! ## Sorting what is nearly in order -/

theorem OrdersOn.le_congr {α : Type} {P : α → Prop} {same le : α → α → Bool}
    (h : OrdersOn P same le) {a a' b b' : α}
    (ha : P a) (ha' : P a') (hb : P b) (hb' : P b') (haa : same a a' = true) (hbb : same b b' = true) :
    le a b = le a' b' := by
  obtain ⟨haa, haa'⟩ := (h.same_iff a a' ha ha').1 haa
  obtain ⟨hbb, hbb'⟩ := (h.same_iff b b' hb hb').1 hbb
  rw [Bool.eq_iff_iff]
  constructor
  · intro hab
    exact h.trans a' a b' ha' ha hb' haa' (h.trans a b b' ha hb hb' hab hbb)
  · intro hab
    exact h.trans a a' b ha ha' hb haa (h.trans a' b' b ha' hb' hb hab hbb')

/-- Sorting compares what comes before with what comes after only. -/
theorem mergeSort_congr {α : Type} {le le' : α → α → Bool} {xs : List α}
    (htotal : ∀ a ∈ xs, ∀ b ∈ xs, le a b = true ∨ le b a = true)
    (htotal' : ∀ a ∈ xs, ∀ b ∈ xs, le' a b = true ∨ le' b a = true)
    (h : xs.Pairwise fun a b => le a b = le' a b) : xs.mergeSort le = xs.mergeSort le' := by
  -- with the places for ties the two relations agree either way round
  have hsame : ∀ a ∈ xs.zipIdx, ∀ b ∈ xs.zipIdx, List.zipIdxLE le a b = List.zipIdxLE le' a b := by
    rintro ⟨a, i⟩ ha ⟨b, j⟩ hb
    obtain ⟨hi, ha⟩ := List.mem_zipIdx' ha
    obtain ⟨hj, hb⟩ := List.mem_zipIdx' hb
    have hab := htotal a (ha ▸ List.getElem_mem hi) b (hb ▸ List.getElem_mem hj)
    have hab' := htotal' a (ha ▸ List.getElem_mem hi) b (hb ▸ List.getElem_mem hj)
    unfold List.zipIdxLE
    dsimp only
    rcases Nat.lt_trichotomy i j with hij | rfl | hij
    · have hle : le a b = le' a b := by
        rw [ha, hb]
        exact List.pairwise_iff_getElem.1 h i j hi hj hij
      rw [hle]
      simp [hij.le]
    · obtain rfl : a = b := ha.trans hb.symm
      simp [or_self_iff.1 hab, or_self_iff.1 hab']
    · have hle : le b a = le' b a := by
        rw [ha, hb]
        exact List.pairwise_iff_getElem.1 h j i hj hi hij
      rw [hle] at hab ⊢
      cases hba : le' b a with
      | true => simp [hij.not_ge]
      | false =>
        rw [hba] at hab hab'
        simp [hab.resolve_right Bool.false_ne_true, hab'.resolve_right Bool.false_ne_true]
  have hsorted := List.map_mergeSort (f := id) hsame
  rw [List.map_id, List.map_id] at hsorted
  rw [← @List.mergeSort_zipIdx α le, ← @List.mergeSort_zipIdx α le', hsorted]

theorem pairwise_of_forall₂ {α β : Type} {R : α → β → Prop} {S : α → α → Prop} {T : β → β → Prop}
    {as : List α} {bs : List β}
    (h : List.Forall₂ R as bs) (hpairs : as.Pairwise S) (hstep : ∀ a a' b b', R a b → R a' b' → S a a' → T b b') :
    bs.Pairwise T := by
  induction h with
  | nil => exact .nil
  | cons hab hall ih =>
    obtain ⟨hfirst, hrest⟩ := List.pairwise_cons.1 hpairs
    refine .cons (fun b' hb' => ?_) (ih hrest)
    obtain ⟨a', ha', hab'⟩ := exists_of_mem_right hall hb'
    exact hstep _ _ _ _ hab hab' (hfirst a' ha')

namespace Search

/-! ## What a search of vectors answers with -/

namespace VectorIndex

variable {x y : VectorIndex}

/-- Whether points are kept under their ids, and have a row in the table once at most. -/
structure Tabled (x : VectorIndex) : Prop where
  keyed : x.Keyed
  apart : ∀ t, x.table = some t → Distinct (t.rows.map Prod.fst)

theorem Tabled.of_table (h : x.Tabled) (hkeyed : y.Keyed) (htable : y.table = none ∨ y.table = x.table) :
    y.Tabled := by
  refine ⟨hkeyed, fun t ht => ?_⟩
  rcases htable with hnone | hsame
  · rw [hnone] at ht
    cases ht
  · exact h.apart t (hsame ▸ ht)

theorem Tabled.current (h : x.Tabled) {t : Table} (ht : x.current = .ok t) : Distinct (t.rows.map Prod.fst) := by
  unfold VectorIndex.current at ht
  cases htable : x.table with
  | some u =>
    rw [htable] at ht
    obtain rfl := Except.ok.inj ht
    exact h.apart u htable
  | none =>
    rw [htable] at ht
    by_cases hnone : x.points.entries = []
    · rw [hnone] at ht
      obtain rfl := Except.ok.inj ht
      exact List.Pairwise.nil
    · rw [← keys_of_rows ((layOut_ok_iff hnone).1 ht).2]
      exact x.points.distinct_keys

theorem Tabled.search (h : x.Tabled) (vector workspace : Value) (filters : Filters) (limit : Value) :
    ((VectorIndex.search vector workspace filters limit).on x).2.Tabled := by
  rw [on_search]
  split
  · exact h
  split
  · exact h
  · exact h
  split
  · exact h
  · rename_i t ht
    exact ⟨h.keyed, fun u hu => Option.some.inj hu ▸ h.current ht⟩

theorem table_after_load (data : Value) (x : VectorIndex) :
    ((load data).on x).2.table = none ∨ ((load data).on x).2.table = x.table := by
  have hkeeps : Act.Keeps (fun y => y.table = none ∨ y.table = x.table) (load data) := by
    refine .bind (.modify fun y hy => hy) fun _ => .bind (.ofOutcome _) fun points => ?_
    refine .bind (.ofOutcome _) fun all => .bind (.forM (fun v => ?_) all) fun _ =>
      .bind (.ofOutcome _) fun dimensions => ?_
    · exact .bind (.ofOutcome _) fun p => .of_bind fun id _ => .modify fun y hy => hy
    · have hdrop : Act.Keeps (fun y : VectorIndex => y.table = none ∨ y.table = x.table)
          (modify fun y => { y with table := none }) := .modify fun y _ => .inl rfl
      cases dimensions with
      | null => exact hdrop
      | _ => exact .bind (.modify fun y hy => hy) fun _ => hdrop
  exact hkeeps x (.inr rfl)

theorem Change.tabled (c : Change) : Act.Keeps Tabled c.act := by
  cases c with
  | put points =>
    intro x h
    obtain ⟨hkeyed, -, hok, herror⟩ := put_spec points x h.keyed
    refine h.of_table hkeyed ?_
    show ((VectorIndex.put points).on x).2.table = none ∨ ((VectorIndex.put points).on x).2.table = x.table
    cases hput : ((VectorIndex.put points).on x).1 with
    | ok u => exact .inl (hok hput)
    | error f => exact .inr (herror f hput)
  | delete p =>
    refine .discard fun x h => ?_
    obtain ⟨hkeyed, hzero, hsome⟩ := delete_spec rfl h.keyed
    refine h.of_table hkeyed ?_
    by_cases hn : (x.points.filter fun _ point => p point.payload).size = 0
    · exact .inr (hzero hn).2
    · exact .inl (hsome hn)
  | load data => exact fun x h => h.of_table (keeps_load data x h.keyed) (table_after_load data x)
  | search vector workspace filters limit => exact .discard fun x h => h.search vector workspace filters limit

theorem tabled_after (dimensions : Value) (cs : List Change) : (after dimensions cs).Tabled := by
  have hrun : ∀ (cs : List Change) (x : VectorIndex),
      x.Tabled → (cs.foldl (fun x c => (c.act.on x).2) x).Tabled := by
    intro cs
    induction cs with
    | nil => exact fun x hx => hx
    | cons c cs ih => exact fun x hx => ih _ (c.tabled x hx)
  exact hrun cs _ ⟨fun e he => absurd he List.not_mem_nil, fun t ht => (by cases ht)⟩

def Shows (x : VectorIndex) (r : Key × Float) (hit : VectorHit) : Prop :=
  ∃ p, x.points.get? r.1 = some p ∧ hit = ⟨p.id, r.2, p.payload⟩

theorem Shows.key (hx : x.Keyed) {r : Key × Float} {hit : VectorHit} (h : x.Shows r hit) {id : Key}
    (hid : asKey hit.id = .ok id) : (r.1 == id) = true := by
  obtain ⟨p, hp, rfl⟩ := h
  obtain ⟨k, hk, hkr⟩ := OrderedMap.mem_of_get? hp
  obtain ⟨id', hid', hkid⟩ := hx _ hk
  obtain rfl := Except.ok.inj (hid.symm.trans hid')
  exact BEq.trans (BEq.symm hkr) hkid

theorem Shows.score {r : Key × Float} {hit : VectorHit} (h : x.Shows r hit) : hit.score = r.2 := by
  obtain ⟨p, -, rfl⟩ := h
  rfl

def Follows (u v : VectorHit) : Prop :=
  closer u.score v.score = true ∧ ∀ i j, asKey u.id = .ok i → asKey v.id = .ok j → (i == j) = false

theorem shown_of_nearest {ranked : List (Key × Float)} {workspace : Value} {filters : Filters} {n : Nat}
    {hits : List VectorHit} (h : x.nearest ranked workspace filters n = .ok hits) :
    hits.length ≤ n ∧ ∃ taken, taken.Sublist ranked ∧ List.Forall₂ x.Shows taken hits := by
  induction ranked generalizing n hits with
  | nil =>
    unfold nearest at h
    obtain rfl := pure_eq_ok.1 h
    exact ⟨Nat.zero_le n, [], List.Sublist.refl _, .nil⟩
  | cons r ranked ih =>
    obtain ⟨id, score⟩ := r
    cases n with
    | zero =>
      unfold nearest at h
      obtain rfl := pure_eq_ok.1 h
      exact ⟨Nat.le_refl 0, [], List.nil_sublist _, .nil⟩
    | succ n =>
      unfold nearest at h
      cases hp : x.points.get? id with
      | none =>
        rw [hp] at h
        cases h
      | some p =>
        rw [hp] at h
        obtain ⟨passes, -, h⟩ := bind_eq_ok.1 h
        cases passes with
        | false =>
          obtain ⟨hlength, taken, htaken, hshown⟩ := ih h
          exact ⟨hlength, taken, htaken.cons _, hshown⟩
        | true =>
          obtain ⟨rest, hrest, h⟩ := bind_eq_ok.1 h
          obtain rfl := pure_eq_ok.1 h
          obtain ⟨hlength, taken, htaken, hshown⟩ := ih hrest
          exact ⟨Nat.succ_le_succ hlength, _, htaken.cons_cons _, .cons ⟨p, hp, rfl⟩ hshown⟩

theorem pairwise_rankedRows (t : Table) (query : List Float) :
    (rankedRows t query).Pairwise fun r s => closer r.2 s.2 = true := by
  apply List.pairwise_mergeSort
  · exact fun r s t => closer_trans r.2 s.2 t.2
  · exact fun r s => closer_total r.2 s.2

/-- A search has hits of different points, the closest first. -/
theorem follows_of_search (h : x.Tabled) {vector workspace : Value} {filters : Filters} {limit : Value} {n : Nat}
    (hlimit : asCount x.points.size limit = .ok n) {hits : List VectorHit}
    (hsearch : ((search vector workspace filters limit).on x).1 = .ok hits) :
    hits.length ≤ n ∧ hits.Pairwise Follows := by
  have hnone : ∀ hits : List VectorHit, (.ok [] : Outcome (List VectorHit)) = .ok hits →
      hits.length ≤ n ∧ hits.Pairwise Follows := by
    intro hits h
    obtain rfl := Except.ok.inj h
    exact ⟨Nat.zero_le n, .nil⟩
  rw [on_search, hlimit] at hsearch
  split at hsearch
  · exact hnone hits hsearch
  cases n with
  | zero => exact hnone hits hsearch
  | succ n =>
    dsimp only at hsearch
    cases ht : x.current with
    | error f =>
      rw [ht] at hsearch
      cases hsearch
    | ok t =>
      rw [ht] at hsearch
      obtain ⟨query, -, hnearest⟩ := bind_eq_ok.1 hsearch
      obtain ⟨hlength, taken, htaken, hshown⟩ := shown_of_nearest hnearest
      have hrows := (rankedRows_perm t query).map Prod.fst
      rw [List.map_map] at hrows
      have hapart := List.pairwise_map.1 ((h.current ht).perm hrows.symm)
      refine ⟨hlength, pairwise_of_forall₂ hshown (((pairwise_rankedRows t query).and hapart).sublist htaken) ?_⟩
      rintro r s u v hu hv ⟨hclosest, hne⟩
      refine ⟨by rwa [hu.score, hv.score], fun i j hi hj => Bool.eq_false_iff.2 fun hij => ?_⟩
      have hsame := BEq.trans (hu.key h.keyed hi) (BEq.trans hij (BEq.symm (hv.key h.keyed hj)))
      exact Bool.false_ne_true (hne.symm.trans hsame)

end VectorIndex

/-! ## The hits as a signal -/

structure Raw (hits : List (Hit Float)) : Prop where
  apart : Apart hits
  closest_first : hits.Pairwise fun a b => VectorIndex.closer a.score b.score = true
  records : ∀ hit ∈ hits, ∃ r, hit.payload = .obj r

/-! ## Fusing one signal -/

section
variable {α : Type} [Scalar α] {hits : List (Hit α)}

theorem keys_merge_new {m : Merged α} {id : Key} (h : ∀ k ∈ m.keys, (k == id) = false) (payload : Value)
    (f : Signals α → Signals α) : (merge m id payload f).keys = m.keys ++ [id] := by
  have hnew : ¬ (m.entries.any (·.1 == id)) = true := by
    rw [List.any_eq_true]
    rintro ⟨e, he, hid⟩
    exact Bool.false_ne_true ((h e.1 (List.mem_map_of_mem he)).symm.trans hid)
  unfold merge OrderedMap.update OrderedMap.insert
  rw [dif_neg hnew, OrderedMap.keys, OrderedMap.keys, List.map_append]
  rfl

/-- Ids that are new are added in their order. -/
theorem keys_foldl_merge {m : Merged α} (h : Distinct (m.keys ++ hits.map Hit.id))
    (f : Hit α → Signals α → Signals α) :
    (hits.foldl (fun m hit => merge m hit.id hit.payload (f hit)) m).keys = m.keys ++ hits.map Hit.id := by
  induction hits generalizing m with
  | nil => rw [List.foldl_nil, List.map_nil, List.append_nil]
  | cons hit hits ih =>
    have hkeys : (merge m hit.id hit.payload (f hit)).keys = m.keys ++ [hit.id] :=
      keys_merge_new (fun k hk => (List.pairwise_append.1 h).2.2 k hk hit.id List.mem_cons_self) _ _
    rw [List.map_cons, List.append_cons, ← hkeys] at h ⊢
    rw [List.foldl_cons, ih h]

/-- Hits of one signal are ranked in their order. -/
theorem fuse_alone (h : Apart hits) (htexts : ∀ hit ∈ hits, hit.id.IsText) (w : Signals α) :
    fuse hits [] [] w = .ok (byScore (hits.map fun hit => fusedAs hits [] [] w hit.id)) := by
  have hids : ∀ k ∈ idsOf hits [] [], k.IsText := by
    simpa [idsOf] using htexts
  obtain ⟨m, hm, hentry⟩ : ∃ m, merged hits [] [] = .ok m ∧
      ∀ k, entryOf m k = (signalsOf hits [] [] k, firstPayload hits [] k) :=
    merged_ok h List.Pairwise.nil fun r hr => absurd hr List.not_mem_nil
  have hkeys : m.keys = hits.map Hit.id := by
    obtain rfl := Except.ok.inj hm
    have hnew : Distinct ((.empty : Merged α).keys ++ hits.map Hit.id) := h
    exact keys_foldl_merge hnew _
  rw [fuse_of_merged hids hm hentry w, hkeys, List.map_map]
  rfl

end

/-! ## The order of raw hits -/

section
variable {x x' y y' : Float} {j k : Key}

theorem beq_undefined (h : x.isNaN = true ∨ y.isNaN = true) : (x == y) = false := by
  show x.toModel.unpack.beq y.toModel.unpack = false
  rcases h with h | h
  · rw [VectorIndex.isNaN_iff.1 h]
    rfl
  · rw [VectorIndex.isNaN_iff.1 h]
    cases x.toModel.unpack <;> rfl

theorem lt_undefined (h : x.isNaN = true ∨ y.isNaN = true) : Scalar.lt x y = false := by
  rw [lt_eq]
  rcases h with h | h
  · rw [VectorIndex.isNaN_iff.1 h]
    rfl
  · rw [VectorIndex.isNaN_iff.1 h]
    cases x.toModel.unpack <;> rfl

/-- What is undefined comes both before and after everything. -/
theorem ranksBefore_undefined (h : x.isNaN = true ∨ y.isNaN = true) (j k : Key) :
    ranksBefore (x, j) (y, k) = true := by
  simp [ranksBefore, beq_undefined h, lt_undefined h]

theorem ranksBefore_total (hj : j.Defined) (hk : k.Defined) (x y : Float) :
    ranksBefore (x, j) (y, k) = true ∨ ranksBefore (y, k) (x, j) = true := by
  by_cases h : x.isNaN = true ∨ y.isNaN = true
  · exact .inl (ranksBefore_undefined h j k)
  · rw [not_or, Bool.not_eq_true, Bool.not_eq_true] at h
    exact (orders_ranksBefore defined_orders).total (x, j) (y, k) ⟨h.1, hj⟩ ⟨h.2, hk⟩

theorem Same.isNaN_eq (h : Same x y) : x.isNaN = y.isNaN := by
  rcases h with h | ⟨hx, hy⟩
  · by_contra hne
    have hundefined : x.isNaN = true ∨ y.isNaN = true := by
      revert hne
      cases x.isNaN <;> cases y.isNaN <;> simp
    rw [beq_undefined hundefined] at h
    cases h
  · rw [hx, hy]

theorem Same.ranksBefore_eq (hx : Same x x') (hy : Same y y') (j k : Key) :
    ranksBefore (x, j) (y, k) = ranksBefore (x', j) (y', k) := by
  by_cases h : x.isNaN = true ∨ y.isNaN = true
  · have h' : x'.isNaN = true ∨ y'.isNaN = true := by rwa [← hx.isNaN_eq, ← hy.isNaN_eq]
    rw [ranksBefore_undefined h, ranksBefore_undefined h']
  · rw [not_or, Bool.not_eq_true, Bool.not_eq_true] at h
    obtain ⟨hnx, hny⟩ := h
    have hnx' : x'.isNaN = false := hx.isNaN_eq ▸ hnx
    have hny' : y'.isNaN = false := hy.isNaN_eq ▸ hny
    have hxx : (x == x') = true := hx.resolve_right fun h => Bool.false_ne_true (hnx.symm.trans h.1)
    have hyy : (y == y') = true := hy.resolve_right fun h => Bool.false_ne_true (hny.symm.trans h.1)
    have hle := defined_orders.le_congr hnx hnx' hny hny' hxx hyy
    have hge := defined_orders.le_congr hny hny' hnx hnx' hyy hxx
    have hbeq : (x == y) = (x' == y') := by
      rw [Bool.eq_iff_iff, defined_orders.same_iff x y hnx hny, defined_orders.same_iff x' y' hnx' hny', hle, hge]
    unfold ranksBefore
    dsimp only
    rw [hbeq, hle]

end

/-- Higher scores first, then by id, and what is undefined last. -/
def Before (a b : Hit Float) : Prop :=
  b.score.isNaN = true ∨ a.score.isNaN = false ∧
  (b.score < a.score ∨ (a.score == b.score) = true ∧ a.id.le b.id = true)

def before (a b : Hit Float) : Bool :=
  b.score.isNaN || !a.score.isNaN && ranksBefore (a.score, a.id) (b.score, b.id)

theorem before_iff (a b : Hit Float) : before a b = true ↔ (b.score.isNaN = false → a.score.isNaN = false ∧
    ranksBefore (a.score, a.id) (b.score, b.id) = true) := by
  unfold before
  cases a.score.isNaN <;> cases b.score.isNaN <;> simp

theorem before_orders : OrdersOn (fun hit : Hit Float => hit.id.Defined)
    (fun a b => before a b && before b a) before where
  total a b ha hb := by
    rw [before_iff, before_iff]
    cases hna : a.score.isNaN with
    | true => exact .inr fun h => (by cases h)
    | false =>
      cases hnb : b.score.isNaN with
      | true => exact .inl fun h => (by cases h)
      | false => exact (ranksBefore_total ha hb a.score b.score).imp (fun h _ => ⟨rfl, h⟩) fun h _ => ⟨rfl, h⟩
  trans a b c ha hb hc hab hbc := by
    rw [before_iff] at *
    intro hnc
    obtain ⟨hnb, hbc⟩ := hbc hnc
    obtain ⟨hna, hab⟩ := hab hnb
    exact ⟨hna, (orders_ranksBefore defined_orders).trans (a.score, a.id) (b.score, b.id) (c.score, c.id) ⟨hna, ha⟩
      ⟨hnb, hb⟩ ⟨hnc, hc⟩ hab hbc⟩
  same_iff a b _ _ := Bool.and_eq_true_iff

theorem before_of_closer {a b : Hit Float} (h : VectorIndex.closer a.score b.score = true) :
    before a b = ranksBefore (a.score, a.id) (b.score, b.id) := by
  unfold before
  cases hnb : b.score.isNaN with
  | true => rw [ranksBefore_undefined (.inr hnb), Bool.true_or]
  | false =>
    have hna : a.score.isNaN = false := by
      rw [VectorIndex.closer_iff] at h
      exact isNaN_eq_false_iff.2 (h (isNaN_eq_false_iff.1 hnb)).1
    rw [hna]
    rfl

theorem Before.of_before {a b : Hit Float} (h : before a b = true) : Before a b := by
  rw [before_iff] at h
  cases hnb : b.score.isNaN with
  | true => exact .inl hnb
  | false =>
    obtain ⟨hna, hab⟩ := h hnb
    have hcases := above_or_before defined_orders hna hnb hab
    exact .inr ⟨hna, hcases.imp of_decide_eq_true id⟩

structure Retells (r : Fused Float) (hit : Hit Float) : Prop where
  id_eq : r.id = hit.id
  score_same : Same r.score hit.score
  payload_eq : r.payload = hit.payload

namespace Raw

variable {hits : List (Hit Float)} {w : Signals Float} (h : Raw hits)
  (hscore : ∀ score, Same (w.vector * score + w.fulltext * ofNat 0 + w.graph * ofNat 0) score)
include h hscore

theorem retells {hit : Hit Float} (hhit : hit ∈ hits) : Retells (fusedAs hits [] [] w hit.id) hit := by
  have hfound : hitFor hits hit.id = some hit := (hitFor_eq_some_iff h.apart).2 ⟨hhit, BEq.rfl⟩
  obtain ⟨r, hr⟩ := h.records hit hhit
  refine ⟨rfl, ?_, ?_⟩
  · have hvector : vectorScore hits hit.id = hit.score := by
      rw [vectorScore, hfound]
      rfl
    show Same (w.vector * vectorScore hits hit.id + w.fulltext * ofNat 0 + w.graph * ofNat 0) hit.score
    rw [hvector]
    exact hscore hit.score
  · show firstPayload hits [] hit.id = hit.payload
    rw [firstPayload, hfound]
    show ([hit.payload].find? Value.truthy).getD (.obj []) = hit.payload
    rw [hr]
    cases r <;> rfl

/-- Where the vectors alone count, the hits are sorted and nothing else. -/
theorem fuse_sorted (htexts : ∀ hit ∈ hits, hit.id.IsText) : ∃ rs sorted, fuse hits [] [] w = .ok rs ∧
    sorted.Perm hits ∧ sorted.Pairwise Before ∧ List.Forall₂ Retells rs sorted := by
  have hdefined : ∀ hit ∈ hits, hit.id.Defined := fun hit hhit => (htexts hit hhit).defined
  have hsorted : hits.mergeSort (fun a b => ranksBefore ((fusedAs hits [] [] w a.id).score, a.id)
      ((fusedAs hits [] [] w b.id).score, b.id)) = hits.mergeSort before := by
    apply mergeSort_congr
    · exact fun a ha b hb => ranksBefore_total (hdefined a ha) (hdefined b hb) _ _
    · exact fun a ha b hb => before_orders.total a b (hdefined a ha) (hdefined b hb)
    · refine h.closest_first.imp_of_mem fun {a b} ha hb hab => ?_
      rw [before_of_closer hab]
      exact (h.retells hscore ha).score_same.ranksBefore_eq (h.retells hscore hb).score_same _ _
  have hmap : byScore (hits.map fun hit => fusedAs hits [] [] w hit.id) =
      (hits.mergeSort before).map fun hit => fusedAs hits [] [] w hit.id := by
    rw [← hsorted, byScore, List.map_mergeSort]
    exact fun a _ b _ => rfl
  refine ⟨_, hits.mergeSort before, fuse_alone h.apart htexts w, List.mergeSort_perm _ _, ?_, ?_⟩
  · exact (before_orders.pairwise_mergeSort hdefined).imp .of_before
  · rw [hmap, List.forall₂_map_left_iff, List.forall₂_same]
    exact fun hit hhit => h.retells hscore (List.mem_mergeSort.1 hhit)

end Raw

end Search

namespace Atlas

variable {a : Atlas} {query workspace limit : Value} {filters : Search.Filters}

theorem asCount_of_asInt {n : Int} (h : asInt limit = .ok n) (bound : Nat) : asCount bound limit = .ok n.toNat := by
  cases limit with
  | int m =>
    obtain rfl := pure_eq_ok.1 h
    exact asCount_int bound m
  | bool b =>
    obtain rfl := pure_eq_ok.1 h
    cases b <;> rfl
  | _ => cases h

theorem raw_of_similar (h : a.vectors.Tabled) {n : Int} (hlimit : asInt limit = .ok n)
    {hits : List (Search.Hit Float)}
    (hsimilar : ((similar query workspace filters limit).on a).1 = .ok hits) :
    hits.length ≤ n.toNat ∧ Search.Raw hits := by
  have hsimilar := eq_of_fst hsimilar
  generalize ((similar query workspace filters limit).on a).2 = b at hsimilar
  unfold similar at hsimilar
  obtain ⟨c, _, hget, hembed⟩ := Act.bind_ok hsimilar
  cases hget
  obtain ⟨e, m, hvector, hsearch⟩ := Act.bind_ok hembed
  obtain ⟨-, rfl⟩ := Act.of_ofOutcome hvector
  obtain ⟨found, n, hfound, hids⟩ := Act.bind_ok hsearch
  obtain ⟨_, m, hserving, hin⟩ := Act.bind_ok hfound
  rw [on_serving] at hserving
  obtain ⟨-, rfl⟩ := Prod.mk.inj hserving
  rw [inVectors, Act.on_within] at hin
  obtain ⟨hin, -⟩ := Prod.mk.inj hin
  obtain ⟨-, hall⟩ := Act.of_mapM reads_identified hids
  obtain ⟨hlength, hfollows⟩ := Search.VectorIndex.follows_of_search h (asCount_of_asInt hlimit _) hin
  have hidentified : List.Forall₂ (fun (v : Search.VectorHit) (hit : Search.Hit Float) =>
      asKey v.id = .ok hit.id ∧ hit.score = v.score ∧ hit.payload = .obj v.payload) found hits := by
    refine hall.imp fun v hit hon => ?_
    obtain ⟨id, _, hid, hhit⟩ := Act.bind_ok hon
    rw [Act.on_liftOutcome] at hid
    obtain rfl := Except.ok.inj (Prod.mk.inj hhit).1
    exact ⟨(Prod.mk.inj hid).1, rfl, rfl⟩
  refine ⟨hidentified.length_eq ▸ hlength, List.pairwise_map.2 ?_, ?_, fun hit hhit => ?_⟩
  · refine pairwise_of_forall₂ hidentified hfollows ?_
    rintro u v hit hit' ⟨hu, -⟩ ⟨hv, -⟩ ⟨-, hne⟩
    exact hne _ _ hu hv
  · refine pairwise_of_forall₂ hidentified hfollows ?_
    rintro u v hit hit' ⟨-, hu, -⟩ ⟨-, hv, -⟩ ⟨hclosest, -⟩
    rwa [hu, hv]
  · obtain ⟨v, -, -, -, hpayload⟩ := exists_of_mem_right hidentified hhit
    exact ⟨_, hpayload⟩

end Atlas

end SourceAtlas
