import SourceAtlas.Proofs.Lookups
import SourceAtlas.Proofs.Signals

/-!
# What is fused

The three loops that fuse signals come to this: each id that occurs has one
score in each signal, which depends on nothing but the hits of that id and on
the largest full-text score.
-/

namespace SourceAtlas

open Json (Value Key)

theorem foldlM_ok {α β : Type} {f : β → α → Outcome β} {g : β → α → β} {as : List α}
    (h : ∀ b, ∀ a ∈ as, f b a = .ok (g b a))
    (b : β) : as.foldlM f b = .ok (as.foldl g b) := by
  induction as generalizing b with
  | nil => rfl
  | cons a as ih =>
    rw [List.foldlM_cons, h b a List.mem_cons_self]
    exact ih (fun b c hc => h b c (List.mem_cons_of_mem _ hc)) _

namespace Search

/-! ## The largest of some numbers -/

section
variable {α : Type} [Scalar α] {P : α → Prop} {x y s : α} {xs ys : List α}

def Largest (x : α) (xs : List α) : Prop := x ∈ xs ∧ ∀ y ∈ xs, Scalar.lt x y = false

theorem Largest.congr (h : Largest x xs) (hmem : ∀ y, y ∈ ys ↔ y ∈ xs) : Largest x ys :=
  ⟨(hmem x).2 h.1, fun y hy => h.2 y ((hmem y).1 hy)⟩

theorem larger_of (hs : P s) (hx : P x) : P (larger s x) := by
  unfold larger
  split
  · exact hx
  · exact hs

theorem foldl_larger_of (hs : P s) (hxs : ∀ x ∈ xs, P x) : P (xs.foldl larger s) := by
  induction xs generalizing s with
  | nil => exact hs
  | cons x xs ih =>
    obtain ⟨hx, hxs⟩ := List.forall_mem_cons.1 hxs
    exact ih (larger_of hs hx) hxs

section
variable (h : OrdersOn P (· == ·) fun x y : α => !Scalar.lt x y)
include h

theorem Largest.beq (hx : Largest x xs) (hy : Largest y xs) (hxs : ∀ z ∈ xs, P z) : (x == y) = true := by
  rw [h.same_iff x y (hxs x hx.1) (hxs y hy.1), hx.2 y hy.1, hy.2 x hx.1]
  exact ⟨rfl, rfl⟩

theorem lt_irrefl (hx : P x) : Scalar.lt x x = false := by
  simpa using h.total x x hx hx

theorem not_lt_larger (hs : P s) (hx : P x) :
    Scalar.lt (larger s x) s = false ∧ Scalar.lt (larger s x) x = false := by
  unfold larger
  by_cases hlt : Scalar.lt s x = true
  · have htotal := h.total s x hs hx
    simp [hlt] at htotal
    simp [hlt, htotal, lt_irrefl h hx]
  · simp [hlt, lt_irrefl h hs]

theorem largest_foldl (hs : P s) (hxs : ∀ x ∈ xs, P x) : Largest (xs.foldl larger s) (s :: xs) := by
  induction xs generalizing s with
  | nil => exact ⟨List.mem_cons_self, by simpa using lt_irrefl h hs⟩
  | cons x xs ih =>
    obtain ⟨hx, hxs⟩ := List.forall_mem_cons.1 hxs
    have hfirst := larger_of hs hx
    obtain ⟨hmem, hbound⟩ := ih hfirst hxs
    have hlast := foldl_larger_of hfirst hxs
    -- what comes last is not below the first choice, so not below what that was chosen from
    have hstart := hbound _ List.mem_cons_self
    obtain ⟨hs', hx'⟩ := not_lt_larger h hs hx
    have htrans : ∀ y, P y → Scalar.lt (larger s x) y = false →
        Scalar.lt (xs.foldl larger (larger s x)) y = false := by
      intro y hy hle
      simpa using h.trans _ _ y hlast hfirst hy (by simpa using hstart) (by simpa using hle)
    constructor
    · rcases List.mem_cons.1 hmem with heq | hmem
      · rw [List.foldl_cons, heq]
        unfold larger
        split <;> simp
      · simp [hmem]
    · intro y hy
      rcases List.mem_cons.1 hy with rfl | hy
      · exact htrans y hs hs'
      rcases List.mem_cons.1 hy with rfl | hy
      · exact htrans y hx hx'
      · exact hbound y (List.mem_cons_of_mem _ hy)

/-- Zero may have two signs, so more is said of what is not above the start. -/
theorem foldl_larger_eq_or (hs : P s) (hxs : ∀ x ∈ xs, P x) :
    xs.foldl larger s = s ∨ Scalar.lt s (xs.foldl larger s) = true := by
  induction xs generalizing s with
  | nil => exact .inl rfl
  | cons x xs ih =>
    obtain ⟨hx, hxs⟩ := List.forall_mem_cons.1 hxs
    rw [List.foldl_cons]
    by_cases hlt : Scalar.lt s x = true
    · have hlarger : larger s x = x := if_pos hlt
      rw [hlarger]
      right
      have hr := foldl_larger_of hx hxs
      have hbound := (largest_foldl h hx hxs).2 x List.mem_cons_self
      by_contra hnot
      have hle := h.trans s _ x hs hr hx (by simpa using hnot) (by simpa using hbound)
      simp [hlt] at hle
    · have hlarger : larger s x = s := if_neg hlt
      rw [hlarger]
      exact ih hs hxs

end

end

/-! ## The scores of an id -/

section
variable {α : Type}

def hitFor (hits : List (Hit α)) (k : Key) : Option (Hit α) := hits.find? (·.id == k)

def idsOf (vector fulltext : List (Hit α)) (related : List (Related α)) : List Key :=
  vector.map Hit.id ++ fulltext.map Hit.id ++ related.map Related.id

/-- The first payload with content, that of the vector hit before that of the full-text hit. -/
def firstPayload (vector fulltext : List (Hit α)) (k : Key) : Value :=
  (([hitFor vector k, hitFor fulltext k].filterMap (·.map Hit.payload)).find? Value.truthy).getD (.obj [])

abbrev Apart (hits : List (Hit α)) : Prop := Distinct (hits.map Hit.id)

theorem filter_eq_hitFor {hits : List (Hit α)} (h : Apart hits) (k : Key) :
    hits.filter (·.id == k) = (hitFor hits k).toList := by
  unfold hitFor
  induction hits with
  | nil => rfl
  | cons hit hits ih =>
    obtain ⟨hfirst, hrest⟩ := List.pairwise_cons.1 h
    rw [List.filter_cons, List.find?_cons]
    by_cases hk : (hit.id == k) = true
    · have hnone : hits.filter (·.id == k) = [] := by
        refine List.filter_eq_nil_iff.2 fun other hother hsame => ?_
        have hne := hfirst other.id (List.mem_map_of_mem hother)
        exact Bool.false_ne_true (hne.symm.trans (BEq.trans hk (BEq.symm hsame)))
      simp [hk, hnone]
    · simp [hk, ih hrest]

theorem hitFor_eq_some_iff {hits : List (Hit α)} (h : Apart hits) {k : Key} {hit : Hit α} :
    hitFor hits k = some hit ↔ hit ∈ hits ∧ (hit.id == k) = true := by
  rw [← Option.mem_toList, ← filter_eq_hitFor h, List.mem_filter]

variable [Scalar α]

def vectorScore (hits : List (Hit α)) (k : Key) : α := ((hitFor hits k).map Hit.score).getD (ofNat 0)

def fulltextScore (hits : List (Hit α)) (k : Key) : α :=
  ((hitFor hits k).map (·.score / ceiling hits)).getD (ofNat 0)

def nearness (r : Related α) : α := ofNat 1 / (r.distance + ofNat 1)

def graphScore (related : List (Related α)) (k : Key) : α :=
  ((related.filter (·.id == k)).map nearness).foldl larger (ofNat 0)

def signalsOf (vector fulltext : List (Hit α)) (related : List (Related α)) (k : Key) : Signals α :=
  ⟨vectorScore vector k, fulltextScore fulltext k, graphScore related k⟩

def fusedAs (vector fulltext : List (Hit α)) (related : List (Related α)) (w : Signals α) (k : Key) : Fused α :=
  weigh w (k, signalsOf vector fulltext related k, firstPayload vector fulltext k)

def byScore (rs : List (Fused α)) : List (Fused α) :=
  rs.mergeSort fun a b => ranksBefore (a.score, a.id) (b.score, b.id)

theorem byScore_perm (rs : List (Fused α)) : (byScore rs).Perm rs := List.mergeSort_perm _ _

/-! ## What is merged -/

def entryOf (m : Merged α) (k : Key) : Signals α × Value := (m.get? k).getD (Signals.zero, .obj [])

def learn (payload : Value) (f : Signals α → Signals α) (e : Signals α × Value) : Signals α × Value :=
  (f e.1, if payload.truthy && !e.2.truthy then payload else e.2)

theorem entryOf_merge (m : Merged α) (id : Key) (payload : Value) (f : Signals α → Signals α) (k : Key) :
    entryOf (merge m id payload f) k = if (id == k) = true then learn payload f (entryOf m k) else entryOf m k := by
  rw [entryOf, merge, OrderedMap.get?_update]
  split <;> rfl

theorem entryOf_foldl {β : Type} {id : β → Key} {payload : β → Value} {f : β → Signals α → Signals α} (bs : List β)
    (m : Merged α) (k : Key) :
    entryOf (bs.foldl (fun m b => merge m (id b) (payload b) (f b)) m) k =
      (bs.filter (id · == k)).foldl (fun e b => learn (payload b) (f b) e) (entryOf m k) := by
  induction bs generalizing m with
  | nil => rfl
  | cons b bs ih =>
    rw [List.foldl_cons, ih, entryOf_merge, List.filter_cons]
    by_cases hk : (id b == k) = true
    · rw [if_pos hk, if_pos hk, List.foldl_cons]
    · rw [if_neg hk, if_neg hk]

/-- Where ids are told once, an id has what its hit says. -/
theorem entryOf_hits {hits : List (Hit α)} (h : Apart hits) (f : Hit α → Signals α → Signals α)
    (m : Merged α) (k : Key) :
    entryOf (hits.foldl (fun m hit => merge m hit.id hit.payload (f hit)) m) k =
      ((hitFor hits k).map fun hit => learn hit.payload (f hit) (entryOf m k)).getD (entryOf m k) := by
  rw [entryOf_foldl hits, filter_eq_hitFor h]
  cases hitFor hits k <;> rfl

theorem learn_graph (cs : List α) (e : Signals α × Value) :
    cs.foldl (fun e c => learn .null (fun s => { s with graph := larger s.graph c }) e) e =
      ({ e.1 with graph := cs.foldl larger e.1.graph }, e.2) := by
  induction cs generalizing e with
  | nil => rfl
  | cons c cs ih =>
    rw [List.foldl_cons, ih]
    rfl

theorem merge_near (m : Merged α) {r : Related α} (h : isZero (r.distance + ofNat 1) = false) :
    (do
      let c ← closeness r.distance
      pure (merge m r.id .null fun s => { s with graph := larger s.graph c }) : Outcome (Merged α)) =
        .ok (merge m r.id .null fun s => { s with graph := larger s.graph (nearness r) }) := by
  rw [closeness, h]
  rfl

variable {vector fulltext : List (Hit α)} {related : List (Related α)} {w : Signals α}

section
variable (hvector : Apart vector) (hfulltext : Apart fulltext)
include hvector hfulltext

theorem entryOf_both (k : Key) :
    entryOf (fulltext.foldl (fun m h => merge m h.id h.payload fun s =>
      { s with fulltext := h.score / ceiling fulltext })
      (vector.foldl (fun m h => merge m h.id h.payload fun s => { s with vector := h.score }) .empty)) k =
        (⟨vectorScore vector k, fulltextScore fulltext k, ofNat 0⟩, firstPayload vector fulltext k) := by
  have hempty : entryOf (.empty : Merged α) k = (Signals.zero, .obj []) := rfl
  have hblank : Value.truthy (.obj []) = false := rfl
  rw [entryOf_hits hfulltext, entryOf_hits hvector, hempty]
  unfold vectorScore fulltextScore firstPayload
  cases hitFor vector k with
  | none =>
    cases hitFor fulltext k with
    | none => rfl
    | some t => cases ht : t.payload.truthy <;> simp [learn, ht, hblank, Signals.zero]
  | some v =>
    cases hitFor fulltext k with
    | none => cases hv : v.payload.truthy <;> simp [learn, hv, hblank, Signals.zero]
    | some t =>
      cases hv : v.payload.truthy <;> cases ht : t.payload.truthy <;> simp [learn, hv, ht, hblank, Signals.zero]

variable (hrelated : ∀ r ∈ related, isZero (r.distance + ofNat 1) = false)
include hrelated

theorem merged_ok : ∃ m, merged vector fulltext related = .ok m ∧
    ∀ k, entryOf m k = (signalsOf vector fulltext related k, firstPayload vector fulltext k) := by
  refine ⟨_, foldlM_ok (fun m r hr => merge_near m (hrelated r hr)) _, ?_⟩
  intro k
  have hgraph := fun e => learn_graph ((related.filter (·.id == k)).map nearness) e
  simp only [List.foldl_map] at hgraph
  rw [entryOf_foldl related, hgraph, entryOf_both hvector hfulltext, signalsOf, graphScore, List.foldl_map]

end

section
variable (htexts : ∀ k ∈ idsOf vector fulltext related, k.IsText)
include htexts

omit [Scalar α] in
theorem mem_idsOf_iff {k : Key} : k ∈ idsOf vector fulltext related ↔
    (∃ hit ∈ vector, (hit.id == k) = true) ∨ (∃ hit ∈ fulltext, (hit.id == k) = true) ∨ ∃ r ∈ related,
      (r.id == k) = true := by
  have hsame : (∃ j ∈ idsOf vector fulltext related, (j == k) = true) ↔ k ∈ idsOf vector fulltext related := by
    refine ⟨fun ⟨j, hj, hjk⟩ => ?_, fun hk => ⟨k, hk, BEq.rfl⟩⟩
    rwa [(htexts j hj).eq_of_beq (BEq.symm hjk)]
  rw [← hsame]
  simp only [idsOf, List.mem_append, List.mem_map, or_assoc]
  grind

theorem isSome_merged_iff {m : Merged α} (hm : merged vector fulltext related = .ok m) (k : Key) :
    (m.get? k).isSome = true ↔ k ∈ idsOf vector fulltext related := by
  have hnone : ((OrderedMap.empty : Merged α).get? k).isSome = false := rfl
  rw [mem_idsOf_iff htexts, isSome_foldlM_merge k hm, isSome_foldl_merge k fun m b =>
    isSome_merge m b.id b.payload _ k,
    isSome_foldl_merge k fun m b => isSome_merge m b.id b.payload _ k, hnone]
  simp only [Bool.false_eq_true, or_false]
  rw [or_left_comm, or_comm (a := ∃ r ∈ related, _), or_left_comm]

theorem mem_keys_merged_iff {m : Merged α} (hm : merged vector fulltext related = .ok m) (k : Key) :
    k ∈ m.keys ↔ k ∈ idsOf vector fulltext related := by
  rw [← isSome_merged_iff htexts hm, ← OrderedMap.contains_keys, List.contains_iff_exists_mem_beq]
  constructor
  · intro hk
    exact ⟨k, hk, BEq.rfl⟩
  · rintro ⟨j, hj, hkj⟩
    have hfound : (m.get? j).isSome = true := by
      rw [← OrderedMap.contains_keys]
      exact contains_of_mem hj
    rwa [(htexts j ((isSome_merged_iff htexts hm j).1 hfound)).eq_of_beq hkj]

theorem ranked_fusedAs {ids : List Key} (hids : ∀ k ∈ ids, k ∈ idsOf vector fulltext related) (w : Signals α) :
    ranked (fun r => (r.score, r.id)) (ids.map (fusedAs vector fulltext related w)) =
      .ok (byScore (ids.map (fusedAs vector fulltext related w))) := by
  apply sortChecked_ok
  intro a ha b hb
  obtain ⟨j, hj, rfl⟩ := List.mem_map.1 ha
  obtain ⟨k, hk, rfl⟩ := List.mem_map.1 hb
  obtain ⟨s, rfl⟩ := htexts j (hids j hj)
  obtain ⟨t, rfl⟩ := htexts k (hids k hk)
  exact Bool.or_eq_true_iff.2 (.inr rfl)

/-- The ids are ranked in the order in which they were merged. -/
theorem fuse_of_merged {m : Merged α} (hm : merged vector fulltext related = .ok m)
    (hentry : ∀ k, entryOf m k = (signalsOf vector fulltext related k, firstPayload vector fulltext k))
    (w : Signals α) :
    fuse vector fulltext related w = .ok (byScore (m.keys.map (fusedAs vector fulltext related w))) := by
  have hmem := mem_keys_merged_iff htexts hm
  have hfused : m.entries.map (weigh w) = m.keys.map (fusedAs vector fulltext related w) := by
    rw [OrderedMap.keys, List.map_map]
    apply List.map_congr_left
    intro e he
    have hvalue : entryOf m e.1 = e.2 := by
      rw [entryOf, OrderedMap.get?_of_mem he]
      rfl
    rw [Function.comp_apply, fusedAs, ← hentry, hvalue]
  rw [fuse_eq, hm]
  show ranked _ (m.entries.map (weigh w)) = _
  rw [hfused]
  exact ranked_fusedAs htexts (fun k => (hmem k).1) w

/-- Each id that occurs is fused once, and ids that are texts can be ranked. -/
theorem fuse_ok (hvector : Apart vector) (hfulltext : Apart fulltext)
    (hrelated : ∀ r ∈ related, isZero (r.distance + ofNat 1) = false) (w : Signals α) :
    ∃ ids, Distinct ids ∧ (∀ k, k ∈ ids ↔ k ∈ idsOf vector fulltext related) ∧
      fuse vector fulltext related w = .ok (byScore (ids.map (fusedAs vector fulltext related w))) := by
  obtain ⟨m, hm, hentry⟩ := merged_ok hvector hfulltext hrelated
  exact ⟨m.keys, m.distinct_keys, mem_keys_merged_iff htexts hm, fuse_of_merged htexts hm hentry w⟩

end

end

end Search

end SourceAtlas
