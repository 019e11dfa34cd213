import SourceAtlas.Graph.Engine
import SourceAtlas.Proofs.Acts
import SourceAtlas.Proofs.Writes

/-!
# The edges of the engine

Which edges are laid out from which ends, how an edge gets in, and how the
edges of a type are counted.
-/

namespace SourceAtlas.Graph

open Json (Key Value)

/-! ## Neighbours -/

theorem contains_adjoin (l : List Key) (n s : Key) :
    (if l.contains n then l else l ++ [n]).contains s = (n == s || l.contains s) := by
  by_cases hn : l.contains n = true
  · rw [if_pos hn]
    by_cases hns : (n == s) = true
    · rw [← contains_congr l hns, hn, Bool.or_true]
    · rw [Bool.eq_false_iff.2 hns, Bool.false_or]
  · rw [if_neg hn, List.contains_append, List.contains_cons, List.contains_nil, Bool.or_false, Bool.or_comm,
      BEq.comm (a := s)]

theorem distinct_adjoin {l : List Key} (h : Distinct l) (n : Key) :
    Distinct (if l.contains n then l else l ++ [n]) := by
  by_cases hn : l.contains n = true
  · rw [if_pos hn]
    exact h
  · rw [if_neg hn]
    exact h.snoc (Bool.eq_false_iff.2 hn)

namespace Adjacency

def neighbours (m : Adjacency) (r : Key) (t : EdgeType) : List Key := ((m.get? r).bind (·.get? t)).getD []

def joins (m : Adjacency) (k : EdgeKey) : Bool := (m.neighbours k.1 k.2.2).contains k.2.1

/-- No neighbour stands twice. -/
def Tidy (m : Adjacency) : Prop := ∀ r t, Distinct (m.neighbours r t)

theorem neighbours_update (m : Adjacency) (r s : Key) (t u : EdgeType) (f : List Key → List Key) :
    neighbours (m.update r .empty fun byType => byType.update t [] f) s u =
      if (r == s) = true ∧ t = u then f (m.neighbours s u) else m.neighbours s u := by
  have hempty : ∀ byType : Option (OrderedMap EdgeType (List Key)),
      (byType.getD .empty).get? u = byType.bind (·.get? u) := fun byType => by
    cases byType <;> rfl
  unfold neighbours
  rw [OrderedMap.get?_update]
  by_cases hr : (r == s) = true
  · rw [if_pos hr, Option.bind_some, OrderedMap.get?_update, hempty]
    by_cases ht : t = u
    · simp [hr, ht]
    · simp [ht]
  · rw [if_neg hr, if_neg fun h => hr h.1]

/-- The place that is made for neighbours is the place where they are put. -/
theorem link_touch (m : Adjacency) (r n : Key) (t : EdgeType) : (m.touch r t).link r n t = m.link r n t := by
  rw [Adjacency.touch, Adjacency.link, OrderedMap.update_update]
  simp only [Function.comp_def, OrderedMap.update_update]
  rfl

theorem joins_link (m : Adjacency) (r n : Key) (t : EdgeType) (k : EdgeKey) :
    (m.link r n t).joins k = ((r, n, t) == k || m.joins k) := by
  have hsplit : ((r, n, t) == k) = ((r == k.1) && ((n == k.2.1) && (t == k.2.2))) := rfl
  unfold joins
  rw [link, neighbours_update, hsplit]
  by_cases h : (r == k.1) = true ∧ t = k.2.2
  · rw [if_pos h, contains_adjoin, h.1, h.2, beq_self_eq_true, Bool.and_true, Bool.true_and]
  · rw [if_neg h]
    have hne : ((r == k.1) && ((n == k.2.1) && (t == k.2.2))) = false := Bool.eq_false_iff.2 fun hk => by
      simp only [Bool.and_eq_true, beq_iff_eq] at hk
      exact h ⟨hk.1, hk.2.2⟩
    rw [hne, Bool.false_or]

theorem Tidy.link {m : Adjacency} (h : m.Tidy) (r n : Key) (t : EdgeType) : (m.link r n t).Tidy := fun s u => by
  rw [Adjacency.link, neighbours_update]
  split
  · exact distinct_adjoin (h s u) n
  · exact h s u

/-! ## Counting -/

def edges (m : Adjacency) (t : EdgeType) : List EdgeKey :=
  m.entries.flatMap fun e => ((e.2.get? t).getD []).map fun n => (e.1, n, t)

theorem neighbours_of_mem {m : Adjacency} {e : Key × OrderedMap EdgeType (List Key)} (he : e ∈ m.entries)
    (t : EdgeType) : m.neighbours e.1 t = (e.2.get? t).getD [] := by
  rw [neighbours, OrderedMap.get?_of_mem he, Option.bind_some]

theorem contains_edges (m : Adjacency) (t : EdgeType) (k : EdgeKey) :
    (m.edges t).contains k = (m.joins k && k.2.2 == t) := by
  rw [Bool.eq_iff_iff, List.contains_iff_exists_mem_beq, Bool.and_eq_true, beq_iff_eq]
  constructor
  · rintro ⟨j, hj, hkj⟩
    obtain ⟨e, he, hje⟩ := List.mem_flatMap.1 hj
    obtain ⟨n, hn, rfl⟩ := List.mem_map.1 hje
    rw [beq_pair, beq_pair] at hkj
    obtain ⟨hsource, htarget, htype⟩ := hkj
    have htype : k.2.2 = t := beq_iff_eq.1 htype
    have hsame : m.neighbours k.1 t = m.neighbours e.1 t := by
      rw [neighbours, neighbours, m.get?_congr hsource]
    refine ⟨?_, htype⟩
    rw [joins, htype, hsame, neighbours_of_mem he, contains_congr _ htarget]
    exact contains_of_mem hn
  · rintro ⟨hk, rfl⟩
    obtain ⟨n, hn, hkn⟩ := List.contains_iff_exists_mem_beq.1 hk
    cases hget : m.get? k.1 with
    | none =>
      rw [neighbours, hget] at hn
      cases hn
    | some byType =>
      obtain ⟨r, hr, hrk⟩ := OrderedMap.get?_eq_some_iff.1 hget
      rw [neighbours, hget, Option.bind_some] at hn
      refine ⟨(r, n, k.2.2), List.mem_flatMap.2 ⟨(r, byType), hr, List.mem_map.2 ⟨n, hn, rfl⟩⟩, ?_⟩
      rw [beq_pair, beq_pair]
      exact ⟨BEq.symm hrk, hkn, beq_self_eq_true _⟩

theorem Tidy.distinct_edges {m : Adjacency} (h : m.Tidy) (t : EdgeType) : Distinct (m.edges t) := by
  refine List.pairwise_flatMap.2 ⟨fun e he => List.pairwise_map.2 ?_, m.distinct.imp fun {d e} hde j hj k hk => ?_⟩
  · have hneighbours := h e.1 t
    rw [neighbours_of_mem he] at hneighbours
    refine hneighbours.imp fun {n o} hno => Bool.eq_false_iff.2 fun heq => ?_
    rw [beq_pair, beq_pair, hno] at heq
    exact Bool.false_ne_true heq.2.1
  · obtain ⟨n, -, rfl⟩ := List.mem_map.1 hj
    obtain ⟨o, -, rfl⟩ := List.mem_map.1 hk
    refine Bool.eq_false_iff.2 fun heq => ?_
    rw [beq_pair, hde] at heq
    exact Bool.false_ne_true heq.1

end Adjacency

namespace Engine

variable {x : Engine} {p q : EdgeKey → Bool} {e : Edge} {j : EdgeKey} {t : EdgeType}

/-! ## Adding edges -/

theorem link_on {k : EdgeKey} (hk : e.key = .ok k) (x : Engine) : (Engine.link e).on x = (.ok (), x.linkKey k) := by
  rcases Atlas.key_cases e with ⟨s, t, hs, ht, hkey⟩ | ⟨⟨f, hkey⟩, -⟩
  · obtain rfl := Except.ok.inj (hk.symm.trans hkey)
    simp only [Engine.link, Act.on_bind, Act.on_liftOutcome, Act.on_modify, hs, ht, Engine.linkKey,
      Adjacency.link_touch]
  · rw [hk] at hkey
    cases hkey

theorem linkAll_eq {es : List Edge} (hes : Atlas.Keyed es) (x : Engine) :
    Atlas.linkAll es x = (Atlas.keysOf es).foldl Engine.linkKey x := by
  induction es generalizing x with
  | nil => rfl
  | cons e es ih =>
    obtain ⟨⟨k, hk⟩, hes⟩ := List.forall_mem_cons.1 hes
    rw [Atlas.keysOf_cons hk, List.foldl_cons, ← ih hes, Atlas.linkAll, List.foldl_cons, link_on hk]
    rfl

/-! ## What an engine holds -/

/-- Whether an engine holds the edges that satisfy `p`, laid out from both ends. -/
structure Holds (x : Engine) (p : EdgeKey → Bool) : Prop where
  out : ∀ k, x.out.joins k = p k
  inbound : ∀ k, x.inbound.joins (k.2.1, k.1, k.2.2) = p k
  tidy : x.out.Tidy

theorem Holds.congr (h : x.Holds p) (hpq : ∀ k, p k = q k) : x.Holds q :=
  ⟨fun k => (h.out k).trans (hpq k), fun k => (h.inbound k).trans (hpq k), h.tidy⟩

theorem Holds.empty : Holds {} fun _ => false :=
  ⟨fun _ => rfl, fun _ => rfl, fun _ _ => .nil⟩

theorem Holds.linkKey (h : x.Holds p) (j : EdgeKey) : (x.linkKey j).Holds fun k => j == k || p k where
  out k := by
    show (x.out.link j.1 j.2.1 j.2.2).joins k = _
    rw [Adjacency.joins_link, h.out]
  inbound k := by
    have hturn : ((j.2.1, j.1, j.2.2) == (k.2.1, k.1, k.2.2)) = (j == k) := Bool.and_left_comm ..
    show (x.inbound.link j.2.1 j.1 j.2.2).joins _ = _
    rw [Adjacency.joins_link, h.inbound, hturn]
  tidy := h.tidy.link j.1 j.2.1 j.2.2

theorem Holds.link (h : x.Holds p) (hj : e.key = .ok j) :
    ((Engine.link e).on x).2.Holds fun k => j == k || p k := by
  rw [link_on hj]
  exact h.linkKey j

theorem Holds.foldl_linkKey (h : x.Holds p) (ks : List EdgeKey) :
    (ks.foldl Engine.linkKey x).Holds fun k => ks.contains k || p k := by
  induction ks generalizing x p with
  | nil => exact h
  | cons j ks ih =>
    refine (ih (h.linkKey j)).congr fun k => ?_
    rw [List.contains_cons, BEq.comm (a := k), ← Bool.or_assoc, Bool.or_comm (ks.contains k)]

theorem Holds.linkAll {es : List Edge} (h : x.Holds p) (hes : Atlas.Keyed es) :
    (Atlas.linkAll es x).Holds fun k => (Atlas.keysOf es).contains k || p k := by
  rw [linkAll_eq hes]
  exact h.foldl_linkKey _

/-! ## Statistics -/

theorem countOf_eq_length (x : Engine) (t : EdgeType) : x.countOf t = (x.out.edges t).length := by
  have hsum : ∀ (entries : List (Key × OrderedMap EdgeType (List Key))) (n : Nat),
      (entries.map Prod.snd).foldl (fun n byType => n + ((byType.get? t).getD []).length) n =
        n + (entries.flatMap fun e => ((e.2.get? t).getD []).map fun n => (e.1, n, t)).length := by
    intro entries
    induction entries with
    | nil => exact fun _ => rfl
    | cons e entries ih =>
      intro n
      rw [List.map_cons, List.foldl_cons, ih, List.flatMap_cons, List.length_append, List.length_map, Nat.add_assoc]
  exact (hsum x.out.entries 0).trans (Nat.zero_add _)

/-- Edges that stand in a list once each are counted by type as they stand there. -/
theorem Holds.countOf {ks : List EdgeKey} (h : x.Holds ks.contains) (hks : Distinct ks) (t : EdgeType) :
    x.countOf t = ks.countP (·.2.2 == t) := by
  rw [countOf_eq_length, List.countP_eq_length_filter]
  refine (h.tidy.distinct_edges t).length_eq (hks.filter _) fun k => ?_
  have htype : ∀ a b : EdgeKey, (a == b) = true → (a.2.2 == t) = (b.2.2 == t) := fun a b hab => by
    rw [beq_pair, beq_pair] at hab
    rw [beq_iff_eq.1 hab.2.2]
  rw [Adjacency.contains_edges, h.out, contains_filter ks htype]

theorem sum_countP_type (ks : List EdgeKey) :
    EdgeType.all.foldl (fun n t => n + ks.countP (·.2.2 == t)) 0 = ks.length := by
  induction ks with
  | nil => rfl
  | cons k ks ih =>
    obtain ⟨r, s, t⟩ := k
    cases t <;> simp [EdgeType.all, List.countP_cons] at ih ⊢ <;> omega

theorem Holds.edgeCount {ks : List EdgeKey} (h : x.Holds ks.contains) (hks : Distinct ks) :
    x.edgeCount = ks.length := by
  unfold Engine.edgeCount
  simp only [h.countOf hks]
  exact sum_countP_type ks

theorem countOf_eq_zero (h : x.out.values.any (·.contains t) = false) : x.countOf t = 0 := by
  rw [countOf_eq_length, List.length_eq_zero_iff, Adjacency.edges, List.flatMap_eq_nil_iff]
  intro e he
  have hnone : e.2.get? t = none := by
    have hno := List.any_eq_false.1 h e.2 (List.mem_map.2 ⟨e, he, rfl⟩)
    rw [OrderedMap.get?, Option.map_eq_none_iff, List.find?_eq_none]
    exact fun f hf => List.any_eq_false.1 (Bool.eq_false_iff.2 hno) f hf
  rw [hnone]
  rfl

/-- The number of edges of a type in the statistics; a type that they lack has none. -/
theorem given_countOf (x : Engine) (t : EdgeType) :
    Json.Record.given ((EdgeType.all.filter fun t => x.out.values.any (·.contains t)).map fun t =>
      (t.name, Value.int (x.countOf t))) t.name (.int 0) = .int (x.countOf t) := by
  have hfind : ∀ (p : EdgeType → Bool), EdgeType.all.find? (fun u => p u && u.name == t.name) =
      if p t then some t else none := fun p => by
    cases t <;> simp [EdgeType.all, EdgeType.name, List.find?_cons] <;> cases p _ <;> rfl
  rw [Json.Record.given, Json.Record.get?, List.find?_map, List.find?_filter]
  simp only [Function.comp_def, Bool.decide_and, Bool.decide_eq_true, hfind]
  cases hknown : x.out.values.any (·.contains t) with
  | true => rfl
  | false =>
    rw [countOf_eq_zero hknown]
    rfl

end Engine

end SourceAtlas.Graph
