import Mathlib.Data.List.Forall2
import SourceAtlas.Graph.Edges
import SourceAtlas.Proofs.Maps

/-!
# How stored edges hang together

Stored edges are kept four times: as nodes with numbers, as an index from
references to those numbers, as arcs and as keys. Whatever is added and
removed, these say the same. Numbers of removed nodes are given out again.
-/

namespace SourceAtlas.Graph

open Json (Key)

/-! ## Nodes and arcs -/

namespace Multigraph

variable {g : Multigraph} {m n : Nat} {r s : Key} {a b : Arc} {j k : EdgeKey}

def Bears (g : Multigraph) (node : Nat) (ref : Key) : Prop := ∃ r, g.ref? node = some r ∧ (r == ref) = true

structure Carries (g : Multigraph) (a : Arc) (k : EdgeKey) : Prop where
  source : g.Bears a.source k.1
  target : g.Bears a.target k.2.1
  type : a.type = k.2.2

/-- Free numbers belong to no node, and none is free twice. -/
structure Numbered (g : Multigraph) : Prop where
  used : ∀ n r, g.ref? n = some r → n < g.next
  vacant : ∀ n ∈ g.vacant, n < g.next ∧ g.ref? n = none
  once : g.vacant.Nodup

theorem Bears.beq (h : g.Bears n r) (h' : g.Bears n s) : (r == s) = true := by
  obtain ⟨q, hq, hr⟩ := h
  obtain ⟨q', hq', hs⟩ := h'
  obtain rfl := Option.some.inj (hq.symm.trans hq')
  exact BEq.trans (BEq.symm hr) hs

theorem Bears.congr (h : g.Bears n r) (hrs : (r == s) = true) : g.Bears n s := by
  obtain ⟨q, hq, hr⟩ := h
  exact ⟨q, hq, BEq.trans hr hrs⟩

theorem Carries.beq (h : g.Carries a j) (h' : g.Carries a k) : (j == k) = true := by
  rw [beq_pair, beq_pair]
  exact ⟨h.source.beq h'.source, h.target.beq h'.target, beq_iff_eq.2 (h.type.symm.trans h'.type)⟩

theorem Carries.congr (h : g.Carries a j) (hjk : (j == k) = true) : g.Carries a k := by
  rw [beq_pair, beq_pair] at hjk
  exact ⟨h.source.congr hjk.1, h.target.congr hjk.2.1, h.type.trans (beq_iff_eq.1 hjk.2.2)⟩

theorem Carries.mono {g' : Multigraph} (h : g.Carries a k)
    (hkeep : ∀ n r, n = a.source ∨ n = a.target → g.Bears n r → g'.Bears n r) : g'.Carries a k :=
  ⟨hkeep _ _ (.inl rfl) h.source, hkeep _ _ (.inr rfl) h.target, h.type⟩

/-- The key of an arc, in the form in which its nodes have it. -/
theorem carries_iff (g : Multigraph) (a : Arc) (k : EdgeKey) :
    g.Carries a k ↔ ∃ j, g.key? a = some j ∧ (j == k) = true := by
  constructor
  · rintro ⟨⟨r, hr, hrk⟩, ⟨s, hs, hsk⟩, htype⟩
    refine ⟨(r, s, a.type), by simp [key?, hr, hs], ?_⟩
    rw [beq_pair, beq_pair]
    exact ⟨hrk, hsk, beq_iff_eq.2 htype⟩
  · rintro ⟨j, hj, hjk⟩
    simp only [key?, Option.pure_def, Option.bind_eq_bind, Option.bind_eq_some_iff, Option.some.injEq] at hj
    obtain ⟨r, hr, s, hs, rfl⟩ := hj
    rw [beq_pair, beq_pair] at hjk
    exact ⟨⟨r, hr, hjk.1⟩, ⟨s, hs, hjk.2.1⟩, beq_iff_eq.1 hjk.2.2⟩

theorem Numbered.ref?_nextNode (h : g.Numbered) : g.ref? g.nextNode = none := by
  cases hv : g.vacant with
  | nil =>
    have hnext : g.nextNode = g.next := by rw [nextNode, hv]; rfl
    rw [hnext]
    cases hr : g.ref? g.next with
    | none => rfl
    | some r => exact absurd (h.used _ _ hr) (Nat.lt_irrefl _)
  | cons v vs =>
    have hnext : g.nextNode = v := by rw [nextNode, hv]; rfl
    rw [hnext]
    exact (h.vacant v (by rw [hv]; exact List.mem_cons_self)).2

theorem ref?_addNode (g : Multigraph) (r : Key) (n : Nat) :
    (g.addNode r).ref? n = if g.nextNode = n then some r else g.ref? n := by
  simp only [ref?, addNode, OrderedMap.get?_insert, beq_iff_eq]

theorem ref?_removeNode (g : Multigraph) (m n : Nat) :
    (g.removeNode m).ref? n = if n = m then none else g.ref? n := by
  simp only [ref?, removeNode, OrderedMap.get?_erase, beq_iff_eq]

theorem Numbered.addNode (h : g.Numbered) (r : Key) : (g.addNode r).Numbered := by
  have hnext : g.next ≤ (g.addNode r).next ∧ g.nextNode < (g.addNode r).next := by
    simp only [Multigraph.addNode, nextNode]
    cases hv : g.vacant with
    | nil => simp
    | cons v vs => simpa using (h.vacant v (by rw [hv]; exact List.mem_cons_self)).1
  refine ⟨fun n s hn => ?_, fun n hn => ?_, h.once.sublist (List.tail_sublist _)⟩
  · rw [ref?_addNode] at hn
    split at hn
    · rename_i heq
      exact heq ▸ hnext.2
    · exact Nat.lt_of_lt_of_le (h.used n s hn) hnext.1
  · have hn : n ∈ g.vacant.tail := hn
    obtain ⟨hlt, hnone⟩ := h.vacant n (List.mem_of_mem_tail hn)
    refine ⟨Nat.lt_of_lt_of_le hlt hnext.1, ?_⟩
    -- the number that is given out is not among those that stay free
    have hne : g.nextNode ≠ n := by
      rintro rfl
      have honce := h.once
      cases hv : g.vacant with
      | nil => rw [hv] at hn; cases hn
      | cons v vs =>
        rw [hv] at hn honce
        rw [nextNode, hv] at hn
        exact (List.nodup_cons.1 honce).1 hn
    rw [ref?_addNode, if_neg hne]
    exact hnone

theorem Numbered.removeNode (h : g.Numbered) (hr : g.ref? m = some r) : (g.removeNode m).Numbered := by
  refine ⟨fun n s hn => ?_, fun n hn => ?_, List.nodup_cons.2 ⟨fun hm => ?_, h.once⟩⟩
  · rw [ref?_removeNode] at hn
    split at hn
    · cases hn
    · exact h.used n s hn
  · rw [ref?_removeNode]
    rcases List.mem_cons.1 hn with rfl | hn
    · exact ⟨h.used _ _ hr, if_pos rfl⟩
    · exact ⟨(h.vacant n hn).1, by rw [(h.vacant n hn).2, ite_self]⟩
  · have hnone := (h.vacant m hm).2
    rw [hr] at hnone
    cases hnone

end Multigraph

/-! ## The four views -/

namespace Edges

open Multigraph (Bears Carries)

variable {x : Edges}

/-- The index leads from each reference to the one node that carries it, and the arcs are what
the keys tell, in the same order. -/
structure Sound (x : Edges) : Prop where
  numbered : x.graph.Numbered
  indexed : ∀ ref node, x.index.get? ref = some node ↔ x.graph.Bears node ref
  carried : List.Forall₂ x.graph.Carries x.graph.arcs x.keys
  distinct : Distinct x.keys

theorem Sound.empty : Sound {} where
  numbered :=
    { used := fun _ _ h => by cases h
      vacant := fun _ h => by cases h
      once := List.nodup_nil }
  indexed ref node := by
    constructor
    · intro h
      cases h
    · rintro ⟨_, h, -⟩
      cases h
  carried := .nil
  distinct := .nil

theorem Sound.eq_of_bears (h : x.Sound) {m n : Nat} {r : Key} (hm : x.graph.Bears m r) (hn : x.graph.Bears n r) :
    m = n :=
  Option.some.inj (((h.indexed r m).2 hm).symm.trans ((h.indexed r n).2 hn))

theorem Sound.eq_of_carries (h : x.Sound) {a b : Arc} {k : EdgeKey} (ha : x.graph.Carries a k)
    (hb : x.graph.Carries b k) : a = b := by
  obtain ⟨s, t, type⟩ := a
  obtain ⟨s', t', type'⟩ := b
  obtain rfl : s = s' := h.eq_of_bears ha.source hb.source
  obtain rfl : t = t' := h.eq_of_bears ha.target hb.target
  obtain rfl : type = type' := ha.type.trans hb.type.symm
  rfl

/-! ## Arcs and keys one to one -/

theorem Sound.existsUnique_key (h : x.Sound) (i : Fin x.graph.arcs.length) :
    ∃! j : Fin x.keys.length, x.graph.Carries (x.graph.arcs.get i) (x.keys.get j) := by
  obtain ⟨hlength, hcarries⟩ := List.forall₂_iff_get.1 h.carried
  have hi : i.1 < x.keys.length := by rw [← hlength]; exact i.2
  refine ⟨⟨i, hi⟩, hcarries i i.2 hi, fun j hj => ?_⟩
  exact h.distinct.get_inj (hj.beq (hcarries i i.2 hi))

theorem Sound.existsUnique_arc (h : x.Sound) (j : Fin x.keys.length) :
    ∃! i : Fin x.graph.arcs.length, x.graph.Carries (x.graph.arcs.get i) (x.keys.get j) := by
  obtain ⟨hlength, hcarries⟩ := List.forall₂_iff_get.1 h.carried
  have hj : j.1 < x.graph.arcs.length := by rw [hlength]; exact j.2
  refine ⟨⟨j, hj⟩, hcarries j hj j.2, fun i hi => ?_⟩
  have hown := hcarries i i.2 (by rw [← hlength]; exact i.2)
  have heq : (⟨i, _⟩ : Fin x.keys.length) = j := h.distinct.get_inj (hown.beq hi)
  exact Fin.ext (Fin.mk.inj heq)

/-! ## Adding -/

theorem node_keys (x : Edges) (ref : Key) : (x.node ref).1.keys = x.keys := by
  unfold node
  split <;> rfl

theorem keys_put (x : Edges) (k : EdgeKey) :
    (x.put k).keys = if x.keys.contains k then x.keys else x.keys ++ [k] := by
  unfold Edges.put
  split
  · rfl
  · simp only [node_keys]

/-- What is stored after some more edges: those and what was stored. -/
theorem contains_foldl_put (ks : List EdgeKey) (x : Edges) (k : EdgeKey) :
    (ks.foldl Edges.put x).keys.contains k = (ks.contains k || x.keys.contains k) := by
  induction ks generalizing x with
  | nil => rfl
  | cons j ks ih =>
    have hput : (x.put j).keys.contains k = (k == j || x.keys.contains k) := by
      rw [keys_put]
      by_cases hj : x.keys.contains j = true
      · rw [if_pos hj]
        by_cases hkj : (k == j) = true
        · rw [contains_congr _ hkj, hj, Bool.or_true]
        · rw [Bool.eq_false_iff.2 hkj, Bool.false_or]
      · rw [if_neg hj, List.contains_append, List.contains_cons, List.contains_nil, Bool.or_false, Bool.or_comm]
    rw [List.foldl_cons, ih, hput, List.contains_cons, ← Bool.or_assoc, Bool.or_comm (ks.contains k)]

theorem keys_foldl_put (ks : List EdgeKey) (x : Edges) (h : Distinct (x.keys ++ ks)) :
    (ks.foldl Edges.put x).keys = x.keys ++ ks := by
  induction ks generalizing x with
  | nil => exact (List.append_nil _).symm
  | cons k ks ih =>
    have hapart := (List.pairwise_append.1 h).2.2
    have hnew : x.keys.contains k = false := by
      apply not_contains_of_ne _ BEq.rfl
      intro j hj
      rw [BEq.comm]
      exact hapart j hj k List.mem_cons_self
    have hput : (x.put k).keys = x.keys ++ [k] := by
      rw [keys_put, hnew]
      rfl
    rw [List.foldl_cons, ih _ (by rwa [hput, List.append_assoc]), hput, List.append_assoc]
    rfl

/-- A reference that is new gets a node of its own, and every node keeps its reference. -/
theorem Sound.node (h : x.Sound) (ref : Key) :
    (x.node ref).1.Sound ∧ (x.node ref).1.graph.Bears (x.node ref).2 ref ∧
    ∀ n r, x.graph.Bears n r → (x.node ref).1.graph.Bears n r := by
  unfold Edges.node
  cases hi : x.index.get? ref with
  | some i => exact ⟨h, (h.indexed ref i).1 hi, fun _ _ hn => hn⟩
  | none =>
    dsimp only
    have hfree := h.numbered.ref?_nextNode
    have hbears : ∀ n r, (x.graph.addNode ref).Bears n r ↔
        (x.graph.nextNode = n ∧ (ref == r) = true) ∨ x.graph.Bears n r := fun n r => by
      simp only [Bears, Multigraph.ref?_addNode]
      by_cases hn : x.graph.nextNode = n
      · subst hn
        simp [hfree]
      · simp [hn]
    refine ⟨⟨h.numbered.addNode ref, fun r n => ?_, ?_, h.distinct⟩, (hbears _ _).2 (.inl ⟨rfl, BEq.rfl⟩),
      fun n r hn => (hbears n r).2 (.inr hn)⟩
    · rw [OrderedMap.get?_insert, hbears]
      by_cases hr : (ref == r) = true
      · -- no other node carries the new reference
        have hnone : ¬ x.graph.Bears n r := fun hn => by
          rw [← h.indexed r n, ← x.index.get?_congr hr, hi] at hn
          cases hn
        simp [hr, hnone]
      · simp [hr, h.indexed r n]
    · exact h.carried.imp fun a k hak => hak.mono fun n r _ hn => (hbears n r).2 (.inr hn)

theorem Sound.put (h : x.Sound) (k : EdgeKey) : (x.put k).Sound := by
  unfold Edges.put
  by_cases hk : x.keys.contains k = true
  · rw [if_pos hk]
    exact h
  · rw [if_neg hk]
    obtain ⟨h₁, hs, hkeep₁⟩ := h.node k.1
    obtain ⟨h₂, ht, hkeep₂⟩ := h₁.node k.2.1
    have hkeys : ((x.node k.1).1.node k.2.1).1.keys = x.keys := by rw [node_keys, node_keys]
    show Sound
      { ((x.node k.1).1.node k.2.1).1 with
        graph := ((x.node k.1).1.node k.2.1).1.graph.addArc ⟨(x.node k.1).2, ((x.node k.1).1.node k.2.1).2, k.2.2⟩
        keys := ((x.node k.1).1.node k.2.1).1.keys ++ [k] }
    generalize (x.node k.1).1.node k.2.1 = y at *
    have hlast : y.1.graph.Carries ⟨(x.node k.1).2, y.2, k.2.2⟩ k := ⟨hkeep₂ _ _ hs, ht, rfl⟩
    refine ⟨⟨h₂.numbered.used, h₂.numbered.vacant, h₂.numbered.once⟩, h₂.indexed, ?_, ?_⟩
    · have hgrown : List.Forall₂ y.1.graph.Carries (y.1.graph.arcs ++ [⟨(x.node k.1).2, y.2, k.2.2⟩])
          (y.1.keys ++ [k]) :=
        List.rel_append h₂.carried (.cons hlast .nil)
      exact hgrown.imp fun a j haj => haj.mono fun _ _ _ hn => hn
    · exact h₂.distinct.snoc (by rw [hkeys]; exact Bool.eq_false_iff.2 hk)

theorem Sound.foldl_put (h : x.Sound) (ks : List EdgeKey) : (ks.foldl Edges.put x).Sound := by
  induction ks generalizing x with
  | nil => exact h
  | cons k ks ih => exact ih (h.put k)

/-! ## Removing -/

-- `List.rel_filter` asks for this of all pairs that are related, not of members alone
theorem forall₂_filter {α β : Type} {R : α → β → Prop} {p : α → Bool} {q : β → Bool} {as : List α} {bs : List β}
    (h : List.Forall₂ R as bs) (hpq : ∀ a ∈ as, ∀ b ∈ bs, R a b → p a = q b) :
    List.Forall₂ R (as.filter p) (bs.filter q) := by
  induction h with
  | nil => exact .nil
  | @cons a b as bs hab h ih =>
    have ih := ih fun a ha b hb => hpq a (List.mem_cons_of_mem _ ha) b (List.mem_cons_of_mem _ hb)
    rw [List.filter_cons, List.filter_cons, hpq a List.mem_cons_self b List.mem_cons_self hab]
    cases q b with
    | true => exact .cons hab ih
    | false => exact ih

theorem leaves_of_carries {refs : List Key} {a : Arc} {k : EdgeKey} (hak : x.graph.Carries a k) :
    x.leaves refs a = refs.contains k.1 := by
  obtain ⟨r, hr, hrk⟩ := hak.source
  rw [leaves, hr, Option.any_some, contains_congr refs hrk]

/-- The edges that go are those whose arcs leave the references. -/
theorem Sound.contains_gone (h : x.Sound) (refs : List Key) {a : Arc} {k : EdgeKey} (ha : a ∈ x.graph.arcs)
    (hak : x.graph.Carries a k) :
    ((x.graph.arcs.filter (x.leaves refs)).filterMap x.graph.key?).contains k = x.leaves refs a := by
  rw [Bool.eq_iff_iff, List.contains_iff_exists_mem_beq]
  obtain ⟨j, hj, hjk⟩ := (Multigraph.carries_iff _ _ _).1 hak
  constructor
  · -- a removed arc with the same key is the same arc
    rintro ⟨j', hj', hkj'⟩
    obtain ⟨b, hb, hkey⟩ := List.mem_filterMap.1 hj'
    obtain ⟨-, hleaves⟩ := List.mem_filter.1 hb
    obtain rfl := h.eq_of_carries hak ((Multigraph.carries_iff _ _ _).2 ⟨j', hkey, BEq.symm hkj'⟩)
    exact hleaves
  · intro hleaves
    exact ⟨j, List.mem_filterMap.2 ⟨a, List.mem_filter.2 ⟨ha, hleaves⟩, hj⟩, BEq.symm hjk⟩

theorem Sound.removeArcs (h : x.Sound) (refs : List Key) :
    Sound { x with
      graph := x.graph.removeArcs (x.leaves refs)
      keys := x.keys.filter (!((x.graph.arcs.filter (x.leaves refs)).filterMap x.graph.key?).contains ·) } := by
  refine ⟨⟨h.numbered.used, h.numbered.vacant, h.numbered.once⟩, h.indexed, ?_, h.distinct.filter _⟩
  have hkept := forall₂_filter h.carried fun a ha k _ hak => congrArg (!·) (h.contains_gone refs ha hak).symm
  exact hkept.imp fun a k hak => hak.mono fun _ _ _ hn => hn

theorem Sound.dropIsolated (h : x.Sound) (ref : Key) : (x.dropIsolated ref).Sound := by
  unfold Edges.dropIsolated
  split
  case h_2 => exact h
  case h_1 i hi =>
    by_cases hisolated : x.graph.isIsolated i = true
    case neg =>
      rw [if_neg hisolated]
      exact h
    case pos =>
      rw [if_pos hisolated]
      have hcarrier := (h.indexed ref i).1 hi
      have hbears : ∀ n r, (x.graph.removeNode i).Bears n r ↔ n ≠ i ∧ x.graph.Bears n r := fun n r => by
        simp only [Bears, Multigraph.ref?_removeNode]
        by_cases hn : n = i <;> simp [hn]
      obtain ⟨q, hq, -⟩ := id hcarrier
      refine ⟨h.numbered.removeNode hq, fun r n => ?_, ?_, h.distinct⟩
      · rw [OrderedMap.get?_erase, hbears]
        by_cases hr : (r == ref) = true
        · have hsame : ¬ (n ≠ i ∧ x.graph.Bears n r) := fun hn => hn.1 (h.eq_of_bears (hn.2.congr hr) hcarrier)
          simp [hr, hsame]
        · rw [if_neg hr, h.indexed r n]
          refine ⟨fun hn => ⟨?_, hn⟩, fun hn => hn.2⟩
          rintro rfl
          exact hr (hn.beq hcarrier)
      · refine List.forall₂_iff_zip.2 ⟨h.carried.length_eq, fun {a k} hak => ?_⟩
        have hfar := List.all_eq_true.1 hisolated a (List.of_mem_zip hak).1
        simp only [Bool.and_eq_true, bne_iff_ne] at hfar
        refine ((List.forall₂_iff_zip.1 h.carried).2 hak).mono fun n r hn hr => (hbears n r).2 ⟨?_, hr⟩
        rcases hn with rfl | rfl
        · exact hfar.1
        · exact hfar.2

theorem Sound.removeFrom (h : x.Sound) (refs : List Key) : (x.removeFrom refs).Sound := by
  have hdrop : ∀ (rs : List Key) (y : Edges), y.Sound → (rs.foldl Edges.dropIsolated y).Sound := by
    intro rs
    induction rs with
    | nil => exact fun _ hy => hy
    | cons r rs ih => exact fun y hy => ih _ (hy.dropIsolated r)
  exact hdrop refs _ (h.removeArcs refs)

theorem keys_dropIsolated (x : Edges) (ref : Key) : (x.dropIsolated ref).keys = x.keys := by
  unfold Edges.dropIsolated
  split
  · split <;> rfl
  · rfl

theorem Sound.contains_removeFrom (h : x.Sound) (refs : List Key) (k : EdgeKey) :
    (x.removeFrom refs).keys.contains k = (x.keys.contains k && !refs.contains k.1) := by
  have hdrop : ∀ (rs : List Key) (y : Edges), (rs.foldl Edges.dropIsolated y).keys = y.keys := by
    intro rs
    induction rs with
    | nil => exact fun _ => rfl
    | cons r rs ih => exact fun y => (ih _).trans (keys_dropIsolated y r)
  rw [Edges.removeFrom, hdrop]
  dsimp only
  rw [contains_filter _ fun i j hij => congrArg (!·) (contains_congr _ hij)]
  cases hk : x.keys.contains k with
  | false => rfl
  | true =>
    obtain ⟨j, hj, hkj⟩ := List.contains_iff_exists_mem_beq.1 hk
    obtain ⟨i, hi⟩ := List.mem_iff_get.1 hj
    obtain ⟨a, ha, -⟩ := h.existsUnique_arc i
    have hak : x.graph.Carries (x.graph.arcs.get a) k := (hi ▸ ha : x.graph.Carries _ j).congr (BEq.symm hkj)
    rw [h.contains_gone refs (List.get_mem ..) hak, leaves_of_carries hak]

/-! ## Reading by type -/

def listed (x : Edges) : List EdgeKey := EdgeType.all.flatMap fun t => (x.ofType t).map fun p => (p.1, p.2, t)

theorem beq_ends (p : Key × Key) (t : EdgeType) (k : EdgeKey) :
    ((p.1, p.2, t) == k) = ((p == (k.1, k.2.1)) && t == k.2.2) := (Bool.and_assoc ..).symm

theorem Sound.ofType (h : x.Sound) (t : EdgeType) :
    List.Forall₂ (fun p k => ((p.1, p.2, t) == k) = true) (x.ofType t) (x.keys.filter (·.2.2 == t)) := by
  have harcs : List.Forall₂ x.graph.Carries (x.graph.arcs.filter (·.type == t)) (x.keys.filter (·.2.2 == t)) :=
    forall₂_filter h.carried fun a _ k _ hak => by rw [hak.type]
  have htype : ∀ a ∈ x.graph.arcs.filter (·.type == t), a.type = t :=
    fun a ha => beq_iff_eq.1 (List.mem_filter.1 ha).2
  unfold Edges.ofType
  generalize x.keys.filter (·.2.2 == t) = keys at harcs
  generalize x.graph.arcs.filter (·.type == t) = arcs at harcs htype
  induction harcs with
  | nil => exact .nil
  | @cons a k arcs keys hak _ ih =>
    obtain ⟨j, hj, hjk⟩ := (Multigraph.carries_iff _ _ _).1 hak
    have hjt : j.2.2 = t := by
      rw [beq_ends (j.1, j.2.1) j.2.2 k, Bool.and_eq_true] at hjk
      rw [beq_iff_eq.1 hjk.2, ← hak.type]
      exact htype a List.mem_cons_self
    rw [List.filterMap_cons_some hj, List.map_cons]
    refine .cons ?_ (ih fun b hb => htype b (List.mem_cons_of_mem _ hb))
    rw [← hjt]
    exact hjk

theorem Sound.length_ofType (h : x.Sound) (t : EdgeType) : (x.ofType t).length = x.keys.countP (·.2.2 == t) := by
  rw [(h.ofType t).length_eq, List.countP_eq_length_filter]

theorem Sound.countP_ofType (h : x.Sound) (t : EdgeType) (p : Key × Key) :
    (x.ofType t).countP (· == p) = if x.keys.contains (p.1, p.2, t) then 1 else 0 := by
  have hsame : ∀ q ∈ x.ofType t, ∀ k ∈ x.keys.filter (·.2.2 == t), ((q.1, q.2, t) == k) = true →
      (q == p) = (k == (p.1, p.2, t)) := fun q _ k _ hqk => by
    rw [← BEq.congr_left hqk, beq_ends, beq_self_eq_true, Bool.and_true]
  rw [List.countP_eq_length_filter, (forall₂_filter (h.ofType t) hsame).length_eq, ← List.countP_eq_length_filter,
    List.countP_filter, ← h.distinct.countP_beq]
  refine List.countP_congr fun k _ => ?_
  rw [BEq.comm, beq_ends, BEq.comm (a := k.2.2), Bool.and_assoc, Bool.and_self]

theorem Sound.contains_ofType (h : x.Sound) (t : EdgeType) (p : Key × Key) :
    (x.ofType t).contains p = x.keys.contains (p.1, p.2, t) := by
  rw [Bool.eq_iff_iff, contains_iff_countP, h.countP_ofType]
  split <;> simp_all

theorem Sound.countP_listed (h : x.Sound) (k : EdgeKey) :
    x.listed.countP (· == k) = if x.keys.contains k then 1 else 0 := by
  have hof : ∀ t, ((x.ofType t).map fun p => (p.1, p.2, t)).countP (· == k) =
      if t = k.2.2 then (x.ofType t).countP (· == (k.1, k.2.1)) else 0 := fun t => by
    rw [List.countP_map]
    by_cases ht : t = k.2.2
    · rw [if_pos ht]
      refine List.countP_congr fun p _ => ?_
      rw [Function.comp_apply, beq_ends, ht, beq_self_eq_true, Bool.and_true]
    · rw [if_neg ht, List.countP_eq_zero]
      intro p _ hp
      rw [Function.comp_apply, beq_ends, Bool.and_eq_true] at hp
      exact ht (beq_iff_eq.1 hp.2)
  rw [← h.countP_ofType k.2.2 (k.1, k.2.1)]
  simp only [listed, List.countP_flatMap, Function.comp_def, hof]
  obtain ⟨r, s, type⟩ := k
  cases type <;> simp [EdgeType.all]

theorem Sound.contains_listed (h : x.Sound) (k : EdgeKey) : x.listed.contains k = x.keys.contains k := by
  rw [Bool.eq_iff_iff, contains_iff_countP, h.countP_listed]
  split <;> simp_all

/-! ## Agreement -/

/-- Index and nodes, and arcs and keys, are one to one; the size is the number of arcs, and
reading by type lists each key once and nothing else. -/
structure Coherent (x : Edges) : Prop where
  node_iff : ∀ ref node, x.index.get? ref = some node ↔ x.graph.Bears node ref
  ref_unique : ∀ r s node, x.index.get? r = some node → x.index.get? s = some node → (r == s) = true
  key_of_arc : ∀ i : Fin x.graph.arcs.length, ∃! j : Fin x.keys.length,
    x.graph.Carries (x.graph.arcs.get i) (x.keys.get j)
  arc_of_key : ∀ j : Fin x.keys.length, ∃! i : Fin x.graph.arcs.length,
    x.graph.Carries (x.graph.arcs.get i) (x.keys.get j)
  size_eq : x.size = x.graph.arcs.length
  listed_once : ∀ k, x.listed.countP (· == k) = if x.keys.contains k then 1 else 0

theorem Sound.coherent (h : x.Sound) : x.Coherent where
  node_iff := h.indexed
  ref_unique r s node hr hs := ((h.indexed r node).1 hr).beq ((h.indexed s node).1 hs)
  key_of_arc := h.existsUnique_key
  arc_of_key := h.existsUnique_arc
  size_eq := h.carried.length_eq.symm
  listed_once := h.countP_listed

end Edges

end SourceAtlas.Graph
