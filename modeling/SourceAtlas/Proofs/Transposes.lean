import Mathlib.Data.Set.Card
import SourceAtlas.Proofs.Lookups
import SourceAtlas.Proofs.WriteThrough

/-!
# Both directions of the engine

The engine lays its edges out twice, from their sources and from their
targets. Whatever is loaded, added or dropped, and whatever fails on the way,
the one is the other turned round, and both have the edges that were given.
-/

namespace SourceAtlas

open Json (Key Value)

namespace Graph

/-! ## One direction -/

namespace Adjacency

variable {m : Adjacency} {ks : List EdgeKey}

def Full (m : Adjacency) : Prop := ∀ r, (m.get? r).isSome = true → ∃ t n, n ∈ m.neighbours r t

/-- Whether the edges of a list are laid out, each once, and nothing else is. -/
structure Lays (m : Adjacency) (ks : List EdgeKey) : Prop where
  joins : ∀ k, m.joins k = ks.contains k
  tidy : m.Tidy
  full : m.Full

theorem Full.link (h : m.Full) (r n : Key) (t : EdgeType) : (m.link r n t).Full := by
  intro s hs
  by_cases hr : (r == s) = true
  · have hjoins : (m.link r n t).joins (s, n, t) = true := by
      rw [joins_link, Bool.or_eq_true, beq_pair]
      exact .inl ⟨hr, BEq.rfl⟩
    obtain ⟨o, ho, -⟩ := List.contains_iff_exists_mem_beq.1 hjoins
    exact ⟨t, o, ho⟩
  · rw [Adjacency.link, OrderedMap.get?_update, if_neg hr] at hs
    obtain ⟨u, o, ho⟩ := h s hs
    refine ⟨u, o, ?_⟩
    rwa [Adjacency.link, neighbours_update, if_neg fun h => hr h.1]

theorem Lays.empty : Lays .empty [] where
  joins _ := rfl
  tidy _ _ := .nil
  full _ h := by cases h

theorem Lays.link (h : m.Lays ks) (k : EdgeKey) : (m.link k.1 k.2.1 k.2.2).Lays (ks ++ [k]) where
  joins j := by
    rw [joins_link, h.joins, List.contains_append, List.contains_cons, List.contains_nil, Bool.or_false,
      Bool.or_comm, BEq.comm (a := j)]
  tidy := h.tidy.link _ _ _
  full := h.full.link _ _ _

section
variable (h : m.Lays ks) (hks : ∀ k ∈ ks, Spelt k)
include h hks

theorem Lays.mem_of_mem_neighbours {r n : Key} {t : EdgeType} (hn : n ∈ m.neighbours r t) : (r, n, t) ∈ ks := by
  have hjoins : m.joins (r, n, t) = true := contains_of_mem hn
  rwa [h.joins, contains_spelt hks] at hjoins

/-- A look-up lists each neighbour over edges of a type once. -/
theorem Lays.lookup_ok (r : Key) (type : Option EdgeType) : ∃ found, m.lookup r type = .ok found ∧ found.Nodup ∧
    ∀ n t, (n, t) ∈ found ↔ type.all (· == t) = true ∧ (r, n, t) ∈ ks := by
  have htexts : ∀ t, ∀ n ∈ m.neighbours r t, n.IsText := fun t n hn => (hks _ (h.mem_of_mem_neighbours hks hn)).2
  obtain ⟨found, hfound, hnodup, hmem⟩ := m.lookup_ok h.tidy htexts type
  refine ⟨found, hfound, hnodup, fun n t => ?_⟩
  rw [hmem, ← joins_iff htexts, h.joins, contains_spelt hks]

theorem Lays.mem_keys {r : Key} : r ∈ m.keys ↔ ∃ k ∈ ks, k.1 = r := by
  constructor
  · intro hr
    have hsome : (m.get? r).isSome = true := (OrderedMap.contains_keys m r).symm.trans (contains_of_mem hr)
    obtain ⟨t, n, hn⟩ := h.full r hsome
    exact ⟨_, h.mem_of_mem_neighbours hks hn, rfl⟩
  · rintro ⟨k, hk, rfl⟩
    have hjoins : m.joins k = true := by rwa [h.joins, contains_spelt hks]
    have hsome : (m.get? k.1).isSome = true := by
      rw [Adjacency.joins, neighbours] at hjoins
      cases hget : m.get? k.1 with
      | none => rw [hget] at hjoins; cases hjoins
      | some _ => rfl
    obtain ⟨r, hr, hkr⟩ := List.contains_iff_exists_mem_beq.1 ((OrderedMap.contains_keys m k.1).trans hsome)
    rwa [← (hks k hk).1.eq_of_beq (BEq.symm hkr)]

end

end Adjacency

/-! ## Both directions -/

def turned (k : EdgeKey) : EdgeKey := (k.2.1, k.1, k.2.2)

def ends (ks : List EdgeKey) : Set Key := {r | ∃ k ∈ ks, k.1 = r ∨ k.2.1 = r}

namespace Engine

variable {x : Engine} {ks : List EdgeKey}

/-- Whether an engine has the edges of a list, which join texts, in both directions. -/
structure Transposes (x : Engine) (ks : List EdgeKey) : Prop where
  spelt : ∀ k ∈ ks, Spelt k
  out : x.out.Lays ks
  inbound : x.inbound.Lays (ks.map turned)

theorem Transposes.empty : Transposes {} [] where
  spelt _ hk := absurd hk List.not_mem_nil
  out := .empty
  inbound := .empty

theorem Transposes.linkKey (h : x.Transposes ks) {k : EdgeKey} (hk : Spelt k) :
    (x.linkKey k).Transposes (ks ++ [k]) where
  spelt := List.forall_mem_append.2 ⟨h.spelt, List.forall_mem_singleton.2 hk⟩
  out := h.out.link k
  inbound := by
    rw [List.map_append]
    exact h.inbound.link (turned k)

theorem Transposes.foldl_linkKey (h : x.Transposes ks) {js : List EdgeKey} (hjs : ∀ j ∈ js, Spelt j) :
    (js.foldl Engine.linkKey x).Transposes (ks ++ js) := by
  induction js generalizing x ks with
  | nil => rwa [List.append_nil]
  | cons j js ih =>
    obtain ⟨hj, hjs⟩ := List.forall_mem_cons.1 hjs
    rw [List.append_cons]
    exact ih (h.linkKey hj) hjs

section
variable (h : x.Transposes ks)
include h

theorem Transposes.spelt_turned : ∀ k ∈ ks.map turned, Spelt k :=
  List.forall_mem_map.2 fun k hk => ⟨(h.spelt k hk).2, (h.spelt k hk).1⟩

theorem Transposes.dependencies_ok (r : Key) (type : Option EdgeType) :
    ∃ found, x.dependencies r type = .ok found ∧ found.Nodup ∧
      ∀ s t, (s, t) ∈ found ↔ type.all (· == t) = true ∧ (r, s, t) ∈ ks :=
  h.out.lookup_ok h.spelt r type

theorem Transposes.dependents_ok (s : Key) (type : Option EdgeType) :
    ∃ found, x.dependents s type = .ok found ∧ found.Nodup ∧
      ∀ r t, (r, t) ∈ found ↔ type.all (· == t) = true ∧ (r, s, t) ∈ ks := by
  obtain ⟨found, hfound, hnodup, hmem⟩ := h.inbound.lookup_ok h.spelt_turned s type
  refine ⟨found, hfound, hnodup, fun r t => ?_⟩
  have hturned : (s, r, t) ∈ ks.map turned ↔ (r, s, t) ∈ ks := by
    simp [turned]
  rw [hmem, hturned]

theorem Transposes.mem_keys_inbound {r : Key} : r ∈ x.inbound.keys ↔ ∃ k ∈ ks, k.2.1 = r := by
  rw [h.inbound.mem_keys h.spelt_turned]
  simp [turned]

/-- The references that are counted are those at the ends of edges. -/
theorem Transposes.nodeCount_eq : x.nodeCount = (ends ks).ncard := by
  classical
  let others := x.inbound.keys.filter fun r => !x.out.contains r
  have hothers : x.nodeCount = (x.out.keys ++ others).length := by
    rw [nodeCount, List.length_append]
    simp [others, OrderedMap.keys, OrderedMap.size, OrderedMap.filter, List.filter_map, Function.comp_def]
  have hcontains : ∀ r ∈ x.inbound.keys, x.out.contains r = true ↔ r ∈ x.out.keys := fun r hr => by
    obtain ⟨k, hk, rfl⟩ := h.mem_keys_inbound.1 hr
    rw [OrderedMap.contains_eq, ← OrderedMap.contains_keys, List.contains_iff_exists_mem_beq]
    constructor
    · rintro ⟨s, hs, hrs⟩
      rwa [← (h.spelt k hk).2.eq_of_beq (BEq.symm hrs)]
    · exact fun hr => ⟨_, hr, BEq.rfl⟩
  have hnodup : (x.out.keys ++ others).Nodup := by
    refine List.nodup_append'.2
      ⟨x.out.distinct_keys.nodup, x.inbound.distinct_keys.nodup.filter _, fun r hr hr' => ?_⟩
    obtain ⟨hin, hout⟩ := List.mem_filter.1 hr'
    rw [(hcontains r hin).2 hr] at hout
    cases hout
  have hends : ends ks = (x.out.keys ++ others).toFinset := by
    ext r
    simp only [ends, Set.mem_ofPred_eq, List.coe_toFinset, List.mem_append, List.mem_filter, others]
    constructor
    · rintro ⟨k, hk, rfl | rfl⟩
      · exact .inl ((h.out.mem_keys h.spelt).2 ⟨k, hk, rfl⟩)
      · by_cases hout : k.2.1 ∈ x.out.keys
        · exact .inl hout
        · have hin := h.mem_keys_inbound.2 ⟨k, hk, rfl⟩
          rw [← hcontains _ hin] at hout
          exact .inr ⟨hin, by simpa using hout⟩
    · rintro (hr | ⟨hr, -⟩)
      · obtain ⟨k, hk, hkr⟩ := (h.out.mem_keys h.spelt).1 hr
        exact ⟨k, hk, .inl hkr⟩
      · obtain ⟨k, hk, hkr⟩ := h.mem_keys_inbound.1 hr
        exact ⟨k, hk, .inr hkr⟩
  rw [hends, Set.ncard_coe_finset, List.toFinset_card_of_nodup hnodup, hothers]

end

end Engine

end Graph

/-! ## Runs -/

namespace Atlas

open SourceAtlas.Graph (Spelt ends)

def readable (a : Atlas) : List EdgeKey := EdgeType.all.flatMap fun t => match a.edgesOfType t with
  | .ok ps => ps.map fun p => (p.1, p.2, t)
  | .error _ => []

/-- The edges that the engine keeps of a call: all of them unless it failed before they were written. -/
def kept {α : Type} (o : Outcome α) (ks : List EdgeKey) : List EdgeKey :=
  match o with
  | .ok _ => ks
  | .error f => if f.isGraphWrite then ks else []

/-- An atlas whose engine was started, got edges and was cleared, any number of times, with the edges
that it has. All ends are texts. Any call may fail, and what the engine reads may lack the edges of
any types. Between calls all may change but the engine. -/
inductive Tended : Atlas → List EdgeKey → Prop
  | new {a : Atlas} (hengine : a.engine = {}) : Tended a []
  | start {a : Atlas} {ks : List EdgeKey} (h : Tended a ks) (hread : ∀ k ∈ a.readable, Spelt k) :
      Tended (startEngine.on a).2 a.readable
  | clear {a : Atlas} {ks : List EdgeKey} (h : Tended a ks) : Tended { a with engine := a.engine.clear } []
  | elsewhere {a b : Atlas} {ks : List EdgeKey} (h : Tended a ks) (hengine : b.engine = a.engine) : Tended b ks
  | one {a b : Atlas} {ks : List EdgeKey} (h : Tended a ks) {source target : String} {type : EdgeType}
      {confidence : Value} {o : Outcome Edge} (hrun : (addEdge source target type confidence).on a = (o, b)) :
      Tended b (ks ++ kept o [(.str source, .str target, type)])
  | several {a b : Atlas} {ks : List EdgeKey} (h : Tended a ks) {es : List Edge}
      (hes : Keyed es) (hspelt : ∀ k ∈ keysOf es, Spelt k) {o : Outcome Unit} (hrun : (addEdges es).on a = (o, b)) :
      Tended b (ks ++ kept o (keysOf es))

/-- Edges go to the engine whether or not they can be written. -/
theorem engine_writeThrough {a b : Atlas} {operation : String} {es : List Edge}
    {write : Act Atlas Unit} {o : Outcome Unit}
    (hes : Keyed es) (hwrite : Writes es write) (hrun : (writeThrough operation es write).on a = (o, b)) :
    b.engine = (keysOf es).foldl Graph.Engine.linkKey a.engine ∧ ∀ ks, kept o ks = ks := by
  obtain ⟨hok, hengine⟩ := links_on es a.engine
  have hlink : (es.forM Graph.Engine.link).on a.engine = (.ok (), linkAll es a.engine) :=
    Prod.ext (hok.2 hes) (hengine (hok.2 hes))
  rw [← Graph.Engine.linkAll_eq hes]
  simp only [Atlas.writeThrough, inEngine, Act.on_bind, Act.on_within, hlink, Act.on_attempt] at hrun
  rcases hwrite { a with engine := linkAll es a.engine } with hw | ⟨f, hw⟩
  · rw [hw] at hrun
    obtain ⟨rfl, rfl⟩ := Prod.mk.inj hrun
    exact ⟨rfl, fun _ => rfl⟩
  · rw [hw] at hrun
    obtain ⟨rfl, rfl⟩ := Prod.mk.inj hrun
    exact ⟨rfl, fun _ => rfl⟩

theorem engine_addEdges {a b : Atlas} {es : List Edge} (hes : Keyed es) {o : Outcome Unit}
    (hrun : (addEdges es).on a = (o, b)) : b.engine = (kept o (keysOf es)).foldl Graph.Engine.linkKey a.engine := by
  cases hready : a.engine.ready with
  | false =>
    simp only [Atlas.addEdges, Act.on_bind, Act.on_get, Act.on_liftOutcome, require_error hready] at hrun
    obtain ⟨rfl, rfl⟩ := Prod.mk.inj hrun
    rfl
  | true =>
    simp only [Atlas.addEdges, Act.on_bind, Act.on_get, Act.on_liftOutcome, require_ok hready] at hrun
    cases es with
    | nil =>
      obtain ⟨rfl, rfl⟩ := Prod.mk.inj hrun
      rfl
    | cons e es =>
      obtain ⟨hengine, hkept⟩ := engine_writeThrough hes (writes_putEdges hes) hrun
      rw [hkept, hengine]

theorem engine_addEdge {a b : Atlas} (source target : Key) {type : EdgeType} {confidence : Value} {o : Outcome Edge}
    (hrun : (addEdge source.toValue target.toValue type confidence).on a = (o, b)) :
    b.engine = (kept o [(source, target, type)]).foldl Graph.Engine.linkKey a.engine := by
  cases hready : a.engine.ready with
  | false =>
    simp only [Atlas.addEdge, Act.on_bind, Act.on_get, Act.on_liftOutcome, require_error hready] at hrun
    obtain ⟨rfl, rfl⟩ := Prod.mk.inj hrun
    rfl
  | true =>
    simp only [Atlas.addEdge, Act.on_bind, Act.on_get, Act.on_liftOutcome, require_ok hready,
      Act.on_ofOutcome] at hrun
    cases hmake : Edge.make source.toValue target.toValue type confidence with
    | error f =>
      rw [hmake] at hrun
      obtain ⟨rfl, rfl⟩ := Prod.mk.inj hrun
      rw [kept, Edge.isGraphWrite_of_make hmake]
      rfl
    | ok e =>
      have hkey := Edge.key_of_make hmake
      have hkeyed : Keyed [e] := List.forall_mem_singleton.2 ⟨_, hkey⟩
      rw [hmake] at hrun
      dsimp only at hrun
      generalize hw : (Atlas.writeThrough "create_edge" [e] (putEdge e)).on a = r at hrun
      obtain ⟨w, c⟩ := r
      obtain ⟨hengine, hkept⟩ := engine_writeThrough hkeyed (writes_putEdge hkeyed) hw
      rw [keysOf_cons hkey []] at hengine
      cases w with
      | ok u =>
        obtain ⟨rfl, rfl⟩ := Prod.mk.inj hrun
        exact hengine
      | error f =>
        obtain ⟨rfl, rfl⟩ := Prod.mk.inj hrun
        rw [hengine]
        exact congrArg (List.foldl _ _) (hkept _).symm

theorem spelt_kept {α : Type} {ks : List EdgeKey} (h : ∀ k ∈ ks, Spelt k) (o : Outcome α) :
    ∀ k ∈ kept o ks, Spelt k := by
  unfold kept
  split
  · exact h
  · split
    · exact h
    · exact fun k hk => absurd hk List.not_mem_nil

theorem Tended.transposes {a : Atlas} {ks : List EdgeKey} (h : Tended a ks) : a.engine.Transposes ks := by
  induction h with
  | new hengine => exact hengine ▸ .empty
  | @start a ks _ hread ih =>
    have hengine : (startEngine.on a).2.engine =
        { a.readable.foldl Graph.Engine.linkKey ({} : Graph.Engine) with ready := true } := by
      show Graph.Engine.ofPairs _ = _
      rw [Graph.Engine.ofPairs, List.flatMap_map]
      rfl
    obtain ⟨hspelt, hout, hinbound⟩ := Graph.Engine.Transposes.empty.foldl_linkKey hread
    rw [hengine]
    exact ⟨hspelt, hout, hinbound⟩
  | clear _ ih => exact ⟨Graph.Engine.Transposes.empty.spelt, .empty, .empty⟩
  | elsewhere _ hengine ih => exact hengine ▸ ih
  | @one a b ks _ source target type confidence o hrun ih =>
    rw [engine_addEdge (.str source) (.str target) hrun]
    exact ih.foldl_linkKey (spelt_kept (List.forall_mem_singleton.2 ⟨⟨source, rfl⟩, ⟨target, rfl⟩⟩) o)
  | @several a b ks _ es hes hspelt o hrun ih =>
    rw [engine_addEdges hes hrun]
    exact ih.foldl_linkKey (spelt_kept hspelt o)

/-! ## What look-ups say -/

/-- The dependencies and the dependents of every reference can be looked up. They are what the edges
of the engine say, each once, and the ones are the others turned round. The references that are
counted are those at the ends of the edges. -/
theorem Tended.lookups_transpose {a : Atlas} {ks : List EdgeKey} (h : Tended a ks) :
    (∀ r type, ∃ found, a.engine.dependencies r type = .ok found ∧ found.Nodup ∧
      ∀ s t, (s, t) ∈ found ↔ type.all (· == t) = true ∧ (r, s, t) ∈ ks) ∧
    (∀ s type, ∃ found, a.engine.dependents s type = .ok found ∧ found.Nodup ∧
      ∀ r t, (r, t) ∈ found ↔ type.all (· == t) = true ∧ (r, s, t) ∈ ks) ∧
    (∀ r s t targets sources, a.engine.dependencies r (some t) = .ok targets →
      a.engine.dependents s (some t) = .ok sources → (s ∈ targets.map Prod.fst ↔ r ∈ sources.map Prod.fst)) ∧
    ∃ state edges counts, a.engine.stats = .obj [("state", state), ("node_count", .int (ends ks).ncard),
      ("edge_count", edges), ("edges_by_type", counts)] := by
  have hall := h.transposes
  refine ⟨hall.dependencies_ok, hall.dependents_ok, fun r s t targets sources htargets hsources => ?_, ?_⟩
  · obtain ⟨found, hfound, -, hmem⟩ := hall.dependencies_ok r (some t)
    obtain ⟨found', hfound', -, hmem'⟩ := hall.dependents_ok s (some t)
    obtain rfl := Except.ok.inj (htargets.symm.trans hfound)
    obtain rfl := Except.ok.inj (hsources.symm.trans hfound')
    simp only [List.mem_map, Prod.exists, exists_and_right, exists_eq_right, hmem, hmem',
      Option.all_some, beq_iff_eq]
  · rw [Graph.Engine.stats, hall.nodeCount_eq]
    exact ⟨_, _, _, rfl⟩

/-- An edge that is stored but cannot be read, and two more that cannot be written. -/
theorem lookups_transpose_around_outage :
    let edge (source target : String) (h : (Value.str source).truthy = true)
      (h' : (Value.str target).truthy = true) :
      Edge := ⟨source, target, .calls, 1.0, h, h'⟩
    let a : Atlas := { Atlas.open {} { directory := .ofString "data", clock := 0 } with
      store := Graph.Store.after {} [.edges [edge "a" "c" rfl rfl]]
      faults := (.putEdges, .mishap .connection) :: EdgeType.all.map fun t => (.readEdges t, .mishap .connection) }
    let b := (startEngine.on a).2
    let c := ((addEdges [edge "a" "b" rfl rfl, edge "b" "a" rfl rfl]).on b).2
    (∃ found, c.engine.dependencies (.str "a") none = .ok found ∧ (.str "b", .calls) ∈ found ∧
      (.str "c", .calls) ∉ found) ∧
    (∃ found, c.engine.dependents (.str "a") (some .calls) = .ok found ∧ (.str "b", .calls) ∈ found) ∧
    ∃ state edges counts, c.engine.stats = .obj [("state", state), ("node_count", .int 2), ("edge_count", edges),
      ("edges_by_type", counts)] := by
  intro edge a b c
  have hkeyed : Keyed [edge "a" "b" rfl rfl, edge "b" "a" rfl rfl] := List.forall_mem_cons.2
    ⟨⟨(.str "a", .str "b", .calls), rfl⟩, List.forall_mem_singleton.2 ⟨(.str "b", .str "a", .calls), rfl⟩⟩
  have hspelt : ∀ k ∈ keysOf [edge "a" "b" rfl rfl, edge "b" "a" rfl rfl], Spelt k := List.forall_mem_cons.2
    ⟨⟨⟨"a", rfl⟩, ⟨"b", rfl⟩⟩, List.forall_mem_singleton.2 ⟨⟨"b", rfl⟩, ⟨"a", rfl⟩⟩⟩
  have hread : a.readable = [] := rfl
  have hb : Tended b [] := .start (.new rfl) fun k hk => absurd (hread ▸ hk) List.not_mem_nil
  have hc : Tended c [(.str "a", .str "b", .calls), (.str "b", .str "a", .calls)] := .several hb hkeyed hspelt rfl
  clear_value c
  obtain ⟨hdependencies, hdependents, -, state, edges, counts, hstats⟩ := Tended.lookups_transpose hc
  obtain ⟨found, hfound, -, hmem⟩ := hdependencies (.str "a") none
  obtain ⟨found', hfound', -, hmem'⟩ := hdependents (.str "a") (some .calls)
  refine ⟨⟨found, hfound, (hmem _ _).2 ⟨rfl, by simp⟩, fun h => ?_⟩,
    ⟨found', hfound', (hmem' _ _).2 ⟨rfl, by simp⟩⟩, ?_⟩
  · simpa using ((hmem _ _).1 h).2
  · have hends : ends [(.str "a", .str "b", .calls), (.str "b", .str "a", .calls)] = {.str "a", .str "b"} := by
      ext r
      simp only [ends, List.mem_cons, List.not_mem_nil, or_false, exists_eq_or_imp, exists_eq_left,
        Set.mem_ofPred_eq, Set.mem_insert_iff, Set.mem_singleton_iff, eq_comm (a := r)]
      tauto
    rw [hends, Set.ncard_pair (by simp)] at hstats
    exact ⟨state, edges, counts, hstats⟩

end Atlas

end SourceAtlas
