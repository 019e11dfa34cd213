import SourceAtlas.Atlas.Relations
import SourceAtlas.Proofs.Adjacency
import SourceAtlas.Proofs.StoreStates

/-!
# Edges written through the engine

New edges go to the engine and from there to the store. The engine has what
the store has, and besides only the edges of calls whose write failed. These
are gone once the engine is started again.
-/

namespace SourceAtlas

open Json (Value Key)

def Failure.isGraphWrite : Failure → Bool
  | .report .graphWrite _ _ => true
  | _ => false

/-! ## Making edges -/

theorem isGraphWrite_of_asFloat {v : Value} {f : Failure} (h : asFloat v = .error f) : f.isGraphWrite = false := by
  unfold asFloat at h
  split at h
  · cases h
  · unfold floatOf at h
    split at h
    · cases h
      rfl
    · cases h
  · cases h
  · cases h
    rfl

/-- An edge that cannot be made is not one that could not be written. -/
theorem Edge.isGraphWrite_of_make {source target confidence : Value} {type : EdgeType} {f : Failure}
    (h : Edge.make source target type confidence = .error f) : f.isGraphWrite = false := by
  unfold Edge.make at h
  split at h
  · cases hconfidence : asConfidence confidence with
    | ok c =>
      rw [hconfidence] at h
      cases h
    | error g =>
      rw [hconfidence] at h
      cases h
      unfold asConfidence at hconfidence
      split at hconfidence
      · cases hconfidence
        rfl
      · split at hconfidence
        · cases hconfidence
          rfl
        · exact isGraphWrite_of_asFloat hconfidence
  · cases h
    rfl

theorem Edge.key_of_make {source target : Key} {type : EdgeType} {confidence : Value} {e : Edge}
    (h : Edge.make source.toValue target.toValue type confidence = .ok e) : e.key = .ok (source, target, type) := by
  unfold Edge.make at h
  split at h
  · obtain ⟨c, -, hc⟩ := bind_eq_ok.1 h
    obtain rfl := Except.ok.inj hc
    simp only [Edge.key, asKey_toValue]
    rfl
  · cases h

namespace Atlas

/-- The edges that the store lacks after a call: all of them if their write failed. -/
def lost {α : Type} (o : Outcome α) (ks : List EdgeKey) : List EdgeKey :=
  match o with
  | .ok _ => []
  | .error f => if f.isGraphWrite then ks else []

/-- An atlas whose engine was started and since then got edges, with the edges of the calls whose
write failed since the last start. Between calls all may change but the engine and the stored edges. -/
inductive WriteThrough : Atlas → List EdgeKey → Prop
  | start {a : Atlas} (cs : List Graph.Store.Change) (hedges : a.store.edges = (Graph.Store.after {} cs).edges)
      (hreads : ∀ t, a.serves (.readEdges t) = true) : WriteThrough (startEngine.on a).2 []
  | restart {a : Atlas} {failed : List EdgeKey} (h : WriteThrough a failed)
      (hreads : ∀ t, a.serves (.readEdges t) = true) : WriteThrough (startEngine.on a).2 []
  | elsewhere {a b : Atlas} {failed : List EdgeKey} (h : WriteThrough a failed) (hengine : b.engine = a.engine)
      (hedges : b.store.edges = a.store.edges) : WriteThrough b failed
  | one {a b : Atlas} {failed : List EdgeKey} (h : WriteThrough a failed) {source target : Key} {type : EdgeType}
      {confidence : Value} {o : Outcome Edge}
      (hrun : (addEdge source.toValue target.toValue type confidence).on a = (o, b)) :
      WriteThrough b (failed ++ lost o [(source, target, type)])
  | several {a b : Atlas} {failed : List EdgeKey} (h : WriteThrough a failed) {es : List Edge} (hes : Keyed es)
      {o : Outcome Unit} (hrun : (addEdges es).on a = (o, b)) : WriteThrough b (failed ++ lost o (keysOf es))

/-! ## Steps -/

structure Mirrored (a : Atlas) (failed : List EdgeKey) : Prop where
  ready : a.engine.ready = true
  sound : a.store.edges.Sound
  holds : a.engine.Holds fun k => a.store.edges.keys.contains k || failed.contains k

theorem edgesOfType_eq {a : Atlas} {t : EdgeType} (h : a.serves (.readEdges t) = true) :
    a.edgesOfType t = .ok (a.store.edges.ofType t) := by
  rw [edgesOfType, check_eq_ok h]
  rfl

theorem mirrored_start {a : Atlas} (hsound : a.store.edges.Sound) (hreads : ∀ t, a.serves (.readEdges t) = true) :
    Mirrored (startEngine.on a).2 [] := by
  have hread : (EdgeType.all.map fun t => (t, a.edgesOfType t)) =
      EdgeType.all.map fun t => (t, .ok (a.store.edges.ofType t)) :=
    List.map_congr_left fun t _ => by rw [edgesOfType_eq (hreads t)]
  have hengine : (startEngine.on a).2.engine =
      { a.store.edges.listed.foldl Graph.Engine.linkKey ({} : Graph.Engine) with ready := true } := by
    show Graph.Engine.ofPairs _ = _
    rw [hread, Graph.Engine.ofPairs, List.flatMap_map]
    rfl
  have hall := Graph.Engine.Holds.empty.foldl_linkKey a.store.edges.listed
  refine ⟨by rw [hengine], hsound, ?_⟩
  rw [hengine]
  refine Graph.Engine.Holds.congr ⟨hall.out, hall.inbound, hall.tidy⟩ fun k => ?_
  show _ = (a.store.edges.keys.contains k || false)
  rw [Bool.or_false, Bool.or_false, hsound.contains_listed]

/-- Whether an action writes edges to the store, or fails and changes nothing. -/
def Writes (es : List Edge) (write : Act Atlas Unit) : Prop :=
  ∀ a, write.on a = (.ok (), { a with store := { a.store with edges := edgesWith es a.store.edges } }) ∨
    ∃ f, write.on a = (.error f, a)

theorem writes_putEdges {es : List Edge} (hes : Keyed es) : Writes es (putEdges es) := by
  intro a
  obtain ⟨hok, hstore⟩ := putEdges_on es a.store
  have hrun : (es.forM Graph.Store.putEdge).on a.store =
      (.ok (), { a.store with edges := edgesWith es a.store.edges }) :=
    Prod.ext (hok.2 hes) (hstore (hok.2 hes))
  simp only [putEdges, inStore, Act.on_bind, on_serving, Act.on_within]
  cases hs : a.serves .putEdges with
  | true =>
    rw [check_eq_ok hs]
    simp only [hrun]
    exact .inl trivial
  | false =>
    obtain ⟨f, hf⟩ := check_eq_error hs
    rw [hf]
    exact .inr ⟨f, rfl⟩

theorem writes_putEdge {e : Edge} (he : Keyed [e]) : Writes [e] (putEdge e) := by
  intro a
  obtain ⟨k, hk⟩ := he e List.mem_cons_self
  simp only [putEdge, Graph.Store.putEdge, inStore, Act.on_bind, on_serving, Act.on_within, Act.on_liftOutcome, hk]
  cases hs : a.serves .putEdge with
  | true =>
    rw [check_eq_ok hs, edgesWith_eq, keysOf_cons hk]
    exact .inl rfl
  | false =>
    obtain ⟨f, hf⟩ := check_eq_error hs
    rw [hf]
    exact .inr ⟨f, rfl⟩

theorem Mirrored.writeThrough {a b : Atlas} {failed : List EdgeKey} {o : Outcome Unit} (h : Mirrored a failed)
    {operation : String} {es : List Edge} {write : Act Atlas Unit} (hes : Keyed es) (hwrite : Writes es write)
    (hrun : (writeThrough operation es write).on a = (o, b)) : Mirrored b (failed ++ lost o (keysOf es)) := by
  obtain ⟨hok, hengine⟩ := links_on es a.engine
  have hlink : (es.forM Graph.Engine.link).on a.engine = (.ok (), linkAll es a.engine) :=
    Prod.ext (hok.2 hes) (hengine (hok.2 hes))
  have hready : (linkAll es a.engine).ready = true := (ready_linkAll es a.engine).trans h.ready
  have hholds := h.holds.linkAll hes
  simp only [Atlas.writeThrough, inEngine, Act.on_bind, Act.on_within, hlink, Act.on_attempt] at hrun
  rcases hwrite { a with engine := linkAll es a.engine } with hw | ⟨f, hw⟩
  · rw [hw] at hrun
    obtain ⟨rfl, rfl⟩ := Prod.mk.inj hrun
    refine ⟨hready, ?_, hholds.congr fun k => ?_⟩
    · show (edgesWith es a.store.edges).Sound
      rw [edgesWith_eq]
      exact h.sound.foldl_put _
    · show _ = ((edgesWith es a.store.edges).keys.contains k || (failed ++ []).contains k)
      rw [edgesWith_eq, Graph.Edges.contains_foldl_put, List.append_nil, Bool.or_assoc]
  · rw [hw] at hrun
    obtain ⟨rfl, rfl⟩ := Prod.mk.inj hrun
    refine ⟨hready, h.sound, hholds.congr fun k => ?_⟩
    show _ = (a.store.edges.keys.contains k || (failed ++ keysOf es).contains k)
    rw [List.contains_append, Bool.or_left_comm, Bool.or_comm (failed.contains k)]

theorem Mirrored.addEdges {a b : Atlas} {failed : List EdgeKey} {o : Outcome Unit} (h : Mirrored a failed)
    {es : List Edge} (hes : Keyed es) (hrun : (addEdges es).on a = (o, b)) :
    Mirrored b (failed ++ lost o (keysOf es)) := by
  simp only [Atlas.addEdges, Act.on_bind, Act.on_get, Act.on_liftOutcome, require_ok h.ready] at hrun
  cases es with
  | nil =>
    obtain ⟨rfl, rfl⟩ := Prod.mk.inj hrun
    exact (List.append_nil failed).symm ▸ h
  | cons e es => exact h.writeThrough hes (writes_putEdges hes) hrun

theorem Mirrored.addEdge {a b : Atlas} {failed : List EdgeKey} {o : Outcome Edge} (h : Mirrored a failed)
    {source target : Key} {type : EdgeType} {confidence : Value}
    (hrun : (addEdge source.toValue target.toValue type confidence).on a = (o, b)) :
    Mirrored b (failed ++ lost o [(source, target, type)]) := by
  simp only [Atlas.addEdge, Act.on_bind, Act.on_get, Act.on_liftOutcome, require_ok h.ready,
    Act.on_ofOutcome] at hrun
  cases hmake : Edge.make source.toValue target.toValue type confidence with
  | error f =>
    rw [hmake] at hrun
    obtain ⟨rfl, rfl⟩ := Prod.mk.inj hrun
    have hkept : lost (.error f : Outcome Edge) [(source, target, type)] = [] := by
      rw [lost, Edge.isGraphWrite_of_make hmake]
      rfl
    rw [hkept, List.append_nil]
    exact h
  | ok e =>
    have hkey := Edge.key_of_make hmake
    have hkeyed : Keyed [e] := fun d hd => ⟨_, List.mem_singleton.1 hd ▸ hkey⟩
    have hkeys : keysOf [e] = [(source, target, type)] := keysOf_cons hkey []
    rw [hmake] at hrun
    dsimp only at hrun
    generalize hw : (Atlas.writeThrough "create_edge" [e] (putEdge e)).on a = r at hrun
    obtain ⟨w, c⟩ := r
    have hstep := h.writeThrough hkeyed (writes_putEdge hkeyed) hw
    rw [hkeys] at hstep
    cases w with
    | ok u =>
      obtain ⟨rfl, rfl⟩ := Prod.mk.inj hrun
      exact hstep
    | error f =>
      obtain ⟨rfl, rfl⟩ := Prod.mk.inj hrun
      exact hstep

theorem WriteThrough.mirrored {a : Atlas} {failed : List EdgeKey} (h : WriteThrough a failed) :
    Mirrored a failed := by
  induction h with
  | start cs hedges hreads =>
    refine mirrored_start ?_ hreads
    rw [hedges]
    exact Graph.Store.Linked.after Graph.Edges.Sound.empty cs
  | restart _ hreads ih => exact mirrored_start ih.sound hreads
  | elsewhere _ hengine hedges ih =>
    obtain ⟨hready, hsound, hholds⟩ := ih
    rw [← hengine] at hready hholds
    rw [← hedges] at hsound hholds
    exact ⟨hready, hsound, hholds⟩
  | one _ hrun ih => exact ih.addEdge hrun
  | several _ hes hrun ih => exact ih.addEdges hes hrun

/-! ## What the engine has -/

/-- The engine has the edges of the store and those of failed writes, from both ends. Without
failed writes, its statistics are those of the store. -/
theorem WriteThrough.engine_mirrors_store {a : Atlas} {failed : List EdgeKey} (h : WriteThrough a failed) :
    (∀ k, a.engine.out.joins k = (a.store.edges.keys.contains k || failed.contains k)) ∧
    (∀ k, a.engine.inbound.joins (k.2.1, k.1, k.2.2) = a.engine.out.joins k) ∧
    (failed = [] → ∃ nodes counts,
      a.engine.stats = .obj [("state", "ready"), ("node_count", nodes),
        ("edge_count", .int a.store.edges.size), ("edges_by_type", .obj counts)] ∧
      ∀ t, Json.Record.given counts t.name (.int 0) = .int (a.store.edges.ofType t).length) := by
  obtain ⟨hready, hsound, hholds⟩ := h.mirrored
  refine ⟨hholds.out, fun k => (hholds.inbound k).trans (hholds.out k).symm, ?_⟩
  rintro rfl
  have hstored : a.engine.Holds a.store.edges.keys.contains := hholds.congr fun k => Bool.or_false _
  have hstate : a.engine.stateName = "ready" := by rw [Graph.Engine.stateName, hready]; rfl
  refine ⟨_, _, by rw [Graph.Engine.stats, hstate, hstored.edgeCount hsound.distinct]; rfl, fun t => ?_⟩
  rw [Graph.Engine.given_countOf, hstored.countOf hsound.distinct, hsound.length_ofType]

/-- Edges whose write fails are in the engine alone, and gone when the engine is started again. -/
theorem engine_mirrors_store_around_outage :
    let edge (target : String) (h : (Value.str target).truthy = true) : Edge := ⟨"a", target, .calls, 1.0, rfl, h⟩
    let a : Atlas := (startEngine.on (Atlas.open {} { directory := .ofString "data", clock := 0 })).2
    let b := ((addEdges [edge "b" rfl]).on a).2
    let c := ((addEdges [edge "b" rfl, edge "c" rfl]).on { b with faults := [(.putEdges, .mishap .connection)] }).2
    let d := (startEngine.on { c with faults := [] }).2
    let failed : List EdgeKey := [(.str "a", .str "b", .calls), (.str "a", .str "c", .calls)]
    c.store.edges.keys = [(.str "a", .str "b", .calls)] ∧
    (∀ k, c.engine.out.joins k = (c.store.edges.keys.contains k || failed.contains k)) ∧
    (∀ k, d.engine.out.joins k = c.store.edges.keys.contains k) ∧
    ∃ nodes counts, d.engine.stats = .obj [("state", "ready"), ("node_count", nodes), ("edge_count", .int 1),
      ("edges_by_type", .obj counts)] ∧ Json.Record.given counts "CALLS" (.int 0) = .int 1 := by
  intro edge a b c d failed
  have hfirst : Keyed [edge "b" rfl] := List.forall_mem_singleton.2 ⟨(.str "a", .str "b", .calls), rfl⟩
  have hsecond : Keyed [edge "c" rfl] := List.forall_mem_singleton.2 ⟨(.str "a", .str "c", .calls), rfl⟩
  have hboth : Keyed [edge "b" rfl, edge "c" rfl] := List.forall_mem_append.2 ⟨hfirst, hsecond⟩
  have ha : WriteThrough a [] := .start [] rfl fun _ => rfl
  have hb : WriteThrough b [] := .several ha hfirst rfl
  have houtage : WriteThrough { b with faults := [(.putEdges, .mishap .connection)] } [] := .elsewhere hb rfl rfl
  have hc : WriteThrough c failed := .several houtage hboth rfl
  have hd : WriteThrough d [] := .restart (.elsewhere hc rfl rfl) fun _ => rfl
  obtain ⟨hout, -, hstats⟩ := WriteThrough.engine_mirrors_store hd
  obtain ⟨nodes, counts, hrecord, hcounts⟩ := hstats rfl
  refine ⟨rfl, (WriteThrough.engine_mirrors_store hc).1, fun k => (hout k).trans (Bool.or_false _),
    nodes, counts, ?_, ?_⟩
  · exact hrecord
  · exact hcounts .calls

end Atlas

end SourceAtlas
