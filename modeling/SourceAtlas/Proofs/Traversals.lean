import SourceAtlas.Atlas.Lifecycle
import SourceAtlas.Atlas.Relations
import SourceAtlas.Proofs.Distances
import SourceAtlas.Proofs.Queues
import SourceAtlas.Proofs.StoreStates
import SourceAtlas.Proofs.WriteThrough

/-!
# Traversals

The engine and the store both answer which references are near a given one.
The one walks neighbours that it sorts, the other arcs between numbered nodes;
both find what the edges say, and the same.
-/

namespace SourceAtlas

open Json (Key Value)

private def edgeBetween (source target : String) (type : EdgeType)
    (hsource : (Value.str source).truthy = true := by decide)
    (htarget : (Value.str target).truthy = true := by decide) :
    Edge :=
  ⟨source, target, type, 1.0, hsource, htarget⟩

namespace Graph

/-! ## Nearness -/

inductive Within (ks : List EdgeKey) (type : Option EdgeType) (start : Key) : (n : Nat) → Key → Prop
  | start {n : Nat} : Within ks type start n start
  | step {n : Nat} {k : EdgeKey} (h : Within ks type start n k.1) (hk : k ∈ ks)
      (htype : type.all (· == k.2.2) = true) :
      Within ks type start (n + 1) k.2.1

/-- A traversal lists the references that are near enough, the start first, and the edges out of
those that are nearer still. -/
structure Traversal.Covers (t : Traversal) (ks : List EdgeKey) (type : Option EdgeType)
    (start : Key) (depth : Nat) :
    Prop where
  head : t.nodes.head? = some start.toValue
  nodes_nodup : t.nodes.Nodup
  mem_nodes : ∀ v, v ∈ t.nodes ↔ ∃ r, Within ks type start depth r ∧ r.toValue = v
  edges_nodup : (t.edges.map Edge.toRecord).Nodup
  mem_edges : ∀ e, e ∈ t.edges ↔
    ∃ n k, depth = n + 1 ∧ Within ks type start n k.1 ∧ k ∈ ks ∧ type.all (· == k.2.2) = true ∧ edgeOf k = .ok e

section
variable {t u : Traversal} {ks : List EdgeKey} {type : Option EdgeType} {start : Key} {depth : Nat}

theorem Traversal.Covers.nodes_perm (h : t.Covers ks type start depth) (h' : u.Covers ks type start depth) :
    t.nodes.Perm u.nodes :=
  (List.perm_ext_iff_of_nodup h.nodes_nodup h'.nodes_nodup).2 fun v => (h.mem_nodes v).trans (h'.mem_nodes v).symm

theorem Traversal.Covers.edges_perm (h : t.Covers ks type start depth) (h' : u.Covers ks type start depth) :
    t.edges.Perm u.edges :=
  (List.perm_ext_iff_of_nodup (.of_map _ h.edges_nodup) (.of_map _ h'.edges_nodup)).2 fun e =>
    (h.mem_edges e).trans (h'.mem_edges e).symm

theorem within_iff {n : Nat} {r : Key} :
    Within ks type start n r ↔ distance (hops (· ∈ ks) type .outbound) start r ≤ n := by
  rw [distance_le_iff]
  constructor
  · intro h
    induction h with
    | start => exact ⟨0, Nat.zero_le _, .start⟩
    | @step n k _ hk htype ih =>
      obtain ⟨m, hm, hleads⟩ := ih
      have hop : (⟨k, false⟩ : Hop) ∈ hops (· ∈ ks) type .outbound := mem_hops_outbound.2 ⟨hk, htype, rfl⟩
      exact ⟨m + 1, Nat.succ_le_succ hm, hleads.step hop⟩
  · rintro ⟨m, hm, hleads⟩
    induction hleads generalizing n with
    | start => exact .start
    | @step m h _ hh ih =>
      obtain ⟨k, back⟩ := h
      obtain ⟨hk, htype, rfl⟩ := mem_hops_outbound.1 hh
      obtain ⟨n, rfl⟩ := Nat.exists_eq_succ_of_ne_zero (Nat.ne_of_gt (Nat.lt_of_lt_of_le (Nat.succ_pos m) hm))
      exact .step (ih (Nat.le_of_succ_le_succ hm)) hk htype

/-- The keys of the edges that a traversal takes forwards. -/
theorem Traversal.Takes.forwards {p : EdgeKey → Prop} (h : t.Takes (hops p type .outbound) start depth) :
    ∃ told : List EdgeKey, List.Forall₂ (fun k e => edgeOf k = .ok e) told t.edges ∧ told.Nodup ∧
      ∀ k, k ∈ told ↔ p k ∧ type.all (· == k.2.2) = true ∧ distance (hops p type .outbound) start k.1 < depth := by
  obtain ⟨taken, hedges, hnodup, hmem⟩ := h
  have hforwards : ∀ h ∈ taken, h.back = false := fun h hh => (mem_hops_outbound.1 ((hmem h).1 hh).1).2.2
  refine ⟨taken.map Hop.key, List.forall₂_map_left_iff.2 hedges, hnodup.map_on fun g hg h hh hgh => ?_, fun k => ?_⟩
  · exact Hop.ext hgh ((hforwards g hg).trans (hforwards h hh).symm)
  · rw [List.mem_map]
    constructor
    · rintro ⟨h, hh, rfl⟩
      obtain ⟨hops, hnear⟩ := (hmem h).1 hh
      obtain ⟨hp, htype, -⟩ := mem_hops_outbound.1 hops
      rw [Hop.source, hforwards h hh] at hnear
      exact ⟨hp, htype, hnear⟩
    · rintro ⟨hp, htype, hnear⟩
      exact ⟨⟨k, false⟩, (hmem _).2 ⟨mem_hops_outbound.2 ⟨hp, htype, rfl⟩, hnear⟩, rfl⟩

theorem Traversal.Ranges.covers (h : t.Ranges (distance (hops (· ∈ ks) type .outbound) start) start depth)
    (h' : t.Takes (hops (· ∈ ks) type .outbound) start depth) : t.Covers ks type start depth := by
  obtain ⟨refs, hnodes, hhead, hnodup, hmem, -⟩ := h
  obtain ⟨told, hedges, htold, hmem'⟩ := h'.forwards
  refine ⟨?_, ?_, fun v => ?_, ?_, fun e => ?_⟩
  · rw [hnodes, List.head?_map, hhead]
    rfl
  · rw [hnodes]
    exact hnodup.map fun r s => Key.toValue_inj
  · simp only [hnodes, List.mem_map, within_iff, hmem]
  · have hrecords : told.map recordOf = t.edges.map Edge.toRecord := by
      rw [← List.forall₂_eq_eq_eq, List.forall₂_map_left_iff, List.forall₂_map_right_iff]
      exact hedges.imp fun k e hke => (toRecord_of_edgeOf hke).symm
    exact hrecords ▸ htold.map recordOf_injective
  · have hnear : ∀ r, distance (hops (· ∈ ks) type .outbound) start r < depth ↔
        ∃ n, depth = n + 1 ∧ Within ks type start n r := fun r => by
      cases depth with
      | zero => simp
      | succ n => simp [within_iff, ENat.lt_natCast_add_one_iff]
    constructor
    · intro he
      obtain ⟨k, hk, hke⟩ := exists_of_mem_right hedges he
      obtain ⟨hks, htype, hlt⟩ := (hmem' k).1 hk
      obtain ⟨n, hn, hwithin⟩ := (hnear k.1).1 hlt
      exact ⟨n, k, hn, hwithin, hks, htype, hke⟩
    · rintro ⟨n, k, hn, hwithin, hks, htype, hke⟩
      obtain ⟨e', he', hke'⟩ := exists_of_mem_left hedges ((hmem' k).2 ⟨hks, htype, (hnear k.1).2 ⟨n, hn, hwithin⟩⟩)
      rwa [Except.ok.inj (hke.symm.trans hke')]

end

/-! ## The engine -/

abbrev Engine.ways (x : Engine) (type : Option EdgeType) : Set Hop :=
  hops (fun k => x.out.joins k = true) type .outbound

theorem Engine.charts {x : Engine} (htidy : x.out.Tidy) (hnamed : ∀ k, x.out.joins k = true → Named k)
    (type : Option EdgeType) : Charts (x.steps type) (fun r s => (r == s) = true) (x.ways type) where
  same hx hy := BEq.trans hx (BEq.symm hy)
  congr hx hxy := BEq.trans (BEq.symm hxy) hx
  beq hr hs := BEq.trans (BEq.symm hr) hs
  named h hh := hnamed h.key (mem_hops_outbound.1 hh).1
  follow r := by
    have htexts : ∀ t, ∀ n ∈ x.out.neighbours r t, n.IsText := fun t n hn =>
      (hnamed (r, n, t) (contains_of_mem hn)).2.isText
    obtain ⟨found, hfound, hnodup, hpairs⟩ := x.out.lookup_ok htidy htexts type
    have hsame : List.Forall₂ (fun p h => h = ⟨(r, p.1, p.2), false⟩) found
        (found.map fun p => (⟨(r, p.1, p.2), false⟩ : Hop)) :=
      List.forall₂_map_right_iff.2 (List.forall₂_same.2 fun _ _ => rfl)
    have hsteps : ∃ taken, x.steps type r = .ok taken ∧
        List.Forall₂ (fun (h : Hop) s => (s.next == h.target) = true ∧ edgeOf h.key = .ok s.edge)
          (found.map fun p => ⟨(r, p.1, p.2), false⟩) taken := by
      rw [Engine.steps, Engine.dependencies, hfound]
      refine mapM_ok_of_forall₂ hsame fun p hp h _ hph => ?_
      subst hph
      obtain ⟨e, he⟩ := (hnamed (r, p.1, p.2) (contains_of_mem ((hpairs p.1 p.2).1 hp).2)).edgeOf
      refine ⟨⟨p.1, e⟩, ?_, BEq.rfl, he⟩
      rw [edgeOf] at he
      simp only [he]
      rfl
    obtain ⟨taken, hsteps, htaken⟩ := hsteps
    refine ⟨_, taken, hsteps, hnodup.map fun p q hpq => ?_, fun h => ?_, htaken⟩
    · exact Prod.ext_iff.2 (Prod.mk.inj (Prod.mk.inj (Hop.mk.inj hpq).1).2)
    · simp only [List.mem_map, Prod.exists, hpairs]
      constructor
      · rintro ⟨n, t, ⟨htype, hn⟩, rfl⟩
        exact ⟨mem_hops_outbound.2 ⟨contains_of_mem hn, htype, rfl⟩, BEq.rfl⟩
      · rintro ⟨hh, hr⟩
        obtain ⟨⟨s, n, t⟩, back⟩ := h
        obtain ⟨hjoins, htype, rfl⟩ := mem_hops_outbound.1 hh
        obtain rfl : r = s := (hnamed _ hjoins).1.eq_of_beq hr
        exact ⟨n, t, ⟨htype, (Adjacency.joins_iff htexts).1 hjoins⟩, rfl⟩

theorem Engine.traverse_eq (x : Engine) (start : Key) (depth : Int) (type : Option EdgeType) :
    x.traverse start (.int depth) type = (do
      let found ← search (x.steps type) depth.toNat start
      pure ⟨found.nodes.map Key.toValue, found.steps.map Step.edge⟩) := by
  rw [Engine.traverse, asCount_int]
  rfl

theorem Engine.traverse_ok {x : Engine} (htidy : x.out.Tidy) (hnamed : ∀ k, x.out.joins k = true → Named k)
    (start : Key) (depth : Int) (type : Option EdgeType) :
    ∃ t, x.traverse start (.int depth) type = .ok t ∧
      t.Ranges (distance (x.ways type) start) start depth.toNat ∧ t.Takes (x.ways type) start depth.toNat := by
  have hcharts := Engine.charts htidy hnamed type
  have hfirst : (start == start) = true := BEq.rfl
  refine ⟨_, ?_, hcharts.ranges hfirst (fun hx hr => hr.eq_of_beq hx) depth.toNat _,
    hcharts.takes hfirst depth.toNat _⟩
  rw [Engine.traverse_eq, search_eq hcharts.steps_eq]
  rfl

/-- A loop over a queue ends with what a traversal of the engine lists. -/
theorem Engine.traverse_of_queue {x : Engine} (htidy : x.out.Tidy) (hnamed : ∀ k, x.out.joins k = true → Named k)
    (start : Key) (depth : Int) (type : Option EdgeType) :
    ∃ n nodes found, (Tour.advance (taken (x.steps type)) depth.toNat)^[n]
      ⟨[(start, 0)], [start], []⟩ = ⟨[], nodes, found⟩ ∧
      x.traverse start (.int depth) type = .ok ⟨nodes.map Key.toValue, found.map Step.edge⟩ := by
  obtain ⟨n, nodes, found, hqueue, hsearch⟩ :=
    search_of_queue (Engine.charts htidy hnamed type).steps_eq depth.toNat start
  refine ⟨n, nodes, found, hqueue, ?_⟩
  rw [Engine.traverse_eq, hsearch]
  rfl

/-- A traversal of the engine lists the references that edges lead to within its depth, each once
and the nearer ones first, and the edges out of those that are nearer than its depth, each once. -/
theorem Engine.traverse_by_distance {x : Engine} (htidy : x.out.Tidy) (hnamed : ∀ k, x.out.joins k = true → Named k)
    (start : Key) (depth : Int) (type : Option EdgeType) :
    let d := distance (hops (fun k => x.out.joins k = true) type .outbound) start
    ∃ t, x.traverse start (.int depth) type = .ok t ∧ t.Ranges d start depth.toNat ∧
      ∃ told, List.Forall₂ (fun k e => edgeOf k = .ok e) told t.edges ∧ told.Nodup ∧
        ∀ k, k ∈ told ↔ x.out.joins k = true ∧ type.all (· == k.2.2) = true ∧ d k.1 < depth.toNat := by
  obtain ⟨t, ht, hranges, htakes⟩ := Engine.traverse_ok htidy hnamed start depth type
  exact ⟨t, ht, hranges, htakes.forwards⟩

/-- Two references that call each other, asked for two steps deep. The call back is listed. -/
theorem Engine.traverse_by_distance_on_circle :
    let x : Engine := [(.str "a", .str "b", .calls), (.str "b", .str "a", .calls),
    (.str "b", .str "c", .imports)].foldl
      linkKey {}
    ∃ t, x.traverse (.str "a") (.int 2) (some .calls) = .ok t ∧ t.nodes.head? = some (.str "a") ∧
      .str "b" ∈ t.nodes ∧ ∃ e ∈ t.edges, edgeOf (.str "b", .str "a", .calls) = .ok e := by
  intro x
  have hheld := Engine.Holds.empty.foldl_linkKey
    [(.str "a", .str "b", .calls), (.str "b", .str "a", .calls), (.str "b", .str "c", .imports)]
  have hnamed : ∀ k, x.out.joins k = true → Named k := fun k hk => by
    rw [hheld.out, Bool.or_false, List.contains_iff_exists_mem_beq] at hk
    obtain ⟨j, hj, hkj⟩ := hk
    have hname : Named j := by
      simp only [List.mem_cons, List.not_mem_nil, or_false] at hj
      rcases hj with rfl | rfl | rfl <;> simp [Named, Key.IsName]
    exact hname.eq_of_beq hkj ▸ hname
  obtain ⟨t, ht, ⟨refs, hnodes, hhead, -, hrefs, -⟩, told, hedges, -, htold⟩ :=
    Engine.traverse_by_distance hheld.tidy hnamed (.str "a") 2 (some .calls)
  have hnear : distance (x.ways (some .calls)) (.str "a") (.str "b") ≤ (1 : ℕ) := by
    have hop : (⟨(.str "a", .str "b", .calls), false⟩ : Hop) ∈ x.ways (some .calls) :=
      mem_hops_outbound.2 ⟨rfl, rfl, rfl⟩
    exact distance_le_iff.2 ⟨1, Nat.le_refl 1, Leads.start.step hop⟩
  have hback : (.str "b", .str "a", .calls) ∈ told :=
    (htold _).2 ⟨rfl, rfl, hnear.trans_lt (Nat.cast_lt.2 Nat.one_lt_two)⟩
  obtain ⟨e, he, hedge⟩ := exists_of_mem_left hedges hback
  refine ⟨t, ht, ?_, ?_, e, he, hedge⟩
  · rw [hnodes, List.head?_map, hhead]
    rfl
  · rw [hnodes]
    exact List.mem_map.2 ⟨.str "b", (hrefs _).2 (hnear.trans (Nat.cast_le.2 (Nat.le_succ 1))), rfl⟩

theorem Engine.traverse_covers {x : Engine} {ks : List EdgeKey} (hout : ∀ k, x.out.joins k = ks.contains k)
    (htidy : x.out.Tidy) (hks : ∀ k ∈ ks, Named k) (start : Key) (depth : Int) (type : Option EdgeType) :
    ∃ t, x.traverse start (.int depth) type = .ok t ∧ t.Covers ks type start depth.toNat := by
  have hjoins : ∀ k, x.out.joins k = true ↔ k ∈ ks := fun k => by
    rw [hout, contains_spelt fun k hk => (hks k hk).spelt]
  have hways : x.ways type = hops (· ∈ ks) type .outbound := by simp only [Engine.ways, hjoins]
  obtain ⟨t, ht, hranges, htakes⟩ := Engine.traverse_ok htidy (fun k hk => hks k ((hjoins k).1 hk)) start depth type
  rw [hways] at hranges htakes
  exact ⟨t, ht, hranges.covers htakes⟩

/-! ## The store -/

def Arc.entry (a : Arc) (back : Bool) : Nat := if back then a.target else a.source

def Arc.exit (a : Arc) (back : Bool) : Nat := if back then a.source else a.target

theorem Multigraph.Carries.entry {g : Multigraph} {a : Arc} {h : Hop} (hah : g.Carries a h.key) :
    g.Bears (a.entry h.back) h.source := by
  obtain ⟨k, back⟩ := h
  cases back
  · exact hah.source
  · exact hah.target

theorem Multigraph.Carries.exit {g : Multigraph} {a : Arc} {h : Hop} (hah : g.Carries a h.key) :
    g.Bears (a.exit h.back) h.target := by
  obtain ⟨k, back⟩ := h
  cases back
  · exact hah.target
  · exact hah.source

/-- From one end of an arc the other one is found, also if they are the same. -/
theorem Arc.other_end {a : Arc} {back : Bool} {n : Nat} (h : a.entry back = n) :
    (if a.source == n then a.target else a.source) = a.exit back := by
  subst h
  cases back
  · simp [Arc.entry, Arc.exit]
  · by_cases hloop : a.source = a.target <;> simp [Arc.entry, Arc.exit, hloop]

namespace Edges

open Multigraph (Bears Carries)

variable {x : Edges}

theorem valueAt_eq (x : Edges) (n : Nat) : x.valueAt n = ((x.graph.ref? n).getD .null).toValue := by
  rw [valueAt]
  cases x.graph.ref? n <;> rfl

theorem ref_of_bears {n : Nat} {r : Key} (h : x.graph.Bears n r) (hr : r.IsName) :
    (x.graph.ref? n).getD .null = r := by
  obtain ⟨q, hq, hqr⟩ := h
  rw [hq, hr.eq_of_beq hqr]
  rfl

/-- The arcs that are entered at a node, the newest first. -/
def arcsAt (x : Edges) (n : Nat) (back : Bool) : List Arc := (x.graph.arcs.filter (·.entry back == n)).reverse

def hopsAt (x : Edges) (n : Nat) (back : Bool) : List Hop :=
  ((x.keys.filter fun k => x.index.get? (Hop.mk k back).source == some n).reverse).map (Hop.mk · back)

def hopsFrom (x : Edges) (direction : Direction) (n : Nat) : List Hop :=
  ([false, true].filter direction.follows).flatMap (x.hopsAt n)

theorem incident_eq (x : Edges) (direction : Direction) (n : Nat) :
    x.incident direction n = ([false, true].filter direction.follows).flatMap (x.arcsAt n) := by
  cases direction <;> simp [List.filter_cons, incident, Direction.follows, arcsAt, Arc.entry, Multigraph.outgoing,
    Multigraph.incoming]

section
variable (h : x.Sound)
include h

theorem Sound.mem_hopsAt {n : Nat} {back : Bool} {k : Hop} :
    k ∈ x.hopsAt n back ↔ k.back = back ∧ k.key ∈ x.keys ∧ x.graph.Bears n k.source := by
  simp only [hopsAt, List.mem_map, List.mem_reverse, List.mem_filter, beq_iff_eq, h.indexed]
  constructor
  · rintro ⟨key, ⟨hkey, hn⟩, rfl⟩
    exact ⟨rfl, hkey, hn⟩
  · rintro ⟨rfl, hkey, hn⟩
    exact ⟨k.key, ⟨hkey, hn⟩, rfl⟩

theorem Sound.mem_hopsFrom {direction : Direction} {n : Nat} {k : Hop} : k ∈ x.hopsFrom direction n ↔
    k.key ∈ x.keys ∧ direction.follows k.back = true ∧ x.graph.Bears n k.source := by
  simp only [hopsFrom, List.mem_flatMap, List.mem_filter, h.mem_hopsAt]
  constructor
  · rintro ⟨back, ⟨-, hback⟩, rfl, hkey, hn⟩
    exact ⟨hkey, hback, hn⟩
  · rintro ⟨hkey, hback, hn⟩
    exact ⟨k.back, ⟨by cases k.back <;> simp, hback⟩, rfl, hkey, hn⟩

theorem Sound.nodup_hopsFrom (direction : Direction) (n : Nat) : (x.hopsFrom direction n).Nodup := by
  refine List.nodup_flatMap.2 ⟨fun back _ => ?_, ?_⟩
  · exact (List.nodup_reverse.2 (Distinct.nodup h.distinct |>.filter _)).map fun _ _ hjk => (Hop.mk.inj hjk).1
  · have hways : ([false, true].filter direction.follows).Nodup := List.Nodup.filter _ (by decide)
    exact hways.imp fun {b c} hbc k (hb : k ∈ x.hopsAt n b) hc =>
      hbc ((h.mem_hopsAt.1 hb).1.symm.trans (h.mem_hopsAt.1 hc).1)

theorem Sound.carried_at (n : Nat) (back : Bool) :
    List.Forall₂ (fun a k => x.graph.Carries a k.key) (x.arcsAt n back) (x.hopsAt n back) := by
  rw [hopsAt, List.forall₂_map_right_iff]
  refine List.rel_reverse (forall₂_filter h.carried fun a _ k _ hak => ?_)
  rw [(h.indexed _ (a.entry back)).2 (Carries.entry (h := ⟨k, back⟩) hak)]
  rfl

theorem Sound.carried_from (direction : Direction) (n : Nat) :
    List.Forall₂ (fun a k => x.graph.Carries a k.key) (x.incident direction n) (x.hopsFrom direction n) := by
  rw [incident_eq, hopsFrom]
  refine List.rel_flatMap (List.forall₂_same.2 fun _ _ => rfl) fun back _ hback => ?_
  subst hback
  exact h.carried_at n back

theorem Sound.charts (hks : ∀ k ∈ x.keys, Named k) (type : Option EdgeType) (direction : Direction) :
    Charts (x.steps direction type) x.graph.Bears (hops (· ∈ x.keys) type direction) where
  same hm hn := beq_iff_eq.2 (h.eq_of_bears hm hn)
  congr hm hmn := beq_iff_eq.1 hmn ▸ hm
  beq hr hs := hr.beq hs
  named k hk := hks k.key hk.1
  follow n := by
    have hpairs := forall₂_filter (h.carried_from direction n) (p := fun a => type.all (· == a.type))
      (q := fun k => type.all (· == k.key.2.2)) fun a _ k _ hak => by rw [hak.type]
    have hsteps : ∃ taken, x.steps direction type n = .ok taken ∧
        List.Forall₂ (fun (k : Hop) s => x.graph.Bears s.next k.target ∧ edgeOf k.key = .ok s.edge)
          ((x.hopsFrom direction n).filter fun k => type.all (· == k.key.2.2)) taken := by
      refine mapM_ok_of_forall₂ hpairs fun a _ k hk hak => ?_
      obtain ⟨hkey, -, hn⟩ := h.mem_hopsFrom.1 (List.mem_filter.1 hk).1
      have hnamed := hks k.key hkey
      obtain ⟨e, he⟩ := hnamed.edgeOf
      refine ⟨⟨a.exit k.back, e⟩, ?_, hak.exit, he⟩
      rw [edgeOf] at he
      rw [valueAt_eq, valueAt_eq, ref_of_bears hak.source hnamed.1, ref_of_bears hak.target hnamed.2, hak.type, he,
        Arc.other_end (h.eq_of_bears hak.entry hn)]
      rfl
    obtain ⟨taken, hsteps, htaken⟩ := hsteps
    refine ⟨_, taken, hsteps, (h.nodup_hopsFrom direction n).filter _, fun k => ?_, htaken⟩
    rw [List.mem_filter, h.mem_hopsFrom]
    constructor
    · rintro ⟨⟨hkey, hdirection, hn⟩, htype⟩
      exact ⟨⟨hkey, htype, hdirection⟩, hn⟩
    · rintro ⟨⟨hkey, htype, hdirection⟩, hn⟩
      exact ⟨⟨hkey, hdirection, hn⟩, htype⟩

theorem Sound.query_ok (hks : ∀ k ∈ x.keys, Named k) (start : Key) (depth : Int) (type : Option EdgeType)
    (direction : Direction) :
    ∃ t, x.query start (.int depth) type direction = .ok t ∧
      t.Ranges (distance (hops (· ∈ x.keys) type direction) start) start depth.toNat ∧
      t.Takes (hops (· ∈ x.keys) type direction) start depth.toNat := by
  unfold query
  cases hi : x.index.get? start with
  | none =>
    have hstart : ∀ k ∈ hops (· ∈ x.keys) type direction, k.source ≠ start := fun k hk hstart => by
      obtain ⟨a, -, hak⟩ := exists_of_mem_right h.carried hk.1
      rw [← hstart, (h.indexed k.source (a.entry k.back)).2 hak.entry] at hi
      cases hi
    exact ⟨_, rfl, Traversal.ranges_at hstart _, Traversal.takes_at hstart _⟩
  | some i =>
    have hcharts := h.charts hks type direction
    have hfirst := (h.indexed start i).1 hi
    refine ⟨_, ?_, hcharts.ranges hfirst ref_of_bears depth.toNat _, hcharts.takes hfirst depth.toNat _⟩
    rw [asCount_int]
    show (do let found ← search (x.steps direction type) depth.toNat i; _) = _
    rw [search_eq hcharts.steps_eq]
    simp only [← valueAt_eq]
    rfl

theorem Sound.query_covers (hks : ∀ k ∈ x.keys, Named k) (start : Key) (depth : Int) (type : Option EdgeType) :
    ∃ t, x.query start (.int depth) type .outbound = .ok t ∧ t.Covers x.keys type start depth.toNat := by
  obtain ⟨t, ht, hranges, htakes⟩ := h.query_ok hks start depth type .outbound
  exact ⟨t, ht, hranges.covers htakes⟩

end

end Edges

open Classical in
theorem count_key {taken : List Hop} (hnodup : taken.Nodup) (hnamed : ∀ h ∈ taken, Named h.key) (k : EdgeKey) :
    (taken.map Hop.key).count k = (if ⟨k, false⟩ ∈ taken then 1 else 0) + if ⟨k, true⟩ ∈ taken then 1 else 0 := by
  induction taken with
  | nil => rfl
  | cons h taken ih =>
    obtain ⟨hnew, hnodup⟩ := List.nodup_cons.1 hnodup
    obtain ⟨hname, hnamed⟩ := List.forall_mem_cons.1 hnamed
    rw [List.map_cons, List.count_cons, ih hnodup hnamed]
    by_cases hk : h.key = k
    · subst hk
      obtain ⟨k, back⟩ := h
      cases back <;> simp [hnew, Nat.add_comm]
    · have hbeq : (h.key == k) = false := Bool.eq_false_iff.2 fun hbeq => hk (hname.eq_of_beq (BEq.symm hbeq)).symm
      have hother : ∀ back, (⟨k, back⟩ : Hop) ≠ h := fun back heq => hk (congrArg Hop.key heq).symm
      simp [hbeq, hother]

/-- How often a traversal takes an edge: once out of each end from where it may be followed and that is
nearer than its depth. -/
theorem Traversal.Takes.count {t : Traversal} {ks : List EdgeKey} {type : Option EdgeType} {direction : Direction}
    {start : Key} {depth : Nat} (h : t.Takes (hops (· ∈ ks) type direction) start depth) (hks : ∀ k ∈ ks, Named k) :
    let near := fun k back => direction.follows back = true ∧
      distance (hops (· ∈ ks) type direction) start (Hop.mk k back).source < depth
    ∃ told : List EdgeKey, List.Forall₂ (fun k e => edgeOf k = .ok e) told t.edges ∧
      (∀ k ∈ told, k ∈ ks ∧ type.all (· == k.2.2) = true) ∧
      ∀ k ∈ ks, type.all (· == k.2.2) = true → told.count k =
        (if near k false then 1 else 0) + if near k true then 1 else 0 := by
  intro near
  obtain ⟨taken, hedges, hnodup, hmem⟩ := h
  refine ⟨taken.map Hop.key, List.forall₂_map_left_iff.2 hedges, List.forall_mem_map.2 fun h hh => ?_,
    fun k hk htype => ?_⟩
  · obtain ⟨hkey, htype, -⟩ := ((hmem h).1 hh).1
    exact ⟨hkey, htype⟩
  · have htaken : ∀ back, (⟨k, back⟩ : Hop) ∈ taken ↔ near k back := fun back => by
      rw [hmem]
      exact ⟨fun ⟨hways, hnear⟩ => ⟨hways.2.2, hnear⟩, fun ⟨hback, hnear⟩ => ⟨⟨hk, htype, hback⟩, hnear⟩⟩
    rw [count_key hnodup fun h hh => hks h.key ((hmem h).1 hh).1.1]
    simp only [htaken]

/-- A query of a store lists the references within its depth, along edges that are followed forwards,
backwards or both ways, each once and the nearer ones first. Forwards it lists an edge if its source is
nearer than the depth, backwards if its target is, and both ways once for each of them. -/
theorem Store.query_by_distance (cs : List Store.Change) (hnamed : ∀ k ∈ (Store.after {} cs).edges.keys, Named k)
    (start : Key) (depth : Int) (type : Option EdgeType) (direction : Direction) :
    let x := (Store.after {} cs).edges
    let d := distance (hops (· ∈ x.keys) type direction) start
    ∃ t, x.query start (.int depth) type direction = .ok t ∧ t.Ranges d start depth.toNat ∧
      ∃ told : List EdgeKey, List.Forall₂ (fun k e => edgeOf k = .ok e) told t.edges ∧
        (∀ k ∈ told, k ∈ x.keys ∧ type.all (· == k.2.2) = true) ∧
        ∀ k ∈ x.keys, type.all (· == k.2.2) = true → told.count k =
          match direction with
          | .outbound => if d k.1 < depth.toNat then 1 else 0
          | .inbound => if d k.2.1 < depth.toNat then 1 else 0
          | .both => (if d k.1 < depth.toNat then 1 else 0) + if d k.2.1 < depth.toNat then 1 else 0 := by
  intro x d
  have hsound : x.Sound := Store.Linked.after Edges.Sound.empty cs
  obtain ⟨t, ht, hranges, htakes⟩ := hsound.query_ok hnamed start depth type direction
  obtain ⟨told, hedges, htold, hcount⟩ := htakes.count hnamed
  refine ⟨t, ht, hranges, told, hedges, htold, fun k hk htype => ?_⟩
  rw [hcount k hk htype]
  cases direction <;> simp [Direction.follows, Hop.source, d]

/-- A reference that calls itself and another one, asked for both ways. Its call of itself is listed
twice. -/
theorem Store.query_by_distance_of_loop :
    let x := (Store.after {} [.edges [edgeBetween "a" "a" .calls, edgeBetween "b" "a" .calls]]).edges
    ∃ t, x.query (.str "a") (.int 1) none .both = .ok t ∧ t.nodes = [.str "a", .str "b"] ∧
      ∃ told : List EdgeKey, List.Forall₂ (fun k e => edgeOf k = .ok e) told t.edges ∧
        told.count (.str "a", .str "a", .calls) = 2 := by
  intro x
  have hkeys : x.keys = [(.str "a", .str "a", .calls), (.str "b", .str "a", .calls)] := rfl
  have hnamed : ∀ k ∈ x.keys, Named k := by
    rw [hkeys]
    simp [Named, Key.IsName]
  obtain ⟨t, ht, -, told, hedges, -, hcount⟩ := Store.query_by_distance _ hnamed (.str "a") 1 none .both
  refine ⟨t, ht, ?_, told, hedges, ?_⟩
  · obtain rfl := Except.ok.inj ht
    rfl
  · rw [hcount (.str "a", .str "a", .calls) List.mem_cons_self rfl]
    simp [distance_start]

end Graph

/-! ## Both -/

namespace Atlas

/-- Where the engine holds the stored edges, both ways of asking for the references within some
depth of a start answer, with the start first, the same references and the same edges: those that
the stored edges lead to, each once. -/
theorem traverse_agrees_with_reach {a : Atlas} (cs : List Graph.Store.Change)
    (hstored : a.store.edges = (Graph.Store.after {} cs).edges)
    (hnamed : ∀ k ∈ a.store.edges.keys, Graph.Named k)
    (hheld : ∀ k, a.engine.out.joins k = a.store.edges.keys.contains k) (htidy : a.engine.out.Tidy)
    (hserves : a.serves .queryEdges = true) (start : Key) (depth : Int) (type : Option EdgeType) :
    let u := a.reach start.toValue (.int depth) type .outbound
    u.Covers a.store.edges.keys type start depth.toNat ∧
    ∃ t, a.engine.traverse start (.int depth) type = .ok t ∧ t.Covers a.store.edges.keys type start depth.toNat ∧
      t.nodes.Perm u.nodes ∧ t.edges.Perm u.edges := by
  intro u
  have hsound : a.store.edges.Sound := hstored ▸ Graph.Store.Linked.after Graph.Edges.Sound.empty cs
  obtain ⟨v, hv, hvcovers⟩ := hsound.query_covers hnamed start depth type
  have hu : u = v := by
    have hquery : a.queryEdges start.toValue (.int depth) type .outbound = .ok v := by
      rw [queryEdges, check_eq_ok hserves, asKey_toValue]
      exact hv
    show a.reach start.toValue (.int depth) type .outbound = v
    rw [reach, hquery]
  obtain ⟨t, ht, htcovers⟩ := a.engine.traverse_covers hheld htidy hnamed start depth type
  rw [hu]
  exact ⟨hvcovers, t, ht, htcovers, htcovers.nodes_perm hvcovers, htcovers.edges_perm hvcovers⟩

private def onCircle : Atlas :=
  (startEngine.on { Atlas.open {} { directory := .ofString "data", clock := 0 } with
    store := Graph.Store.after {} [.edges [edgeBetween "a" "c" .calls, edgeBetween "a" "b" .imports,
      edgeBetween "a" "b" .calls, edgeBetween "b" "a" .calls, edgeBetween "b" "c" .calls,
      edgeBetween "c" "d" .calls,
      edgeBetween "d" "e" .calls]] }).2

/-- Calls in a circle with an import beside one of them, asked for two steps deep. -/
theorem traverse_agrees_with_reach_on_circle :
    let u := onCircle.reach (.str "a") (.int 2) none .outbound
    u.nodes = [.str "a", .str "b", .str "c", .str "d"] ∧ u.edges.length = 6 ∧
    ∃ t, onCircle.engine.traverse (.str "a") (.int 2) none = .ok t ∧ t.nodes.Perm u.nodes ∧
    t.edges.Perm u.edges := by
  have hkeys : onCircle.store.edges.keys = [(.str "a", .str "c", .calls), (.str "a", .str "b", .imports),
      (.str "a", .str "b", .calls), (.str "b", .str "a", .calls), (.str "b", .str "c", .calls),
      (.str "c", .str "d", .calls), (.str "d", .str "e", .calls)] := rfl
  have hnamed : ∀ k ∈ onCircle.store.edges.keys, Graph.Named k := by
    rw [hkeys]
    simp [Graph.Named, Key.IsName]
  obtain ⟨-, -, hheld⟩ : Mirrored onCircle [] := (WriteThrough.start [.edges _] rfl fun _ => rfl).mirrored
  obtain ⟨-, t, ht, -, hnodes, hedges⟩ := traverse_agrees_with_reach [.edges _] rfl hnamed
    (fun k => (hheld.out k).trans (Bool.or_false _)) hheld.tidy rfl (.str "a") 2 none
  exact ⟨rfl, rfl, t, ht, hnodes, hedges⟩

end Atlas

end SourceAtlas
