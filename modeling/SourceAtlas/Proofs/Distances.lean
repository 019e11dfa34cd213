import Mathlib.Data.ENat.Lattice
import SourceAtlas.Proofs.Breadth
import SourceAtlas.Proofs.Lookups

/-!
# Distances

How far references are from a start along edges that are followed forwards,
backwards or both ways. Where the nodes of a search stand for references and
its steps for edges, the search lists references by their distance, and
follows the edges at those that are nearer than its depth.
-/

namespace SourceAtlas.Graph

open Json (Key Value)

/-! ## Hops -/

/-- An edge that is followed, forwards or backwards. -/
@[ext] structure Hop where
  key : EdgeKey
  back : Bool

namespace Hop

def source (h : Hop) : Key := if h.back then h.key.2.1 else h.key.1

def target (h : Hop) : Key := if h.back then h.key.1 else h.key.2.1

theorem isName_source {h : Hop} (hnamed : Named h.key) : h.source.IsName := by
  rw [source]
  split
  · exact hnamed.2
  · exact hnamed.1

theorem isName_target {h : Hop} (hnamed : Named h.key) : h.target.IsName := by
  rw [target]
  split
  · exact hnamed.1
  · exact hnamed.2

end Hop

def Direction.follows : Direction → (back : Bool) → Bool
  | outbound, back => !back
  | inbound, back => back
  | both, _ => true

def hops (p : EdgeKey → Prop) (type : Option EdgeType) (direction : Direction) : Set Hop :=
  {h | p h.key ∧ type.all (· == h.key.2.2) = true ∧ direction.follows h.back = true}

theorem mem_hops_outbound {p : EdgeKey → Prop} {type : Option EdgeType} {h : Hop} :
    h ∈ hops p type .outbound ↔ p h.key ∧ type.all (· == h.key.2.2) = true ∧ h.back = false := by
  simp [hops, Direction.follows]

inductive Leads (ways : Set Hop) (start : Key) : (n : Nat) → Key → Prop
  | start : Leads ways start 0 start
  | step {n : Nat} {h : Hop} (hn : Leads ways start n h.source) (hh : h ∈ ways) : Leads ways start (n + 1) h.target

noncomputable def distance (ways : Set Hop) (start r : Key) : ℕ∞ := ⨅ (n : ℕ) (_ : Leads ways start n r), (n : ℕ∞)

section
variable {ways : Set Hop} {start r : Key} {n : Nat}

theorem distance_le_iff : distance ways start r ≤ n ↔ ∃ m ≤ n, Leads ways start m r := by
  refine ⟨fun h => ?_, fun ⟨m, hm, hr⟩ => (iInf₂_le m hr).trans (Nat.cast_le.2 hm)⟩
  by_contra hnone
  have hlater : ((n + 1 : ℕ) : ℕ∞) ≤ distance ways start r := le_iInf₂ fun m hr =>
    Nat.cast_le.2 (Nat.lt_of_not_le fun hm => hnone ⟨m, hm, hr⟩)
  exact absurd (Nat.cast_le.1 (hlater.trans h)) (Nat.not_succ_le_self n)

theorem distance_le_of_forall {s : Key} (h : ∀ n : ℕ, distance ways start s ≤ n → distance ways start r ≤ n) :
    distance ways start r ≤ distance ways start s := WithTop.forall_le_coe_iff_le.1 h

theorem distance_start (ways : Set Hop) (start : Key) : distance ways start start = 0 :=
  nonpos_iff_eq_zero.1 (iInf₂_le 0 .start)

theorem Leads.isName (h : Leads ways start n r) (hnamed : ∀ h ∈ ways, Named h.key) : r = start ∨ r.IsName := by
  cases h with
  | start => exact .inl rfl
  | step _ hh => exact .inr (Hop.isName_target (hnamed _ hh))

/-- From a start that no hop leaves there is no way to other references. -/
theorem Leads.eq_start (h : Leads ways start n r) (hstart : ∀ h ∈ ways, h.source ≠ start) : r = start := by
  induction h with
  | start => rfl
  | step _ hh ih => exact absurd ih (hstart _ hh)

theorem distance_eq_top (hstart : ∀ h ∈ ways, h.source ≠ start) (hr : r ≠ start) : distance ways start r = ⊤ :=
  iInf₂_eq_top.2 fun _ h => absurd (h.eq_start hstart) hr

end

/-! ## Traversals by distance -/

/-- A traversal lists the references that are near enough, each once and the nearer ones first. -/
def Traversal.Ranges (t : Traversal) (d : Key → ℕ∞) (start : Key) (depth : Nat) : Prop :=
  ∃ refs : List Key, t.nodes = refs.map Key.toValue ∧ refs.head? = some start ∧ refs.Nodup ∧
    (∀ r, r ∈ refs ↔ d r ≤ depth) ∧ refs.Pairwise fun r s => d r ≤ d s

/-- A traversal takes once each hop out of a reference that is nearer than its depth. -/
def Traversal.Takes (t : Traversal) (ways : Set Hop) (start : Key) (depth : Nat) : Prop :=
  ∃ taken : List Hop, List.Forall₂ (fun h e => edgeOf h.key = .ok e) taken t.edges ∧ taken.Nodup ∧
    ∀ h, h ∈ taken ↔ h ∈ ways ∧ distance ways start h.source < depth

section
variable {ways : Set Hop} {start : Key}

theorem Traversal.ranges_at (hstart : ∀ h ∈ ways, h.source ≠ start) (depth : Nat) :
    (Traversal.at start.toValue).Ranges (distance ways start) start depth := by
  refine ⟨[start], rfl, rfl, List.nodup_singleton _, fun r => ?_, List.pairwise_singleton _ _⟩
  rw [List.mem_singleton, distance_le_iff]
  constructor
  · rintro rfl
    exact ⟨0, Nat.zero_le _, .start⟩
  · rintro ⟨m, -, hr⟩
    exact hr.eq_start hstart

theorem Traversal.takes_at (hstart : ∀ h ∈ ways, h.source ≠ start) (depth : Nat) :
    (Traversal.at start.toValue).Takes ways start depth := by
  refine ⟨[], .nil, List.nodup_nil, fun h => ⟨fun hh => absurd hh List.not_mem_nil, fun ⟨hh, hnear⟩ => ?_⟩⟩
  rw [distance_eq_top hstart (hstart h hh)] at hnear
  exact absurd hnear not_top_lt

end

/-! ## Searches that follow edges -/

section
variable {ν : Type} [BEq ν]

/-- Nodes stand for references, and the steps out of a node are the hops out of its reference. -/
structure Charts (steps : ν → Outcome (List (Step ν))) (stands : ν → Key → Prop) (ways : Set Hop) : Prop where
  same : ∀ {x y r}, stands x r → stands y r → (x == y) = true
  congr : ∀ {x y r}, stands x r → (x == y) = true → stands y r
  beq : ∀ {x r s}, stands x r → stands x s → (r == s) = true
  named : ∀ h ∈ ways, Named h.key
  follow : ∀ x, ∃ all taken, steps x = .ok taken ∧ all.Nodup ∧ (∀ h, h ∈ all ↔ h ∈ ways ∧ stands x h.source) ∧
    List.Forall₂ (fun h s => stands s.next h.target ∧ edgeOf h.key = .ok s.edge) all taken

variable {steps : ν → Outcome (List (Step ν))} {stands : ν → Key → Prop} {ways : Set Hop} {start r : Key}
  {first x y : ν} {n : Nat}

def taken (steps : ν → Outcome (List (Step ν))) (x : ν) : List (Step ν) := (steps x).toOption.getD []

namespace Charts

theorem steps_eq (h : Charts steps stands ways) (x : ν) : steps x = .ok (taken steps x) := by
  obtain ⟨all, out, hout, -⟩ := h.follow x
  rw [taken, hout]
  rfl

theorem follow_taken (h : Charts steps stands ways) (x : ν) : ∃ all : List Hop, all.Nodup ∧
    (∀ k, k ∈ all ↔ k ∈ ways ∧ stands x k.source) ∧
    List.Forall₂ (fun k s => stands s.next k.target ∧ edgeOf k.key = .ok s.edge) all (taken steps x) := by
  obtain ⟨all, out, hout, hnodup, hmem, hpairs⟩ := h.follow x
  rw [h.steps_eq] at hout
  exact ⟨all, hnodup, hmem, Except.ok.inj hout ▸ hpairs⟩

theorem hop_of_step (h : Charts steps stands ways) {s : Step ν} (hs : s ∈ taken steps x) :
    ∃ k ∈ ways, stands x k.source ∧ stands s.next k.target := by
  obtain ⟨all, -, hmem, hpairs⟩ := h.follow_taken x
  obtain ⟨k, hk, hnext, -⟩ := exists_of_mem_right hpairs hs
  obtain ⟨hks, hx⟩ := (hmem k).1 hk
  exact ⟨k, hks, hx, hnext⟩

theorem step_of_hop (h : Charts steps stands ways) {k : Hop} (hk : k ∈ ways) (hx : stands x k.source) :
    ∃ s ∈ taken steps x, stands s.next k.target := by
  obtain ⟨all, -, hmem, hpairs⟩ := h.follow_taken x
  obtain ⟨s, hs, hnext, -⟩ := exists_of_mem_left hpairs ((hmem k).2 ⟨hk, hx⟩)
  exact ⟨s, hs, hnext⟩

theorem uniform (h : Charts steps stands ways) : Uniform (taken steps) := by
  intro x y hxy s hs
  obtain ⟨k, hk, hx, hnext⟩ := h.hop_of_step hs
  obtain ⟨t, ht, htnext⟩ := h.step_of_hop hk (h.congr hx hxy)
  exact ⟨t, ht, h.same htnext hnext⟩

theorem eq_of_stands (h : Charts steps stands ways) (hr : r.IsName) {s : Key} (hxr : stands x r)
    (hxs : stands x s) : s = r :=
  hr.eq_of_beq (h.beq hxs hxr)

theorem leads_of_reaches (h : Charts steps stands ways) (hfirst : stands first start)
    (hy : Reaches (taken steps) first n y) : ∃ m ≤ n, ∃ r, Leads ways start m r ∧ stands y r := by
  induction hy with
  | here hy => exact ⟨0, Nat.zero_le _, start, .start, h.congr hfirst hy⟩
  | step _ hs hy ih =>
    obtain ⟨m, hm, r, hr, hx⟩ := ih
    obtain ⟨k, hk, hxk, hnext⟩ := h.hop_of_step hs
    obtain rfl := h.eq_of_stands (Hop.isName_source (h.named k hk)) hxk hx
    exact ⟨m + 1, Nat.succ_le_succ hm, k.target, .step hr hk, h.congr hnext hy⟩

variable [EquivBEq ν]

/-- Every reference that hops lead to has a node. -/
theorem reaches_of_leads (h : Charts steps stands ways) (hfirst : stands first start) (hr : Leads ways start n r) :
    ∃ x, stands x r ∧ Reaches (taken steps) first n x := by
  induction hr with
  | start => exact ⟨first, hfirst, .here BEq.rfl⟩
  | step _ hk ih =>
    obtain ⟨x, hx, hreach⟩ := ih
    obtain ⟨s, hs, hnext⟩ := h.step_of_hop hk hx
    exact ⟨s.next, hnext, .step hreach hs BEq.rfl⟩

/-- A search gets to a node in as many steps as hops get to its reference. -/
theorem reaches_iff (h : Charts steps stands ways) (hfirst : stands first start) (hy : stands y r)
    (hr : r = start ∨ r.IsName) : Reaches (taken steps) first n y ↔ distance ways start r ≤ n := by
  rw [distance_le_iff]
  constructor
  · intro hreach
    rcases hr with rfl | hr
    · exact ⟨0, Nat.zero_le _, .start⟩
    · obtain ⟨m, hm, s, hs, hys⟩ := h.leads_of_reaches hfirst hreach
      obtain rfl := h.eq_of_stands hr hy hys
      exact ⟨m, hm, hs⟩
  · rintro ⟨m, hm, hleads⟩
    obtain ⟨x, hx, hreach⟩ := h.reaches_of_leads hfirst hleads
    exact (hreach.congr (h.same hx hy)).mono hm

/-- A search lists references by their distance. -/
theorem ranges (h : Charts steps stands ways) (hfirst : stands first start) {ref : ν → Key}
    (href : ∀ {x r}, stands x r → r.IsName → ref x = r) (depth : Nat) (edges : List Edge) :
    Traversal.Ranges ⟨start.toValue :: (spread (taken steps) depth [first] [first]).map fun y =>
      (ref y).toValue, edges⟩
      (distance ways start) start depth := by
  obtain ⟨hfar, hapart⟩ := List.pairwise_cons.1 (distinct_reached (taken steps) depth first)
  have hsame : ∀ y ∈ spread (taken steps) depth [first] [first], stands y (ref y) ∧ (ref y).IsName := fun y hy => by
    obtain ⟨x, s, hs, rfl⟩ := mem_spread hy
    obtain ⟨k, hk, -, hnext⟩ := h.hop_of_step hs
    have hname := Hop.isName_target (h.named k hk)
    rw [href hnext hname]
    exact ⟨hnext, hname⟩
  refine ⟨start :: (spread (taken steps) depth [first] [first]).map ref, by simp, rfl, ?_, fun r => ?_, ?_⟩
  · refine List.nodup_cons.2 ⟨fun hmem => ?_, List.pairwise_map.2 (hapart.imp_of_mem fun {x y} hx hy hxy heq => ?_)⟩
    · obtain ⟨y, hy, rfl⟩ := List.mem_map.1 hmem
      exact Bool.false_ne_true ((hfar y hy).symm.trans (h.same hfirst (hsame y hy).1))
    · exact Bool.false_ne_true (hxy.symm.trans (h.same (heq ▸ (hsame x hx).1) (hsame y hy).1))
  · constructor
    · intro hr
      rcases List.mem_cons.1 hr with rfl | hr
      · rw [distance_start]
        exact zero_le
      · obtain ⟨y, hy, rfl⟩ := List.mem_map.1 hr
        have hreach := (contains_reached h.uniform depth first y).1 (contains_of_mem (List.mem_cons_of_mem _ hy))
        exact (h.reaches_iff hfirst (hsame y hy).1 (.inr (hsame y hy).2)).1 hreach
    · intro hr
      obtain ⟨m, -, hleads⟩ := distance_le_iff.1 hr
      obtain ⟨x, hx, -⟩ := h.reaches_of_leads hfirst hleads
      rcases hleads.isName h.named with rfl | hname
      · exact List.mem_cons_self
      · have hreach := (h.reaches_iff hfirst hx (.inr hname)).2 hr
        obtain ⟨y, hy, hxy⟩ := List.contains_iff_exists_mem_beq.1
          ((contains_reached h.uniform depth first x).2 hreach)
        have hyr := h.congr hx hxy
        rcases List.mem_cons.1 hy with rfl | hy
        · rw [h.eq_of_stands hname hyr hfirst]
          exact List.mem_cons_self
        · exact List.mem_cons_of_mem _ (List.mem_map.2 ⟨y, hy, href hyr hname⟩)
  · refine List.pairwise_cons.2 ⟨fun s _ => by rw [distance_start]; exact zero_le, List.pairwise_map.2 ?_⟩
    refine (List.pairwise_cons.1 (pairwise_reached h.uniform depth first)).2.imp_of_mem fun {x y} hx hy hxy => ?_
    refine distance_le_of_forall fun n hn => ?_
    rw [← h.reaches_iff hfirst (hsame x hx).1 (.inr (hsame x hx).2)]
    exact hxy n ((h.reaches_iff hfirst (hsame y hy).1 (.inr (hsame y hy).2)).2 hn)

/-- A node is expanded if its reference is nearer than the depth. -/
theorem contains_expanded (h : Charts steps stands ways) (hfirst : stands first start)
    (hx : stands x r) (hr : r.IsName)
    (depth : Nat) : (expanded (taken steps) depth first).contains x = true ↔ distance ways start r < depth := by
  cases depth with
  | zero => simp [expanded]
  | succ depth =>
    rw [expanded, contains_reached h.uniform, h.reaches_iff hfirst hx (.inr hr), Nat.cast_succ,
      ENat.lt_natCast_add_one_iff]

theorem takes (h : Charts steps stands ways) (hfirst : stands first start) (depth : Nat) (nodes : List Value) :
    Traversal.Takes ⟨nodes, ((expanded (taken steps) depth first).flatMap (taken steps)).map Step.edge⟩ ways start
      depth := by
  choose all hnodup hmem hpairs using h.follow_taken
  refine ⟨(expanded (taken steps) depth first).flatMap all, ?_, List.nodup_flatMap.2 ⟨fun x _ => hnodup x, ?_⟩,
    fun k => ?_⟩
  · rw [List.forall₂_map_right_iff]
    refine List.rel_flatMap (List.forall₂_same.2 fun x _ => rfl) fun x y hxy => ?_
    subst hxy
    exact (hpairs x).imp fun k s hks => hks.2
  · refine (distinct_expanded (taken steps) depth first).imp fun {x y} hxy k hkx hky => ?_
    exact Bool.false_ne_true (hxy.symm.trans (h.same ((hmem x k).1 hkx).2 ((hmem y k).1 hky).2))
  · rw [List.mem_flatMap]
    constructor
    · rintro ⟨x, hx, hk⟩
      obtain ⟨hks, hxk⟩ := (hmem x k).1 hk
      exact ⟨hks, (h.contains_expanded hfirst hxk (Hop.isName_source (h.named k hks)) depth).1 (contains_of_mem hx)⟩
    · rintro ⟨hks, hnear⟩
      have hname := Hop.isName_source (h.named k hks)
      obtain ⟨m, -, hleads⟩ := distance_le_iff.1 hnear.le
      obtain ⟨x, hx, -⟩ := h.reaches_of_leads hfirst hleads
      have hexpanded := (h.contains_expanded hfirst hx hname depth).2 hnear
      obtain ⟨y, hy, hxy⟩ := List.contains_iff_exists_mem_beq.1 hexpanded
      exact ⟨y, hy, (hmem y k).2 ⟨hks, h.congr hx hxy⟩⟩

end Charts
end

end SourceAtlas.Graph
