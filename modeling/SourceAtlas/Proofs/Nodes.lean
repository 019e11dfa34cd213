import Mathlib.Data.List.Basic
import SourceAtlas.Symbol
import SourceAtlas.Syntax.Cursor

/-!
# Nodes of a tree

A walk meets each node of a tree once, and each before what lies below it. A
node is told by its path: that of an ancestor is a part of its own at the end,
and no later node of a walk has such a path.
-/

namespace SourceAtlas.Syntax

namespace Cursor

variable {c d e : Cursor} {parent : Tree} {path : List Frame} {before ts : List Tree}

/-! ## Children -/

theorem of_mem_siblings (h : d ∈ siblings parent path before ts) :
    d.tree ∈ ts ∧ ∃ passed, d.path = ⟨parent, passed⟩ :: path ∧ before.length ≤ passed.length := by
  induction ts generalizing before with
  | nil => cases h
  | cons t ts ih =>
    rcases List.mem_cons.1 h with rfl | h
    · exact ⟨List.mem_cons_self, before, rfl, Nat.le_refl _⟩
    · obtain ⟨htree, passed, hpath, hpassed⟩ := ih h
      exact ⟨List.mem_cons_of_mem t htree, passed, hpath, Nat.le_of_succ_le hpassed⟩

theorem pairwise_siblings (parent : Tree) (path : List Frame) (before ts : List Tree) :
    (siblings parent path before ts).Pairwise fun d e => d.path ≠ e.path := by
  induction ts generalizing before with
  | nil => exact .nil
  | cons t ts ih =>
    refine .cons (fun e he hpath => ?_) (ih (t :: before))
    obtain ⟨-, passed, hpassed, hlength⟩ := of_mem_siblings he
    obtain rfl : before = passed := (Frame.mk.inj (List.cons.inj (hpath.trans hpassed)).1).2
    exact Nat.not_succ_le_self _ hlength

theorem of_mem_children (h : d ∈ c.children) :
    d.tree ∈ c.tree.children ∧ ∃ passed, d.path = ⟨c.tree, passed⟩ :: c.path := by
  obtain ⟨htree, passed, hpath, -⟩ := of_mem_siblings h
  exact ⟨htree, passed, hpath⟩

theorem size_le_weight {s : List Cursor} (h : c ∈ s) : c.tree.size ≤ weight s := by
  induction s with
  | nil => cases h
  | cons d s ih =>
    rw [weight]
    rcases List.mem_cons.1 h with rfl | h
    · omega
    · have := ih h
      omega

theorem size_lt_of_mem_children (h : d ∈ c.children) : d.tree.size < c.tree.size := by
  have := size_le_weight h
  have := weight_children c
  omega

/-- What holds of a node once it holds of its children holds of all nodes. -/
theorem induction {P : Cursor → Prop} (h : ∀ c, (∀ d ∈ c.children, P d) → P c) (c : Cursor) : P c :=
  h c fun d _ => induction h d
termination_by c.tree.size
decreasing_by exact size_lt_of_mem_children ‹_›

/-! ## Walks -/

theorem walkStack_append (s t : List Cursor) : walkStack (s ++ t) = walkStack s ++ walkStack t := by
  induction s using walkStack.induct with
  | case1 => rw [walkStack, List.nil_append, List.nil_append]
  | case2 c rest ih => rw [List.cons_append, walkStack, walkStack, ← List.append_assoc, ih, List.cons_append]

theorem walkStack_eq_flatMap (s : List Cursor) : walkStack s = s.flatMap walk := by
  induction s with
  | nil => rw [walkStack, List.flatMap_nil]
  | cons c s ih => rw [← List.singleton_append, walkStack_append, ih, List.flatMap_append,
      List.flatMap_singleton, walk]

theorem walk_eq (c : Cursor) : c.walk = c :: c.children.flatMap walk := by
  rw [walk, walkStack, List.append_nil, walkStack_eq_flatMap]

theorem length_walkStack (s : List Cursor) : (walkStack s).length = weight s := by
  induction s using walkStack.induct with
  | case1 => rw [walkStack, weight, List.length_nil]
  | case2 c rest ih =>
    rw [walkStack, List.length_cons, ih, weight_append, weight]
    have := weight_children c
    omega

/-- The walk has as many turns as the tree has nodes. -/
theorem length_walk (c : Cursor) : c.walk.length = c.tree.size := length_walkStack [c]

inductive Holds (c : Cursor) : Cursor → Prop
  | self : c.Holds c
  | child {d e : Cursor} : c.Holds d → e ∈ d.children → c.Holds e

theorem Holds.of_child (hd : d ∈ c.children) (h : d.Holds e) : c.Holds e := by
  induction h with
  | self => exact .child .self hd
  | child _ he ih => exact .child ih he

theorem Holds.trans (h : c.Holds d) (h' : d.Holds e) : c.Holds e := by
  induction h' with
  | self => exact h
  | child _ he ih => exact .child ih he

theorem Holds.eq_or_below (h : c.Holds e) : e = c ∨ ∃ d ∈ c.children, d.Holds e := by
  induction h with
  | self => exact .inl rfl
  | @child d e _ he ih =>
    rcases ih with rfl | ⟨a, ha, hd⟩
    · exact .inr ⟨e, he, .self⟩
    · exact .inr ⟨a, ha, .child hd he⟩

theorem mem_walk : d ∈ c.walk ↔ c.Holds d := by
  induction c using induction generalizing d with
  | h c ih =>
    rw [walk_eq, List.mem_cons, List.mem_flatMap]
    constructor
    · rintro (rfl | ⟨e, he, hd⟩)
      · exact .self
      · exact .of_child he ((ih e he).1 hd)
    · intro h
      rcases h.eq_or_below with rfl | ⟨e, he, hd⟩
      · exact .inl rfl
      · exact .inr ⟨e, he, (ih e he).2 hd⟩

/-! ## Paths -/

theorem Holds.suffix (h : c.Holds d) : c.path <:+ d.path := by
  induction h with
  | self => exact List.suffix_rfl
  | child _ he ih =>
    obtain ⟨-, passed, hpath⟩ := of_mem_children he
    rw [hpath]
    exact ih.trans (List.suffix_cons ..)

/-- No later node of a walk has a path that ends an earlier one's. -/
theorem pairwise_walk (c : Cursor) : c.walk.Pairwise fun d e => ¬ e.path <:+ d.path := by
  induction c using induction with
  | h c ih =>
    have hbelow : ∀ d ∈ c.children, ∀ e ∈ d.walk, d.path <:+ e.path := fun d _ e he => (mem_walk.1 he).suffix
    rw [walk_eq, List.pairwise_cons, List.pairwise_flatMap]
    refine ⟨fun e he hpath => ?_, ih, (pairwise_siblings ..).imp_of_mem fun {d e} hd he hne x hx y hy hpath => ?_⟩
    · -- a node below has the longer path
      obtain ⟨d, hd, he⟩ := List.mem_flatMap.1 he
      obtain ⟨-, passed, hd'⟩ := of_mem_children hd
      have hlength := ((hbelow d hd e he).trans hpath).length_le
      rw [hd', List.length_cons] at hlength
      omega
    · -- paths of siblings are of one length, so only one of them ends the path of a node
      obtain ⟨-, passed, hd'⟩ := of_mem_children hd
      obtain ⟨-, passed', he'⟩ := of_mem_children he
      have hlength : d.path.length = e.path.length := by rw [hd', he', List.length_cons, List.length_cons]
      have hsuffix := List.suffix_of_suffix_length_le (hbelow d hd x hx) ((hbelow e he y hy).trans hpath)
        (Nat.le_of_eq hlength)
      exact hne (hsuffix.eq_of_length hlength)

theorem nodup_walk (c : Cursor) : c.walk.Nodup :=
  (pairwise_walk c).imp fun {d e} hpath (heq : d = e) => hpath (heq ▸ List.suffix_rfl)

/-! ## Ancestors -/

theorem ancestors_of_mem_children (h : d ∈ c.children) : d.ancestors = c :: c.ancestors := by
  obtain ⟨-, passed, hpath⟩ := of_mem_children h
  rw [ancestors, hpath]
  rfl

/-- A node is above all nodes of the subtrees of its children. -/
theorem Holds.mem_ancestors (hd : d ∈ c.children) (h : d.Holds e) : c ∈ e.ancestors := by
  induction h with
  | self =>
    rw [ancestors_of_mem_children hd]
    exact List.mem_cons_self
  | @child a e _ he ih =>
    rw [ancestors_of_mem_children he]
    exact List.mem_cons_of_mem a ih

theorem ancestors_of_parent? {p : Cursor} (h : c.parent? = some p) : c.ancestors = p :: p.ancestors := by
  obtain ⟨tree, path⟩ := c
  cases path with
  | nil => cases h
  | cons f path =>
    obtain rfl := Option.some.inj h
    rfl

theorem ancestors_below {c : Cursor} (h : c.Holds e) :
    ∃ inner, e :: e.ancestors = inner ++ c.ancestors ∧ inner.Sublist c.walk.reverse := by
  induction c using induction with
  | h c ih =>
    rw [walk_eq, List.reverse_cons]
    rcases h.eq_or_below with rfl | ⟨d, hd, he⟩
    · exact ⟨[e], rfl, List.sublist_append_right ..⟩
    · obtain ⟨inner, hinner, hsub⟩ := ih d hd he
      have hwalk : d.walk.Sublist (c.children.flatMap walk) := by
        rw [List.flatMap_def]
        exact List.sublist_flatten_of_mem (List.mem_map_of_mem hd)
      refine ⟨inner ++ [c], ?_, (hsub.trans hwalk.reverse).append_right [c]⟩
      rw [hinner, ancestors_of_mem_children hd, List.append_assoc, List.singleton_append]

/-- A walk that is read backwards meets a node and then its ancestors, innermost first. -/
theorem ancestors_sublist {t : Tree} (h : (root t).Holds c) : (c :: c.ancestors).Sublist (root t).walk.reverse := by
  obtain ⟨inner, hinner, hsub⟩ := ancestors_below h
  rwa [hinner, show (root t).ancestors = [] from rfl, List.append_nil]

theorem Holds.of_mem_ancestors {t : Tree} {a : Cursor} (h : (root t).Holds c) (ha : a ∈ c.ancestors) :
    (root t).Holds a :=
  mem_walk.1 (List.mem_reverse.1 ((ancestors_sublist h).subset (List.mem_cons_of_mem c ha)))

/-! ## First nodes -/

def firstWithout (p : Cursor → Bool) (c : Cursor) : Bool := !p c && c.ancestors.all p

section
variable {p : Cursor → Bool}

theorem not_firstWithout_of_mem_ancestors (hc : p c = false) (h : c ∈ d.ancestors) : firstWithout p d = false := by
  rw [firstWithout, Bool.and_eq_false_iff]
  refine .inr (List.all_eq_false.2 ⟨c, h, ?_⟩)
  simp [hc]

/-- Below nodes with the property alone, the first nodes without it are found in pre-order. -/
theorem filter_walk_firstWithout (h : c.ancestors.all p = true) : c.walk.filter (firstWithout p) =
    if p c then c.children.flatMap fun d => d.walk.filter (firstWithout p) else [c] := by
  rw [walk_eq, List.filter_cons, List.filter_flatMap, firstWithout, h, Bool.and_true]
  cases hc : p c with
  | true => rfl
  | false =>
    have hbelow : (c.children.flatMap fun d => d.walk.filter (firstWithout p)) = [] := by
      rw [List.flatMap_eq_nil_iff]
      intro d hd
      rw [List.filter_eq_nil_iff]
      intro e he
      simp [not_firstWithout_of_mem_ancestors hc ((mem_walk.1 he).mem_ancestors hd)]
    rw [hbelow]
    rfl

/-- A node without the property is one of the first such nodes or lies below one. -/
theorem Holds.exists_firstWithout (h : c.Holds d) (hc : c.ancestors.all p = true) (hd : p d = false) :
    ∃ e ∈ c.walk.filter (firstWithout p), e.Holds d := by
  induction c using induction with
  | h c ih =>
    rw [filter_walk_firstWithout hc]
    cases hp : p c with
    | false => exact ⟨c, List.mem_singleton_self c, h⟩
    | true =>
      rcases h.eq_or_below with rfl | ⟨a, ha, had⟩
      · rw [hp] at hd
        cases hd
      · obtain ⟨e, he, hed⟩ :=
          ih a ha had (by rw [ancestors_of_mem_children ha, List.all_cons, hp, hc, Bool.and_self])
        exact ⟨e, List.mem_flatMap.2 ⟨a, ha, he⟩, hed⟩

end

/-! ## Subtrees -/

/-- A node of a subtree, seen from where the subtree hangs. -/
def under (path : List Frame) (c : Cursor) : Cursor := ⟨c.tree, c.path ++ path⟩

theorem children_under (path : List Frame) (c : Cursor) :
    (c.under path).children = c.children.map (under path) := by
  have hsiblings : ∀ (before ts : List Tree),
      siblings c.tree (c.path ++ path) before ts = (siblings c.tree c.path before ts).map (under path) := by
    intro before ts
    induction ts generalizing before with
    | nil => rfl
    | cons t ts ih =>
      rw [siblings, siblings, List.map_cons, ih]
      rfl
  exact hsiblings [] c.tree.children

theorem walk_under (path : List Frame) (c : Cursor) : (c.under path).walk = c.walk.map (under path) := by
  induction c using induction with
  | h c ih =>
    rw [walk_eq, walk_eq, children_under, List.flatMap_map, List.map_cons, List.map_flatMap, List.flatMap_congr ih]

theorem Holds.under_of_root (hc : c.Holds d) {e : Cursor} (he : e ∈ (root d.tree).walk) :
    c.Holds (e.under d.path) := by
  refine hc.trans (mem_walk.1 ?_)
  rw [show d = (root d.tree).under d.path from rfl, walk_under]
  exact List.mem_map_of_mem he

end Cursor

/-! ## Ranges -/

/-- Whether each node covers a range of bytes, within that of its parent. -/
def Tree.Nested (t : Tree) : Prop :=
  ∀ c ∈ (Cursor.root t).walk, c.first ≤ c.stop ∧ ∀ d ∈ c.children, c.first ≤ d.first ∧ d.stop ≤ c.stop

instance (t : Tree) : Decidable t.Nested := inferInstanceAs (Decidable (∀ c ∈ (Cursor.root t).walk, _))

theorem Tree.Nested.within {t : Tree} (h : t.Nested) {c a : Cursor} (hc : (Cursor.root t).Holds c)
    (ha : a ∈ c.ancestors) :
    a.first ≤ c.first ∧ c.stop ≤ a.stop := by
  induction hc with
  | self => cases ha
  | @child d e hd he ih =>
    obtain ⟨hfirst, hstop⟩ := (h d (Cursor.mem_walk.2 hd)).2 e he
    rw [Cursor.ancestors_of_mem_children he] at ha
    rcases List.mem_cons.1 ha with rfl | ha
    · exact ⟨hfirst, hstop⟩
    · obtain ⟨hfirst', hstop'⟩ := ih ha
      exact ⟨Nat.le_trans hfirst' hfirst, Nat.le_trans hstop hstop'⟩

theorem Tree.Nested.holds {t : Tree} (h : t.Nested) {c d : Cursor} (hc : (Cursor.root t).Holds c) (hd : c.Holds d) :
    c.first ≤ d.first ∧ d.stop ≤ c.stop := by
  rcases hd.eq_or_below with rfl | ⟨e, he, hd'⟩
  · exact ⟨Nat.le_refl _, Nat.le_refl _⟩
  · exact h.within (hc.trans hd) (hd'.mem_ancestors he)

def Tree.Ordered (t : Tree) : Prop :=
  ∀ c ∈ (Cursor.root t).walk, c.children.Pairwise fun d e => d.stop ≤ e.first

instance (t : Tree) : Decidable t.Ordered := inferInstanceAs (Decidable (∀ c ∈ (Cursor.root t).walk, _))

/-- An earlier node of a walk is above a later one, or ends before it starts. -/
theorem Tree.Ordered.pairwise_walk {t : Tree} (hordered : t.Ordered) (hnested : t.Nested) :
    (Cursor.root t).walk.Pairwise fun d e => d ∈ e.ancestors ∨ d.stop ≤ e.first := by
  suffices hall : ∀ c, (Cursor.root t).Holds c → c.walk.Pairwise fun d e => d ∈ e.ancestors ∨ d.stop ≤ e.first from
    hall _ .self
  intro c hc
  induction c using Cursor.induction with
  | h c ih =>
    have hchild : ∀ d ∈ c.children, (Cursor.root t).Holds d := fun d hd => .child hc hd
    rw [Cursor.walk_eq, List.pairwise_cons, List.pairwise_flatMap]
    refine ⟨fun e he => ?_, fun d hd => ih d hd (hchild d hd), ?_⟩
    · obtain ⟨d, hd, he⟩ := List.mem_flatMap.1 he
      exact .inl ((Cursor.mem_walk.1 he).mem_ancestors hd)
    · refine (hordered c (Cursor.mem_walk.2 hc)).imp_of_mem fun {d e} hd he hfollows x hx y hy => .inr ?_
      obtain ⟨-, hstop⟩ := hnested.holds (hchild d hd) (Cursor.mem_walk.1 hx)
      obtain ⟨hfirst, -⟩ := hnested.holds (hchild e he) (Cursor.mem_walk.1 hy)
      exact Nat.le_trans hstop (Nat.le_trans hfollows hfirst)

/-- The first nodes without a property follow each other. -/
theorem Tree.Ordered.pairwise_firstWithout {t : Tree} (hordered : t.Ordered) (hnested : t.Nested)
    (p : Cursor → Bool) :
    ((Cursor.root t).walk.filter (Cursor.firstWithout p)).Pairwise fun c d =>
      c.first ≤ c.stop ∧ c.stop ≤ d.first := by
  refine List.pairwise_filter.2 ((hordered.pairwise_walk hnested).imp_of_mem ?_)
  intro c d hc _ hapart hfirst hfirst'
  refine ⟨(hnested c hc).1, hapart.resolve_left fun habove => ?_⟩
  have hfails : p c = false := by simpa using (Bool.and_eq_true_iff.1 hfirst).1
  rw [Cursor.not_firstWithout_of_mem_ancestors hfails habove] at hfirst'
  exact Bool.false_ne_true hfirst'

section
variable {t : Tree} {c : Cursor} (hc : (Cursor.root t).Holds c)
include hc

theorem Tree.Nested.subtree (h : t.Nested) : c.tree.Nested := by
  intro d hd
  obtain ⟨hrange, hchildren⟩ := h _ (Cursor.mem_walk.2 (hc.under_of_root hd))
  refine ⟨hrange, fun e he => hchildren (e.under c.path) ?_⟩
  rw [Cursor.children_under]
  exact List.mem_map_of_mem he

theorem Tree.Ordered.subtree (h : t.Ordered) : c.tree.Ordered := by
  intro d hd
  have hchildren := h _ (Cursor.mem_walk.2 (hc.under_of_root hd))
  rw [Cursor.children_under, List.pairwise_map] at hchildren
  exact hchildren

end

theorem Source.row_mono (s : Source) {first last : Nat} (h : first ≤ last) :
    (s.point first).row ≤ (s.point last).row :=
  (List.take_sublist_take_left h).count_le 10

namespace Cursor

def lines (c : Cursor) (s : Source) : Location := .ofRows (c.firstRow s) (c.lastRow s)

theorem lines_contains {a c : Cursor} (s : Source) (hfirst : a.first ≤ c.first) (hrange : c.first ≤ c.stop)
    (hstop : c.stop ≤ a.stop) : (a.lines s).contains (c.lines s).first (c.lines s).last = true := by
  have hfirst := s.row_mono hfirst
  have hrange := s.row_mono hrange
  have hstop := s.row_mono hstop
  simp only [Location.contains_iff, lines, Location.ofRows, firstRow, lastRow]
  omega

end Cursor

end SourceAtlas.Syntax
