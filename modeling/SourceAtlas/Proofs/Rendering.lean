import SourceAtlas.Markdown.Inline
import SourceAtlas.Proofs.Outlines

/-!
# Rendered text

A node of inline markup either is plain, so that its text stays as it is, or stands for
something else. What a plain node shows is told byte by byte: each byte that no special
node covers, and each outermost special node in its place.
-/

namespace SourceAtlas

open Syntax (Source Tree Cursor)

/-! ## Parts of a source -/

namespace Syntax.Source

variable (src : Source) {first mid stop : Nat}

theorem slice_self (k : Nat) : src.slice k k = [] := by
  rw [slice, Nat.sub_self, List.take_zero]

theorem slice_append (h : first ≤ mid) (h' : mid ≤ stop) :
    src.slice first mid ++ src.slice mid stop = src.slice first stop := by
  obtain ⟨m, rfl⟩ := Nat.exists_eq_add_of_le h
  obtain ⟨n, rfl⟩ := Nat.exists_eq_add_of_le h'
  simp only [slice, Nat.add_assoc, Nat.add_sub_cancel_left, List.take_add, List.drop_drop]
  rw [show first + (m + n) - (first + m) = n by omega]

theorem slice_succ (k : Nat) : src.slice k (k + 1) = src.bytes[k]?.toList := by
  rw [slice, Nat.add_sub_cancel_left, List.take_one, List.head?_drop]

theorem flatMap_bytes (first n : Nat) :
    ((List.range' first n).flatMap fun k => src.bytes[k]?.toList) = src.slice first (first + n) := by
  induction n generalizing first with
  | zero => rw [List.range'_zero, List.flatMap_nil, Nat.add_zero, slice_self]
  | succ n ih =>
    rw [List.range'_succ, List.flatMap_cons, ih, ← slice_succ, slice_append src (Nat.le_succ first) (by omega)]
    congr 1
    omega

end Syntax.Source

namespace Markdown

variable {src : Source} {t : Tree} {c d : Cursor} {ds es : List Cursor} {first mid stop k : Nat}

/-! ## Special nodes -/

def isPlain (c : Cursor) : Bool :=
  match Inline.ofKind c.kind with
  | .plain => true
  | _ => false

def specials (t : Tree) : List Cursor := (Cursor.root t).walk.filter fun c => !isPlain c

/-- The special nodes that lie below no other special node. -/
def outermost (t : Tree) : List Cursor := (Cursor.root t).walk.filter (Cursor.firstWithout isPlain)

theorem outermost_subset : outermost t ⊆ specials t := by
  intro d hd
  obtain ⟨hwalk, hfirst⟩ := List.mem_filter.1 hd
  exact List.mem_filter.2 ⟨hwalk, (Bool.and_eq_true_iff.1 hfirst).1⟩

def shown (src : Source) (c : Cursor) : List UInt8 :=
  match Inline.ofKind c.kind with
  | .escape => src.slice (c.first + 1) c.stop
  | .lineBreak => [10]
  | .address => src.slice (c.first + 1) (c.stop - 1)
  | .reference => Text.encode (Text.unescape (Text.decode (c.bytes src)))
  | .labelled kind => (c.tree.children.filter (·.kind == kind)).flatMap (renderNode src)
  | .dropped | .plain => []

theorem renderLabels_eq (kind : String) (ts : List Tree) :
    renderLabels src kind ts = (ts.filter (·.kind == kind)).flatMap (renderNode src) := by
  induction ts with
  | nil => rfl
  | cons t ts ih =>
    rw [renderLabels, ih, List.filter_cons]
    by_cases hkind : t.kind == kind <;> simp [hkind]

theorem renderNode_of_special (h : isPlain c = false) : renderNode src c.tree = shown src c := by
  obtain ⟨⟨l, ts⟩, path⟩ := c
  have h : ∀ i, Inline.ofKind l.kind = i → i ≠ .plain := by
    rintro i hi rfl
    simp [isPlain, Cursor.kind, Tree.kind, Tree.label, hi] at h
  simp only [renderNode, shown, Cursor.kind, Tree.kind, Tree.label]
  cases hi : Inline.ofKind l.kind with
  | labelled kind => exact renderLabels_eq kind ts
  | plain => exact absurd rfl (h _ hi)
  | _ => rfl

theorem renderNode_of_plain (h : isPlain c = true) :
    renderNode src c.tree = renderGaps src c.first c.stop (c.children.map (·.tree)) := by
  rw [map_tree_children]
  obtain ⟨⟨l, ts⟩, path⟩ := c
  simp only [isPlain, Cursor.kind, Tree.kind, Tree.label] at h
  simp only [renderNode]
  cases hi : Inline.ofKind l.kind with
  | plain => rfl
  | _ => simp [hi] at h

/-! ## Text in the order of the source -/

def Covered (ds : List Cursor) (k : Nat) : Prop := ∃ d ∈ ds, d.first ≤ k ∧ k < d.stop

instance : Decidable (Covered ds k) := inferInstanceAs (Decidable (∃ d ∈ ds, _))

def startingAt (src : Source) (ds : List Cursor) (k : Nat) : List UInt8 :=
  (ds.filter (·.first == k)).flatMap (shown src)

/-- The bytes of a range that no node of `covering` covers, with what the nodes of `ds` show in their places. -/
def inOrder (src : Source) (ds covering : List Cursor) (first stop : Nat) : List UInt8 :=
  (List.range' first (stop - first)).flatMap
    (fun k => startingAt src ds k ++ if Covered covering k then [] else src.bytes[k]?.toList) ++
    startingAt src ds stop

def Spaced : Nat → Nat → List Cursor → Prop
  | first, stop, [] => first ≤ stop
  | first, stop, d :: ds => first ≤ d.first ∧ d.first ≤ d.stop ∧ Spaced d.stop stop ds

theorem Spaced.le (h : Spaced first stop ds) : first ≤ stop := by
  induction ds generalizing first with
  | nil => exact h
  | cons d ds ih => exact Nat.le_trans h.1 (Nat.le_trans h.2.1 (ih h.2.2))

theorem Spaced.first_le (h : Spaced first stop ds) (hd : d ∈ ds) : first ≤ d.first := by
  induction ds generalizing first with
  | nil => cases hd
  | cons e ds ih =>
    rcases List.mem_cons.1 hd with rfl | hd
    · exact h.1
    · exact Nat.le_trans h.1 (Nat.le_trans h.2.1 (ih h.2.2 hd))

theorem Spaced.append (h : Spaced first mid ds) (h' : Spaced mid stop es) : Spaced first stop (ds ++ es) := by
  induction ds generalizing first with
  | nil =>
    cases es with
    | nil => exact Nat.le_trans h h'
    | cons e es => exact ⟨Nat.le_trans h h'.1, h'.2⟩
  | cons d ds ih => exact ⟨h.1, h.2.1, ih h.2.2⟩

theorem spaced_of_pairwise (hle : first ≤ stop)
    (hwithin : ∀ d ∈ ds, first ≤ d.first ∧ d.first ≤ d.stop ∧ d.stop ≤ stop)
    (hfollow : ds.Pairwise fun d e => d.stop ≤ e.first) : Spaced first stop ds := by
  induction ds generalizing first with
  | nil => exact hle
  | cons d ds ih =>
    obtain ⟨hd, hds⟩ := List.pairwise_cons.1 hfollow
    obtain ⟨hfirst, hrange, hstop⟩ := hwithin d List.mem_cons_self
    refine ⟨hfirst, hrange, ih hstop (fun e he => ⟨hd e he, (hwithin e (List.mem_cons_of_mem d he)).2⟩) hds⟩

theorem startingAt_of_lt (h : ∀ d ∈ ds, k < d.first) : startingAt src ds k = [] := by
  rw [startingAt, List.filter_eq_nil_iff.2, List.flatMap_nil]
  intro d hd
  have := h d hd
  simp
  omega

theorem not_covered_of_lt (h : ∀ d ∈ ds, k < d.first) : ¬ Covered ds k := by
  rintro ⟨d, hd, hfirst, -⟩
  exact Nat.lt_irrefl _ (Nat.lt_of_lt_of_le (h d hd) hfirst)

theorem inOrder_congr (h : ∀ k, first ≤ k → k < stop → startingAt src ds k = startingAt src es k ∧
    (Covered ds k ↔ Covered es k))
    (hstop : startingAt src ds stop = startingAt src es stop) :
    inOrder src ds ds first stop = inOrder src es es first stop := by
  rw [inOrder, inOrder, hstop]
  congr 1
  refine List.flatMap_congr fun k hk => ?_
  obtain ⟨hfirst, hlt⟩ := List.mem_range'_1.1 hk
  obtain ⟨hstart, hcovered⟩ := h k hfirst (by omega)
  simp only [hstart, hcovered]

theorem inOrder_of_le (h : first ≤ mid) (hds : Spaced mid stop ds) :
    inOrder src ds ds first stop = src.slice first mid ++ inOrder src ds ds mid stop := by
  have hle := hds.le
  obtain ⟨m, rfl⟩ := Nat.exists_eq_add_of_le h
  obtain ⟨n, rfl⟩ := Nat.exists_eq_add_of_le hle
  rw [inOrder, inOrder, Nat.add_assoc, Nat.add_sub_cancel_left, ← Nat.add_assoc, Nat.add_sub_cancel_left,
    ← List.range'_append_1, List.flatMap_append, List.append_assoc, ← src.flatMap_bytes]
  congr 1
  refine List.flatMap_congr fun k hk => ?_
  have hlt : ∀ d ∈ ds, k < d.first := fun d hd => Nat.lt_of_lt_of_le (List.mem_range'_1.1 hk).2 (hds.first_le hd)
  rw [startingAt_of_lt hlt, if_neg (not_covered_of_lt hlt), List.nil_append]

theorem inOrder_nil (h : first ≤ stop) : inOrder src [] [] first stop = src.slice first stop := by
  rw [inOrder_of_le h (show Spaced stop stop [] from Nat.le_refl stop), inOrder, Nat.sub_self]
  simp [startingAt]

theorem startingAt_cons (d : Cursor) (ds : List Cursor) (k : Nat) :
    startingAt src (d :: ds) k = (if d.first = k then shown src d else []) ++ startingAt src ds k := by
  rw [startingAt, List.filter_cons, startingAt]
  by_cases hk : d.first = k <;> simp [hk]

theorem covered_cons (d : Cursor) (ds : List Cursor) (k : Nat) :
    Covered (d :: ds) k ↔ (d.first ≤ k ∧ k < d.stop) ∨ Covered ds k := by
  simp [Covered]

theorem inOrder_step (h : first < stop) : inOrder src ds es first stop =
    startingAt src ds first ++ (if Covered es first then [] else src.bytes[first]?.toList) ++
      inOrder src ds es (first + 1) stop := by
  rw [inOrder, inOrder, show stop - first = stop - (first + 1) + 1 by omega, List.range'_succ,
    List.flatMap_cons, List.append_assoc]

theorem inOrder_cons_behind (h : d.first < first) (h' : d.stop ≤ first) (hle : first ≤ stop) :
    inOrder src (d :: ds) (d :: ds) first stop = inOrder src ds ds first stop := by
  apply inOrder_congr
  · intro k hk _
    rw [startingAt_cons, if_neg (by omega), covered_cons]
    refine ⟨List.nil_append _, or_iff_right ?_⟩
    omega
  · rw [startingAt_cons, if_neg (by omega), List.nil_append]

/-- The bytes of a node behind its start do not show. -/
theorem inOrder_cons_inside (h : d.first < first) (h' : first ≤ d.stop) (hds : Spaced d.stop stop ds) :
    inOrder src (d :: ds) (d :: ds) first stop = inOrder src ds ds d.stop stop := by
  induction hn : d.stop - first generalizing first with
  | zero =>
    obtain rfl : first = d.stop := by omega
    exact inOrder_cons_behind h (Nat.le_refl _) hds.le
  | succ n ih =>
    have hlt : first < d.stop := by omega
    have hcovered : Covered (d :: ds) first := (covered_cons ..).2 (.inl ⟨Nat.le_of_lt h, hlt⟩)
    have hnone : startingAt src ds first = [] :=
      startingAt_of_lt fun e he => Nat.lt_of_lt_of_le hlt (hds.first_le he)
    rw [inOrder_step (Nat.lt_of_lt_of_le hlt hds.le), startingAt_cons, if_neg (Nat.ne_of_lt h), hnone,
      if_pos hcovered, ih (by omega) hlt (by omega)]
    rfl

/-- A node shows at its start, and the text goes on at its stop. -/
theorem inOrder_cons (h : d.first ≤ d.stop) (hds : Spaced d.stop stop ds) :
    inOrder src (d :: ds) (d :: ds) d.first stop = shown src d ++ inOrder src ds ds d.stop stop := by
  have hle := hds.le
  rcases Nat.lt_or_eq_of_le h with hlt | hempty
  · have hcovered : Covered (d :: ds) d.first := (covered_cons ..).2 (.inl ⟨Nat.le_refl _, hlt⟩)
    have hnone : startingAt src ds d.first = [] :=
      startingAt_of_lt fun e he => Nat.lt_of_lt_of_le hlt (hds.first_le he)
    rw [inOrder_step (Nat.lt_of_lt_of_le hlt hle), startingAt_cons, if_pos rfl, hnone, if_pos hcovered,
      List.append_nil, List.append_nil, inOrder_cons_inside (Nat.lt_succ_self _) hlt hds]
  · -- a node without bytes may share its place with the nodes and the byte after it
    rw [← hempty] at hle ⊢
    rcases Nat.lt_or_eq_of_le hle with hlt | rfl
    · have hcovered : Covered (d :: ds) d.first ↔ Covered ds d.first := by
        rw [covered_cons]
        refine or_iff_right ?_
        omega
      rw [inOrder_step hlt, inOrder_step hlt, startingAt_cons, if_pos rfl,
        inOrder_cons_behind (Nat.lt_succ_self _) (by omega) hlt]
      simp only [hcovered, List.append_assoc]
    · simp [inOrder, startingAt_cons]

theorem inOrder_append (h : Spaced first mid ds) (h' : Spaced mid stop es) :
    inOrder src (ds ++ es) (ds ++ es) first stop = inOrder src ds ds first mid ++ inOrder src es es mid stop := by
  induction ds generalizing first with
  | nil => rw [inOrder_nil h, List.nil_append, inOrder_of_le h h']
  | cons d ds ih =>
    obtain ⟨hfirst, hrange, hds⟩ := h
    have hcons : Spaced d.first mid (d :: ds) := ⟨Nat.le_refl _, hrange, hds⟩
    rw [inOrder_of_le hfirst (hcons.append h'), inOrder_of_le hfirst hcons, List.cons_append,
      inOrder_cons hrange (hds.append h'), inOrder_cons hrange hds, ih hds]
    simp only [List.append_assoc]

/-! ## Rendering -/

theorem renderGaps_eq {tops : Cursor → List Cursor} {cs : List Cursor} (hcs : Spaced first stop cs)
    (h : ∀ c ∈ cs, Spaced c.first c.stop (tops c) ∧
      renderNode src c.tree = inOrder src (tops c) (tops c) c.first c.stop) :
    Spaced first stop (cs.flatMap tops) ∧
      renderGaps src first stop (cs.map (·.tree)) = inOrder src (cs.flatMap tops) (cs.flatMap tops) first stop := by
  induction cs generalizing first with
  | nil => exact ⟨hcs, (inOrder_nil hcs).symm⟩
  | cons c cs ih =>
    obtain ⟨hfirst, -, hcs⟩ := hcs
    obtain ⟨hspaced, hrender⟩ := h c List.mem_cons_self
    obtain ⟨hspaced', hrender'⟩ := ih hcs fun d hd => h d (List.mem_cons_of_mem c hd)
    rw [List.flatMap_cons]
    have hboth := hspaced.append hspaced'
    have hgap : Spaced first c.first [] := hfirst
    refine ⟨hgap.append hboth, ?_⟩
    rw [inOrder_of_le hfirst hboth, inOrder_append hspaced hspaced', ← hrender, ← hrender', ← List.append_assoc]
    rfl

section
variable (hnested : t.Nested) (hordered : t.Ordered)
include hnested hordered

theorem spaced_children (hc : (Cursor.root t).Holds c) : Spaced c.first c.stop c.children := by
  have hwalk := Cursor.mem_walk.2 hc
  obtain ⟨hrange, hwithin⟩ := hnested c hwalk
  apply spaced_of_pairwise hrange _ (hordered c hwalk)
  intro d hd
  exact ⟨(hwithin d hd).1, (hnested d (Cursor.mem_walk.2 (.child hc hd))).1, (hwithin d hd).2⟩

/-- Below plain nodes alone, a subtree shows its bytes in order, with its outermost special nodes in
their places. -/
theorem renderNode_eq_of_below (src : Source) (hc : (Cursor.root t).Holds c) (h : c.ancestors.all isPlain = true) :
    Spaced c.first c.stop (c.walk.filter (Cursor.firstWithout isPlain)) ∧
      renderNode src c.tree = inOrder src (c.walk.filter (Cursor.firstWithout isPlain))
        (c.walk.filter (Cursor.firstWithout isPlain)) c.first c.stop := by
  induction c using Cursor.induction with
  | h c ih =>
    rw [Cursor.filter_walk_firstWithout h]
    cases hp : isPlain c with
    | true =>
      rw [if_pos rfl, renderNode_of_plain hp]
      apply renderGaps_eq (spaced_children hnested hordered hc)
      intro d hd
      apply ih d hd (.child hc hd)
      rw [Cursor.ancestors_of_mem_children hd, List.all_cons, hp, h, Bool.and_self]
    | false =>
      have hrange := (hnested c (Cursor.mem_walk.2 hc)).1
      have hend : Spaced c.stop c.stop [] := Nat.le_refl c.stop
      rw [if_neg Bool.false_ne_true, renderNode_of_special hp, inOrder_cons hrange hend, inOrder_nil hend,
        src.slice_self, List.append_nil]
      exact ⟨⟨Nat.le_refl _, hrange, hend⟩, rfl⟩

end

theorem covered_specials (hnested : t.Nested) : Covered (specials t) k ↔ Covered (outermost t) k := by
  constructor
  · rintro ⟨d, hd, hfirst, hstop⟩
    obtain ⟨hwalk, hspecial⟩ := List.mem_filter.1 hd
    obtain ⟨e, he, hed⟩ := (Cursor.mem_walk.1 hwalk).exists_firstWithout (p := isPlain) rfl
      (by simpa using hspecial)
    obtain ⟨hfirst', hstop'⟩ := hnested.holds (Cursor.mem_walk.1 (List.mem_of_mem_filter he)) hed
    exact ⟨e, he, Nat.le_trans hfirst' hfirst, Nat.lt_of_lt_of_le hstop hstop'⟩
  · rintro ⟨d, hd, hcovers⟩
    exact ⟨d, outermost_subset hd, hcovers⟩

/-- A node shows, in order, each of its bytes that no special node covers, and the outermost special
nodes in their places. Without special nodes it shows its text. -/
theorem renderNode_of_ordered (src : Source) (t : Tree) (hnested : t.Nested) (hordered : t.Ordered) (c : Cursor)
    (hc : c ∈ (Cursor.root t).walk) :
    renderNode src c.tree = inOrder src (outermost c.tree) (specials c.tree) c.first c.stop ∧
      (∀ d ∈ specials c.tree, renderNode src d.tree = shown src d) ∧
      (specials c.tree = [] → renderNode src c.tree = c.bytes src) := by
  have hholds := Cursor.mem_walk.1 hc
  have hnested := hnested.subtree hholds
  obtain ⟨hspaced, hrender⟩ :=
    renderNode_eq_of_below hnested (hordered.subtree hholds) src (c := .root c.tree) .self rfl
  have hinOrder : renderNode src c.tree = inOrder src (outermost c.tree) (specials c.tree) c.first c.stop := by
    simp only [inOrder, covered_specials hnested]
    exact hrender
  refine ⟨hinOrder, fun d hd => renderNode_of_special (by simpa using (List.mem_filter.1 hd).2), fun hnone => ?_⟩
  have hnone' : outermost c.tree = [] := by
    rw [List.eq_nil_iff_forall_not_mem]
    intro d hd
    have hspecial := outermost_subset hd
    rw [hnone] at hspecial
    cases hspecial
  rw [hinOrder, hnone, hnone']
  exact inOrder_nil hspaced.le

end Markdown

namespace Sample

def markup : Source := ⟨Text.encode "x *y [z](u) \\!*."⟩

def markupTree : Tree :=
  .node { kind := "inline", first := 0, stop := 16 } [
    .node { kind := "emphasis", first := 2, stop := 15 } [
      .node { kind := "emphasis_delimiter", first := 2, stop := 3 } [],
      .node { kind := "inline_link", first := 5, stop := 11 } [
        .node { kind := "[", first := 5, stop := 6, named := false } [],
        .node { kind := "link_text", first := 6, stop := 7 } [],
        .node { kind := "]", first := 7, stop := 8, named := false } [],
        .node { kind := "(", first := 8, stop := 9, named := false } [],
        .node { kind := "link_destination", first := 9, stop := 10 } [],
        .node { kind := ")", first := 10, stop := 11, named := false } []],
      .node { kind := "backslash_escape", first := 12, stop := 14 } [],
      .node { kind := "emphasis_delimiter", first := 14, stop := 15 } []]]

end Sample

namespace Markdown

theorem renderNode_of_markup : Sample.markupTree.Nested ∧ Sample.markupTree.Ordered ∧
    renderNode Sample.markup Sample.markupTree = Text.encode "x y z !." := by
  have hnested : Sample.markupTree.Nested := by decide +kernel
  have hordered : Sample.markupTree.Ordered := by decide +kernel
  obtain ⟨hrender, -⟩ := renderNode_of_ordered Sample.markup Sample.markupTree hnested hordered
    (.root Sample.markupTree)
    (Cursor.mem_walk.2 .self)
  refine ⟨hnested, hordered, hrender.trans ?_⟩
  decide +kernel

end Markdown

end SourceAtlas
