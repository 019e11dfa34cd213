import SourceAtlas.Markdown.Outline
import SourceAtlas.Proofs.Examining
import SourceAtlas.Proofs.Nodes

/-!
# Sections of a document

The blocks of a document are the first nodes below it that are no sections. Each heading,
each block of code and each paragraph and list with enough text makes one section of the
document, in order, and headings pass their titles on to the sections after them.
-/

namespace SourceAtlas

open Syntax (Source Tree Cursor)

namespace Markdown

variable {r : Reader} {t : Tree} {ts : List Tree} {c d : Cursor} {s : Section} {heading : Option String}

/-! ## Blocks -/

def isContainer (c : Cursor) : Bool := c.kind == "document" || c.kind == "section"

/-- Whether a node lies below documents and sections alone and is none of them. -/
def isBlock (c : Cursor) : Bool := !isContainer c && c.ancestors.all isContainer

theorem blocksOf_eq_flatMap (ts : List Tree) : blocksOf ts = ts.flatMap blocks := by
  induction ts with
  | nil => rfl
  | cons t ts ih => rw [blocksOf, ih, List.flatMap_cons]

theorem blocks_eq (c : Cursor) :
    blocks c.tree = if isContainer c then c.tree.children.flatMap blocks else [c.tree] := by
  obtain ⟨⟨l, ts⟩, path⟩ := c
  rw [blocks, blocksOf_eq_flatMap]
  rfl

theorem map_tree_children (c : Cursor) : c.children.map (·.tree) = c.tree.children := by
  have hsiblings : ∀ (before ts : List Tree), (Cursor.siblings c.tree c.path before ts).map (·.tree) = ts := by
    intro before ts
    induction ts generalizing before with
    | nil => rfl
    | cons t ts ih => rw [Cursor.siblings, List.map_cons, ih]
  exact hsiblings [] c.tree.children

/-- Below containers alone, the blocks of a subtree are found in pre-order. -/
theorem blocks_eq_of_below (c : Cursor) (h : c.ancestors.all isContainer = true) :
    blocks c.tree = (c.walk.filter isBlock).map (·.tree) := by
  induction c using Cursor.induction with
  | h c ih =>
    have hblocks : c.walk.filter isBlock = if isContainer c then c.children.flatMap fun d =>
        d.walk.filter isBlock else [c] :=
      Cursor.filter_walk_firstWithout h
    rw [blocks_eq, hblocks]
    cases hc : isContainer c with
    | true =>
      rw [if_pos rfl, if_pos rfl, ← map_tree_children, List.flatMap_map, List.map_flatMap]
      refine List.flatMap_congr fun d hd => ih d hd ?_
      rw [Cursor.ancestors_of_mem_children hd, List.all_cons, hc, h, Bool.and_self]
    | false => rfl

def blocksIn (t : Tree) : List Cursor := (Cursor.root t).walk.filter isBlock

theorem blocks_eq_blocksIn (t : Tree) : blocks t = (blocksIn t).map (·.tree) := blocks_eq_of_below (.root t) rfl

theorem pairwise_blocksIn (hnested : t.Nested) (hordered : t.Ordered) :
    (blocksIn t).Pairwise fun c d => c.first ≤ c.stop ∧ c.stop ≤ d.first :=
  hordered.pairwise_firstWithout hnested isContainer

/-! ## Sections of blocks -/

def sectionType? : String → Option SectionType
  | "atx_heading" | "setext_heading" => some .heading
  | "fenced_code_block" | "indented_code_block" => some .codeBlock
  | "paragraph" => some .paragraph
  | "list" => some .list
  | _ => none

namespace Reader

def rendered (r : Reader) (t : Tree) : String :=
  if t.kind = "list" then Text.joinLines
    (((Cursor.root t).descendants ["paragraph"]).map fun c => r.plain c.tree) else r.plain t

def keeps (r : Reader) (t : Tree) : Bool :=
  match sectionType? t.kind with
  | some .heading | some .codeBlock => true
  | some .paragraph | some .list => r.minChars ≤ (r.rendered t).length
  | none => false

structure Shows (r : Reader) (t : Tree) (s : Section) : Prop where
  type : sectionType? t.kind = some s.type
  lines : (s.first, s.last) = r.lines t
  content : s.content = if s.type = .paragraph ∨ s.type = .list then r.rendered t
    else Text.stripEnd (· == '\n') (r.text t)
  level : s.level = if s.type = .heading then some (headingLevel t.children) else none
  title : s.type = .heading → s.title = some (plainText r.inline (r.headingMarkup t))
  language : s.language = if s.type = .codeBlock then r.codeLanguage t else none

/-- What becomes of a block below a heading: a section that takes its title from there unless it is a heading
itself, or nothing. -/
def Becomes (r : Reader) (heading : Option String) (t : Tree) (made : Option Section) : Prop :=
  match made with
  | some s => r.keeps t = true ∧ r.Shows t s ∧ (s.type ≠ .heading → s.title = heading)
  | none => r.keeps t = false

theorem becomes_body {type : SectionType} {content : String} (htype : sectionType? t.kind = some type)
    (hbody : type = .paragraph ∨ type = .list) (hcontent : content = r.rendered t) :
    r.Becomes heading t (if (content.length : Int) < r.minChars then none else
      some { type, content, first := (r.lines t).1, last := (r.lines t).2, title := heading }) := by
  have hkeeps : r.keeps t = decide (r.minChars ≤ content.length) := by
    rw [keeps, htype, hcontent]
    rcases hbody with rfl | rfl <;> rfl
  have hne : type ≠ .heading ∧ type ≠ .codeBlock := by
    rcases hbody with rfl | rfl <;> decide
  by_cases hshort : (content.length : Int) < r.minChars
  · rw [if_pos hshort]
    simpa [Becomes, hkeeps] using hshort
  · rw [if_neg hshort]
    refine ⟨by simpa [hkeeps] using hshort, ?_, fun _ => rfl⟩
    exact { type := htype, lines := rfl, content := by rw [if_pos hbody, hcontent], level := by rw [if_neg hne.1],
            title := fun h => absurd h hne.1, language := by rw [if_neg hne.2] }

theorem becomes_heading (htype : sectionType? t.kind = some .heading) : r.Becomes heading t
    (some { type := .heading, content := Text.stripEnd (· == '\n') (r.text t), first := (r.lines t).1,
            last := (r.lines t).2, level := some (headingLevel t.children),
            title := some (plainText r.inline (r.headingMarkup t)) }) := by
  refine ⟨by rw [keeps, htype], ?_, fun h => absurd rfl h⟩
  exact { type := htype, lines := rfl, content := rfl, level := rfl, title := fun _ => rfl, language := rfl }

theorem becomes_code (htype : sectionType? t.kind = some .codeBlock) : r.Becomes heading t
    (some { type := .codeBlock, content := Text.stripEnd (· == '\n') (r.text t), first := (r.lines t).1,
            last := (r.lines t).2, title := heading, language := r.codeLanguage t }) := by
  refine ⟨by rw [keeps, htype], ?_, fun _ => rfl⟩
  exact { type := htype, lines := rfl, content := rfl, level := rfl, title := nofun, language := rfl }

theorem becomes_section? (r : Reader) (heading : Option String) (t : Tree) :
    r.Becomes heading t (r.section? heading t) := by
  unfold section?
  dsimp only
  split <;> rename_i hkind
  · exact becomes_heading (by rw [hkind]; rfl)
  · exact becomes_heading (by rw [hkind]; rfl)
  · exact becomes_code (by rw [hkind]; rfl)
  · exact becomes_code (by rw [hkind]; rfl)
  · refine becomes_body (by rw [hkind]; rfl) (.inl rfl) ?_
    rw [rendered, if_neg (by rw [hkind]; decide)]
  · refine becomes_body (by rw [hkind]; rfl) (.inr rfl) ?_
    rw [rendered, if_pos hkind]
  · have hnone : sectionType? t.kind = none := by
      unfold sectionType?
      split <;> first | contradiction | rfl
    rw [Becomes, keeps, hnone]

/-! ## Sections of a document -/

theorem sectionsBelow_shows (r : Reader) (ts : List Tree) : ∀ heading : Option String,
    List.Forall₂ r.Shows (ts.filter r.keeps) (r.sectionsBelow heading ts) := by
  induction ts with
  | nil => exact fun _ => .nil
  | cons t ts ih =>
    intro heading
    have hmade := r.becomes_section? heading t
    rw [sectionsBelow, List.filter_cons]
    cases hs : r.section? heading t with
    | none =>
      rw [hs] at hmade
      rw [if_neg (ne_true_of_eq_false hmade)]
      exact ih heading
    | some s =>
      rw [hs] at hmade
      obtain ⟨hkeeps, hshows, -⟩ := hmade
      rw [if_pos hkeeps]
      exact .cons hshows (ih _)

def titleAfter (heading : Option String) (before : List Section) : Option String :=
  match before.findRev? (·.type == .heading) with
  | some s => s.title
  | none => heading

theorem titleAfter_cons (heading : Option String) (s : Section) (before : List Section) :
    titleAfter heading (s :: before) = titleAfter (if s.type == .heading then s.title else heading) before := by
  unfold titleAfter
  rw [List.findRev?_eq_find?_reverse, List.findRev?_eq_find?_reverse, List.reverse_cons, List.find?_append]
  cases before.reverse.find? (·.type == .heading) with
  | some h => rfl
  | none =>
    rw [Option.none_or, List.find?_cons]
    cases s.type == .heading <;> rfl

theorem title_of_sectionsBelow {after : List Section} :
    ∀ {ts : List Tree} {heading : Option String} {before : List Section},
    r.sectionsBelow heading ts = before ++ s :: after → s.type ≠ .heading →
    s.title = titleAfter heading before := by
  intro ts
  induction ts with
  | nil =>
    intro heading before h
    rw [sectionsBelow] at h
    exact absurd h.symm (List.append_ne_nil_of_right_ne_nil _ (List.cons_ne_nil _ _))
  | cons t ts ih =>
    intro heading before h hs
    have hmade := r.becomes_section? heading t
    rw [sectionsBelow] at h
    cases hfirst : r.section? heading t with
    | none =>
      rw [hfirst] at h
      exact ih h hs
    | some s' =>
      rw [hfirst] at h hmade
      cases before with
      | nil =>
        obtain ⟨rfl, -⟩ := List.cons.inj h
        exact hmade.2.2 hs
      | cons b before =>
        obtain ⟨rfl, hrest⟩ := List.cons.inj h
        rw [titleAfter_cons]
        exact ih hrest hs

/-! ## Lines -/

theorem lines_valid (r : Reader) (t : Tree) : 1 ≤ (r.lines t).1 ∧ (r.lines t).1 ≤ (r.lines t).2 := by
  simp only [lines]
  omega

/-- What starts where another block ends or later starts on its last line or later. -/
theorem lines_le (r : Reader) {t u : Tree} (h : t.label.first ≤ t.label.stop) (h' : t.label.stop ≤ u.label.first) :
    (r.lines t).2 ≤ (r.lines u).1 := by
  have hrange := r.source.row_mono h
  have hafter := r.source.row_mono h'
  simp only [lines]
  split <;> omega

theorem pairwise_lines (r : Reader) (hnested : t.Nested) (hordered : t.Ordered) :
    (((blocksIn t).filter fun c => r.keeps c.tree).map fun c => r.lines c.tree).Pairwise fun l l' =>
      l.2 ≤ l'.1 := by
  refine List.pairwise_map.2 ((pairwise_blocksIn hnested hordered).filter _ |>.imp ?_)
  rintro c d ⟨hrange, hfollows⟩
  exact r.lines_le hrange hfollows

theorem sections_shows (r : Reader) (t : Tree) :
    List.Forall₂ (fun c s => r.Shows c.tree s) ((blocksIn t).filter fun c => r.keeps c.tree) (r.sections t) := by
  have hall := r.sectionsBelow_shows (blocks t) none
  rw [blocks_eq_blocksIn, List.filter_map, List.forall₂_map_left_iff] at hall
  rwa [sections, blocks_eq_blocksIn]

end Reader

open Reader (titleAfter)

/-- A document has one section for each of its blocks that is kept, in pre-order. All headings and blocks of
code are kept, and paragraphs and lists with enough text. Each section lies under the last heading before
it, and starts on the last line of the section before it or later. -/
theorem sections_of_ordered (r : Reader) (t : Tree) (hnested : t.Nested) (hordered : t.Ordered) :
    List.Forall₂ (fun c s => r.Shows c.tree s) ((blocksIn t).filter fun c => r.keeps c.tree) (r.sections t) ∧
      (∀ before s after, r.sections t = before ++ s :: after → s.type ≠ .heading →
        s.title = titleAfter none before) ∧
      (∀ s ∈ r.sections t, 1 ≤ s.first ∧ s.first ≤ s.last) ∧
      (r.sections t).Pairwise fun s s' => s.last ≤ s'.first := by
  have hshows := r.sections_shows t
  have hlines : (r.sections t).map (fun s => (s.first, s.last)) =
      ((blocksIn t).filter fun c => r.keeps c.tree).map fun c => r.lines c.tree :=
    map_eq_map_iff.2 (hshows.flip.imp fun s c h => h.lines)
  refine ⟨hshows, fun before s after h => Reader.title_of_sectionsBelow h, fun s hs => ?_, ?_⟩
  · obtain ⟨c, -, hc⟩ := exists_of_mem_right hshows hs
    have hvalid := r.lines_valid c.tree
    rwa [← hc.lines] at hvalid
  · have hpairs := r.pairwise_lines hnested hordered
    rw [← hlines] at hpairs
    exact List.pairwise_map.1 hpairs

end Markdown

/-! A heading with two paragraphs, of which one is too short. -/

namespace Sample

open Markdown (Reader)

def noteReader : Reader where
  source := ⟨Text.encode "# A\n\nb\n\nlong\n"⟩
  inline markup := .node { kind := "inline", first := 0, stop := (Text.encode markup).length } []
  minChars := 3

def noteTree : Tree :=
  .node { kind := "document", first := 0, stop := 13 } [
    .node { kind := "section", first := 0, stop := 13 } [
      .node { kind := "atx_heading", first := 0, stop := 4 } [
        .node { kind := "atx_h1_marker", first := 0, stop := 1 } [],
        .node { kind := "inline", first := 2, stop := 3, field := some "heading_content" } []],
      .node { kind := "paragraph", first := 5, stop := 7 } [.node { kind := "inline", first := 5, stop := 6 } []],
      .node { kind := "paragraph", first := 8, stop := 13 }
      [.node { kind := "inline", first := 8, stop := 12 } []]]]

end Sample

namespace Markdown

theorem sections_of_note : ∃ s s', Sample.noteReader.sections Sample.noteTree = [s, s'] ∧ s.type = .heading ∧
    s'.type = .paragraph ∧ s'.title = s.title ∧ s.last ≤ s'.first := by
  obtain ⟨hshows, htitles, -, hlines⟩ :=
    sections_of_ordered Sample.noteReader Sample.noteTree (by decide +kernel) (by decide +kernel)
  have hkinds : ((blocksIn Sample.noteTree).filter fun c => Sample.noteReader.keeps c.tree).map (·.kind) =
      ["atx_heading", "paragraph"] := by
    decide +kernel
  obtain ⟨c, rest, hkept, hheading, hrest⟩ := List.map_eq_cons_iff.1 hkinds
  obtain ⟨d, rest, rfl, hparagraph, hnil⟩ := List.map_eq_cons_iff.1 hrest
  obtain rfl := List.map_eq_nil_iff.1 hnil
  rw [hkept] at hshows
  obtain ⟨s, rest, hs, hshows, hall⟩ := List.forall₂_cons_left_iff.1 hshows
  obtain ⟨s', rest', hs', hend, rfl⟩ := List.forall₂_cons_left_iff.1 hshows
  obtain rfl := List.forall₂_nil_left_iff.1 hend
  have htype : s.type = .heading := by
    have hs := hs.type
    rw [show c.tree.kind = "atx_heading" from hheading] at hs
    exact (Option.some.inj hs).symm
  have htype' : s'.type = .paragraph := by
    have hs' := hs'.type
    rw [show d.tree.kind = "paragraph" from hparagraph] at hs'
    exact (Option.some.inj hs').symm
  refine ⟨s, s', hall, htype, htype', ?_, ?_⟩
  · rw [htitles [s] s' [] hall (by rw [htype']; decide), Reader.titleAfter, List.findRev?_eq_find?_reverse,
      List.reverse_singleton, List.find?_cons, htype]
    rfl
  · rw [hall] at hlines
    exact (List.pairwise_cons.1 hlines).1 s' List.mem_cons_self

end Markdown

end SourceAtlas
