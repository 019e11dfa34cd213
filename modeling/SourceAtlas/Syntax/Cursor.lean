import SourceAtlas.Syntax.Tree
import SourceAtlas.Text.Utf8

/-!
# Cursors

A cursor is a node together with the way to it from the root, so that its
ancestors and its earlier siblings can be asked for.
-/

namespace SourceAtlas.Syntax

/-- One step down: the parent, and the siblings before the child, nearest first. -/
structure Frame where
  parent : Tree
  before : List Tree
  deriving DecidableEq

structure Cursor where
  tree : Tree
  path : List Frame
  deriving DecidableEq

namespace Cursor

def root (t : Tree) : Cursor := ⟨t, []⟩

def kind (c : Cursor) : String := c.tree.kind

def first (c : Cursor) : Nat := c.tree.label.first

def stop (c : Cursor) : Nat := c.tree.label.stop

def parent? (c : Cursor) : Option Cursor :=
  match c.path with
  | f :: path => some ⟨f.parent, path⟩
  | [] => none

/-- The ancestors, innermost first. -/
def ancestors (c : Cursor) : List Cursor := go c.path
where
  go : List Frame → List Cursor
    | [] => []
    | f :: path => ⟨f.parent, path⟩ :: go path

/-- Cursors on siblings; `before` holds those that are already passed. -/
def siblings (parent : Tree) (path : List Frame) (before : List Tree) : List Tree → List Cursor
  | [] => []
  | t :: ts => ⟨t, ⟨parent, before⟩ :: path⟩ :: siblings parent path (t :: before) ts

def children (c : Cursor) : List Cursor := siblings c.tree c.path [] c.tree.children

def namedChildren (c : Cursor) : List Cursor := c.children.filter (·.tree.label.named)

def childrenIn (c : Cursor) (field : String) : List Cursor :=
  c.children.filter (·.tree.label.field == some field)

def child? (c : Cursor) (field : String) : Option Cursor := (c.childrenIn field).head?

def childOfKind? (c : Cursor) (kinds : List String) : Option Cursor :=
  c.children.find? fun d => kinds.contains d.kind

/-- The siblings before this one, nearest first. -/
def earlier (c : Cursor) : List Tree :=
  match c.path with
  | f :: _ => f.before
  | [] => []

/-- The number of nodes on a stack of subtrees. -/
def weight : List Cursor → Nat
  | [] => 0
  | c :: rest => c.tree.size + weight rest

theorem weight_append (s t : List Cursor) : weight (s ++ t) = weight s + weight t := by
  induction s with
  | nil => simp [weight]
  | cons c s ih => simp [weight, ih, Nat.add_assoc]

theorem weight_siblings (parent : Tree) (path : List Frame) (before ts : List Tree) :
    weight (siblings parent path before ts) = Tree.sizes ts := by
  induction ts generalizing before with
  | nil => rfl
  | cons t ts ih =>
    simp [siblings, weight, Tree.sizes, ih]

theorem weight_children (c : Cursor) : weight c.children + 1 = c.tree.size := by
  obtain ⟨⟨l, ts⟩, path⟩ := c
  simp [children, weight_siblings, Tree.children, Tree.size]

/-- The nodes of the subtrees on a stack, each before its descendants. -/
def walkStack : List Cursor → List Cursor
  | [] => []
  | c :: rest => c :: walkStack (c.children ++ rest)
termination_by stack => weight stack
decreasing_by
  have := weight_children c
  rw [weight_append]
  simp only [weight]
  omega

/-- A node and all its descendants in pre-order. -/
def walk (c : Cursor) : List Cursor := walkStack [c]

def descendants (c : Cursor) (kinds : List String) : List Cursor :=
  c.walk.filter fun d => kinds.contains d.kind

def bytes (c : Cursor) (s : Source) : List UInt8 := s.slice c.first c.stop

def text (c : Cursor) (s : Source) : String := Text.decode (c.bytes s)

def firstRow (c : Cursor) (s : Source) : Nat := (s.point c.first).row

def lastRow (c : Cursor) (s : Source) : Nat := (s.point c.stop).row

/-- The text of a field, empty when nothing fills it. -/
def fieldText (c : Cursor) (s : Source) (field : String) : String :=
  match c.child? field with
  | some d => d.text s
  | none => ""

end Cursor

/-- Descriptions of the first `limit` nodes that are wrong or missing. -/
def problems (s : Source) (c : Cursor) (limit : Nat) : List String :=
  let wrong := c.walk.filter fun d => d.tree.isError || d.tree.label.missing
  (wrong.take limit).map fun d =>
    let p := s.point d.first
    let word := if d.tree.label.missing then "Missing" else "Error"
    s!"{word} at line {p.row + 1}, column {p.column}: {d.kind}"

end SourceAtlas.Syntax
