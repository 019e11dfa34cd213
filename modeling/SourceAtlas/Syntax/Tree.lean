/-!
# Syntax trees

A node covers a range of bytes of its source. Literal tokens are nodes
without a name; a node that a parser put in to go on is missing.
-/

namespace SourceAtlas.Syntax

structure Label where
  kind : String
  first : Nat
  stop : Nat
  named : Bool := true
  missing : Bool := false
  /-- The field that the node fills in its parent. -/
  field : Option String := none
  deriving DecidableEq

inductive Tree where
  | node (label : Label) (children : List Tree)

namespace Tree

def label : Tree → Label
  | .node l _ => l

def children : Tree → List Tree
  | .node _ cs => cs

def kind (t : Tree) : String := t.label.kind

def isError (t : Tree) : Bool := t.kind == "ERROR"

mutual

def size : Tree → Nat
  | .node _ cs => sizes cs + 1

def sizes : List Tree → Nat
  | [] => 0
  | t :: ts => t.size + sizes ts

end

mutual

def decEq : (t u : Tree) → Decidable (t = u)
  | .node l ts, .node m us =>
    have := decEqAll ts us
    decidable_of_iff (l = m ∧ ts = us) (by simp)

def decEqAll : (ts us : List Tree) → Decidable (ts = us)
  | [], [] => isTrue rfl
  | [], _ :: _ => isFalse (by simp)
  | _ :: _, [] => isFalse (by simp)
  | t :: ts, u :: us =>
    have := decEq t u
    have := decEqAll ts us
    decidable_of_iff (t = u ∧ ts = us) (by simp)

end

instance : DecidableEq Tree := decEq

/-- Puts a row in front of the rows that follow it; deeper ones become its children. -/
def attach (row : Nat × Label) (rest : List (Nat × Tree)) : List (Nat × Tree) :=
  let below := rest.takeWhile fun r => row.1 < r.1
  (row.1, .node row.2 (below.map Prod.snd)) :: rest.dropWhile fun r => row.1 < r.1

/-- The tree whose nodes in pre-order have these depths and labels. -/
def ofRows (rows : List (Nat × Label)) : Tree :=
  match rows.foldr attach [] with
  | (_, t) :: _ => t
  | [] => .node { kind := "", first := 0, stop := 0 } []

end Tree

/-- A source text as bytes. -/
structure Source where
  bytes : List UInt8

/-- Lines and bytes within a line, both from zero. -/
structure Point where
  row : Nat
  column : Nat
  deriving DecidableEq

namespace Source

def slice (s : Source) (first stop : Nat) : List UInt8 := (s.bytes.drop first).take (stop - first)

def point (s : Source) (offset : Nat) : Point :=
  let before := s.bytes.take offset
  ⟨before.count 10, (before.reverse.takeWhile (· != 10)).length⟩

end Source

end SourceAtlas.Syntax
