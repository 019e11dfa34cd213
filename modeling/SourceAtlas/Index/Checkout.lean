import SourceAtlas.FileTree
import SourceAtlas.Text.Glob

/-!
# Checkouts

The files of a repository: what version control lists, or else what lies in
the directory. A file is left out when some segment of its path matches an
ignore pattern.
-/

namespace SourceAtlas.Index

/-- What version control knows of a directory. -/
structure GitState where
  /-- The commit of the head, if there is one yet. -/
  head : Option String
  /-- Whether pulling from the remote works; nothing without a remote. -/
  remote : Option Bool
  /-- The listing of files, if the command works. -/
  listing : Option String

structure Checkout where
  path : Text.Path
  /-- The files that there are. -/
  tree : FileTree
  git : Option GitState := none
  patterns : List String

def defaultPatterns : List String :=
  [".git", "node_modules", "__pycache__", ".venv", "venv", "dist", "build"]

namespace Checkout

/-- No patterns stand for the default ones. -/
def «open» (path : Text.Path) (tree : FileTree) (git : Option GitState)
    (patterns : List String) : Checkout :=
  ⟨path, tree, git, if patterns.isEmpty then defaultPatterns else patterns⟩

def matchesSegment (c : Checkout) (name : String) : Bool :=
  c.patterns.any fun p => Text.Glob.matches p name

def isIgnored (c : Checkout) (path : String) : Bool :=
  (Text.Path.ofString path).parts.any c.matchesSegment

def commit (c : Checkout) : String := ((c.git.bind (·.head)).getD "")

/-- How many times the remote is asked, and whether that fails. -/
def pull (c : Checkout) : Nat × Outcome Unit :=
  match c.git.bind (·.remote) with
  | none => (0, pure ())
  | some true => (1, pure ())
  | some false => (1, throw (.git "pull" c.path.toString (.mishap .gitCommand)))

def listed (c : Checkout) : Outcome (List String) :=
  match c.git with
  | none =>
    match c.tree.find c.path with
    | .ok directory => pure ((directory.paths c.matchesSegment).map (String.intercalate "/" ·))
    | .error _ => pure []
  | some g =>
    match g.listing with
    | some output => pure (((Text.lines output).map Text.strip).filter (· != ""))
    | none => throw (.git "ls-files" c.path.toString (.mishap .gitCommand))

/-- The files that are not ignored, in the order of their code points. -/
def files (c : Checkout) : Outcome (List String) := do
  let found ← c.listed
  pure ((found.filter (!c.isIgnored ·)).mergeSort (fun a b => a ≤ b))

def read (c : Checkout) (path : String) : Outcome String :=
  c.tree.readText (c.path.join (.ofString path))

end Checkout

end SourceAtlas.Index
