import SourceAtlas.Failure
import SourceAtlas.Text.Path
import SourceAtlas.Text.Utf8

/-!
# Files and directories

A path is followed step by step, and every step starts in a directory that
exists; two dots lead back out of it. The top is its own parent. An absolute
path leads out of the tree, where there is nothing but directories around it.
-/

namespace SourceAtlas

open Text (Path)

inductive FileContent where
  | bytes (bs : List UInt8)
  /-- A record that was saved in compressed form. -/
  | record (fields : Json.Record)
  /-- The compressed form of some bytes. -/
  | compressed (bs : List UInt8)
  /-- The first bytes of a compressed file. -/
  | truncated

/-- The bytes of a file that is not compressed. -/
def FileContent.toBytes : FileContent → List UInt8
  | .bytes bs => bs
  | _ => []

inductive FileTree where
  | file (content : FileContent)
  | dir (entries : List (String × FileTree))

namespace FileTree

def empty : FileTree := .dir []

def entries : FileTree → List (String × FileTree)
  | .file _ => []
  | .dir es => es

def child? (t : FileTree) (name : String) : Option FileTree :=
  (t.entries.find? (·.1 == name)).map (·.2)

/-- Replaces an entry in its place, or adds it at the end. -/
def setEntry (es : List (String × FileTree)) (name : String) (t : FileTree) :
    List (String × FileTree) :=
  if es.any (·.1 == name) then es.map fun e => if e.1 == name then (name, t) else e
  else es ++ [(name, t)]

/-! ## Places, by the names that lead to them from the top -/

def at? (t : FileTree) : List String → Option FileTree
  | [] => some t
  | name :: names => (t.child? name).bind fun c => c.at? names

/-- Puts a tree at a place; directories on the way are made. -/
def put (t leaf : FileTree) : List String → FileTree
  | [] => leaf
  | name :: names =>
    .dir (setEntry t.entries name (put ((t.child? name).getD .empty) leaf names))

def erase (t : FileTree) : List String → FileTree
  | [] => t
  | [name] => .dir (t.entries.filter (·.1 != name))
  | name :: names =>
    match t.child? name with
    | some c => .dir (setEntry t.entries name (erase c names))
    | none => t

/-! ## Paths -/

/-- The most bytes of a name. -/
def maxName : Nat := 255

/-- The place that is reached from another one. -/
def follow (t : FileTree) (shown : String) (here : List String) :
    List String → Outcome (List String)
  | [] => pure here
  | name :: rest =>
    match t.at? here with
    | none => throw (.fileMissing shown)
    | some (.file _) => throw (.mishap .notDirectory)
    | some (.dir _) =>
      if name == ".." then t.follow shown here.dropLast rest
      else if maxName < name.utf8ByteSize then throw (.mishap .nameTooLong)
      else t.follow shown (here ++ [name]) rest

/-- What an absolute path is followed in is not the tree itself. -/
def scope (t : FileTree) (p : Path) : FileTree := if p.root == "" then t else .empty

/-- No path has a null character. -/
def checkPath (p : Path) : Outcome Unit :=
  if p.segments.any (·.toList.contains '\x00') then throw (.badValue "embedded null byte")
  else pure ()

def placeOf (t : FileTree) (p : Path) : Outcome (List String) := do
  checkPath p
  (t.scope p).follow p.toString [] p.segments

/-- What a path leads to. -/
def find (t : FileTree) (p : Path) : Outcome FileTree := do
  match (t.scope p).at? (← t.placeOf p) with
  | some found => pure found
  | none => throw (.fileMissing p.toString)

/-- Whether a path leads to something. -/
def has (t : FileTree) (p : Path) : Outcome Bool :=
  match t.find p with
  | .ok _ => pure true
  | .error (.fileMissing _) | .error (.mishap .notDirectory) | .error (.badValue _) => pure false
  | .error f => throw f

def readFile (t : FileTree) (p : Path) : Outcome FileContent := do
  match ← t.find p with
  | .file content => pure content
  | .dir _ => throw (.mishap .isDirectory)

/-- A file as text: bad bytes are replaced and every line end is a line feed. -/
def readText (t : FileTree) (p : Path) : Outcome String := do
  pure (Text.unixLines (Text.decode (← t.readFile p).toBytes))

/-- The texts of the files at some paths, of which at most `limit` are open at once; what cannot
be read is left out. -/
def readTexts (t : FileTree) (limit : Int) (paths : List Path) : Outcome (List (Path × String)) :=
  if limit < 0 then throw (.badValue "Semaphore initial value must be >= 0")
  else pure (paths.filterMap fun p => match t.readText p with
    | .ok text => some (p, text)
    | .error _ => none)

/-- Writes a file into a directory that exists. -/
def write (t : FileTree) (p : Path) (content : FileContent) : Outcome FileTree := do
  let place ← t.placeOf p
  match (t.scope p).at? place with
  | some (.dir _) => throw (.mishap .isDirectory)
  | _ => pure (if p.root == "" then t.put (.file content) place else t)

def remove (t : FileTree) (p : Path) : Outcome FileTree := do
  let place ← t.placeOf p
  match (t.scope p).at? place with
  | some (.file _) => pure (t.erase place)
  | some (.dir _) => throw (.mishap .isDirectory)
  | none => throw (.fileMissing p.toString)

/-- Makes the directories that are missing on the way from one place. -/
def makeDirsFrom (t : FileTree) (here : List String) : List String → Outcome FileTree
  | [] => pure t
  | name :: rest =>
    if name == ".." then t.makeDirsFrom here.dropLast rest
    else if maxName < name.utf8ByteSize then throw (.mishap .nameTooLong)
    else
      let next := here ++ [name]
      match t.at? next with
      | some (.dir _) => t.makeDirsFrom next rest
      | some (.file _) => throw (.mishap (if rest.isEmpty then .fileExists else .notDirectory))
      | none => (t.put .empty next).makeDirsFrom next rest

def makeDirs (t : FileTree) (p : Path) : Outcome FileTree := do
  checkPath p
  if p.root == "" then t.makeDirsFrom [] p.segments else pure t

/-- Writes a file and makes the directories that are missing. -/
def create (t : FileTree) (p : Path) (content : FileContent) : Outcome FileTree := do
  (← t.makeDirs p.parent).write p content

mutual

/-- The paths of the files below, without entering what `skip` names. -/
def paths (skip : String → Bool) : FileTree → List (List String)
  | .file _ => []
  | .dir es => entryPaths skip es

def entryPaths (skip : String → Bool) : List (String × FileTree) → List (List String)
  | [] => []
  | (name, .file _) :: es => [name] :: entryPaths skip es
  | (name, .dir inner) :: es =>
    (if skip name then [] else (entryPaths skip inner).map (name :: ·)) ++ entryPaths skip es

end

end FileTree

end SourceAtlas
