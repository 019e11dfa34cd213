import SourceAtlas.Text.Blank

/-!
# Slash-separated paths

Empty segments and single dots carry no meaning. A path that starts with a
slash is absolute; exactly two slashes make a root of their own.
-/

namespace SourceAtlas.Text

structure Path where
  root : String
  segments : List String
  deriving DecidableEq

namespace Path

def ofString (s : String) : Path :=
  let cs := s.toList
  let root := match cs with
    | '/' :: '/' :: '/' :: _ => "/"
    | '/' :: '/' :: _ => "//"
    | '/' :: _ => "/"
    | _ => ""
  let pieces := (splitAt (· == '/') cs).map String.ofList
  ⟨root, pieces.filter fun p => p != "" && p != "."⟩

/-- The root, if there is one, and the segments. -/
def parts (p : Path) : List String :=
  if p.root == "" then p.segments else p.root :: p.segments

def toString (p : Path) : String :=
  let text := p.root ++ String.intercalate "/" p.segments
  if text == "" then "." else text

/-- The path of the directory that a path is in, by its segments alone. -/
def parent (p : Path) : Path := ⟨p.root, p.segments.dropLast⟩

/-- An absolute right side replaces the left one. -/
def join (p q : Path) : Path :=
  if q.root == "" then ⟨p.root, p.segments ++ q.segments⟩ else q

/-- From the last dot of the last segment on, unless that dot is its first or last character. -/
def suffix (p : Path) : String :=
  match p.segments.getLast? with
  | none => ""
  | some name =>
    let cs := name.toList
    let after := (cs.reverse.takeWhile (· != '.')).reverse
    let stem := cs.length - after.length - 1
    if after.isEmpty || after.length == cs.length || stem == 0 then ""
    else String.ofList ('.' :: after)

end Path

/-- A path in its shortest spelling. -/
def normalPath (s : String) : String := (Path.ofString s).toString

end SourceAtlas.Text
