import SourceAtlas.Digest.Sha256
import SourceAtlas.Text.Utf8

/-!
# References and ids

A reference names a symbol for readers; an id is the digest of its four
parts, joined by a character that no part but the last may hold.
-/

namespace SourceAtlas

def symbolRef (workspace repo path name : String) : String :=
  workspace ++ "/" ++ repo ++ "/" ++ path ++ "#" ++ name

/-- The text whose digest is the id. -/
def idText (workspace repo path name : String) : String :=
  String.intercalate "\x00" [workspace, repo, path, name]

def symbolId (workspace repo path name : String) : String :=
  Digest.hex (Digest.Sha256.hash.digest (Text.encode (idText workspace repo path name)))

/-- Where a file belongs. -/
structure FileIdentity where
  workspace : String
  repo : String
  path : String

def FileIdentity.ref (f : FileIdentity) (name : String) : String :=
  symbolRef f.workspace f.repo f.path name

end SourceAtlas
