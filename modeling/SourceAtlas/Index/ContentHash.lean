import SourceAtlas.Digest.Md5
import SourceAtlas.Digest.Sha256
import SourceAtlas.Digest.XxHash64
import SourceAtlas.FileTree

/-!
# Content hashes

A content hash tells whether a file has changed. A stored file is hashed in
pieces; a text is hashed as its bytes.
-/

namespace SourceAtlas.Index

inductive HashAlgorithm where
  | xxhash | md5 | sha256
  deriving DecidableEq

namespace HashAlgorithm

def name : HashAlgorithm → String
  | xxhash => "xxhash"
  | md5 => "md5"
  | sha256 => "sha256"

def all : List HashAlgorithm := [xxhash, md5, sha256]

def ofName (s : String) : Outcome HashAlgorithm :=
  match all.find? (·.name == s) with
  | some a => pure a
  | none => throw (.badValue ("Unsupported hash algorithm: " ++ s))

def hash : HashAlgorithm → Digest.BlockHash
  | xxhash => Digest.XxHash64.hash
  | md5 => Digest.Md5.hash
  | sha256 => Digest.Sha256.hash

end HashAlgorithm

def hashBytes (a : HashAlgorithm) (bytes : List UInt8) : String :=
  Digest.hex (a.hash.digest bytes)

/-- The most bytes that are read from a file at once. -/
def pieceSize : Nat := 65536

/-- Feeds a file to a hash piece by piece. -/
def absorb {h : Digest.BlockHash} (s : Digest.Stream h) (bytes : List UInt8) : Digest.Stream h :=
  match bytes with
  | [] => s
  | b :: rest =>
    absorb (s.update ((b :: rest).take pieceSize)) ((b :: rest).drop pieceSize)
termination_by bytes.length
decreasing_by rw [List.length_drop, List.length_cons, pieceSize]; omega

structure FileHash where
  path : String
  hash : String
  size : Nat

def FileHash.toValue (h : FileHash) : Json.Value :=
  .obj [("file_path", .str h.path), ("content_hash", .str h.hash), ("size", .int h.size)]

/-- The hash of the bytes of a file. -/
def FileHash.ofBytes (a : HashAlgorithm) (path : String) (bytes : List UInt8) : FileHash :=
  ⟨path, Digest.hex (absorb (.start a.hash) bytes).digest, bytes.length⟩

def hashFile (a : HashAlgorithm) (t : FileTree) (path : Text.Path) : Outcome FileHash := do
  if !(← t.has path) then throw (.fileMissing path.toString)
  pure (.ofBytes a path.toString (← t.readFile path).toBytes)

/-- The hashes of the files at some paths; paths that lead nowhere are left out. -/
def hashFiles (a : HashAlgorithm) (t : FileTree) (paths : List Text.Path) :
    Outcome (List FileHash) := do
  let found ← paths.mapM fun path =>
    match hashFile a t path with
    | .ok h => pure (some h)
    | .error (.fileMissing _) => pure none
    | .error f => throw f
  pure (found.filterMap id)

end SourceAtlas.Index
