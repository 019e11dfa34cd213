import SourceAtlas.Compress.Gzip
import SourceAtlas.FileTree
import SourceAtlas.Json.Access
import SourceAtlas.Json.Decode

/-!
# Snapshots

A snapshot is a record that is kept as a compressed file under a name. A file
that holds no record cannot be loaded.
-/

namespace SourceAtlas

open Json (Value Record)

def Compress.Fault.toFailure : Compress.Fault → Failure
  | .foreign => .mishap .notCompressed
  | .cutOff => .mishap .truncatedFile
  | .corrupt => .mishap .corruptStream

/-- The value that bytes hold which need not be compressed. -/
def decompress (bytes : List UInt8) : Outcome Value :=
  match Compress.Gzip.unpack bytes with
  | .ok contents => Json.decode .utf8 contents
  | .error f => throw f.toFailure

/-- The value that a compressed file holds. -/
def FileContent.decompressed : FileContent → Outcome Value
  | record fields => pure (.obj fields)
  | compressed bs => Json.decode .utf8 bs
  | truncated => throw (.mishap .truncatedFile)
  | bytes bs => decompress bs

namespace Snapshot

def version : String := "1.0"

def suffix : String := ".graph.json.gz"

/-- The path of the snapshot of a name in a directory. -/
def pathOf (directory : Text.Path) (name : String) : Text.Path :=
  directory.join (.ofString (name ++ suffix))

/-- Saves a record with the version of the format in front. -/
def save (t : FileTree) (path : Text.Path) (data : Value) : Outcome FileTree := do
  let fields := Record.extend [("version", version)] (← asRecord data)
  match t.write path (.record fields) with
  | .ok t => pure t
  | .error f => throw (.snapshot "save" path.toString f)

/-- Failures that say nothing of the file that was read. -/
def isBare : Failure → Bool
  | .mishap .truncatedFile | .mishap .corruptStream | .mishap .tooDeep => true
  | _ => false

/-- The record of a snapshot, if there is a file. -/
def load (t : FileTree) (path : Text.Path) : Outcome (Option Record) := do
  if !(← t.has path) then return none
  match t.readFile path >>= FileContent.decompressed with
  | .ok (.obj fields) => pure (some fields)
  | .ok _ => throw (.mishap .missingAttribute)
  | .error f => throw (if isBare f then f else .snapshot "load" path.toString f)

/-- Deletes a snapshot, and says whether there was one. -/
def delete (t : FileTree) (path : Text.Path) : Outcome (FileTree × Bool) := do
  if ← t.has path then pure (← t.remove path, true) else pure (t, false)

end Snapshot

end SourceAtlas
