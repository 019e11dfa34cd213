import SourceAtlas.Search.RemoteIndex
import SourceAtlas.Settings

/-!
# Wiring

Which parts an atlas is made of, by its settings. Indexes are kept by a search
server or else by the atlas itself; embeddings come from a service or else are
hashed.
-/

namespace SourceAtlas

open Json (Value)

/-- The indexes that a search server keeps. -/
structure RemoteIndexes where
  texts : Search.RemoteIndex
  vectors : Search.RemoteIndex

structure Wiring where
  settings : Settings
  embedding : Embedding.Config
  embedsRemotely : Bool := false
  remote : Option RemoteIndexes := none
  /-- Whether the parts are saved and restored. -/
  persists : Bool := false

namespace Wiring

def remoteIndexes (s : Settings) : RemoteIndexes :=
  let r := s.remote
  let index (name : String) (dimensions : Option Value) : Search.RemoteIndex :=
    { url := r.url, key := Value.ofText? r.key, name, batchSize := .int r.batchSize, dimensions }
  ⟨index r.symbols none, index r.vectors (some s.embedding.config.dimensions)⟩

def ofSettings (s : Settings) : Outcome Wiring := do
  pure { settings := s
         embedding := s.embedding.config
         embedsRemotely := ← s.embedding.isRemote
         remote := if s.remote.enabled then some (remoteIndexes s) else none
         persists := true }

/-- Everything in memory, and nothing that outlives it. -/
def inMemory (s : Settings) (dimensions : Value) : Wiring :=
  { settings := s, embedding := { dimensions } }

end Wiring

end SourceAtlas
