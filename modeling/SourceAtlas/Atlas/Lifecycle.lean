import SourceAtlas.Atlas.Relations

/-!
# Starting and closing

An atlas that persists is restored from its snapshots and saved to them. The
ledger is trusted only if the vectors and the texts were restored with it.
-/

namespace SourceAtlas.Atlas

open Json (Value Record)

def storeName : String := "code_graph"
def vectorsName : String := "vectors"
def textsName : String := "full_text"

/-- Hands a snapshot to `restore` and says whether there was one. -/
def loadSnapshot (name : String) (restore : Value → Act Atlas Unit) : Act Atlas Bool := do
  let a ← get
  if !a.plan.persists then return false
  match ← Act.ofOutcome (Snapshot.load a.disk.files (a.disk.snapshotPath name)) with
  | none => pure false
  | some data =>
    restore (.obj data)
    pure true

/-- Saves a snapshot, unless nothing is kept. -/
def saveSnapshot (name : String) (data : Outcome Record) : Act Atlas Unit := do
  let a ← get
  if a.plan.persists then
    let files ← Act.ofOutcome do
      Snapshot.save a.disk.files (a.disk.snapshotPath name) (.obj (← data))
    set { a with disk := { a.disk with files } }

def loadStore : Act Atlas Bool := do
  serving .loadStore
  loadSnapshot storeName fun data => inStore (Graph.Store.load data)

def loadVectors : Act Atlas Bool := do
  serving .loadVectors
  loadSnapshot vectorsName fun data => inVectors (Search.VectorIndex.load data)

def loadTexts : Act Atlas Bool :=
  loadSnapshot textsName fun data => inTexts (Search.TextIndex.load data)

def saveStore : Act Atlas Unit := do
  serving .saveStore
  saveSnapshot storeName (← get).store.toRecord

def closeStore : Act Atlas Unit := do
  serving .closeStore
  saveStore

def closeVectors : Act Atlas Unit := do
  serving .closeVectors
  serving .saveVectors
  saveSnapshot vectorsName (pure (← get).vectors.toRecord)

def saveTexts : Act Atlas Unit := do saveSnapshot textsName (pure (← get).texts.toRecord)

/-- Forgets which files are indexed, and says how many were. -/
def resetLedger : Act Atlas Nat := do
  let (store, n) := (← get).store.resetLedger
  modify fun a => { a with store }
  pure n

/-- Restores the parts and reads the edges into the engine. -/
def start : Act Atlas Unit := do
  let restored ← loadStore
  let vectors ← loadVectors
  let texts ← loadTexts
  if restored && !(vectors && texts) then discard resetLedger
  serving .prepareVectors
  startEngine

def close : Act Atlas Unit := do
  saveTexts
  closeVectors
  closeStore

end SourceAtlas.Atlas
