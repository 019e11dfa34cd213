import SourceAtlas.Graph.Store
import SourceAtlas.Proofs.Acts
import SourceAtlas.Proofs.Edges

/-!
# States of the graph store

The states that a store gets into from the empty one by any changes, those
that fail halfway among them. In all of them nodes, index, arcs and keys agree.
-/

namespace SourceAtlas.Graph.Store

open Json (Value Key)
open Act (Keeps)

/-! ## Changes -/

/-- What changes a store. One document or one edge is a list of one. -/
inductive Change where
  | documents (all : List Value)
  | edges (all : List Edge)
  | row (r : LedgerRow)
  | noRows
  | withoutFile (repo path : Value)
  | withoutRepo (repo : Value)
  | withoutWorkspace (workspace : Value)
  | clear
  | load (data : Value)

def Change.act : Change → Act Store Unit
  | documents all => putAll all
  | edges all => all.forM putEdge
  | row r => modify (·.putRow r)
  | noRows => modify fun x => x.resetLedger.1
  | withoutFile repo path => discard (deleteFile repo path)
  | withoutRepo repo => discard (deleteRepo repo)
  | withoutWorkspace workspace => discard (deleteWorkspace workspace)
  | clear => set ({} : Store)
  | load data => Store.load data

/-- The store that changes one after the other lead to, whatever their outcomes. -/
def after (x : Store) (cs : List Change) : Store := cs.foldl (fun x c => (c.act.on x).2) x

/-! ## What every change keeps -/

abbrev Linked (x : Store) : Prop := x.edges.Sound

theorem keeps_inSymbols {α : Type} (x : Act Symbols α) : Keeps Linked (inSymbols x) := .within x fun _ _ h => h

theorem keeps_put (document : Value) : Keeps Linked (put document) := by
  refine .bind (.lift _) fun id => .bind (.lift _) fun d => .bind (keeps_inSymbols _) fun _ => ?_
  split
  · exact .bind (.lift _) fun _ => .modify fun _ h => h
  · exact .pure _

theorem keeps_putKey (k : EdgeKey) : Keeps Linked (modify (·.putKey k)) := .modify fun _ h => h.put k

theorem keeps_putRow (r : LedgerRow) : Keeps Linked (modify (·.putRow r)) := .modify fun _ h => h

theorem keeps_putEdge (e : Edge) : Keeps Linked (putEdge e) := .bind (.lift _) keeps_putKey

theorem keeps_deleteRepo (repo : Value) : Keeps Linked (deleteRepo repo) :=
  .bind (keeps_inSymbols _) fun refs => .bind (.modify fun _ h => h.removeFrom refs) fun _ =>
    .bind (.lift _) fun _ => .bind (.modify fun _ h => h) fun _ => .pure _

theorem keeps_deleteWorkspace (workspace : Value) : Keeps Linked (deleteWorkspace workspace) :=
  .bind (keeps_inSymbols _) fun refs => .bind (.modify fun _ h => h.removeFrom refs) fun _ => .pure _

theorem keeps_load (data : Value) : Keeps Linked (Store.load data) := by
  refine .bind (.modify fun _ _ => Edges.Sound.empty) fun _ => .bind (.lift _) fun ds => ?_
  refine .bind (.forM keeps_put ds) fun _ => .bind (.ofOutcome _) fun es => ?_
  refine .bind (.forM (fun v => .bind (.ofOutcome _) keeps_putKey) es) fun _ => .bind (.ofOutcome _) fun rows => ?_
  exact .forM (fun v => .bind (.ofOutcome _) keeps_putRow) rows

theorem Change.keeps (c : Change) : Keeps Linked c.act := by
  cases c with
  | documents all => exact .forM keeps_put all
  | edges all => exact .forM keeps_putEdge all
  | row r => exact keeps_putRow r
  | noRows => exact .modify fun _ h => h
  | withoutFile repo path => exact .discard (.bind (keeps_inSymbols _) fun _ => .pure _)
  | withoutRepo repo => exact .discard (keeps_deleteRepo repo)
  | withoutWorkspace workspace => exact .discard (keeps_deleteWorkspace workspace)
  | clear => exact .modify fun _ _ => Edges.Sound.empty
  | load data => exact keeps_load data

theorem Linked.after {x : Store} (h : x.Linked) (cs : List Change) : (x.after cs).Linked := by
  induction cs generalizing x with
  | nil => exact h
  | cons c cs ih => exact ih (c.keeps x h)

/-- However documents, edges and rows come and go, the edges that are left are told alike by the
index, the nodes, the arcs and the keys. -/
theorem coherent_after (cs : List Change) : (after {} cs).edges.Coherent :=
  (Linked.after Edges.Sound.empty cs).coherent

private def edge (source target : String) (h : Value.truthy source := by decide)
    (h' : Value.truthy target := by decide) :
    Edge := ⟨source, target, .imports, 1.0, h, h'⟩

-- the number of a removed node goes to the next one
example :
    let symbol := Value.obj [("id", "1"), ("symbol_ref", "a"), ("repo_id", "r"), ("workspace_id", "w")]
    let x := after {} [.documents [symbol], .edges [edge "a" "b"], .withoutRepo "r", .edges [edge "c" "b"]]
    x.edges.graph.arcs = [⟨0, 1, .imports⟩] ∧ x.edges.index.entries = [(.str "b", 1), (.str "c", 0)] := by
  exact ⟨rfl, rfl⟩

-- what was read before a fault stays
example :
    let read := Value.obj [("edges", .list [.obj [("from", "a"), ("to", "a"), ("type", "CALLS")], .null])]
    (after {} [.edges [edge "a" "b"], .load read]).edges.keys = [(.str "a", .str "a", .calls)] := rfl

end SourceAtlas.Graph.Store
