import SourceAtlas.Proofs.Counterparts
import SourceAtlas.Proofs.Forgetting
import SourceAtlas.Proofs.RoundTrips

/-!
# What removing a repository leaves alone

Other documents, rows and edges stay as they are and where they are. What can
be asked of the edges that stay does not show that there were others: edges
between references that are removed, loops, and edges from other repositories
into those references.
-/

namespace SourceAtlas.Graph

open Json (Key Value)

/-! ## Edges that are left -/

namespace Edges

theorem keys_foldl_dropIsolated (refs : List Key) (x : Edges) : (refs.foldl dropIsolated x).keys = x.keys := by
  induction refs generalizing x with
  | nil => rfl
  | cons r refs ih => rw [List.foldl_cons, ih, keys_dropIsolated]

theorem keys_removeFrom_sublist (x : Edges) (refs : List Key) : (x.removeFrom refs).keys.Sublist x.keys := by
  unfold removeFrom
  rw [keys_foldl_dropIsolated]
  exact List.filter_sublist

/-- Whether what is asked of some edges has the same answers, as sets, as for others. -/
structure Indistinguishable (x z : Edges) : Prop where
  ofType : ∀ (type : EdgeType) (p : Key × Key), (x.ofType type).contains p = (z.ofType type).contains p
  query : ∀ (start : Key) (depth : Int) (type : Option EdgeType) (direction : Direction),
    Agree Traversal.Alike (x.query start (.int depth) type direction) (z.query start (.int depth) type direction)

theorem Sound.indistinguishable {x z : Edges} (hx : x.Sound) (hz : z.Sound)
    (hkeys : ∀ k, x.keys.contains k = z.keys.contains k) : x.Indistinguishable z where
  ofType type p := by rw [hx.contains_ofType, hz.contains_ofType, hkeys]
  query start depth type direction := hx.query_agree hz hkeys start depth type direction

end Edges

namespace Store

variable {x y : Store} {repo : Key} {n : Nat}

theorem edges_foldl_putKey (ks : List EdgeKey) (x : Store) :
    (ks.foldl putKey x).edges = ks.foldl Edges.put x.edges := by
  induction ks generalizing x with
  | nil => rfl
  | cons k ks ih => rw [List.foldl_cons, ih, List.foldl_cons, putKey]

/-- Edges are as good as those that are put into an empty store. -/
theorem Linked.indistinguishable (hx : x.Linked) {ks : List EdgeKey}
    (hks : ∀ k, ks.contains k = x.edges.keys.contains k) :
    x.edges.Indistinguishable (ks.foldl putKey {}).edges := by
  rw [edges_foldl_putKey]
  apply Edges.Sound.indistinguishable hx (Edges.Sound.empty.foldl_put ks)
  intro k
  have hnone : ({} : Edges).keys.contains k = false := rfl
  rw [Edges.contains_foldl_put, hks, hnone, Bool.or_false]

theorem of_deleteRepo (h : (deleteRepo repo.toValue).on x = (.ok n, y)) : ∃ refs,
    ((Symbols.drop (Document.ofRepo repo.toValue)).on x.symbols).1 = .ok refs ∧
    y.edges = x.edges.removeFrom refs := by
  simp only [deleteRepo, inSymbols, Act.on_bind, Act.on_within, Act.on_modify,
    Act.on_liftOutcome, asKey_toValue] at h
  generalize (Symbols.drop (Document.ofRepo repo.toValue)).on x.symbols = r at h
  obtain ⟨o, z⟩ := r
  cases o with
  | error f => cases h
  | ok refs =>
    obtain ⟨-, rfl⟩ := Prod.mk.inj h
    exact ⟨refs, rfl, rfl⟩

/-! ## Removing a repository -/

def Owns (x : Store) (repo r : Key) : Prop :=
  ∃ i d, x.symbols.documents.get? i = some d ∧ Document.ofRepo repo.toValue d = true ∧ d.HasRef r

structure Without (repo : Key) (x y : Store) : Prop where
  documents : y.symbols.documents.entries = x.symbols.documents.entries.filter fun e =>
  !Document.ofRepo repo.toValue e.2
  rows : y.ledger.entries = x.ledger.entries.filter fun e => !(e.2.repo == repo)
  edges : y.edges.keys.Sublist x.edges.keys
  edge_iff : ∀ k ∈ x.edges.keys, k ∈ y.edges.keys ↔ ¬ x.Owns repo k.1

theorem without_of_deleteRepo (hx : x.Linked) (hrows : x.ledger.Keyed)
    (h : (deleteRepo repo.toValue).on x = (.ok n, y)) :
    x.Without repo y := by
  obtain ⟨hdocuments, hledger⟩ := deleteRepo_ok h
  have hsub : y.edges.keys.Sublist x.edges.keys := by
    obtain ⟨refs, -, hedges⟩ := of_deleteRepo h
    rw [hedges]
    exact x.edges.keys_removeFrom_sublist refs
  refine ⟨by rw [hdocuments]; rfl, ?_, hsub, fun k hk => ?_⟩
  · rw [hledger]
    apply List.filter_congr
    intro e he
    have hkey := hrows e he
    rw [beq_pair] at hkey
    show (!e.1.1.toValue.same repo.toValue) = !(e.2.file.1 == repo)
    rw [Key.same_toValue, BEq.congr_left hkey.1]
  · have hedges := edges_of_deleteRepo hx h k
    constructor
    · intro hy
      exact (hedges.1 (contains_of_mem hy)).2
    · intro howns
      obtain ⟨j, hj, hkj⟩ := List.contains_iff_exists_mem_beq.1 (hedges.2 ⟨contains_of_mem hk, howns⟩)
      rwa [hx.distinct.eq_of_beq hk (hsub.subset hj) hkj]

/-- A repository goes with its documents, its rows and the edges out of the references of its documents. All else
stays, in its order, and what is asked of the edges is answered as if they had just been put into an empty store.
Removing fails only at a reference that is no key, and storing a document with one fails as well. -/
theorem deleteRepo_frame (cs : List Change) (repo : Key) :
    let x := after {} cs
    ((∃ n y, (deleteRepo repo.toValue).on x = (.ok n, y)) ↔
      ∀ i d, x.symbols.documents.get? i = some d → Document.ofRepo repo.toValue d = true → d.Referable) ∧
    (Serves {} cs → ∃ n y, (deleteRepo repo.toValue).on x = (.ok n, y)) ∧
    ∀ n y, (deleteRepo repo.toValue).on x = (.ok n, y) → x.Without repo y ∧
      ∀ ks : List EdgeKey, (∀ k, ks.contains k = y.edges.keys.contains k) →
        y.edges.Indistinguishable (ks.foldl putKey {}).edges := by
  intro x
  have hlinked : x.Linked := .after .empty cs
  have htidy : x.Tidy := Tidy.after ⟨.empty, fun e he => absurd he List.not_mem_nil⟩ cs
  refine ⟨⟨?_, deleteRepo_returns⟩, fun hcs => deleteRepo_returns ?_, fun n y h => ⟨?_, fun ks hks => ?_⟩⟩
  · rintro ⟨n, y, h⟩
    obtain ⟨refs, hrefs, -⟩ := of_deleteRepo h
    exact (Symbols.drop_ok_iff _ _).1 ⟨refs, hrefs⟩
  · have hstorable : x.AllStorable := .after (fun e he => absurd he List.not_mem_nil) hcs
    intro i d hd _
    obtain ⟨j, hj, -⟩ := OrderedMap.mem_of_get? hd
    exact (hstorable _ hj).1
  · exact without_of_deleteRepo hlinked htidy.2 h
  · have hy : y.Linked := by
      have hkept := keeps_deleteRepo repo.toValue x hlinked
      rwa [h] at hkept
    exact hy.indistinguishable hks

end Store

end SourceAtlas.Graph

namespace SourceAtlas

open Json (Value)
open SourceAtlas.Graph.Store (Change)

namespace Sample

def symbolElsewhere : Value :=
  .obj [("id", "3"), ("symbol_ref", "main"), ("symbol_name", "main"), ("repo_id", "s"), ("file_path", "b.py"),
  ("workspace_id", "w")]

def neighbours : List Change :=
  [.documents [symbolOf "1" "visit", symbolOf "2" "leaf", symbolElsewhere],
    .edges [arrow "visit" "visit", arrow "visit" "leaf", arrow "main" "visit", arrow "visit" "main"],
    .row (rowOf "a.py")]

def callFromElsewhere : EdgeKey := (.str "main", .str "visit", .calls)

end Sample

namespace Graph.Store

theorem deleteRepo_frame_of_neighbours :
    let x := after {} Sample.neighbours
    ∃ n y, (deleteRepo (.str "r")).on x = (.ok n, y) ∧ x.Without (.str "r") y ∧
      y.edges.keys = [Sample.callFromElsewhere] ∧
      y.edges.Indistinguishable (({} : Store).putKey Sample.callFromElsewhere).edges := by
  intro x
  obtain ⟨-, hserves, hframe⟩ := deleteRepo_frame Sample.neighbours (.str "r")
  obtain ⟨n, y, h⟩ := hserves ⟨rfl, rfl, rfl, trivial⟩
  obtain ⟨hwithout, hfresh⟩ := hframe n y h
  have hkeys : y.edges.keys = [Sample.callFromElsewhere] := by
    have hy : ((deleteRepo (.str "r")).on x).2.edges.keys = y.edges.keys := congrArg (·.2.edges.keys) h
    rw [← hy]
    rfl
  refine ⟨n, y, h, hwithout, hkeys, hfresh [Sample.callFromElsewhere] fun k => ?_⟩
  rw [hkeys]

end Graph.Store

end SourceAtlas
