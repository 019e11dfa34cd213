import SourceAtlas.Proofs.Signals

/-!
# Searching under a filter

Points and texts are filtered where they are found, and what the dependencies
of texts stand for is filtered after it was found in the store. So whatever a
search under a filter finds is stored in some part, and passes there.
-/

namespace SourceAtlas

open Json (Value Key Record)

namespace Search

/-! ## What a filter admits -/

namespace Filters

structure Admits (f : Filters) (workspace : Value) (d : Document) : Prop where
  workspace : workspace.same .null = true ∨ Document.ofWorkspace workspace d = true
  repo : f.repos.truthy = true → oneOf f.repos (Record.get d "repo_id") = .ok true
  language : f.language.truthy = true → Document.has "language" f.language d = true
  kind : f.kinds.truthy = true → oneOf f.kinds (Record.get d "symbol_kind") = .ok true

theorem accepts_iff (f : Filters) (workspace : Value) (d : Document) :
    f.accepts workspace d = .ok true ↔ f.Admits workspace d := by
  have hadmits : f.Admits workspace d ↔ (workspace.same .null || Document.ofWorkspace workspace d) = true ∧
      (f.repos.truthy = true → oneOf f.repos (Record.get d "repo_id") = .ok true) ∧
      (f.language.truthy = true → Document.has "language" f.language d = true) ∧
      (f.kinds.truthy = true → oneOf f.kinds (Record.get d "symbol_kind") = .ok true) := by
    rw [Bool.or_eq_true]
    exact ⟨fun h => ⟨h.workspace, h.repo, h.language, h.kind⟩, fun ⟨hworkspace, hrepo, hlanguage, hkind⟩ =>
      ⟨hworkspace, hrepo, hlanguage, hkind⟩⟩
  rw [hadmits, accepts]
  -- Each part of the filter is a gate: the parts after it are looked at only if it is passed.
  cases workspace.same .null || Document.ofWorkspace workspace d with
  | false => simp [pure_eq_ok]
  | true =>
    cases f.repos.truthy <;> cases f.language.truthy <;> cases Document.has "language" f.language d <;>
      cases f.kinds.truthy <;> rcases oneOf f.repos (Record.get d "repo_id") with e | (_ | _) <;>
        simp [pure_eq_ok, bind_eq_ok]

end Filters

/-! ## Points under their ids -/

namespace VectorIndex

inductive Change where
  | put (points : List VectorPoint)
  | delete (p : Document → Bool)
  | load (data : Value)
  | search (vector workspace : Value) (filters : Filters) (limit : Value)

def Change.act : Change → Act VectorIndex Unit
  | put points => VectorIndex.put points
  | delete p => discard (VectorIndex.delete p)
  | load data => VectorIndex.load data
  | search vector workspace filters limit => discard (VectorIndex.search vector workspace filters limit)

/-- The index that changes one after the other lead to, whatever their outcomes. -/
def after (dimensions : Value) (cs : List Change) : VectorIndex :=
  cs.foldl (fun x c => (c.act.on x).2) { dimensions }

theorem Change.keyed (c : Change) : Act.Keeps Keyed c.act := by
  cases c with
  | put points => exact fun x hx => (put_spec points x hx).1
  | delete p => exact .discard fun x hx => (delete_spec rfl hx).1
  | load data => exact keeps_load data
  | search vector workspace filters limit =>
    refine .discard fun x hx => ?_
    obtain ⟨⟨table, htable⟩, -⟩ := of_search (x := x) (eq_of_fst rfl)
    rw [htable]
    exact hx

theorem keyed_after (dimensions : Value) (cs : List Change) : (after dimensions cs).Keyed := by
  have hrun : ∀ (cs : List Change) (x : VectorIndex), x.Keyed → (cs.foldl (fun x c => (c.act.on x).2) x).Keyed := by
    intro cs
    induction cs with
    | nil => exact fun x hx => hx
    | cons c cs ih => exact fun x hx => ih _ (c.keyed x hx)
  exact hrun cs _ fun e he => absurd he List.not_mem_nil

end VectorIndex

end Search

/-! ## What is found under a filter -/

namespace Atlas

open Search (Filters VectorIndex)

variable {a b : Atlas} {query workspace topK : Value} {filters : Filters} {weights : Option (Search.Signals Float)}
  {rs : List (Search.Fused Float)}

theorem held_of_point (h : a.vectors.Keyed) {k : Key} {p : Search.VectorPoint}
    (hp : a.vectors.points.get? k = some p)
    {id : Key} (hid : asKey p.id = .ok id) : (a.held .vectors).get? id = some p.payload := by
  obtain ⟨j, hmem, hk⟩ := OrderedMap.mem_of_get? hp
  obtain ⟨id', hid', hj⟩ := h _ hmem
  obtain rfl := Except.ok.inj (hid.symm.trans hid')
  rw [held, OrderedMap.get?_mapValues, ← OrderedMap.get?_congr _ hj, OrderedMap.get?_of_mem hmem]
  rfl

theorem get?_of_filed {m : OrderedMap Key Document} (h : Filed m) {d : Document} (hd : d ∈ m.values) {id : Key}
    (hid : Document.idOf (.obj d) = .ok id) : m.get? id = some d := by
  obtain ⟨e, he, rfl⟩ := List.mem_map.1 hd
  have hkey : (e.1 == id) = true := Document.id_eq hid ▸ h.1 e he
  rw [← OrderedMap.get?_congr _ hkey]
  exact OrderedMap.get?_of_mem he

/-- A symbol that a target stands for is stored under its own id. -/
theorem get?_of_means (h : Filed a.store.symbols.documents) {target id : Key} {d : Document}
    (hmeans : a.store.symbols.Means target workspace (id, some d)) :
    a.store.symbols.documents.get? id = some d := by
  have hstored : ∀ {k}, a.store.symbols.documents.get? k = some d → d ∈ a.store.symbols.documents.values := by
    intro k hk
    obtain ⟨j, hmem, -⟩ := OrderedMap.mem_of_get? hk
    exact List.mem_map.2 ⟨_, hmem, rfl⟩
  cases hmeans with
  | reference hget hid =>
    unfold Graph.Symbols.get? at hget
    split at hget
    · rename_i hd
      exact get?_of_filed h (hstored (hd.trans hget)) hid
    · obtain ⟨k, -, hk⟩ := Option.bind_eq_some_iff.1 hget
      exact get?_of_filed h (hstored hk) hid
  | name _ hd hid => exact get?_of_filed h (List.mem_filter.1 hd).1 hid

/-- Whatever a search under a filter finds is stored in some part, and the filter admits what is stored there. -/
theorem found_is_admitted {changes : List Graph.Store.Change} {uses : List VectorIndex.Change} {dimensions : Value}
    (hstore : a.store = Graph.Store.after {} changes) (hvectors : a.vectors = VectorIndex.after dimensions uses)
    (hfilters : filters.isEmpty = false)
    (h : (searchHybrid query workspace topK filters weights).on a = (.ok rs, b))
    {r : Search.Fused Float} (hr : r ∈ rs) :
    ∃ part d, (a.held part).get? r.id = some d ∧ filters.accepts workspace d = .ok true ∧
    filters.Admits workspace d := by
  have hstored : ∃ part d, (a.held part).get? r.id = some d ∧ filters.accepts workspace d = .ok true := by
    rcases of_mem_searchHybrid h hr with ⟨k, p, id, hp, hpid, hid, hpasses⟩ | ⟨d, hd, hpasses⟩ |
      ⟨-, -, -, hit, -, e, hleads, hkeeps, hid⟩
    · have hkeyed : a.vectors.Keyed := hvectors ▸ VectorIndex.keyed_after dimensions uses
      exact ⟨.vectors, p.payload, OrderedMap.get?_congr _ hid ▸ held_of_point hkeyed hp hpid, hpasses⟩
    · exact ⟨.texts, d, hd, hpasses⟩
    · obtain ⟨id, found⟩ := e
      unfold keeps at hkeeps
      rw [hfilters] at hkeeps
      cases found with
      | none => cases hkeeps
      | some d =>
        obtain ⟨targets, -, target, -, hmeans⟩ := hleads
        have hfiled : Filed a.store.symbols.documents := by
          rw [hstore]
          exact (Graph.Store.Tidy.after ⟨.empty, fun e he => absurd he List.not_mem_nil⟩ changes).1
        exact ⟨.symbols, d, OrderedMap.get?_congr _ hid ▸ get?_of_means hfiled hmeans, hkeeps⟩
  obtain ⟨part, d, hd, hpasses⟩ := hstored
  exact ⟨part, d, hd, hpasses, (filters.accepts_iff workspace d).1 hpasses⟩

/-! Two declarations in different languages, of which the texts hold one and the vectors the other. -/

def declared (id language : String) : Document :=
  [("id", .str id), ("workspace_id", "ws"), ("language", .str language), ("code", "f")]

def bilingual : Atlas :=
  { Atlas.open { embedder := fun text => .ok ⟨text, .list [.float 1.0], "constant", 1, .int 1⟩ }
      { directory := .ofString "data", clock := 0 } with
    store := Graph.Store.after {} [.documents [.obj (declared "1" "java"), .obj (declared "2" "python")]]
    vectors := VectorIndex.after .null [.put [⟨"2", [.float 1.0], declared "2" "python"⟩]]
    texts := Search.TextIndex.after 1.2 0.75 [.add [.obj (declared "1" "java")]] }

theorem found_in_python :
    ∃ rs b, (searchHybrid "f" "ws" .null { language := "python" } none).on bilingual = (.ok rs, b) ∧
      rs.map (·.id.toValue.same "2") = [true] ∧ ∀ r ∈ rs, ∃ part d, (bilingual.held part).get? r.id = some d ∧
        Filters.accepts { language := "python" } "ws" d = .ok true ∧
        Filters.Admits { language := "python" } "ws" d := by
  have h := Act.on_eq_ok [] (x := searchHybrid "f" "ws" .null { language := "python" } none) (s := bilingual)
    (by decide +kernel)
  exact ⟨_, _, h, by decide +kernel, fun r hr => found_is_admitted rfl rfl rfl h hr⟩

end Atlas

end SourceAtlas
