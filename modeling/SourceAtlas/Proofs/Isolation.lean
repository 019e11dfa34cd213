import SourceAtlas.Proofs.Filtering

/-!
# Searching among several workspaces

Points and texts are found in the workspace of the search only. A dependency
of such a text is looked up in the store by its id or reference whatever
workspace it belongs to, and only a filter would ask for its workspace. So a
search without filters finds a symbol of another workspace exactly through
such a dependency.
-/

namespace SourceAtlas

open Json (Value Key)

namespace Atlas

open Search (VectorIndex TextIndex Filters)

variable {a b : Atlas} {query workspace topK : Value} {filters : Filters} {weights : Option (Search.Signals Float)}
  {rs : List (Search.Fused Float)}

/-- A text that the search of the graph starts from depends on a target that is, by its id or by its reference, the
symbol with an id. -/
def Reaches (a : Atlas) (query workspace : Value) (filters : Filters) (id : Key) : Prop :=
  a.plan.relates = true ∧ ∃ hits, a.seeds query workspace .null filters = .ok hits ∧ ∃ hit ∈ hits, ∃ targets,
    a.targetsOf hit = .ok targets ∧ ∃ target ∈ targets, ∃ d i, a.store.symbols.get? target = some d ∧
      Document.idOf (.obj d) = .ok i ∧ (i == id) = true

def HoldsIn (a : Atlas) (part : Part) (workspace : Value) (id : Key) : Prop :=
  ∃ d, (a.held part).get? id = some d ∧ Document.ofWorkspace workspace d = true

theorem ofWorkspace_of_accepts {ws : String} {d : Document} (h : filters.accepts (.str ws) d = .ok true) :
    Document.ofWorkspace (.str ws) d = true :=
  ((filters.accepts_iff _ d).1 h).workspace.resolve_left Bool.false_ne_true

/-- What a dependency leads to is a symbol of the workspace, or is none, or is found by id or reference. -/
theorem reaches_of_leads {ws : String} {id : Key} {d : Document} (hfiled : Filed a.store.symbols.documents)
    (hd : a.store.symbols.documents.get? id = some d) (hforeign : Document.ofWorkspace (.str ws) d = false)
    {hit : Search.TextHit Float} {e : Key × Option Document} (hleads : a.Leads (.str ws) hit e)
    (hid : (e.1 == id) = true) :
    ∃ targets, a.targetsOf hit = .ok targets ∧ ∃ target ∈ targets, ∃ d i, a.store.symbols.get? target = some d ∧
      Document.idOf (.obj d) = .ok i ∧ (i == id) = true := by
  obtain ⟨targets, htargets, target, htarget, hmeans⟩ := hleads
  cases hmeans with
  | reference hget hi => exact ⟨targets, htargets, target, htarget, _, _, hget, hi, hid⟩
  | name hget hcalled hi =>
    -- The symbols with a name are those of the workspace, and the store has one document for an id.
    obtain ⟨hmem, hcalled⟩ := List.mem_filter.1 hcalled
    have hget' := get?_of_filed hfiled hmem hi
    rw [OrderedMap.get?_congr _ hid, hd] at hget'
    obtain rfl := Option.some.inj hget'
    rw [Bool.and_eq_true, hforeign] at hcalled
    cases hcalled.1
  | itself hget _ =>
    have hnone : a.store.symbols.documents.get? id = none := by
      rw [← OrderedMap.get?_congr _ hid]
      unfold Graph.Symbols.get? at hget
      split at hget
      · cases hget
      · assumption
    rw [hd] at hnone
    cases hnone

/-- A search without filters finds a symbol of another workspace through a dependency, or through a point or a text
of the workspace with its id. If the graph has weight and its search answers, then it does find what a dependency
reaches, unless there are as many results as were asked for. -/
theorem foreign_found {changes : List Graph.Store.Change} {uses : List VectorIndex.Change} {dimensions : Value}
    (hstore : a.store = Graph.Store.after {} changes) (hvectors : a.vectors = VectorIndex.after dimensions uses)
    (hfilters : filters.isEmpty = true) {ws : String} {id : Key} {d : Document}
    (hd : a.store.symbols.documents.get? id = some d) (hforeign : Document.ofWorkspace (.str ws) d = false)
    (h : (searchHybrid query (.str ws) topK filters weights).on a = (.ok rs, b)) :
    ((∃ r ∈ rs, (r.id == id) = true) → a.Reaches query (.str ws) filters id ∨ a.HoldsIn .vectors (.str ws) id ∨
      a.HoldsIn .texts (.str ws) id) ∧
    (a.Reaches query (.str ws) filters id →
      (∃ w, (weights.getD a.plan.weights).normalized.checked = .ok w ∧ ¬ w.graph ≤ 0) →
      (∃ related, (searchRelated query (.str ws) .null filters).on a = (.ok related, a)) →
      (∃ n, asInt (a.limitOf topK) = .ok n ∧ rs.length < n) → ∃ r ∈ rs, (r.id == id) = true) := by
  have hfiled : Filed a.store.symbols.documents := by
    rw [hstore]
    exact (Graph.Store.Tidy.after ⟨.empty, fun e he => absurd he List.not_mem_nil⟩ changes).1
  constructor
  · rintro ⟨r, hr, hid⟩
    rcases of_mem_searchHybrid h hr with ⟨k, p, i, hp, hpid, hi, hpasses⟩ | ⟨t, ht, hpasses⟩ |
      ⟨hrelates, hits, hhits, hit, hhit, e, hleads, -, he⟩
    · have hkeyed : a.vectors.Keyed := hvectors ▸ VectorIndex.keyed_after dimensions uses
      refine .inr (.inl ⟨p.payload, ?_, ofWorkspace_of_accepts hpasses⟩)
      rw [← OrderedMap.get?_congr _ (BEq.trans hi hid)]
      exact held_of_point hkeyed hp hpid
    · exact .inr (.inr ⟨t, OrderedMap.get?_congr _ hid ▸ ht, ofWorkspace_of_accepts hpasses⟩)
    · exact .inl ⟨hrelates, hits, hhits, hit, hhit, reaches_of_leads hfiled hd hforeign hleads (BEq.trans he hid)⟩
  · rintro ⟨hrelates, hits, hhits, hit, hhit, targets, htargets, target, htarget, d', i, hget, hi, hid⟩
      ⟨w, hw, hgraph⟩ ⟨related, hrelated⟩ ⟨n, hn, hshort⟩
    obtain ⟨w', all, n', hw', hn', rfl, hfuse⟩ := of_searchHybrid h
    obtain rfl := Except.ok.inj (hw.symm.trans hw')
    obtain rfl := Except.ok.inj (hn.symm.trans hn')
    have hkeeps : keeps filters (.str ws) (some d') = .ok true := by
      unfold keeps
      rw [hfilters]
      rfl
    have hin := (of_searchRelated hrelated id).2
      ⟨hrelates, hits, hhits, hit, hhit,
        .inr ⟨(i, some d'), ⟨targets, htargets, target, htarget, .reference hget hi⟩,
        hkeeps, hid⟩⟩
    rw [firstOf_of_short hshort]
    rw [hrelated, heard_ok hgraph] at hfuse
    exact (Search.id_of_fuse hfuse id).2 (.inr (.inr hin))

/-! A function of one workspace that calls a function of another one. -/

def functionOf (id workspace name : String) : Document :=
  [("id", .str id), ("workspace_id", .str workspace), ("symbol_ref", .str (workspace ++ "/" ++ name)),
   ("symbol_name", .str name)]

def crossing : List Graph.Store.Change :=
  [.documents [.obj (functionOf "1" "ws" "f"), .obj (functionOf "2" "other" "g")],
  .edges [Sample.arrow "ws/f" "other/g"]]

def neighbours : Atlas :=
  (startEngine.on { Atlas.open {} { directory := .ofString "data", clock := 0 } with
    store := Graph.Store.after {} crossing
    texts := TextIndex.after 1.2 0.75 [.add [.obj (functionOf "1" "ws" "f")]] }).2

def calling (score : Float) : Search.TextHit Float := ⟨.str "1", score, functionOf "1" "ws" "f"⟩

def fit : Float :=
  ((TextIndex.Scope.of [(.str "1", functionOf "1" "ws" "f")]).score 1.2 0.75 ["f"]
    (Search.termsOf (functionOf "1" "ws" "f"))).toOption.getD 0

theorem ranked_calling (score : Float) :
    Search.ranked (fun h => (h.score, h.id)) ([calling score].filter fun h => Search.isPositive h.score) =
      .ok (if Search.isPositive score then [calling score] else []) := by
  have hfilter : ([calling score].filter fun h => Search.isPositive h.score) =
      if Search.isPositive score then [calling score] else [] := List.filter_cons
  rw [hfilter, Search.ranked, sortChecked]
  cases Search.isPositive score <;> simp [pure_eq_ok]

theorem seeds_neighbours :
    neighbours.seeds "f" "ws" .null {} = .ok (if Search.isPositive fit then [calling fit] else []) := by
  have hscored : TextIndex.hitAmong 1.2 0.75 ["f"] (.of [(.str "1", functionOf "1" "ws" "f")])
      (.str "1", functionOf "1" "ws" "f") = .ok (calling fit) := by
    have hfit : (TextIndex.Scope.of [(.str "1", functionOf "1" "ws" "f")]).score 1.2 0.75 ["f"]
        (Search.termsOf (functionOf "1" "ws" "f")) = .ok fit := eq_ok 0 (by decide +kernel)
    rw [TextIndex.hitAmong, hfit]
    rfl
  have htokens : (Search.tokenize "f").eraseDups = ["f"] := by decide +kernel
  have hpassing : neighbours.texts.passing {} "ws" = [(.str "1", functionOf "1" "ws" "f")] := rfl
  have hcounted : neighbours.texts.Counted := TextIndex.counted_after 1.2 0.75 _
  have hsearch : neighbours.texts.search "f" "ws" {} (.int 5) =
      .ok (if Search.isPositive fit then [calling fit] else []) := by
    rw [TextIndex.search_eq hcounted (Filters.decides_of_lists rfl rfl _ _), hpassing,
      TextIndex.searchAmong, htokens]
    refine bind_eq_ok.2 ⟨true, rfl, bind_eq_ok.2 ⟨[calling fit], ?_, bind_eq_ok.2 ⟨_, ranked_calling fit, ?_⟩⟩⟩
    · rw [List.mapM_cons]
      exact bind_eq_ok.2 ⟨_, hscored, rfl⟩
    · cases Search.isPositive fit <;> rfl
  exact bind_eq_ok.2 ⟨(), rfl, bind_eq_ok.2 ⟨"f", rfl, hsearch⟩⟩

theorem targets_calling (score : Float) : neighbours.targetsOf (calling score) = .ok [.str "other/g"] := by
  with_unfolding_all rfl

theorem around_calling (score : Float) :
    (around "ws" {} (calling score)).on neighbours = (.ok [⟨.str "1", 0.0⟩, ⟨.str "2", 1.0⟩], neighbours) := by
  have hknown : neighbours.store.symbols.get? (.str "other/g") = some (functionOf "2" "other" "g") := rfl
  have hresolve : (resolve (.str "other/g") "ws").on neighbours =
      (.ok [(.str "2", some (functionOf "2" "other" "g"))], neighbours) := by
    rw [on_resolve, hknown]
    rfl
  have hmap : ([.str "other/g"].mapM fun target => resolve target "ws").on neighbours =
      (.ok [[(.str "2", some (functionOf "2" "other" "g"))]], neighbours) := by
    rw [List.mapM_cons, Act.on_bind, hresolve]
    rfl
  rw [around, Act.on_bind, on_dependenciesOf, targets_calling]
  dsimp only
  rw [Act.on_bind, hmap]
  rfl

theorem related_neighbours : (searchRelated "f" "ws" .null {}).on neighbours =
    (.ok (if Search.isPositive fit then [⟨.str "1", 0.0⟩, ⟨.str "2", 1.0⟩] else []), neighbours) := by
  have hanswer : ∀ {hits groups}, neighbours.seeds "f" "ws" .null {} = .ok hits →
      (hits.mapM (around "ws" {})).on neighbours = (.ok groups, neighbours) →
      (searchRelated "f" "ws" .null {}).on neighbours = (.ok groups.flatten, neighbours) := by
    intro hits groups hseeds hgroups
    rw [on_searchRelated, hseeds]
    refine Prod.ext (bind_eq_ok.2 ⟨(), rfl, bind_eq_ok.2 ⟨hits, rfl, bind_eq_ok.2 ⟨groups, ?_, rfl⟩⟩⟩) rfl
    rw [hgroups]
  have hseeds := seeds_neighbours
  have haround : ([calling fit].mapM (around "ws" {})).on neighbours =
      (.ok [[⟨.str "1", 0.0⟩, ⟨.str "2", 1.0⟩]], neighbours) := by
    rw [List.mapM_cons, Act.on_bind, around_calling]
    rfl
  cases hp : Search.isPositive fit with
  | false =>
    rw [hp] at hseeds
    exact hanswer hseeds rfl
  | true =>
    rw [hp] at hseeds
    exact hanswer hseeds haround

def graphAlone : Search.Signals Float := ⟨0.0, 0.0, 1.0⟩

theorem checked_graphAlone : graphAlone.normalized.checked = .ok graphAlone := by
  have hnormalized : graphAlone.normalized = graphAlone := by
    have hzero : (0.0 : Float) / (0.0 + 0.0 + 1.0) = 0.0 := by decide +kernel
    have hone : (1.0 : Float) / (0.0 + 0.0 + 1.0) = 1.0 := by decide +kernel
    rw [Search.Signals.normalized, if_neg (by decide +kernel), Search.Signals.total]
    show (⟨0.0 / (0.0 + 0.0 + 1.0), 0.0 / (0.0 + 0.0 + 1.0), 1.0 / (0.0 + 0.0 + 1.0)⟩ : Search.Signals Float) = _
    rw [hzero, hone]
    rfl
  rw [hnormalized, Search.Signals.checked, if_neg (by decide +kernel)]
  rfl

theorem fused_neighbours :
    ∃ rs, Search.fuse [] [] [⟨.str "1", 0.0⟩, ⟨.str "2", 1.0⟩] graphAlone = .ok rs ∧ rs.length = 2 := by
  have hmerged := eq_ok .empty (x := Search.merged (α := Float) [] [] [⟨.str "1", 0.0⟩, ⟨.str "2", 1.0⟩])
    (by decide +kernel)
  rw [Search.fuse_eq, hmerged]
  exact ⟨_, Search.ranked_of_sorted (by decide +kernel) (by decide +kernel), by decide +kernel⟩

theorem answer_neighbours :
    ∃ rs, ((searchHybrid "f" "ws" .null {} (some graphAlone)).on neighbours).1 = .ok rs ∧ rs.length < 10 := by
  have hsilent : ∀ o : Outcome (List (Search.Hit Float)), heard graphAlone.vector o = [] :=
    fun o => if_pos (by decide +kernel)
  have hsilent' : ∀ o : Outcome (List (Search.Hit Float)), heard graphAlone.fulltext o = [] :=
    fun o => if_pos (by decide +kernel)
  have hheard : ∀ rs : List (Search.Related Float), heard graphAlone.graph (.ok rs) = rs :=
    fun rs => if_neg (by decide +kernel)
  have hfuse : ∃ all, Search.fuse [] [] (if Search.isPositive fit then [⟨.str "1", 0.0⟩, ⟨.str "2", 1.0⟩] else [])
      graphAlone = .ok all ∧ all.length < 10 := by
    cases Search.isPositive fit with
    | false => exact ⟨[], Search.ranked_of_sorted .nil rfl, by decide⟩
    | true =>
      obtain ⟨rs, hrs, hlength⟩ := fused_neighbours
      exact ⟨rs, hrs, by omega⟩
  obtain ⟨all, hall, hlength⟩ := hfuse
  refine ⟨firstOf 10 all, ?_, ?_⟩
  · rw [on_searchHybrid]
    refine bind_eq_ok.2 ⟨graphAlone, checked_graphAlone, bind_eq_ok.2 ⟨all, ?_, bind_eq_ok.2 ⟨10, rfl, rfl⟩⟩⟩
    rw [hsilent, hsilent', related_neighbours, hheard, hall]
  · exact (List.length_take_le' _ _).trans_lt hlength

/-- The search of one workspace finds the function of the other one just if the calling function scores. -/
theorem found_across_workspaces :
    ∃ rs b, (searchHybrid "f" "ws" .null {} (some graphAlone)).on neighbours = (.ok rs, b) ∧
      ((∃ r ∈ rs, (r.id == .str "2") = true) ↔ Search.isPositive fit = true) := by
  obtain ⟨rs, hon, hlength⟩ := answer_neighbours
  have hstore : neighbours.store = Graph.Store.after {} crossing := rfl
  have hvectors : neighbours.vectors = VectorIndex.after .null [] := rfl
  have hd : neighbours.store.symbols.documents.get? (.str "2") = some (functionOf "2" "other" "g") := rfl
  obtain ⟨hsound, hcomplete⟩ := foreign_found hstore hvectors rfl hd rfl (eq_of_fst hon)
  refine ⟨rs, _, eq_of_fst hon, fun hfound => ?_, fun hp => ?_⟩
  · rcases hsound hfound with ⟨-, hits, hhits, hit, hhit, -⟩ | ⟨d, hd, -⟩ | ⟨d, hd, -⟩
    · rw [seeds_neighbours] at hhits
      cases hp : Search.isPositive fit with
      | true => rfl
      | false =>
        rw [hp] at hhits
        obtain rfl := Except.ok.inj hhits
        cases hhit
    · cases hd
    · cases hd
  · have hreaches : neighbours.Reaches "f" "ws" {} (.str "2") := by
      refine ⟨rfl, [calling fit], ?_, calling fit, List.mem_singleton.2 rfl, [.str "other/g"], ?_, .str "other/g",
        List.mem_singleton.2 rfl, functionOf "2" "other" "g", .str "2", rfl, rfl, rfl⟩
      · rw [seeds_neighbours, if_pos hp]
      · exact targets_calling fit
    exact hcomplete hreaches ⟨graphAlone, checked_graphAlone, by decide +kernel⟩ ⟨_, related_neighbours⟩
      ⟨10, rfl, by omega⟩

end Atlas

end SourceAtlas
