import SourceAtlas.Proofs.Adjacency
import SourceAtlas.Proofs.Histories
import SourceAtlas.Proofs.StoreStates

/-!
# What forgetting a repository leaves

A repository is forgotten with the edges out of the references of its
documents. An edge that was stored for a document that is gone already is not
among these and stays.
-/

namespace SourceAtlas

open Json (Value Key)

/-! ## References of documents -/

def Document.HasRef (d : Document) (r : Key) : Prop := ∃ v j, d.ref? = some v ∧ asKey v = .ok j ∧ (j == r) = true

def Chunk.refKey (c : Chunk) : Key := .str c.payload.ref

theorem Chunk.ref?_toDocument (c : Chunk) : Document.ref? c.toDocument = some (.str c.payload.ref) := by
  have hv : Document.ref? c.toDocument = (some (Value.str c.payload.ref)).filter Value.truthy := rfl
  have htruthy : (Value.str c.payload.ref).truthy = true := by
    simp [Value.truthy, Payload.ref, symbolRef]
  rw [hv, Option.filter_some, if_pos htruthy]

theorem Chunk.hasRef_toDocument (c : Chunk) (r : Key) :
    Document.HasRef c.toDocument r ↔ (c.refKey == r) = true := by
  constructor
  · rintro ⟨v, j, hv, hj, hr⟩
    rw [c.ref?_toDocument] at hv
    obtain rfl := Option.some.inj hv
    obtain rfl := Except.ok.inj hj
    exact hr
  · intro hr
    exact ⟨_, _, c.ref?_toDocument, rfl, hr⟩

theorem Chunk.same_of_place {c d : Chunk} (h : c.place = d.place) : c.file.1 = d.file.1 ∧ c.refKey = d.refKey := by
  simp only [Chunk.place, Prod.mk.injEq] at h
  obtain ⟨hworkspace, hrepo, hpath, hname⟩ := h
  exact ⟨congrArg Key.str hrepo, by simp only [refKey, Payload.ref, hworkspace, hrepo, hpath, hname]⟩

namespace Graph

namespace Symbols

theorem refs_of_remove {refs out : List Key} {id : Key} {d : Document} {x y : Symbols}
    (h : (remove refs id d).on x = (.ok out, y)) (r : Key) :
    out.contains r = true ↔ refs.contains r = true ∨ d.HasRef r := by
  unfold remove at h
  rw [Act.on_bind, Act.on_modify] at h
  unfold Document.HasRef
  cases href : d.ref? with
  | none =>
    rw [href] at h
    obtain ⟨hout, -⟩ := Prod.mk.inj h
    obtain rfl := Except.ok.inj hout
    simp
  | some v =>
    simp only [href, Act.on_bind, Act.on_liftOutcome] at h
    cases hkey : asKey v with
    | error f =>
      rw [hkey] at h
      cases h
    | ok j =>
      rw [hkey] at h
      obtain ⟨hout, -⟩ := Prod.mk.inj h
      obtain rfl := Except.ok.inj hout
      rw [contains_adjoin]
      simp [hkey, or_comm]

theorem refs_of_removeAll {es : List (Key × Document)} {refs out : List Key} {x y : Symbols}
    (h : (es.foldlM (fun refs e => remove refs e.1 e.2) refs : Act Symbols _).on x = (.ok out, y)) (r : Key) :
    out.contains r = true ↔ refs.contains r = true ∨ ∃ e ∈ es, Document.HasRef e.2 r := by
  induction es generalizing refs x with
  | nil =>
    obtain ⟨hout, -⟩ := Prod.mk.inj h
    obtain rfl := Except.ok.inj hout
    simp
  | cons e es ih =>
    obtain ⟨mid, z, hstep, hrest⟩ := Act.bind_ok h
    rw [ih hrest, refs_of_remove hstep]
    simp [or_assoc]

/-- The references that come back are those of the documents that go. -/
theorem refs_of_drop {p : Document → Bool} {refs : List Key} {x y : Symbols}
    (h : (drop p).on x = (.ok refs, y)) (r : Key) :
    refs.contains r = true ↔ ∃ k d, x.documents.get? k = some d ∧ p d = true ∧ d.HasRef r := by
  obtain ⟨_, _, hget, h⟩ := Act.bind_ok h
  cases hget
  rw [refs_of_removeAll h]
  constructor
  · rintro (hnil | ⟨e, he, hr⟩)
    · cases hnil
    · obtain ⟨he, hp⟩ := List.mem_filter.1 he
      exact ⟨e.1, e.2, OrderedMap.get?_of_mem he, hp, hr⟩
  · rintro ⟨k, d, hk, hp, hr⟩
    obtain ⟨j, hj, -⟩ := OrderedMap.mem_of_get? hk
    exact .inr ⟨(j, d), List.mem_filter.2 ⟨hj, hp⟩, hr⟩

end Symbols

/-! ## Deleting a repository -/

namespace Store

variable {x y : Store} {repo : Key} {n : Nat}

/-- Of the edges those go whose source is the reference of a document of the repository. -/
theorem edges_of_deleteRepo (hx : x.Linked) (h : (deleteRepo repo.toValue).on x = (.ok n, y)) (k : EdgeKey) :
    y.edges.keys.contains k = true ↔ x.edges.keys.contains k = true ∧
      ¬ ∃ i d, x.symbols.documents.get? i = some d ∧ Document.ofRepo repo.toValue d = true ∧ d.HasRef k.1 := by
  simp only [deleteRepo, inSymbols, Act.on_bind, Act.on_within, Act.on_modify, Act.on_liftOutcome,
    asKey_toValue] at h
  generalize hdrop : (Symbols.drop (Document.ofRepo repo.toValue)).on x.symbols = r at h
  obtain ⟨o, z⟩ := r
  cases o with
  | error f => cases h
  | ok refs =>
    obtain ⟨-, rfl⟩ := Prod.mk.inj h
    show (x.edges.removeFrom refs).keys.contains k = true ↔ _
    rw [hx.contains_removeFrom, Bool.and_eq_true, Bool.not_eq_true', ← Bool.not_eq_true, Symbols.refs_of_drop hdrop]

theorem deleteRepo_returns (h : ∀ k d, x.symbols.documents.get? k = some d → Document.ofRepo repo.toValue d = true →
    d.Referable) : ∃ n y, (deleteRepo repo.toValue).on x = (.ok n, y) := by
  obtain ⟨refs, hrefs⟩ := (Symbols.drop_ok_iff (Document.ofRepo repo.toValue) x.symbols).2 h
  simp only [deleteRepo, inSymbols, Act.on_bind, Act.on_within, Act.on_modify, Act.on_liftOutcome, asKey_toValue]
  generalize (Symbols.drop (Document.ofRepo repo.toValue)).on x.symbols = r at hrefs
  obtain ⟨o, y⟩ := r
  obtain rfl : o = .ok refs := hrefs
  exact ⟨_, _, rfl⟩

end Store

end Graph

namespace Atlas

variable {a b : Atlas} {es : List Event}

/-! ## Histories -/

theorem linked_of_persist {y : Index.Yield} (ha : a.store.Linked) (h : (persist y).on a = (.ok (), b)) :
    b.store.Linked := by
  obtain ⟨vs, -, -, hb⟩ := of_persist h
  rw [Graph.Store.Linked, hb.edges, edgesWith_eq]
  exact ha.foldl_put _

theorem linked_of_forgetRepo {repo : Value} (ha : a.store.Linked) (h : (forgetRepo repo).on a = (.ok (), b)) :
    b.store.Linked := by
  obtain ⟨n, store, vectors, hstore, -, rfl⟩ := forgetRepo_ok h
  have hlinked := Graph.Store.keeps_deleteRepo repo _ ha
  rw [hstore] at hlinked
  exact hlinked

theorem History.linked (h : History a es) : a.store.Linked := by
  induction h with
  | start plan disk => exact Graph.Edges.Sound.empty
  | world _ _ _ _ ih => exact ih
  | text _ hok ih =>
    obtain ⟨-, ⟨-, rfl⟩ | ⟨language, y, rfl, hp⟩⟩ := of_indexText hok
    · exact ih
    · exact linked_of_persist ih hp
  | repository _ _ _ hok ih => exact linked_of_persist ih (persist_of_indexRepository hok).2
  | forget _ hok ih => exact linked_of_forgetRepo ih hok

/-- The documents of a repository have the references of the chunks that its files have now. -/
theorem Consistent.hasRef_iff (h : Consistent a es) (hids : Separated (chunksIn es)) (repo r : Key) :
    (∃ i d, a.store.symbols.documents.get? i = some d ∧ Document.ofRepo repo.toValue d = true ∧ d.HasRef r) ↔
      ∃ file cs, latest es file = some cs ∧ (file.1 == repo) = true ∧ ∃ c ∈ cs, (c.refKey == r) = true := by
  constructor
  · rintro ⟨i, d, hd, hrepo, href⟩
    obtain ⟨cs, c, hc, hcs, -, rfl⟩ := h.owned .symbols i d hd
    rw [Part.document, c.hasRef_toDocument] at href
    exact ⟨c.file, cs, hcs, (Part.repo_document .symbols c repo).symm.trans hrepo, c, hc, href⟩
  · rintro ⟨file, cs, hcs, hrepo, c, hc, href⟩
    obtain ⟨-, e, -, hd⟩ := h.present .symbols file cs hcs c hc
    -- under the id of the chunk there is a chunk of the same place, and so of the same reference
    obtain ⟨ds, e', he', hds, hkey, hdoc⟩ := h.owned .symbols c.key _ hd
    have hplace := hids c (mem_chunksIn_of_latest hcs hc) e' (mem_chunksIn_of_latest hds he') (Key.str.inj hkey)
    obtain ⟨hsameRepo, hsameRef⟩ := Chunk.same_of_place hplace
    rw [hdoc] at hd
    refine ⟨c.key, _, hd, (Part.repo_document .symbols e' repo).trans ?_,
      (e'.hasRef_toDocument r).2 (hsameRef ▸ href)⟩
    rw [← hsameRepo, (h.present .symbols file cs hcs c hc).1]
    exact hrepo

end Atlas

/-! ## A function that calls another -/

namespace Sample

open SourceAtlas.Syntax (Tree)

def calling : String := "def f(): g()\n"

def callingTree : Tree :=
  .node { kind := "module", first := 0, stop := 13 } [
    .node { kind := "function_definition", first := 0, stop := 12 } [
      token "def" 0 3,
      .node { kind := "identifier", first := 4, stop := 5, field := some "name" } [],
      .node { kind := "parameters", first := 5, stop := 7, field := some "parameters" }
      [token "(" 5 6, token ")" 6 7],
      token ":" 7 8,
      .node { kind := "block", first := 9, stop := 12, field := some "body" } [
        .node { kind := "expression_statement", first := 9, stop := 12 } [
          .node { kind := "call", first := 9, stop := 12 } [
            .node { kind := "identifier", first := 9, stop := 10, field := some "function" } [],
            .node { kind := "argument_list", first := 10, stop := 12, field := some "arguments" } [
              token "(" 10 11, token ")" 11 12]]]]]]

def parseCalling : Atlas.Parser := fun _ text =>
  ⟨if text == calling then callingTree else .node { kind := "module", first := 0, stop := 0 } [],
    fun _ => .node { kind := "inline", first := 0, stop := 0 } []⟩

def ready : Atlas := { atlas with engine := { ready := true } }

def call : EdgeKey := (.str "ws/repo/a.py#f", .str "g", .calls)

abbrev called : Outcome Index.FileResult × Atlas := (Atlas.indexText parseCalling origin calling true).on ready

abbrev emptied : Outcome Index.FileResult × Atlas := (Atlas.indexText parseCalling origin "" true).on called.2

abbrev calledEvents : List Event := (called.1.toOption.getD .unsupported).events ++ []

abbrev emptiedEvents : List Event := (emptied.1.toOption.getD .unsupported).events ++ calledEvents

theorem history_called : Atlas.History called.2 calledEvents := by
  have hready : Atlas.History ready [] := .world (.start plan disk) disk { ready := true } []
  have hok : called.1.toBool = true := by decide +kernel
  have h := hready.text (Act.on_eq_ok .unsupported hok)
  exact h

theorem history_emptied : Atlas.History emptied.2 emptiedEvents := by
  have hok : emptied.1.toBool = true := by decide +kernel
  have h := history_called.text (Act.on_eq_ok .unsupported hok)
  exact h

end Sample

namespace Atlas

variable {a b : Atlas} {es : List Event}

/-! ## Deleting a repository after any history -/

/-- When a repository is deleted, the stored edges that stay are those whose source is not the
reference of a chunk that a file of the repository has now. -/
theorem History.edges_left (h : History a es) (hids : Separated (chunksIn es))
    (hserves : a.serves .deleteRepo = true)
    (repo : Key) : ∃ n b, (deleteRepo repo.toValue).on a = (.ok n, b) ∧
      ∀ k, b.store.edges.keys.contains k = true ↔ a.store.edges.keys.contains k = true ∧
        ¬ ∃ file cs, latest es file = some cs ∧ (file.1 == repo) = true ∧ ∃ c ∈ cs, (c.refKey == k.1) = true := by
  have hc := h.consistent hids
  have hreferable : ∀ i d, a.store.symbols.documents.get? i = some d → Document.ofRepo repo.toValue d = true →
      d.Referable := fun i d hd _ => by
    obtain ⟨cs, c, -, -, -, rfl⟩ := hc.owned .symbols i d hd
    exact c.referable
  obtain ⟨n, store, hdelete⟩ := Graph.Store.deleteRepo_returns hreferable
  refine ⟨n, { a with store }, ?_, fun k => ?_⟩
  · simp [deleteRepo, inStore, Act.on_bind, check_eq_ok hserves, hdelete]
  · rw [← hc.hasRef_iff hids]
    exact Graph.Store.edges_of_deleteRepo h.linked hdelete k

theorem exists_of_latest {file : FileKey} {p : Chunk → Bool} (h : ((latest es file).getD []).any p = true) :
    ∃ cs, latest es file = some cs ∧ ∃ c ∈ cs, p c = true := by
  cases hcs : latest es file with
  | none =>
    rw [hcs] at h
    cases h
  | some cs =>
    rw [hcs] at h
    exact ⟨cs, rfl, List.any_eq_true.1 h⟩

/-- The call of a function goes with the repository that still has the function. -/
theorem History.call_goes : Sample.called.2.store.edges.keys.contains Sample.call = true ∧
    ∃ n b, (deleteRepo (.str "repo")).on Sample.called.2 = (.ok n, b) ∧
      b.store.edges.keys.contains Sample.call = false := by
  have hnow : ((latest Sample.calledEvents (.str "repo", .str "a.py")).getD []).any
      (·.refKey == Sample.call.1) = true := by
    decide +kernel
  obtain ⟨cs, hcs, c, hc, href⟩ := exists_of_latest hnow
  obtain ⟨n, b, hdelete, hedges⟩ :=
    Sample.history_called.edges_left (by decide +kernel) (by decide +kernel) (.str "repo")
  refine ⟨by decide +kernel, n, b, hdelete, Bool.eq_false_iff.2 fun hleft => ?_⟩
  exact ((hedges _).1 hleft).2 ⟨_, cs, hcs, rfl, c, hc, href⟩

/-- Once the function is gone from its file, its call stays although its repository is deleted. -/
theorem History.call_stays : ∃ a es n b, History a es ∧ Separated (chunksIn es) ∧
    (∀ c ∈ chunksIn es, c.file.1 = .str "repo") ∧ (deleteRepo (.str "repo")).on a = (.ok n, b) ∧
    ∃ c ∈ chunksIn es, ∃ k, b.store.edges.keys.contains k = true ∧ k.1 = c.refKey := by
  have hrepo : ∀ c ∈ chunksIn Sample.emptiedEvents, c.payload.context.repo = "repo" := by decide +kernel
  have href : ∃ c ∈ chunksIn Sample.emptiedEvents, c.payload.ref = "ws/repo/a.py#f" := by decide +kernel
  have hdelete : ((deleteRepo (.str "repo")).on Sample.emptied.2).1.toBool = true := by decide +kernel
  obtain ⟨c, hc, href⟩ := href
  refine ⟨_, _, _, _, Sample.history_emptied, by decide +kernel, fun c hc => congrArg Key.str (hrepo c hc),
    Act.on_eq_ok 0 hdelete, c, hc, Sample.call, by decide +kernel, ?_⟩
  rw [Chunk.refKey, href]
  rfl

end Atlas

end SourceAtlas
