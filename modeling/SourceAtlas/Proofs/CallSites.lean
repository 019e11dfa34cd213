import SourceAtlas.Proofs.Displacement
import SourceAtlas.Proofs.Listings
import SourceAtlas.Proofs.Signals
import SourceAtlas.Proofs.Ties

/-!
# Where calls start

A call starts at a symbol of its file that covers its lines. Each symbol has a
chunk, and that is named by the reference that the call starts at. So a call
leads back to a symbol once its chunk is stored, unless the reference was lost
on the way.
-/

namespace SourceAtlas

open Json (Value Key)

namespace Dependency

theorem source_of_edgesOf {language : Language} {src : Syntax.Source} {tree : Syntax.Tree} {symbols : List Symbol}
    {file : FileIdentity} {es : List Edge} (h : edgesOf language src tree symbols file = .ok es) :
    ∀ e ∈ es, e.type = .calls → ∃ s ∈ symbols, e.source = .str (file.ref s.qualifiedName) := by
  intro e he htype
  obtain ⟨g, hg, c, -, new, hnew, he⟩ := exists_of_mem_edgesOf h he
  obtain ⟨s, hs, hsource⟩ := caller_of_edgesAt hg hnew he htype
  exact ⟨s, mem_of_caller? hs, hsource⟩

end Dependency

/-! ## Chunks that calls start at -/

def Index.Yield.Rooted (y : Index.Yield) : Prop :=
  ∀ e ∈ y.edges, e.type = .calls → ∃ c ∈ y.chunks, e.source = .str c.payload.ref

namespace Index.Yield

theorem Rooted.empty : Rooted {} := by
  intro e he
  cases he

theorem Rooted.append {x y : Index.Yield} (hx : x.Rooted) (hy : y.Rooted) : (x.append y).Rooted := by
  intro e he htype
  rcases List.mem_append.1 he with he | he
  · obtain ⟨c, hc, hsource⟩ := hx e he htype
    exact ⟨c, List.mem_append_left _ hc, hsource⟩
  · obtain ⟨c, hc, hsource⟩ := hy e he htype
    exact ⟨c, List.mem_append_right _ hc, hsource⟩

end Index.Yield

namespace Atlas

variable {a b : Atlas} {parse : Parser} {o : Origin} {text : String} {y : Index.Yield}

theorem Chunk.IsFrom.ref_eq {c : Chunk} (h : Chunk.IsFrom o c) :
    o.file.ref c.payload.symbolName = c.payload.ref := by
  rw [Origin.file, h.workspace, h.repo, h.path]
  rfl

theorem rooted_of_analyse {plan : Plan} {now : Int} {language : Language} {hash : String} {parsed : Parsed}
    (h : analyse plan now o language text hash parsed = .ok y) : y.Rooted := by
  unfold analyse at h
  split at h
  · simp only [bind_eq_ok, pure_eq_ok, Prod.exists, Prod.mk.injEq] at h
    obtain ⟨cs, -, cs', es, ⟨rfl, rfl⟩, repo, -, rfl⟩ := h
    intro e he
    cases he
  · simp only [bind_eq_ok, pure_eq_ok, Prod.exists, Prod.mk.injEq] at h
    obtain ⟨symbols, -, cs, hcs, es, hes, cs', es', ⟨rfl, rfl⟩, repo, -, rfl⟩ := h
    obtain ⟨hnames, hfrom⟩ := symbols_ok hcs
    intro e he htype
    obtain ⟨s, hs, hsource⟩ := Dependency.source_of_edgesOf hes e he htype
    have hname : s.qualifiedName ∈ cs.map (·.payload.symbolName) := hnames ▸ List.mem_map_of_mem hs
    obtain ⟨c, hc, hsame⟩ := List.mem_map.1 hname
    refine ⟨c, hc, ?_⟩
    rw [hsource, ← hsame, (hfrom c hc).ref_eq]

theorem rooted_of_examine {x : Index.FileResult} (h : a.examine parse o text = .ok x) : x.yield.Rooted := by
  cases x with
  | indexed language y =>
    obtain ⟨-, -, hy⟩ := examine_indexed h
    exact rooted_of_analyse hy
  | _ => exact .empty

theorem Indexes.rooted (h : Indexes a y b) : y.Rooted :=
  h.forall .empty (fun _ _ => .append) fun _ _ _ _ => rooted_of_examine

/-! ## Chunks in a store -/

/-- Whether the symbols of an atlas are chunks, with the ids that follow from their places. -/
structure Stocked (a : Atlas) (us : List Chunk) : Prop where
  lists : Lists .symbols a.store.symbols.documents us
  identified : ∀ c ∈ us, c.Identified

/-- Whether a chunk stays when what files yield is stored. -/
def spares (a : Atlas) (y : Index.Yield) (c : Chunk) : Bool := !staleDocument a.store.ledger y.rows c.toDocument

def Recalls (a : Atlas) (ref : Value) : Prop :=
  ∃ d, (getSymbol ref).on a = (.ok (some d), a) ∧ Document.ref? d = some ref

variable {us : List Chunk}

theorem stocked_of_empty (h : a.store = {}) : a.Stocked [] where
  lists := h ▸ .empty .symbols
  identified c hc := by cases hc

theorem isFrom_of_examine {x : Index.FileResult} (h : a.examine parse o text = .ok x) :
    ∀ c ∈ x.yield.chunks, Chunk.IsFrom o c := by
  cases x with
  | indexed language y =>
    obtain ⟨row, -, -, -, -, hchunks, -⟩ := row_of_examine h
    exact fun c hc => (hchunks c hc).1
  | _ => exact fun c hc => absurd hc List.not_mem_nil

theorem Indexes.identified (h : Indexes a y b) : ∀ c ∈ y.chunks, c.Identified :=
  h.forall (P := fun y => ∀ c ∈ y.chunks, c.Identified) (fun _ hc => absurd hc List.not_mem_nil)
    (fun _ _ hx hy c hc => (List.mem_append.1 hc).elim (hx c) (hy c))
    fun _ _ _ _ hx c hc => (isFrom_of_examine hx c hc).id

theorem Stocked.kept (h : a.Stocked us) (y : Index.Yield) :
    Lists .symbols (a.store.symbols.documents.keep (!staleDocument a.store.ledger y.rows ·))
      (us.filter (a.spares y)) :=
  h.lists.keep fun _ _ => rfl

theorem Stocked.indexes (h : a.Stocked us) (hok : Indexes a y b) :
    b.Stocked (y.chunks.foldl SourceAtlas.storeChunk (us.filter (a.spares y))) := by
  obtain ⟨-, hp⟩ := persist_of_indexes hok
  obtain ⟨vs, hvs, -, hb⟩ := of_persist hp
  constructor
  · exact ((h.kept y).insertAll y.chunks).congr (hb.held (length_of_embedChunks hvs) .symbols)
  · intro c hc
    rcases mem_foldl_storeChunk hc with hc | hc
    · exact h.identified c (List.mem_filter.1 hc).1
    · exact hok.identified c hc

/-- The reference of a chunk leads to what the index of references has for it, as it is no id. -/
theorem Stocked.recalls_iff (h : a.Stocked us) (hserves : a.serves .getSymbol = true) (c : Chunk) :
    a.Recalls (.str c.payload.ref) ↔ a.store.symbols.Finds c.payload.ref := by
  have hget : (getSymbol (.str c.payload.ref)).on a = (.ok (a.store.symbols.get? (.str c.payload.ref)), a) := by
    have hread := on_getSymbol (.str c.payload.ref) a
    rwa [check_eq_ok hserves] at hread
  have hnoId : a.store.symbols.documents.get? (.str c.payload.ref) = none := by
    rw [Option.eq_none_iff_forall_ne_some]
    intro d hd
    obtain ⟨e, he, hkey, -⟩ := (h.lists _ _).1 hd
    exact (h.identified e he).id_ne_ref c (Key.str.inj hkey).symm
  have hfound : a.store.symbols.get? (.str c.payload.ref) =
      (a.store.symbols.idOfRef.get? (.str c.payload.ref)).bind a.store.symbols.documents.get? := by
    rw [Graph.Symbols.get?, hnoId]
  constructor
  · rintro ⟨d, hd, href⟩
    rw [hget, hfound] at hd
    obtain ⟨k, hk, hd⟩ := Option.bind_eq_some_iff.1 (Except.ok.inj (Prod.mk.inj hd).1)
    exact ⟨k, d, hk, hd, href⟩
  · rintro ⟨k, d, hk, hd, href⟩
    refine ⟨d, ?_, href⟩
    rw [hget, hfound, hk, Option.bind_some, hd]

theorem Stocked.finds_iff (h : a.Stocked us) (hok : Indexes a y b) {c : Chunk} (hc : c ∈ y.chunks) :
    b.store.symbols.Finds c.payload.ref ↔ ¬ Displaced c.payload.ref (us.filter (a.spares y)) y.chunks := by
  obtain ⟨-, hp⟩ := persist_of_indexes hok
  obtain ⟨m, n, -, hkept, hput, hsame⟩ := symbols_of_persist hp
  rw [hsame]
  exact Graph.Store.finds_of_putAll (hkept ▸ h.kept y) hput (.inr ⟨c, hc, rfl⟩)

/-! ## Calls that keep references -/

/-- Unless digests collide, a text that is stored loses none of its references. -/
theorem kept_of_examine {x : Index.FileResult} (h : a.examine parse o text = .ok x) (p : Chunk → Bool)
    (hids : DigestsApart us x.yield.chunks) :
    ∀ c ∈ x.yield.chunks, ¬ Displaced c.payload.ref (us.filter p) x.yield.chunks := by
  have hfrom := isFrom_of_examine h
  intro c hc
  refine not_displaced (hids.mono (List.filter_subset_self us)) (fun d hd e he => ?_) (.inl fun d hd e he => ?_) hc
  · have hworkspace := (hfrom d hd).workspace.symm.trans (hfrom e he).workspace
    have hrepo := (hfrom d hd).repo.symm.trans (hfrom e he).repo
    exact ⟨Value.str.inj hworkspace, Value.str.inj hrepo⟩
  · exact (hfrom d hd).path.symm.trans (hfrom e he).path

/-- So does a repository, as long as no path holds the separator of ids. -/
theorem kept_of_surveyed {r : Index.Repository} {workspace : Value} {mode : Index.IndexMode}
    {cancelAfter : Option Nat}
    {report : Index.Report} (h : a.surveyed parse r workspace mode cancelAfter = .ok report) (p : Chunk → Bool)
    (hids : DigestsApart us report.yield.chunks)
    (hpaths : ∀ d ∈ us ++ report.yield.chunks, '\x00' ∉ d.payload.context.path.toList) :
    ∀ c ∈ report.yield.chunks, ¬ Displaced c.payload.ref (us.filter p) report.yield.chunks := by
  have hfrom : ∀ c ∈ report.yield.chunks,
      workspace = .str c.payload.context.workspace ∧ r.id.toValue = .str c.payload.context.repo := by
    refine forall_of_surveyed (P := fun y => ∀ c ∈ y.chunks, workspace = .str c.payload.context.workspace ∧
      r.id.toValue = .str c.payload.context.repo) (fun c hc => absurd hc List.not_mem_nil)
      (fun _ _ hx hy c hc => (List.mem_append.1 hc).elim (hx c) (hy c)) (fun commit path text x hx c hc => ?_) h
    have hc := isFrom_of_examine hx c hc
    exact ⟨hc.workspace, hc.repo⟩
  intro c hc
  refine not_displaced (hids.mono (List.filter_subset_self us)) (fun d hd e he => ?_) (.inr fun d hd => ?_) hc
  · have hworkspace := (hfrom d hd).1.symm.trans (hfrom e he).1
    have hrepo := (hfrom d hd).2.symm.trans (hfrom e he).2
    exact ⟨Value.str.inj hworkspace, Value.str.inj hrepo⟩
  · apply hpaths
    exact (List.mem_append.1 hd).elim (fun hd => List.mem_append_left _ (List.mem_filter.1 hd).1)
      (List.mem_append_right _)

/-! ## The way back -/

/-- Each call that a text yields starts at the reference of one of its chunks. Once that is stored,
the reference leads back to it, unless it is lost while the chunks of the same call are stored.
If digests do not collide, this never happens to a text, nor to a repository unless a path
holds the separator of ids. -/
theorem Stocked.calls_lead_back (h : a.Stocked us) :
    (∀ parse o text keep x b, (indexText parse o text keep).on a = (.ok x, b) → x.yield.Rooted) ∧
    (∀ y b, Indexes a y b → b.serves .getSymbol = true → ∀ e ∈ y.edges, e.type = .calls →
      ∃ c ∈ y.chunks, e.source = .str c.payload.ref ∧
        (b.Recalls e.source ↔ ¬ Displaced c.payload.ref (us.filter (a.spares y)) y.chunks)) ∧
    (∀ parse o text x b, (indexText parse o text true).on a = (.ok x, b) → DigestsApart us x.yield.chunks →
      ∀ c ∈ x.yield.chunks, ¬ Displaced c.payload.ref (us.filter (a.spares x.yield)) x.yield.chunks) ∧
    ∀ parse r workspace mode cancelAfter report b,
      (indexRepository parse r workspace mode true cancelAfter).on a = (.ok report, b) →
      DigestsApart us report.yield.chunks →
      (∀ d ∈ us ++ report.yield.chunks, '\x00' ∉ d.payload.context.path.toList) →
      ∀ c ∈ report.yield.chunks,
        ¬ Displaced c.payload.ref (us.filter (a.spares report.yield)) report.yield.chunks := by
  refine ⟨fun parse o text keep x b hok => rooted_of_examine (examine_of_indexText hok),
    fun y b hok hserves e he htype => ?_,
    fun parse o text x b hok hids => kept_of_examine (examine_of_indexText hok) _ hids,
    fun parse r workspace mode cancelAfter report b hok hids hpaths =>
      kept_of_surveyed (of_indexRepository hok).1 _ hids hpaths⟩
  obtain ⟨c, hc, hsource⟩ := hok.rooted e he htype
  refine ⟨c, hc, hsource, ?_⟩
  rw [hsource, (h.indexes hok).recalls_iff hserves, h.finds_iff hok hc]

theorem calls_lead_back_of_function : ∃ e ∈ (Sample.called.1.toOption.getD .unsupported).yield.edges,
    e.type = .calls ∧ Sample.called.2.Recalls e.source := by
  have hrun : Sample.called.1.toBool = true ∧ Sample.called.2.serves .getSymbol = true ∧
      DigestsApart [] (Sample.called.1.toOption.getD .unsupported).yield.chunks ∧
      ∃ e ∈ (Sample.called.1.toOption.getD .unsupported).yield.edges, e.type = .calls := by
    decide +kernel
  obtain ⟨hok, hserves, hids, e, he, htype⟩ := hrun
  have hcall := Act.on_eq_ok .unsupported hok
  obtain ⟨-, hback, hkept, -⟩ := (stocked_of_empty (a := Sample.ready) rfl).calls_lead_back
  obtain ⟨c, hc, -, hfound⟩ := hback _ _ (.text hcall) hserves e he htype
  exact ⟨e, he, htype, hfound.2 (hkept _ _ _ _ _ hcall hids c hc)⟩

end Atlas

/-! ## A reference that two symbols share -/

namespace Sample

open SourceAtlas.Syntax (Tree)

def specialization (raw stop : Nat) (statements : List Tree) : Tree :=
  .node { kind := "translation_unit", first := 0, stop } [
    .node { kind := "template_declaration", first := 0, stop := stop - 1 } [
      token "template" 0 8,
      .node { kind := "template_parameter_list", first := 9, stop := 11, field := some "parameters" } [
        token "<" 9 10, token ">" 10 11],
      .node { kind := "function_definition", first := 12, stop := stop - 1 } [
        .node { kind := "primitive_type", first := 12, stop := 16, field := some "type" } [],
        .node { kind := "function_declarator", first := 17, stop := 27 + raw, field := some "declarator" } [
          .node { kind := "template_function", first := 17, stop := 25 + raw, field := some "declarator" } [
            .node { kind := "identifier", first := 17, stop := 18, field := some "name" } [],
            .node { kind := "template_argument_list", first := 18, stop := 25 + raw, field := some "arguments" } [
              token "<" 18 19,
              .node { kind := "raw_string_literal", first := 19, stop := 24 + raw } [
                token "R\"" 19 21, token "(" 21 22,
                .node { kind := "raw_string_content", first := 22, stop := 22 + raw } [],
                token ")" (22 + raw) (23 + raw), token "\"" (23 + raw) (24 + raw)],
              token ">" (24 + raw) (25 + raw)]],
          .node { kind := "parameter_list", first := 25 + raw, stop := 27 + raw, field := some "parameters" } [
            token "(" (25 + raw) (26 + raw), token ")" (26 + raw) (27 + raw)]],
        .node { kind := "compound_statement", first := 28 + raw, stop := stop - 1, field := some "body" }
          (token "\x7b" (28 + raw) (29 + raw) :: statements ++ [token "\x7d" (stop - 2) (stop - 1)])]]]

/-- The one function whose path and name, joined to a reference, read like those of `sharing` in
another file, and joined to an id like those of `replacing` in a third one. -/
def owning : String := "template <> void g<R\"(b)\">() \x7b\x7d\n"

def sharing : String := "template <> void f<R\"(.cpp\x00k<R\"(.cpp#g<R\"(b)\">() \x7b q(); \x7d\n"

def replacing : String := "template <> void k<R\"(.cpp\x00g<R\"(b)\">() \x7b\x7d\n"

def callStatement : Tree :=
  .node { kind := "expression_statement", first := 51, stop := 55 } [
    .node { kind := "call_expression", first := 51, stop := 54 } [
      .node { kind := "identifier", first := 51, stop := 52, field := some "function" } [],
      .node { kind := "argument_list", first := 52, stop := 54, field := some "arguments" } [
        token "(" 52 53, token ")" 53 54]],
    token ";" 54 55]

def parseSpecialization : Atlas.Parser := fun _ text =>
  ⟨if text == owning then specialization 1 32 [] else if text == sharing then specialization 21 58 [callStatement]
    else specialization 11 42 [],
    fun _ => .node { kind := "inline", first := 0, stop := 0 } []⟩

def repository : Index.Repository :=
  { id := .str "repo", workspace := "ws", name := "repo", path := .ofString "repo" }

def entries : List (String × FileTree) :=
  [("a.cpp", .file (.bytes (Text.encode sharing))), ("a.cpp#f<R\"(.cpp", .file (.bytes (Text.encode replacing)))]

def checkedOut : Disk := { disk with files := .dir [("repo", .dir entries)] }

def checkout : Index.Checkout := .open (.ofString "repo") checkedOut.files none []

/-- The symbol that owns the reference is stored under a path that no checkout has. -/
abbrev owned : Outcome Index.FileResult × Atlas :=
  (Atlas.indexText parseSpecialization { origin with path := "a.cpp#f<R\"(.cpp\x00k<R\"(.cpp" } owning true).on
    { ready with disk := checkedOut }

abbrev reread : Index.Yield :=
  Atlas.yieldOf (Atlas.foundIn parseSpecialization repository "ws" owned.2 ["a.cpp", "a.cpp#f<R\"(.cpp"])

abbrev reindexed : Outcome Unit × Atlas := (Atlas.persist reread).on owned.2

end Sample

namespace Atlas

theorem eq_ok_of_toOption {α : Type} {x : Outcome α} {v : α} (h : x.toOption = some v) : x = .ok v := by
  cases x with
  | error f => cases h
  | ok w => exact congrArg Except.ok (Option.some.inj h)

/-- The symbol that takes the place of another one takes a reference along that a third one has. -/
theorem call_leads_nowhere : ∃ a us report b, a.Stocked us ∧
    (indexRepository Sample.parseSpecialization Sample.repository "ws" .full true none).on a = (.ok report, b) ∧
    ∃ e ∈ report.yield.edges, e.type = .calls ∧ ((getSymbol e.source).on b).1 = .ok none := by
  have howned : Sample.owned.1.toBool = true := by decide +kernel
  have hok := Act.on_eq_ok .unsupported howned
  have hstocked := (stocked_of_empty (a := { Sample.ready with disk := Sample.checkedOut }) rfl).indexes (.text hok)
  obtain ⟨vs, -, -, hstored⟩ := of_persist (persist_of_indexText hok).2
  have hcheckout : Sample.owned.2.checkoutOf Sample.repository = Sample.checkout := by
    rw [checkoutOf, hstored.disk, hstored.plan]
    rfl
  have hfiles : (Sample.owned.2.checkoutOf Sample.repository).files = .ok ["a.cpp", "a.cpp#f<R\"(.cpp"] := by
    have hfind : Sample.checkout.tree.find Sample.checkout.path = .ok (.dir Sample.entries) := rfl
    have hlisted := Index.Checkout.listed_of_directory (c := Sample.checkout) rfl hfind
    simp only [Sample.entries, FileTree.entryPaths] at hlisted
    have hkept : ["a.cpp", "a.cpp#f<R\"(.cpp"].filter (!Sample.checkout.isIgnored ·) =
        ["a.cpp", "a.cpp#f<R\"(.cpp"] := by
      decide +kernel
    have hjoined : [["a.cpp"], ["a.cpp#f<R\"(.cpp"]].map (String.intercalate "/" ·) =
        ["a.cpp", "a.cpp#f<R\"(.cpp"] := by
      decide +kernel
    simp only [hcheckout, Index.Checkout.files, hlisted, hjoined, bind, Except.bind, hkept]
    exact congrArg Except.ok (List.mergeSort_of_pairwise (by decide +kernel))
  have hrun : (Sample.reindexed).1.toBool = true ∧ ∃ e ∈ Sample.reread.edges, e.type = .calls ∧
      ((getSymbol e.source).on Sample.reindexed.2).1.toOption.map Option.isNone = some true := by
    decide +kernel
  obtain ⟨hok, e, he, htype, hnone⟩ := hrun
  have h := @on_indexRepository Sample.owned.2 Sample.parseSpecialization Sample.repository "ws" _ hfiles
  rw [Act.on_bind_ok (Act.on_eq_ok () hok), Act.on_pure] at h
  refine ⟨_, _, _, _, hstocked, h, e, ?_, htype, ?_⟩
  · rw [Index.Report.yield_ofFiles]
    exact he
  generalize ((getSymbol e.source).on _).1 = found at hnone ⊢
  obtain ⟨d, hfound, hd⟩ := Option.map_eq_some_iff.1 hnone
  rw [eq_ok_of_toOption hfound, Option.isNone_iff_eq_none.1 hd]

end Atlas

end SourceAtlas
