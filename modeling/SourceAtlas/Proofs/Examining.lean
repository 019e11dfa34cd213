import SourceAtlas.Proofs.Storing

/-!
# What examining a text yields

One row for the file, and chunks that belong to it. Their ids come from the
place of the file and from names that depend on the text alone.
-/

namespace SourceAtlas.Atlas

open Json (Value Key)

variable {a b : Atlas} {parse : Parser} {o : Origin} {text : String}

def namesIn (plan : Plan) (language : Language) (text : String) (parsed : Parsed) : Outcome (List String) :=
  let source : Syntax.Source := ⟨Text.encode text⟩
  if language = .markdown then
    let reader : Markdown.Reader := ⟨source, parsed.inline, plan.minSectionChars⟩
    pure ((reader.sections parsed.tree).zipIdx.map fun (s, i) => s.symbolName i)
  else do pure ((← symbolsOf language source parsed.tree).map (·.qualifiedName))

/-- Whether a chunk is of this place, with the id that follows from it. -/
structure Chunk.IsFrom (o : Origin) (c : Chunk) : Prop where
  workspace : o.workspace = .str c.payload.context.workspace
  repo : o.repo = .str c.payload.context.repo
  path : o.path = c.payload.context.path
  id : c.id = symbolId c.payload.context.workspace c.payload.context.repo c.payload.context.path
    c.payload.symbolName

theorem part_ok {n : Nat} {v : Value} {s : String} (h : Provenance.part n v = .ok s) : v = .str s := by
  cases v with
  | str t => exact congrArg Value.str (Except.ok.inj h)
  | _ => cases h

theorem context_ok {p : Provenance} {x : FileContext} (h : p.context = .ok x) :
    p.workspace = .str x.workspace ∧ p.repo = .str x.repo ∧ p.path = .str x.path := by
  simp only [Provenance.context, bind_eq_ok, pure_eq_ok] at h
  obtain ⟨w, hw, r, hr, path, hp, rfl⟩ := h
  exact ⟨part_ok hw, part_ok hr, part_ok hp⟩

/-- Chunks of sections, if there are any, are of the place that was given. -/
theorem sections_ok {reader : Markdown.Reader} {t : Syntax.Tree} {language : Language} {hash : String} {now : Int}
    {cs : List Chunk} (h : reader.chunks t (o.provenance language hash) now = .ok cs) :
    cs.map (·.payload.symbolName) = ((reader.sections t).zipIdx.map fun (s, i) => s.symbolName i) ∧
      ∀ c ∈ cs, Chunk.IsFrom o c := by
  unfold Markdown.Reader.chunks at h
  split at h
  · rename_i hempty
    rw [List.isEmpty_iff.1 hempty]
    obtain rfl := pure_eq_ok.1 h
    exact ⟨rfl, fun c hc => absurd hc List.not_mem_nil⟩
  · simp only [bind_eq_ok, pure_eq_ok] at h
    obtain ⟨x, hx, rfl⟩ := h
    obtain ⟨hw, hr, hp⟩ := context_ok hx
    refine ⟨by simp [Markdown.Section.toChunk, Function.comp_def], fun c hc => ?_⟩
    obtain ⟨⟨s, i⟩, -, rfl⟩ := List.mem_map.1 hc
    exact ⟨hw, hr, Value.str.inj hp, rfl⟩

theorem symbols_ok {symbols : List Symbol} {language : Language} {hash : String} {now : Int} {cs : List Chunk}
    (h : chunksOf symbols (o.provenance language hash) now = .ok cs) :
    cs.map (·.payload.symbolName) = symbols.map (·.qualifiedName) ∧ ∀ c ∈ cs, Chunk.IsFrom o c := by
  unfold chunksOf at h
  split at h
  · rename_i hempty
    rw [List.isEmpty_iff.1 hempty]
    obtain rfl := pure_eq_ok.1 h
    exact ⟨rfl, fun c hc => absurd hc List.not_mem_nil⟩
  · simp only [bind_eq_ok, pure_eq_ok] at h
    obtain ⟨x, hx, rfl⟩ := h
    obtain ⟨hw, hr, hp⟩ := context_ok hx
    refine ⟨by simp [Symbol.toChunk, Function.comp_def], fun c hc => ?_⟩
    obtain ⟨s, -, rfl⟩ := List.mem_map.1 hc
    exact ⟨hw, hr, Value.str.inj hp, rfl⟩

theorem analyse_ok {plan : Plan} {now : Int} {language : Language} {hash : String}
    {parsed : Parsed} {y : Index.Yield} (h : analyse plan now o language text hash parsed = .ok y) :
    namesIn plan language text parsed = .ok (y.chunks.map (·.payload.symbolName)) ∧
      (∀ c ∈ y.chunks, Chunk.IsFrom o c) ∧
      ∃ row, y.rows = [row] ∧ asKey o.repo = .ok row.repo ∧ row.path = .str o.path ∧ row.hash = .str hash := by
  unfold analyse at h
  unfold namesIn
  split at h
  · rename_i hmd
    simp only [bind_eq_ok, pure_eq_ok, Prod.exists, Prod.mk.injEq] at h
    obtain ⟨cs, hcs, cs', es, ⟨rfl, rfl⟩, repo, hrepo, rfl⟩ := h
    obtain ⟨hn, hc⟩ := sections_ok hcs
    exact ⟨by rw [if_pos hmd, hn]; rfl, hc, _, rfl, hrepo, rfl, rfl⟩
  · rename_i hmd
    simp only [bind_eq_ok, pure_eq_ok, Prod.exists, Prod.mk.injEq] at h
    obtain ⟨symbols, hs, cs, hcs, es, -, cs', es', ⟨rfl, rfl⟩, repo, hrepo, rfl⟩ := h
    obtain ⟨hn, hc⟩ := symbols_ok hcs
    exact ⟨by rw [if_neg hmd, hs, hn]; rfl, hc, _, rfl, hrepo, rfl, rfl⟩

theorem Chunk.IsFrom.file_eq {c : Chunk} {repo : Key} (h : Chunk.IsFrom o c) (hrepo : asKey o.repo = .ok repo) :
    c.file = (repo, .str o.path) := by
  rw [h.repo, asKey_str] at hrepo
  rw [Chunk.file, ← Except.ok.inj hrepo, h.path]

theorem file_of_isFrom {c : Chunk} {row : Graph.LedgerRow} (h : Chunk.IsFrom o c)
    (hrepo : asKey o.repo = .ok row.repo) (hpath : row.path = .str o.path) : c.file = row.file := by
  rw [h.file_eq hrepo, Graph.LedgerRow.file, hpath]

/-! ## Examining -/

theorem findRow_ok_iff (a : Atlas) (repo path hash : Value) (row : Option Graph.LedgerRow) :
    a.findRow repo path hash = .ok row ↔ a.serves .findRow = true ∧
      ∃ k l, asKey repo = .ok k ∧ asKey path = .ok l ∧ a.store.ledger.unchanged? k l hash = row := by
  unfold findRow
  cases hs : a.serves .findRow with
  | false =>
    obtain ⟨f, hf⟩ := check_eq_error hs
    simp [hf, bind, Except.bind]
  | true => simp only [check_eq_ok hs, bind_eq_ok, pure_eq_ok, true_and, exists_const, exists_and_left]

/-- What is yielded was not indexed before. -/
theorem examine_indexed {language : Language} {y : Index.Yield}
    (h : a.examine parse o text = .ok (.indexed language y)) :
    Language.ofPath? o.path = some language ∧
      (∀ repo, asKey o.repo = .ok repo →
        a.store.ledger.unchanged? repo (.str o.path)
          (.str (Index.hashBytes a.plan.hash (Text.encode text))) = none) ∧
      analyse a.plan a.disk.now o language text (Index.hashBytes a.plan.hash (Text.encode text))
        (parse o.path text) = .ok y := by
  unfold examine at h
  cases hl : Language.ofPath? o.path with
  | none => simp [hl, pure, Except.pure] at h
  | some l =>
    simp only [hl, bind_eq_ok, findRow_ok_iff] at h
    obtain ⟨row, ⟨-, k, p, hk, hp, hrow⟩, h⟩ := h
    split at h
    · simp [pure, Except.pure] at h
    · rename_i hnew
      simp only [bind_eq_ok, pure_eq_ok, Index.FileResult.indexed.injEq] at h
      obtain ⟨-, -, y', hy, rfl, rfl⟩ := h
      refine ⟨rfl, fun repo hrepo => ?_, hy⟩
      obtain rfl : k = repo := Except.ok.inj (hk.symm.trans hrepo)
      obtain rfl : p = .str o.path := Except.ok.inj (hp.symm.trans (asKey_str o.path))
      rw [hrow]
      simpa using hnew

theorem examine_unchanged {language : Language} (h : a.examine parse o text = .ok (.unchanged language)) :
    Language.ofPath? o.path = some language ∧ ∃ repo, asKey o.repo = .ok repo ∧
      (a.store.ledger.unchanged? repo (.str o.path)
        (.str (Index.hashBytes a.plan.hash (Text.encode text)))).isSome = true := by
  unfold examine at h
  cases hl : Language.ofPath? o.path with
  | none => simp [hl, pure, Except.pure] at h
  | some l =>
    simp only [hl, bind_eq_ok, findRow_ok_iff] at h
    obtain ⟨row, ⟨-, k, p, hk, hp, hrow⟩, h⟩ := h
    obtain rfl : p = .str o.path := Except.ok.inj (hp.symm.trans (asKey_str o.path))
    split at h
    · rename_i hsome
      obtain rfl := Index.FileResult.unchanged.inj (pure_eq_ok.1 h)
      exact ⟨rfl, k, hk, hrow ▸ hsome⟩
    · simp only [bind_eq_ok, pure_eq_ok] at h
      obtain ⟨-, -, y, -, hy⟩ := h
      cases hy

/-- What is yielded has one row, and that row replaces any other row of the file. -/
theorem row_of_examine {language : Language} {y : Index.Yield}
    (h : a.examine parse o text = .ok (.indexed language y)) :
    ∃ row, y.rows = [row] ∧ asKey o.repo = .ok row.repo ∧ row.path = .str o.path ∧
      row.hash = .str (Index.hashBytes a.plan.hash (Text.encode text)) ∧
      (∀ c ∈ y.chunks, Chunk.IsFrom o c ∧ c.file = row.file) ∧
      stale a.store.ledger row = (a.store.ledger.get? row.file).isSome := by
  obtain ⟨-, hnew, hy⟩ := examine_indexed h
  obtain ⟨-, hchunks, row, hrows, hrepo, hpath, hhash⟩ := analyse_ok hy
  refine ⟨row, hrows, hrepo, hpath, hhash,
    fun c hc => ⟨hchunks c hc, file_of_isFrom (hchunks c hc) hrepo hpath⟩, ?_⟩
  have hnew := hnew row.repo hrepo
  rw [← hpath, ← hhash] at hnew
  unfold stale
  cases hrow : a.store.ledger.get? row.file with
  | none => rfl
  | some previous =>
    have hdiffers : previous.hash.same row.hash = false := by
      have hget : a.store.ledger.get? (row.repo, row.path) = some previous := hrow
      simpa [Graph.Ledger.unchanged?, hget, Option.filter_some] using hnew
    simp [hdiffers]

/-- What examining yields depends on what the ledger has for the file, and on nothing else that
is stored. -/
theorem examine_congr (hplan : b.plan = a.plan) (hfaults : b.faults = a.faults) (hnow : b.disk.now = a.disk.now)
    (hrow : ∀ repo, asKey o.repo = .ok repo →
      b.store.ledger.get? (repo, .str o.path) = a.store.ledger.get? (repo, .str o.path)) :
    b.examine parse o text = a.examine parse o text := by
  have hcheck : ∀ op, b.check op = a.check op := fun op => by
    unfold check
    rw [hfaults]
  have hfind : ∀ hash, b.findRow o.repo o.path hash = a.findRow o.repo o.path hash := fun hash => by
    unfold findRow
    rw [hcheck]
    cases hk : asKey o.repo with
    | error f => rfl
    | ok repo => simp only [asKey_str, Graph.Ledger.unchanged?, bind, Except.bind, hrow repo hk]
  unfold examine
  rw [hplan, hnow]
  simp only [hfind, hcheck]

/-! ## Indexing a text -/

theorem on_indexText_error {f : Failure} (h : a.examine parse o text = .error f) :
    (indexText parse o text true).on a = (.error f, a) := by
  simp [indexText, Act.on_bind, h]

theorem on_indexText_ok {x : Index.FileResult} (h : a.examine parse o text = .ok x)
    (hskip : ∀ language y, x ≠ .indexed language y) : (indexText parse o text true).on a = (.ok x, a) := by
  cases x with
  | indexed language y => exact absurd rfl (hskip language y)
  | _ => simp [indexText, Act.on_bind, h]

theorem on_indexText_indexed {language : Language} {y : Index.Yield}
    (h : a.examine parse o text = .ok (.indexed language y)) :
    (indexText parse o text true).on a = match (persist y).on a with
      | (.ok _, b) => (.ok (.indexed language y), b)
      | (.error f, b) => (.error f, b) := by
  simp only [indexText, Act.on_bind, Act.on_get, Act.on_ofOutcome, h, reduceIte]
  generalize (persist y).on a = r
  obtain ⟨o, b⟩ := r
  cases o <;> rfl

theorem of_indexText {x : Index.FileResult} (h : (indexText parse o text true).on a = (.ok x, b)) :
    a.examine parse o text = .ok x ∧ ((∀ language y, x ≠ .indexed language y) ∧ b = a ∨
      ∃ language y, x = .indexed language y ∧ (persist y).on a = (.ok (), b)) := by
  cases hx : a.examine parse o text with
  | error f =>
    rw [on_indexText_error hx] at h
    cases h
  | ok z =>
    by_cases hskip : ∀ language y, z ≠ .indexed language y
    · rw [on_indexText_ok hx hskip] at h
      cases h
      exact ⟨rfl, .inl ⟨hskip, rfl⟩⟩
    · simp only [ne_eq, not_forall, not_not] at hskip
      obtain ⟨language, y, rfl⟩ := hskip
      rw [on_indexText_indexed hx] at h
      generalize hp : (persist y).on a = r at h
      obtain ⟨o, c⟩ := r
      cases o with
      | error f => cases h
      | ok u =>
        cases h
        exact ⟨rfl, .inr ⟨language, y, rfl, hp⟩⟩

theorem eq_unchanged {x : Outcome Index.FileResult} {language : Language}
    (h : x.toOption.bind (fun r => if r.skipReason? = some "unchanged" then r.language? else none) =
      some language) :
    x = .ok (.unchanged language) := by
  cases x with
  | error f => cases h
  | ok r =>
    cases r with
    | unsupported => cases h
    | indexed l y => cases h
    | «unchanged» l =>
      obtain rfl := Option.some.inj h
      rfl

theorem eq_indexed {x : Outcome Index.FileResult} {language : Language}
    (h : x.toOption.bind (fun r => if r.skipReason?.isNone then r.language? else none) = some language) :
    ∃ y, x = .ok (.indexed language y) := by
  cases x with
  | error f => cases h
  | ok r =>
    cases r with
    | unsupported => cases h
    | «unchanged» l => cases h
    | indexed l y =>
      obtain rfl := Option.some.inj h
      exact ⟨y, rfl⟩

end SourceAtlas.Atlas

/-! ## Small files -/

namespace SourceAtlas.Sample

open Syntax (Tree)

def token (kind : String) (first stop : Nat) : Tree := .node { kind, first, stop, named := false } []

def function : String := "def f(): pass\n"

def functionTree : Tree :=
  .node { kind := "module", first := 0, stop := 14 } [
    .node { kind := "function_definition", first := 0, stop := 13 } [
      token "def" 0 3,
      .node { kind := "identifier", first := 4, stop := 5, field := some "name" } [],
      .node { kind := "parameters", first := 5, stop := 7, field := some "parameters" }
      [token "(" 5 6, token ")" 6 7],
      token ":" 7 8,
      .node { kind := "block", first := 9, stop := 13, field := some "body" } [
        .node { kind := "pass_statement", first := 9, stop := 13 } [token "pass" 9 13]]]]

def functionAt (n : Nat) : Tree :=
  .node { kind := "function_definition", first := n, stop := n + 13 } [
    token "def" n (n + 3),
    .node { kind := "identifier", first := n + 4, stop := n + 5, field := some "name" } [],
    .node { kind := "parameters", first := n + 5, stop := n + 7, field := some "parameters" } [
      token "(" (n + 5) (n + 6), token ")" (n + 6) (n + 7)],
    token ":" (n + 7) (n + 8),
    .node { kind := "block", first := n + 9, stop := n + 13, field := some "body" } [
      .node { kind := "pass_statement", first := n + 9, stop := n + 13 } [token "pass" (n + 9) (n + 13)]]]

def imports : String := "import os\n"

def importsTree : Tree :=
  .node { kind := "module", first := 0, stop := 10 } [
    .node { kind := "import_statement", first := 0, stop := 9 } [
      token "import" 0 6,
      .node { kind := "dotted_name", first := 7, stop := 9, field := some "name" } [
        .node { kind := "identifier", first := 7, stop := 9 } []]]]

def parse : Atlas.Parser := fun _ text =>
  ⟨if text == function then functionTree else if text == imports then importsTree
    else .node { kind := "module", first := 0, stop := 0 } [],
    fun _ => .node { kind := "inline", first := 0, stop := 0 } []⟩

def origin : Atlas.Origin := { workspace := "ws", repo := "repo", path := "a.py" }

def plan : Plan :=
  { embedder := fun text =>
      .ok { text, embedding := .list [.int 1], model := .null, dimensions := 1, tokens := .null } }

def disk : Disk := { directory := .ofString "data", clock := 0 }

def atlas : Atlas := .open plan disk

abbrev index (text : String) (a : Atlas) : Outcome Index.FileResult × Atlas :=
  (Atlas.indexText parse origin text true).on a

def functionYield : Index.Yield :=
  (Atlas.analyse plan 0 origin .python function "" (parse origin.path function)).toOption.getD {}

theorem functionYield_ok :
    Atlas.analyse plan 0 origin .python function "" (parse origin.path function) = .ok functionYield :=
  eq_ok ({} : Index.Yield) (by decide +kernel)

end SourceAtlas.Sample
