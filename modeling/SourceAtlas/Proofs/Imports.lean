import SourceAtlas.Proofs.Ties

/-!
# Imports that name nothing

Most imports may name a module by an empty path, and then tie nothing. But a statement with its module
in quotes and a directive with the module as its last name are taken as they stand. An edge needs two ends
with content, so if one of these names nothing, its file has no edges at all.
-/

namespace SourceAtlas

open Json (Value)
open Syntax (Source Cursor Tree)

namespace Dependency

variable {language : Language} {g : Grammar} {src : Source} {tree : Tree} {symbols : List Symbol}
  {file : FileIdentity} {c : Cursor}

/-! ## Paths of modules -/

def quoted? (c : Cursor) : Option Cursor :=
  if c.kind == "import_statement" || c.kind == "export_statement" then c.child? "source" else none

def lastName? (c : Cursor) : Option Cursor :=
  (c.namedChildren.filter fun d => d.kind == "qualified_name" || d.kind == "identifier").getLast?

def modulePaths (src : Source) (c : Cursor) : List String :=
  match quoted? c with
  | some path => [unquote (path.text src)]
  | none =>
    match c.kind with
    | "import_statement" => (c.childrenIn "name").map fun n =>
      (if n.kind == "aliased_import" then (n.child? "name").getD n else n).text src
    | "import_from_statement" => [c.fieldText src "module_name"]
    | "import_spec" | "preproc_include" => [unquote (c.fieldText src "path")]
    | "using_directive" => ((lastName? c).map (·.text src)).toList
    | _ => []

def takenAsIs (c : Cursor) : Bool := (quoted? c).isSome || c.kind == "using_directive"

theorem mem_nonEmpty {name : String} {names : List String} : name ∈ nonEmpty names ↔ name ≠ "" ∧ name ∈ names := by
  rw [nonEmpty, List.mem_filter, bne_iff_ne, and_comm]

theorem importTargets_eq (src : Source) (c : Cursor) :
    importTargets src c = if takenAsIs c then modulePaths src c else nonEmpty (modulePaths src c) := by
  unfold importTargets modulePaths takenAsIs
  change (match quoted? c with | some path => _ | none => _) = _
  cases hquoted : quoted? c with
  | some path => rfl
  | none =>
    dsimp only
    split
    · simp [*]
    · simp [*]
    · simp [*]
    · simp [*]
    · rename_i hkind
      simp only [hkind, beq_self_eq_true, Bool.or_true, if_true]
      change (match lastName? c with | some name => _ | none => _) = _
      cases lastName? c <;> rfl
    · simp [nonEmpty]

theorem empty_mem_importTargets_iff : "" ∈ importTargets src c ↔ takenAsIs c ∧ "" ∈ modulePaths src c := by
  rw [importTargets_eq]
  split
  · rename_i has
    simp [has]
  · rename_i has
    simp [mem_nonEmpty, has]

theorem mem_importTargets_iff {target : String} (htarget : target ≠ "") :
    target ∈ importTargets src c ↔ target ∈ modulePaths src c := by
  rw [importTargets_eq]
  split
  · rfl
  · simp [mem_nonEmpty, htarget]

def Nameless (src : Source) (c : Cursor) : Prop := takenAsIs c ∧ "" ∈ modulePaths src c

instance : Decidable (Nameless src c) := inferInstanceAs (Decidable (_ ∧ _))

theorem namesImports_iff : NamesImports g src c ↔ ¬ (g.imports.contains c.kind ∧ Nameless src c) := by
  rw [NamesImports, empty_mem_importTargets_iff]
  exact not_and.symm

/-! ## Failures -/

def endless : Failure := .badValue "Edge endpoints must be non-empty"

theorem Tie.make_error {t : Tie} {f : Failure}
    (h : Edge.make t.source t.target t.type (.float t.confidence) = .error f) :
    f = endless := by
  by_cases hends : t.source ≠ "" ∧ t.target ≠ ""
  · obtain ⟨e, he, -⟩ := Tie.make_shows hends.1 hends.2
    rw [he] at h
    cases h
  · have hempty : ¬ ((Value.str t.source).truthy ∧ (Value.str t.target).truthy) := by
      simpa [Value.truthy] using hends
    rw [Edge.make, dif_neg hempty] at h
    exact (Except.error.inj h).symm

theorem edgesAt_error {f : Failure} (hg : grammar? language = some g)
    (h : edgesAt g src (scopesOf symbols) file c = .error f) : f = endless := by
  rw [edgesAt_eq hg] at h
  exact mapM_error (fun t f => Tie.make_error) h

theorem edgesAt_ok_iff (hg : grammar? language = some g) :
    (∃ es, edgesAt g src (scopesOf symbols) file c = .ok es) ↔ NamesImports g src c := by
  constructor
  · rintro ⟨es, hes⟩ himports hempty
    rw [edgesAt_eq hg] at hes
    have hties : ⟨fileNode, "", .imports⟩ ∈ tiesAt g src symbols file c :=
      mem_tiesAt.2 (.inl ⟨himports, "", hempty, rfl⟩)
    obtain ⟨e, -, hmake⟩ := exists_of_mem_left (mapM_ok_iff.1 hes) hties
    obtain ⟨-, htarget, -⟩ := of_make hmake
    have htruthy := e.target_truthy
    rw [htarget] at htruthy
    cases htruthy
  · intro hnames
    obtain ⟨es, hes, -⟩ := edgesAt_shows hg hnames
    exact ⟨es, hes⟩

theorem edgesOf_eq (hg : grammar? language = some g) : edgesOf language src tree symbols file =
    (Cursor.root tree).walk.foldlM (fun edges c => do
      return (← edgesAt g src (scopesOf symbols) file c).foldl addNew edges) [] := by
  rw [edgesOf, hg]

theorem edgesOf_error {f : Failure} (hg : grammar? language = some g)
    (h : edgesOf language src tree symbols file = .error f) : f = endless := by
  rw [edgesOf_eq hg] at h
  refine foldlM_error (fun edges c f hstep => ?_) h
  rcases bind_eq_error.1 hstep with hstep | ⟨es, -, hstep⟩
  · exact edgesAt_error hg hstep
  · cases hstep

/-- A fold that adds what each node gives rise to has gone through all nodes. -/
theorem ok_of_foldlM {cs : List Cursor} : ∀ {start out : List Edge},
    cs.foldlM (fun edges c => do return (← edgesAt g src (scopesOf symbols) file c).foldl addNew edges)
      start = .ok out →
      ∀ c ∈ cs, ∃ es, edgesAt g src (scopesOf symbols) file c = .ok es := by
  induction cs with
  | nil =>
    intro start out _ c hc
    cases hc
  | cons d cs ih =>
    intro start out h
    rw [List.foldlM_cons] at h
    obtain ⟨next, hstep, hrest⟩ := bind_eq_ok.1 h
    obtain ⟨es, hes, -⟩ := bind_eq_ok.1 hstep
    exact List.forall_mem_cons.2 ⟨⟨es, hes⟩, ih hrest⟩

theorem names_of_edgesOf {es : List Edge} (hg : grammar? language = some g)
    (h : edgesOf language src tree symbols file = .ok es) :
    ∀ c ∈ (Cursor.root tree).walk, NamesImports g src c := by
  rw [edgesOf_eq hg] at h
  intro c hc
  exact (edgesAt_ok_iff hg).1 (ok_of_foldlM h c hc)

/-! ## Edges of imports -/

theorem edgesOf_of_names (hg : grammar? language = some g)
    (hnames : ∀ c ∈ (Cursor.root tree).walk, NamesImports g src c) :
    ∃ es, edgesOf language src tree symbols file = .ok es ∧
      List.Forall₂ Tie.Shows ((tiesOf g src tree symbols file).foldl addTie []) es := by
  rw [edgesOf_eq hg]
  exact shows_foldlM hg hnames .nil

theorem mem_foldl_addTie {ts : List Tie} {t : Tie} : t ∈ ts.foldl addTie [] ↔ t ∈ ts := by
  rw [foldl_addTie_nil, List.mem_eraseDups]

theorem import_mem_tiesOf {target : String} : ⟨fileNode, target, .imports⟩ ∈ tiesOf g src tree symbols file ↔
    ∃ c ∈ (Cursor.root tree).walk, g.imports.contains c.kind ∧ target ∈ importTargets src c := by
  rw [tiesOf, List.mem_flatMap]
  refine exists_congr fun c => and_congr_right fun _ => ?_
  rw [mem_tiesAt]
  constructor
  · rintro (⟨himports, target', htarget, htie⟩ | ⟨s, -, htie⟩)
    · obtain rfl : target' = target := congrArg Tie.target htie
      exact ⟨himports, htarget⟩
    · cases congrArg Tie.type htie
  · rintro ⟨himports, htarget⟩
    exact .inl ⟨himports, target, htarget, rfl⟩

theorem source_of_import {t : Tie} (ht : t ∈ tiesOf g src tree symbols file) (htype : t.type = .imports) :
    t = ⟨fileNode, t.target, .imports⟩ := by
  obtain ⟨c, -, ht⟩ := List.mem_flatMap.1 ht
  rcases mem_tiesAt.1 ht with ⟨-, target, -, rfl⟩ | ⟨s, -, rfl⟩
  · rfl
  · cases htype

theorem exists_import_iff {es : List Edge} {target : String} (hg : grammar? language = some g)
    (h : edgesOf language src tree symbols file = .ok es) :
    (∃ e ∈ es, e.type = .imports ∧ e.target = .str target) ↔
      target ≠ "" ∧ ∃ c ∈ (Cursor.root tree).walk, g.imports.contains c.kind ∧ target ∈ modulePaths src c := by
  have hnames := names_of_edgesOf hg h
  obtain ⟨es', hes', hshows⟩ := @edgesOf_of_names language g src tree symbols file hg hnames
  obtain rfl := Except.ok.inj (hes'.symm.trans h)
  constructor
  · rintro ⟨e, he, htype, htarget⟩
    obtain ⟨t, ht, hshown⟩ := exists_of_mem_right hshows he
    rw [mem_foldl_addTie] at ht
    obtain rfl : t.target = target := Value.str.inj (hshown.target.symm.trans htarget)
    have hempty : t.target ≠ "" := by
      have htruthy := e.target_truthy
      rw [htarget] at htruthy
      simpa [Value.truthy] using htruthy
    rw [source_of_import ht (hshown.type.symm.trans htype)] at ht
    obtain ⟨c, hc, himports, hmem⟩ := import_mem_tiesOf.1 ht
    exact ⟨hempty, c, hc, himports, (mem_importTargets_iff hempty).1 hmem⟩
  · rintro ⟨hempty, c, hc, himports, hmem⟩
    have ht : ⟨fileNode, target, .imports⟩ ∈ tiesOf g src tree symbols file :=
      import_mem_tiesOf.2 ⟨c, hc, himports, (mem_importTargets_iff hempty).2 hmem⟩
    obtain ⟨e, he, hshown⟩ := exists_of_mem_left hshows (mem_foldl_addTie.2 ht)
    exact ⟨e, he, hshown.type, hshown.target⟩

/-- A file has edges unless one of its imports is taken as nothing. They lead to all modules that are
named by a path with content, so that an import adds none for an empty path. -/
theorem edgesOf_returns_iff (language : Language) (g : Grammar) (hg : grammar? language = some g) (src : Source)
    (tree : Tree) (symbols : List Symbol) (file : FileIdentity) :
    ((∃ es, edgesOf language src tree symbols file = .ok es) ↔
      ∀ c ∈ (Cursor.root tree).walk, ¬ (g.imports.contains c.kind ∧ Nameless src c)) ∧
    (∀ f, edgesOf language src tree symbols file = .error f → f = .badValue "Edge endpoints must be non-empty") ∧
    ∀ es, edgesOf language src tree symbols file = .ok es → ∀ target,
      (∃ e ∈ es, e.type = .imports ∧ e.target = .str target) ↔
        target ≠ "" ∧ ∃ c ∈ (Cursor.root tree).walk, g.imports.contains c.kind ∧ target ∈ modulePaths src c := by
  refine ⟨⟨?_, fun hnames => ?_⟩, fun f => edgesOf_error hg, fun es hes target => exists_import_iff hg hes⟩
  · rintro ⟨es, hes⟩ c hc
    exact namesImports_iff.1 (names_of_edgesOf hg hes c hc)
  · obtain ⟨es, hes, -⟩ := @edgesOf_of_names language g src tree symbols file hg fun c hc =>
      namesImports_iff.2 (hnames c hc)
    exact ⟨es, hes⟩

end Dependency

/-! Imports of an empty path: one of two in a Go file, and the only one of a script. -/

namespace Sample

def goText : Source := ⟨Text.encode "package a\nimport \"\"\nimport \"os\"\n"⟩

def importDeclaration (first stop : Nat) (content : List Tree) : Tree :=
  .node { kind := "import_declaration", first, stop } [
    token "import" first (first + 6),
    .node { kind := "import_spec", first := first + 7, stop } [
      .node { kind := "interpreted_string_literal", first := first + 7, stop, field := some "path" }
        (token "\"" (first + 7) (first + 8) :: content ++ [token "\"" (stop - 1) stop])]]

def goTree : Tree :=
  .node { kind := "source_file", first := 0, stop := 32 } [
    .node { kind := "package_clause", first := 0, stop := 9 } [
      token "package" 0 7, .node { kind := "package_identifier", first := 8, stop := 9 } []],
    importDeclaration 10 19 [],
    importDeclaration 20 31 [.node { kind := "interpreted_string_literal_content", first := 28, stop := 30 } []]]

def scriptText : Source := ⟨Text.encode "import \"\";\n"⟩

def scriptTree : Tree :=
  .node { kind := "program", first := 0, stop := 11 } [
    .node { kind := "import_statement", first := 0, stop := 10 } [
      token "import" 0 6,
      .node { kind := "string", first := 7, stop := 9, field := some "source" } [token "\"" 7 8, token "\"" 8 9],
      token ";" 9 10]]

end Sample

namespace Dependency

theorem edgesOf_returns_beside_empty_path :
    ∃ es, edgesOf .go Sample.goText Sample.goTree [] ⟨"ws", "repo", "a.go"⟩ = .ok es ∧
      ∀ target, (∃ e ∈ es, e.type = .imports ∧ e.target = .str target) ↔ target = "os" := by
  obtain ⟨hreturns, -, himports⟩ :=
    edgesOf_returns_iff .go _ rfl Sample.goText Sample.goTree [] ⟨"ws", "repo", "a.go"⟩
  obtain ⟨es, hes⟩ := hreturns.2 (by decide +kernel)
  have hpaths : ((Cursor.root Sample.goTree).walk.filter fun c => c.kind == "import_spec").flatMap
    (modulePaths Sample.goText) =
      ["", "os"] := by
    decide +kernel
  have hmem : ∀ target, (∃ c ∈ (Cursor.root Sample.goTree).walk,
      c.kind = "import_spec" ∧ target ∈ modulePaths Sample.goText c) ↔ target ∈ ["", "os"] := by
    simp [← hpaths, List.mem_flatMap, and_assoc]
  refine ⟨es, hes, fun target => (himports es hes target).trans ⟨?_, ?_⟩⟩
  · rintro ⟨hempty, c, hc, himport, htarget⟩
    have hlisted := (hmem target).1 ⟨c, hc, by simpa using himport, htarget⟩
    simpa [hempty] using hlisted
  · rintro rfl
    obtain ⟨c, hc, hkind, htarget⟩ := (hmem "os").2 (by decide)
    exact ⟨by decide, c, hc, by simpa using hkind, htarget⟩

theorem edgesOf_fails_on_empty_source :
    edgesOf .javascript Sample.scriptText Sample.scriptTree [] ⟨"ws", "repo", "a.js"⟩ =
    .error (.badValue "Edge endpoints must be non-empty") := by
  have hfails : (edgesOf .javascript Sample.scriptText Sample.scriptTree [] ⟨"ws", "repo", "a.js"⟩).toBool =
      false := by
    decide +kernel
  obtain ⟨f, hf⟩ := eq_error hfails
  obtain rfl := edgesOf_error rfl hf
  exact hf

end Dependency

end SourceAtlas
