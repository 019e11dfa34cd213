import Mathlib.Data.String.Basic
import SourceAtlas.Index.Checkout
import SourceAtlas.Proofs.Owners

/-!
# Listings of directories

A listing that leaves out directories on its way has the same files as one
that goes everywhere and leaves out files afterwards. It has each of them once,
sorted.
-/

namespace SourceAtlas

structure FileTree.IsName (name : String) : Prop where
  ne_empty : name ≠ ""
  ne_dot : name ≠ "."
  noSlash : '/' ∉ name.toList

instance (name : String) : Decidable (FileTree.IsName name) :=
  decidable_of_iff (name ≠ "" ∧ name ≠ "." ∧ '/' ∉ name.toList)
    ⟨fun h => ⟨h.1, h.2.1, h.2.2⟩, fun h => ⟨h.ne_empty, h.ne_dot, h.noSlash⟩⟩

/-! ## Names in a path -/

namespace Text

open FileTree (IsName)

variable {names : List String}

theorem splitAt_join (hne : names ≠ []) (h : ∀ name ∈ names, IsName name) :
    (splitAt (· == '/') (String.intercalate "/" names).toList).map String.ofList = names := by
  have hsplit : (['/'].intercalate (names.map String.toList)).splitOn '/' = names.map String.toList := by
    apply List.splitOn_intercalate
    · intro cs hcs
      obtain ⟨name, hname, rfl⟩ := List.mem_map.1 hcs
      exact (h name hname).noSlash
    · simpa using hne
  rw [List.splitOn] at hsplit
  rw [splitAt_eq_splitOnP, String.toList_intercalate, show "/".toList = ['/'] from rfl, hsplit, List.map_map]
  simp [Function.comp_def]

theorem root_join (hne : names ≠ []) (h : ∀ name ∈ names, IsName name) :
    (Path.ofString (String.intercalate "/" names)).root = "" := by
  cases names with
  | nil => exact absurd rfl hne
  | cons name names =>
    have hname := h name List.mem_cons_self
    have hfirst : ∀ rest, (String.intercalate "/" (name :: names)).toList ≠ '/' :: rest := by
      intro rest hrest
      cases hcs : name.toList with
      | nil => exact hname.ne_empty (String.toList_eq_nil_iff.1 hcs)
      | cons c cs =>
        have hc : c = '/' := by
          cases names with
          | nil => simp_all
          | cons next names => simp_all [String.intercalate_cons_cons]
        exact hname.noSlash (by simp [hcs, hc])
    simp only [Path.ofString]
    split
    · exact absurd ‹_› (hfirst _)
    · exact absurd ‹_› (hfirst _)
    · exact absurd ‹_› (hfirst _)
    · rfl

theorem parts_join (hne : names ≠ []) (h : ∀ name ∈ names, IsName name) :
    (Path.ofString (String.intercalate "/" names)).parts = names := by
  have hkept : names.filter (fun p => p != "" && p != ".") = names := by
    apply List.filter_eq_self.2
    intro name hname
    simp [(h name hname).ne_empty, (h name hname).ne_dot]
  have hsegments : (Path.ofString (String.intercalate "/" names)).segments = names := by
    simp only [Path.ofString, splitAt_join hne h, hkept]
  simp [Path.parts, root_join hne h, hsegments]

theorem join_injOn : Set.InjOn (String.intercalate "/" ·) {names | names ≠ [] ∧ ∀ name ∈ names, IsName name} := by
  intro names hnames others hothers heq
  rw [← parts_join hnames.1 hnames.2, ← parts_join hothers.1 hothers.2]
  exact congrArg (fun s => (Path.ofString s).parts) heq

end Text

/-! ## Trees -/

namespace FileTree

mutual

/-- The entries of every directory have names, and no two of them the same. -/
def Proper : FileTree → Prop
  | .file _ => True
  | .dir es => ProperEntries es

def ProperEntries : List (String × FileTree) → Prop
  | [] => True
  | (name, t) :: es => IsName name ∧ (∀ e ∈ es, e.1 ≠ name) ∧ Proper t ∧ ProperEntries es

end

section
variable {skip : String → Bool} {es : List (String × FileTree)} {name : String} {names : List String} {t : FileTree}

theorem ProperEntries.of_mem (h : ProperEntries es) (hmem : (name, t) ∈ es) : IsName name ∧ Proper t := by
  induction es with
  | nil => cases hmem
  | cons e es ih =>
    obtain ⟨hname, -, ht, hes⟩ := h
    rcases List.mem_cons.1 hmem with rfl | hmem
    · exact ⟨hname, ht⟩
    · exact ih hes hmem

theorem ProperEntries.child?_eq_some (h : ProperEntries es) : (dir es).child? name = some t ↔ (name, t) ∈ es := by
  induction es with
  | nil => simp [child?, entries]
  | cons e es ih =>
    obtain ⟨-, hapart, -, hes⟩ := h
    have ih := ih hes
    simp only [child?, entries, List.find?_cons, List.mem_cons] at ih ⊢
    by_cases hname : e.1 = name
    · have hother : (name, t) ∉ es := fun hmem => hapart _ hmem hname.symm
      obtain ⟨first, c⟩ := e
      subst hname
      simp [hother, eq_comm]
    · have hne : (name, t) ≠ e := fun heq => hname (heq ▸ rfl)
      rw [beq_false_of_ne hname, ih]
      simp [hne]

/-- What a listing goes into: a file ends its path, and a directory that is not left out goes on. -/
theorem cons_mem_entryPaths : name :: names ∈ entryPaths skip es ↔
    ((∃ content, (name, file content) ∈ es) ∧ names = []) ∨
      skip name = false ∧ ∃ inner, (name, dir inner) ∈ es ∧ names ∈ entryPaths skip inner := by
  induction es with
  | nil => simp [entryPaths]
  | cons e es ih =>
    obtain ⟨first, t⟩ := e
    cases t with
    | file content =>
      simp [entryPaths, ih, exists_or, or_and_right, or_assoc]
    | dir inner =>
      simp only [entryPaths, List.mem_append, ih]
      by_cases hfirst : name = first
      · subst hfirst
        by_cases hskip : skip name = true
        · simp [hskip]
        · simp [hskip, or_and_right, exists_or, or_left_comm]
      · by_cases hskip : skip first = true
        · simp [hskip, hfirst]
        · simp [hskip, hfirst, Ne.symm hfirst]

theorem nil_notMem_entryPaths : [] ∉ entryPaths skip es := by
  induction es with
  | nil => simp [entryPaths]
  | cons e es ih =>
    obtain ⟨first, t⟩ := e
    cases t with
    | file content => simp [entryPaths, ih]
    | dir inner => by_cases hskip : skip first = true <;> simp [entryPaths, hskip, ih]

theorem notMem_entryPaths (hapart : ∀ e ∈ es, e.1 ≠ name) : name :: names ∉ entryPaths skip es := by
  intro h
  rcases cons_mem_entryPaths.1 h with ⟨⟨content, hmem⟩, -⟩ | ⟨-, inner, hmem, -⟩
  · exact hapart _ hmem rfl
  · exact hapart _ hmem rfl

theorem ProperEntries.isName_of_mem (hes : ProperEntries es) (h : names ∈ entryPaths skip es) :
    ∀ name ∈ names, IsName name := by
  induction names generalizing es with
  | nil => simp
  | cons name names ih =>
    rcases cons_mem_entryPaths.1 h with ⟨⟨content, hmem⟩, rfl⟩ | ⟨-, inner, hmem, hnames⟩
    · simpa using (hes.of_mem hmem).1
    · exact List.forall_mem_cons.2 ⟨(hes.of_mem hmem).1, ih (hes.of_mem hmem).2 hnames⟩

theorem ProperEntries.mem_entryPaths (hes : ProperEntries es) :
    names ∈ entryPaths (fun _ => false) es ↔ ∃ content, (dir es).at? names = some (file content) := by
  induction names generalizing es with
  | nil => simp [at?, nil_notMem_entryPaths]
  | cons name names ih =>
    rw [cons_mem_entryPaths]
    constructor
    · rintro (⟨⟨content, hmem⟩, rfl⟩ | ⟨-, inner, hmem, hnames⟩)
      · exact ⟨content, by simp [at?, hes.child?_eq_some.2 hmem]⟩
      · obtain ⟨content, hat⟩ := (ih (hes.of_mem hmem).2).1 hnames
        exact ⟨content, by simpa [at?, hes.child?_eq_some.2 hmem] using hat⟩
    · rintro ⟨content, hat⟩
      obtain ⟨t, ht, hat⟩ := Option.bind_eq_some_iff.1 hat
      have hmem := hes.child?_eq_some.1 ht
      cases t with
      | dir inner => exact .inr ⟨rfl, inner, hmem, (ih (hes.of_mem hmem).2).2 ⟨content, hat⟩⟩
      | file found =>
        cases names with
        | nil => exact .inl ⟨⟨found, hmem⟩, rfl⟩
        | cons next names => simp [at?, child?, entries] at hat

end

/-- What is left out on the way is what would be left out in the end. -/
theorem filter_entryPaths (skip : String → Bool) : ∀ es : List (String × FileTree),
    (entryPaths skip es).filter (fun names => !names.any skip) =
      (entryPaths (fun _ => false) es).filter (fun names => !names.any skip)
  | [] => by simp [entryPaths]
  | (name, .file content) :: es => by
    simp only [entryPaths, List.filter_cons, filter_entryPaths skip es]
  | (name, .dir inner) :: es => by
    have hinner := filter_entryPaths skip inner
    simp only [entryPaths, List.filter_append, filter_entryPaths skip es]
    congr 1
    -- below a directory that is left out every path has its name
    by_cases hskip : skip name = true
    · simp [hskip, List.filter_map, Function.comp_def]
    · simpa [hskip, List.filter_map, Function.comp_def] using congrArg (List.map (name :: ·)) hinner

theorem ProperEntries.nodup_entryPaths {skip : String → Bool} :
    ∀ {es : List (String × FileTree)}, ProperEntries es →
    (entryPaths skip es).Nodup
  | [], _ => by simp [entryPaths]
  | (name, .file content) :: es, h => by
    obtain ⟨-, hapart, -, hes⟩ := h
    rw [entryPaths, List.nodup_cons]
    exact ⟨notMem_entryPaths hapart, hes.nodup_entryPaths⟩
  | (name, .dir inner) :: es, h => by
    obtain ⟨-, hapart, hinner, hes⟩ := h
    have hinner : ((entryPaths skip inner).map (name :: ·)).Nodup := hinner.nodup_entryPaths.map List.cons_injective
    by_cases hskip : skip name = true
    · simpa [entryPaths, hskip] using hes.nodup_entryPaths
    · simp only [entryPaths, hskip]
      refine List.nodup_append.2 ⟨hinner, hes.nodup_entryPaths, fun path hpath other hother heq => ?_⟩
      obtain ⟨rest, -, rfl⟩ := List.mem_map.1 hpath
      exact notMem_entryPaths hapart (heq ▸ hother)

end FileTree

/-! ## Checkouts -/

namespace Index.Checkout

open FileTree (ProperEntries entryPaths)

variable {c : Checkout} {es : List (String × FileTree)} {names : List String}

theorem isIgnored_join (c : Checkout) (hes : ProperEntries es) {skip : String → Bool}
    (h : names ∈ entryPaths skip es) :
    c.isIgnored (String.intercalate "/" names) = names.any c.matchesSegment := by
  have hne : names ≠ [] := fun hnil => FileTree.nil_notMem_entryPaths (hnil ▸ h)
  rw [isIgnored, Text.parts_join hne (hes.isName_of_mem h)]

theorem listed_of_directory (hgit : c.git = none) (hfind : c.tree.find c.path = .ok (.dir es)) :
    c.listed = .ok ((entryPaths c.matchesSegment es).map (String.intercalate "/" ·)) := by
  simp [listed, hgit, hfind, FileTree.paths, pure, Except.pure]

theorem filter_isIgnored (c : Checkout) (hes : ProperEntries es) (skip : String → Bool) :
    ((entryPaths skip es).map (String.intercalate "/" ·)).filter (!c.isIgnored ·) =
      ((entryPaths skip es).filter (fun names => !names.any c.matchesSegment)).map (String.intercalate "/" ·) := by
  rw [List.filter_map]
  congr 1
  apply List.filter_congr
  intro names hnames
  simp [isIgnored_join c hes hnames]

/-- Pruning gives the listing that goes everywhere and leaves out files in the end. -/
theorem files_of_directory (hgit : c.git = none) (hfind : c.tree.find c.path = .ok (.dir es))
    (hes : ProperEntries es) :
    c.files = .ok (((((FileTree.dir es).paths fun _ => false).map (String.intercalate "/" ·)).filter
      (!c.isIgnored ·)).mergeSort (fun a b => a ≤ b)) := by
  rw [files, listed_of_directory hgit hfind, FileTree.paths, filter_isIgnored c hes, ← FileTree.filter_entryPaths,
    ← filter_isIgnored c hes]
  rfl

theorem nodup_join (hes : ProperEntries es) {skip : String → Bool} :
    ((entryPaths skip es).map (String.intercalate "/" ·)).Nodup := by
  apply hes.nodup_entryPaths.map_on
  intro names hnames others hothers heq
  have hne : ∀ {ns}, ns ∈ entryPaths skip es → ns ≠ [] := fun h hnil => FileTree.nil_notMem_entryPaths (hnil ▸ h)
  exact Text.join_injOn ⟨hne hnames, hes.isName_of_mem hnames⟩ ⟨hne hothers, hes.isName_of_mem hothers⟩ heq

theorem any_matchesSegment_open {path : Text.Path} {tree : FileTree} {git : Option GitState}
    {patterns : List String} :
    (!names.any («open» path tree git patterns).matchesSegment) = true ↔
      ∀ name ∈ names, ∀ p ∈ (if patterns = [] then defaultPatterns else patterns),
        Text.Glob.matches p name = false := by
  by_cases hpatterns : patterns = []
  · simp [matchesSegment, «open», hpatterns]
  · simp [matchesSegment, «open», hpatterns]

theorem pairwise_lt_mergeSort {files : List String} (h : files.Nodup) :
    (files.mergeSort (fun a b => a ≤ b)).Pairwise (· < ·) := by
  have hsorted : (files.mergeSort (fun a b => a ≤ b)).Pairwise (fun a b => decide (a ≤ b) = true) := by
    apply List.pairwise_mergeSort
    · intro a b c hab hbc
      simp only [decide_eq_true_eq] at hab hbc ⊢
      exact le_trans hab hbc
    · intro a b
      simpa using le_total a b
  have hnodup : (files.mergeSort (fun a b => a ≤ b)).Nodup := (List.mergeSort_perm files _).nodup_iff.2 h
  exact (hsorted.and hnodup).imp fun h => lt_of_le_of_ne (by simpa using h.1) h.2

/-- Without version control the files below a directory are listed that have no name to be left out in their
paths, each once, in the order of their code points; it makes no difference that the listing goes into no
directory with such a name. -/
theorem files_of_open {path : Text.Path} {tree : FileTree} (hfind : tree.find path = .ok (.dir es))
    (hproper : (FileTree.dir es).Proper) (patterns : List String) :
    ∃ listed, («open» path tree none patterns).files = .ok listed ∧
      listed = ((((FileTree.dir es).paths fun _ => false).map (String.intercalate "/" ·)).filter
        (!(«open» path tree none patterns).isIgnored ·)).mergeSort (fun a b => a ≤ b) ∧
      listed.Pairwise (· < ·) ∧
      ∀ file, file ∈ listed ↔ ∃ names content, (FileTree.dir es).at? names = some (.file content) ∧
        file = String.intercalate "/" names ∧
        ∀ name ∈ names, ∀ p ∈ (if patterns = [] then defaultPatterns else patterns),
          Text.Glob.matches p name = false := by
  have hes : ProperEntries es := hproper
  refine ⟨_, files_of_directory rfl hfind hes, rfl, ?_, fun file => ?_⟩
  · exact pairwise_lt_mergeSort ((nodup_join hes).filter _)
  · rw [List.mem_mergeSort, FileTree.paths, filter_isIgnored _ hes, List.mem_map]
    constructor
    · rintro ⟨names, hnames, rfl⟩
      obtain ⟨hnames, hkept⟩ := List.mem_filter.1 hnames
      obtain ⟨content, hat⟩ := hes.mem_entryPaths.1 hnames
      exact ⟨names, content, hat, rfl, any_matchesSegment_open.1 hkept⟩
    · rintro ⟨names, content, hat, rfl, hkept⟩
      have hnames := hes.mem_entryPaths.2 ⟨content, hat⟩
      exact ⟨names, List.mem_filter.2 ⟨hnames, any_matchesSegment_open.2 hkept⟩, rfl⟩

theorem files_of_open_among_packages :
    let es := [("src", FileTree.dir [("main.py", .file (.bytes [])), ("main.pyc", .file (.bytes []))]),
      ("node_modules", FileTree.dir [("left.js", .file (.bytes []))]), ("Makefile", .file (.bytes []))]
    let tree := FileTree.dir [("checkout", .dir es)]
    let path := Text.Path.ofString "checkout"
    tree.find path = .ok (.dir es) ∧ (FileTree.dir es).Proper ∧
      ∃ listed, («open» path tree none ["*.pyc", "node_modules"]).files = .ok listed ∧ listed.Pairwise (· < ·) ∧
        "src/main.py" ∈ listed := by
  intro es tree path
  have hfind : tree.find path = .ok (.dir es) := by rfl
  have hproper : (FileTree.dir es).Proper := by
    simp only [es, FileTree.Proper, ProperEntries]
    decide
  obtain ⟨listed, hfiles, -, hsorted, hmem⟩ := files_of_open hfind hproper ["*.pyc", "node_modules"]
  exact ⟨hfind, hproper, listed, hfiles, hsorted,
    (hmem _).2 ⟨["src", "main.py"], .bytes [], by rfl, by rfl, by decide⟩⟩

end Index.Checkout

end SourceAtlas
