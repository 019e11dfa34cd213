import SourceAtlas.Proofs.Examining
import SourceAtlas.Proofs.Surveys

/-!
# A run and its files

A run over a repository is a run over each of its files alone: what one file
comes to does not depend on the others, whether they yield something, are skipped
or fail. The numbers of the report are those of its files.
-/

namespace SourceAtlas

open Json (Value Record)

namespace Index.Report

variable {r : Report} {found : List (String × Outcome FileResult)}

/-- The numbers that a summary shows. -/
theorem Accounts.summary (h : r.Accounts found) (htotal : r.total = found.length) :
    ["total_files", "indexed_files", "skipped_files", "total_symbols"].map (Record.get? r.toRecord) =
      [r.indexed + r.skipped + r.errors.length, r.indexed, r.skipped, r.yield.chunks.length].map fun n : Nat =>
        some (.int n) := by
  rw [← h.symbols, ← h.files, ← htotal]
  rfl

end Index.Report

namespace Atlas

variable {a : Atlas} {parse : Parser}

def alone (a : Atlas) (parse : Parser) (r : Index.Repository) (workspace : Value) (path : String) :
    Outcome Index.FileResult := do
  let text ← (a.checkoutOf r).read path
  ((indexText parse (originIn r workspace (a.checkoutOf r).commit path) text false).on a).1

theorem alone_eq (a : Atlas) (parse : Parser) (r : Index.Repository) (workspace : Value) (path : String) :
    a.alone parse r workspace path =
      examineFile parse r workspace (a.checkoutOf r).commit (a.checkoutOf r) a path := by
  simp only [alone, on_indexText_kept]
  rfl

theorem foundIn_eq_map_alone (a : Atlas) (parse : Parser) (r : Index.Repository) (workspace : Value)
    (files : List String) :
    foundIn parse r workspace a files = files.map fun path => (path, a.alone parse r workspace path) :=
  List.map_congr_left fun path _ => by rw [alone_eq]

/-- The row of a file counts its chunks. -/
theorem counts_of_analyse {plan : Plan} {now : Int} {o : Origin} {language : Language} {text hash : String}
    {parsed : Parsed} {y : Index.Yield} (h : analyse plan now o language text hash parsed = .ok y) :
    y.rows.map (·.symbols) = [.int y.chunks.length] := by
  unfold analyse at h
  split at h
  · simp only [bind_eq_ok, pure_eq_ok, Prod.exists, Prod.mk.injEq] at h
    obtain ⟨cs, -, cs', es, ⟨rfl, rfl⟩, repo, -, rfl⟩ := h
    rfl
  · simp only [bind_eq_ok, pure_eq_ok, Prod.exists, Prod.mk.injEq] at h
    obtain ⟨symbols, -, cs, -, es, -, cs', es', ⟨rfl, rfl⟩, repo, -, rfl⟩ := h
    rfl

theorem counted_of_examine {o : Origin} {text : String} {x : Index.FileResult}
    (h : a.examine parse o text = .ok x) :
    x.yield.Counted := by
  cases x with
  | indexed language y =>
    obtain ⟨-, -, hy⟩ := examine_indexed h
    exact ⟨[y.chunks.length], counts_of_analyse hy, List.sum_singleton⟩
  | _ => exact ⟨[], rfl, rfl⟩

theorem counted_yieldOf (parse : Parser) (r : Index.Repository) (workspace : Value) (a : Atlas)
    (files : List String) :
    (yieldOf (foundIn parse r workspace a files)).Counted := by
  induction files with
  | nil => exact ⟨[], rfl, rfl⟩
  | cons path files ih =>
    rw [foundIn, List.map_cons]
    cases hx : examineFile parse r workspace (a.checkoutOf r).commit (a.checkoutOf r) a path with
    | error f =>
      rw [yieldOf_error]
      exact ih
    | ok x =>
      obtain ⟨text, -, hx⟩ := bind_eq_ok.1 hx
      rw [yieldOf_ok]
      exact (counted_of_examine hx).append ih

/-- A run that nothing stops comes to what its files come to alone, in the order of their listing,
and its numbers add up. -/
theorem indexRepository_accounts {r : Index.Repository} {workspace : Value} {mode : Index.IndexMode}
    {cancelAfter : Option Nat} {files : List String}
    (hmode : mode = .incremental → (a.checkoutOf r).pull.2 = .ok ())
    (hfiles : (a.checkoutOf r).files = .ok files) (hcancel : ∀ n, cancelAfter = some n → files.length ≤ n) :
    ∃ report, (indexRepository parse r workspace mode false cancelAfter).on a = (.ok report, a) ∧
      report.total = files.length ∧
      report.Accounts (files.map fun path => (path, a.alone parse r workspace path)) ∧
      report.errors = files.filterMap (fun path => match a.alone parse r workspace path with
        | .error f => some (path, f)
        | .ok _ => none) ∧
      report.yield.chunks = files.flatMap (fun path => (yielded (a.alone parse r workspace path)).chunks) ∧
      report.yield.edges = files.flatMap (fun path => (yielded (a.alone parse r workspace path)).edges) ∧
      report.yield.rows = files.flatMap (fun path => (yielded (a.alone parse r workspace path)).rows) ∧
      report.yield.Counted ∧
      ["total_files", "indexed_files", "skipped_files", "total_symbols"].map (Record.get? report.toRecord) =
        [report.indexed + report.skipped + report.errors.length, report.indexed, report.skipped,
          report.yield.chunks.length].map fun n : Nat => some (.int n) := by
  have hsurvey : a.surveyed parse r workspace mode cancelAfter =
      .ok (.ofFiles r.id (a.checkoutOf r).commit (foundIn parse r workspace a files)) := by
    have hlisted := @surveyedFiles_of_length_le a parse r workspace cancelAfter files hcancel
    by_cases h : mode = .incremental
    · rw [surveyed, if_pos h, hmode h, hfiles]
      exact hlisted
    · rw [surveyed, if_neg h, hfiles]
      exact hlisted
  have hreport : (indexRepository parse r workspace mode false cancelAfter).on a =
      (.ok (.ofFiles r.id (a.checkoutOf r).commit (foundIn parse r workspace a files)), a) := by
    rw [indexRepository, Act.on_bind, on_survey, hsurvey]
    rfl
  have hfound := foundIn_eq_map_alone a parse r workspace files
  have haccounts := Index.Report.accounts_ofFiles r.id (a.checkoutOf r).commit (foundIn parse r workspace a files)
  have htotal := Index.Report.total_ofFiles r.id (a.checkoutOf r).commit (foundIn parse r workspace a files)
  have hcounted := counted_yieldOf parse r workspace a files
  have hsummary := haccounts.summary htotal
  rw [← haccounts.yield] at hcounted
  refine ⟨_, hreport, htotal.trans (List.length_map _), hfound ▸ haccounts, ?_, ?_, ?_, ?_, hcounted, hsummary⟩
  · rw [haccounts.errors, hfound]
    exact List.filterMap_map
  all_goals
    rw [haccounts.yield, yieldOf_eq_flatMap, hfound]
    exact List.flatMap_map ..

/-- A checkout with a function, a file that is not source code, and a file that cannot be parsed. -/
theorem indexRepository_accounts_on_checkout :
    let r : Index.Repository := { id := .str "repo", workspace := "ws", name := "repo", path := .ofString "repo" }
    let files : FileTree := .dir [("repo", .dir [("a.py", .file (.bytes (Text.encode Sample.function))),
      ("b.txt", .file (.bytes [])), ("c.py", .file (.bytes []))])]
    let git : Index.GitState :=
      { head := some "c0ffee", remote := some true, listing := some "a.py\nb.txt\nc.py\n" }
    let a : Atlas := { Sample.atlas with
      disk := { Sample.disk with files, git := fun _ => some git }
      faults := [(.parse "c.py", .mishap .gitCommand)] }
    ∃ report, (indexRepository Sample.parse r "ws" .incremental false (some 3)).on a = (.ok report, a) ∧
      [report.total, report.indexed, report.skipped, report.symbols] = [3, 1, 1, 1] ∧
      report.errors.map Prod.fst = ["c.py"] ∧ report.yield.chunks.map (·.payload.symbolName) = ["f"] ∧
      report.languages.values.sum = 1 := by
  intro r files git a
  have hfiles : (a.checkoutOf r).files = .ok ["a.py", "b.txt", "c.py"] := by
    have hlisted : (a.checkoutOf r).listed = .ok ["a.py", "b.txt", "c.py"] :=
      congrArg Except.ok (by decide +kernel)
    have hkept : ["a.py", "b.txt", "c.py"].filter (!(a.checkoutOf r).isIgnored ·) = ["a.py", "b.txt", "c.py"] := by
      decide +kernel
    simp only [Index.Checkout.files, hlisted, bind, Except.bind, hkept]
    exact congrArg Except.ok (List.mergeSort_of_pairwise (by decide +kernel))
  obtain ⟨report, hreport, htotal, haccounts, herrors, hchunks, -, -, -, -⟩ :=
    @indexRepository_accounts a Sample.parse r "ws" .incremental (some 3) _ (fun _ => rfl) hfiles (by simp)
  have hindexed : report.indexed = 1 := by
    rw [haccounts.indexed]
    decide +kernel
  have hskipped : report.skipped = 1 := by
    rw [haccounts.skipped]
    decide +kernel
  have hnames : report.yield.chunks.map (·.payload.symbolName) = ["f"] := by
    rw [hchunks]
    decide +kernel
  have hsymbols : report.symbols = 1 := by
    rw [haccounts.symbols, ← List.length_map (·.payload.symbolName), hnames]
    rfl
  refine ⟨report, hreport, ?_, ?_, hnames, ?_⟩
  · rw [htotal, hindexed, hskipped, hsymbols]
    rfl
  · rw [herrors]
    decide +kernel
  · rw [haccounts.languages, hindexed]
    decide +kernel

end Atlas

end SourceAtlas
