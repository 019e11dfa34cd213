import Mathlib.Algebra.GroupWithZero.Nat
import SourceAtlas.Index.Report
import SourceAtlas.Proofs.Maps

/-!
# What a report adds up to

Files are entered into a report one after the other, each as what came of it. What
the accumulators hold is told by the files entered so far: one more file keeps
the accounts in order, and so any number of files does.
-/

namespace SourceAtlas

namespace OrderedMap

variable {κ : Type} [BEq κ] [EquivBEq κ]

omit [EquivBEq κ] in
theorem replace_of_forall_ne {α : Type} {es : List (κ × α)} {k : κ} (h : ∀ e ∈ es, (e.1 == k) = false) (v : α) :
    replace es k v = es := by
  refine (List.map_congr_left fun e he => ?_).trans (List.map_id es)
  rw [if_neg (Bool.eq_false_iff.1 (h e he))]
  rfl

/-- By induction on the entries: the one that is counted up is the only one of its key. -/
theorem sum_replace {k : κ} {e : κ × Nat} : ∀ {es : List (κ × Nat)},
    (es.Pairwise fun a b => (a.1 == b.1) = false) → es.find? (·.1 == k) = some e →
      ((replace es k (e.2 + 1)).map Prod.snd).sum = (es.map Prod.snd).sum + 1
  | d :: es, hdistinct, hfind => by
    obtain ⟨hd, hes⟩ := List.pairwise_cons.1 hdistinct
    rw [List.find?_cons] at hfind
    cases hk : d.1 == k with
    | true =>
      rw [hk] at hfind
      obtain rfl := Option.some.inj hfind
      have hrest : replace es k (d.2 + 1) = es := replace_of_forall_ne (fun b hb => by
        rw [← BEq.congr_right hk]
        exact BEq.symm_false (hd b hb)) _
      show (if (d.1 == k) = true then d.2 + 1 else d.2) + ((replace es k (d.2 + 1)).map Prod.snd).sum = _
      rw [if_pos hk, hrest, List.map_cons, List.sum_cons]
      omega
    | false =>
      rw [hk] at hfind
      show (if (d.1 == k) = true then e.2 + 1 else d.2) + ((replace es k (e.2 + 1)).map Prod.snd).sum = _
      rw [if_neg (Bool.eq_false_iff.1 hk), sum_replace hes hfind, List.map_cons, List.sum_cons, Nat.add_assoc]

theorem sum_update (m : OrderedMap κ Nat) (k : κ) : (m.update k 0 (· + 1)).values.sum = m.values.sum + 1 := by
  rw [update, insert, values, values]
  split
  · rename_i hany
    obtain ⟨e, he⟩ := Option.isSome_iff_exists.1 (List.find?_isSome.trans List.any_eq_true.symm |>.2 hany)
    rw [get?, he]
    exact sum_replace m.distinct he
  · rename_i hany
    have hnone : m.get? k = none := by
      rw [← Option.not_isSome_iff_eq_none, ← contains_eq]
      exact hany
    rw [hnone, List.map_append, List.sum_append]
    rfl

end OrderedMap

namespace Atlas

/-! ## What files yield -/

theorem yield_append_nil (y : Index.Yield) : y.append {} = y := by
  simp [Index.Yield.append]

theorem nil_append_yield (y : Index.Yield) : Index.Yield.append {} y = y := rfl

theorem yield_append_assoc (x y z : Index.Yield) : (x.append y).append z = x.append (y.append z) := by
  simp [Index.Yield.append]

theorem foldl_append_yield : ∀ (ys : List Index.Yield) (x : Index.Yield),
    ys.foldl .append x = x.append (ys.foldl .append {})
  | [], x => (yield_append_nil x).symm
  | y :: ys, x => by
    rw [List.foldl_cons, List.foldl_cons, foldl_append_yield ys (x.append y),
      foldl_append_yield ys (Index.Yield.append {} y), yield_append_assoc, nil_append_yield]

def yieldOf (files : List (String × Outcome Index.FileResult)) : Index.Yield :=
  ((files.filterMap fun f => f.2.toOption).map Index.FileResult.yield).foldl .append {}

theorem yieldOf_error (path : String) (f : Failure) (files : List (String × Outcome Index.FileResult)) :
    yieldOf ((path, .error f) :: files) = yieldOf files := rfl

theorem yieldOf_ok (path : String) (x : Index.FileResult) (files : List (String × Outcome Index.FileResult)) :
    yieldOf ((path, .ok x) :: files) = x.yield.append (yieldOf files) :=
  foldl_append_yield _ x.yield

def yielded (x : Outcome Index.FileResult) : Index.Yield := (x.toOption.map Index.FileResult.yield).getD {}

theorem yieldOf_eq_flatMap : ∀ xs : List (String × Outcome Index.FileResult),
    yieldOf xs = ⟨xs.flatMap fun f => (yielded f.2).chunks, xs.flatMap fun f => (yielded f.2).edges,
      xs.flatMap fun f => (yielded f.2).rows⟩
  | [] => rfl
  | (path, .error f) :: xs => yieldOf_eq_flatMap xs
  | (path, .ok x) :: xs => by
    rw [yieldOf_ok, yieldOf_eq_flatMap xs]
    rfl

theorem yieldOf_concat (xs : List (String × Outcome Index.FileResult)) (path : String)
    (x : Outcome Index.FileResult) :
    yieldOf (xs ++ [(path, x)]) = (yieldOf xs).append (yielded x) := by
  simp [yieldOf_eq_flatMap, Index.Yield.append]

end Atlas

namespace Index

def Yield.Counted (y : Yield) : Prop :=
  ∃ counts : List Nat, y.rows.map (·.symbols) = counts.map (fun n : Nat => .int n) ∧ counts.sum = y.chunks.length

theorem Yield.Counted.append {x y : Yield} (hx : x.Counted) (hy : y.Counted) : (x.append y).Counted := by
  obtain ⟨ms, hms, hsum⟩ := hx
  obtain ⟨ns, hns, hsum'⟩ := hy
  refine ⟨ms ++ ns, ?_, ?_⟩
  · rw [Yield.append, List.map_append, List.map_append, hms, hns]
  · rw [Yield.append, List.sum_append, List.length_append, hsum, hsum']

def results (found : List (String × Outcome FileResult)) : List FileResult := found.filterMap fun f => f.2.toOption

def failures (found : List (String × Outcome FileResult)) : List (String × Failure) :=
  found.filterMap fun (path, result) => match result with
    | .error f => some (path, f)
    | .ok _ => none

section
variable (found : List (String × Outcome FileResult)) (path : String) (x : FileResult) (f : Failure)

@[simp] theorem results_concat_ok : results (found ++ [(path, .ok x)]) = results found ++ [x] := by
  simp [results, Except.toOption]

@[simp] theorem results_concat_error : results (found ++ [(path, .error f)]) = results found := by
  simp [results, Except.toOption]

@[simp] theorem failures_concat_ok : failures (found ++ [(path, .ok x)]) = failures found := by
  simp [failures]

@[simp] theorem failures_concat_error : failures (found ++ [(path, .error f)]) = failures found ++ [(path, f)] := by
  simp [failures]

end

namespace Report

/-! ## One file more -/

section
variable (r : Report) (l : Language) (y : Yield)

theorem add_unsupported : r.add .unsupported = { r with skipped := r.skipped + 1 } := rfl

theorem add_unchanged : r.add (.unchanged l) = { r.count l with skipped := r.skipped + 1 } := rfl

theorem add_indexed : r.add (.indexed l y) =
    { r.count l with
      indexed := r.indexed + 1, symbols := r.symbols + y.chunks.length, yield := r.yield.append y } := rfl

theorem sum_count : (r.count l).languages.values.sum = r.languages.values.sum + 1 :=
  OrderedMap.sum_update r.languages l.name

/-- Which run it is does not change as files are entered. -/
theorem run_enter (path : String) (x : Outcome FileResult) :
    (r.enter path x).repo = r.repo ∧ (r.enter path x).commit = r.commit ∧ (r.enter path x).total = r.total := by
  cases x with
  | error f => exact ⟨rfl, rfl, rfl⟩
  | ok x => cases x <;> exact ⟨rfl, rfl, rfl⟩

end

/-- What the accumulators of a report hold once files are entered. -/
structure Accounts (r : Report) (found : List (String × Outcome FileResult)) : Prop where
  files : found.length = r.indexed + r.skipped + r.errors.length
  indexed : r.indexed = (results found).countP (·.skipReason?.isNone)
  skipped : r.skipped = (results found).countP (·.skipReason?.isSome)
  errors : r.errors = failures found
  yield : r.yield = Atlas.yieldOf found
  symbols : r.symbols = r.yield.chunks.length
  languages : r.languages.values.sum = r.indexed + (results found).countP (·.skipReason? = some "unchanged")

variable {r : Report} {found : List (String × Outcome FileResult)}

theorem Accounts.enter_failed (h : r.Accounts found) (path : String) (f : Failure) :
    (r.enter path (.error f)).Accounts (found ++ [(path, .error f)]) where
  files := by simp [enter, h.files, Nat.add_assoc]
  indexed := by simp [enter, h.indexed]
  skipped := by simp [enter, h.skipped]
  errors := by simp [enter, h.errors]
  yield := by rw [Atlas.yieldOf_concat, ← h.yield]; exact (Atlas.yield_append_nil _).symm
  symbols := h.symbols
  languages := by simp [enter, h.languages]

theorem Accounts.enter_unsupported (h : r.Accounts found) (path : String) :
    (r.add .unsupported).Accounts (found ++ [(path, .ok .unsupported)]) where
  files := by rw [List.length_append, h.files]; simp only [add_unsupported, List.length_singleton]; omega
  indexed := by simp [add_unsupported, h.indexed, FileResult.skipReason?]
  skipped := by simp [add_unsupported, h.skipped, FileResult.skipReason?]
  errors := by simp [add_unsupported, h.errors]
  yield := by rw [Atlas.yieldOf_concat, ← h.yield]; exact (Atlas.yield_append_nil _).symm
  symbols := h.symbols
  languages := by simp [add_unsupported, h.languages, FileResult.skipReason?]

theorem Accounts.enter_unchanged (h : r.Accounts found) (path : String) (l : Language) :
    (r.add (.unchanged l)).Accounts (found ++ [(path, .ok (.unchanged l))]) where
  files := by rw [List.length_append, h.files]; simp only [add_unchanged, count, List.length_singleton]; omega
  indexed := by simp [add_unchanged, count, h.indexed, FileResult.skipReason?]
  skipped := by simp [add_unchanged, h.skipped, FileResult.skipReason?]
  errors := by simp [add_unchanged, count, h.errors]
  yield := by rw [Atlas.yieldOf_concat, ← h.yield]; exact (Atlas.yield_append_nil _).symm
  symbols := h.symbols
  languages := by
    rw [add_unchanged, sum_count, h.languages]
    simp [count, FileResult.skipReason?, Nat.add_assoc]

theorem Accounts.enter_indexed (h : r.Accounts found) (path : String) (l : Language) (y : Yield) :
    (r.add (.indexed l y)).Accounts (found ++ [(path, .ok (.indexed l y))]) where
  files := by rw [List.length_append, h.files]; simp only [add_indexed, count, List.length_singleton]; omega
  indexed := by simp [add_indexed, h.indexed, FileResult.skipReason?]
  skipped := by simp [add_indexed, count, h.skipped, FileResult.skipReason?]
  errors := by simp [add_indexed, count, h.errors]
  yield := by rw [Atlas.yieldOf_concat, ← h.yield]; rfl
  symbols := by simp [add_indexed, h.symbols, Yield.append]
  languages := by
    rw [add_indexed, sum_count, h.languages]
    simp [FileResult.skipReason?]
    omega

/-- One file more keeps the accounts in order, whatever came of it. -/
theorem Accounts.enter (h : r.Accounts found) (path : String) (x : Outcome FileResult) :
    (r.enter path x).Accounts (found ++ [(path, x)]) := by
  cases x with
  | error f => exact h.enter_failed path f
  | ok x =>
    cases x with
    | unsupported => exact h.enter_unsupported path
    | «unchanged» l => exact h.enter_unchanged path l
    | indexed l y => exact h.enter_indexed path l y

/-! ## Any number of files -/

def enterAll (r : Report) (found : List (String × Outcome FileResult)) : Report :=
  found.foldl (fun r f => r.enter f.1 f.2) r

theorem Accounts.enterAll (h : r.Accounts found) (more : List (String × Outcome FileResult)) :
    (r.enterAll more).Accounts (found ++ more) := by
  induction more generalizing r found with
  | nil => rwa [List.append_nil]
  | cons f more ih =>
    rw [List.append_cons]
    exact ih (h.enter f.1 f.2)

theorem run_enterAll (r : Report) (found : List (String × Outcome FileResult)) :
    (r.enterAll found).repo = r.repo ∧ (r.enterAll found).commit = r.commit ∧
    (r.enterAll found).total = r.total := by
  induction found generalizing r with
  | nil => exact ⟨rfl, rfl, rfl⟩
  | cons f found ih =>
    obtain ⟨hrepo, hcommit, htotal⟩ := ih (r.enter f.1 f.2)
    obtain ⟨hrepo', hcommit', htotal'⟩ := r.run_enter f.1 f.2
    exact ⟨hrepo.trans hrepo', hcommit.trans hcommit', htotal.trans htotal'⟩

def ofFiles (repo : Json.Key) (commit : String) (found : List (String × Outcome FileResult)) : Report :=
  enterAll { repo, commit, total := found.length } found

section
variable (repo : Json.Key) (commit : String) (found : List (String × Outcome FileResult))

theorem accounts_ofFiles : (ofFiles repo commit found).Accounts found := by
  have hnil : Accounts { repo, commit, total := found.length } [] := ⟨rfl, rfl, rfl, rfl, rfl, rfl, rfl⟩
  exact hnil.enterAll found

@[simp] theorem repo_ofFiles : (ofFiles repo commit found).repo = repo := (run_enterAll _ found).1

@[simp] theorem commit_ofFiles : (ofFiles repo commit found).commit = commit := (run_enterAll _ found).2.1

@[simp] theorem total_ofFiles : (ofFiles repo commit found).total = found.length := (run_enterAll _ found).2.2

@[simp] theorem yield_ofFiles : (ofFiles repo commit found).yield = Atlas.yieldOf found :=
  (accounts_ofFiles repo commit found).yield

theorem symbols_ofFiles : (ofFiles repo commit found).symbols = (ofFiles repo commit found).yield.chunks.length :=
  (accounts_ofFiles repo commit found).symbols

end

end Report

end Index

end SourceAtlas
