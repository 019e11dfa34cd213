import SourceAtlas.Atlas.Indexing
import SourceAtlas.Proofs.Acts
import SourceAtlas.Proofs.Reports

/-!
# Surveys

A survey takes the files of a repository one by one. None leaves anything behind that
a later one could see: whether it yields something, is skipped or fails, the
atlas is as it was. So the report is that of what each file comes to on the
atlas that the survey started from.
-/

namespace SourceAtlas.Atlas

open Json (Value Key)

variable {a : Atlas} {parse : Parser} {r : Index.Repository} {workspace : Value}

def examineFile (parse : Parser) (r : Index.Repository) (workspace : Value) (commit : String)
    (checkout : Index.Checkout) (a : Atlas) (path : String) : Outcome Index.FileResult := do
  a.examine parse (originIn r workspace commit path) (← checkout.read path)

def foundIn (parse : Parser) (r : Index.Repository) (workspace : Value) (a : Atlas) (files : List String) :
    List (String × Outcome Index.FileResult) :=
  let checkout := a.checkoutOf r
  files.map fun path => (path, examineFile parse r workspace checkout.commit checkout a path)

/-! ## One file -/

theorem on_indexText_kept (parse : Parser) (o : Origin) (text : String) (a : Atlas) :
    (indexText parse o text false).on a = (a.examine parse o text, a) := by
  rw [indexText, Act.on_bind, Act.on_get]
  dsimp only
  rw [Act.on_bind, Act.on_ofOutcome]
  cases a.examine parse o text with
  | error f => rfl
  | ok x => cases x <;> rfl

section
variable {checkout : Index.Checkout} {cancelAfter : Option Nat} {position : Nat} {path : String}
  {files : List String} {report : Index.Report}

theorem on_surveyFile : (surveyFile parse r workspace checkout path).on a =
    (examineFile parse r workspace checkout.commit checkout a path, a) := by
  rw [surveyFile, Act.on_bind, Act.on_ofOutcome, examineFile]
  cases checkout.read path with
  | error f => rfl
  | ok text => simp only [on_indexText_kept, bind, Except.bind]

/-- A file leaves the atlas as it was, and only its own outcome is entered. -/
theorem on_surveyFiles_cons (h : ∀ n, cancelAfter = some n → position < n) :
    (surveyFiles parse r workspace checkout cancelAfter position (path :: files) report).on a =
      (surveyFiles parse r workspace checkout cancelAfter (position + 1) files
        (report.enter path (examineFile parse r workspace checkout.commit checkout a path))).on a := by
  have hgo : cancelAfter.any (· ≤ position) = false := by
    cases cancelAfter with
    | none => rfl
    | some n => exact decide_eq_false (Nat.not_le.2 (h n rfl))
  simp only [surveyFiles, hgo, Bool.false_eq_true, if_false, Act.on_bind, Act.on_attempt, on_surveyFile]

theorem on_surveyFiles_cancelled {n : Nat} (h : cancelAfter = some n) (hn : n ≤ position) :
    (surveyFiles parse r workspace checkout cancelAfter position (path :: files) report).on a =
      (.error (.cancelled r.id.toValue position), a) := by
  simp only [surveyFiles, h, Option.any_some, decide_eq_true hn, if_true]
  rfl

/-! ## All files -/

theorem on_surveyFiles (h : ∀ n, cancelAfter = some n → position + files.length ≤ n) :
    (surveyFiles parse r workspace checkout cancelAfter position files report).on a =
      (.ok (report.enterAll (files.map fun path =>
        (path, examineFile parse r workspace checkout.commit checkout a path))), a) := by
  induction files generalizing position report with
  | nil => rfl
  | cons path files ih =>
    rw [on_surveyFiles_cons fun n hn => ?_, ih fun n hn => ?_]
    · rfl
    · have := h n hn
      rw [List.length_cons] at this
      omega
    · have := h n hn
      rw [List.length_cons] at this
      omega

theorem on_surveyFiles_of_cancel {n : Nat} (h : cancelAfter = some n) (hlow : position ≤ n)
    (hhigh : n < position + files.length) :
    (surveyFiles parse r workspace checkout cancelAfter position files report).on a =
      (.error (.cancelled r.id.toValue n), a) := by
  induction files generalizing position report with
  | nil => exact absurd hlow (Nat.not_le.2 hhigh)
  | cons path files ih =>
    rw [List.length_cons] at hhigh
    by_cases hn : n ≤ position
    · obtain rfl : n = position := Nat.le_antisymm hn hlow
      exact on_surveyFiles_cancelled h hn
    · have hnext : ∀ m, cancelAfter = some m → position < m := fun m hm =>
        Option.some.inj (h.symm.trans hm) ▸ Nat.not_le.1 hn
      rw [on_surveyFiles_cons hnext]
      exact ih (Nat.not_le.1 hn) (by omega)

end

/-! ## A whole survey -/

theorem cancelled_or_not (cancelAfter : Option Nat) (length : Nat) :
    (∃ n, cancelAfter = some n ∧ n < length) ∨ ∀ n, cancelAfter = some n → length ≤ n := by
  by_cases h : ∃ n, cancelAfter = some n ∧ n < length
  · exact .inl h
  · exact .inr fun n hn => Nat.not_lt.1 fun hlt => h ⟨n, hn, hlt⟩

def surveyedFiles (a : Atlas) (parse : Parser) (r : Index.Repository) (workspace : Value) (cancelAfter : Option Nat)
    (files : List String) : Outcome Index.Report :=
  match cancelAfter.filter (· < files.length) with
  | some n => throw (.cancelled r.id.toValue n)
  | none => pure (.ofFiles r.id (a.checkoutOf r).commit (foundIn parse r workspace a files))

theorem surveyedFiles_of_cancel {cancelAfter : Option Nat} {files : List String} {n : Nat}
    (h : cancelAfter = some n) (hn : n < files.length) :
    a.surveyedFiles parse r workspace cancelAfter files = .error (.cancelled r.id.toValue n) := by
  rw [surveyedFiles, h, Option.filter_some, decide_eq_true hn]
  rfl

theorem surveyedFiles_of_length_le {cancelAfter : Option Nat} {files : List String}
    (h : ∀ n, cancelAfter = some n → files.length ≤ n) :
    a.surveyedFiles parse r workspace cancelAfter files =
      .ok (.ofFiles r.id (a.checkoutOf r).commit (foundIn parse r workspace a files)) := by
  cases cancelAfter with
  | none => rfl
  | some n =>
    rw [surveyedFiles, Option.filter_some, decide_eq_false (Nat.not_lt.2 (h n rfl))]
    rfl

theorem surveyedFiles_eq_error_iff {cancelAfter : Option Nat} {files : List String} {f : Failure} :
    a.surveyedFiles parse r workspace cancelAfter files = .error f ↔
      ∃ n, cancelAfter = some n ∧ n < files.length ∧ .cancelled r.id.toValue n = f := by
  constructor
  · intro h
    rcases cancelled_or_not cancelAfter files.length with ⟨n, hcancel, hn⟩ | hgo
    · exact ⟨n, hcancel, hn, Except.error.inj ((surveyedFiles_of_cancel hcancel hn).symm.trans h)⟩
    · rw [surveyedFiles_of_length_le hgo] at h
      cases h
  · rintro ⟨n, hcancel, hn, rfl⟩
    exact surveyedFiles_of_cancel hcancel hn

theorem eq_of_surveyedFiles {cancelAfter : Option Nat} {files : List String} {report : Index.Report}
    (h : a.surveyedFiles parse r workspace cancelAfter files = .ok report) :
    report = .ofFiles r.id (a.checkoutOf r).commit (foundIn parse r workspace a files) := by
  unfold surveyedFiles at h
  split at h
  · cases h
  · exact (pure_eq_ok.1 h).symm

def surveyed (a : Atlas) (parse : Parser) (r : Index.Repository) (workspace : Value) (mode : Index.IndexMode)
    (cancelAfter : Option Nat) : Outcome Index.Report := do
  if mode = .incremental then (a.checkoutOf r).pull.2
  a.surveyedFiles parse r workspace cancelAfter (← (a.checkoutOf r).files)

theorem on_surveyFiles_listed (cancelAfter : Option Nat) (files : List String) :
    (surveyFiles parse r workspace (a.checkoutOf r) cancelAfter 0 files
      { repo := r.id, commit := (a.checkoutOf r).commit, total := files.length }).on a =
      (a.surveyedFiles parse r workspace cancelAfter files, a) := by
  have hlength : (foundIn parse r workspace a files).length = files.length := List.length_map _
  rcases cancelled_or_not cancelAfter files.length with ⟨n, hcancel, hn⟩ | hgo
  · rw [surveyedFiles_of_cancel hcancel hn]
    exact on_surveyFiles_of_cancel hcancel (Nat.zero_le n) (by rwa [Nat.zero_add])
  · rw [surveyedFiles_of_length_le hgo, Index.Report.ofFiles, hlength]
    exact on_surveyFiles fun n hn => (Nat.zero_add _).symm ▸ hgo n hn

theorem on_survey (parse : Parser) (r : Index.Repository) (workspace : Value) (mode : Index.IndexMode)
    (cancelAfter : Option Nat) (a : Atlas) :
    (survey parse r workspace mode cancelAfter).on a = (a.surveyed parse r workspace mode cancelAfter, a) := by
  rw [survey, Act.on_bind, Act.on_get, surveyed]
  dsimp only
  have hlisted : (Act.ofOutcome (a.checkoutOf r).files >>= fun files =>
      surveyFiles parse r workspace (a.checkoutOf r) cancelAfter 0 files
        { repo := r.id, commit := (a.checkoutOf r).commit, total := files.length }).on a =
      ((a.checkoutOf r).files >>= a.surveyedFiles parse r workspace cancelAfter, a) := by
    rw [Act.on_bind, Act.on_ofOutcome]
    cases (a.checkoutOf r).files with
    | error f => rfl
    | ok files => exact on_surveyFiles_listed cancelAfter files
  by_cases hmode : mode = .incremental
  · rw [if_pos hmode, if_pos hmode, Act.on_bind, Act.on_ofOutcome]
    cases (a.checkoutOf r).pull.2 with
    | error f => rfl
    | ok u => exact hlisted
  · rw [if_neg hmode, if_neg hmode]
    exact hlisted

/-! ## What a call surveyed -/

section
variable {b : Atlas} {mode : Index.IndexMode} {cancelAfter : Option Nat} {report : Index.Report}

theorem eq_of_surveyed (h : a.surveyed parse r workspace mode cancelAfter = .ok report) :
    ∃ files, (a.checkoutOf r).files = .ok files ∧
      report = .ofFiles r.id (a.checkoutOf r).commit (foundIn parse r workspace a files) := by
  rw [surveyed] at h
  split at h
  case' isTrue => obtain ⟨_, -, h⟩ := bind_eq_ok.1 h
  all_goals
    obtain ⟨files, hfiles, h⟩ := bind_eq_ok.1 h
    exact ⟨files, hfiles, eq_of_surveyedFiles h⟩

theorem of_indexRepository {keep : Bool}
    (h : (indexRepository parse r workspace mode keep cancelAfter).on a = (.ok report, b)) :
    a.surveyed parse r workspace mode cancelAfter = .ok report ∧
      (if keep then persist report.yield else pure ()).on a = (.ok (), b) := by
  obtain ⟨found, m, hfound, h⟩ := Act.bind_ok h
  rw [on_survey] at hfound
  obtain ⟨hsurvey, rfl⟩ := Prod.mk.inj hfound
  cases keep with
  | false =>
    obtain ⟨hsame, rfl⟩ := Prod.mk.inj h
    exact ⟨Except.ok.inj hsame ▸ hsurvey, rfl⟩
  | true =>
    obtain ⟨_, m, hpersist, h⟩ := Act.bind_ok h
    obtain ⟨hsame, rfl⟩ := Prod.mk.inj h
    obtain rfl := Except.ok.inj hsame
    exact ⟨hsurvey, hpersist⟩

theorem persist_of_indexRepository
    (h : (indexRepository parse r workspace mode true cancelAfter).on a = (.ok report, b)) :
    a.surveyed parse r workspace mode cancelAfter = .ok report ∧ (persist report.yield).on a = (.ok (), b) :=
  of_indexRepository h

end

end SourceAtlas.Atlas
