import SourceAtlas.Proofs.Examining
import SourceAtlas.Proofs.Surveys

/-!
# Failures before anything is stored

A call looks at its files first, then it embeds what they yield, and then it
stores. It fails in the first two parts for one of a few reasons, and leaves
everything as it was. So does a call that is not to keep what it finds.
-/

namespace SourceAtlas.Atlas

open Json (Value)

variable {a : Atlas} {parse : Parser} {f : Failure}

/-! ## Looking at texts -/

section

variable {o : Origin} {text : String}

def hashOf (a : Atlas) (text : String) : String := Index.hashBytes a.plan.hash (Text.encode text)

inductive Unexamined (a : Atlas) (parse : Parser) (o : Origin) (text : String) : Failure → Prop
  | lookingUp {language : Language} {f : Failure} (hlanguage : Language.ofPath? o.path = some language)
      (h : a.findRow o.repo o.path (a.hashOf text) = .error f) : Unexamined a parse o text f
  | parsing {language : Language} {f : Failure} (hlanguage : Language.ofPath? o.path = some language)
      (hnew : a.findRow o.repo o.path (a.hashOf text) = .ok none) (h : a.check (.parse o.path) = .error f) :
      Unexamined a parse o text f
  | extracting {language : Language} {f : Failure} (hlanguage : Language.ofPath? o.path = some language)
      (hnew : a.findRow o.repo o.path (a.hashOf text) = .ok none) (hparsed : a.check (.parse o.path) = .ok ())
      (h : analyse a.plan a.disk.now o language text (a.hashOf text) (parse o.path text) = .error f) :
      Unexamined a parse o text f

theorem examine_eq_error_iff : a.examine parse o text = .error f ↔ Unexamined a parse o text f := by
  unfold examine
  constructor
  · intro h
    cases hl : Language.ofPath? o.path with
    | none => rw [hl] at h; cases h
    | some language =>
      simp only [hl, bind_eq_error] at h
      obtain h | ⟨row, hrow, h⟩ := h
      · exact .lookingUp hl h
      · cases row with
        | some row => cases h
        | none =>
          simp only [Option.isSome_none, Bool.false_eq_true, reduceIte, bind_eq_error] at h
          obtain h | ⟨u, hparsed, h | ⟨y, -, h⟩⟩ := h
          · exact .parsing hl hrow h
          · exact .extracting hl hrow hparsed h
          · cases h
  · intro h
    cases h with
    | lookingUp hl h => simp only [hl, bind_eq_error]; exact .inl h
    | parsing hl hnew h =>
      simp only [hl, bind_eq_error]
      exact .inr ⟨none, hnew, by simpa [bind_eq_error] using .inl h⟩
    | extracting hl hnew hparsed h =>
      simp only [hl, bind_eq_error]
      refine .inr ⟨none, hnew, ?_⟩
      simp only [Option.isSome_none, Bool.false_eq_true, reduceIte, bind_eq_error]
      exact .inr ⟨(), hparsed, .inl h⟩

end

/-! ## Looking at files and repositories -/

def examineBelow (a : Atlas) (parse : Parser) (directory : Text.Path) (o : Origin) : Outcome Index.FileResult := do
  let path ← below directory (.ofString o.path)
  let text ← a.disk.files.readText (directory.join path)
  a.examine parse { o with path := path.toString } text

inductive Unread (a : Atlas) (parse : Parser) (directory : Text.Path) (o : Origin) : Failure → Prop
  | outside {f : Failure} (h : below directory (.ofString o.path) = .error f) : Unread a parse directory o f
  | reading {path : Text.Path} {f : Failure} (hpath : below directory (.ofString o.path) = .ok path)
      (h : a.disk.files.readText (directory.join path) = .error f) : Unread a parse directory o f
  | unexamined {path : Text.Path} {text : String} {f : Failure}
      (hpath : below directory (.ofString o.path) = .ok path)
      (htext : a.disk.files.readText (directory.join path) = .ok text)
      (h : Unexamined a parse { o with path := path.toString } text f) : Unread a parse directory o f

theorem examineBelow_eq_error_iff {directory : Text.Path} {o : Origin} :
    a.examineBelow parse directory o = .error f ↔ Unread a parse directory o f := by
  simp only [examineBelow, bind_eq_error, examine_eq_error_iff]
  constructor
  · rintro (h | ⟨path, hpath, h | ⟨text, htext, h⟩⟩)
    · exact .outside h
    · exact .reading hpath h
    · exact .unexamined hpath htext h
  · intro h
    cases h with
    | outside h => exact .inl h
    | reading hpath h => exact .inr ⟨_, hpath, .inl h⟩
    | unexamined hpath htext h => exact .inr ⟨_, hpath, .inr ⟨_, htext, h⟩⟩

section

variable {r : Index.Repository} {workspace : Value} {mode : Index.IndexMode} {cancelAfter : Option Nat}

/-- Whether pulling does not fail, if it is called for. -/
def Pulled (a : Atlas) (r : Index.Repository) (mode : Index.IndexMode) : Prop :=
  mode = .incremental → (a.checkoutOf r).pull.2 = .ok ()

/-- Why the files of a repository are not gone through. The run may be cancelled before any of them. -/
inductive Unsurveyed (a : Atlas) (r : Index.Repository) (mode : Index.IndexMode) (cancelAfter : Option Nat) :
    Failure → Prop
  | pulling {f : Failure} (hmode : mode = .incremental) (h : (a.checkoutOf r).pull.2 = .error f) :
      Unsurveyed a r mode cancelAfter f
  | listing {f : Failure} (hpulled : a.Pulled r mode) (h : (a.checkoutOf r).files = .error f) :
      Unsurveyed a r mode cancelAfter f
  | cancelled {files : List String} {n : Nat} (hpulled : a.Pulled r mode)
      (hfiles : (a.checkoutOf r).files = .ok files)
      (hcancel : cancelAfter = some n) (hn : n < files.length) :
      Unsurveyed a r mode cancelAfter (.cancelled r.id.toValue n)

/-- Unless a pull fails, files are looked at as in a full run. -/
theorem surveyed_of_pulled (hpulled : a.Pulled r mode) :
    a.surveyed parse r workspace mode cancelAfter = a.surveyed parse r workspace .full cancelAfter := by
  unfold surveyed
  rw [if_neg (show Index.IndexMode.full ≠ .incremental by decide)]
  by_cases hmode : mode = .incremental
  · rw [if_pos hmode, hpulled hmode]
    rfl
  · rw [if_neg hmode]

theorem surveyed_of_not_pulled (hmode : mode = .incremental) (h : (a.checkoutOf r).pull.2 = .error f) :
    a.surveyed parse r workspace mode cancelAfter = .error f := by
  unfold surveyed
  rw [if_pos hmode, h]
  rfl

/-- After pulling only the listing can fail, or the run is cancelled. -/
theorem surveyed_full_eq_error_iff : a.surveyed parse r workspace .full cancelAfter = .error f ↔
    (a.checkoutOf r).files = .error f ∨ ∃ files, (a.checkoutOf r).files = .ok files ∧
      ∃ n, cancelAfter = some n ∧ n < files.length ∧ .cancelled r.id.toValue n = f := by
  unfold surveyed
  rw [if_neg (by decide), bind_eq_error]
  exact or_congr_right (exists_congr fun files => and_congr_right fun _ => surveyedFiles_eq_error_iff)

theorem surveyed_eq_error_iff :
    a.surveyed parse r workspace mode cancelAfter = .error f ↔ Unsurveyed a r mode cancelAfter f := by
  constructor
  · intro h
    by_cases hpulled : a.Pulled r mode
    · rw [surveyed_of_pulled hpulled, surveyed_full_eq_error_iff] at h
      obtain h | ⟨files, hfiles, n, hcancel, hn, rfl⟩ := h
      · exact .listing hpulled h
      · exact .cancelled hpulled hfiles hcancel hn
    · obtain ⟨hmode, hfails⟩ := Classical.not_imp.1 hpulled
      cases hpull : (a.checkoutOf r).pull.2 with
      | error g =>
        obtain rfl : g = f := Except.error.inj ((surveyed_of_not_pulled hmode hpull).symm.trans h)
        exact .pulling hmode hpull
      | ok u => exact absurd hpull hfails
  · intro h
    cases h with
    | pulling hmode h => exact surveyed_of_not_pulled hmode h
    | listing hpulled h =>
      rw [surveyed_of_pulled hpulled]
      exact surveyed_full_eq_error_iff.2 (.inl h)
    | cancelled hpulled hfiles hcancel hn =>
      rw [surveyed_of_pulled hpulled]
      exact surveyed_full_eq_error_iff.2 (.inr ⟨_, hfiles, _, hcancel, hn, rfl⟩)

end

/-! ## Embedding -/

inductive Unembedded (a : Atlas) (chunks : List Chunk) : Failure → Prop
  | failing {f : Failure} (hsome : chunks ≠ []) (h : a.embedBatch (chunks.map (·.embeddingText)) = .error f) :
      Unembedded a chunks f
  | miscounted {results : List Embedding.Embedded} (hsome : chunks ≠ [])
      (hresults : a.embedBatch (chunks.map (·.embeddingText)) = .ok results)
      (hlength : results.length ≠ chunks.length) :
      Unembedded a chunks (.embedding (Embedding.totalLength (chunks.map (·.embeddingText)))
        (.badValue s!"Expected {chunks.length} embeddings, got {results.length}"))
  | malformed {results : List Embedding.Embedded} {f : Failure} (hsome : chunks ≠ [])
      (hresults : a.embedBatch (chunks.map (·.embeddingText)) = .ok results)
      (hlength : results.length = chunks.length)
      (h : (results.mapM fun e => members e.embedding) = .error f) : Unembedded a chunks f

theorem embedChunks_eq_error_iff {chunks : List Chunk} :
    a.embedChunks chunks = .error f ↔ Unembedded a chunks f := by
  unfold embedChunks
  by_cases hnone : chunks = []
  · subst hnone
    exact ⟨fun h => (by cases h), fun h => by cases h <;> contradiction⟩
  · simp only [List.isEmpty_iff, hnone, reduceIte, List.length_map, bind_eq_error]
    constructor
    · rintro (h | ⟨results, hresults, h⟩)
      · exact .failing hnone h
      · by_cases hlength : results.length = chunks.length
        · exact .malformed hnone hresults hlength (by simpa [hlength] using h)
        · rw [if_pos (by simpa using hlength)] at h
          obtain rfl := Except.error.inj h
          exact .miscounted hnone hresults hlength
    · intro h
      cases h with
      | failing _ h => exact .inl h
      | miscounted _ hresults hlength => exact .inr ⟨_, hresults, if_pos (by simpa using hlength)⟩
      | malformed _ hresults hlength h => exact .inr ⟨_, hresults, by simpa [hlength] using h⟩

/-! ## Calls -/

inductive Task where
  | text (o : Origin) (text : String)
  | file (directory : Text.Path) (o : Origin)
  | repository (r : Index.Repository) (workspace : Value) (mode : Index.IndexMode) (cancelAfter : Option Nat)

namespace Task

def act (parse : Parser) (keep : Bool) : Task → Act Atlas Unit
  | text o t => discard (indexText parse o t keep)
  | file directory o => discard (indexFile parse directory o keep)
  | repository r workspace mode cancelAfter => discard (indexRepository parse r workspace mode keep cancelAfter)

def found (parse : Parser) (a : Atlas) : Task → Outcome Index.Yield
  | text o t => Index.FileResult.yield <$> a.examine parse o t
  | file directory o => Index.FileResult.yield <$> a.examineBelow parse directory o
  | repository r workspace mode cancelAfter =>
    Index.Report.yield <$> ((survey parse r workspace mode cancelAfter).on a).1

def Unfound (parse : Parser) (a : Atlas) : Task → Failure → Prop
  | text o t => Unexamined a parse o t
  | file directory o => Unread a parse directory o
  | repository r _ mode cancelAfter => Unsurveyed a r mode cancelAfter

variable {keep : Bool} {t : Task}

theorem map_eq_error_iff {α β : Type} {g : α → β} {x : Outcome α} : g <$> x = .error f ↔ x = .error f := by
  cases x <;> simp [Functor.map, Except.map]

theorem found_eq_error_iff : t.found parse a = .error f ↔ t.Unfound parse a f := by
  cases t with
  | text o t => exact map_eq_error_iff.trans examine_eq_error_iff
  | file directory o => exact map_eq_error_iff.trans examineBelow_eq_error_iff
  | repository r workspace mode cancelAfter =>
    rw [found, on_survey]
    exact map_eq_error_iff.trans surveyed_eq_error_iff

/-- What is answered besides does not matter. -/
theorem discard_persist {α : Type} (y : Index.Yield) (x : α) (a : Atlas) :
    (discard (persist y >>= fun _ => pure x)).on a = (persist y).on a := by
  rw [Act.on_discard, Act.on_bind]
  cases (persist y).on a with | mk o b =>
  cases o <;> rfl

theorem on_text (o : Origin) (text : String) (parse : Parser) (keep : Bool) (a : Atlas) :
    (act parse keep (.text o text)).on a = match found parse a (.text o text) with
      | .ok y => if keep then (persist y).on a else (.ok (), a)
      | .error f => (.error f, a) := by
  unfold act found indexText
  rw [Act.on_discard, Act.on_bind, Act.on_get]
  dsimp only
  rw [Act.on_bind, Act.on_ofOutcome]
  cases a.examine parse o text with
  | error f => rfl
  | ok x =>
    cases x with
    | indexed language y =>
      cases keep with
      | false => rfl
      | true => exact (Act.on_discard _ a).symm.trans (discard_persist y _ a)
    | unsupported => cases keep <;> simp [Functor.map, Except.map, Index.FileResult.yield, on_persist_nil]
    | «unchanged» language => cases keep <;> simp [Functor.map, Except.map, Index.FileResult.yield, on_persist_nil]

/-- A call looks first, and then stores what it found, if it is to keep it. -/
theorem on_act (t : Task) (parse : Parser) (keep : Bool) (a : Atlas) :
    (t.act parse keep).on a = match t.found parse a with
      | .ok y => if keep then (persist y).on a else (.ok (), a)
      | .error f => (.error f, a) := by
  cases t with
  | text o text => exact on_text o text parse keep a
  | file directory o =>
    cases hpath : below directory (.ofString o.path) with
    | error f =>
      have hfound : found parse a (.file directory o) = .error f :=
        map_eq_error_iff.2 (examineBelow_eq_error_iff.2 (.outside hpath))
      rw [hfound]
      simp [act, indexFile, Act.on_discard, Act.on_bind, hpath]
    | ok path =>
      cases htext : a.disk.files.readText (directory.join path) with
      | error f =>
        have hfound : found parse a (.file directory o) = .error f :=
          map_eq_error_iff.2 (examineBelow_eq_error_iff.2 (.reading hpath htext))
        rw [hfound]
        simp [act, indexFile, Act.on_discard, Act.on_bind, hpath, htext]
      | ok text =>
        have hact : (act parse keep (.file directory o)).on a =
            (act parse keep (.text { o with path := path.toString } text)).on a := by
          simp [act, indexFile, Act.on_discard, Act.on_bind, hpath, htext]
        have hfound : found parse a (.file directory o) =
            found parse a (.text { o with path := path.toString } text) := by
          simp only [found, examineBelow, hpath, htext, bind, Except.bind]
        rw [hact, hfound, on_text]
  | repository r workspace mode cancelAfter =>
    rw [act, found, indexRepository, Act.on_discard, Act.on_bind, on_survey]
    cases a.surveyed parse r workspace mode cancelAfter with
    | error f => rfl
    | ok report =>
      cases keep with
      | false => rfl
      | true => exact (Act.on_discard _ a).symm.trans (discard_persist report.yield report a)

/-- A call that fails because it cannot look at its files, because it is cancelled or because it
cannot embed what it found leaves everything as it was. So does one that is not to keep anything,
also when it returns. All other failures are those of storing. -/
theorem nothing_stored_early (t : Task) (parse : Parser) (keep : Bool) (a : Atlas) :
    (∀ f, t.Unfound parse a f → (t.act parse keep).on a = (.error f, a)) ∧
      (∀ y f, t.found parse a = .ok y → a.Unembedded y.chunks f → (t.act parse true).on a = (.error f, a)) ∧
      ((t.act parse false).on a).2 = a ∧
      ∀ f b, (t.act parse keep).on a = (.error f, b) → t.Unfound parse a f ∧ b = a ∨
        keep = true ∧ ∃ y, t.found parse a = .ok y ∧ (a.Unembedded y.chunks f ∧ b = a ∨
          ∃ vs, a.embedChunks y.chunks = .ok vs ∧
            (storeChunks y.chunks vs y.rows >>= fun _ => storeEdges y.edges).on a = (.error f, b)) := by
  refine ⟨fun f hf => ?_, fun y f hy hf => ?_, ?_, fun f b h => ?_⟩
  · rw [on_act, found_eq_error_iff.2 hf]
  · rw [on_act, hy]
    exact on_persist_error (embedChunks_eq_error_iff.2 hf)
  · rw [on_act]
    cases t.found parse a <;> rfl
  · rw [on_act] at h
    cases hy : t.found parse a with
    | error g =>
      rw [hy] at h
      obtain ⟨hg, rfl⟩ := Prod.mk.inj h
      obtain rfl := Except.error.inj hg
      exact .inl ⟨found_eq_error_iff.1 hy, rfl⟩
    | ok y =>
      rw [hy] at h
      cases keep with
      | false => cases h
      | true =>
        refine .inr ⟨rfl, y, rfl, ?_⟩
        replace h : (persist y).on a = (.error f, b) := h
        cases hvs : a.embedChunks y.chunks with
        | error g =>
          obtain ⟨hg, rfl⟩ := Prod.mk.inj ((on_persist_error hvs).symm.trans h)
          obtain rfl := Except.error.inj hg
          exact .inl ⟨embedChunks_eq_error_iff.1 hvs, rfl⟩
        | ok vs => exact .inr ⟨vs, rfl, (on_persist hvs).symm.trans h⟩

end Task

end SourceAtlas.Atlas
