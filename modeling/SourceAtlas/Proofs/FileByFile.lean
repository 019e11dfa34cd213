import SourceAtlas.Proofs.Batches
import SourceAtlas.Proofs.JobOutcomes
import SourceAtlas.Proofs.Surveys

/-!
# Indexing a repository file by file

Indexing a repository, running a job for it, and indexing its files one after
the other all end with the same stores. The files may be new, changed or
unchanged, and any of them may fail.
-/

namespace SourceAtlas.Atlas

open Json (Value Key)

variable {a b c : Atlas}

/-! ## Files of one run -/

section
variable (parse : Parser) (r : Index.Repository) (workspace : Value) (commit : String) (checkout : Index.Checkout)

def indexListed (path : String) : Act Atlas Index.FileResult := do
  let text ← Act.ofOutcome (checkout.read path)
  indexText parse (originIn r workspace commit path) text true

def indexEach : List String → Act Atlas (List (String × Outcome Index.FileResult))
  | [] => pure []
  | path :: paths => do
    let result ← Act.attempt (indexListed parse r workspace commit checkout path)
    return (path, result) :: (← indexEach paths)

variable {parse r workspace commit checkout}

theorem file_ne (repo : Key) {p q : String} (h : p ≠ q) :
    (((repo, .str p) : FileKey) == (repo, .str q)) = false := by
  refine Bool.eq_false_iff.2 fun heq => h ?_
  exact Key.str.inj ((Key.beq_str _ _).1 ((beq_pair _ _).1 heq).2)

theorem row_of_examineFile {path : String} {language : Language} {y : Index.Yield}
    (h : examineFile parse r workspace commit checkout a path = .ok (.indexed language y)) :
    ∃ row, y.rows = [row] ∧ row.file = (r.id, .str path) ∧ ∀ ch ∈ y.chunks, ch.file = row.file := by
  obtain ⟨text, -, h⟩ := bind_eq_ok.1 h
  obtain ⟨-, -, hy⟩ := examine_indexed h
  obtain ⟨-, hchunks, row, hrows, hrepo, hpath, -⟩ := analyse_ok hy
  have hid : r.id = row.repo := Except.ok.inj ((asKey_toValue r.id).symm.trans hrepo)
  refine ⟨row, hrows, ?_, fun ch hch => file_of_isFrom (hchunks ch hch) hrepo hpath⟩
  rw [Graph.LedgerRow.file, ← hid, hpath]
  rfl

theorem rows_of_yieldOf : ∀ {paths : List String} {row : Graph.LedgerRow},
    row ∈ (yieldOf (paths.map fun path => (path, examineFile parse r workspace commit checkout a path))).rows →
      ∃ path ∈ paths, row.file = (r.id, .str path)
  | [], _, h => absurd h List.not_mem_nil
  | path :: paths, row, h => by
    rw [List.map_cons] at h
    have hrest : row ∈ (yieldOf (paths.map fun path =>
        (path, examineFile parse r workspace commit checkout a path))).rows →
        ∃ p ∈ path :: paths, row.file = (r.id, .str p) := fun h => by
      obtain ⟨p, hp, hrow⟩ := rows_of_yieldOf h
      exact ⟨p, List.mem_cons_of_mem _ hp, hrow⟩
    cases hx : examineFile parse r workspace commit checkout a path with
    | error f =>
      rw [hx, yieldOf_error] at h
      exact hrest h
    | ok x =>
      rw [hx, yieldOf_ok] at h
      rcases List.mem_append.1 h with h | h
      · cases x with
        | unsupported => exact absurd h List.not_mem_nil
        | «unchanged» l => exact absurd h List.not_mem_nil
        | indexed l y =>
          obtain ⟨row', hrows, hfile, -⟩ := row_of_examineFile hx
          rw [Index.FileResult.yield, hrows, List.mem_singleton] at h
          exact ⟨path, List.mem_cons_self, h ▸ hfile⟩
      · exact hrest h

/-- Examining a file does not see what is stored of the others. -/
theorem examineFile_congr {path : String} (hplan : b.plan = a.plan) (hfaults : b.faults = a.faults)
    (hdisk : b.disk = a.disk)
    (hrow : b.store.ledger.get? (r.id, .str path) = a.store.ledger.get? (r.id, .str path)) :
    examineFile parse r workspace commit checkout b path =
      examineFile parse r workspace commit checkout a path := by
  unfold examineFile
  cases checkout.read path with
  | error f => simp only [bind, Except.bind]
  | ok text =>
    simp only [bind, Except.bind]
    refine examine_congr hplan hfaults (by rw [hdisk]) fun repo hrepo => ?_
    obtain rfl : r.id = repo := Except.ok.inj ((asKey_toValue r.id).symm.trans hrepo)
    exact hrow

theorem indexed_or_skipped (x : Outcome Index.FileResult) :
    (∃ language y, x = .ok (.indexed language y)) ∨ ∀ language y, x ≠ .ok (.indexed language y) := by
  rw [or_iff_not_imp_left]
  exact fun h language y hx => h ⟨language, y, hx⟩

theorem yieldOf_of_skip {path : String} {x : Outcome Index.FileResult}
    {files : List (String × Outcome Index.FileResult)}
    (hskip : ∀ language y, x ≠ .ok (.indexed language y)) : yieldOf ((path, x) :: files) = yieldOf files := by
  cases x with
  | error f => exact yieldOf_error path f files
  | ok x =>
    rw [yieldOf_ok]
    cases x with
    | indexed language y => exact absurd rfl (hskip language y)
    | _ => rfl

/-- A file that fails, or that is skipped, changes nothing. -/
theorem on_indexListed {path : String} {x : Outcome Index.FileResult}
    (h : examineFile parse r workspace commit checkout a path = x)
    (hskip : ∀ language y, x ≠ .ok (.indexed language y)) :
    (indexListed parse r workspace commit checkout path).on a = (x, a) := by
  unfold examineFile at h
  simp only [indexListed, Act.on_bind, Act.on_ofOutcome]
  cases htext : checkout.read path with
  | error f =>
    rw [htext] at h
    rw [← h]
    rfl
  | ok text =>
    simp only [htext, bind, Except.bind] at h
    cases x with
    | error f => exact on_indexText_error h
    | ok x => exact on_indexText_ok h fun language y hx => hskip language y (congrArg Except.ok hx)

theorem on_indexListed_indexed {path : String} {language : Language} {y : Index.Yield} {m : Atlas}
    (h : examineFile parse r workspace commit checkout a path = .ok (.indexed language y))
    (hm : (persist y).on a = (.ok (), m)) :
    (indexListed parse r workspace commit checkout path).on a = (.ok (.indexed language y), m) := by
  obtain ⟨text, htext, h⟩ := bind_eq_ok.1 h
  simp only [indexListed, Act.on_bind, Act.on_ofOutcome, htext]
  rw [on_indexText_indexed h, hm]

theorem on_indexEach_cons {path : String} {paths : List String} {x : Outcome Index.FileResult} {m : Atlas}
    {xs : List (String × Outcome Index.FileResult)}
    (h : (indexListed parse r workspace commit checkout path).on a = (x, m))
    (hrest : (indexEach parse r workspace commit checkout paths).on m = (.ok xs, c)) :
    (indexEach parse r workspace commit checkout (path :: paths)).on a = (.ok ((path, x) :: xs), c) := by
  simp only [indexEach, Act.on_bind, Act.on_attempt, h, hrest, Act.on_pure]

variable (parse r workspace commit checkout) in
/-- Files with what comes of them, examined and stored one after the other. -/
inductive Each : List (String × Outcome Index.FileResult) → Atlas → Atlas → Prop
  | nil (a : Atlas) : Each [] a a
  | skip {path x xs a c} (hx : examineFile parse r workspace commit checkout a path = x)
      (hskip : ∀ language y, x ≠ .ok (.indexed language y)) (rest : Each xs a c) : Each ((path, x) :: xs) a c
  | stored {path language y xs a m c}
      (hx : examineFile parse r workspace commit checkout a path = .ok (.indexed language y))
      (hm : (persist y).on a = (.ok (), m)) (rest : Each xs m c) : Each
      ((path, .ok (.indexed language y)) :: xs) a c

theorem Each.on_indexEach {xs : List (String × Outcome Index.FileResult)}
    (h : Each parse r workspace commit checkout xs a c) :
    (indexEach parse r workspace commit checkout (xs.map Prod.fst)).on a = (.ok xs, c) := by
  induction h with
  | nil a => rfl
  | skip hx hskip rest ih => exact on_indexEach_cons (on_indexListed hx hskip) ih
  | stored hx hm rest ih => exact on_indexEach_cons (on_indexListed_indexed hx hm) ih

/-- Files that are examined up front and stored at once are stored alike when they are examined
and stored one after the other. -/
theorem each_of_persist {paths : List String} (hnodup : paths.Nodup) {a b : Atlas}
    (h : (persist (yieldOf (paths.map fun path =>
      (path, examineFile parse r workspace commit checkout a path)))).on a = (.ok (), b)) :
    ∃ c, Each parse r workspace commit checkout
      (paths.map fun path => (path, examineFile parse r workspace commit checkout a path)) a c ∧ Alike b c := by
  induction paths generalizing a b with
  | nil =>
    obtain rfl : a = b := congrArg Prod.snd ((on_persist_nil a).symm.trans h)
    exact ⟨a, .nil a, .refl a⟩
  | cons path paths ih =>
    obtain ⟨hpath, hnodup⟩ := List.nodup_cons.1 hnodup
    rw [List.map_cons] at h ⊢
    obtain ⟨language, y, hx⟩ | hskip := indexed_or_skipped (examineFile parse r workspace commit checkout a path)
    · obtain ⟨row, hrows, hfile, hchunks⟩ := row_of_examineFile hx
      rw [hx, yieldOf_ok] at h
      have hapart : Apart y (yieldOf (paths.map fun path =>
          (path, examineFile parse r workspace commit checkout a path))) := by
        have hrow : ∀ r' ∈ (yieldOf (paths.map fun path =>
            (path, examineFile parse r workspace commit checkout a path))).rows, (row.file == r'.file) = false := by
          intro r' hr'
          obtain ⟨p, hp, hfile'⟩ := rows_of_yieldOf hr'
          rw [hfile, hfile']
          exact file_ne r.id fun h => hpath (h ▸ hp)
        refine ⟨fun r₁ hr₁ => ?_, fun ch hch r' hr' hsame => ?_⟩
        · rw [hrows, List.mem_singleton] at hr₁
          exact hr₁ ▸ hrow
        · rw [hchunks ch hch] at hsame
          exact Bool.false_ne_true ((hrow r' hr').symm.trans (hsame ▸ BEq.rfl))
      obtain ⟨m, c, hm, hrest, halike⟩ := persist_append hapart h
      obtain ⟨vs, -, -, hstored⟩ := of_persist hm
      -- the other files are examined as if this one had not been stored
      have hsame : ∀ p ∈ paths, examineFile parse r workspace commit checkout m p =
          examineFile parse r workspace commit checkout a p := fun p hp => by
        refine examineFile_congr hstored.plan hstored.faults hstored.disk ?_
        rw [hstored.ledger]
        refine get?_putRows_of_apart _ fun r' hr' => ?_
        rw [hrows, List.mem_singleton] at hr'
        rw [hr', hfile]
        exact file_ne r.id fun h => hpath (h ▸ hp)
      have hmap : (paths.map fun path => (path, examineFile parse r workspace commit checkout a path)) =
          paths.map fun path => (path, examineFile parse r workspace commit checkout m path) :=
        List.map_congr_left fun p hp => by rw [hsame p hp]
      rw [hmap] at hrest ⊢
      obtain ⟨d, hd, halike'⟩ := ih hnodup hrest
      exact ⟨d, hx ▸ .stored hx hm hd, halike.trans halike'⟩
    · rw [yieldOf_of_skip hskip] at h
      obtain ⟨c, hc, halike⟩ := ih hnodup h
      exact ⟨c, .skip rfl hskip hc, halike⟩

end

/-! ## Three ways to index a repository -/

theorem each_of_indexRepository {parse : Parser} {r : Index.Repository} {workspace : Value} {mode : Index.IndexMode}
    {cancelAfter : Option Nat} {report : Index.Report} {files : List String}
    (hfiles : (a.checkoutOf r).files = .ok files) (hnodup : files.Nodup)
    (h : (indexRepository parse r workspace mode true cancelAfter).on a = (.ok report, b)) :
    report = .ofFiles r.id (a.checkoutOf r).commit (foundIn parse r workspace a files) ∧
      ∃ c, Each parse r workspace (a.checkoutOf r).commit (a.checkoutOf r) (foundIn parse r workspace a files) a c ∧
        Alike b c := by
  obtain ⟨hsurvey, hpersist⟩ := persist_of_indexRepository h
  obtain ⟨files', hfiles', rfl⟩ := eq_of_surveyed hsurvey
  obtain rfl := Except.ok.inj (hfiles.symm.trans hfiles')
  rw [Index.Report.yield_ofFiles] at hpersist
  exact ⟨rfl, each_of_persist hnodup hpersist⟩

theorem on_indexRepository {parse : Parser} {r : Index.Repository} {workspace : Value} {files : List String}
    (hfiles : (a.checkoutOf r).files = .ok files) :
    (indexRepository parse r workspace .full true none).on a =
      (persist (yieldOf (foundIn parse r workspace a files)) >>= fun _ =>
        pure (.ofFiles r.id (a.checkoutOf r).commit (foundIn parse r workspace a files))).on a := by
  have hsurvey : a.surveyed parse r workspace .full none =
      .ok (.ofFiles r.id (a.checkoutOf r).commit (foundIn parse r workspace a files)) := by
    rw [surveyed, hfiles]
    rfl
  rw [indexRepository, Act.on_bind, on_survey, hsurvey]
  dsimp only
  rw [if_pos rfl, Index.Report.yield_ofFiles]

/-- A repository whose files are listed is indexed exactly if what they yield can be stored. -/
theorem indexRepository_returns_iff {parse : Parser} {r : Index.Repository} {workspace : Value}
    {files : List String} (hfiles : (a.checkoutOf r).files = .ok files) :
    (∃ report b, (indexRepository parse r workspace .full true none).on a = (.ok report, b)) ↔
      ∃ vs, a.embedChunks (yieldOf (foundIn parse r workspace a files)).chunks = .ok vs ∧
        Persistable a (yieldOf (foundIn parse r workspace a files)) vs := by
  rw [on_indexRepository hfiles]
  constructor
  · rintro ⟨report, b, h⟩
    obtain ⟨_, m, hm, -⟩ := Act.bind_ok h
    obtain ⟨vs, hvs, hpersistable, -⟩ := of_persist hm
    exact ⟨vs, hvs, hpersistable⟩
  · rintro ⟨vs, hvs, hpersistable⟩
    obtain ⟨b, hb, -⟩ := persist_returns hvs hpersistable
    exact ⟨_, b, Act.on_bind_ok hb⟩

/-- A repository, a job that succeeds and the files one by one are indexed alike. The clock
stands still as nothing changes the disk. -/
theorem repository_job_and_files_alike {parse : Parser} {r : Index.Repository} {workspace : Value}
    {files : List String} (hfiles : (a.checkoutOf r).files = .ok files) (hnodup : files.Nodup) :
    ((∃ report b, (indexRepository parse r workspace .full true none).on a = (.ok report, b)) ↔
      ∃ vs, a.embedChunks (yieldOf (foundIn parse r workspace a files)).chunks = .ok vs ∧
        Persistable a (yieldOf (foundIn parse r workspace a files)) vs) ∧
    ∀ report b, (indexRepository parse r workspace .full true none).on a = (.ok report, b) →
      (∀ (s t : Service) (id : Value) (found : Index.Report), s.atlas = a → s.HasJob id r .full →
        (Service.runJob (.usual parse workspace none) id).on s = (.ok found, t) → found = report ∧ t.atlas = b) ∧
      ∃ xs c, (indexEach parse r workspace (a.checkoutOf r).commit (a.checkoutOf r) files).on a = (.ok xs, c) ∧
        report = .ofFiles r.id (a.checkoutOf r).commit xs ∧ Alike b c := by
  refine ⟨indexRepository_returns_iff hfiles, fun report b h => ⟨?_, ?_⟩⟩
  · rintro s t id found rfl hjob hrun
    have hstages := hjob.run hrun
    rw [Stages.usual_run, h] at hstages
    obtain ⟨hreport, hatlas⟩ := Prod.mk.inj hstages
    exact ⟨(Except.ok.inj hreport).symm, hatlas.symm⟩
  · obtain ⟨rfl, c, heach, halike⟩ := each_of_indexRepository hfiles hnodup h
    have hpaths : (foundIn parse r workspace a files).map Prod.fst = files := by simp [foundIn, Function.comp_def]
    have heach := heach.on_indexEach
    rw [hpaths] at heach
    exact ⟨_, c, heach, rfl, halike⟩

/-- A checkout with a function, imports and a file that cannot be parsed, and a job for it. -/
theorem repository_job_and_files_alike_on_checkout :
    let r : Index.Repository := { id := .str "repo", workspace := "ws", name := "repo", path := .ofString "repo" }
    let files : FileTree := .dir [("repo", .dir [("a.py", .file (.bytes (Text.encode Sample.function))),
      ("b.py", .file (.bytes (Text.encode Sample.imports))), ("c.py", .file (.bytes []))])]
    let git : Index.GitState := { head := some "c0ffee", remote := none, listing := some "a.py\nb.py\nc.py\n" }
    let a : Atlas := { Sample.atlas with
      disk := { Sample.disk with files, git := fun _ => some git }
      engine := { ready := true }
      faults := [(.parse "c.py", .mishap .gitCommand)] }
    let job : Index.Job := { id := "j", repo := "repo", mode := .full, created := 0, updated := 0 }
    let s : Service := ⟨a, { jobs := OrderedMap.empty.insert "j" job }, Index.Registry.register .empty r⟩
    ∃ report b t xs c, (indexRepository Sample.parse r "ws" .full true none).on a = (.ok report, b) ∧
      report.indexed = 2 ∧ report.errors.map Prod.fst = ["c.py"] ∧
      (Service.runJob (.usual Sample.parse "ws" none) "j").on s = (.ok report, t) ∧ t.atlas = b ∧
      (indexEach Sample.parse r "ws" "c0ffee" (a.checkoutOf r) ["a.py", "b.py", "c.py"]).on a = (.ok xs, c) ∧
      report = .ofFiles "repo" "c0ffee" xs ∧ Alike b c := by
  intro r files git a job s
  have hfiles : (a.checkoutOf r).files = .ok ["a.py", "b.py", "c.py"] := by
    have hlisted : (a.checkoutOf r).listed = .ok ["a.py", "b.py", "c.py"] :=
      congrArg Except.ok (by decide +kernel)
    have hkept : ["a.py", "b.py", "c.py"].filter (!(a.checkoutOf r).isIgnored ·) = ["a.py", "b.py", "c.py"] := by
      decide +kernel
    simp only [Index.Checkout.files, hlisted, bind, Except.bind, hkept]
    exact congrArg Except.ok (List.mergeSort_of_pairwise (by decide +kernel))
  have hok : ((persist (yieldOf (foundIn Sample.parse r "ws" a ["a.py", "b.py", "c.py"]))).on a).1.toBool =
      true := by
    decide +kernel
  have h := @on_indexRepository a Sample.parse r "ws" _ hfiles
  rw [Act.on_bind_ok (Act.on_eq_ok () hok), Act.on_pure] at h
  have hkeyed : s.Keyed :=
    { jobs := (OrderedMap.KeyedBy.empty fun j : Index.Job => Key.str j.id).insert "j" (v := job) BEq.rfl
      repos := (OrderedMap.KeyedBy.empty Index.Repository.id).insert "repo" (v := r) BEq.rfl }
  obtain ⟨o, -, hrun⟩ := hkeyed.on_runJob (show asKey "j" = .ok (.str "j") from rfl) (Eq.refl (Except.ok job)) rfl
    (Eq.refl (Except.ok r)) ((Stages.usual_run Sample.parse "ws" none r .full a).trans h)
  obtain ⟨hjobs, xs, c, hc, hxs, halike⟩ := (repository_job_and_files_alike hfiles (by decide)).2 _ _ h
  obtain ⟨-, hatlas⟩ := hjobs s _ "j" _ rfl ⟨"j", job, "repo", rfl, rfl, rfl, rfl, rfl⟩ hrun
  exact ⟨_, _, _, xs, c, h, by decide +kernel, by decide +kernel, hrun, hatlas, hc, hxs, halike⟩

end SourceAtlas.Atlas
