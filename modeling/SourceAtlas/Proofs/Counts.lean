import SourceAtlas.Proofs.JobOutcomes
import SourceAtlas.Proofs.Overwriting

/-!
# Symbols that a job counts

A job records how many symbols its files yielded. A file that it skips yields
none, though its documents stay, so the number is that of the documents only
if all of them belong to files that this job indexed.
-/

namespace SourceAtlas

open Json (Value Key)

namespace Atlas

variable {a : Atlas} {es : List Event}

/-! ## What the files of a run yield -/

section

variable {repo : Key} {xs : List (String × Outcome Index.FileResult)} {path : String} {language : Language}
  {y : Index.Yield}

def Placed (repo : Key) (xs : List (String × Outcome Index.FileResult)) : Prop :=
  ∀ path language y, (path, .ok (.indexed language y)) ∈ xs →
    ∃ row, y.rows = [row] ∧ row.file = (repo, .str path) ∧ ∀ c ∈ y.chunks, c.file = row.file

theorem Placed.tail {x : String × Outcome Index.FileResult} (h : Placed repo (x :: xs)) : Placed repo xs :=
  fun path language y hx => h path language y (List.mem_cons_of_mem _ hx)

theorem placed_foundIn (parse : Parser) (r : Index.Repository) (workspace : Value) (a : Atlas)
    (files : List String) :
    Placed r.id (foundIn parse r workspace a files) := by
  intro path language y hx
  obtain ⟨p, -, hp⟩ := List.mem_map.1 hx
  obtain ⟨rfl, hfound⟩ := Prod.mk.inj hp
  exact row_of_examineFile hfound

theorem yieldOf_cons (path : String) (x : Outcome Index.FileResult)
    (xs : List (String × Outcome Index.FileResult)) :
    (∃ language y, x = .ok (.indexed language y) ∧ yieldOf ((path, x) :: xs) = y.append (yieldOf xs)) ∨
      (∀ language y, x ≠ .ok (.indexed language y)) ∧ yieldOf ((path, x) :: xs) = yieldOf xs := by
  obtain ⟨language, y, rfl⟩ | hskip := indexed_or_skipped x
  · exact .inl ⟨language, y, rfl, yieldOf_ok path _ xs⟩
  · exact .inr ⟨hskip, yieldOf_of_skip hskip⟩

theorem mem_yieldOf {α : Type} {part : Index.Yield → List α} (hnil : part {} = [])
    (happend : ∀ y z, part (y.append z) = part y ++ part z) {v : α} :
    ∀ {xs : List (String × Outcome Index.FileResult)},
    v ∈ part (yieldOf xs) ↔ ∃ path language y, (path, .ok (.indexed language y)) ∈ xs ∧ v ∈ part y := by
  intro xs
  induction xs with
  | nil =>
    rw [show yieldOf [] = {} from rfl, hnil]
    simp
  | cons x xs ih =>
    obtain ⟨path, x⟩ := x
    obtain ⟨language, y, rfl, hyield⟩ | ⟨hskip, hyield⟩ := yieldOf_cons path x xs
    · rw [hyield, happend, List.mem_append, ih]
      constructor
      · rintro (hv | ⟨p, l, z, hz, hv⟩)
        · exact ⟨path, language, y, List.mem_cons_self, hv⟩
        · exact ⟨p, l, z, List.mem_cons_of_mem _ hz, hv⟩
      · rintro ⟨p, l, z, hz, hv⟩
        rcases List.mem_cons.1 hz with hz | hz
        · obtain ⟨-, hz⟩ := Prod.mk.inj hz
          cases hz
          exact .inl hv
        · exact .inr ⟨p, l, z, hz, hv⟩
    · rw [hyield, ih]
      constructor
      · rintro ⟨p, l, z, hz, hv⟩
        exact ⟨p, l, z, List.mem_cons_of_mem _ hz, hv⟩
      · rintro ⟨p, l, z, hz, hv⟩
        rcases List.mem_cons.1 hz with hz | hz
        · exact absurd (Prod.mk.inj hz).2.symm (hskip l z)
        · exact ⟨p, l, z, hz, hv⟩

theorem mem_chunks_yieldOf {c : Chunk} :
    c ∈ (yieldOf xs).chunks ↔ ∃ path language y, (path, .ok (.indexed language y)) ∈ xs ∧ c ∈ y.chunks :=
  mem_yieldOf rfl fun _ _ => rfl

theorem mem_rows_yieldOf {row : Graph.LedgerRow} :
    row ∈ (yieldOf xs).rows ↔ ∃ path language y, (path, .ok (.indexed language y)) ∈ xs ∧ row ∈ y.rows :=
  mem_yieldOf rfl fun _ _ => rfl

/-- The ids of what files yield are different if they are within each file. -/
theorem nodup_ids_yieldOf (hplaced : Placed repo xs) (hpaths : (xs.map Prod.fst).Nodup)
    (hids : Separated (yieldOf xs).chunks)
    (hown : ∀ path language y, (path, .ok (.indexed language y)) ∈ xs → (y.chunks.map (·.id)).Nodup) :
    ((yieldOf xs).chunks.map (·.id)).Nodup := by
  induction xs with
  | nil => exact List.nodup_nil
  | cons x xs ih =>
    obtain ⟨path, x⟩ := x
    obtain ⟨hpath, hpaths⟩ := List.nodup_cons.1 hpaths
    have hrest := ih hplaced.tail hpaths
    have hown' : ∀ path language y, (path, .ok (.indexed language y)) ∈ xs → (y.chunks.map (·.id)).Nodup :=
      fun p l z hz => hown p l z (List.mem_cons_of_mem _ hz)
    obtain ⟨language, y, rfl, hyield⟩ | ⟨-, hyield⟩ := yieldOf_cons path x xs
    · rw [hyield] at hids ⊢
      have hy := hown path language y List.mem_cons_self
      have hxs := hrest (hids.mono fun c hc => List.mem_append_right _ hc) hown'
      obtain ⟨row, -, hrow, hchunks⟩ := hplaced path language y List.mem_cons_self
      show ((y.chunks ++ (yieldOf xs).chunks).map (·.id)).Nodup
      rw [List.map_append, List.nodup_append]
      refine ⟨hy, hxs, fun i hi j hj hij => ?_⟩
      obtain ⟨c, hc, rfl⟩ := List.mem_map.1 hi
      obtain ⟨d, hd, rfl⟩ := List.mem_map.1 hj
      -- chunks of one id are of one file, and each file is listed once
      have hfile := hids.file (List.mem_append_left _ hc) (List.mem_append_right _ hd) (congrArg Key.str hij)
      obtain ⟨p, l, z, hz, hd⟩ := mem_chunks_yieldOf.1 hd
      obtain ⟨row', -, hrow', hchunks'⟩ := hplaced.tail p l z hz
      rw [hchunks c hc, hchunks' d hd, hrow, hrow'] at hfile
      obtain rfl : path = p := Key.str.inj (Prod.mk.inj hfile).2
      exact hpath (List.mem_map.2 ⟨_, hz, rfl⟩)
    · rw [hyield] at hids ⊢
      exact hrest hids hown'

/-! ## What was stored last -/

theorem eventsOf_indexed {row : Graph.LedgerRow} (hrows : y.rows = [row]) :
    eventsOf ((path, .ok (.indexed language y)) :: xs) = eventsOf xs ++ [.stored row.file y.chunks] := by
  rw [eventsOf_cons, ← events_indexed hrows]

theorem latest_of_not_listed (hplaced : Placed repo xs) (hpath : path ∉ xs.map Prod.fst) (es : List Event) :
    latest (eventsOf xs ++ es) (repo, .str path) = latest es (repo, .str path) := by
  induction xs generalizing es with
  | nil => rfl
  | cons x xs ih =>
    obtain ⟨p, x⟩ := x
    obtain ⟨hne, hrest⟩ := not_or.1 (List.mem_cons.not.1 hpath)
    obtain ⟨language, y, rfl⟩ | hskip := indexed_or_skipped x
    · obtain ⟨row, hrows, hrow, -⟩ := hplaced p language y List.mem_cons_self
      rw [eventsOf_indexed hrows, List.append_assoc, ih hplaced.tail hrest, List.singleton_append,
        latest, hrow, if_neg]
      exact Bool.eq_false_iff.1 (file_ne repo (Ne.symm hne))
    · rw [eventsOf_of_skip hskip, ih hplaced.tail hrest]

theorem latest_of_indexed (hplaced : Placed repo xs) (hpaths : (xs.map Prod.fst).Nodup)
    (hx : (path, .ok (.indexed language y)) ∈ xs) (es : List Event) :
    latest (eventsOf xs ++ es) (repo, .str path) = some y.chunks := by
  induction xs generalizing es with
  | nil => exact absurd hx List.not_mem_nil
  | cons x xs ih =>
    obtain ⟨hpath, hpaths⟩ := List.nodup_cons.1 hpaths
    rcases List.mem_cons.1 hx with rfl | hx
    · obtain ⟨row, hrows, hrow, -⟩ := hplaced path language y List.mem_cons_self
      rw [eventsOf_indexed hrows, List.append_assoc, latest_of_not_listed hplaced.tail hpath, List.singleton_append,
        latest, hrow, if_pos BEq.rfl]
    · rw [eventsOf_cons, List.append_assoc]
      exact ih hplaced.tail hpaths hx _

end

/-! ## Documents of a repository -/

def symbolCount (a : Atlas) (repo : Key) : Nat :=
  (a.store.symbols.documents.keep (Document.ofRepo repo.toValue)).size

def isIn (rows : List Graph.LedgerRow) (d : Document) : Bool := rows.any fun row => Document.inFile row.file d

/-- The number of symbol documents of a repository that are of none of these files. -/
def symbolCountBeside (a : Atlas) (repo : Key) (rows : List Graph.LedgerRow) : Nat :=
  (a.store.symbols.documents.keep fun d => Document.ofRepo repo.toValue d && !isIn rows d).size

theorem contains_keys_of_chunks (cs : List Chunk) (k : Key) :
    (cs.map (·.key)).contains k = true ↔ ∃ c ∈ cs, k = c.key := by
  rw [List.contains_iff_exists_mem_beq]
  constructor
  · rintro ⟨j, hj, hkj⟩
    obtain ⟨c, hc, rfl⟩ := List.mem_map.1 hj
    exact ⟨c, hc, (c.key_beq k).1 (BEq.symm hkj)⟩
  · rintro ⟨c, hc, rfl⟩
    exact ⟨c.key, List.mem_map_of_mem hc, BEq.rfl⟩

theorem distinct_keys_of_chunks {cs : List Chunk} (h : (cs.map (·.id)).Nodup) : Distinct (cs.map (·.key)) := by
  refine List.pairwise_map.2 ((List.pairwise_map.1 h).imp fun {c d} hne => Bool.eq_false_iff.2 fun hkey => hne ?_)
  exact Key.str.inj ((d.key_beq c.key).1 (BEq.symm hkey))

section

variable {repo : Key} {xs : List (String × Outcome Index.FileResult)}

/-- Of the files of a run there are the chunks that they yielded. -/
theorem Consistent.mem_yieldOf_iff (h : Consistent a (eventsOf xs ++ es)) (hplaced : Placed repo xs)
    (hpaths : (xs.map Prod.fst).Nodup) (k : Key) :
    (∃ d, a.store.symbols.documents.get? k = some d ∧
      (Document.ofRepo repo.toValue d && isIn (yieldOf xs).rows d) = true) ↔
        ∃ c ∈ (yieldOf xs).chunks, k = c.key := by
  constructor
  · rintro ⟨d, hd, hin⟩
    -- the file of the document was stored by this run, so the chunk is of what it stored
    obtain ⟨cs, c, hc, hcs, rfl, rfl⟩ := h.owned .symbols k d hd
    obtain ⟨row, hrow, hin⟩ := List.any_eq_true.1 (Bool.and_eq_true_iff.1 hin).2
    obtain ⟨path, language, y, hx, hrow⟩ := mem_rows_yieldOf.1 hrow
    obtain ⟨row', hrows, hfile, -⟩ := hplaced path language y hx
    rw [hrows, List.mem_singleton] at hrow
    have hlatest := latest_of_indexed hplaced hpaths hx es
    rw [← hfile, ← hrow, (Part.symbols.inFile_document c row.file).1 hin, hcs] at hlatest
    exact ⟨c, mem_chunks_yieldOf.2 ⟨path, language, y, hx, Option.some.inj hlatest ▸ hc⟩, rfl⟩
  · rintro ⟨c, hc, rfl⟩
    obtain ⟨path, language, y, hx, hc⟩ := mem_chunks_yieldOf.1 hc
    obtain ⟨row, hrows, hfile, hchunks⟩ := hplaced path language y hx
    have hlatest := latest_of_indexed hplaced hpaths hx es
    obtain ⟨-, e, he, hd⟩ := h.present .symbols _ y.chunks hlatest c hc
    refine ⟨_, hd, Bool.and_eq_true_iff.2 ⟨?_, List.any_eq_true.2 ⟨row, ?_, ?_⟩⟩⟩
    · rw [Part.symbols.repo_document, hchunks e he, hfile]
      exact BEq.rfl
    · exact mem_rows_yieldOf.2 ⟨path, language, y, hx, by rw [hrows]; exact List.mem_cons_self⟩
    · exact (Part.symbols.inFile_document e row.file).2 (hchunks e he).symm

/-- After a run there are the documents that its files yielded, and those of other files. -/
theorem Consistent.symbolCount_eq (h : Consistent a (eventsOf xs ++ es)) (hplaced : Placed repo xs)
    (hpaths : (xs.map Prod.fst).Nodup) (hids : ((yieldOf xs).chunks.map (·.id)).Nodup) :
    a.symbolCount repo = (yieldOf xs).chunks.length + a.symbolCountBeside repo (yieldOf xs).rows := by
  have hindexed := OrderedMap.size_keep_eq_length (distinct_keys_of_chunks hids) fun k =>
    (contains_keys_of_chunks _ k).trans (h.mem_yieldOf_iff hplaced hpaths k).symm
  rw [symbolCount, OrderedMap.size_keep_add _ _ (isIn (yieldOf xs).rows), hindexed, List.length_map]
  rfl

end

end Atlas

/-! ## Jobs -/

namespace Service

variable {s t : Service} {stages : Stages} {id : Value} {key : Key} {job : Index.Job} {r : Index.Repository}
  {report : Index.Report} {b : Atlas}

/-- A job that succeeds records what it found of its repository. -/
theorem Keyed.of_runJob {mode : Index.IndexMode} (h : s.Keyed) (hjob : s.HasJob id r mode)
    (hok : (runJob stages id).on s = (.ok report, t)) :
    (stages.run r mode).on s.atlas = (.ok report, t.atlas) ∧
      t.repos = s.repos.register (r.after .indexed report.findings t.atlas.disk.now) := by
  have hrun := hjob.run hok
  obtain ⟨key, job, repo, hid, hjob, rfl, hrepo, hr⟩ := hjob
  have hopen : job.isFinished = false := Bool.eq_false_iff.2 fun hdone => by
    rw [runJob_finished hid hjob hdone] at hok
    cases hok
  obtain ⟨o, -, hsame⟩ := h.on_runJob hid hjob hopen (bind_eq_ok.2 ⟨repo, hrepo, hr⟩) hrun
  obtain ⟨-, ht⟩ := Prod.mk.inj (hsame.symm.trans hok)
  exact ⟨hrun, by rw [← ht]⟩

/-- Services after jobs that succeeded, with what they stored. Between jobs files, time, faults and the
engine may change, and so may the jobs and the repositories that there are. -/
inductive Worked : Service → List Event → Prop
  | start (plan : Plan) (disk : Disk) : Worked { atlas := .open plan disk } []
  | world {s : Service} {es : List Event} (h : Worked s es) (disk : Disk) (engine : Graph.Engine)
      (faults : List (Operation × Failure)) {jobs : Index.JobLedger} {repos : Index.Registry}
      (hkeyed : Keyed ⟨{ s.atlas with disk, engine, faults }, jobs, repos⟩) :
      Worked ⟨{ s.atlas with disk, engine, faults }, jobs, repos⟩ es
  | job {s t : Service} {es : List Event} {parse : Atlas.Parser} {workspace : Value} {cancelAfter : Option Nat}
      {id : Value} {r : Index.Repository} {mode : Index.IndexMode} {files : List String} {report : Index.Report}
      (h : Worked s es) (hjob : s.HasJob id r mode) (hfiles : (s.atlas.checkoutOf r).files = .ok files)
      (hnodup : files.Nodup) (hok : (runJob (.usual parse workspace cancelAfter) id).on s = (.ok report, t)) :
      Worked t (eventsOf (Atlas.foundIn parse r workspace s.atlas files) ++ es)

variable {es : List Event} {parse : Atlas.Parser} {workspace : Value} {cancelAfter : Option Nat}

theorem Worked.keyed (h : s.Worked es) : s.Keyed := by
  induction h with
  | start plan disk => exact ⟨.empty _, .empty _⟩
  | world h disk engine faults hkeyed ih => exact ⟨hkeyed.jobs, hkeyed.repos⟩
  | @job s t es parse workspace cancelAfter id r mode files report h hjob hfiles hnodup hok ih =>
    have hkeyed := Keyed.keeps_runJob (.usual parse workspace cancelAfter) id s ih
    rwa [hok] at hkeyed

theorem Worked.history (h : s.Worked es) : Atlas.History s.atlas es := by
  induction h with
  | start plan disk => exact .start plan disk
  | world h disk engine faults hkeyed ih => exact ih.world disk engine faults
  | job h hjob hfiles hnodup hok ih =>
    have hrun := hjob.run hok
    rw [Stages.usual_run] at hrun
    exact ih.repository hfiles hnodup hrun

/-- After a job the registry counts the symbols that its files yielded. The symbol documents of the
repository are more by those of other files, which the job skipped or did not see. So the number is
right exactly if all documents of the repository are of files that the job indexed. -/
theorem Worked.recorded_symbols {mode : Index.IndexMode} {files : List String} (h : s.Worked es)
    (hjob : s.HasJob id r mode) (hfiles : (s.atlas.checkoutOf r).files = .ok files) (hnodup : files.Nodup)
    (hok : (runJob (.usual parse workspace cancelAfter) id).on s = (.ok report, t))
    (hids : Separated (chunksIn (eventsOf (Atlas.foundIn parse r workspace s.atlas files) ++ es)))
    (hown : ∀ x ∈ Index.results (Atlas.foundIn parse r workspace s.atlas files),
      (x.yield.chunks.map (·.id)).Nodup) :
    ∃ r, t.repos.get? report.repo = some r ∧ r.status = .indexed ∧ r.symbols = .int report.yield.chunks.length ∧
      t.atlas.symbolCount report.repo =
        report.yield.chunks.length + t.atlas.symbolCountBeside report.repo report.yield.rows ∧
      (r.symbols = .int (t.atlas.symbolCount report.repo) ↔
        ∀ k d, t.atlas.store.symbols.documents.get? k = some d → Document.ofRepo report.repo.toValue d = true →
          ∃ row ∈ report.yield.rows, Document.inFile row.file d = true) := by
  have hconsistent := (h.job hjob hfiles hnodup hok).history.consistent hids
  obtain ⟨hrun, hrepos⟩ := h.keyed.of_runJob hjob hok
  rw [Stages.usual_run] at hrun
  obtain ⟨files', hfiles', hreport⟩ := Atlas.eq_of_surveyed (Atlas.persist_of_indexRepository hrun).1
  obtain rfl := Except.ok.inj (hfiles.symm.trans hfiles')
  have haccounts := Index.Report.accounts_ofFiles r.id (s.atlas.checkoutOf r).commit
    (Atlas.foundIn parse r workspace s.atlas files)
  have hrepo := Index.Report.repo_ofFiles r.id (s.atlas.checkoutOf r).commit
    (Atlas.foundIn parse r workspace s.atlas files)
  rw [← hreport] at haccounts hrepo
  have hplaced := Atlas.placed_foundIn parse r workspace s.atlas files
  have hlisted : ((Atlas.foundIn parse r workspace s.atlas files).map Prod.fst).Nodup := by
    simpa [Atlas.foundIn, Function.comp_def] using hnodup
  have hdistinct : ((Atlas.yieldOf (Atlas.foundIn parse r workspace s.atlas files)).chunks.map (·.id)).Nodup := by
    refine Atlas.nodup_ids_yieldOf hplaced hlisted ?_ fun path language y hx => ?_
    · refine hids.mono fun c hc => ?_
      obtain ⟨path, language, y, hx, hc⟩ := Atlas.mem_chunks_yieldOf.1 hc
      exact mem_chunksIn_of_latest (Atlas.latest_of_indexed hplaced hlisted hx es) hc
    · exact hown _ (List.mem_filterMap.2 ⟨_, hx, rfl⟩)
  have hcount := hconsistent.symbolCount_eq hplaced hlisted hdistinct
  rw [← haccounts.yield, ← hrepo] at hcount
  have hsymbols : (r.after .indexed report.findings t.atlas.disk.now).symbols = .int report.yield.chunks.length :=
    congrArg (fun n : Nat => Value.int n) haccounts.symbols
  refine ⟨r.after .indexed report.findings t.atlas.disk.now, ?_, rfl, hsymbols, hcount, ?_⟩
  · rw [hrepos, hrepo]
    exact (OrderedMap.get?_insert ..).trans (if_pos BEq.rfl)
  · have hnone : t.atlas.symbolCountBeside report.repo report.yield.rows = 0 ↔
        report.yield.chunks.length = t.atlas.symbolCount report.repo := by
      rw [hcount]
      exact Nat.left_eq_add.symm
    have hsame : (r.after .indexed report.findings t.atlas.disk.now).symbols =
      .int (t.atlas.symbolCount report.repo) ↔
        report.yield.chunks.length = t.atlas.symbolCount report.repo := by
      rw [hsymbols, Value.int.injEq, Int.natCast_inj]
    rw [hsame, ← hnone, Atlas.symbolCountBeside, OrderedMap.size_keep_eq_zero_iff]
    refine forall₃_congr fun k d _ => ?_
    rw [← List.any_eq_true]
    show (_ && !Atlas.isIn _ _) = false ↔ (_ → Atlas.isIn _ _ = true)
    cases Document.ofRepo report.repo.toValue d <;> cases Atlas.isIn report.yield.rows d <;> simp

/-! ## A job that is run again -/

namespace Sample

def checkout : Atlas := { SourceAtlas.Sample.atlas with
  disk := { SourceAtlas.Sample.disk with
    files := .dir [("r", .dir [("a.py", .file (.bytes (Text.encode SourceAtlas.Sample.function)))])]
    git := fun _ => some { head := none, remote := none, listing := some "a.py\n" } }
  engine := { ready := true } }

def again : Index.Job := { queued with id := "k" }

def repeating : Service where
  atlas := checkout
  jobs := { jobs := (OrderedMap.empty.insert (.str "j") queued).insert (.str "k") again }
  repos := Index.Registry.register .empty registered

def indexing : Stages := .usual SourceAtlas.Sample.parse "ws" none

def found (a : Atlas) : List (String × Outcome Index.FileResult) :=
  Atlas.foundIn SourceAtlas.Sample.parse registered "ws" a ["a.py"]

def reported (a : Atlas) : Index.Report := .ofFiles "r" "" (found a)

def done (a : Atlas) : Atlas := ((Atlas.persist (reported a).yield).on a).2

theorem files_ok {a : Atlas} (hdisk : a.disk = checkout.disk) (hplan : a.plan = checkout.plan) :
    (a.checkoutOf registered).files = .ok ["a.py"] ∧ (a.checkoutOf registered).commit = "" := by
  have hcheckout : a.checkoutOf registered = checkout.checkoutOf registered := by
    rw [Atlas.checkoutOf, hdisk, hplan]
    rfl
  have hlisted : (checkout.checkoutOf registered).listed = .ok ["a.py"] := congrArg Except.ok (by decide +kernel)
  have hkept : ["a.py"].filter (!(checkout.checkoutOf registered).isIgnored ·) = ["a.py"] := by decide +kernel
  rw [hcheckout]
  simp only [Index.Checkout.files, hlisted, bind, Except.bind, hkept]
  exact ⟨congrArg Except.ok (List.mergeSort_of_pairwise (by decide)), rfl⟩

/-- The stages do not see what was recorded of the repository. -/
theorem indexing_on {a : Atlas} (hdisk : a.disk = checkout.disk) (hplan : a.plan = checkout.plan)
    (hok : ((Atlas.persist (reported a).yield).on a).1.toBool = true) (status : Index.IndexStatus)
    (found : Index.Findings) (now : Int) :
    (indexing.run (registered.after status found now) .full).on a = (.ok (reported a), done a) := by
  obtain ⟨hfiles, hcommit⟩ := files_ok hdisk hplan
  have h : (Atlas.indexRepository SourceAtlas.Sample.parse (registered.after status found now) "ws" .full
      true none).on a = _ := Atlas.on_indexRepository hfiles
  have hpersist : (Atlas.persist (reported a).yield).on a = (.ok (), done a) := Act.on_eq_ok () hok
  rw [reported, Index.Report.yield_ofFiles] at hpersist
  rw [indexing, Stages.usual_run, h]
  refine (Act.on_bind_ok hpersist).trans ?_
  refine Prod.ext (congrArg Except.ok ?_) rfl
  exact congrArg (fun commit => Index.Report.ofFiles "r" commit (Sample.found a)) hcommit

theorem keyed_repeating : repeating.Keyed where
  jobs := ((OrderedMap.KeyedBy.empty fun j : Index.Job => Key.str j.id).insert "j" (v := queued) BEq.rfl).insert "k"
    (v := again) BEq.rfl
  repos := (OrderedMap.KeyedBy.empty Index.Repository.id).insert "r" (v := registered) BEq.rfl

theorem worked_repeating : repeating.Worked [] :=
  (Worked.start checkout.plan SourceAtlas.Sample.disk).world checkout.disk checkout.engine [] keyed_repeating

theorem persisted : (Atlas.persist (reported checkout).yield).on checkout = (.ok (), done checkout) :=
  Act.on_eq_ok () (by decide +kernel)

def indexed : Index.Repository :=
  registered.after .indexed (reported checkout).findings (done checkout).disk.now

theorem files_done : ((done checkout).checkoutOf indexed).files = .ok ["a.py"] := by
  obtain ⟨vs, -, -, hstored⟩ := Atlas.of_persist persisted
  exact (files_ok hstored.disk hstored.plan).1

theorem runs : ∃ s t, repeating.HasJob "j" registered .full ∧
    (runJob indexing "j").on repeating = (.ok (reported checkout), s) ∧ s.atlas = done checkout ∧
    s.HasJob "k" indexed .full ∧ (runJob indexing "k").on s = (.ok (reported (done checkout)), t) ∧
    t.atlas = done (done checkout) ∧
    (t.repos.get? (.str "r")).map (·.symbols) = some (.int (reported (done checkout)).yield.chunks.length) := by
  have hok' : ((Atlas.persist (reported (done checkout)).yield).on (done checkout)).1.toBool = true := by
    decide +kernel
  obtain ⟨vs, -, -, hstored⟩ := Atlas.of_persist persisted
  have hrun := indexing_on rfl rfl (by rw [persisted]; rfl) .notIndexed {} 0
  obtain ⟨o, ⟨p, news, -, -, rfl⟩, hfirst⟩ := keyed_repeating.on_runJob (show asKey "j" = .ok (.str "j") from rfl)
    (Eq.refl (Except.ok queued)) rfl (Eq.refl (Except.ok registered)) hrun
  have hkeyed := Keyed.keeps_runJob indexing "j" repeating keyed_repeating
  rw [hfirst] at hkeyed
  have hrun' := indexing_on hstored.disk hstored.plan hok' .indexed (reported checkout).findings
    (done checkout).disk.now
  -- the ledger still has the other job as it was
  obtain ⟨o, -, hsecond⟩ :=
    hkeyed.on_runJob (show asKey "k" = .ok (.str "k") from rfl) (Eq.refl (Except.ok again)) rfl
    (Eq.refl (Except.ok indexed)) hrun'
  have hsymbols := Index.Report.symbols_ofFiles "r" "" (found (done checkout))
  exact ⟨_, _, ⟨.str "j", queued, .str "r", rfl, rfl, rfl, rfl, rfl⟩, hfirst, rfl,
    ⟨.str "k", again, .str "r", rfl, rfl, rfl, rfl, rfl⟩, hsecond, rfl,
    congrArg (fun n : Nat => some (Value.int n)) hsymbols⟩

end Sample

/-- The one document is of a file that the second job skipped. -/
theorem recorded_symbols_of_second_job : ∃ s t es, s.Worked es ∧
    (runJob Sample.indexing "k").on s = (.ok (Sample.reported (Sample.done Sample.checkout)), t) ∧
    (∃ r, t.repos.get? (.str "r") = some r ∧ r.symbols = .int 0) ∧
    t.atlas.symbolCount (.str "r") = 0 + t.atlas.symbolCountBeside (.str "r") [] ∧
    t.atlas.symbolCountBeside (.str "r") [] = 1 := by
  obtain ⟨s, t, hjob, hfirst, hs, hjob', hsecond, ht, -⟩ := Sample.runs
  have hworked := Sample.worked_repeating.job hjob (Sample.files_ok rfl rfl).1 (by decide) hfirst
  have hids : Separated (chunksIn (eventsOf (Sample.found (Sample.done Sample.checkout)) ++
      (eventsOf (Sample.found Sample.checkout) ++ []))) := by decide +kernel
  have hown : ∀ x ∈ Index.results (Sample.found (Sample.done Sample.checkout)),
      (x.yield.chunks.map (·.id)).Nodup := by
    decide +kernel
  rw [← hs] at hids hown
  obtain ⟨r, hr, -, hsymbols, hcount, -⟩ :=
    hworked.recorded_symbols hjob' (hs ▸ Sample.files_done) (by decide) hsecond hids hown
  have hrepo : (Sample.reported (Sample.done Sample.checkout)).repo = "r" := Index.Report.repo_ofFiles ..
  have hnone : (Sample.reported (Sample.done Sample.checkout)).yield.chunks.length = 0 := by decide +kernel
  have hrows : (Sample.reported (Sample.done Sample.checkout)).yield.rows = [] :=
    List.isEmpty_iff.1 (by decide +kernel)
  rw [hrepo] at hr
  rw [hnone] at hsymbols
  rw [hnone, hrows, hrepo] at hcount
  have hbeside : t.atlas.symbolCountBeside (.str "r") [] = 1 := by
    rw [ht]
    decide +kernel
  exact ⟨s, t, _, hworked, hsecond, ⟨r, hr, hsymbols⟩, hcount, hbeside⟩

/-- The second job finds nothing new, and so the registry forgets the symbol that the first one stored. -/
theorem second_job_forgets_symbol : ∃ s t r, Sample.repeating.Worked [] ∧
    Sample.repeating.HasJob "j" Sample.registered .full ∧ s.HasJob "k" Sample.indexed .full ∧
    (runJob Sample.indexing "j").on Sample.repeating = (.ok (Sample.reported Sample.checkout), s) ∧
    (runJob Sample.indexing "k").on s = (.ok (Sample.reported (Sample.done Sample.checkout)), t) ∧
    (Sample.checkout.checkoutOf Sample.registered).files = .ok ["a.py"] ∧
    (s.atlas.checkoutOf Sample.indexed).files = .ok ["a.py"] ∧
    ((Sample.reported Sample.checkout).yield.chunks.map (·.id)).Nodup ∧
    t.repos.get? (.str "r") = some r ∧ r.symbols = .int 0 ∧ t.atlas.symbolCount (.str "r") = 1 := by
  obtain ⟨s, t, hjob, hfirst, hs, hjob', hsecond, ht, hsymbols⟩ := Sample.runs
  obtain ⟨r, hr, hsymbols⟩ := Option.map_eq_some_iff.1 hsymbols
  refine ⟨s, t, r, Sample.worked_repeating, hjob, hjob', hfirst, hsecond, (Sample.files_ok rfl rfl).1,
    hs ▸ Sample.files_done, by decide +kernel, hr, ?_, ?_⟩
  · rw [hsymbols]
    exact congrArg Value.int (by decide +kernel)
  · rw [ht]
    decide +kernel

end Service

end SourceAtlas
