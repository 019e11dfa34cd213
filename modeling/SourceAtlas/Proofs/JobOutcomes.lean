import SourceAtlas.Proofs.Chunks
import SourceAtlas.Proofs.Jobs

/-!
# How jobs end

A run tells the ledger how far it got at five points, and stops at the first
stage that fails. The job then fails with that, at the point that it had
reached. Whatever happens, a run concerns one job and one repository.
-/

namespace SourceAtlas

open Json (Value Key)
open Act (Keeps)

/-! ## Records under their own ids -/

theorem Index.JobLedger.find_ok_iff {l : Index.JobLedger} {key : Key} {job : Index.Job} :
    l.find key = .ok job ↔ l.jobs.get? key = some job := by
  unfold find
  cases l.jobs.get? key <;> simp [pure, Except.pure]

theorem Index.Registry.find_ok_iff {x : Index.Registry} {key : Key} {r : Index.Repository} :
    x.find key = .ok r ↔ x.get? key = some r := by
  unfold find
  cases x.get? key <;> simp [pure, Except.pure]

theorem Index.Registry.of_find_error {x : Index.Registry} {key : Key} {f : Failure} (h : x.find key = .error f) :
    f = .unknownRepository key.toValue ∧ x.contains key = false := by
  unfold find at h
  rw [OrderedMap.contains_eq]
  cases hr : x.get? key with
  | some r => rw [hr] at h; cases h
  | none =>
    rw [hr] at h
    exact ⟨(Except.error.inj h).symm, rfl⟩

theorem ofValue?_eq_some_iff {v : Value} {key : Key} : Key.ofValue? v = some key ↔ v = key.toValue := by
  constructor
  · intro h
    cases v <;> cases h <;> rfl
  · rintro rfl
    cases key <;> rfl

theorem asKey_eq_ok_iff {v : Value} {key : Key} : asKey v = .ok key ↔ v = key.toValue := by
  rw [← ofValue?_eq_some_iff, asKey]
  cases Key.ofValue? v <;> simp [pure, Except.pure]

namespace Index

/-! ## How far a run got -/

/-- The progress that the ledger is told at the start of a run and after each part of it. -/
def checkpoints : List Float := [0.0, 0.3, 0.6, 0.8, 1.0]

theorem optional_checkProgress {p : Float} (h : p ∈ checkpoints) :
    optional checkProgress (.float p) = .ok (some p) := by
  have hall : ∀ p ∈ checkpoints, (checkProgress (.float p)).toBool = true := by decide +kernel
  have hcheck := hall p h
  simp only [optional, checkProgress, Value.number?] at hcheck ⊢
  split at hcheck
  · cases hcheck
  · rename_i hin
    rw [if_neg hin]
    rfl

/-- What a ledger is told of progress by updates. A failure says nothing of it. -/
def told (news : List Job) : List Float := (news.filter (·.status ≠ .failed)).map Job.progress

namespace JobLedger

def noting (l : JobLedger) (j : Job) (news : List Job) : JobLedger :=
  ⟨l.jobs.insert (.str j.id) j, l.history ++ news⟩

variable {l m : JobLedger} {job j : Job} {status : JobStatus} {progress error e : Value}
  {p : Option Float} {n : Nat} {now : Int}

theorem noting_nil (h : l.jobs.get? (.str job.id) = some job) : l.noting job [] = l := by
  rw [noting, OrderedMap.insert_of_get? h, List.append_nil]

theorem update_noting (l : JobLedger) (news : List Job) (hnext : status ∈ j.status.next)
    (hp : optional checkProgress progress = .ok p) (error : Value) (now : Int) :
    let next : Job := { j with status, progress := p.getD j.progress, error, updated := now }
    (l.noting j news).update (.str j.id) status progress error now =
      .ok (l.noting next (news ++ [next]), next) := by
  have hfind : (l.noting j news).find (.str j.id) = .ok j :=
    find_ok_iff.2 ((OrderedMap.get?_insert ..).trans (if_pos BEq.rfl))
  simp only [update, hp, asKey_str, hfind, bind, Except.bind]
  simp [hnext, pure, Except.pure, noting, OrderedMap.insert_insert]

/-- What an update does when it is accepted, and when that is. -/
theorem update_ok_iff {id : Value} : l.update id status progress error now = .ok (m, j) ↔
    ∃ p key job, optional checkProgress progress = .ok p ∧ asKey id = .ok key ∧ l.jobs.get? key = some job ∧
      status ∈ job.status.next ∧ j = { job with status, progress := p.getD job.progress, error, updated := now } ∧
      m = ⟨l.jobs.insert key j, l.history ++ [j]⟩ := by
  simp only [update, bind_eq_ok, find_ok_iff]
  constructor
  · rintro ⟨p, hp, key, hkey, job, hjob, h⟩
    by_cases hnext : status ∈ job.status.next
    · simp only [hnext, List.contains_eq_mem, decide_true, Bool.not_true, Bool.false_eq_true, reduceIte] at h
      obtain ⟨rfl, rfl⟩ := Prod.mk.inj (Except.ok.inj h)
      exact ⟨p, key, job, hp, hkey, hjob, hnext, rfl, rfl⟩
    · simp [hnext] at h
      cases h
  · rintro ⟨p, key, job, hp, hkey, hjob, hnext, rfl, rfl⟩
    refine ⟨p, hp, key, hkey, job, hjob, ?_⟩
    simp [hnext]
    rfl

theorem of_update {id : Value} (h : l.jobs.KeyedBy fun j => .str j.id)
    (hupdate : l.update id status progress error now = .ok (m, j)) : m.jobs.KeyedBy fun j => .str j.id := by
  obtain ⟨p, key, job, -, -, hjob, -, rfl, rfl⟩ := update_ok_iff.1 hupdate
  have hkey := h.of_get? hjob
  exact h.insert key hkey

/-- Whether a ledger is an earlier one after a run of a job. The run told of the first checkpoints, up to
the n-th, and left the job there, in this state, with this error. -/
def Shows (l : JobLedger) (job : Job) (status : JobStatus) (error : Value) (n : Nat) (now : Int) (m : JobLedger) :
    Prop :=
  ∃ p news, checkpoints[n]? = some p ∧ told news = checkpoints.take (n + 1) ∧
    m = l.noting { job with status, progress := p, error, updated := now } news

theorem Shows.start (hjob : l.jobs.get? (.str job.id) = some job) (hopen : job.isFinished = false) (now : Int) :
    ∃ m j, l.update (.str job.id) .running (.float 0.0) .null now = .ok (m, j) ∧
    l.Shows job .running .null 0 now m := by
  have hnext : JobStatus.running ∈ job.status.next := by
    unfold Job.isFinished at hopen
    cases hs : job.status <;> simp_all [JobStatus.next]
  have h := update_noting l [] hnext (optional_checkProgress (p := 0.0) List.mem_cons_self) .null now
  rw [noting_nil hjob] at h
  exact ⟨_, _, h, 0.0, _, rfl, rfl, rfl⟩

theorem Shows.next (h : l.Shows job .running e n now m) {q : Float} (hq : checkpoints[n + 1]? = some q)
    (hnext : status ∈ JobStatus.running.next) (hstatus : status ≠ .failed) (error : Value) (later : Int) :
    ∃ o j, m.update (.str job.id) status (.float q) error later = .ok (o, j) ∧
      l.Shows job status error (n + 1) later o := by
  obtain ⟨p, news, hp, htold, rfl⟩ := h
  refine ⟨_, _, update_noting (j := { job with status := .running, progress := p, error := e, updated := now })
    l news hnext (optional_checkProgress (List.mem_of_getElem? hq)) error later, q, _, hq, ?_, rfl⟩
  -- the first checkpoints have been told of, and this update tells of the next
  rw [List.take_add_one, hq, ← htold]
  simp [told, hstatus]

theorem Shows.fail (h : l.Shows job .running e n now m) (error : Value) (later : Int) :
    ∃ o j, m.update (.str job.id) .failed .null error later = .ok (o, j) ∧ l.Shows job .failed error n later o := by
  obtain ⟨p, news, hp, htold, rfl⟩ := h
  have hnext : JobStatus.failed ∈ JobStatus.running.next := by decide
  refine ⟨_, _, update_noting (j := { job with status := .running, progress := p, error := e, updated := now })
    l news hnext rfl error later, p, _, hp, ?_, rfl⟩
  rw [← htold]
  simp [told]

end JobLedger

def Repository.after (r : Repository) (status : IndexStatus) (new : Findings) (now : Int) : Repository :=
  { r with
    status
    commit := Registry.found r.commit new.commit
    languages := Registry.found r.languages new.languages
    files := Registry.found r.files new.files
    symbols := Registry.found r.symbols new.symbols
    indexedAt := if status = .indexed then .int now else r.indexedAt }

def Findings.Readable (new : Findings) : Prop := new.languages = .null ∨ ∃ m, new.languages = .obj m

theorem Findings.readable_empty : ({} : Findings).Readable := .inl rfl

theorem Report.readable (report : Report) : report.findings.Readable := .inr ⟨_, rfl⟩

theorem Registry.on_update {x : Registry} {r : Repository} {key : Key} {status : IndexStatus}
    {new : Findings} {now : Int} (hkey : (r.id == key) = true) (hnew : new.Readable) :
    (update key status new now).on (x.register r) =
      (.ok (r.after status new now), x.register (r.after status new now)) := by
  have hfind : (x.register r).find key = .ok r :=
    find_ok_iff.2 ((OrderedMap.get?_insert ..).trans (if_pos hkey))
  obtain ⟨languages, hread, hshown⟩ : ∃ languages, optional recordOf new.languages = .ok languages ∧
      (languages.map Value.obj).getD r.languages = found r.languages new.languages := by
    obtain h | ⟨m, h⟩ := hnew
    · exact ⟨none, by rw [h]; rfl, by rw [h]; rfl⟩
    · exact ⟨some m, by rw [h]; rfl, by rw [h]; rfl⟩
  simp only [update, Act.on_bind, Act.on_get, Act.on_ofOutcome, Act.on_modify, hfind, hread, hshown]
  simp only [register, OrderedMap.insert_insert]
  rfl

end Index

/-- How many stages of a job return before one fails. -/
def Stages.passed (stages : Stages) (r : Index.Repository) (mode : Index.IndexMode) (a : Atlas) : Nat :=
  match (stages.survey r mode).on a with
  | (.error _, _) => 0
  | (.ok report, a) =>
    match (stages.embed report.yield.chunks).on a with
    | (.error _, _) => 1
    | (.ok vectors, a) =>
      match (stages.store report.yield vectors).on a with
      | (.error _, _) => 2
      | (.ok _, a) => if ((stages.link report.yield.edges).on a).1.toBool then 4 else 3

namespace Service

variable {s : Service} {stages : Stages} {a : Atlas} {l m o : Index.JobLedger} {x : Index.Registry} {id : Value}
  {key repo : Key} {job j : Index.Job} {r : Index.Repository} {n : Nat} {now : Int}

/-! ## One update -/

theorem on_updateJob {status : Index.JobStatus} {progress error : Value}
    (h : m.update id status progress error a.disk.now = .ok (o, j)) :
    (updateJob id status progress error).on ⟨a, m, x⟩ = (.ok j, ⟨a, o, x⟩) := by
  rw [updateJob_on_eq, h]

theorem on_reach (h : l.Shows job .running .null n now m) {q : Float} (hq : Index.checkpoints[n + 1]? = some q)
    (a : Atlas) (x : Index.Registry) :
    ∃ o, (reach job q).on ⟨a, m, x⟩ = (.ok (), ⟨a, o, x⟩) ∧ l.Shows job .running .null (n + 1) a.disk.now o := by
  obtain ⟨o, j, hupdate, ho⟩ := h.next hq List.mem_cons_self (by decide) .null a.disk.now
  exact ⟨o, by rw [reach, Act.on_discard, on_updateJob hupdate], ho⟩

theorem on_updateRepository (r : Index.Repository) (hkey : (r.id == key) = true) (status : Index.IndexStatus)
    {new : Index.Findings} (hnew : new.Readable) (a : Atlas) (m : Index.JobLedger) (x : Index.Registry) :
    (discard (updateRepository key status new)).on ⟨a, m, x.register r⟩ =
      (.ok (), ⟨a, m, x.register (r.after status new a.disk.now)⟩) := by
  simp only [updateRepository, onRepos, Act.on_discard, Act.on_bind, Act.on_get, Act.on_within,
    Index.Registry.on_update hkey hnew]

/-! ## The stages -/

def work (stages : Stages) (job : Index.Job) (r : Index.Repository) : Act Service Index.Report := do
  let report ← onAtlas (stages.survey r job.mode)
  reach job 0.3
  let yield := report.yield
  let vectors ← onAtlas (stages.embed yield.chunks)
  reach job 0.6
  onAtlas (stages.store yield vectors)
  reach job 0.8
  onAtlas (stages.link yield.edges)
  discard (updateRepository r.id .indexed report.findings)
  discard (updateJob job.id .completed (.float 1.0) .null)
  pure report

theorem work_on (stages : Stages) (h : l.Shows job .running .null 0 now m) (a : Atlas) (x : Index.Registry)
    (r : Index.Repository) :
    match (stages.run r job.mode).on a with
    | (.ok report, b) => ∃ o, l.Shows job .completed .null 4 b.disk.now o ∧
        (work stages job r).on ⟨a, m, x.register { r with status := .indexing }⟩ =
          (.ok report, ⟨b, o, x.register (r.after .indexed report.findings b.disk.now)⟩)
    | (.error f, b) => ∃ n now o, n < 4 ∧ stages.passed r job.mode a = n ∧ l.Shows job .running .null n now o ∧
        (work stages job r).on ⟨a, m, x.register { r with status := .indexing }⟩ =
          (.error f, ⟨b, o, x.register { r with status := .indexing }⟩) := by
  simp only [work, Stages.run, Stages.passed, Act.on_bind, on_onAtlas]
  -- a stage that fails leaves the ledger as it was told of last
  cases (stages.survey r job.mode).on a with | mk o a =>
  cases o with
  | error f => exact ⟨0, now, m, by decide, rfl, h, rfl⟩
  | ok report =>
    obtain ⟨m₁, hreach₁, h₁⟩ := on_reach h (q := 0.3) rfl a (x.register { r with status := .indexing })
    simp only [hreach₁]
    cases (stages.embed report.yield.chunks).on a with | mk o b =>
    cases o with
    | error f => exact ⟨1, _, m₁, by decide, rfl, h₁, rfl⟩
    | ok vectors =>
      obtain ⟨m₂, hreach₂, h₂⟩ := on_reach h₁ (q := 0.6) rfl b (x.register { r with status := .indexing })
      simp only [hreach₂]
      cases (stages.store report.yield vectors).on b with | mk o c =>
      cases o with
      | error f => exact ⟨2, _, m₂, by decide, rfl, h₂, rfl⟩
      | ok v =>
        obtain ⟨m₃, hreach₃, h₃⟩ := on_reach h₂ (q := 0.8) rfl c (x.register { r with status := .indexing })
        simp only [hreach₃]
        cases (stages.link report.yield.edges).on c with | mk o d =>
        cases o with
        | error f => exact ⟨3, _, m₃, by decide, rfl, h₃, rfl⟩
        | ok w =>
          have hmark := on_updateRepository { r with status := .indexing } BEq.rfl .indexed report.readable d m₃ x
          have hnext : Index.JobStatus.completed ∈ Index.JobStatus.running.next := by decide
          obtain ⟨m₄, j, hupdate, h₄⟩ := h₃.next (q := 1.0) rfl hnext (by decide) .null d.disk.now
          refine ⟨m₄, h₄, ?_⟩
          simp only [hmark, Act.on_discard, on_updateJob hupdate, Act.on_pure]
          rfl

def giveUp (id : Value) (job : Index.Job) (f : Failure) : Act Service Index.Report := do
  discard (updateJob id .failed .null f.text)
  if let some repo := Key.ofValue? job.repo then
    if (← get).repos.contains repo then discard (updateRepository repo .failed {})
  throw f

theorem giveUp_on (h : l.Shows job .running .null n now m) (hrepo : job.repo = repo.toValue)
    (hkey : (r.id == repo) = true) (a : Atlas) (x : Index.Registry) (f : Failure) :
    ∃ o, l.Shows job .failed f.text n a.disk.now o ∧
      (giveUp (.str job.id) job f).on ⟨a, m, x.register { r with status := .indexing }⟩ =
        (.error f, ⟨a, o, x.register { r with status := .failed }⟩) := by
  obtain ⟨o, j, hupdate, ho⟩ := h.fail f.text a.disk.now
  have hmark := on_updateRepository { r with status := .indexing } hkey .failed Index.Findings.readable_empty a o x
  refine ⟨o, ho, ?_⟩
  -- the job may have another form of the id than the repository
  have hcontains : (x.register { r with status := .indexing }).contains repo = true := by
    rw [OrderedMap.contains_eq, Index.Registry.register, OrderedMap.get?_insert, if_pos hkey]
    rfl
  simp only [giveUp, Act.on_bind, Act.on_discard, on_updateJob hupdate, ofValue?_eq_some_iff.2 hrepo,
    Act.on_get, hcontains, reduceIte, hmark]
  rfl

theorem giveUp_unregistered (h : l.Shows job .running .null n now m)
    (hrepo : ∀ repo, job.repo = repo.toValue → x.contains repo = false) (a : Atlas) (f : Failure) :
    ∃ o, l.Shows job .failed f.text n a.disk.now o ∧
      (giveUp (.str job.id) job f).on ⟨a, m, x⟩ = (.error f, ⟨a, o, x⟩) := by
  obtain ⟨o, j, hupdate, ho⟩ := h.fail f.text a.disk.now
  refine ⟨o, ho, ?_⟩
  simp only [giveUp, Act.on_bind, Act.on_discard, on_updateJob hupdate]
  cases hread : Key.ofValue? job.repo with
  | none => rfl
  | some repo =>
    have hmissing := hrepo repo (ofValue?_eq_some_iff.1 hread)
    simp only [Act.on_bind, Act.on_get, hmissing, Bool.false_eq_true, reduceIte]
    rfl

/-! ## Whole runs -/

structure Keyed (s : Service) : Prop where
  jobs : s.jobs.jobs.KeyedBy fun j => .str j.id
  repos : s.repos.KeyedBy Index.Repository.id

theorem keyed_reopen (s : Service) : s.reopen.Keyed := ⟨.empty _, .empty _⟩

theorem Keyed.keeps_createJob (repo : Value) (mode : Index.IndexMode) : Keeps Keyed (createJob repo mode) :=
  fun _ h => ⟨h.jobs.insert _ BEq.rfl, h.repos⟩

theorem Keyed.keeps_updateJob (id : Value) (status : Index.JobStatus) (progress error : Value) :
    Keeps Keyed (updateJob id status progress error) := by
  intro s h
  rw [updateJob_on_eq]
  cases hupdate : s.jobs.update id status progress error s.atlas.disk.now with
  | error f => exact h
  | ok y => exact ⟨Index.JobLedger.of_update h.jobs hupdate, h.repos⟩

theorem Keyed.keeps_register (r : Index.Repository) : Keeps Keyed (onRepos (modify (·.register r))) :=
  fun _ h => ⟨h.jobs, h.repos.insert _ BEq.rfl⟩

theorem Keyed.keeps_updateRepository (key : Key) (status : Index.IndexStatus) (new : Index.Findings) :
    Keeps Keyed (updateRepository key status new) := by
  have hregister : ∀ r, Keeps (fun x : Index.Registry => x.KeyedBy Index.Repository.id) (modify (·.register r)) :=
    fun r => .modify fun _ h => h.insert _ BEq.rfl
  have hupdate : ∀ now, Keeps (fun x => x.KeyedBy Index.Repository.id) (Index.Registry.update key status new now) :=
    fun now => .bind .get fun _ => .bind (.ofOutcome _) fun _ => .bind (hregister _) fun _ =>
      .bind (.ofOutcome _) fun _ => .bind (hregister _) fun _ => .pure _
  exact .bind .get fun s => (hupdate _).part (fun _ h => h.repos) fun _ _ h hx => ⟨h.jobs, hx⟩

theorem Keyed.keeps_onAtlas {α : Type} (y : Act Atlas α) : Keeps Keyed (onAtlas y) :=
  .within y fun _ _ h => ⟨h.jobs, h.repos⟩

theorem Keyed.keeps_runStages (stages : Stages) (job : Index.Job) : Keeps Keyed (runStages stages job) := by
  have hreach : ∀ p, Keeps Keyed (reach job p) := fun p => .discard (keeps_updateJob _ _ _ _)
  refine .bind (hreach _) fun _ => .bind (.ofOutcome _) fun _ => .bind .get fun _ =>
    .bind (.ofOutcome _) fun r => ?_
  refine .bind (.discard (keeps_updateRepository _ _ _)) fun _ => .bind (keeps_onAtlas _) fun report => ?_
  refine .bind (hreach _) fun _ => .bind (keeps_onAtlas _) fun vectors => .bind (hreach _) fun _ => ?_
  refine .bind (keeps_onAtlas _) fun _ => .bind (hreach _) fun _ => .bind (keeps_onAtlas _) fun _ => ?_
  refine .bind (.discard (keeps_updateRepository _ _ _)) fun _ => ?_
  exact .bind (.discard (keeps_updateJob _ _ _ _)) fun _ => .pure _

theorem Keyed.keeps_giveUp (id : Value) (job : Index.Job) (f : Failure) : Keeps Keyed (giveUp id job f) := by
  refine .bind (.discard (keeps_updateJob _ _ _ _)) fun _ => ?_
  split
  · refine .bind .get fun _ => ?_
    split
    · exact .bind (.discard (keeps_updateRepository _ _ _)) fun _ => .throw f
    · exact .throw f
  · exact .throw f

theorem Keyed.of_find (h : s.Keyed) (hid : asKey id = .ok key) (hjob : s.jobs.find key = .ok job) :
    id = .str job.id ∧ s.jobs.jobs.get? (.str job.id) = some job := by
  rw [Index.JobLedger.find_ok_iff] at hjob
  obtain rfl := (Key.beq_str _ _).1 (h.jobs.of_get? hjob)
  exact ⟨asKey_eq_ok_iff.1 hid, hjob⟩

theorem Keyed.register (h : s.Keyed) (hr : s.repos.find repo = .ok r) :
    (r.id == repo) = true ∧ s.repos.register r = s.repos := by
  rw [Index.Registry.find_ok_iff] at hr
  have hkey := h.repos.of_get? hr
  exact ⟨BEq.symm hkey, OrderedMap.insert_of_get? (s.repos.get?_congr hkey ▸ hr)⟩

theorem start_on (hjob : l.jobs.get? (.str job.id) = some job) (hopen : job.isFinished = false) (a : Atlas)
    (x : Index.Registry) :
    ∃ m, l.Shows job .running .null 0 a.disk.now m ∧ (reach job 0.0).on ⟨a, l, x⟩ = (.ok (), ⟨a, m, x⟩) := by
  obtain ⟨m, j, hupdate, hm⟩ := Index.JobLedger.Shows.start hjob hopen a.disk.now
  exact ⟨m, hm, by rw [reach, Act.on_discard, on_updateJob hupdate]⟩

theorem runStages_of_find_ok (h : s.Keyed) (hr : (asKey job.repo >>= s.repos.find) = .ok r)
    (hstart : (reach job 0.0).on s = (.ok (), ⟨s.atlas, m, s.repos⟩)) :
    (runStages stages job).on s =
      (work stages job r).on ⟨s.atlas, m, s.repos.register { r with status := .indexing }⟩ := by
  obtain ⟨repo, hrepo, hfind⟩ := bind_eq_ok.1 hr
  have hmark := on_updateRepository r BEq.rfl .indexing Index.Findings.readable_empty s.atlas m s.repos
  rw [(h.register hfind).2] at hmark
  change (do
    reach job 0.0
    let repo ← Act.ofOutcome (asKey job.repo)
    let r ← Act.ofOutcome ((← get).repos.find repo)
    discard (updateRepository r.id .indexing {})
    work stages job r : Act Service Index.Report).on s = _
  simp only [Act.on_bind, hstart, Act.on_ofOutcome, hrepo, Act.on_get, hfind, hmark]
  rfl

theorem runStages_of_find_error {f : Failure} (hr : (asKey job.repo >>= s.repos.find) = .error f)
    (hstart : (reach job 0.0).on s = (.ok (), ⟨s.atlas, m, s.repos⟩)) :
    (runStages stages job).on s = (.error f, ⟨s.atlas, m, s.repos⟩) := by
  rw [runStages, Act.on_bind_ok hstart]
  obtain hread | ⟨repo, hread, hfind⟩ := bind_eq_error.1 hr
  · simp only [Act.on_bind, Act.on_ofOutcome, hread]
  · simp only [Act.on_bind, Act.on_ofOutcome, hread, Act.on_get, hfind]

theorem runJob_finished (hid : asKey id = .ok key) (hjob : s.jobs.find key = .ok job)
    (hdone : job.isFinished = true) :
    (runJob stages id).on s =
      (.error (.forbiddenTransition id job.status.name Index.JobStatus.running.name), s) := by
  simp only [runJob, Act.on_bind, Act.on_get, Act.on_liftOutcome, Act.on_ofOutcome, hid, hjob, hdone, reduceIte,
    Act.on_throw]

theorem runJob_open (hid : asKey id = .ok key) (hjob : s.jobs.find key = .ok job) (hopen : job.isFinished = false) :
    (runJob stages id).on s = match (runStages stages job).on s with
      | (.ok report, t) => (.ok report, t)
      | (.error f, t) => (giveUp id job f).on t := by
  simp only [runJob, Act.on_bind, Act.on_get, Act.on_liftOutcome, Act.on_ofOutcome, hid, hjob, hopen,
    Bool.false_eq_true, reduceIte, Act.on_attempt]
  obtain ⟨o, t⟩ := (runStages stages job).on s
  cases o <;> rfl

/-- However a job ends, the records stay under their ids. -/
theorem Keyed.keeps_runJob (stages : Stages) (id : Value) : Keeps Keyed (runJob stages id) := by
  intro s h
  cases hid : asKey id with
  | error f =>
    simp only [runJob, Act.on_bind, Act.on_get, Act.on_liftOutcome, hid]
    exact h
  | ok key =>
    cases hjob : s.jobs.find key with
    | error f =>
      simp only [runJob, Act.on_bind, Act.on_get, Act.on_liftOutcome, Act.on_ofOutcome, hid, hjob]
      exact h
    | ok job =>
      cases hdone : job.isFinished with
      | true => rwa [runJob_finished hid hjob hdone]
      | false =>
        have hstages := keeps_runStages stages job s h
        rw [runJob_open hid hjob hdone]
        generalize (runStages stages job).on s = y at hstages ⊢
        obtain ⟨o, t⟩ := y
        cases o with
        | ok report => exact hstages
        | error f => exact keeps_giveUp id job f t hstages

theorem Keyed.on_runJob {report : Index.Report} {b : Atlas} (h : s.Keyed) (hid : asKey id = .ok key)
    (hjob : s.jobs.find key = .ok job)
    (hopen : job.isFinished = false) (hr : (asKey job.repo >>= s.repos.find) = .ok r)
    (hrun : (stages.run r job.mode).on s.atlas = (.ok report, b)) :
    ∃ o, s.jobs.Shows job .completed .null 4 b.disk.now o ∧ (runJob stages id).on s =
      (.ok report, ⟨b, o, s.repos.register (r.after .indexed report.findings b.disk.now)⟩) := by
  obtain ⟨-, hstored⟩ := h.of_find hid hjob
  obtain ⟨m, hm, hstart⟩ := start_on hstored hopen s.atlas s.repos
  have hwork := work_on stages hm s.atlas s.repos r
  rw [hrun] at hwork
  obtain ⟨o, ho, hwork⟩ := hwork
  exact ⟨o, ho, by rw [runJob_open hid hjob hopen, runStages_of_find_ok h hr hstart, hwork]⟩

/-- A finished job is refused. Any other job runs its stages and tells the ledger how far it gets, and
ends as they do. Its repository ends with it if it is registered. Nothing else changes. -/
theorem Keyed.run_ends (h : s.Keyed) (stages : Stages) (hid : asKey id = .ok key)
    (hjob : s.jobs.find key = .ok job) :
    if job.isFinished then
      (runJob stages id).on s = (.error (.forbiddenTransition id job.status.name Index.JobStatus.running.name), s)
    else match asKey job.repo >>= s.repos.find with
      | .error f => (∀ repo, asKey job.repo = .ok repo → f = .unknownRepository job.repo) ∧
          ∃ m, s.jobs.Shows job .failed f.text 0 s.atlas.disk.now m ∧
            (runJob stages id).on s = (.error f, { s with jobs := m })
      | .ok r => match (stages.run r job.mode).on s.atlas with
        | (.ok report, a) => ∃ m, s.jobs.Shows job .completed .null 4 a.disk.now m ∧
            (runJob stages id).on s =
              (.ok report, ⟨a, m, s.repos.register (r.after .indexed report.findings a.disk.now)⟩)
        | (.error f, a) => ∃ n m, n < 4 ∧ stages.passed r job.mode s.atlas = n ∧
            s.jobs.Shows job .failed f.text n a.disk.now m ∧
            (runJob stages id).on s = (.error f, ⟨a, m, s.repos.register { r with status := .failed }⟩) := by
  split
  · exact runJob_finished hid hjob ‹_›
  have hopen : job.isFinished = false := Bool.eq_false_iff.2 ‹_›
  obtain ⟨rfl, hlisted⟩ := h.of_find hid hjob
  obtain ⟨m, hm, hstart⟩ := start_on hlisted hopen s.atlas s.repos
  rw [runJob_open hid hjob hopen]
  cases hr : asKey job.repo >>= s.repos.find with
  | error f =>
    have hmissing : ∀ repo, job.repo = repo.toValue → f = .unknownRepository job.repo ∧
        s.repos.contains repo = false := by
      intro repo hread
      rw [hread, asKey_toValue] at hr
      exact hread ▸ Index.Registry.of_find_error hr
    obtain ⟨o, ho, hgiveUp⟩ := giveUp_unregistered hm (fun repo hread => (hmissing repo hread).2) s.atlas f
    rw [runStages_of_find_error hr hstart]
    exact ⟨fun repo hread => (hmissing repo (asKey_eq_ok_iff.1 hread)).1, o, ho, hgiveUp⟩
  | ok r =>
    obtain ⟨repo, hrepo, hfind⟩ := bind_eq_ok.1 hr
    have hwork := work_on stages hm s.atlas s.repos r
    rw [runStages_of_find_ok h hr hstart]
    dsimp only
    cases hrun : (stages.run r job.mode).on s.atlas with | mk o a =>
    rw [hrun] at hwork
    cases o with
    | ok report =>
      obtain ⟨o, ho, hwork⟩ := hwork
      exact ⟨o, ho, by rw [hwork]⟩
    | error f =>
      obtain ⟨n, now, o, hn, hpassed, ho, hwork⟩ := hwork
      obtain ⟨t, ht, hgiveUp⟩ := giveUp_on ho (asKey_eq_ok_iff.1 hrepo) (h.register hfind).1 a s.repos f
      refine ⟨n, t, hn, hpassed, ht, ?_⟩
      rw [hwork]
      exact hgiveUp

namespace Sample

def registered : Index.Repository := { id := "r", workspace := "ws", name := "r", path := .ofString "r" }

def queued : Index.Job := { id := "j", repo := "r", mode := .full, created := 0, updated := 0 }

def employed : Service where
  atlas := Atlas.open {} { directory := .ofString "data", clock := 0 }
  jobs := { jobs := OrderedMap.empty.insert "j" queued }
  repos := Index.Registry.register .empty registered

def halting : Stages where
  survey r _ := pure { repo := r.id }
  embed _ := throw (.badValue "no vectors")
  store _ _ := pure ()
  link _ := pure ()

end Sample

theorem run_ends_unembedded : Sample.employed.Keyed ∧ ∃ m now,
    Sample.employed.jobs.Shows Sample.queued .failed "no vectors" 1 now m ∧
      (runJob Sample.halting "j").on Sample.employed = (.error (.badValue "no vectors"),
        { Sample.employed with
          jobs := m, repos := Sample.employed.repos.register { Sample.registered with status := .failed } }) := by
  have hkeyed : Sample.employed.Keyed :=
    { jobs := (OrderedMap.KeyedBy.empty fun j : Index.Job => Key.str j.id).insert "j" (v := Sample.queued) BEq.rfl
      repos := (OrderedMap.KeyedBy.empty Index.Repository.id).insert "r" (v := Sample.registered) BEq.rfl }
  have hjob : Sample.employed.jobs.find "j" = .ok Sample.queued := rfl
  obtain ⟨n, m, -, hn, hm, hrun⟩ := hkeyed.run_ends Sample.halting (asKey_str "j") hjob
  obtain rfl : 1 = n := hn
  exact ⟨hkeyed, m, _, hm, hrun⟩

end Service

end SourceAtlas
