import Mathlib.Data.List.Chain
import SourceAtlas.Proofs.JobOutcomes

/-!
# Histories of jobs

Jobs are created and updated by calls in any order, of which any may be turned
down. What a job goes through is a path from the first state, and the last
state is final. A call that is turned down changes nothing.
-/

namespace SourceAtlas

open Json (Value Key)
open Decimal (Extended)

namespace Index

/-! ## Progress -/

def Within (x : Extended) : Prop := ∃ q : Rat, x = .exact q ∧ 0 ≤ q ∧ q ≤ 1

theorem within_iff (x : Extended) :
    Within x ↔ (x = .undefined || x.lt (.ofInt 0) || Extended.lt (.ofInt 1) x) = false := by
  cases x with
  | undefined => simp [Within]
  | infinite negative => cases negative <;> simp [Within, Extended.lt, Extended.ofInt]
  | exact q =>
    have hbounds : Within (.exact q) ↔ 0 ≤ q ∧ q ≤ 1 := by simp [Within]
    rw [hbounds, ← Rat.not_lt, ← Rat.not_lt]
    simp [Extended.lt, Extended.ofInt]

instance (x : Extended) : Decidable (Within x) := decidable_of_iff' _ (within_iff x)

/-- Whether a value may stand for the progress of a job. Null says nothing of it. -/
def Admissible (progress : Value) : Prop := progress = .null ∨ ∃ x, progress.number? = some x ∧ Within x

theorem floatOf_ok {n : Int} (h : ¬ Nat.pow 2 1024 - Nat.pow 2 970 ≤ n.natAbs) : floatOf n = .ok (Float.ofInt n) :=
  if_neg h

theorem checkProgress_of_within {v : Value} {x : Extended} (hv : v.number? = some x) (hx : Within x) :
    ∃ p, checkProgress v = .ok p ∧ Within (.ofFloat p) := by
  have hcheck : checkProgress v = asFloat v := by
    simp only [checkProgress, hv]
    rw [if_neg (Bool.eq_false_iff.1 ((within_iff x).1 hx))]
  rw [hcheck]
  cases v with
  | float y =>
    obtain rfl := Option.some.inj hv
    exact ⟨y, rfl, hx⟩
  | bool b => cases b <;> exact ⟨_, rfl, by decide +kernel⟩
  | int n =>
    obtain rfl := Option.some.inj hv
    -- of the whole numbers only zero and one lie there
    obtain ⟨q, hq, h0, h1⟩ := hx
    obtain rfl := Extended.exact.inj hq
    have h0 : 0 ≤ n := by exact_mod_cast h0
    have h1 : n ≤ 1 := by exact_mod_cast h1
    obtain rfl | rfl : n = 0 ∨ n = 1 := by omega
    · exact ⟨Float.ofInt 0, floatOf_ok (by decide +kernel), by decide +kernel⟩
    · exact ⟨Float.ofInt 1, floatOf_ok (by decide +kernel), by decide +kernel⟩
  | _ => cases hv

theorem of_checkProgress {v : Value} {p : Float} (h : checkProgress v = .ok p) :
    ∃ x, v.number? = some x ∧ Within x := by
  unfold checkProgress at h
  split at h
  · cases h
  · rename_i x hx
    split at h
    · cases h
    · rename_i hin
      exact ⟨x, hx, (within_iff x).2 (Bool.eq_false_iff.2 hin)⟩

theorem within_of_checkProgress {v : Value} {p : Float} (h : checkProgress v = .ok p) : Within (.ofFloat p) := by
  obtain ⟨x, hv, hx⟩ := of_checkProgress h
  obtain ⟨p', h', hp'⟩ := checkProgress_of_within hv hx
  rw [Except.ok.inj (h.symm.trans h')]
  exact hp'

theorem optional_ok_iff {α : Type} {read : Value → Outcome α} {v : Value} {a : Option α} :
    optional read v = .ok a ↔ v = .null ∧ a = none ∨ v ≠ .null ∧ ∃ b, read v = .ok b ∧ a = some b := by
  by_cases hnull : v = .null
  · subst hnull
    simp [optional, pure, Except.pure, eq_comm]
  · have hread : optional read v = some <$> read v := by
      unfold optional
      split
      · exact absurd rfl hnull
      · rfl
    rw [hread]
    cases read v <;> simp [hnull, Functor.map, Except.map, eq_comm]

theorem exists_progress_iff {progress : Value} :
    (∃ p, optional checkProgress progress = .ok p) ↔ Admissible progress := by
  simp only [optional_ok_iff, Admissible]
  constructor
  · rintro ⟨p, ⟨hnull, -⟩ | ⟨-, b, hb, -⟩⟩
    · exact .inl hnull
    · exact .inr (of_checkProgress hb)
  · rintro (hnull | ⟨x, hv, hx⟩)
    · exact ⟨none, .inl ⟨hnull, rfl⟩⟩
    · obtain ⟨p, hp, -⟩ := checkProgress_of_within hv hx
      exact ⟨some p, .inr ⟨(by rintro rfl; cases hv), p, hp, rfl⟩⟩

/-! ## What a job went through -/

def trail (js : List Job) (id : String) : List Job := js.filter (·.id = id)

def JobStatus.Path (ss : List JobStatus) : Prop := (∀ s ∈ ss.head?, s = .queued) ∧ ss.IsChain fun a b => b ∈ a.next

theorem trail_snoc (js : List Job) (j : Job) (id : String) :
    trail (js ++ [j]) id = trail js id ++ if j.id = id then [j] else [] := by
  simp [trail, List.filter_append, List.filter_singleton]

theorem JobStatus.Path.snoc {ss : List JobStatus} {a b : JobStatus} (h : Path ss) (hlast : ss.getLast? = some a)
    (hb : b ∈ a.next) : Path (ss ++ [b]) := by
  refine ⟨fun s hs => h.1 s ?_, List.isChain_append.2 ⟨h.2, List.isChain_singleton b, ?_⟩⟩
  · cases ss with
    | nil => cases hlast
    | cons c ss => exact hs
  · simp [hlast, hb]

/-- What a ledger has of its jobs is what calls answered last, after a path from the first state. -/
structure Recorded (js : List Job) (l : JobLedger) : Prop where
  keyed : l.jobs.KeyedBy fun j => .str j.id
  last : ∀ id, l.jobs.get? (.str id) = (trail js id).getLast?
  path : ∀ id, JobStatus.Path ((trail js id).map Job.status)
  within : ∀ j ∈ js, Within (.ofFloat j.progress)

theorem Recorded.empty {l : JobLedger} (h : l.jobs = .empty) : Recorded [] l where
  keyed := h ▸ .empty _
  last id := by rw [h]; rfl
  path id := ⟨fun s hs => (by cases hs), .nil⟩
  within j hj := absurd hj List.not_mem_nil

variable {js : List Job} {l m : JobLedger} {j : Job}

theorem Recorded.snoc (h : Recorded js l) {key : Key} (hkey : (key == .str j.id) = true)
    (hpath : JobStatus.Path ((trail js j.id).map Job.status ++ [j.status])) (hwithin : Within (.ofFloat j.progress))
    (history : List Job) : Recorded (js ++ [j]) ⟨l.jobs.insert key j, history⟩ := by
  refine ⟨h.keyed.insert key hkey, fun id => ?_, fun id => ?_, List.forall_mem_append.2 ⟨h.within, ?_⟩⟩
  · rw [OrderedMap.get?_insert, trail_snoc]
    by_cases hid : j.id = id
    · rw [if_pos (hid ▸ hkey), if_pos hid, List.getLast?_concat]
    · have hother : ¬ (key == .str id) = true := fun hk =>
        hid (Key.str.inj ((Key.beq_str _ _).1 (BEq.trans (BEq.symm hkey) hk)))
      rw [if_neg hother, if_neg hid, List.append_nil, h.last]
  · rw [trail_snoc]
    split
    · rename_i hid
      obtain rfl : j.id = id := hid
      rwa [List.map_append]
    · rw [List.append_nil]
      exact h.path id
  · intro k hk
    rwa [List.mem_singleton.1 hk]

theorem Recorded.created (h : Recorded js l) {id : String} (hnew : l.jobs.get? (.str id) = none) (repo : Value)
    (mode : IndexMode) (now : Int) :
    Recorded (js ++ [(l.create id repo mode now).2]) (l.create id repo mode now).1 := by
  have hnone : trail js id = [] := List.getLast?_eq_none_iff.1 ((h.last id).symm.trans hnew)
  refine h.snoc BEq.rfl ?_ (by decide +kernel : Within (.ofFloat 0.0)) l.history
  rw [show (l.create id repo mode now).2.id = id from rfl, hnone]
  exact ⟨fun s hs => (Option.some.inj hs).symm, List.isChain_singleton _⟩

theorem Recorded.updated (h : Recorded js l) {id progress error : Value} {status : JobStatus} {now : Int}
    (hok : l.update id status progress error now = .ok (m, j)) : Recorded (js ++ [j]) m := by
  obtain ⟨p, key, job, hp, -, hjob, hnext, rfl, rfl⟩ := JobLedger.update_ok_iff.1 hok
  have hkey := h.keyed.of_get? hjob
  have hlast : (trail js job.id).getLast? = some job := by rw [← h.last, ← l.jobs.get?_congr hkey, hjob]
  have hpath : JobStatus.Path ((trail js job.id).map Job.status ++ [status]) :=
    (h.path job.id).snoc (by rw [List.getLast?_map, hlast]; rfl) hnext
  refine h.snoc (j := { job with status, progress := p.getD job.progress, error, updated := now }) hkey hpath ?_ _
  have hold : Within (.ofFloat job.progress) := h.within job (List.mem_filter.1 (List.mem_of_getLast? hlast)).1
  obtain ⟨-, rfl⟩ | ⟨-, b, hb, rfl⟩ := optional_ok_iff.1 hp
  · exact hold
  · exact within_of_checkProgress hb

end Index

/-! ## Calls -/

namespace Service

open Index (JobLedger JobStatus Recorded trail Admissible Within)

variable {s t u : Service} {js : List Index.Job} {id progress error : Value} {status : JobStatus} {key : Key}
  {job : Index.Job}

theorem of_updateJob (h : (updateJob id status progress error).on s = (.ok job, t)) :
    s.jobs.update id status progress error s.atlas.disk.now = .ok (t.jobs, job) ∧
    t = { s with jobs := t.jobs } := by
  rw [updateJob_on_eq] at h
  split at h
  · rename_i m j hm
    obtain ⟨hj, rfl⟩ := Prod.mk.inj h
    obtain rfl := Except.ok.inj hj
    exact ⟨hm, rfl⟩
  · cases h

/-- An update that is turned down leaves everything as it was. -/
theorem of_updateJob_error {f : Failure} (h : (updateJob id status progress error).on s = (.error f, t)) :
    t = s := by
  rw [updateJob_on_eq] at h
  split at h
  · cases h
  · exact (Prod.mk.inj h).2.symm

/-- An update is accepted if its progress may be one and the job may enter the state. -/
theorem updateJob_returns_iff :
    (∃ j, ((updateJob id status progress error).on s).1 = .ok j) ↔
      Admissible progress ∧
        ∃ key job, asKey id = .ok key ∧ s.jobs.jobs.get? key = some job ∧ status ∈ job.status.next := by
  rw [updateJob_on_eq, ← Index.exists_progress_iff]
  constructor
  · rintro ⟨j, h⟩
    split at h
    · rename_i m k hm
      obtain ⟨p, key, job, hp, hkey, hjob, hnext, -⟩ := JobLedger.update_ok_iff.1 hm
      exact ⟨⟨p, hp⟩, key, job, hkey, hjob, hnext⟩
    · cases h
  · rintro ⟨⟨p, hp⟩, key, job, hkey, hjob, hnext⟩
    rw [JobLedger.update_ok_iff.2 ⟨p, key, job, hp, hkey, hjob, hnext, rfl, rfl⟩]
    exact ⟨_, rfl⟩

def nextId (s : Service) : String := Index.jobId (s.atlas.disk.jobCount + 1)

/-- Calls about jobs that lead from one state to another, with the jobs that they answered. A new
job gets a new id. Between calls all but the jobs may change. -/
inductive JobCalls (s : Service) : List Index.Job → Service → Prop
  | start : JobCalls s [] s
  | elsewhere {js : List Index.Job} {t : Service} (h : JobCalls s js t) (atlas : Atlas) (repos : Index.Registry) :
      JobCalls s js { t with atlas, repos }
  | created {js : List Index.Job} {t u : Service} {repo : Value} {mode : Index.IndexMode} {job : Index.Job}
      (h : JobCalls s js t) (hnew : t.jobs.jobs.get? (.str t.nextId) = none)
      (hok : (createJob repo mode).on t = (.ok job, u)) : JobCalls s (js ++ [job]) u
  | updated {js : List Index.Job} {t u : Service} {id progress error : Value} {status : JobStatus} {job : Index.Job}
      (h : JobCalls s js t) (hok : (updateJob id status progress error).on t = (.ok job, u)) :
      JobCalls s (js ++ [job]) u
  | refused {js : List Index.Job} {t u : Service} {id progress error : Value} {status : JobStatus} {f : Failure}
      (h : JobCalls s js t) (hno : (updateJob id status progress error).on t = (.error f, u)) : JobCalls s js u

theorem JobCalls.recorded (h : JobCalls s js t) (hs : s.jobs.jobs = .empty) : Recorded js t.jobs := by
  induction h with
  | start => exact .empty hs
  | elsewhere h atlas repos ih => exact ih
  | created h hnew hok ih =>
    obtain ⟨hjob, rfl⟩ := Prod.mk.inj hok
    rw [← Except.ok.inj hjob]
    exact ih.created hnew _ _ _
  | updated h hok ih => exact ih.updated (of_updateJob hok).1
  | refused h hno ih => exact of_updateJob_error hno ▸ ih

/-- Nothing of a finished job changes any more. -/
theorem JobCalls.final (h : JobCalls s js t) (hjob : s.jobs.jobs.get? key = some job)
    (hdone : job.isFinished = true) :
    t.jobs.jobs.get? key = some job := by
  induction h with
  | start => exact hjob
  | elsewhere h atlas repos ih => exact ih
  | @created js t u repo mode job' h hnew hok ih =>
    obtain ⟨-, rfl⟩ := Prod.mk.inj hok
    refine (OrderedMap.get?_insert ..).trans ((if_neg fun hkey => ?_).trans ih)
    have hnone : t.jobs.jobs.get? key = none := (t.jobs.jobs.get?_congr (BEq.symm hkey)).trans hnew
    cases ih.symm.trans hnone
  | updated h hok ih =>
    obtain ⟨p, key', old, -, -, hold, hnext, -, hm⟩ := JobLedger.update_ok_iff.1 (of_updateJob hok).1
    rw [hm]
    refine (OrderedMap.get?_insert ..).trans ((if_neg fun hkey => ?_).trans ih)
    -- no state follows the one that a finished job is in
    rw [OrderedMap.get?_congr _ hkey, ih] at hold
    obtain rfl := Option.some.inj hold
    cases hs : job.status <;> simp_all [Index.Job.isFinished, JobStatus.next]
  | refused h hno ih => exact of_updateJob_error hno ▸ ih

/-- Whatever calls come for whichever jobs: what a job goes through is a path from the first state, its
progress stays between zero and one, and once it is finished nothing of it changes. A call is turned down
just if the progress is out of bounds, the job unknown or the state not open to it, and then it changes nothing. -/
theorem JobCalls.lawful (h : JobCalls s js t) (hs : s.jobs.jobs = .empty) :
    (∀ id, t.jobs.jobs.get? (.str id) = (trail js id).getLast? ∧
      JobStatus.Path ((trail js id).map Index.Job.status)) ∧
      (∀ key job, t.jobs.jobs.get? key = some job → (key == .str job.id) = true) ∧
      (∀ j ∈ js, Within (.ofFloat j.progress)) ∧
      (∀ ks u, JobCalls t ks u → ∀ key job, t.jobs.jobs.get? key = some job → job.isFinished = true →
        u.jobs.jobs.get? key = some job) ∧
      ∀ id status progress error,
        ((∃ j, ((updateJob id status progress error).on t).1 = .ok j) ↔ Admissible progress ∧
          ∃ key job, asKey id = .ok key ∧ t.jobs.jobs.get? key = some job ∧ status ∈ job.status.next) ∧
        ∀ f u, (updateJob id status progress error).on t = (.error f, u) → u = t := by
  have hrecorded := h.recorded hs
  refine ⟨fun id => ⟨hrecorded.last id, hrecorded.path id⟩,
    fun key job => hrecorded.keyed.of_get?, hrecorded.within,
    fun ks u hlater key job => hlater.final, fun id status progress error => ⟨updateJob_returns_iff, ?_⟩⟩
  exact fun f u => of_updateJob_error

namespace Sample

def idle : Service where
  atlas := Atlas.open {} { directory := .ofString "data", clock := 0 }

def opened : Outcome Index.Job × Service := (createJob "r" .full).on idle

def firstId : String := idle.nextId

def halfway : Outcome Index.Job × Service := (updateJob firstId .running (.float 0.5) .null).on opened.2

def completed : Outcome Index.Job × Service := (updateJob firstId .completed (.int 1) .null).on halfway.2

def late : Outcome Index.Job × Service := (updateJob firstId .failed .null "late").on completed.2

def answers : List Index.Job := [opened, halfway, completed].map fun x => x.1.toOption.getD queued

end Sample

theorem JobCalls.lawful_of_late_failure :
    JobCalls Sample.idle Sample.answers Sample.late.2 ∧ Sample.late.1.toBool = false ∧
      (trail Sample.answers Sample.firstId).map Index.Job.status = [.queued, .running, .completed] ∧
      JobStatus.Path ((trail Sample.answers Sample.firstId).map Index.Job.status) ∧
      Sample.late.2.jobs.jobs.get? (.str Sample.firstId) = (trail Sample.answers Sample.firstId).getLast? := by
  have hopened : JobCalls Sample.idle [Sample.opened.1.toOption.getD Sample.queued] Sample.opened.2 :=
    JobCalls.start.created rfl (Act.on_eq_ok Sample.queued (by decide +kernel))
  have hhalfway := hopened.updated (u := Sample.halfway.2) (Act.on_eq_ok Sample.queued (by decide +kernel))
  have hdone := hhalfway.updated (u := Sample.completed.2) (Act.on_eq_ok Sample.queued (by decide +kernel))
  have hno : Sample.late.1.toBool = false := by decide +kernel
  obtain ⟨f, hf⟩ := eq_error hno
  have hcalls : JobCalls Sample.idle Sample.answers Sample.late.2 := hdone.refused (eq_of_fst hf)
  obtain ⟨hlast, hpath⟩ := (hcalls.lawful rfl).1 Sample.firstId
  exact ⟨hcalls, hno, by decide +kernel, hpath, hlast⟩

end Service

end SourceAtlas
