import SourceAtlas.Json.Access
import SourceAtlas.Decimal.Fixed
import SourceAtlas.OrderedMap

/-!
# Index jobs

A job records one run over a repository. It is queued, then runs, and ends
completed or failed; a job that has ended does not change any more.
-/

namespace SourceAtlas.Index

open Json (Value Record Key)

inductive JobStatus where
  | queued | running | completed | failed
  deriving DecidableEq

namespace JobStatus

def name : JobStatus → String
  | queued => "queued"
  | running => "running"
  | completed => "completed"
  | failed => "failed"

def all : List JobStatus := [queued, running, completed, failed]

def ofValue : Value → Outcome JobStatus := named "JobStatus" all name

/-- The states that a job can enter from this one. -/
def next : JobStatus → List JobStatus
  | queued => [running, failed]
  | running => [running, completed, failed]
  | completed => []
  | failed => []

end JobStatus

/-- An incremental run pulls before it lists the files. -/
inductive IndexMode where
  | full | incremental
  deriving DecidableEq

namespace IndexMode

def name : IndexMode → String
  | full => "full"
  | incremental => "incremental"

def all : List IndexMode := [full, incremental]

def ofValue : Value → Outcome IndexMode := named "IndexMode" all name

end IndexMode

structure Job where
  id : String
  repo : Value
  mode : IndexMode
  status : JobStatus := .queued
  progress : Float := 0.0
  /-- What the job failed with, null if it did not. -/
  error : Value := .null
  created : Int
  updated : Int

namespace Job

def isFinished (j : Job) : Bool := j.status = .completed || j.status = .failed

def toRecord (j : Job) : Record :=
  [("job_id", j.id), ("repo_id", j.repo), ("mode", j.mode.name), ("status", j.status.name),
   ("progress", .float j.progress), ("error", j.error), ("created_at", .int j.created),
   ("updated_at", .int j.updated)]

end Job

/-- The id of the n-th job. -/
def jobId (n : Nat) : String := "job_" ++ String.ofList (Decimal.padLeft 12 (Nat.toDigits 16 n))

structure JobLedger where
  jobs : OrderedMap Key Job := .empty
  /-- The state of a job after each update, the latest one last. -/
  history : List Job := []

/-- Checks that a progress lies between zero and one. -/
def checkProgress (progress : Value) : Outcome Float :=
  match progress.number? with
  | none => misfit
  | some x =>
    if x = .undefined || x.lt (.ofInt 0) || Decimal.Extended.lt (.ofInt 1) x then
      throw (.badValue ("Progress must be within [0, 1], got " ++ Json.shown progress))
    else asFloat progress

namespace JobLedger

def create (l : JobLedger) (id : String) (repo : Value) (mode : IndexMode) (now : Int) :
    JobLedger × Job :=
  let job : Job := { id, repo, mode, created := now, updated := now }
  ({ l with jobs := l.jobs.insert id job }, job)

def find (l : JobLedger) (id : Key) : Outcome Job :=
  match l.jobs.get? id with
  | some job => pure job
  | none => throw (.unknownJob id.toValue)

/-- Moves a job to a state. A progress that is null leaves the one that there is; the error is
replaced in any case. -/
def update (l : JobLedger) (id : Value) (status : JobStatus) (progress error : Value)
    (now : Int) : Outcome (JobLedger × Job) := do
  let progress ← optional checkProgress progress
  let key ← asKey id
  let job ← l.find key
  if !job.status.next.contains status then
    throw (.forbiddenTransition id job.status.name status.name)
  let job := { job with status, progress := progress.getD job.progress, error, updated := now }
  pure ({ jobs := l.jobs.insert key job, history := l.history ++ [job] }, job)

/-- The jobs of a repository, the oldest first. -/
def ofRepo (l : JobLedger) (repo : Value) : List Job :=
  (l.jobs.values.filter (·.repo.same repo)).mergeSort fun a b => a.created ≤ b.created

end JobLedger

end SourceAtlas.Index
