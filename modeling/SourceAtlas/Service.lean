import SourceAtlas.Atlas.Indexing

/-!
# The indexing service

Jobs index registered repositories. A job goes through four stages, and the
ledger shows how far it got; whatever a stage fails with is kept with the job.
The stages work on the atlas and see neither ledger nor registry.
-/

namespace SourceAtlas

open Json (Value Key)

structure Service where
  atlas : Atlas
  jobs : Index.JobLedger := {}
  repos : Index.Registry := .empty

/-- The four stages of a job. -/
structure Stages where
  survey : Index.Repository → Index.IndexMode → Act Atlas Index.Report
  embed : List Chunk → Act Atlas (List Search.Components)
  store : Index.Yield → List Search.Components → Act Atlas Unit
  link : List Edge → Act Atlas Unit

/-- Surveys a repository for a workspace and stores what its files yield. -/
def Stages.usual (parse : Atlas.Parser) (workspace : Value) (cancelAfter : Option Nat) :
    Stages where
  survey r mode := Atlas.survey parse r workspace mode cancelAfter
  embed chunks := do Act.ofOutcome ((← get).embedChunks chunks)
  store yield vectors := Atlas.storeChunks yield.chunks vectors yield.rows
  link := Atlas.storeEdges

namespace Service

def onAtlas {α : Type} (x : Act Atlas α) : Act Service α :=
  Act.within Service.atlas (fun s atlas => { s with atlas }) x

instance (priority := low) : MonadLift (Act Atlas) (Act Service) := ⟨onAtlas⟩

def onRepos {α : Type} (x : Act Index.Registry α) : Act Service α :=
  Act.within Service.repos (fun s repos => { s with repos }) x

/-- Loses what is in memory. -/
def reopen (s : Service) : Service := { atlas := s.atlas.reopen }

def createJob (repo : Value) (mode : Index.IndexMode) : Act Service Index.Job := do
  let s ← get
  let disk := s.atlas.disk
  let n := disk.jobCount + 1
  let (jobs, job) := s.jobs.create (Index.jobId n) repo mode disk.now
  set { s with jobs, atlas := { s.atlas with disk := { disk with jobCount := n } } }
  pure job

def updateJob (id : Value) (status : Index.JobStatus) (progress error : Value) :
    Act Service Index.Job := do
  let s ← get
  let (jobs, job) ← Act.ofOutcome (s.jobs.update id status progress error s.atlas.disk.now)
  set { s with jobs }
  pure job

def updateRepository (id : Key) (status : Index.IndexStatus) (found : Index.Findings) :
    Act Service Index.Repository := do
  onRepos (Index.Registry.update id status found (← get).atlas.disk.now)

/-- Notes how far a job has got. -/
def reach (job : Index.Job) (progress : Float) : Act Service Unit :=
  discard (updateJob job.id .running (.float progress) .null)

/-- The stages of a job, with the progress after each. -/
def runStages (stages : Stages) (job : Index.Job) : Act Service Index.Report := do
  reach job 0.0
  let repo ← Act.ofOutcome (asKey job.repo)
  let r ← Act.ofOutcome ((← get).repos.find repo)
  discard (updateRepository r.id .indexing {})
  let report ← onAtlas (stages.survey r job.mode)
  reach job 0.3
  let yield := report.yield
  let vectors ← onAtlas (stages.embed yield.chunks)
  reach job 0.6
  onAtlas (stages.store yield vectors)
  reach job 0.8
  onAtlas (stages.link yield.edges)
  discard (updateRepository r.id .indexed report.findings)
  discard (updateJob job.id .completed (.float 1.0) .null)
  pure report

/-- Runs a job to its end. A job that fails keeps the text of the failure. -/
def runJob (stages : Stages) (id : Value) : Act Service Index.Report := do
  let job ← Act.ofOutcome ((← get).jobs.find (← asKey id))
  if job.isFinished then
    throw (.forbiddenTransition id job.status.name Index.JobStatus.running.name)
  match ← Act.attempt (runStages stages job) with
  | .ok report => pure report
  | .error f =>
    discard (updateJob id .failed .null f.text)
    if let some repo := Key.ofValue? job.repo then
      if (← get).repos.contains repo then discard (updateRepository repo .failed {})
    throw f

end Service

end SourceAtlas
