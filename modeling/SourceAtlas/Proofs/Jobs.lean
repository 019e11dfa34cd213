import SourceAtlas.Proofs.Surveys
import SourceAtlas.Service

/-!
# Runs of jobs

A job that succeeds has run its four stages on the atlas, one after the other,
and has changed nothing else there. With the usual stages that is indexing the
repository.
-/

namespace SourceAtlas

open Json (Value Key)

def Stages.run (stages : Stages) (r : Index.Repository) (mode : Index.IndexMode) : Act Atlas Index.Report := do
  let report ← stages.survey r mode
  let vectors ← stages.embed report.yield.chunks
  stages.store report.yield vectors
  stages.link report.yield.edges
  pure report

namespace Service

def HasJob (s : Service) (id : Value) (r : Index.Repository) (mode : Index.IndexMode) : Prop :=
  ∃ key job repo, asKey id = .ok key ∧ s.jobs.find key = .ok job ∧ job.mode = mode ∧
    asKey job.repo = .ok repo ∧ s.repos.find repo = .ok r

variable {s t : Service}

@[simp] theorem on_onAtlas {α : Type} (x : Act Atlas α) (s : Service) :
    (onAtlas x).on s = ((x.on s.atlas).1, { s with atlas := (x.on s.atlas).2 }) := rfl

theorem of_onAtlas {α : Type} {x : Act Atlas α} {v : α} (h : (onAtlas x).on s = (.ok v, t)) :
    x.on s.atlas = (.ok v, t.atlas) ∧ t.repos = s.repos := by
  rw [on_onAtlas, Prod.mk.injEq] at h
  obtain ⟨hv, rfl⟩ := h
  exact ⟨Prod.ext hv rfl, rfl⟩

theorem updateJob_on_eq (id : Value) (status : Index.JobStatus) (progress error : Value) (s : Service) :
    (updateJob id status progress error).on s = match s.jobs.update id status progress error s.atlas.disk.now with
      | .ok (m, j) => (.ok j, { s with jobs := m })
      | .error f => (.error f, s) := by
  simp only [updateJob, Act.on_bind, Act.on_get, Act.on_ofOutcome]
  cases s.jobs.update id status progress error s.atlas.disk.now <;> rfl

theorem updateJob_on (id : Value) (status : Index.JobStatus) (progress error : Value) (s : Service) :
    ((updateJob id status progress error).on s).2.atlas = s.atlas ∧
      ((updateJob id status progress error).on s).2.repos = s.repos := by
  rw [updateJob_on_eq]
  cases s.jobs.update id status progress error s.atlas.disk.now <;> exact ⟨rfl, rfl⟩

theorem reach_on (job : Index.Job) (progress : Float) (s : Service) :
    ((reach job progress).on s).2.atlas = s.atlas ∧ ((reach job progress).on s).2.repos = s.repos := by
  have h := updateJob_on job.id .running (.float progress) .null s
  simp only [reach, Act.on_discard]
  generalize (updateJob job.id .running (.float progress) .null).on s = x at h ⊢
  obtain ⟨o, t⟩ := x
  cases o <;> exact h

theorem updateRepository_on (id : Key) (status : Index.IndexStatus) (found : Index.Findings) (s : Service) :
    ((updateRepository id status found).on s).2.atlas = s.atlas := by
  simp only [updateRepository, onRepos, Act.on_bind, Act.on_get, Act.on_within]

theorem on_discard_atlas {α : Type} {x : Act Service α} (h : (x.on s).2.atlas = s.atlas) :
    ((discard x).on s).2.atlas = s.atlas := by
  rw [Act.on_discard]
  generalize x.on s = r at h ⊢
  obtain ⟨o, t⟩ := r
  cases o <;> exact h

theorem of_runStages {stages : Stages} {job : Index.Job} {report : Index.Report}
    (h : (runStages stages job).on s = (.ok report, t)) :
    ∃ repo r, asKey job.repo = .ok repo ∧ s.repos.find repo = .ok r ∧
      (stages.run r job.mode).on s.atlas = (.ok report, t.atlas) := by
  unfold runStages at h
  obtain ⟨_, s₁, h₁, h⟩ := Act.bind_ok h
  obtain ⟨hatlas, hrepos⟩ := reach_on job 0.0 s
  rw [h₁] at hatlas hrepos
  obtain ⟨repo, s₂, h₂, h⟩ := Act.bind_ok h
  obtain ⟨hrepo, rfl⟩ := Act.of_ofOutcome h₂
  obtain ⟨_, s₃, h₃, h⟩ := Act.bind_ok h
  cases h₃
  obtain ⟨r, s₃, h₃, h⟩ := Act.bind_ok h
  obtain ⟨hr, rfl⟩ := Act.of_ofOutcome h₃
  rw [hrepos] at hr
  refine ⟨repo, r, hrepo, hr, ?_⟩
  obtain ⟨_, s₂, h₂, h⟩ := Act.bind_ok h
  have hatlas₂ := on_discard_atlas (updateRepository_on r.id .indexing {} s₁)
  rw [h₂] at hatlas₂
  obtain ⟨found, s₃, h₃, h⟩ := Act.bind_ok h
  obtain ⟨hsurvey, -⟩ := of_onAtlas h₃
  obtain ⟨_, s₄, h₄, h⟩ := Act.bind_ok h
  have hatlas₄ := (reach_on job 0.3 s₃).1
  rw [h₄] at hatlas₄
  obtain ⟨vectors, s₅, h₅, h⟩ := Act.bind_ok h
  obtain ⟨hembed, -⟩ := of_onAtlas h₅
  obtain ⟨_, s₆, h₆, h⟩ := Act.bind_ok h
  have hatlas₆ := (reach_on job 0.6 s₅).1
  rw [h₆] at hatlas₆
  obtain ⟨_, s₇, h₇, h⟩ := Act.bind_ok h
  obtain ⟨hstore, -⟩ := of_onAtlas h₇
  obtain ⟨_, s₈, h₈, h⟩ := Act.bind_ok h
  have hatlas₈ := (reach_on job 0.8 s₇).1
  rw [h₈] at hatlas₈
  obtain ⟨_, s₉, h₉, h⟩ := Act.bind_ok h
  obtain ⟨hlink, -⟩ := of_onAtlas h₉
  obtain ⟨_, s₁₀, h₁₀, h⟩ := Act.bind_ok h
  have hatlas₁₀ := on_discard_atlas (updateRepository_on r.id .indexed found.findings s₉)
  rw [h₁₀] at hatlas₁₀
  obtain ⟨_, s₁₁, h₁₁, h⟩ := Act.bind_ok h
  have hatlas₁₁ := on_discard_atlas (updateJob_on job.id .completed (.float 1.0) .null s₁₀).1
  rw [h₁₁] at hatlas₁₁
  obtain ⟨hreport, rfl⟩ := Prod.mk.inj (h : (Except.ok found, s₁₁) = _)
  obtain rfl := Except.ok.inj hreport
  dsimp only at hatlas hatlas₂ hatlas₄ hatlas₆ hatlas₈ hatlas₁₀ hatlas₁₁
  rw [hatlas₂, hatlas] at hsurvey
  rw [hatlas₄] at hembed
  rw [hatlas₆] at hstore
  rw [hatlas₈] at hlink
  rw [hatlas₁₁, hatlas₁₀, Stages.run, Act.on_bind_ok hsurvey, Act.on_bind_ok hembed, Act.on_bind_ok hstore,
    Act.on_bind_ok hlink]
  rfl

theorem of_runJob {stages : Stages} {id : Value} {report : Index.Report}
    (h : (runJob stages id).on s = (.ok report, t)) :
    ∃ key job repo r, asKey id = .ok key ∧ s.jobs.find key = .ok job ∧ asKey job.repo = .ok repo ∧
      s.repos.find repo = .ok r ∧ (stages.run r job.mode).on s.atlas = (.ok report, t.atlas) := by
  simp only [runJob, Act.on_bind, Act.on_get, Act.on_liftOutcome, Act.on_ofOutcome] at h
  cases hkey : asKey id with
  | error f => simp [hkey] at h
  | ok key =>
    cases hjob : s.jobs.find key with
    | error f => simp [hkey, hjob] at h
    | ok job =>
      simp only [hkey, hjob] at h
      cases hfinished : job.isFinished with
      | true => simp [hfinished] at h
      | false =>
        simp only [hfinished, Bool.false_eq_true, reduceIte, Act.on_bind, Act.on_attempt] at h
        cases hx : (runStages stages job).on s with
        | mk o u =>
          cases o with
          | ok found =>
            rw [hx] at h
            obtain ⟨hreport, rfl⟩ := Prod.mk.inj h
            obtain rfl := Except.ok.inj hreport
            obtain ⟨repo, r, hrepo, hr, hrun⟩ := of_runStages hx
            exact ⟨key, job, repo, r, rfl, hjob, hrepo, hr, hrun⟩
          | error f =>
            rw [hx] at h
            -- however the failure is recorded, it is what the job answers with
            obtain ⟨_, u₁, -, h⟩ := Act.bind_ok h
            split at h
            · obtain ⟨_, u₂, -, h⟩ := Act.bind_ok h
              split at h
              · obtain ⟨_, u₃, -, h⟩ := Act.bind_ok h
                cases h
              · cases h
            · cases h

/-- A job that succeeds ran its stages for its repository. -/
theorem HasJob.run {stages : Stages} {id : Value} {r : Index.Repository} {mode : Index.IndexMode}
    {report : Index.Report}
    (h : s.HasJob id r mode) (hok : (runJob stages id).on s = (.ok report, t)) :
    (stages.run r mode).on s.atlas = (.ok report, t.atlas) := by
  obtain ⟨key, job, repo, hkey, hjob, rfl, hrepo, hr⟩ := h
  obtain ⟨key', job', repo', r', hkey', hjob', hrepo', hr', hstages⟩ := of_runJob hok
  obtain rfl := Except.ok.inj (hkey.symm.trans hkey')
  obtain rfl := Except.ok.inj (hjob.symm.trans hjob')
  obtain rfl := Except.ok.inj (hrepo.symm.trans hrepo')
  obtain rfl := Except.ok.inj (hr.symm.trans hr')
  exact hstages

end Service

theorem Stages.usual_run (parse : Atlas.Parser) (workspace : Value) (cancelAfter : Option Nat)
    (r : Index.Repository) (mode : Index.IndexMode) (a : Atlas) :
    ((Stages.usual parse workspace cancelAfter).run r mode).on a =
      (Atlas.indexRepository parse r workspace mode true cancelAfter).on a := by
  simp only [Stages.run, Stages.usual, Atlas.indexRepository, Atlas.persist, Act.on_bind, Act.on_get,
    Act.on_ofOutcome, Atlas.on_survey, reduceIte]
  cases a.surveyed parse r workspace mode cancelAfter with
  | error f => rfl
  | ok report =>
    dsimp only
    cases a.embedChunks report.yield.chunks with
    | error f => rfl
    | ok vectors =>
      dsimp only
      generalize (Atlas.storeChunks report.yield.chunks vectors report.yield.rows).on a = x
      obtain ⟨o, m⟩ := x
      cases o with
      | error f => rfl
      | ok u => rfl

end SourceAtlas
