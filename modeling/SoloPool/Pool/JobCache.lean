import SoloPool.Stratum.Job

namespace erikslund

open util stratum

def kMaxRecentJobs : Nat := 24

inductive PublishOutcome where
  | Published
  | Duplicate
  | StaleHeight
  | StalePrevhash
deriving DecidableEq

/-- What `jobs_mutex_` guards. `recent_jobs` has at most one entry for a job id. -/
structure JobCache where
  current_job : Option Job
  recent_jobs : List (Text × Job)
  recent_order : List Text
  publish_counter : Nat
deriving DecidableEq

namespace JobCache

def empty : JobCache := ⟨none, [], [], 0⟩

variable (cache : JobCache) (job : Job)

def recent_job (job_id : Text) : Option Job :=
  (cache.recent_jobs.find? (fun entry => entry.1 = job_id)).map Prod.snd

/-- The eviction loop of `broadcast_job`. -/
def evict (recent_jobs : List (Text × Job)) : List Text → List (Text × Job) × List Text
  | [] => (recent_jobs, [])
  | front :: rest =>
    if (front :: rest).length > kMaxRecentJobs then
      evict (recent_jobs.filter (fun entry => entry.1 ≠ front)) rest
    else (recent_jobs, front :: rest)

/-- Make `job` the current one under the next sequence number. -/
def store : JobCache :=
  let job := job.set_publication_sequence (cache.publish_counter + 1)
  let recent := (job.job_id, job) :: cache.recent_jobs.filter (fun entry => entry.1 ≠ job.job_id)
  let evicted := evict recent (cache.recent_order ++ [job.job_id])
  { current_job := some job
    recent_jobs := evicted.1
    recent_order := evicted.2
    publish_counter := cache.publish_counter + 1 }

/-- The decision of `broadcast_job`, atomic with the publication. -/
def outcome (require_new_prevhash : Bool) : PublishOutcome :=
  match cache.current_job with
  | none => .Published
  | some current =>
    if current.work_signature = job.work_signature then .Duplicate
    else if job.height < current.height then .StaleHeight
    else if require_new_prevhash ∧ current.prevhash_stratum = job.prevhash_stratum then .StalePrevhash
    else .Published

/-- The critical section of `broadcast_job`. -/
def publish (require_new_prevhash : Bool) : PublishOutcome × JobCache :=
  match cache.outcome job require_new_prevhash with
  | .Published => (.Published, cache.store job)
  | outcome => (outcome, cache)

end JobCache

end erikslund
