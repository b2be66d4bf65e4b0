import SoloPool.Pool.Step

namespace erikslund

open util bitcoin stratum

/-- `job` with the sequence number it is published under. -/
def JobCache.stamp (cache : JobCache) (job : Job) : Job := job.set_publication_sequence (cache.publish_counter + 1)

namespace Pool

variable (setup : Setup) (env : Environment) (publisher : Publisher)

/-- What one turn of `broadcast_job` can do. -/
inductive BroadcastStep (pool : Pool) : Broadcast → Pool → Broadcast → Prop where
  | published (job : Job) (clean require_new_prevhash : Bool)
      (houtcome : pool.cache.outcome job require_new_prevhash = .Published) :
      BroadcastStep pool (.publishing job clean require_new_prevhash)
        { pool with
          cache := pool.cache.store job
          history := ⟨publisher, pool.cache.stamp job, .Published⟩ :: pool.history }
        (.published (pool.cache.stamp job) clean)
  | refused (job : Job) (clean require_new_prevhash : Bool)
      (hrefused : pool.cache.outcome job require_new_prevhash ≠ .Published) :
      BroadcastStep pool (.publishing job clean require_new_prevhash)
        { pool with history := ⟨publisher, job, pool.cache.outcome job require_new_prevhash⟩ :: pool.history }
        (.done (pool.cache.outcome job require_new_prevhash))
  | alone (job : Job) (clean : Bool) (hclients : pool.clients = []) :
      BroadcastStep pool (.published job clean) pool (.done .Published)
  | snapshot (job : Job) (clean : Bool) :
      BroadcastStep pool (.published job clean) { pool with broadcast_cursor := pool.broadcast_cursor + 1 }
        (.delivering job clean (recipients pool.clients pool.broadcast_cursor))
  | returned (job : Job) (clean : Bool) :
      BroadcastStep pool (.delivering job clean []) pool (.done .Published)
  | delivered (job : Job) (clean : Bool) (recipient : ClientRef) (rest : List ClientRef) :
      BroadcastStep pool (.delivering job clean (recipient :: rest))
        (pool.deliver setup env job clean recipient) (.delivering job clean rest)

theorem broadcast_job_spec (pool : Pool) {broadcast : Broadcast} (hrunning : ∀ outcome, broadcast ≠ .done outcome) :
    BroadcastStep setup env publisher pool broadcast
      (pool.broadcast_job setup env publisher broadcast).1
      (pool.broadcast_job setup env publisher broadcast).2 := by
  cases broadcast with
  | publishing job clean require_new_prevhash =>
    by_cases houtcome : pool.cache.outcome job require_new_prevhash = .Published
    · have hcurrent : (pool.cache.store job).current_job = some (pool.cache.stamp job) := rfl
      simp only [broadcast_job, JobCache.publish, houtcome, hcurrent, Option.filter_some, decide_true, if_true,
        Option.getD_some]
      exact .published job clean require_new_prevhash houtcome
    · have hpublish : pool.cache.publish job require_new_prevhash =
          (pool.cache.outcome job require_new_prevhash, pool.cache) := by
        unfold JobCache.publish
        cases h : pool.cache.outcome job require_new_prevhash <;> simp_all
      have hnone : pool.cache.current_job.filter
          (fun _ => pool.cache.outcome job require_new_prevhash = .Published) = none := by
        simp [houtcome]
      simp only [broadcast_job, hpublish, hnone, Option.getD_none]
      exact .refused job clean require_new_prevhash houtcome
  | published job clean =>
    by_cases hclients : pool.clients = []
    · simpa [broadcast_job, hclients] using BroadcastStep.alone job clean hclients
    · simpa [broadcast_job, hclients] using BroadcastStep.snapshot job clean
  | delivering job clean recipients =>
    cases recipients with
    | nil => exact .returned job clean
    | cons recipient rest => exact .delivered job clean recipient rest
  | done outcome => exact absurd rfl (hrunning outcome)

variable {setup env publisher} {pool pool' : Pool}

variable (job : Job) (clean : Bool)

theorem deliver_sv2 (index : Nat) :
    ∃ publication_queue, pool.deliver setup env job clean (.sv2 index) =
      { pool with publication_queue } := by
  refine ⟨(pool.enqueue_publication (.sv2 index) job clean).publication_queue, ?_⟩
  simp only [deliver, enqueue_publication]
  split <;> rfl

/-- A delivery touches one SV1 session or the queue. -/
theorem deliver_eq (recipient : ClientRef) :
    ∃ sv1 publication_queue, pool.deliver setup env job clean recipient =
      { pool with sv1, publication_queue } := by
  cases recipient with
  | sv1 index => exact ⟨_, pool.publication_queue, rfl⟩
  | sv2 index => exact ⟨pool.sv1, deliver_sv2 job clean index⟩

/-- What the threads and the job cache hold, apart from the sessions. -/
structure SameCore (pool pool' : Pool) : Prop where
  cache : pool'.cache = pool.cache
  templates : pool'.templates = pool.templates
  work : pool'.work = pool.work
  zmq : pool'.zmq = pool.zmq
  history : pool'.history = pool.history

theorem SameCore.deliver (recipient : ClientRef) :
    SameCore pool (pool.deliver setup env job clean recipient) := by
  obtain ⟨sv1, publication_queue, heq⟩ := @deliver_eq setup env pool job clean recipient
  rw [heq]
  exact ⟨rfl, rfl, rfl, rfl, rfl⟩

end Pool

end erikslund
