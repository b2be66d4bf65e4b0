import SoloPool.Pool.Changes

namespace erikslund

open util bitcoin stratum List

/-- The jobs published, newest first. -/
def published_jobs (history : List Attempt) : List Job :=
  history.filterMap (fun attempt => if attempt.outcome = .Published then some attempt.job else none)

def Pool.published (pool : Pool) : List Job := published_jobs pool.history

theorem mem_published_jobs {history : List Attempt} {job : Job} : job ∈ published_jobs history ↔
    ∃ attempt ∈ history, attempt.outcome = .Published ∧ attempt.job = job := by
  simp [published_jobs, mem_filterMap, Option.ite_none_right_eq_some]

namespace JobCache

theorem mem_of_mem_evict {recent_jobs : List (Text × Job)} {recent_order : List Text} {entry : Text × Job}
    (h : entry ∈ (evict recent_jobs recent_order).1) : entry ∈ recent_jobs := by
  induction recent_order generalizing recent_jobs with
  | nil => exact h
  | cons front rest ih =>
    unfold evict at h
    split at h
    · exact mem_of_mem_filter (ih h)
    · exact h

/-- The cache holds jobs that have been published, under their ids, the newest of them as
the current one, and numbers them in the order of their publication. -/
structure Logged (cache : JobCache) (published : List Job) : Prop where
  current : cache.current_job = published.head?
  newest : ∀ job ∈ cache.current_job, job.publication_sequence = cache.publish_counter
  bounds : ∀ job ∈ published, 0 < job.publication_sequence ∧ job.publication_sequence ≤ cache.publish_counter
  distinct : (published.map Job.publication_sequence).Nodup
  recent : ∀ entry ∈ cache.recent_jobs, entry.2 ∈ published ∧ entry.2.job_id = entry.1

theorem empty_logged : Logged empty [] := ⟨rfl, by simp [empty], by simp, by simp, by simp [empty]⟩

theorem Logged.store {cache : JobCache} {published : List Job} (h : Logged cache published) (job : Job) :
    Logged (cache.store job) (cache.stamp job :: published) := by
  refine ⟨rfl, ?_, ?_, ?_, ?_⟩
  · rintro _ ⟨⟩
    rfl
  · refine forall_mem_cons.mpr ⟨⟨Nat.succ_pos _, Nat.le_refl _⟩, fun older hmem => ?_⟩
    exact ⟨(h.bounds older hmem).1, Nat.le_succ_of_le (h.bounds older hmem).2⟩
  · refine nodup_cons.mpr ⟨fun hmem => ?_, h.distinct⟩
    obtain ⟨older, holder, hsame⟩ := mem_map.mp hmem
    have hle := (h.bounds older holder).2
    change older.publication_sequence = cache.publish_counter + 1 at hsame
    omega
  · intro entry hmem
    rcases mem_cons.mp (mem_of_mem_evict hmem) with rfl | hmem
    · exact ⟨mem_cons_self, rfl⟩
    · have hentry := h.recent entry (mem_of_mem_filter hmem)
      exact ⟨mem_cons_of_mem _ hentry.1, hentry.2⟩

variable {cache : JobCache} {published : List Job}

/-- A sequence number names one job. -/
theorem Logged.eq_of_sequence (h : Logged cache published) {job job' : Job} (hjob : job ∈ published)
    (hjob' : job' ∈ published) (hsame : job.publication_sequence = job'.publication_sequence) : job = job' :=
  inj_on_of_nodup_map h.distinct hjob hjob' hsame

theorem Logged.current_mem (h : Logged cache published) {job : Job} (hjob : cache.current_job = some job) :
    job ∈ published :=
  mem_of_mem_head? (h.current ▸ hjob)

theorem Logged.recent_job (h : Logged cache published) {job_id : Text} {job : Job}
    (hjob : cache.recent_job job_id = some job) : job ∈ published ∧ job.job_id = job_id := by
  obtain ⟨entry, hfound, rfl⟩ := Option.map_eq_some_iff.mp hjob
  have hentry := h.recent entry (mem_of_find?_eq_some hfound)
  have hid : entry.1 = job_id := by simpa using find?_some hfound
  exact ⟨hentry.1, hentry.2.trans hid⟩

/-- Published work has been current: nothing is newer than the current job. -/
theorem Logged.le_current (h : Logged cache published) {job current : Job} (hjob : job ∈ published)
    (hcurrent : cache.current_job = some current) : job.publication_sequence ≤ current.publication_sequence := by
  rw [h.newest current hcurrent]
  exact (h.bounds job hjob).2

end JobCache

namespace Pool

variable {setup : Setup} {env : Environment} {publisher : Publisher} {pool pool' : Pool}
  {broadcast broadcast' : Broadcast}

/-- A turn of `broadcast_job` publishes one job, or none. -/
theorem BroadcastStep.published_eq (h : BroadcastStep setup env publisher pool broadcast pool' broadcast') :
    (pool'.cache = pool.cache ∧ pool'.published = pool.published) ∨
      ∃ job clean require_new_prevhash, broadcast = .publishing job clean require_new_prevhash ∧
        pool'.cache = pool.cache.store job ∧ pool'.published = pool.cache.stamp job :: pool.published := by
  cases h with
  | published job clean require_new_prevhash houtcome =>
    exact .inr ⟨job, clean, require_new_prevhash, rfl, rfl, by simp [Pool.published, published_jobs]⟩
  | refused job clean require_new_prevhash hrefused =>
    exact .inl ⟨rfl, by simp [Pool.published, published_jobs, hrefused]⟩
  | alone => exact .inl ⟨rfl, rfl⟩
  | snapshot => exact .inl ⟨rfl, rfl⟩
  | returned => exact .inl ⟨rfl, rfl⟩
  | delivered job clean recipient rest =>
    have hcore := @SameCore.deliver setup env pool job clean recipient
    exact .inl ⟨hcore.cache, by rw [Pool.published, hcore.history, Pool.published]⟩

/-- A step publishes one job, or none. -/
theorem Stepped.published_eq {event : Event} (h : Stepped setup env event pool pool') :
    (pool'.cache = pool.cache ∧ pool'.published = pool.published) ∨
      ∃ job, pool'.cache = pool.cache.store job ∧ pool'.published = pool.cache.stamp job :: pool.published := by
  rcases h.core with ⟨h, -⟩ | ⟨h, -⟩ | h
  · cases h with
    | broadcast prevhash version broadcast broadcast' pool' _ hturn =>
      rcases hturn.published_eq with h | ⟨job, _, _, _, hcache, hpublished⟩
      · exact .inl h
      · exact .inr ⟨job, hcache, hpublished⟩
    | _ => exact .inl ⟨rfl, rfl⟩
  · cases h with
    | broadcast block_hash broadcast broadcast' pool' _ hturn =>
      rcases hturn.published_eq with h | ⟨job, _, _, _, hcache, hpublished⟩
      · exact .inl h
      · exact .inr ⟨job, hcache, hpublished⟩
    | _ => exact .inl ⟨rfl, rfl⟩
  · exact .inl ⟨h.cache, by rw [Pool.published, h.history, Pool.published]⟩

/-- The cache agrees with what has been published. -/
def Logged (pool : Pool) : Prop := pool.cache.Logged pool.published

theorem init_logged (setup : Setup) : (init setup).Logged := JobCache.empty_logged

theorem Logged.stepped {event : Event} (h : pool.Logged) (hstep : Stepped setup env event pool pool') :
    pool'.Logged := by
  unfold Logged at h ⊢
  rcases hstep.published_eq with ⟨hcache, hpublished⟩ | ⟨job, hcache, hpublished⟩
  · rwa [hcache, hpublished]
  · rw [hcache, hpublished]
    exact h.store job

end Pool

end erikslund
