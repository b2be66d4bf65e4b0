import Mathlib.Data.List.Chain
import SoloPool.Pool.Delivery

namespace erikslund

open util bitcoin stratum List

namespace JobCache

/-- The eviction loop drops the oldest ids of the order, and their entries with them. -/
theorem evict_eq (recent_jobs : List (Text × Job)) (recent_order : List Text) :
    evict recent_jobs recent_order =
      (recent_jobs.filter (fun entry => entry.1 ∉ recent_order.take (recent_order.length - kMaxRecentJobs)),
        recent_order.drop (recent_order.length - kMaxRecentJobs)) := by
  induction recent_order generalizing recent_jobs with
  | nil => simp [evict]
  | cons front rest ih =>
    unfold evict
    split
    · rename_i hfull
      have hcount : (front :: rest).length - kMaxRecentJobs = (rest.length - kMaxRecentJobs) + 1 := by
        simp only [length_cons] at hfull ⊢
        omega
      rw [ih, hcount, take_succ_cons, drop_succ_cons, filter_filter]
      congr 2
      funext entry
      simp only [mem_cons, not_or, Bool.decide_and, Bool.and_comm]
    · rename_i hroom
      have hnone : (front :: rest).length - kMaxRecentJobs = 0 := Nat.sub_eq_zero_of_le (Nat.le_of_not_lt hroom)
      rw [hnone, take_zero, drop_zero]
      simp

/-- The entry of a job in `recent_jobs_`. -/
def entry (job : Job) : Text × Job := (job.job_id, job)

/-- Without the ids of its older part, a list keeps the newer one. -/
theorem filter_older {newer older : List Job} (hdistinct : ((newer ++ older).map Job.job_id).Nodup) :
    ((newer ++ older).map entry).filter (fun entry => entry.1 ∉ older.map Job.job_id) = newer.map entry := by
  rw [map_append, nodup_append] at hdistinct
  rw [map_append, filter_append, filter_eq_self.mpr, filter_eq_nil_iff.mpr, append_nil]
  · intro found hfound
    obtain ⟨job, hjob, rfl⟩ := mem_map.mp hfound
    have hmem : job.job_id ∈ older.map Job.job_id := mem_map_of_mem hjob
    simpa [entry] using hmem
  · intro found hfound
    obtain ⟨job, hjob, rfl⟩ := mem_map.mp hfound
    have hnew : job.job_id ∉ older.map Job.job_id := by
      intro hmem
      exact hdistinct.2.2 _ (mem_map_of_mem hjob) _ hmem rfl
    simpa [entry] using hnew

/-- The window before an eviction, newest first, loses its older part. -/
theorem evict_older {newer older : List Job} (hdistinct : ((newer ++ older).map Job.job_id).Nodup)
    (holder : older.length = (newer ++ older).length - kMaxRecentJobs) :
    evict ((newer ++ older).map entry) ((newer ++ older).map Job.job_id).reverse =
      (newer.map entry, (newer.map Job.job_id).reverse) := by
  have hlength : (older.map Job.job_id).reverse.length =
      ((newer ++ older).map Job.job_id).reverse.length - kMaxRecentJobs := by
    rw [length_reverse, length_map, length_reverse, length_map, holder]
  have horder : ((newer ++ older).map Job.job_id).reverse =
      (older.map Job.job_id).reverse ++ (newer.map Job.job_id).reverse := by
    rw [map_append, reverse_append]
  rw [evict_eq, ← hlength, horder, take_left, drop_left]
  simp only [mem_reverse]
  rw [filter_older hdistinct]

/-- The cache against the jobs published, newest first: their order, and the window of the newest. -/
structure Windowed (cache : JobCache) (published : List Job) : Prop where
  current : cache.current_job = published.head?
  counter : cache.publish_counter = published.length
  sequences : published.map Job.publication_sequence = (range' 1 published.length).reverse
  heights : (published.map Job.height).IsChain (· ≥ ·)
  signatures : published.IsChain (fun newer older => newer.work_signature ≠ older.work_signature)
  recent_jobs : cache.recent_jobs = (published.take kMaxRecentJobs).map entry
  recent_order : cache.recent_order = ((published.take kMaxRecentJobs).map Job.job_id).reverse

theorem empty_windowed : empty.Windowed [] := ⟨rfl, rfl, rfl, .nil, .nil, rfl, rfl⟩

theorem outcome_published {cache : JobCache} {job : Job} {require_new_prevhash : Bool}
    (h : cache.outcome job require_new_prevhash = .Published) :
    ∀ current ∈ cache.current_job, current.work_signature ≠ job.work_signature ∧ current.height ≤ job.height := by
  intro current hcurrent
  rw [Option.mem_def] at hcurrent
  simp only [outcome, hcurrent] at h
  split at h
  · cases h
  · rename_i hsignature
    split at h
    · cases h
    · rename_i hheight
      exact ⟨hsignature, Int.not_lt.mp hheight⟩

theorem Windowed.store {cache : JobCache} {published : List Job} (h : cache.Windowed published) {job : Job}
    {require_new_prevhash : Bool} (houtcome : cache.outcome job require_new_prevhash = .Published)
    (hdistinct : ((cache.stamp job :: published).map Job.job_id).Nodup) :
    (cache.store job).Windowed (cache.stamp job :: published) := by
  have hnewer := outcome_published houtcome
  rw [h.current] at hnewer
  have hcounter : cache.publish_counter + 1 = (cache.stamp job :: published).length := by
    rw [h.counter, length_cons]
  -- Before the eviction the window holds one job more.
  obtain ⟨newer, older, hsplit, hnewest, holder⟩ : ∃ newer older,
      cache.stamp job :: published.take kMaxRecentJobs = newer ++ older ∧
      (cache.stamp job :: published).take kMaxRecentJobs = newer ∧
      older.length = (newer ++ older).length - kMaxRecentJobs := by
    refine ⟨(cache.stamp job :: published.take kMaxRecentJobs).take kMaxRecentJobs, _,
      (take_append_drop kMaxRecentJobs _).symm, ?_, ?_⟩
    · rw [← take_succ_cons, take_take]
      rfl
    · rw [take_append_drop, length_drop]
  have hids : ((newer ++ older).map Job.job_id).Nodup := by
    rw [← hsplit, ← take_succ_cons]
    exact ((take_sublist _ _).map Job.job_id).nodup hdistinct
  have hfresh : cache.recent_jobs.filter (fun found => found.1 ≠ job.job_id) = cache.recent_jobs := by
    apply filter_eq_self.mpr
    intro found hfound
    rw [h.recent_jobs] at hfound
    obtain ⟨other, hother, rfl⟩ := mem_map.mp hfound
    apply decide_eq_true
    intro heq
    exact (nodup_cons.mp hdistinct).1 (mem_map.mpr ⟨other, mem_of_mem_take hother, heq⟩)
  have hevict : evict ((job.job_id, cache.stamp job) :: cache.recent_jobs.filter (fun found => found.1 ≠ job.job_id))
      (cache.recent_order ++ [job.job_id]) = (newer.map entry, (newer.map Job.job_id).reverse) := by
    rw [← evict_older hids holder, ← hsplit, hfresh, h.recent_jobs, h.recent_order, map_cons, map_cons,
      reverse_cons]
    rfl
  refine ⟨rfl, hcounter, ?_, ?_, ?_, ?_, ?_⟩
  · have hnext : (cache.stamp job).publication_sequence = 1 + 1 * published.length := by
      rw [Nat.one_mul, Nat.add_comm, ← h.counter]
      rfl
    rw [map_cons, h.sequences, length_cons, range'_concat, reverse_append, hnext]
    rfl
  · apply List.IsChain.cons h.heights
    intro height hheight
    rw [head?_map] at hheight
    obtain ⟨current, hcurrent, rfl⟩ := Option.mem_map.mp hheight
    exact (hnewer current hcurrent).2
  · apply List.IsChain.cons h.signatures
    intro current hcurrent
    exact (hnewer current hcurrent).1.symm
  · rw [hnewest]
    exact congrArg Prod.fst hevict
  · rw [hnewest]
    exact congrArg Prod.snd hevict

/-- A job is found under its id while it is among the newest. -/
theorem Windowed.recent_job_eq_some {cache : JobCache} {published : List Job} (h : cache.Windowed published)
    (hdistinct : (published.map Job.job_id).Nodup) (job_id : Text) (job : Job) :
    cache.recent_job job_id = some job ↔ job ∈ published.take kMaxRecentJobs ∧ job.job_id = job_id := by
  rw [JobCache.recent_job, h.recent_jobs, Option.map_eq_some_iff]
  constructor
  · rintro ⟨found, hfound, rfl⟩
    obtain ⟨job, hjob, rfl⟩ := mem_map.mp (mem_of_find?_eq_some hfound)
    have hid := find?_some hfound
    exact ⟨hjob, of_decide_eq_true hid⟩
  · rintro ⟨hjob, rfl⟩
    have hmem : entry job ∈ (published.take kMaxRecentJobs).map entry := mem_map_of_mem hjob
    have hsome : (((published.take kMaxRecentJobs).map entry).find? (fun found => found.1 = job.job_id)).isSome := by
      rw [find?_isSome]
      exact ⟨entry job, hmem, by simp [entry]⟩
    obtain ⟨found, hfound⟩ := Option.isSome_iff_exists.mp hsome
    obtain ⟨other, hother, rfl⟩ := mem_map.mp (mem_of_find?_eq_some hfound)
    have hid := find?_some hfound
    have heq := inj_on_of_nodup_map hdistinct (mem_of_mem_take hother) (mem_of_mem_take hjob)
      (of_decide_eq_true hid)
    exact ⟨entry other, hfound, heq⟩

end JobCache

namespace Broadcasts

/-- The cache keeps its window because ids are never given twice. -/
theorem reached_windowed (setup : Setup) (actions : List (Environment × Event)) :
    (reached setup actions).pool.cache.Windowed (reached setup actions).pool.published ∧
      Pool.Identified setup (reached setup actions).pool (reached setup actions).flights := by
  let inv (broadcasts : Broadcasts) : Prop := broadcasts.pool.cache.Windowed broadcasts.pool.published ∧
    Pool.Identified setup broadcasts.pool broadcasts.flights
  have hinit : inv (init setup) := ⟨JobCache.empty_windowed, Pool.init_identified setup⟩
  have hreached : inv (reached setup actions) := by
    refine Transition.run_invariant_always ?_ actions hinit
    rintro broadcasts ⟨env, event⟩ ⟨hwindowed, hidentified⟩
    have hflown := flown setup broadcasts env event
    have hidentified := hidentified.flown hflown
    refine ⟨?_, hidentified⟩
    obtain ⟨hcache, hpublished⟩ | ⟨job, _, _, _, -, -, houtcome, hcache, hpublished⟩ := hflown.published_eq
    · rw [hcache, hpublished]
      exact hwindowed
    · have hdistinct := Nodup.of_append_right hidentified.distinct
      rw [hpublished] at hdistinct
      rw [hcache, hpublished]
      exact hwindowed.store houtcome hdistinct
  exact hreached

/-- However calls of `broadcast_job` interleave, the jobs published, oldest first, never go down in height and
are numbered from one, under ids of their own; no two in a row are the same work. The cache holds the last of
them in order, and finds each under its id. -/
theorem published_jobs_and_window (setup : Setup) (actions : List (Environment × Event)) :
    let cache := (reached setup actions).pool.cache
    let published := (reached setup actions).pool.published.reverse
    let window := published.drop (published.length - kMaxRecentJobs)
    (published.map Job.height).Pairwise (· ≤ ·) ∧
    published.map Job.publication_sequence = range' 1 published.length ∧
    (published.map Job.job_id).Nodup ∧
    published.IsChain (fun earlier later => earlier.work_signature ≠ later.work_signature) ∧
    cache.recent_order = window.map Job.job_id ∧
    cache.recent_jobs.reverse = window.map (fun job => (job.job_id, job)) ∧
    cache.current_job = published.getLast? ∧
    ∀ job_id job, cache.recent_job job_id = some job ↔ job ∈ window ∧ job.job_id = job_id := by
  obtain ⟨h, hidentified⟩ := reached_windowed setup actions
  have hdistinct := Nodup.of_append_right hidentified.distinct
  intro cache published window
  have hwindow : window = ((reached setup actions).pool.published.take kMaxRecentJobs).reverse := by
    simp only [window, published]
    rw [drop_reverse, length_reverse]
    obtain hfew | hmany := Nat.le_total (reached setup actions).pool.published.length kMaxRecentJobs
    · rw [Nat.sub_eq_zero_of_le hfew, Nat.sub_zero, take_length, take_of_length_le hfew]
    · rw [Nat.sub_sub_self hmany]
  refine ⟨?_, ?_, ?_, ?_, ?_, ?_, ?_, ?_⟩
  · rw [map_reverse, pairwise_reverse]
    exact h.heights.pairwise
  · rw [map_reverse, h.sequences, reverse_reverse, length_reverse]
  · rw [map_reverse]
    exact nodup_reverse.mpr hdistinct
  · rw [isChain_reverse]
    exact h.signatures.imp fun _ _ hne => hne.symm
  · rw [h.recent_order, hwindow, map_reverse]
  · rw [h.recent_jobs, hwindow, map_reverse]
    rfl
  · rw [h.current, getLast?_reverse]
  · intro job_id job
    rw [hwindow, mem_reverse]
    exact h.recent_job_eq_some hdistinct job_id job

end Broadcasts

end erikslund
