import SoloPool.Bitcoin.Ipc
import SoloPool.Pool.Threads
import SoloPool.Stratum.Signature

namespace erikslund

open util bitcoin stratum

/-- The templates the pool can be given or makes itself. -/
inductive Produced (template : BlockTemplate) : Prop where
  | from_gbt (envelope : GbtEnvelope) (h : BlockTemplate.from_gbt envelope = .ok template)
  | fastblock (env : Environment) (block_hash : Text) (header : HeaderFacts) (version : UInt32)
      (halving_interval : Int)
      (h : fastblock_template env block_hash header version halving_interval = .ok template)
  | create_block (reply : IpcReply) (h : bitcoin.create_block reply = .ok template)

/-- Every producer keeps its promise about the coinbase witness. -/
theorem Produced.paired {template : BlockTemplate} (h : Produced template) :
    template.Valid ∧ template.Paired := by
  cases h with
  | from_gbt envelope h => exact BlockTemplate.from_gbt_paired h
  | fastblock env block_hash header version halving_interval h =>
    simp only [fastblock_template] at h
    split at h
    · cases h
    · cases h
    · rename_i bits _ hbits _
      cases h
      exact ⟨hbits, fun _ => List.cons_ne_nil _ _⟩
  | create_block reply h => exact create_block_paired h

/-- The template a thread holds between its fetch and its job. -/
def WorkThread.held : WorkThread → Option BlockTemplate
  | .fetched template | .starting template _ | .making template _ => some template
  | _ => none

/-- A job of this pool, from a template of one of the producers. -/
def Setup.Sources (setup : Setup) (job : Job) : Prop :=
  ∃ job_id template, Produced template ∧ job.BuiltFrom job_id template
    (setup.config.coinbase_signature.map (fun c => UInt8.ofNat c.toNat)) setup.config.extranonce1_size
    setup.config.extranonce2_size setup.config.coinbase_version setup.donation_script setup.config.donation_percent

theorem Setup.Sources.stamp {setup : Setup} {job : Job} (h : setup.Sources job) (cache : JobCache) :
    setup.Sources (cache.stamp job) := by
  obtain ⟨job_id, template, hproduced, hbuilt⟩ := h
  exact ⟨job_id, template, hproduced, { hbuilt with }⟩

theorem Setup.Sources.same_work {setup : Setup} {job job' : Job} (h : setup.Sources job) (h' : setup.Sources job')
    (hsignature : job.work_signature = job'.work_signature) : job.SameWork job' := by
  obtain ⟨_, _, hproduced, hbuilt⟩ := h
  obtain ⟨_, _, hproduced', hbuilt'⟩ := h'
  exact hbuilt.same_work hbuilt' hproduced.paired hproduced'.paired hsignature

namespace Pool

variable {setup : Setup} {env : Environment} {publisher : Publisher} {pool pool' : Pool} {event : Event}

theorem make_job_sources {template : BlockTemplate} {clean : Bool} {job : Job} (hproduced : Produced template)
    (h : (pool.make_job setup template clean).1 = .ok job) : setup.Sources job :=
  ⟨_, template, hproduced, Job.new_spec h⟩

theorem poll_held (hwork : pool.work = .waiting) (refresh_due : Bool) (tip : Except String Text) :
    (pool.poll refresh_due tip).work.held = none := by
  unfold poll
  split
  · rfl
  split
  · rfl
  split
  · rw [hwork]
    rfl
  · dsimp only
    split <;> rfl

theorem step_work_held {template : BlockTemplate}
    (h : (pool.step_work setup env).work.held = some template) :
    pool.work.held = some template := by
  unfold step_work at h
  split at h
  · exact h
  · exact h
  · dsimp only at h
    split at h <;> cases h
  · rename_i hwork
    rw [hwork]
    exact h
  · rename_i hwork
    split at h
    · cases h
    · rw [hwork]
      exact h
  · split at h <;> cases h
  · cases h
  · cases h
  · cases h

/-- A thread comes to hold a template only by fetching it. -/
theorem step_held {template : BlockTemplate}
    (h : (step setup pool (env, event)).work.held = some template) :
    pool.work.held = some template ∨ event = .fetch_template (.ok template) := by
  cases event with
  | poll refresh_due tip =>
    simp only [step] at h
    split at h
    · rename_i hwork
      rw [poll_held hwork] at h
      cases h
    · exact .inl h
  | fetch_template reply =>
    simp only [step] at h
    split at h
    · exact .inl h
    · cases reply with
      | error msg => cases h
      | ok fetched =>
        cases h
        exact .inr rfl
  | work => exact .inl (step_work_held h)
  | zmq =>
    have hwork : (pool.step_zmq setup env).work = pool.work := by
      rcases step_zmq_spec setup env pool with heq | hstep
      · rw [heq]
      · exact hstep.work_eq
    simp only [step, hwork] at h
    exact .inl h
  | on_zmq_block block_hash =>
    simp only [step, on_zmq_block] at h
    split_ifs at h <;> exact .inl h
  | fetch_header reply =>
    simp only [step] at h
    split at h <;> exact .inl h
  | publication_loop =>
    simp only [step, publication_loop] at h
    split at h
    · split at h <;> exact .inl h
    · exact .inl h
    · split at h <;> exact .inl h
  | sv1 index action => cases action <;> exact .inl h
  | sv2 index action => cases action <;> exact .inl h
  | _ => exact .inl h

/-- The templates and jobs the threads hold, and the current job, all come from a producer. -/
structure Sourced (setup : Setup) (pool : Pool) : Prop where
  held : ∀ template, pool.work.held = some template → Produced template
  work : ∀ job clean required,
    pool.work.broadcast = some (.publishing job clean required) → setup.Sources job
  zmq : ∀ job clean required,
    pool.zmq.broadcast = some (.publishing job clean required) → setup.Sources job
  current : ∀ job, pool.cache.current_job = some job → setup.Sources job

theorem init_sourced (setup : Setup) : (init setup).Sourced setup :=
  ⟨by simp [init, WorkThread.held], by simp [init, WorkThread.broadcast], by simp [init, ZmqThread.broadcast],
    by simp [init, JobCache.empty]⟩

/-- Every template that is fetched comes from a producer. -/
def Supplied (event : Event) : Prop := ∀ template, event = .fetch_template (.ok template) → Produced template

theorem Sourced.current_broadcast {broadcast broadcast' : Broadcast}
    (hcurrent : ∀ job, pool.cache.current_job = some job → setup.Sources job)
    (hpublishing : ∀ job clean required,
      broadcast = .publishing job clean required → setup.Sources job)
    (h : BroadcastStep setup env publisher pool broadcast pool' broadcast') :
    ∀ job, pool'.cache.current_job = some job → setup.Sources job := by
  rcases h.published_eq with ⟨hcache, -⟩ | ⟨job, clean, required, hbefore, hcache, -⟩
  · rwa [hcache]
  · rw [hcache]
    rintro _ ⟨⟩
    exact (hpublishing job clean required hbefore).stamp pool.cache

theorem Sourced.work_step (h : pool.Sourced setup) (hstep : WorkStep setup env pool pool') :
    (∀ job clean required,
      pool'.work.broadcast = some (.publishing job clean required) → setup.Sources job) ∧
      ∀ job, pool'.cache.current_job = some job → setup.Sources job := by
  cases hstep with
  | idle work refresh_failing hbefore hafter =>
    refine ⟨?_, h.current⟩
    intro job clean required hpublishing
    cases hafter.symm.trans hpublishing
  | made template clean job hbefore hjob =>
    refine ⟨?_, h.current⟩
    intro job' clean' required hpublishing
    cases hpublishing
    exact make_job_sources (h.held template (by rw [hbefore]; rfl)) hjob
  | broadcast prevhash version broadcast broadcast' pool' hbefore hturn =>
    have hbroadcast : ∀ job clean required,
        broadcast = .publishing job clean required → setup.Sources job := by
      rintro job clean required rfl
      exact h.work job clean required (by rw [hbefore]; rfl)
    have hcurrent := current_broadcast h.current hbroadcast hturn
    refine ⟨?_, hcurrent⟩
    intro job clean required hpublishing
    exact absurd (Option.some.inj hpublishing) (hturn.not_publishing job clean required)
  | _ => exact ⟨fun _ _ _ hpublishing => (nomatch hpublishing), h.current⟩

theorem Sourced.zmq_step (h : pool.Sourced setup) (hstep : ZmqStep setup env pool pool') :
    (∀ job clean required,
      pool'.zmq.broadcast = some (.publishing job clean required) → setup.Sources job) ∧
      ∀ job, pool'.cache.current_job = some job → setup.Sources job := by
  cases hstep with
  | undecided zmq hbefore hafter =>
    refine ⟨?_, h.current⟩
    intro job clean required hpublishing
    cases zmq with
    | broadcasting block_hash broadcast => cases hafter
    | _ => cases hpublishing
  | made block_hash header version halving_interval template job hbefore htemplate hjob =>
    refine ⟨?_, h.current⟩
    intro job' clean required hpublishing
    cases hpublishing
    exact make_job_sources (.fastblock _ _ _ _ _ htemplate) hjob
  | broadcast block_hash broadcast broadcast' pool' hbefore hturn =>
    have hbroadcast : ∀ job clean required,
        broadcast = .publishing job clean required → setup.Sources job := by
      rintro job clean required rfl
      exact h.zmq job clean required (by rw [hbefore]; rfl)
    have hcurrent := current_broadcast h.current hbroadcast hturn
    refine ⟨?_, hcurrent⟩
    intro job clean required hpublishing
    exact absurd (Option.some.inj hpublishing) (hturn.not_publishing job clean required)
  | _ => exact ⟨fun _ _ _ hpublishing => (nomatch hpublishing), h.current⟩

theorem Sourced.stepped (h : pool.Sourced setup) (hsupplied : Supplied event) :
    (step setup pool (env, event)).Sourced setup := by
  have hheld : ∀ template, (step setup pool (env, event)).work.held = some template →
      Produced template := by
    intro template hafter
    rcases step_held hafter with hbefore | hevent
    · exact h.held template hbefore
    · exact hsupplied template hevent
  rcases (Pool.stepped setup pool env event).core with ⟨hwork, -⟩ | ⟨hzmq, -⟩ | hcore
  · obtain ⟨hpublishing, hcurrent⟩ := h.work_step hwork
    exact ⟨hheld, hpublishing, by rw [hwork.zmq_eq]; exact h.zmq, hcurrent⟩
  · obtain ⟨hpublishing, hcurrent⟩ := h.zmq_step hzmq
    exact ⟨hheld, by rw [hzmq.work_eq]; exact h.work, hpublishing, hcurrent⟩
  · exact ⟨hheld, by rw [hcore.work]; exact h.work, by rw [hcore.zmq]; exact h.zmq, by rw [hcore.cache]; exact h.current⟩

/-- What a turn of `broadcast_job` adds to the history is the outcome of the job it publishes. -/
theorem BroadcastStep.attempt {broadcast broadcast' : Broadcast} {attempt : Attempt}
    (h : BroadcastStep setup env publisher pool broadcast pool' broadcast')
    (hhistory : pool'.history = attempt :: pool.history) :
    ∃ job clean required, broadcast = .publishing job clean required ∧
      attempt.outcome = pool.cache.outcome job required ∧
      (attempt.outcome ≠ .Published → attempt.job = job) := by
  have hunchanged (heq : pool'.history = pool.history) : False := by
    rw [heq] at hhistory
    exact List.cons_ne_self _ _ hhistory.symm
  cases h with
  | published job clean required houtcome =>
    cases hhistory
    exact ⟨job, clean, required, rfl, houtcome.symm, fun hne => absurd rfl hne⟩
  | refused job clean required hrefused =>
    cases hhistory
    exact ⟨job, clean, required, rfl, rfl, fun _ => rfl⟩
  | delivered job clean recipient rest => exact (hunchanged (SameCore.deliver job clean recipient).history).elim
  | _ => exact (hunchanged rfl).elim

/-- A broadcast that a thread has suppressed as a duplicate was of the work in the current job. -/
theorem Sourced.duplicate (h : pool.Sourced setup) {attempt : Attempt}
    (hhistory : (step setup pool (env, event)).history = attempt :: pool.history)
    (hduplicate : attempt.outcome = .Duplicate) :
    ∃ current, pool.cache.current_job = some current ∧ attempt.job.SameWork current := by
  have hturn {publisher : Publisher} {broadcast broadcast' : Broadcast} {pool' : Pool}
      (hstep : BroadcastStep setup env publisher pool broadcast pool' broadcast')
      (hhistory : pool'.history = attempt :: pool.history)
      (hsources : ∀ job clean required,
        broadcast = .publishing job clean required → setup.Sources job) :
      ∃ current, pool.cache.current_job = some current ∧ attempt.job.SameWork current := by
    obtain ⟨job, clean, required, hbefore, houtcome, hjob⟩ := hstep.attempt hhistory
    rw [hduplicate] at houtcome hjob
    rw [hjob PublishOutcome.noConfusion]
    unfold JobCache.outcome at houtcome
    split at houtcome
    · cases houtcome
    rename_i current hcurrent
    split at houtcome
    · rename_i hsignature
      exact ⟨current, hcurrent,
        (hsources job clean required hbefore).same_work (h.current current hcurrent) hsignature.symm⟩
    · split at houtcome
      · cases houtcome
      · split at houtcome <;> cases houtcome
  have hunchanged {pool' : Pool} (heq : pool'.history = pool.history)
      (hhistory : pool'.history = attempt :: pool.history) : False := by
    rw [heq] at hhistory
    exact List.cons_ne_self _ _ hhistory.symm
  rcases (Pool.stepped setup pool env event).core with ⟨hwork, -⟩ | ⟨hzmq, -⟩ | hcore
  · generalize step setup pool (env, event) = after at hwork hhistory
    cases hwork with
    | broadcast prevhash version broadcast broadcast' pool' hbefore hstep =>
      refine hturn hstep hhistory ?_
      rintro job clean required rfl
      exact h.work job clean required (by rw [hbefore]; rfl)
    | _ => exact (hunchanged rfl hhistory).elim
  · generalize step setup pool (env, event) = after at hzmq hhistory
    cases hzmq with
    | broadcast block_hash broadcast broadcast' pool' hbefore hstep =>
      refine hturn hstep hhistory ?_
      rintro job clean required rfl
      exact h.zmq job clean required (by rw [hbefore]; rfl)
    | _ => exact (hunchanged rfl hhistory).elim
  · exact (hunchanged hcore.history hhistory).elim

/-- Jobs built with the same donation and extranonce sizes from templates of the producers do the
same work when their signatures are equal; so no broadcast that a run suppresses as a duplicate
was of other work than the current job's. -/
theorem duplicate_hides_no_work :
    (∀ {job_id job_id' : Text} {template block_template' : BlockTemplate} {tag tag' : Bytes}
        {extranonce1_size extranonce2_size : Nat} {coinbase_version coinbase_version' : UInt32} {clean clean' : Bool}
        {donation_script : Bytes} {donation_percent : ℚ} {job job' : Job},
      Produced template → Produced block_template' →
      Job.new job_id template tag extranonce1_size extranonce2_size coinbase_version clean donation_script
        donation_percent = .ok job →
      Job.new job_id' block_template' tag' extranonce1_size extranonce2_size coinbase_version' clean' donation_script
        donation_percent = .ok job' →
      job.work_signature = job'.work_signature → job.SameWork job') ∧
    ∀ (setup : Setup) (actions : List (Environment × Event)) (env : Environment) (event : Event)
        (attempt : Attempt),
      (∀ action ∈ actions, Supplied action.2) →
      (step setup (reached setup actions) (env, event)).history = attempt :: (reached setup actions).history →
      attempt.outcome = .Duplicate →
      ∃ current, (reached setup actions).cache.current_job = some current ∧ attempt.job.SameWork current := by
  constructor
  · intro job_id job_id' template block_template' tag tag' extranonce1_size extranonce2_size coinbase_version
      coinbase_version' clean clean' donation_script donation_percent job job' hproduced hproduced' hjob hjob' hsignature
    exact (Job.new_spec hjob).same_work (Job.new_spec hjob') hproduced.paired hproduced'.paired hsignature
  · intro setup actions env event attempt hsupplied hhistory hduplicate
    have hsourced : (reached setup actions).Sourced setup :=
      Transition.run_invariant (fun pool action h hguard => h.stepped hguard) (init_sourced setup)
        (Transition.guarded_of_forall hsupplied _)
    exact hsourced.duplicate hhistory hduplicate

end Pool

open Pool Regtest

/-- A template that is fetched twice, before the job of its second fetch is published. -/
def Pool.refetched : List (Environment × Event) :=
  actions (refresh_work (Crowd.template 0) 5 ++ [.work] ++ refresh_work (Crowd.template 0) 3)

theorem Pool.duplicate_hides_no_work_refetched : ∃ attempt current,
    (step setup (reached setup refetched) (env, .work)).history =
        attempt :: (reached setup refetched).history ∧
      attempt.outcome = .Duplicate ∧
      (reached setup refetched).cache.current_job = some current ∧ attempt.job.SameWork current := by
  have hproduced : Produced (Crowd.template 0) := .from_gbt _ (Crowd.filled (Nat.zero_le _))
  have hrun : (step setup (reached setup refetched) (env, .work)).history.head?.map Attempt.outcome =
        some .Duplicate ∧
      (step setup (reached setup refetched) (env, .work)).history.tail =
        (reached setup refetched).history := by decide +kernel
  have hsupplied : ∀ action ∈ refetched, Supplied action.2 := by
    intro action hmem template hevent
    obtain ⟨event, hlisted, rfl⟩ := List.mem_map.mp hmem
    obtain rfl : event = .fetch_template (.ok template) := hevent
    have hfetched : template = Crowd.template 0 := by simpa [refresh_work] using hlisted
    rwa [hfetched]
  obtain ⟨hlast, hrest⟩ := hrun
  obtain ⟨attempt, hhead, hduplicate⟩ := Option.map_eq_some_iff.mp hlast
  have hhistory : (step setup (reached setup refetched) (env, .work)).history =
      attempt :: (reached setup refetched).history := by
    rw [← hrest]
    exact (List.cons_head?_tail hhead).symm
  obtain ⟨current, hcurrent, hwork⟩ :=
    Pool.duplicate_hides_no_work.2 setup refetched env .work attempt hsupplied hhistory hduplicate
  exact ⟨attempt, current, hhistory, hduplicate, hcurrent, hwork⟩

end erikslund
