import SoloPool.Pool.Threads

namespace erikslund

open util bitcoin stratum Transition List

/-- A call of `on_zmq_block` that has its job and not yet published it. -/
def ZmqThread.publishing : ZmqThread → Bool
  | .broadcasting _ (.publishing _ _ _) => true
  | _ => false

def Pool.Event.is_zmq : Pool.Event → Bool
  | .zmq => true
  | _ => false

namespace Pool

variable {setup : Setup} {env : Environment} {pool pool' : Pool}

/-- The current job is on the parent a text names. -/
def CurrentOn (pool : Pool) (parent : Text) : Prop :=
  ∃ job, pool.cache.current_job = some job ∧ job.mines_on parent = true

/-- A fetched template was byte-identical to `job`. -/
def Refetched (pool : Pool) (job : Job) : Prop :=
  ∃ attempt ∈ pool.history, attempt.outcome = .Duplicate ∧
    (∃ prevhash, attempt.publisher = .build_and_broadcast prevhash) ∧
    attempt.job.work_signature = job.work_signature

/-- The parent that `last_prevhash_` holds once the work thread has returned. -/
def next_prevhash (pool : Pool) : Text := pool.work.noting.getD pool.templates.last_prevhash

/-- The empty job that is current is not on the parent the work thread has noted. -/
def Due (pool : Pool) (noted : Text) : Prop :=
  ∀ attempt ∈ pool.history, attempt.outcome = .Published → ∀ block_hash,
    attempt.publisher = .on_zmq_block block_hash → pool.cache.current_job = some attempt.job →
      noted ≠ block_hash ∨ pool.Refetched attempt.job

/-- What keeps an empty job from being taken for a full one. `fastblock_pending_` holds off
the ZMQ thread while the job of a template is not noted yet, and a call that has passed that
check finds its parent noted only when the current job is on it. -/
structure Fastblock (pool : Pool) : Prop where
  guarded : pool.templates.fastblock_pending = false ∨ pool.zmq.Unpublished →
    ∀ prevhash, pool.work.noting = some prevhash → pool.CurrentOn prevhash
  promised : ∀ block_hash, pool.zmq.promised = some block_hash → pool.work.noting = none →
    pool.templates.last_prevhash = block_hash → pool.CurrentOn block_hash
  due : pool.Due pool.next_prevhash

/-- An empty job that is published while a template waits to be noted still holds
`fastblock_pending_`. -/
def PublishesPending (pool : Pool) (action : Environment × Event) : Prop :=
  action.2.is_zmq = true → pool.zmq.publishing = true → pool.work.noting.isSome = true →
    pool.templates.fastblock_pending = true

instance (pool : Pool) (action : Environment × Event) : Decidable (PublishesPending pool action) :=
  inferInstanceAs (Decidable (_ = true → _ = true → _ = true → _ = true))

theorem init_fastblock (setup : Setup) : (init setup).Fastblock :=
  ⟨fun _ _ h => by simp [init, WorkThread.noting] at h, fun _ h => by simp [init, ZmqThread.promised] at h,
    fun _ h => by simp [init] at h⟩

/-- What the invariant reads of the pool. -/
theorem Fastblock.of_eq (h : pool.Fastblock) (hcache : pool'.cache = pool.cache)
    (hhistory : pool'.history = pool.history) (htemplates : pool'.templates = pool.templates)
    (hnoting : pool'.work.noting = pool.work.noting) (hpromised : pool'.zmq.promised = pool.zmq.promised)
    (hunpublished : pool'.zmq.Unpublished → pool.zmq.Unpublished) : pool'.Fastblock := by
  refine ⟨?_, ?_, ?_⟩
  · intro hopen prevhash hprevhash
    rw [htemplates] at hopen
    rw [CurrentOn, hcache]
    exact h.guarded (hopen.imp_right hunpublished) prevhash (hnoting ▸ hprevhash)
  · intro block_hash hblock hidle hlast
    rw [CurrentOn, hcache]
    exact h.promised block_hash (hpromised ▸ hblock) (hnoting ▸ hidle) (htemplates ▸ hlast)
  · intro attempt hattempt houtcome block_hash hpublisher hcurrent
    rw [next_prevhash, hnoting, htemplates, Refetched, hhistory]
    exact h.due attempt (hhistory ▸ hattempt) houtcome block_hash hpublisher (hcache ▸ hcurrent)

variable {job : Job} {attempt : Attempt}

theorem Refetched.cons (h : pool.Refetched job)
    (hhistory : pool'.history = attempt :: pool.history) : pool'.Refetched job := by
  obtain ⟨duplicate, hmem, hduplicate⟩ := h
  exact ⟨duplicate, hhistory ▸ mem_cons_of_mem attempt hmem, hduplicate⟩

/-- A refused publication is no empty job, whatever is noted. -/
theorem Due.refused {noted : Text} (h : pool.Due noted) (hrefused : attempt.outcome ≠ .Published)
    (hhistory : pool'.history = attempt :: pool.history) (hcache : pool'.cache = pool.cache) : pool'.Due noted := by
  intro older hmem houtcome block_hash hpublisher hcurrent
  rw [hhistory] at hmem
  rw [hcache] at hcurrent
  rcases mem_cons.mp hmem with rfl | hmem
  · exact absurd houtcome hrefused
  · exact (h older hmem houtcome block_hash hpublisher hcurrent).imp_right (fun h => h.cons hhistory)

/-- Of the jobs published, only the one just stored is current. -/
theorem Logged.current_of_store (hlogged : pool.Logged) (hmem : attempt ∈ pool.history)
    (houtcome : attempt.outcome = .Published) : (pool.cache.store job).current_job ≠ some attempt.job := by
  intro hcurrent
  have hle := (hlogged.bounds attempt.job (mem_published_jobs.mpr ⟨attempt, hmem, houtcome, rfl⟩)).2
  have hsequence : attempt.job.publication_sequence = pool.cache.publish_counter + 1 := by
    rw [← Option.some.inj hcurrent]
    rfl
  omega

theorem Logged.due_of_store (hlogged : pool.Logged) {noted : Text}
    (hcache : pool'.cache = pool.cache.store job) (hhistory : pool'.history = attempt :: pool.history)
    (hnew : ∀ block_hash, attempt.publisher = .on_zmq_block block_hash → noted ≠ block_hash) : pool'.Due noted := by
  intro older hmem houtcome block_hash hpublisher hcurrent
  rw [hhistory] at hmem
  rw [hcache] at hcurrent
  rcases mem_cons.mp hmem with rfl | hmem
  · exact .inl (hnew block_hash hpublisher)
  · exact absurd hcurrent (hlogged.current_of_store hmem houtcome)

end Pool

namespace JobCache

variable {cache : JobCache} {job : Job} {required : Bool}

theorem outcome_duplicate (h : cache.outcome job required = .Duplicate) :
    ∃ current, cache.current_job = some current ∧ current.work_signature = job.work_signature := by
  unfold outcome at h
  split at h
  · cases h
  rename_i current hcurrent
  by_cases hsame : current.work_signature = job.work_signature
  · exact ⟨current, hcurrent, hsame⟩
  · simp only [hsame, if_false] at h
    split at h
    · cases h
    · split at h <;> cases h

theorem outcome_not_stalePrevhash : cache.outcome job false ≠ .StalePrevhash := by
  unfold outcome
  split
  · simp
  · split
    · simp
    · split <;> simp

/-- An empty job is published only over a job with another parent. -/
theorem outcome_published_new (h : cache.outcome job true = .Published) {current : Job}
    (hcurrent : cache.current_job = some current) : current.prevhash_stratum ≠ job.prevhash_stratum := by
  intro hsame
  simp only [outcome, hcurrent, hsame, and_self, if_true] at h
  split at h
  · cases h
  · split at h <;> cases h

end JobCache

namespace Pool

variable {setup : Setup} {env : Environment} {pool pool' : Pool}

/-- Where `on_zmq_block` publishes, the current job is on another parent. -/
theorem Prepared.not_currentOn (hprepared : pool.Prepared) {block_hash : Text} {job : Job}
    {clean required : Bool}
    (hzmq : pool.zmq = .broadcasting block_hash (.publishing job clean required))
    (houtcome : pool.cache.outcome job required = .Published) : ¬ pool.CurrentOn block_hash := by
  rintro ⟨current, hcurrent, hparent⟩
  obtain ⟨hjob, -, rfl⟩ := hprepared.zmq block_hash job clean required hzmq
  exact JobCache.outcome_published_new houtcome hcurrent (Job.prevhash_stratum_of_mines_on hparent hjob)

theorem Fastblock.work_turn (h : pool.Fastblock) (hlogged : pool.Logged) (hprepared : pool.Prepared)
    {prevhash : Text} {version : UInt32} {broadcast broadcast' : Broadcast}
    (hwork : pool.work = .broadcasting prevhash version broadcast)
    (hturn : BroadcastStep setup env (.build_and_broadcast prevhash) pool broadcast pool' broadcast') :
    { pool' with work := .broadcasting prevhash version broadcast' }.Fastblock := by
  cases hturn with
  | published job clean required houtcome =>
    have hjob := (hprepared.work prevhash version job clean required hwork).1
    refine ⟨fun _ parent hparent => ?_, fun _ _ hnoting => (nomatch hnoting), ?_⟩
    · cases hparent
      exact ⟨pool.cache.stamp job, rfl, hjob⟩
    · exact hlogged.due_of_store rfl rfl (fun _ hpublisher => (nomatch hpublisher))
  | refused job clean required hrefused =>
    obtain ⟨hjob, rfl⟩ := hprepared.work prevhash version job clean required hwork
    have hidle : pool.work.noting = none := by rw [hwork]; rfl
    cases houtcome : pool.cache.outcome job false with
    | Published => exact absurd houtcome hrefused
    | StalePrevhash => exact absurd houtcome JobCache.outcome_not_stalePrevhash
    | StaleHeight =>
      refine ⟨fun _ _ hparent => ?_, fun block_hash hblock _ hlast => ?_, ?_⟩
      · simp [WorkThread.noting] at hparent
      · exact h.promised block_hash hblock hidle hlast
      · have hdue := h.due
        rw [next_prevhash, hidle] at hdue
        exact hdue.refused (by simp) rfl rfl
    | Duplicate =>
      obtain ⟨current, hcurrent, hsame⟩ := JobCache.outcome_duplicate houtcome
      refine ⟨fun _ parent hparent => ?_, fun _ _ hnoting => ?_, ?_⟩
      · obtain rfl : prevhash = parent := by simpa [WorkThread.noting] using hparent
        have hparent := Job.prevhash_stratum_of_work_signature hsame
        exact ⟨current, hcurrent, by rw [Job.mines_on_congr hparent]; exact hjob⟩
      · simp [WorkThread.noting] at hnoting
      · intro attempt _ _ _ _ hattempt
        rw [hcurrent] at hattempt
        cases hattempt
        exact .inr ⟨_, mem_cons_self, rfl, ⟨prevhash, rfl⟩, hsame.symm⟩
  | alone => exact h.of_eq rfl rfl rfl (by simp [WorkThread.noting, hwork]) rfl id
  | snapshot => exact h.of_eq rfl rfl rfl (by simp [WorkThread.noting, hwork]) rfl id
  | returned => exact h.of_eq rfl rfl rfl (by simp [WorkThread.noting, hwork]) rfl id
  | delivered job clean recipient rest =>
    have hcore := @SameCore.deliver setup env pool job clean recipient
    exact h.of_eq hcore.cache hcore.history hcore.templates (by simp [WorkThread.noting, hwork])
      (by rw [hcore.zmq]) (fun hzmq => hcore.zmq ▸ hzmq)

theorem Fastblock.work (h : pool.Fastblock) (hlogged : pool.Logged) (hprepared : pool.Prepared)
    (hstep : WorkStep setup env pool pool') : pool'.Fastblock := by
  cases hstep with
  | idle work refresh_failing hbefore hafter =>
    refine h.of_eq rfl rfl rfl ?_ rfl id
    rw [WorkThread.noting_of_idle hbefore, WorkThread.noting_of_idle hafter]
  | failed refresh_failing hbefore =>
    refine h.of_eq rfl rfl rfl ?_ rfl id
    rw [WorkThread.noting_of_idle hbefore]
    rfl
  | made block_template clean job hbefore hjob =>
    refine h.of_eq rfl rfl rfl ?_ rfl id
    rw [hbefore]
    rfl
  | broadcast prevhash version broadcast broadcast' pool' hbefore hturn =>
    exact h.work_turn hlogged hprepared hbefore hturn
  | stale prevhash version hbefore =>
    refine h.of_eq rfl rfl rfl ?_ rfl id
    rw [hbefore]
    rfl
  | noted prevhash version outcome hbefore hfresh =>
    have hnoting : pool.work.noting = some prevhash := by
      rw [hbefore]
      exact if_neg hfresh
    refine ⟨fun _ _ hparent => (nomatch hparent), fun block_hash hblock _ hlast => ?_, ?_⟩
    · -- A call that is yet to publish has kept the job of this template current.
      obtain rfl : prevhash = block_hash := hlast
      exact h.guarded (.inr (ZmqThread.unpublished_of_promised hblock)) prevhash hnoting
    · have hdue := h.due
      rw [next_prevhash, hnoting] at hdue
      exact hdue

theorem Fastblock.zmq_turn (h : pool.Fastblock) (hlogged : pool.Logged) (hprepared : pool.Prepared)
    {block_hash : Text} {broadcast broadcast' : Broadcast}
    (hzmq : pool.zmq = .broadcasting block_hash broadcast)
    (hpending : pool.zmq.publishing = true → pool.work.noting.isSome = true →
      pool.templates.fastblock_pending = true)
    (hturn : BroadcastStep setup env (.on_zmq_block block_hash) pool broadcast pool' broadcast') :
    { pool' with zmq := .broadcasting block_hash broadcast' }.Fastblock := by
  cases hturn with
  | published job clean required houtcome =>
    have hother := hprepared.not_currentOn hzmq houtcome
    refine ⟨fun hopen prevhash hnoting => ?_, fun _ hblock => (nomatch hblock), ?_⟩
    · have hset := hpending (by rw [hzmq]; rfl) (Option.isSome_of_mem hnoting)
      exact absurd hopen (by simp [hset, ZmqThread.Unpublished])
    · refine hlogged.due_of_store rfl rfl fun hash hpublisher hnoted => ?_
      obtain rfl : block_hash = hash := Publisher.on_zmq_block.inj hpublisher
      change pool.next_prevhash = block_hash at hnoted
      have hpromised : pool.zmq.promised = some block_hash := by rw [hzmq]; rfl
      cases hnoting : pool.work.noting with
      | none =>
        rw [next_prevhash, hnoting] at hnoted
        exact hother (h.promised block_hash hpromised hnoting hnoted)
      | some prevhash =>
        rw [next_prevhash, hnoting] at hnoted
        obtain rfl : prevhash = block_hash := hnoted
        exact hother (h.guarded (.inr (ZmqThread.unpublished_of_promised hpromised)) prevhash hnoting)
  | refused job clean required hrefused =>
    have hunpublished : pool.zmq.Unpublished := by rw [hzmq]; trivial
    exact ⟨fun _ => h.guarded (.inr hunpublished), fun _ hblock => (nomatch hblock),
      h.due.refused hrefused rfl rfl⟩
  | alone => exact h.of_eq rfl rfl rfl rfl (by rw [hzmq]; rfl) (fun hopen => absurd rfl hopen)
  | snapshot => exact h.of_eq rfl rfl rfl rfl (by rw [hzmq]; rfl) (fun hopen => hopen.elim)
  | returned => exact h.of_eq rfl rfl rfl rfl (by rw [hzmq]; rfl) (fun hopen => absurd rfl hopen)
  | delivered job clean recipient rest =>
    have hcore := @SameCore.deliver setup env pool job clean recipient
    exact h.of_eq hcore.cache hcore.history hcore.templates (by rw [hcore.work]) (by rw [hzmq]; rfl)
      (fun hopen => hopen.elim)

theorem Fastblock.zmq (h : pool.Fastblock) (hlogged : pool.Logged) (hprepared : pool.Prepared)
    (hpending : pool.zmq.publishing = true → pool.work.noting.isSome = true →
      pool.templates.fastblock_pending = true)
    (hstep : ZmqStep setup env pool pool') : pool'.Fastblock := by
  cases hstep with
  | undecided zmq hbefore hafter =>
    exact h.of_eq rfl rfl rfl rfl (by rw [hbefore.promised, hafter.promised])
      (fun hopen => absurd hopen hafter.not_unpublished)
  | eligible block_hash header version halving_interval hbefore hopen hnew =>
    refine ⟨fun _ => h.guarded (.inl hopen), fun hash hblock _ hlast => ?_, h.due⟩
    obtain rfl : block_hash = hash := Option.some.inj hblock
    exact absurd hlast.symm hnew
  | failed block_hash header version halving_interval job_counter hbefore hcounter =>
    have hunpublished : pool.zmq.Unpublished := by rw [hbefore]; trivial
    exact ⟨fun _ => h.guarded (.inr hunpublished), fun _ hblock => (nomatch hblock), h.due⟩
  | made block_hash header version halving_interval block_template job hbefore htemplate hjob =>
    exact h.of_eq rfl rfl rfl rfl (by rw [hbefore]; rfl) (fun _ => by rw [hbefore]; trivial)
  | broadcast block_hash broadcast broadcast' pool' hbefore hturn =>
    exact h.zmq_turn hlogged hprepared hbefore hpending hturn
  | returned block_hash hbefore =>
    exact h.of_eq rfl rfl rfl rfl (by rw [hbefore]; rfl) (fun hopen => hopen.elim)
  | refused block_hash outcome hbefore hrefused =>
    exact h.of_eq rfl rfl rfl rfl (by rw [hbefore]; rfl) (fun _ => by rw [hbefore]; exact hrefused)
  | cleared hbefore =>
    have hunpublished : pool.zmq.Unpublished := by rw [hbefore]; trivial
    exact ⟨fun _ => h.guarded (.inr hunpublished), fun _ hblock => (nomatch hblock), h.due⟩

theorem Fastblock.stepped {event : Event} (h : pool.Fastblock) (hlogged : pool.Logged) (hprepared : pool.Prepared)
    (hpending : pool.PublishesPending (env, event)) (hstep : Stepped setup env event pool pool') :
    pool'.Fastblock := by
  rcases hstep.core with ⟨hwork, -⟩ | ⟨hzmq, hevent⟩ | hcore
  · exact h.work hlogged hprepared hwork
  · refine h.zmq hlogged hprepared ?_ hzmq
    rcases hevent with hundecided | rfl
    · intro hpublishing
      cases hthread : pool.zmq <;> simp_all [ZmqThread.publishing, ZmqThread.Undecided]
    · exact hpending rfl
  · exact h.of_eq hcore.cache hcore.history hcore.templates (by rw [hcore.work]) (by rw [hcore.zmq])
      (fun hzmq => hcore.zmq ▸ hzmq)

theorem reached_fastblock (setup : Setup) {actions : List (Environment × Event)}
    (hguard : Guarded (step setup) PublishesPending (init setup) actions) : (reached setup actions).Fastblock := by
  let inv (pool : Pool) : Prop := pool.Logged ∧ pool.Prepared ∧ pool.Fastblock
  have hinvariant : inv (reached setup actions) := by
    refine run_invariant ?_ ⟨init_logged setup, init_prepared setup, init_fastblock setup⟩ hguard
    rintro pool ⟨env, event⟩ ⟨hlogged, hprepared, hfastblock⟩ hpending
    have hstep := stepped setup pool env event
    exact ⟨hlogged.stepped hstep, hprepared.stepped hstep, hfastblock.stepped hlogged hprepared hpending hstep⟩
  exact hinvariant.2.2

/-- A tip probe that reports another block than the noted one ends in a fetch. -/
theorem probe_fetches {tip : Text} (hnew : pool.templates.last_prevhash ≠ tip) (refresh_due : Bool) :
    ((pool.poll refresh_due (.ok tip)).step_work setup env).work = .fetching := by
  unfold poll
  split
  · rfl
  split
  · rfl
  dsimp only
  split
  · simp only [step_work, ne_eq, hnew.symm, not_false_eq_true, if_true]
  · rfl

/-- `on_zmq_block` never replaces a job on the same parent. -/
theorem Prepared.replaces_other (hprepared : pool.Prepared) {event : Event}
    (hstep : Stepped setup env event pool pool') {attempt : Attempt}
    (hhistory : pool'.history = attempt :: pool.history) (houtcome : attempt.outcome = .Published) {block_hash : Text}
    (hpublisher : attempt.publisher = .on_zmq_block block_hash) : ¬ pool.CurrentOn block_hash := by
  have hgrown : pool'.history ≠ pool.history := by
    rw [hhistory]
    exact cons_ne_self attempt pool.history
  rcases hstep.core with ⟨hwork, -⟩ | ⟨hzmq, -⟩ | hcore
  · cases hwork with
    | broadcast prevhash version broadcast broadcast' pool' hbefore hturn =>
      cases hturn with
      | published job clean required hpublished =>
        cases hhistory
        cases hpublisher
      | refused job clean required hrefused =>
        cases hhistory
        exact absurd houtcome hrefused
      | delivered job clean recipient rest =>
        exact absurd (@SameCore.deliver setup env pool job clean recipient).history hgrown
      | _ => exact absurd rfl hgrown
    | _ => exact absurd rfl hgrown
  · cases hzmq with
    | broadcast hash broadcast broadcast' pool' hbefore hturn =>
      cases hturn with
      | published job clean required hpublished =>
        cases hhistory
        cases hpublisher
        exact hprepared.not_currentOn hbefore hpublished
      | refused job clean required hrefused =>
        cases hhistory
        exact absurd houtcome hrefused
      | delivered job clean recipient rest =>
        exact absurd (@SameCore.deliver setup env pool job clean recipient).history hgrown
      | _ => exact absurd rfl hgrown
    | _ => exact absurd rfl hgrown
  · exact absurd hcore.history hgrown

/-- Between the calls of the two threads, an empty job that is current is on another parent
than the one noted, unless a template fetched was identical to it: the next probe that
reports its parent fetches a template. This takes runs in which an empty job published
while a template waits to be noted still holds `fastblock_pending_`. In all runs, an empty
job replaces only work on another parent. -/
theorem empty_job_awaits_template (setup : Setup) (actions : List (Environment × Event)) :
    (Guarded (step setup) PublishesPending (init setup) actions →
      (reached setup actions).work.broadcast = none → (reached setup actions).zmq = .waiting →
      ∀ attempt ∈ (reached setup actions).history, attempt.outcome = .Published → ∀ block_hash,
        attempt.publisher = .on_zmq_block block_hash →
        (reached setup actions).cache.current_job = some attempt.job →
          ((reached setup actions).templates.last_prevhash ≠ block_hash ∧ ∀ env refresh_due,
            (((reached setup actions).poll refresh_due (.ok block_hash)).step_work setup env).work =
              .fetching) ∨
          (reached setup actions).Refetched attempt.job) ∧
    ∀ env event attempt, (step setup (reached setup actions) (env, event)).history =
        attempt :: (reached setup actions).history →
      attempt.outcome = .Published → ∀ block_hash, attempt.publisher = .on_zmq_block block_hash →
        ¬ (reached setup actions).CurrentOn block_hash := by
  refine ⟨fun hguard hidle _ attempt hattempt houtcome block_hash hpublisher hcurrent => ?_,
    fun env event attempt hhistory houtcome block_hash hpublisher => ?_⟩
  · have hdue := (reached_fastblock setup hguard).due
    rw [next_prevhash, WorkThread.noting_of_idle hidle] at hdue
    rcases hdue attempt hattempt houtcome block_hash hpublisher hcurrent with hother | hduplicate
    · exact .inl ⟨hother, fun env refresh_due => probe_fetches hother refresh_due⟩
    · exact .inr hduplicate
  · exact (reached_prepared setup actions).replaces_other (stepped setup _ env event) hhistory houtcome
      hpublisher

end Pool

namespace Pool

open Regtest

/-- Block 3 is announced while the template on block 2 is broadcast. The bookkeeping of that
template clears `fastblock_pending_` before the empty job on block 3 is through, so block 4
is published over the template on block 4 before that one is noted. -/
def overtaken : List (Environment × Event) :=
  actions (refresh_work (Job.minimal_template 1 900) 6 ++ refresh_work (Job.minimal_template 2 900) 4 ++
    zmq_block 3 2 ++ replicate 2 .work ++ refresh_work (Job.minimal_template 4 900) 4 ++
    replicate 3 .zmq ++ zmq_block 4 5 ++ replicate 2 .work)

/-- Both threads are done, the current job is the empty one on block 4, and block 4 is noted. -/
theorem empty_job_noted_as_full :
    (reached setup overtaken).work = .waiting ∧ (reached setup overtaken).zmq = .waiting ∧
      (∃ attempt ∈ (reached setup overtaken).history, attempt.outcome = .Published ∧
        attempt.publisher = .on_zmq_block (parent 4) ∧
        (reached setup overtaken).cache.current_job = some attempt.job) ∧
      (reached setup overtaken).templates.last_prevhash = parent 4 ∧
      ∀ attempt ∈ (reached setup overtaken).history, attempt.outcome ≠ .Duplicate := by
  decide +kernel

/-- An empty job over noted work. -/
def announced_block : List (Environment × Event) :=
  actions (refresh_work (Job.minimal_template 1 900) 6 ++ zmq_block 2 5)

/-- It awaits a template on its parent. -/
theorem empty_job_awaits_template_on_parent :
    ∃ attempt : Attempt, (reached setup announced_block).cache.current_job = some attempt.job ∧
      attempt.publisher = .on_zmq_block (parent 2) ∧
      (((reached setup announced_block).templates.last_prevhash ≠ parent 2 ∧ ∀ env refresh_due,
          (((reached setup announced_block).poll refresh_due (.ok (parent 2))).step_work setup env).work =
            .fetching) ∨
        (reached setup announced_block).Refetched attempt.job) := by
  have hattempt : ∃ attempt ∈ (reached setup announced_block).history, attempt.outcome = .Published ∧
      attempt.publisher = .on_zmq_block (parent 2) ∧
      (reached setup announced_block).cache.current_job = some attempt.job := by
    decide +kernel
  obtain ⟨attempt, hmem, houtcome, hpublisher, hcurrent⟩ := hattempt
  refine ⟨attempt, hcurrent, hpublisher, ?_⟩
  exact (empty_job_awaits_template setup announced_block).1 (by decide) (by decide)
    (by decide) attempt hmem houtcome (parent 2) hpublisher hcurrent

end Pool

end erikslund
