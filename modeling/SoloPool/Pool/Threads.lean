import SoloPool.Pool.Published

namespace erikslund

open util bitcoin stratum

/-- The parent of a template whose broadcast is through and not yet noted. -/
def WorkThread.noting : WorkThread → Option Text
  | .broadcasting prevhash _ (.published _ _) | .broadcasting prevhash _ (.delivering _ _ _) => some prevhash
  | .broadcasting prevhash _ (.done outcome) => if outcome = .StaleHeight then none else some prevhash
  | _ => none

/-- The parent of the empty job a call of `on_zmq_block` is about to publish. -/
def ZmqThread.promised : ZmqThread → Option Text
  | .making block_hash _ _ _ | .broadcasting block_hash (.publishing _ _ _) => some block_hash
  | _ => none

/-- The states of a call of `on_zmq_block` that was found eligible and has not published. -/
def ZmqThread.Unpublished : ZmqThread → Prop
  | .making _ _ _ _ | .broadcasting _ (.publishing _ _ _) | .clearing => True
  | .broadcasting _ (.done outcome) => outcome ≠ .Published
  | _ => False

theorem WorkThread.noting_of_idle {work : WorkThread} (h : work.broadcast = none) : work.noting = none := by
  cases work with
  | broadcasting => cases h
  | _ => rfl

theorem ZmqThread.unpublished_of_promised {zmq : ZmqThread} {block_hash : Text} (h : zmq.promised = some block_hash) :
    zmq.Unpublished := by
  cases zmq with
  | making => trivial
  | broadcasting _ broadcast =>
    cases broadcast with
    | publishing => trivial
    | _ => cases h
  | _ => cases h

theorem ZmqThread.Undecided.promised {zmq : ZmqThread} (h : zmq.Undecided) : zmq.promised = none := by
  cases zmq with
  | making => cases h
  | broadcasting => cases h
  | _ => rfl

theorem ZmqThread.Undecided.not_unpublished {zmq : ZmqThread} (h : zmq.Undecided) : ¬ zmq.Unpublished := by
  cases zmq with
  | making => cases h
  | broadcasting => cases h
  | clearing => cases h
  | _ => exact id

namespace Pool

variable {setup : Setup} {env : Environment} {publisher : Publisher} {pool pool' : Pool}

theorem make_job_ok {block_template : BlockTemplate} {clean : Bool} {job : Job}
    (h : (pool.make_job setup block_template clean).1 = .ok job) :
    job.job_id = next_job_id setup (pool.job_counter + 1) ∧
      job.mines_on block_template.previousblockhash = true :=
  Job.new_ok h

theorem fastblock_template_ok {block_hash : Text} {header : HeaderFacts} {version : UInt32} {halving_interval : Int}
    {block_template : BlockTemplate}
    (h : fastblock_template env block_hash header version halving_interval = .ok block_template) :
    block_template.previousblockhash = block_hash := by
  simp only [fastblock_template] at h
  split at h
  · cases h
  · cases h
  · cases h
    rfl

theorem BroadcastStep.not_publishing {broadcast broadcast' : Broadcast}
    (h : BroadcastStep setup env publisher pool broadcast pool' broadcast') (job : Job)
    (clean require_new_prevhash : Bool) : broadcast' ≠ .publishing job clean require_new_prevhash := by
  cases h <;> exact Broadcast.noConfusion

/-- The jobs the threads are about to publish: each on the parent its call names, and the
empty ones clean and only on a new parent. -/
structure Prepared (pool : Pool) : Prop where
  work : ∀ prevhash version job clean require_new_prevhash,
    pool.work = .broadcasting prevhash version (.publishing job clean require_new_prevhash) →
      job.mines_on prevhash = true ∧ require_new_prevhash = false
  zmq : ∀ block_hash job clean require_new_prevhash,
    pool.zmq = .broadcasting block_hash (.publishing job clean require_new_prevhash) →
      job.mines_on block_hash = true ∧ clean = true ∧ require_new_prevhash = true

theorem init_prepared (setup : Setup) : (init setup).Prepared := ⟨by simp [init], by simp [init]⟩

/-- A turn of `broadcast_job` changes no thread. -/
theorem BroadcastStep.threads {broadcast broadcast' : Broadcast}
    (h : BroadcastStep setup env publisher pool broadcast pool' broadcast') :
    pool'.work = pool.work ∧ pool'.zmq = pool.zmq ∧ pool'.templates = pool.templates := by
  cases h with
  | delivered job clean recipient rest =>
    have hcore := @SameCore.deliver setup env pool job clean recipient
    exact ⟨hcore.work, hcore.zmq, hcore.templates⟩
  | _ => exact ⟨rfl, rfl, rfl⟩

theorem WorkStep.zmq_eq (h : WorkStep setup env pool pool') : pool'.zmq = pool.zmq := by
  cases h with
  | broadcast _ _ _ _ _ _ hturn => exact hturn.threads.2.1
  | _ => rfl

theorem ZmqStep.work_eq (h : ZmqStep setup env pool pool') : pool'.work = pool.work := by
  cases h with
  | broadcast _ _ _ _ _ hturn => exact hturn.threads.1
  | _ => rfl

theorem Prepared.stepped {event : Event} (h : pool.Prepared) (hstep : Stepped setup env event pool pool') :
    pool'.Prepared := by
  rcases hstep.core with ⟨hwork, -⟩ | ⟨hzmq, -⟩ | hcore
  · refine ⟨?_, by rw [hwork.zmq_eq]; exact h.zmq⟩
    intro prevhash version job clean require_new_prevhash hafter
    cases hwork with
    | idle work refresh_failing _ hidle =>
      obtain rfl : work = _ := hafter
      cases hidle
    | failed => cases hafter
    | made block_template clean job _ hjob =>
      cases hafter
      exact ⟨(make_job_ok hjob).2, rfl⟩
    | broadcast prevhash version broadcast broadcast' pool' _ hturn =>
      cases hafter
      exact absurd rfl (hturn.not_publishing _ _ _)
    | stale => cases hafter
    | noted => cases hafter
  · refine ⟨by rw [hzmq.work_eq]; exact h.work, ?_⟩
    intro block_hash job clean require_new_prevhash hafter
    cases hzmq with
    | undecided zmq _ hundecided =>
      obtain rfl : zmq = _ := hafter
      cases hundecided
    | made block_hash header version halving_interval block_template job _ htemplate hjob =>
      cases hafter
      exact ⟨fastblock_template_ok htemplate ▸ (make_job_ok hjob).2, rfl, rfl⟩
    | broadcast block_hash broadcast broadcast' pool' _ hturn =>
      cases hafter
      exact absurd rfl (hturn.not_publishing _ _ _)
    | _ => cases hafter
  · exact ⟨by rw [hcore.work]; exact h.work, by rw [hcore.zmq]; exact h.zmq⟩

theorem reached_prepared (setup : Setup) (actions : List (Environment × Event)) : (reached setup actions).Prepared :=
  Transition.run_invariant_always (fun pool action h => h.stepped (stepped setup pool action.1 action.2)) actions
    (init_prepared setup)

end Pool

end erikslund
