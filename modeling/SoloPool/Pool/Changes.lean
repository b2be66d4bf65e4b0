import SoloPool.Pool.Broadcast
import SoloPool.Stratum.Parent

namespace erikslund

open util bitcoin stratum

/-- The `broadcast_job` call a thread is inside. -/
def WorkThread.broadcast : WorkThread → Option Broadcast
  | .broadcasting _ _ broadcast => some broadcast
  | _ => none

def ZmqThread.broadcast : ZmqThread → Option Broadcast
  | .broadcasting _ broadcast => some broadcast
  | _ => none

/-- The states of the ZMQ thread before its call is found eligible. -/
def ZmqThread.Undecided : ZmqThread → Prop
  | .waiting | .requesting _ | .replied _ _ => True
  | _ => False

namespace Pool

variable (setup : Setup) (env : Environment)

/-- What one turn of the work thread can do. -/
inductive WorkStep (pool : Pool) : Pool → Prop where
  | idle (work : WorkThread) (refresh_failing : Bool) (hbefore : pool.work.broadcast = none)
      (hafter : work.broadcast = none) : WorkStep pool { pool with work, refresh_failing }
  | failed (refresh_failing : Bool) (hbefore : pool.work.broadcast = none) :
      WorkStep pool { pool with job_counter := pool.job_counter + 1, work := .waiting, refresh_failing }
  | made (template : BlockTemplate) (clean : Bool) (job : Job)
      (hbefore : pool.work = .making template clean)
      (hjob : (pool.make_job setup template clean).1 = .ok job) :
      WorkStep pool { pool with
        job_counter := pool.job_counter + 1
        work := .broadcasting template.previousblockhash template.version
          (.publishing job clean false) }
  | broadcast (prevhash : Text) (version : UInt32) (broadcast broadcast' : Broadcast) (pool' : Pool)
      (hbefore : pool.work = .broadcasting prevhash version broadcast)
      (hturn : BroadcastStep setup env (.build_and_broadcast prevhash) pool broadcast pool' broadcast') :
      WorkStep pool { pool' with work := .broadcasting prevhash version broadcast' }
  | stale (prevhash : Text) (version : UInt32)
      (hbefore : pool.work = .broadcasting prevhash version (.done .StaleHeight)) :
      WorkStep pool { pool with work := .waiting, refresh_failing := false }
  | noted (prevhash : Text) (version : UInt32) (outcome : PublishOutcome)
      (hbefore : pool.work = .broadcasting prevhash version (.done outcome)) (hfresh : outcome ≠ .StaleHeight) :
      WorkStep pool { pool.note_template prevhash version with work := .waiting, refresh_failing := false }

/-- What one turn of the ZMQ thread can do. -/
inductive ZmqStep (pool : Pool) : Pool → Prop where
  | undecided (zmq : ZmqThread) (hbefore : pool.zmq.Undecided) (hafter : zmq.Undecided) :
      ZmqStep pool { pool with zmq }
  | eligible (block_hash : Text) (header : HeaderFacts) (version : UInt32) (halving_interval : Int)
      (hbefore : pool.zmq = .replied block_hash header) (hpending : pool.templates.fastblock_pending = false)
      (hnew : block_hash ≠ pool.templates.last_prevhash) :
      ZmqStep pool { pool with
        templates := { pool.templates with fastblock_pending := true }
        zmq := .making block_hash header version halving_interval }
  | failed (block_hash : Text) (header : HeaderFacts) (version : UInt32) (halving_interval : Int) (job_counter : Nat)
      (hbefore : pool.zmq = .making block_hash header version halving_interval)
      (hcounter : pool.job_counter ≤ job_counter) :
      ZmqStep pool { pool with job_counter, zmq := .clearing }
  | made (block_hash : Text) (header : HeaderFacts) (version : UInt32) (halving_interval : Int)
      (template : BlockTemplate) (job : Job)
      (hbefore : pool.zmq = .making block_hash header version halving_interval)
      (htemplate : fastblock_template env block_hash header version halving_interval = .ok template)
      (hjob : (pool.make_job setup template true).1 = .ok job) :
      ZmqStep pool { pool with
        job_counter := pool.job_counter + 1
        zmq := .broadcasting block_hash (.publishing job true true) }
  | broadcast (block_hash : Text) (broadcast broadcast' : Broadcast) (pool' : Pool)
      (hbefore : pool.zmq = .broadcasting block_hash broadcast)
      (hturn : BroadcastStep setup env (.on_zmq_block block_hash) pool broadcast pool' broadcast') :
      ZmqStep pool { pool' with zmq := .broadcasting block_hash broadcast' }
  | returned (block_hash : Text) (hbefore : pool.zmq = .broadcasting block_hash (.done .Published)) :
      ZmqStep pool { pool with zmq := .waiting }
  | refused (block_hash : Text) (outcome : PublishOutcome)
      (hbefore : pool.zmq = .broadcasting block_hash (.done outcome)) (hrefused : outcome ≠ .Published) :
      ZmqStep pool { pool with zmq := .clearing }
  | cleared (hbefore : pool.zmq = .clearing) :
      ZmqStep pool { pool with
        templates := { pool.templates with fastblock_pending := false }
        zmq := .waiting }

/-- What a step can do. A thread is taken through a critical section by its own event only. -/
inductive Stepped (event : Event) (pool : Pool) : Pool → Prop where
  | still : Stepped event pool pool
  | work {pool' : Pool} (h : WorkStep setup env pool pool')
      (hevent : pool.work.broadcast = none ∨ event = .work) : Stepped event pool pool'
  | zmq {pool' : Pool} (h : ZmqStep setup env pool pool')
      (hevent : pool.zmq.Undecided ∨ event = .zmq) : Stepped event pool pool'
  | popped (pending : PendingPublication) (publication_queue : List PendingPublication)
      (hqueue : pool.publication_queue = pending :: publication_queue) :
      Stepped event pool { pool with publication_queue, publication := some pending }
  | dropped : Stepped event pool { pool with publication := none }
  | publication (pending : PendingPublication) (index : Nat) (hrecipient : pending.recipient = .sv2 index) :
      Stepped event pool ({ pool with publication := none }.step_sv2 setup env index
        (.publish_job pending.job.job_id pending.clean))
  | add_client (extranonce1 : Bytes) :
      Stepped event pool { pool with
        extranonce1_counter := pool.extranonce1_counter + 1
        sv1 := pool.sv1 ++ [.init (pool.context env) extranonce1]
        clients := pool.clients ++ [.sv1 pool.sv1.length] }
  | add_sv2_client (extranonce1 : Bytes) :
      Stepped event pool { pool with
        extranonce1_counter := pool.extranonce1_counter + 1
        sv2 := pool.sv2 ++ [.init setup.config extranonce1]
        clients := pool.clients ++ [.sv2 pool.sv2.length] }
  | remove_client (client : ClientRef) :
      Stepped event pool { pool with
        clients := pool.clients.filter (fun connected => connected ≠ client)
        publication_queue := pool.publication_queue.filter (fun pending => pending.recipient ≠ client) }
  | sv1 (index : Nat) (action : stratum.Event) (haction : ∀ job clean, action ≠ .send_notify job clean) :
      Stepped event pool (pool.step_sv1 setup env index action)
  | sv2 (index : Nat) (action : sv2.Event) (haction : ∀ job_id clean, action ≠ .publish_job job_id clean)
      (hevent : event = .sv2 index action) :
      Stepped event pool (pool.step_sv2 setup env index action)

variable {setup env} {pool : Pool}

theorem fastblock_eligible_new {has_template fastblock_pending : Bool} {notified_tip last_prevhash : Text}
    {next_height confirmations : Int} {chain_name bits_hex : Text}
    (h : fastblock_eligible has_template fastblock_pending notified_tip last_prevhash next_height confirmations
      chain_name bits_hex = true) : fastblock_pending = false ∧ notified_tip ≠ last_prevhash := by
  simp only [fastblock_eligible, ite_eq_iff, reduceCtorEq, and_false, false_or] at h
  obtain ⟨hready, -, hnew, -⟩ := h
  exact ⟨by simpa using (not_or.mp hready).2, hnew⟩

theorem step_work_spec (setup : Setup) (env : Environment) (pool : Pool) :
    pool.step_work setup env = pool ∨
      WorkStep setup env pool (pool.step_work setup env) := by
  cases hwork : pool.work with
  | waiting => exact .inl (by simp [step_work, hwork])
  | fetching => exact .inl (by simp [step_work, hwork])
  | probing tip =>
    simp only [step_work, hwork]
    refine .inr (.idle _ pool.refresh_failing (by rw [hwork]; rfl) ?_)
    split <;> rfl
  | fetched template =>
    simp only [step_work, hwork]
    exact .inr (.idle _ pool.refresh_failing (by rw [hwork]; rfl) rfl)
  | starting template clean =>
    simp only [step_work, hwork]
    split
    · exact .inr (.idle _ _ (by rw [hwork]; rfl) rfl)
    · exact .inr (.idle _ pool.refresh_failing (by rw [hwork]; rfl) rfl)
  | making template clean =>
    simp only [step_work, hwork]
    cases hjob : (pool.make_job setup template clean).1 with
    | error msg =>
      rw [show pool.make_job setup template clean =
        (.error msg, (pool.make_job setup template clean).2) from Prod.ext hjob rfl]
      exact .inr (.failed true (by rw [hwork]; rfl))
    | ok job =>
      rw [show pool.make_job setup template clean =
        (.ok job, (pool.make_job setup template clean).2) from Prod.ext hjob rfl]
      exact .inr (.made template clean job hwork hjob)
  | broadcasting prevhash version broadcast =>
    by_cases hdone : ∃ outcome, broadcast = .done outcome
    · obtain ⟨outcome, rfl⟩ := hdone
      by_cases hstale : outcome = .StaleHeight
      · subst hstale
        simp only [step_work, hwork]
        exact .inr (.stale prevhash version hwork)
      · have hstep := @WorkStep.noted setup env pool prevhash version outcome hwork hstale
        cases outcome <;> simp_all [step_work]
    · have hrunning : ∀ outcome, broadcast ≠ .done outcome := fun outcome h => hdone ⟨outcome, h⟩
      have hstep := WorkStep.broadcast prevhash version broadcast _ _ hwork
        (broadcast_job_spec setup env (.build_and_broadcast prevhash) pool hrunning)
      cases broadcast with
      | done outcome => exact absurd rfl (hrunning outcome)
      | _ => exact .inr (by simpa only [step_work, hwork] using hstep)

theorem step_zmq_spec (setup : Setup) (env : Environment) (pool : Pool) :
    pool.step_zmq setup env = pool ∨
      ZmqStep setup env pool (pool.step_zmq setup env) := by
  cases hzmq : pool.zmq with
  | waiting => exact .inl (by simp [step_zmq, hzmq])
  | requesting block_hash => exact .inl (by simp [step_zmq, hzmq])
  | replied block_hash header =>
    simp only [step_zmq, hzmq]
    split
    · rename_i heligible
      obtain ⟨hpending, hnew⟩ := fastblock_eligible_new heligible
      exact .inr (.eligible block_hash header _ _ hzmq hpending hnew)
    · exact .inr (.undecided .waiting (by rw [hzmq]; trivial) trivial)
  | making block_hash header version halving_interval =>
    simp only [step_zmq, hzmq]
    cases htemplate : fastblock_template env block_hash header version halving_interval with
    | error msg => exact .inr (.failed block_hash header version halving_interval pool.job_counter hzmq le_rfl)
    | ok template =>
      dsimp only
      cases hjob : (pool.make_job setup template true).1 with
      | error msg =>
        rw [show pool.make_job setup template true =
          (.error msg, (pool.make_job setup template true).2) from Prod.ext hjob rfl]
        exact .inr (.failed block_hash header version halving_interval _ hzmq (Nat.le_succ _))
      | ok job =>
        rw [show pool.make_job setup template true =
          (.ok job, (pool.make_job setup template true).2) from Prod.ext hjob rfl]
        exact .inr (.made block_hash header version halving_interval template job hzmq htemplate hjob)
  | broadcasting block_hash broadcast =>
    by_cases hdone : ∃ outcome, broadcast = .done outcome
    · obtain ⟨outcome, rfl⟩ := hdone
      by_cases hpublished : outcome = .Published
      · subst hpublished
        simp only [step_zmq, hzmq]
        exact .inr (.returned block_hash hzmq)
      · have hstep := @ZmqStep.refused setup env pool block_hash outcome hzmq hpublished
        cases outcome <;> simp_all [step_zmq]
    · have hrunning : ∀ outcome, broadcast ≠ .done outcome := fun outcome h => hdone ⟨outcome, h⟩
      have hstep := ZmqStep.broadcast block_hash broadcast _ _ hzmq
        (broadcast_job_spec setup env (.on_zmq_block block_hash) pool hrunning)
      cases broadcast with
      | done outcome => exact absurd rfl (hrunning outcome)
      | _ => exact .inr (by simpa only [step_zmq, hzmq] using hstep)
  | clearing =>
    simp only [step_zmq, hzmq]
    exact .inr (.cleared hzmq)

theorem publication_loop_spec (setup : Setup) (env : Environment) (pool : Pool) :
    Stepped setup env .publication_loop pool (pool.publication_loop setup env) := by
  unfold publication_loop
  cases pool.publication with
  | some pending =>
    cases hrecipient : pending.recipient with
    | sv1 index => simpa only [hrecipient] using .dropped
    | sv2 index => simpa only [hrecipient] using .publication pending index hrecipient
  | none =>
    cases hqueue : pool.publication_queue with
    | nil => exact .still
    | cons pending rest =>
      dsimp only
      split
      · exact .still
      · exact .popped pending rest hqueue

theorem poll_spec (setup : Setup) (env : Environment) {pool : Pool} (hwork : pool.work = .waiting)
    (refresh_due : Bool) (tip : Except String Text) :
    WorkStep setup env pool (pool.poll refresh_due tip) := by
  have hidle (work : WorkThread) (refresh_failing : Bool) (hafter : work.broadcast = none) :
      WorkStep setup env pool { pool with work, refresh_failing } :=
    .idle work refresh_failing (by rw [hwork]; rfl) hafter
  unfold poll
  split
  · exact hidle _ pool.refresh_failing rfl
  split
  · exact hidle _ pool.refresh_failing rfl
  split
  · exact hidle pool.work true (by rw [hwork]; rfl)
  · refine hidle _ pool.refresh_failing ?_
    split <;> rfl

theorem stepped (setup : Setup) (pool : Pool) (env : Environment) (event : Event) :
    Stepped setup env event pool (step setup pool (env, event)) := by
  cases event with
  | poll refresh_due tip =>
    simp only [step]
    split
    · rename_i hwork
      exact .work (poll_spec setup env hwork refresh_due tip) (.inl (by rw [hwork]; rfl))
    · exact .still
  | fetch_template reply =>
    simp only [step]
    split
    · exact .still
    · rename_i hwork
      have hbefore : pool.work.broadcast = none := by rw [not_not.mp hwork]; rfl
      cases reply with
      | error msg => exact .work (.idle _ _ hbefore rfl) (.inl hbefore)
      | ok template => exact .work (.idle _ pool.refresh_failing hbefore rfl) (.inl hbefore)
  | work =>
    simp only [step]
    rcases step_work_spec setup env pool with h | h
    · rw [h]
      exact .still
    · exact .work h (.inr rfl)
  | on_zmq_block block_hash =>
    simp only [step, on_zmq_block]
    split
    · rename_i hzmq
      have hbefore : pool.zmq.Undecided := by rw [hzmq]; trivial
      split
      · exact .zmq (.undecided _ hbefore trivial) (.inl hbefore)
      · exact .still
    · exact .still
  | fetch_header reply =>
    simp only [step]
    split
    · rename_i hzmq
      have hbefore : pool.zmq.Undecided := by rw [hzmq]; trivial
      exact .zmq (.undecided _ hbefore trivial) (.inl hbefore)
    · rename_i hzmq
      have hbefore : pool.zmq.Undecided := by rw [hzmq]; trivial
      exact .zmq (.undecided _ hbefore trivial) (.inl hbefore)
    · exact .still
  | zmq =>
    simp only [step]
    rcases step_zmq_spec setup env pool with h | h
    · rw [h]
      exact .still
    · exact .zmq h (.inr rfl)
  | publication_loop => exact publication_loop_spec setup env pool
  | add_client => exact .add_client _
  | add_sv2_client => exact .add_sv2_client _
  | remove_client client => exact .remove_client client
  | sv1 index event =>
    cases event with
    | send_notify job clean => exact .still
    | line request => exact .sv1 index (.line request) (by simp)
    | finish_submit => exact .sv1 index .finish_submit (by simp)
    | send_set_difficulty => exact .sv1 index .send_set_difficulty (by simp)
    | maybe_retarget => exact .sv1 index .maybe_retarget (by simp)
  | sv2 index event =>
    cases event with
    | publish_job job_id clean => exact .still
    | frame frame => exact .sv2 index (.frame frame) (by simp) rfl
    | finish_share => exact .sv2 index .finish_share (by simp) rfl
    | deliver_blocks => exact .sv2 index .deliver_blocks (by simp) rfl
    | maybe_refresh_job => exact .sv2 index .maybe_refresh_job (by simp) rfl
    | resume call => exact .sv2 index (.resume call) (by simp) rfl
    | maybe_retarget => exact .sv2 index .maybe_retarget (by simp) rfl

variable {pool' : Pool}

/-- A step is one of a thread or leaves the threads and the job cache alone. -/
theorem Stepped.core {event : Event} (h : Stepped setup env event pool pool') :
    (WorkStep setup env pool pool' ∧ (pool.work.broadcast = none ∨ event = .work)) ∨
      (ZmqStep setup env pool pool' ∧ (pool.zmq.Undecided ∨ event = .zmq)) ∨ SameCore pool pool' := by
  cases h with
  | work h hevent => exact .inl ⟨h, hevent⟩
  | zmq h hevent => exact .inr (.inl ⟨h, hevent⟩)
  | _ => exact .inr (.inr ⟨rfl, rfl, rfl, rfl, rfl⟩)

end Pool

end erikslund
