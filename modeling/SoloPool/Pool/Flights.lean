import SoloPool.Pool.Threads

namespace erikslund

open util bitcoin stratum List Option

namespace Broadcast

/-- The job a call has published and may still owe to clients. -/
def job : Broadcast → Option Job
  | .published job _ | .delivering job _ _ => some job
  | .publishing _ _ _ | .done _ => none

/-- The job a call is yet to publish. -/
def unpublished : Broadcast → Option Job
  | .publishing job _ _ => some job
  | .published _ _ | .delivering _ _ _ | .done _ => none

/-- The call has published `job` and not handed it to `client` yet. -/
def Owes (client : ClientRef) (job : Job) : Broadcast → Prop
  | .published other _ => other = job
  | .delivering other _ recipients => other = job ∧ client ∈ recipients
  | .publishing _ _ _ | .done _ => False

end Broadcast

theorem ZmqThread.Undecided.broadcast {zmq : ZmqThread} (h : zmq.Undecided) : zmq.broadcast = none := by
  cases zmq with
  | broadcasting => cases h
  | _ => rfl

namespace Pool

/-- The `broadcast_job` calls of the two threads. -/
def flights (pool : Pool) : List Broadcast := pool.work.broadcast.toList ++ pool.zmq.broadcast.toList

/-- What delivery to SV1 sessions reads stays as it is, but for clients that leave. -/
structure SameDelivery (pool pool' : Pool) : Prop where
  cache : pool'.cache = pool.cache
  published : pool'.published = pool.published
  sv1 : pool'.sv1 = pool.sv1
  clients : ∀ index, .sv1 index ∈ pool'.clients → .sv1 index ∈ pool.clients
  job_counter : pool.job_counter ≤ pool'.job_counter

theorem SameDelivery.refl (pool : Pool) : SameDelivery pool pool := ⟨rfl, rfl, rfl, fun _ h => h, le_rfl⟩

variable (setup : Setup) (env : Environment)

/-- What a step does to the calls of `broadcast_job` in flight and to the SV1 sessions. -/
inductive Flown (pool : Pool) (flights : List Broadcast) (pool' : Pool) (flights' : List Broadcast) : Prop where
  | kept (hsame : SameDelivery pool pool') (hflights : flights' = flights)
  | began (job : Job) (clean required : Bool) (hsame : SameDelivery pool pool')
      (hid : job.job_id = next_job_id setup (pool.job_counter + 1))
      (hcounter : pool'.job_counter = pool.job_counter + 1)
      (hflights : flights'.Perm (.publishing job clean required :: flights))
  | ended (outcome : PublishOutcome) (hsame : SameDelivery pool pool')
      (hflights : flights.Perm (.done outcome :: flights'))
  | turn (publisher : Publisher) (broadcast broadcast' : Broadcast) (mid : Pool) (rest : List Broadcast)
      (hturn : BroadcastStep setup env publisher pool broadcast mid broadcast')
      (hsame : SameDelivery mid pool') (hbefore : flights.Perm (broadcast :: rest))
      (hafter : flights'.Perm (broadcast' :: rest))
  | connected (extranonce1 : Bytes)
      (hsame : SameDelivery { pool with
        sv1 := pool.sv1 ++ [.init (pool.context env) extranonce1]
        clients := pool.clients ++ [.sv1 pool.sv1.length] } pool')
      (hflights : flights' = flights)
  | session (index : Nat) (action : stratum.Event) (haction : ∀ job clean, action ≠ .send_notify job clean)
      (hsame : SameDelivery (pool.step_sv1 setup env index action) pool') (hflights : flights' = flights)

variable {setup env} {pool pool' : Pool}

theorem WorkStep.flown (h : WorkStep setup env pool pool') (calls : List Broadcast) :
    Flown setup env pool (calls ++ pool.flights) pool' (calls ++ pool'.flights) := by
  have hzmq := h.zmq_eq
  have hidle (hbefore : pool.work.broadcast = none) (hafter : pool'.work.broadcast = none) :
      pool'.flights = pool.flights := by
    rw [flights, flights, hzmq, hbefore, hafter]
  cases h with
  | idle work refresh_failing hbefore hafter =>
    exact .kept ⟨rfl, rfl, rfl, fun _ h => h, le_rfl⟩ (by rw [hidle hbefore hafter])
  | failed refresh_failing hbefore =>
    exact .kept ⟨rfl, rfl, rfl, fun _ h => h, Nat.le_succ _⟩ (by rw [hidle hbefore rfl])
  | made block_template clean job hbefore hjob =>
    refine .began job clean false ⟨rfl, rfl, rfl, fun _ h => h, Nat.le_succ _⟩ (make_job_ok hjob).1 rfl ?_
    simp only [flights, hbefore, WorkThread.broadcast, toList_some, toList_none, nil_append]
    exact perm_middle
  | broadcast prevhash version broadcast broadcast' mid hbefore hturn =>
    refine .turn _ broadcast broadcast' mid (calls ++ pool.zmq.broadcast.toList) hturn
      ⟨rfl, rfl, rfl, fun _ h => h, le_rfl⟩ ?_ ?_
    · simp only [flights, hbefore, WorkThread.broadcast, toList_some]
      exact perm_middle
    · simp only [flights, hturn.threads.2.1, WorkThread.broadcast, toList_some]
      exact perm_middle
  | stale prevhash version hbefore =>
    refine .ended .StaleHeight ⟨rfl, rfl, rfl, fun _ h => h, le_rfl⟩ ?_
    simp only [flights, hbefore, WorkThread.broadcast, toList_some, toList_none, nil_append]
    exact perm_middle
  | noted prevhash version outcome hbefore hfresh =>
    refine .ended outcome ⟨rfl, rfl, rfl, fun _ h => h, le_rfl⟩ ?_
    simp only [flights, hbefore, WorkThread.broadcast, toList_some, toList_none, nil_append,
      note_template]
    exact perm_middle

theorem ZmqStep.flown (h : ZmqStep setup env pool pool') (calls : List Broadcast) :
    Flown setup env pool (calls ++ pool.flights) pool' (calls ++ pool'.flights) := by
  have hwork := h.work_eq
  have hidle (hbefore : pool.zmq.broadcast = none) (hafter : pool'.zmq.broadcast = none) :
      pool'.flights = pool.flights := by
    rw [flights, flights, hwork, hbefore, hafter]
  have hlast (before : List Broadcast) (broadcast : Broadcast) :
      (calls ++ (before ++ [broadcast])).Perm (broadcast :: (calls ++ before)) := by
    rw [← append_assoc]
    exact perm_append_singleton broadcast (calls ++ before)
  cases h with
  | undecided zmq hbefore hafter =>
    exact .kept ⟨rfl, rfl, rfl, fun _ h => h, le_rfl⟩ (by rw [hidle hbefore.broadcast hafter.broadcast])
  | eligible block_hash header version halving_interval hbefore hpending hnew =>
    exact .kept ⟨rfl, rfl, rfl, fun _ h => h, le_rfl⟩ (by rw [hidle (by rw [hbefore]; rfl) rfl])
  | failed block_hash header version halving_interval job_counter hbefore hcounter =>
    exact .kept ⟨rfl, rfl, rfl, fun _ h => h, hcounter⟩ (by rw [hidle (by rw [hbefore]; rfl) rfl])
  | made block_hash header version halving_interval block_template job hbefore htemplate hjob =>
    refine .began job true true ⟨rfl, rfl, rfl, fun _ h => h, Nat.le_succ _⟩ (make_job_ok hjob).1 rfl ?_
    simp only [flights, hbefore, ZmqThread.broadcast, toList_some, toList_none, append_nil]
    exact hlast _ _
  | broadcast block_hash broadcast broadcast' mid hbefore hturn =>
    refine .turn _ broadcast broadcast' mid (calls ++ pool.work.broadcast.toList) hturn
      ⟨rfl, rfl, rfl, fun _ h => h, le_rfl⟩ ?_ ?_
    · simp only [flights, hbefore, ZmqThread.broadcast, toList_some]
      exact hlast _ _
    · simp only [flights, hturn.threads.1, ZmqThread.broadcast, toList_some]
      exact hlast _ _
  | returned block_hash hbefore =>
    refine .ended .Published ⟨rfl, rfl, rfl, fun _ h => h, le_rfl⟩ ?_
    simp only [flights, hbefore, ZmqThread.broadcast, toList_some, toList_none, append_nil]
    exact hlast _ _
  | refused block_hash outcome hbefore hrefused =>
    refine .ended outcome ⟨rfl, rfl, rfl, fun _ h => h, le_rfl⟩ ?_
    simp only [flights, hbefore, ZmqThread.broadcast, toList_some, toList_none, append_nil]
    exact hlast _ _
  | cleared hbefore =>
    exact .kept ⟨rfl, rfl, rfl, fun _ h => h, le_rfl⟩ (by rw [hidle (by rw [hbefore]; rfl) rfl])

theorem Stepped.flown {event : Event} (h : Stepped setup env event pool pool') (calls : List Broadcast) :
    Flown setup env pool (calls ++ pool.flights) pool' (calls ++ pool'.flights) := by
  cases h with
  | still => exact .kept (.refl pool) rfl
  | work h hevent => exact h.flown calls
  | zmq h hevent => exact h.flown calls
  | popped pending publication_queue hqueue => exact .kept ⟨rfl, rfl, rfl, fun _ h => h, le_rfl⟩ rfl
  | dropped => exact .kept ⟨rfl, rfl, rfl, fun _ h => h, le_rfl⟩ rfl
  | publication pending index hrecipient => exact .kept ⟨rfl, rfl, rfl, fun _ h => h, le_rfl⟩ rfl
  | add_client extranonce1 => exact .connected extranonce1 ⟨rfl, rfl, rfl, fun _ h => h, le_rfl⟩ rfl
  | add_sv2_client extranonce1 =>
    refine .kept ⟨rfl, rfl, rfl, fun index h => ?_, le_rfl⟩ rfl
    simpa using h
  | remove_client client => exact .kept ⟨rfl, rfl, rfl, fun _ h => mem_of_mem_filter h, le_rfl⟩ rfl
  | sv1 index action haction => exact .session index action haction (.refl _) rfl
  | sv2 index action haction => exact .kept ⟨rfl, rfl, rfl, fun _ h => h, le_rfl⟩ rfl

end Pool

/-- The pool while any number of other threads call `broadcast_job` as well. -/
structure Broadcasts where
  pool : Pool
  calls : List (Publisher × Broadcast)
deriving DecidableEq

/-- The steps: one of the pool, a new call, and the next critical section of a call. -/
inductive Broadcasts.Event where
  | pool (event : Pool.Event)
  | broadcast_job (publisher : Publisher) (block_template : BlockTemplate) (clean required : Bool)
  | turn (index : Nat)

namespace Broadcasts

variable (setup : Setup) (broadcasts : Broadcasts)

def init : Broadcasts := ⟨.init setup, []⟩

def step (action : Environment × Event) : Broadcasts :=
  let (env, event) := action
  match event with
  | .pool event => { broadcasts with pool := broadcasts.pool.step setup (env, event) }
  | .broadcast_job publisher block_template clean required =>
    match broadcasts.pool.make_job setup block_template clean with
    | (.error _, pool) => { broadcasts with pool }
    | (.ok job, pool) => ⟨pool, broadcasts.calls ++ [(publisher, .publishing job clean required)]⟩
  | .turn index =>
    match broadcasts.calls[index]? with
    | none => broadcasts
    | some (publisher, broadcast) =>
      let (pool, broadcast) := broadcasts.pool.broadcast_job setup env publisher broadcast
      ⟨pool, broadcasts.calls.set index (publisher, broadcast)⟩

/-- The state a fresh pool reaches by taking `actions` in order. -/
def reached (actions : List (Environment × Event)) : Broadcasts :=
  Transition.run (step setup) (init setup) actions

def flights : List Broadcast :=
  broadcasts.calls.map Prod.snd ++ broadcasts.pool.flights

theorem flown (env : Environment) (event : Event) :
    Pool.Flown setup env broadcasts.pool broadcasts.flights
      (step setup broadcasts (env, event)).pool (step setup broadcasts (env, event)).flights := by
  cases event with
  | pool event => exact (Pool.stepped setup broadcasts.pool env event).flown _
  | broadcast_job publisher block_template clean required =>
    simp only [step]
    cases hjob : (broadcasts.pool.make_job setup block_template clean).1 with
    | error msg =>
      rw [show broadcasts.pool.make_job setup block_template clean =
        (.error msg, (broadcasts.pool.make_job setup block_template clean).2) from Prod.ext hjob rfl]
      exact .kept ⟨rfl, rfl, rfl, fun _ h => h, Nat.le_succ _⟩ rfl
    | ok job =>
      rw [show broadcasts.pool.make_job setup block_template clean =
        (.ok job, (broadcasts.pool.make_job setup block_template clean).2) from Prod.ext hjob rfl]
      refine .began job clean required ⟨rfl, rfl, rfl, fun _ h => h, Nat.le_succ _⟩
        (Pool.make_job_ok hjob).1 rfl ?_
      simp only [flights, map_append, map_cons, map_nil, append_assoc, singleton_append]
      exact perm_middle
  | turn index =>
    cases hcall : broadcasts.calls[index]? with
    | none =>
      simp only [step, hcall]
      exact .kept (.refl _) rfl
    | some call =>
      obtain ⟨publisher, broadcast⟩ := call
      simp only [step, hcall]
      obtain ⟨hindex, hat⟩ := List.getElem?_eq_some_iff.mp hcall
      by_cases hdone : ∃ outcome, broadcast = .done outcome
      · obtain ⟨outcome, rfl⟩ := hdone
        have hset : broadcasts.calls.set index (publisher, .done outcome) = broadcasts.calls := by
          rw [← hat, set_getElem_self]
        exact .kept (.refl _) (congrArg (fun calls => flights ⟨broadcasts.pool, calls⟩) hset)
      · have hturn := Pool.broadcast_job_spec setup env publisher broadcasts.pool
          (fun outcome h => hdone ⟨outcome, h⟩)
        have hbefore := ((getElem_cons_eraseIdx_perm hindex).symm.map Prod.snd).append_right
          broadcasts.pool.flights
        rw [hat] at hbefore
        refine .turn publisher broadcast _ _ _ hturn (.refl _) hbefore ?_
        have hthreads := hturn.threads
        rw [flights, Pool.flights, hthreads.1, hthreads.2.1]
        exact ((set_perm_cons_eraseIdx hindex _).map Prod.snd).append_right broadcasts.pool.flights

end Broadcasts

end erikslund
