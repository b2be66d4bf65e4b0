import SoloPool.Pool.Changes

namespace erikslund

open util bitcoin stratum Coalescing List Option

/-- The queue of a pool and its clients, with a record of the calls of `enqueue_publication`
and of the entries that the publication thread has popped. -/
structure Publications where
  pool : Pool
  log : List (Record PendingPublication)
deriving DecidableEq

/-- The steps: `enqueue_publication` from any thread, with any job, the pop of the publication
thread, and clients that come and go. -/
inductive Publications.Event where
  | enqueue_publication (recipient : ClientRef) (job : Job) (clean : Bool)
  | pop
  | add_client
  | add_sv2_client
  | remove_client (client : ClientRef)

/-- The client has connected, and may have left since. -/
def Pool.Knows (pool : Pool) : ClientRef → Prop
  | .sv1 index => index < pool.sv1.length
  | .sv2 index => index < pool.sv2.length

instance (pool : Pool) (client : ClientRef) : Decidable (pool.Knows client) :=
  match client with
  | .sv1 index => inferInstanceAs (Decidable (index < pool.sv1.length))
  | .sv2 index => inferInstanceAs (Decidable (index < pool.sv2.length))

namespace Publications

def init (setup : Setup) : Publications := ⟨.init setup, []⟩

def step (setup : Setup) (publications : Publications) (action : Environment × Event) : Publications :=
  let (env, event) := action
  let pool := publications.pool
  match event with
  | .enqueue_publication recipient job clean =>
    if pool.Knows recipient then
      ⟨pool.enqueue_publication recipient job clean, .enqueued ⟨recipient, job, clean⟩ :: publications.log⟩
    else publications
  | .pop =>
    match pool.publication_queue with
    | [] => publications
    | pending :: rest => ⟨{ pool with publication_queue := rest }, .popped pending :: publications.log⟩
  | .add_client => { publications with pool := pool.step setup (env, .add_client) }
  | .add_sv2_client => { publications with pool := pool.step setup (env, .add_sv2_client) }
  | .remove_client client => { publications with pool := pool.step setup (env, .remove_client client) }

open Transition

/-- The state a fresh queue reaches by taking `actions` in order. -/
def reached (setup : Setup) (actions : List (Environment × Event)) : Publications :=
  run (step setup) (init setup) actions

/-- What was enqueued for `client` since its last pop, newest first. -/
def enqueued (publications : Publications) (client : ClientRef) : List PendingPublication :=
  since PendingPublication.recipient client publications.log

/-- The queue holds what was enqueued for the connected clients. -/
structure Sound (publications : Publications) : Prop where
  known : ∀ client ∈ publications.pool.clients, publications.pool.Knows client
  logged : ∀ entry, .enqueued entry ∈ publications.log → publications.pool.Knows entry.recipient
  tracked : Tracked PendingPublication.recipient PendingPublication.merge (· ∈ publications.pool.clients)
    publications.pool.publication_queue publications.log

theorem init_sound (setup : Setup) : (init setup).Sound :=
  ⟨by simp [init, Pool.init], by simp [init], .empty _⟩

variable {setup : Setup} {env : Environment} {publications : Publications}

theorem since_eq_nil {client : ClientRef} {log : List (Record PendingPublication)}
    (h : ∀ entry, .enqueued entry ∈ log → entry.recipient ≠ client) :
    since PendingPublication.recipient client log = [] := by
  induction log with
  | nil => rfl
  | cons record log ih =>
    have hrest := ih fun entry hentry => h entry (mem_cons_of_mem _ hentry)
    cases record with
    | enqueued entry => simp [since, h entry mem_cons_self, hrest]
    | popped entry => simp [since, hrest]

/-- A client that connects is a new one. -/
theorem Sound.connect (h : publications.Sound) {pool : Pool} {client : ClientRef}
    (hclients : pool.clients = publications.pool.clients ++ [client])
    (hqueue : pool.publication_queue = publications.pool.publication_queue)
    (hnew : ¬ publications.pool.Knows client) (hclient : pool.Knows client)
    (hknows : ∀ other, publications.pool.Knows other → pool.Knows other) :
    Sound { publications with pool } := by
  refine ⟨fun other hmem => ?_, fun entry hentry => hknows _ (h.logged entry hentry), ?_⟩
  · change other ∈ pool.clients at hmem
    rw [hclients] at hmem
    rcases mem_append.mp hmem with hmem | hmem
    · exact hknows other (h.known other hmem)
    · obtain rfl := mem_singleton.mp hmem
      exact hclient
  · have htracked : Tracked PendingPublication.recipient PendingPublication.merge
        (· ∈ publications.pool.clients ++ [client]) publications.pool.publication_queue publications.log := by
      refine h.tracked.extend (fun other hmem => mem_append_left _ hmem) fun other hmem => ?_
      rcases mem_append.mp hmem with hmem | hmem
      · exact .inl hmem
      · obtain rfl := mem_singleton.mp hmem
        refine .inr (since_eq_nil fun entry hentry heq => hnew ?_)
        exact heq ▸ h.logged entry hentry
    simpa only [hclients, hqueue] using htracked

theorem Sound.step (h : publications.Sound) (event : Event) :
    (Publications.step setup publications (env, event)).Sound := by
  cases event with
  | enqueue_publication recipient job clean =>
    simp only [Publications.step]
    split
    · rename_i hknown
      have hlogged (pool : Pool) (hsame : ∀ client, pool.Knows client ↔ publications.pool.Knows client) :
          ∀ entry, Record.enqueued entry ∈ .enqueued ⟨recipient, job, clean⟩ :: publications.log →
            pool.Knows entry.recipient := by
        intro entry hentry
        rw [hsame]
        rcases mem_cons.mp hentry with hentry | hentry
        · cases hentry
          exact hknown
        · exact h.logged entry hentry
      unfold Pool.enqueue_publication
      split
      · rename_i hdropped
        exact ⟨h.known, hlogged _ fun _ => Iff.rfl, h.tracked.drop hdropped⟩
      · rename_i hconnected
        refine ⟨h.known, hlogged _ fun client => by cases client <;> rfl, ?_⟩
        exact h.tracked.enqueue (fun _ _ => rfl) (not_not.mp hconnected)
    · exact h
  | pop =>
    simp only [Publications.step]
    split
    · exact h
    · rename_i pending rest hqueue
      refine ⟨h.known, fun entry hentry => h.logged entry ?_, ?_⟩
      · simpa using hentry
      · have htracked := h.tracked
        rw [hqueue] at htracked
        exact htracked.pop
  | add_client =>
    refine h.connect rfl rfl (Nat.lt_irrefl _) ?_ fun other hother => ?_
    · simp [Pool.Knows, Pool.step]
    · cases other with
      | sv1 index =>
        change index < publications.pool.sv1.length at hother
        simp only [Pool.Knows, Pool.step, length_append, length_singleton]
        omega
      | sv2 index => exact hother
  | add_sv2_client =>
    refine h.connect rfl rfl (Nat.lt_irrefl _) ?_ fun other hother => ?_
    · simp [Pool.Knows, Pool.step]
    · cases other with
      | sv1 index => exact hother
      | sv2 index =>
        change index < publications.pool.sv2.length at hother
        simp only [Pool.Knows, Pool.step, length_append, length_singleton]
        omega
  | remove_client client =>
    refine ⟨fun other hmem => ?_, fun entry hentry => ?_, ?_⟩
    · have hknown := h.known other (mem_of_mem_filter hmem)
      cases other <;> exact hknown
    · have hknown := h.logged entry hentry
      cases hrecipient : entry.recipient <;> (rw [hrecipient] at hknown; exact hknown)
    · refine h.tracked.forget _ (fun other hmem => mem_of_mem_filter hmem) fun pending hmem => ?_
      have hconnected := h.tracked.alive pending hmem
      simp [Publications.step, Pool.step, hconnected]

theorem reached_sound (setup : Setup) (actions : List (Environment × Event)) : (reached setup actions).Sound :=
  run_invariant_always (fun _ action h => h.step action.2) actions (init_sound setup)

/-- The client has connected and is not connected any more. -/
def Left (client : ClientRef) (publications : Publications) : Prop :=
  publications.pool.Knows client ∧ client ∉ publications.pool.clients

theorem Left.step {client : ClientRef} (h : Left client publications) (event : Event) :
    Left client (Publications.step setup publications (env, event)) := by
  obtain ⟨hknown, hleft⟩ := h
  cases event with
  | enqueue_publication recipient job clean =>
    simp only [Publications.step]
    split
    · unfold Pool.enqueue_publication
      split
      · exact ⟨hknown, hleft⟩
      · exact ⟨by cases client <;> exact hknown, hleft⟩
    · exact ⟨hknown, hleft⟩
  | pop =>
    simp only [Publications.step]
    split
    · exact ⟨hknown, hleft⟩
    · exact ⟨by cases client <;> exact hknown, hleft⟩
  | add_client =>
    cases client with
    | sv1 index =>
      change index < publications.pool.sv1.length at hknown
      simp only [Left, Publications.step, Pool.step, Pool.Knows, length_append, length_singleton, mem_append,
        mem_singleton, ClientRef.sv1.injEq]
      exact ⟨by omega, by rintro (hmem | rfl); exacts [hleft hmem, Nat.lt_irrefl _ hknown]⟩
    | sv2 index => exact ⟨hknown, by simpa [Publications.step, Pool.step] using hleft⟩
  | add_sv2_client =>
    cases client with
    | sv1 index => exact ⟨hknown, by simpa [Publications.step, Pool.step] using hleft⟩
    | sv2 index =>
      change index < publications.pool.sv2.length at hknown
      simp only [Left, Publications.step, Pool.step, Pool.Knows, length_append, length_singleton, mem_append,
        mem_singleton, ClientRef.sv2.injEq]
      exact ⟨by omega, by rintro (hmem | rfl); exacts [hleft hmem, Nat.lt_irrefl _ hknown]⟩
  | remove_client other =>
    exact ⟨by cases client <;> exact hknown, fun hmem => hleft (mem_of_mem_filter hmem)⟩

/-- What entries have been merged into: the newest job, and clean if one of them is. -/
theorem merged_spec {entries : List PendingPublication} {pending : PendingPublication}
    (h : Merged PendingPublication.merge entries pending) :
    (∃ entry ∈ entries, entry.job = pending.job) ∧
      (∀ entry ∈ entries, entry.job.publication_sequence ≤ pending.job.publication_sequence) ∧
      pending.clean = entries.any PendingPublication.clean := by
  induction h with
  | single entry => exact ⟨⟨entry, by simp, rfl⟩, by simp, by simp⟩
  | @merge entry entries pending h ih =>
    obtain ⟨⟨newest, hnewest, hjob⟩, hle, hclean⟩ := ih
    simp only [PendingPublication.merge]
    split
    · rename_i hnewer
      refine ⟨⟨entry, mem_cons_self, rfl⟩, forall_mem_cons.mpr ⟨le_rfl, fun older holder => ?_⟩, ?_⟩
      · exact (hle older holder).trans hnewer
      · rw [hclean, any_cons, Bool.or_comm]
    · rename_i hold
      refine ⟨⟨newest, mem_cons_of_mem _ hnewest, hjob⟩, forall_mem_cons.mpr ⟨by omega, hle⟩, ?_⟩
      rw [hclean, any_cons, Bool.or_comm]

/-- The queue holds at most one entry for a client, with the newest job enqueued for it since
its last pop, clean if one of those was. A client that is removed has no entry from then on.
What was enqueued for a client that is still connected waits, or has been popped since, with
a job at least as new and a flag at least as strong. -/
theorem queue_holds_newest (setup : Setup) (actions : List (Environment × Event)) :
    ((reached setup actions).pool.publication_queue.map PendingPublication.recipient).Nodup ∧
    (∀ pending ∈ (reached setup actions).pool.publication_queue,
      (∃ entry ∈ (reached setup actions).enqueued pending.recipient, entry.job = pending.job) ∧
      (∀ entry ∈ (reached setup actions).enqueued pending.recipient,
        entry.job.publication_sequence ≤ pending.job.publication_sequence) ∧
      pending.clean = ((reached setup actions).enqueued pending.recipient).any PendingPublication.clean) ∧
    (∀ client env later, (reached setup actions).pool.Knows client →
      ∀ pending ∈ (reached setup (actions ++ (env, .remove_client client) :: later)).pool.publication_queue,
        pending.recipient ≠ client) ∧
    ∀ after entry before, (reached setup actions).log = after ++ .enqueued entry :: before →
      entry.recipient ∈ (reached setup actions).pool.clients →
      ∃ pending, (pending ∈ (reached setup actions).pool.publication_queue ∨ .popped pending ∈ after) ∧
        pending.recipient = entry.recipient ∧
        entry.job.publication_sequence ≤ pending.job.publication_sequence ∧
        (entry.clean = true → pending.clean = true) := by
  have hsound := reached_sound setup actions
  refine ⟨hsound.tracked.distinct, fun pending hmem => merged_spec (hsound.tracked.waiting pending hmem), ?_, ?_⟩
  · intro client env later hknown pending hmem heq
    have hleft : Left client (reached setup (actions ++ (env, .remove_client client) :: later)) := by
      rw [reached, run_append, run_cons]
      refine run_invariant_always (fun _ action h => h.step action.2) later ⟨?_, ?_⟩
      · cases client <;> exact hknown
      · simp [step, Pool.step]
    have hconnected := (reached_sound setup _).tracked.alive pending hmem
    exact hleft.2 (heq ▸ hconnected)
  · intro after entry before hlog hconnected
    obtain ⟨pending, entries, hpending, hrecipient, hentry, hmerged⟩ := hsound.tracked.covered hlog hconnected
    obtain ⟨-, hnewest, hclean⟩ := merged_spec hmerged
    refine ⟨pending, hpending, hrecipient, hnewest entry hentry, fun hflag => ?_⟩
    rw [hclean]
    exact any_eq_true.mpr ⟨entry, hentry, hflag⟩

/-- A newer job arrives before an older clean one. -/
def reordered : List (Environment × Event) :=
  Pool.Regtest.actions [.add_sv2_client, .enqueue_publication (.sv2 0) (Job.minimal "2".toList 1 900 2) false,
    .enqueue_publication (.sv2 0) (Job.minimal "1".toList 1 900 1) true]

/-- The entry keeps the newer job and takes the flag of the older one. -/
theorem queue_holds_newest_reordered :
    ∃ pending, (reached Pool.Regtest.setup reordered).pool.publication_queue = [pending] ∧
      pending.job = Job.minimal "2".toList 1 900 2 ∧ pending.clean = true ∧
      ∀ entry ∈ (reached Pool.Regtest.setup reordered).enqueued pending.recipient,
        entry.job.publication_sequence ≤ pending.job.publication_sequence := by
  have hqueue : (reached Pool.Regtest.setup reordered).pool.publication_queue =
      [⟨.sv2 0, Job.minimal "2".toList 1 900 2, true⟩] := by decide
  refine ⟨_, hqueue, rfl, rfl, ?_⟩
  exact ((queue_holds_newest Pool.Regtest.setup reordered).2.1 _ (by simp [hqueue])).2.1

end Publications

/-! ## The queue of the pool -/

/-- The publication that the next turn of a broadcast enqueues. -/
def Broadcast.next : Broadcast → Option PendingPublication
  | .delivering job clean (.sv2 index :: _) => some ⟨.sv2 index, job, clean⟩
  | _ => none

namespace Pool

/-- The delivery that the turn of a broadcast makes, if the client is still connected. -/
def delivery (pool : Pool) (broadcast : Option Broadcast) : Option (Record PendingPublication) :=
  ((broadcast.bind Broadcast.next).filter (fun pending => pending.recipient ∈ pool.clients)).map .enqueued

/-- What a step does to the queue, by what the thread that takes it is about to do. -/
def recorded (pool : Pool) : Event → Option (Record PendingPublication)
  | .work => pool.delivery pool.work.broadcast
  | .zmq => pool.delivery pool.zmq.broadcast
  | .publication_loop =>
    if pool.publication = none ∧ pool.publishing = false then pool.publication_queue.head?.map .popped else none
  | _ => none

/-- The deliveries and the pops of a run, newest first. -/
def records (setup : Setup) : Pool → List (Environment × Event) → List (Record PendingPublication)
  | _, [] => []
  | pool, action :: actions => records setup (pool.step setup action) actions ++ (pool.recorded action.2).toList

/-- The queue and the clients of a pool are those of `publications`. -/
structure Queued (pool : Pool) (publications : Publications) : Prop where
  clients : publications.pool.clients = pool.clients
  queue : publications.pool.publication_queue = pool.publication_queue
  sv1 : publications.pool.sv1.length = pool.sv1.length
  sv2 : publications.pool.sv2.length = pool.sv2.length

/-- The queue machine follows to `pool'`, with `record` in its log. -/
def Follows (setup : Setup) (publications : Publications) (pool' : Pool)
    (record : Option (Record PendingPublication)) : Prop :=
  ∃ events, Queued pool' (Transition.run (Publications.step setup) publications events) ∧
    (Transition.run (Publications.step setup) publications events).log = record.toList ++ publications.log

variable {setup : Setup} {env : Environment} {pool pool' : Pool} {publications : Publications}

theorem Queued.still (h : Queued pool' publications) : Follows setup publications pool' none := ⟨[], h, rfl⟩

theorem Queued.moved {record : Option (Record PendingPublication)} (action : Environment × Publications.Event)
    (h : Queued pool' (Publications.step setup publications action))
    (hlog : (Publications.step setup publications action).log = record.toList ++ publications.log) :
    Follows setup publications pool' record := ⟨[action], h, hlog⟩

theorem length_step_sv1 (index : Nat) (event : stratum.Event) :
    (pool.step_sv1 setup env index event).sv1.length = pool.sv1.length :=
  length_modify ..

theorem length_step_sv2 (index : Nat) (event : sv2.Event) :
    (pool.step_sv2 setup env index event).sv2.length = pool.sv2.length :=
  length_modify ..

open Queued

/-- A turn of `broadcast_job` enqueues the publication of its next recipient, or none. -/
theorem BroadcastStep.queued {publisher : Publisher} {broadcast broadcast' : Broadcast} (h : Queued pool publications)
    (hsound : publications.Sound) (hturn : BroadcastStep setup env publisher pool broadcast pool' broadcast') :
    Follows setup publications pool' (pool.delivery (some broadcast)) := by
  cases hturn with
  | delivered job clean recipient rest =>
    cases recipient with
    | sv1 index => exact still ⟨h.clients, h.queue, h.sv1.trans (length_step_sv1 index _).symm, h.sv2⟩
    | sv2 index =>
      by_cases hconnected : ClientRef.sv2 index ∈ pool.clients
      · have hconnected' : ClientRef.sv2 index ∈ publications.pool.clients := h.clients ▸ hconnected
        have hknown := hsound.known _ hconnected'
        refine moved (env, .enqueue_publication (.sv2 index) job clean) ?_ ?_
        · simp only [Publications.step, hknown, if_true, deliver, enqueue_publication, hconnected, hconnected',
            not_true_eq_false, if_false]
          exact ⟨h.clients, by rw [h.queue], h.sv1, h.sv2⟩
        · simp [Publications.step, hknown, delivery, Broadcast.next, filter_some, hconnected]
      · simp only [delivery, bind_some, Broadcast.next, deliver, enqueue_publication, hconnected,
          not_false_eq_true, if_true, filter_some, decide_false, Bool.false_eq_true, if_false, map_none]
        exact h.still
  | _ => exact still ⟨h.clients, h.queue, h.sv1, h.sv2⟩

theorem delivery_work_still (h : pool.step_work setup env = pool) : pool.delivery pool.work.broadcast = none := by
  cases hwork : pool.work with
  | broadcasting prevhash version broadcast =>
    cases broadcast with
    | delivering job clean recipients =>
      cases recipients with
      | nil => rfl
      | cons recipient rest =>
        have hthread := congrArg Pool.work h
        simp [step_work, hwork, broadcast_job] at hthread
    | _ => rfl
  | _ => rfl

theorem delivery_zmq_still (h : pool.step_zmq setup env = pool) : pool.delivery pool.zmq.broadcast = none := by
  cases hzmq : pool.zmq with
  | broadcasting block_hash broadcast =>
    cases broadcast with
    | delivering job clean recipients =>
      cases recipients with
      | nil => rfl
      | cons recipient rest =>
        have hthread := congrArg Pool.zmq h
        simp [step_zmq, hzmq, broadcast_job] at hthread
    | _ => rfl
  | _ => rfl

theorem WorkStep.queued (h : Queued pool publications) (hsound : publications.Sound)
    (hstep : WorkStep setup env pool pool') :
    Follows setup publications pool' (pool.delivery pool.work.broadcast) := by
  have hquiet {pool' : Pool} (hqueued : Queued pool' publications) (hnone : pool.delivery pool.work.broadcast = none) :
      Follows setup publications pool' (pool.delivery pool.work.broadcast) := hnone ▸ hqueued.still
  cases hstep with
  | broadcast prevhash version broadcast broadcast' mid hbefore hturn =>
    rw [hbefore]
    obtain ⟨events, hmid, hlog⟩ := hturn.queued h hsound
    exact ⟨events, ⟨hmid.clients, hmid.queue, hmid.sv1, hmid.sv2⟩, hlog⟩
  | idle work refresh_failing hbefore => exact hquiet ⟨h.clients, h.queue, h.sv1, h.sv2⟩ (by rw [hbefore]; rfl)
  | failed refresh_failing hbefore => exact hquiet ⟨h.clients, h.queue, h.sv1, h.sv2⟩ (by rw [hbefore]; rfl)
  | made block_template clean job hbefore => exact hquiet ⟨h.clients, h.queue, h.sv1, h.sv2⟩ (by rw [hbefore]; rfl)
  | stale prevhash version hbefore => exact hquiet ⟨h.clients, h.queue, h.sv1, h.sv2⟩ (by rw [hbefore]; rfl)
  | noted prevhash version outcome hbefore =>
    exact hquiet ⟨h.clients, h.queue, h.sv1, h.sv2⟩ (by rw [hbefore]; rfl)

theorem ZmqStep.queued (h : Queued pool publications) (hsound : publications.Sound)
    (hstep : ZmqStep setup env pool pool') :
    Follows setup publications pool' (pool.delivery pool.zmq.broadcast) := by
  cases hstep with
  | broadcast block_hash broadcast broadcast' mid hbefore hturn =>
    rw [hbefore]
    obtain ⟨events, hmid, hlog⟩ := hturn.queued h hsound
    exact ⟨events, ⟨hmid.clients, hmid.queue, hmid.sv1, hmid.sv2⟩, hlog⟩
  | _ =>
    have hnone : pool.delivery pool.zmq.broadcast = none := by
      cases hzmq : pool.zmq <;> simp_all [ZmqThread.Undecided, ZmqThread.broadcast, delivery, Broadcast.next]
    rw [hnone]
    exact still ⟨h.clients, h.queue, h.sv1, h.sv2⟩

/-- A step of the pool is one of the queue, with the record of what it does, or leaves it alone. -/
theorem Queued.step (h : Queued pool publications) (hsound : publications.Sound) (env : Environment)
    (event : Event) :
    Follows setup publications (pool.step setup (env, event)) (pool.recorded event) := by
  cases event with
  | poll refresh_due tip =>
    simp only [Pool.step, recorded]
    split
    · rename_i hwork
      have hfollows := (poll_spec setup env hwork refresh_due tip).queued h hsound
      rwa [hwork] at hfollows
    · exact h.still
  | fetch_template reply =>
    simp only [Pool.step]
    split
    · exact h.still
    · cases reply <;> exact still ⟨h.clients, h.queue, h.sv1, h.sv2⟩
  | work =>
    rcases step_work_spec setup env pool with hstill | hwork
    · rw [Pool.step, recorded, hstill, delivery_work_still hstill]
      exact h.still
    · exact hwork.queued h hsound
  | on_zmq_block block_hash =>
    simp only [Pool.step, on_zmq_block]
    split
    · split
      · exact still ⟨h.clients, h.queue, h.sv1, h.sv2⟩
      · exact h.still
    · exact h.still
  | fetch_header reply =>
    simp only [Pool.step]
    split
    · exact still ⟨h.clients, h.queue, h.sv1, h.sv2⟩
    · exact still ⟨h.clients, h.queue, h.sv1, h.sv2⟩
    · exact h.still
  | zmq =>
    rcases step_zmq_spec setup env pool with hstill | hzmq
    · rw [Pool.step, recorded, hstill, delivery_zmq_still hstill]
      exact h.still
    · exact hzmq.queued h hsound
  | publication_loop =>
    simp only [Pool.step, publication_loop, recorded]
    cases hpublication : pool.publication with
    | some pending =>
      simp only [reduceCtorEq, false_and, if_false]
      cases pending.recipient with
      | sv1 index => exact still ⟨h.clients, h.queue, h.sv1, h.sv2⟩
      | sv2 index => exact still ⟨h.clients, h.queue, h.sv1, h.sv2.trans (length_step_sv2 index _).symm⟩
    | none =>
      cases hqueue : pool.publication_queue with
      | nil => simpa using h.still
      | cons pending rest =>
        cases pool.publishing with
        | true => simpa using h.still
        | false =>
          refine moved (env, .pop) ?_ ?_ <;> simp only [Publications.step, h.queue, hqueue]
          · exact ⟨h.clients, rfl, h.sv1, h.sv2⟩
          · simp
  | add_client =>
    refine moved (env, .add_client) ⟨?_, h.queue, ?_, h.sv2⟩ rfl
    · simp [Publications.step, Pool.step, h.clients, h.sv1]
    · simp [Publications.step, Pool.step, h.sv1]
  | add_sv2_client =>
    refine moved (env, .add_sv2_client) ⟨?_, h.queue, h.sv1, ?_⟩ rfl
    · simp [Publications.step, Pool.step, h.clients, h.sv2]
    · simp [Publications.step, Pool.step, h.sv2]
  | remove_client client =>
    refine moved (env, .remove_client client) ⟨?_, ?_, h.sv1, h.sv2⟩ rfl
    · simp [Publications.step, Pool.step, h.clients]
    · simp [Publications.step, Pool.step, h.queue]
  | sv1 index event =>
    cases event with
    | send_notify job clean => exact h.still
    | _ => exact still ⟨h.clients, h.queue, h.sv1.trans (length_step_sv1 index _).symm, h.sv2⟩
  | sv2 index event =>
    cases event with
    | publish_job job_id clean => exact h.still
    | _ => exact still ⟨h.clients, h.queue, h.sv1, h.sv2.trans (length_step_sv2 index _).symm⟩

/-- In every run of the pool its queue is one that the queue machine reaches on the deliveries
and the pops of the run. So an entry has the newest job delivered to its client since the last
pop for it, and the strongest flag. -/
theorem reached_publications (setup : Setup) (actions : List (Environment × Event)) :
    (∃ events, Queued (reached setup actions) (Publications.reached setup events) ∧
      (Publications.reached setup events).log = records setup (init setup) actions) ∧
    ((reached setup actions).publication_queue.map PendingPublication.recipient).Nodup ∧
    ∀ pending ∈ (reached setup actions).publication_queue,
      let delivered := since PendingPublication.recipient pending.recipient (records setup (init setup) actions)
      (∃ entry ∈ delivered, entry.job = pending.job) ∧
      (∀ entry ∈ delivered, entry.job.publication_sequence ≤ pending.job.publication_sequence) ∧
      pending.clean = delivered.any PendingPublication.clean := by
  have hrun (pool : Pool) (publications : Publications) (h : Queued pool publications) (hsound : publications.Sound) :
      ∃ events, Queued (Transition.run (step setup) pool actions)
          (Transition.run (Publications.step setup) publications events) ∧
        (Transition.run (Publications.step setup) publications events).log =
          records setup pool actions ++ publications.log := by
    induction actions generalizing pool publications with
    | nil => exact ⟨[], h, rfl⟩
    | cons action actions ih =>
      obtain ⟨env, event⟩ := action
      obtain ⟨first, hfirst, hrecord⟩ := h.step hsound env event
      obtain ⟨rest, hrest, hrecords⟩ := ih _ _ hfirst
        (Transition.run_invariant_always (fun _ action h => h.step action.2) first hsound)
      refine ⟨first ++ rest, ?_, ?_⟩ <;> rw [Transition.run_append]
      · exact hrest
      · rw [hrecords, hrecord, records, append_assoc]
  obtain ⟨events, hqueued, hlog⟩ := hrun (init setup) (.init setup) ⟨rfl, rfl, rfl, rfl⟩ (Publications.init_sound setup)
  have hsound := Publications.reached_sound setup events
  rw [← append_nil (records setup (init setup) actions)]
  refine ⟨⟨events, hqueued, hlog⟩, ?_, fun pending hmem => ?_⟩
  · exact hqueued.queue ▸ hsound.tracked.distinct
  · have hmerged := Publications.merged_spec (hsound.tracked.waiting pending (hqueued.queue.symm ▸ hmem))
    rwa [show (Publications.reached setup events).log = _ from hlog] at hmerged

end Pool

end erikslund
