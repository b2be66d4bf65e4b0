import SoloPool.Pool.Published
import SoloPool.Sv2.Session.Sequence

namespace erikslund

open util bitcoin stratum List

namespace Pool

variable {setup : Setup} {env : Environment} {pool pool' : Pool}

/-- What a step does to the SV2 sessions: nothing, a step of one of them, or one more. -/
inductive Sv2Step (setup : Setup) (env : Environment) (event : Event) (pool : Pool) : List sv2.Server → Prop
  | kept : Sv2Step setup env event pool pool.sv2
  | stepped (index : Nat) (action : sv2.Event)
      (hevent : event = .sv2 index action ∨ ∃ job_id clean, action = .publish_job job_id clean) :
      Sv2Step setup env event pool
        (pool.sv2.modify index (fun server => server.step setup.config (pool.context env, action)))
  | connected (extranonce1 : Bytes) :
      Sv2Step setup env event pool (pool.sv2 ++ [.init setup.config extranonce1])

theorem BroadcastStep.sv2_eq {publisher : Publisher} {broadcast broadcast' : Broadcast}
    (h : BroadcastStep setup env publisher pool broadcast pool' broadcast') : pool'.sv2 = pool.sv2 := by
  cases h with
  | delivered job clean recipient rest =>
    obtain ⟨sv1, publication_queue, heq⟩ := @deliver_eq setup env pool job clean recipient
    rw [heq]
  | _ => rfl

variable {event : Event} {index : Nat}

theorem Stepped.sv2_step (h : Stepped setup env event pool pool') :
    Sv2Step setup env event pool pool'.sv2 := by
  cases h with
  | work hwork hevent =>
    cases hwork with
    | broadcast prevhash version broadcast broadcast' mid hbefore hturn =>
      rw [show _ = pool.sv2 from hturn.sv2_eq]
      exact .kept
    | _ => exact .kept
  | zmq hzmq hevent =>
    cases hzmq with
    | broadcast block_hash broadcast broadcast' mid hbefore hturn =>
      rw [show _ = pool.sv2 from hturn.sv2_eq]
      exact .kept
    | _ => exact .kept
  | publication pending index hrecipient => exact .stepped index _ (.inr ⟨_, _, rfl⟩)
  | add_sv2_client extranonce1 => exact .connected extranonce1
  | sv2 index action haction hevent => exact .stepped index action (.inl hevent)
  | _ => exact .kept

theorem Sv2Step.length_le {servers : List sv2.Server}
    (h : Sv2Step setup env event pool servers) : pool.sv2.length ≤ servers.length := by
  cases h with
  | kept => exact le_rfl
  | stepped index action hevent => exact (length_modify ..).ge
  | connected extranonce1 => simp

/-- A session after a step is one before it, one that has taken a step, or a new one. -/
theorem Sv2Step.session {servers : List sv2.Server} (h : Sv2Step setup env event pool servers)
    {server' : sv2.Server} (hserver' : servers[index]? = some server') :
    (∃ server, pool.sv2[index]? = some server ∧ (server' = server ∨ ∃ action,
      (event = .sv2 index action ∨ ∃ job_id clean, action = .publish_job job_id clean) ∧
        server' = server.step setup.config (pool.context env, action))) ∨
    index = pool.sv2.length ∧ ∃ extranonce1, server' = .init setup.config extranonce1 := by
  cases h with
  | kept => exact .inl ⟨server', hserver', .inl rfl⟩
  | stepped other action hevent =>
    rw [getElem?_modify] at hserver'
    obtain ⟨server, hserver, hmodified⟩ := Option.map_eq_some_iff.mp hserver'
    split at hmodified
    · rename_i heq
      subst heq
      exact .inl ⟨server, hserver, .inr ⟨action, hevent, hmodified.symm⟩⟩
    · exact .inl ⟨server, hserver, .inl hmodified.symm⟩
  | connected extranonce1 =>
    rcases Nat.lt_trichotomy index pool.sv2.length with hlt | heq | hgt
    · rw [getElem?_append_left hlt] at hserver'
      exact .inl ⟨server', hserver', .inl rfl⟩
    · subst heq
      rw [getElem?_concat_length] at hserver'
      exact .inr ⟨rfl, extranonce1, (Option.some.inj hserver').symm⟩
    · rw [getElem?_eq_none (by simp; omega)] at hserver'
      cases hserver'

/-- `UpdateChannel` issues the current job only to a channel whose mark has reached it. -/
def UpdatesBehind (setup : Setup) (pool : Pool) (action : Environment × Event) : Prop :=
  match action.2 with
  | .sv2 index event => ∀ server ∈ pool.sv2[index]?, server.UpdatesBehind setup.config (pool.context action.1) event
  | _ => True

instance (setup : Setup) (pool : Pool) (action : Environment × Event) : Decidable (UpdatesBehind setup pool action) :=
  match action with
  | (_, .sv2 _ _) => inferInstanceAs (Decidable (∀ _ ∈ _, _))
  | (_, .poll _ _) | (_, .fetch_template _) | (_, .work) | (_, .on_zmq_block _) | (_, .fetch_header _) | (_, .zmq)
  | (_, .publication_loop) | (_, .add_client) | (_, .add_sv2_client) | (_, .remove_client _) | (_, .sv1 _ _) =>
    inferInstanceAs (Decidable True)

/-- Every SV2 session draws its work from what the pool has published. -/
def Sequential (pool : Pool) : Prop :=
  ∀ (index : Nat) (server : sv2.Server), pool.sv2[index]? = some server →
    sv2.Server.Sequential pool.published pool.cache.publish_counter server

theorem Logged.feeds (h : pool.Logged) :
    sv2.Server.Feeds pool.published pool.cache.publish_counter (pool.context env) := by
  refine ⟨fun job hsupplied => ?_, fun job hmem => h.bounds job hmem, fun job hjob => h.newest job hjob⟩
  rcases hsupplied with hcurrent | ⟨job_id, hrecent⟩
  · exact h.current_mem hcurrent
  · exact (h.recent_job hrecent).1

theorem Stepped.published_grows (h : Stepped setup env event pool pool') :
    pool.published ⊆ pool'.published ∧ pool.cache.publish_counter ≤ pool'.cache.publish_counter := by
  rcases h.published_eq with ⟨hcache, hpublished⟩ | ⟨job, hcache, hpublished⟩
  · rw [hcache, hpublished]
    exact ⟨fun _ hmem => hmem, le_rfl⟩
  · rw [hcache, hpublished]
    exact ⟨fun _ hmem => mem_cons_of_mem _ hmem, Nat.le_succ _⟩

theorem UpdatesBehind.server (h : UpdatesBehind setup pool (env, event))
    {server : sv2.Server} {action : sv2.Event} (hserver : pool.sv2[index]? = some server)
    (hevent : event = .sv2 index action ∨ ∃ job_id clean, action = .publish_job job_id clean) :
    server.UpdatesBehind setup.config (pool.context env) action := by
  rcases hevent with rfl | ⟨job_id, clean, rfl⟩
  · exact h server hserver
  · intro update hupdate
    cases hupdate

theorem Sequential.stepped (h : pool.Sequential) (hlogged : pool.Logged)
    (hbehind : UpdatesBehind setup pool (env, event)) (hstep : Stepped setup env event pool pool') :
    pool'.Sequential := by
  intro index server' hserver'
  obtain ⟨hpublished, hcounter⟩ := hstep.published_grows
  rcases hstep.sv2_step.session hserver' with ⟨server, hserver, rfl | ⟨action, hevent, rfl⟩⟩ | ⟨-, extranonce1, rfl⟩
  · exact (h index _ hserver).mono hpublished hcounter
  · have hsequential := h index server hserver
    exact (hsequential.stepped hlogged.feeds (hbehind.server hserver hevent)).mono hpublished hcounter
  · exact sv2.Server.init_sequential _ _ _ _

/-- Channel `channel_id` of session `index` has had its id handed out and, while it is open,
has been committed nothing below `sequence` last. -/
def CommittedFrom (index channel_id sequence : Nat) (pool : Pool) : Prop :=
  index < pool.sv2.length ∧ ∀ server, pool.sv2[index]? = some server →
    channel_id < server.session.next_channel_id ∧
      ∀ c, server.session.find_channel channel_id = some c → sequence ≤ c.committed_sequence

theorem CommittedFrom.stepped {channel_id sequence : Nat}
    (h : CommittedFrom index channel_id sequence pool) (hsequential : pool.Sequential) (hlogged : pool.Logged)
    (hbehind : UpdatesBehind setup pool (env, event)) (hstep : Stepped setup env event pool pool') :
    CommittedFrom index channel_id sequence pool' := by
  refine ⟨h.1.trans_le hstep.sv2_step.length_le, fun server' hserver' => ?_⟩
  rcases hstep.sv2_step.session hserver' with ⟨server, hserver, rfl | ⟨action, hevent, rfl⟩⟩ | ⟨hnew, -⟩
  · exact h.2 _ hserver
  · obtain ⟨hid, hcommitted⟩ := h.2 server hserver
    refine ⟨hid.trans_le (sv2.Server.next_channel_id_le ..), fun c' hfind' => ?_⟩
    obtain ⟨c, hfind⟩ := sv2.Server.found_before hid hfind'
    have hadvanced := ((hsequential index server hserver).channel hlogged.feeds (hbehind.server hserver hevent) hfind').1
    exact (hcommitted c hfind).trans (hadvanced c hfind).committed
  · exact absurd h.1 (by omega)

/-- In every run in which no `UpdateChannel` issues a job ahead of its channel's mark, the
publication sequence of the jobs committed to a channel never decreases. -/
theorem committed_sequence_mono (setup : Setup) (actions later : List (Environment × Event)) (index channel_id : Nat)
    {server server' : sv2.Server} {c c' : sv2.Channel}
    (hbehind : Transition.Guarded (step setup) (UpdatesBehind setup) (init setup) (actions ++ later))
    (hserver : (reached setup actions).sv2[index]? = some server)
    (hserver' : (reached setup (actions ++ later)).sv2[index]? = some server')
    (hopen : server.session.find_channel channel_id = some c)
    (hopen' : server'.session.find_channel channel_id = some c') :
    c.committed_sequence ≤ c'.committed_sequence := by
  obtain ⟨hbefore, hafter⟩ := Transition.guarded_append.mp hbehind
  let sound (pool : Pool) : Prop := pool.Logged ∧ pool.Sequential
  have hstep (pool : Pool) (action : Environment × Event) (h : sound pool)
      (hbehind : UpdatesBehind setup pool action) : sound (step setup pool action) := by
    have hstepped := Pool.stepped setup pool action.1 action.2
    exact ⟨h.1.stepped hstepped, h.2.stepped h.1 hbehind hstepped⟩
  have hsound : sound (reached setup actions) := by
    refine Transition.run_invariant hstep ⟨init_logged setup, ?_⟩ hbefore
    intro index server hserver
    simp [init] at hserver
  have hid : channel_id < server.session.next_channel_id := by
    have hwf := (hsound.2 index server hserver).wellFormed
    have hmem := mem_map_of_mem (f := sv2.Channel.id) (mem_of_find?_eq_some hopen)
    rw [sv2.Session.find_channel_id hopen] at hmem
    exact hwf.ids channel_id hmem
  let inv (pool : Pool) : Prop := sound pool ∧ CommittedFrom index channel_id c.committed_sequence pool
  have hreached : inv (reached setup (actions ++ later)) := by
    rw [reached, Transition.run_append]
    refine Transition.run_invariant ?_ ⟨hsound, ?_⟩ hafter
    · rintro pool ⟨env, event⟩ ⟨hsound, hcommitted⟩ hbehind
      have hstepped := Pool.stepped setup pool env event
      exact ⟨hstep pool _ hsound hbehind, hcommitted.stepped hsound.2 hsound.1 hbehind hstepped⟩
    · refine ⟨(List.getElem?_eq_some_iff.mp hserver).1, fun found hfound => ?_⟩
      obtain rfl : server = found := Option.some.inj (hserver.symm.trans hfound)
      refine ⟨hid, fun found hfound => ?_⟩
      rw [Option.some.inj (hopen.symm.trans hfound)]
  exact (hreached.2.2 server' hserver').2 c' hopen'

end Pool

namespace Pool

open Regtest

/-- A frame from the SV2 client `0`. -/
def frame (channel_message : Bool) (payload : sv2.Payload) : Event := .sv2 0 (.frame ⟨0, channel_message, payload⟩)

/-- A miner whose target stays at the hardest one. -/
def hardest : Hash256 := ⟨1 :: replicate 31 0, by decide⟩

/-- A Standard channel is opened on the first job, at a hash rate that needs no refreshes, and
the second job waits for it in the queue. -/
def queued : List (Environment × Event) :=
  actions (refresh_work (Job.minimal_template 1 900) 6 ++
    [.add_sv2_client, frame false (.setup_connection ⟨0, 2, 2, 0⟩),
      frame false (.open_standard_mining_channel ⟨7, "miner".toList, some 0, hardest⟩)] ++
    refresh_work (Job.minimal_template 2 900) 8)

/-- The update that asks for frequent refreshes. -/
def faster : Event := frame true (.update_channel ⟨1, some (2 ^ 49), hardest⟩)

/-- The third job is published, and the update issues it before the second is delivered. -/
def updated : List (Environment × Event) := actions (refresh_work (Job.minimal_template 3 900) 4 ++ [faster])

/-- The publication thread then delivers the second. -/
def delivered : List (Environment × Event) :=
  actions [.publication_loop, .publication_loop, .sv2 0 (.resume 0), .sv2 0 (.resume 0)]

/-- The channel is moved back from the third job and its tip to the second. -/
theorem update_overtakes_publication :
    (∃ server ∈ (reached setup (queued ++ updated)).sv2[0]?, ∃ c ∈ server.session.find_channel 1,
      c.committed_sequence = 3 ∧ c.previous_hash = some ⟨replicate 32 3, by simp⟩) ∧
    ∃ server ∈ (reached setup (queued ++ updated ++ delivered)).sv2[0]?, ∃ c ∈ server.session.find_channel 1,
      c.committed_sequence = 2 ∧ c.previous_hash = some ⟨replicate 32 2, by simp⟩ := by
  decide +kernel

/-- The same update once the second job has been delivered. -/
def caught_up : List (Environment × Event) := delivered ++ actions [faster]

theorem committed_sequence_mono_caught_up :
    ∃ c c', (∃ server ∈ (reached setup queued).sv2[0]?, server.session.find_channel 1 = some c) ∧
      (∃ server ∈ (reached setup (queued ++ caught_up)).sv2[0]?, server.session.find_channel 1 = some c') ∧
      c.committed_sequence = 1 ∧ c'.committed_sequence = 2 ∧ c.committed_sequence ≤ c'.committed_sequence := by
  have hbefore : ∃ server ∈ (reached setup queued).sv2[0]?, ∃ c ∈ server.session.find_channel 1,
      c.committed_sequence = 1 := by decide +kernel
  have hafter : ∃ server ∈ (reached setup (queued ++ caught_up)).sv2[0]?, ∃ c ∈ server.session.find_channel 1,
      c.committed_sequence = 2 := by decide +kernel
  obtain ⟨server, hserver, c, hopen, hfirst⟩ := hbefore
  obtain ⟨server', hserver', c', hopen', hsecond⟩ := hafter
  exact ⟨c, c', ⟨server, hserver, hopen⟩, ⟨server', hserver', hopen'⟩, hfirst, hsecond,
    committed_sequence_mono setup queued caught_up 0 1 (by decide +kernel) hserver hserver' hopen hopen'⟩

end Pool

end erikslund
