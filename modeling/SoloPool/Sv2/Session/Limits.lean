import Mathlib.Data.List.ReduceOption
import SoloPool.Sv2.Session.JobIds

namespace erikslund.sv2

open util stratum List

/-- Eviction keeps the list of issued jobs within its limit. -/
theorem Change.jobs_length {mask : UInt32} {ctx : PoolContext} {cause : Cause} {c c' : Channel}
    {messages : List Message} (h : Change mask ctx cause (some c) messages (some c'))
    (hbefore : c.jobs.length ≤ kMaximumIssuedJobs) : c'.jobs.length ≤ kMaximumIssuedJobs := by
  have hevicted (jobs : List (UInt32 × IssuedJob)) : (Session.evict_jobs jobs).length ≤ kMaximumIssuedJobs := by
    rw [Session.evict_jobs, length_drop]
    omega
  cases h with
  | touched ht =>
    rw [ht.jobs]
    exact hbefore
  | retargeted ht =>
    simp only [Session.follow_target, length_map, ht.jobs]
    exact hbefore
  | @committed _ _ _ _ clean_job =>
    cases clean_job <;> exact hevicted _
  | stranded => exact hevicted _

/-- What holds of the channels of a session and their ids. -/
structure Session.Limited (s : Session) : Prop where
  handed_out : s.answers.reduceOption = range' 1 (s.next_channel_id - 1)
  next_positive : 0 < s.next_channel_id
  next_limit : s.next_channel_id ≤ kMaximumChannelId + 1
  active : s.channels.length ≤ kMaximumActiveChannels
  ids_positive : ∀ channel_id ∈ s.channels.map Channel.id, 0 < channel_id

theorem Session.Limited.of_roll {s s' : Session} (h : s.Limited) (hroll : RollStep s s') : s'.Limited := by
  have hpositive := h.next_positive
  have hlimit := h.next_limit
  have hactive := h.active
  cases hroll with
  | kept hanswers hnext hids =>
    refine ⟨?_, by omega, by omega, ?_, fun channel_id hmem => h.ids_positive channel_id (hids.subset hmem)⟩
    · rw [hanswers, hnext]
      exact h.handed_out
    · have hlength := hids.length_le
      rw [length_map, length_map] at hlength
      omega
  | refused hanswers hchannels hnext =>
    refine ⟨?_, by omega, by omega, hchannels ▸ hactive, hchannels ▸ h.ids_positive⟩
    rw [hanswers, hnext, reduceOption_append, h.handed_out]
    exact append_nil _
  | opened hroll hid hroom =>
    obtain ⟨hids, hanswers⟩ := Prod.mk.inj hroll
    obtain ⟨hids, hnext⟩ := Prod.mk.inj hids
    have hlength := congrArg List.length hids
    rw [length_append, length_map, length_map, length_singleton] at hlength
    refine ⟨?_, by omega, by omega, by omega, fun channel_id hmem => ?_⟩
    case refine_2 =>
      rw [hids] at hmem
      rcases mem_append.mp hmem with hold | hnew
      · exact h.ids_positive channel_id hold
      · rwa [mem_singleton.mp hnew]
    have hcount : s'.next_channel_id - 1 = s.next_channel_id - 1 + 1 := by omega
    have hlast : 1 + (s.next_channel_id - 1) = s.next_channel_id := by omega
    have hanswers : s'.answers = s.answers ++ [some s.next_channel_id] := hanswers
    rw [hanswers, hcount, range'_1_concat, hlast, reduceOption_append, h.handed_out]
    rfl

namespace Server

variable {config : Config} {server : Server}

/-- No job id is held or in flight twice, and all of them are among the first `n`. -/
structure Numbered (n : Nat) (server : Server) : Prop where
  next : server.session.next_job_id = nth_job_id n
  distinct : ∀ ids, server.session.Held ids → (ids ++ server.pending_ids).Nodup
  drawn : ∀ ids, server.session.Held ids → ∀ id ∈ ids ++ server.pending_ids, ∃ i < n, nth_job_id i = id

theorem Numbered.step {n : Nat} (h : Numbered n server) (hwf : server.WellFormed) (action : PoolContext × Event)
    (hbound : n + allocations config server action < 2 ^ 32) :
    Numbered (n + allocations config server action) (step config server action) := by
  obtain ⟨ctx, event⟩ := action
  obtain ⟨hnext, hflow⟩ := flow config ctx hwf event h.next
  generalize allocations config server (ctx, event) = count at hbound hnext hflow ⊢
  have hfresh {id : UInt32} (hmem : id ∈ fresh_job_ids n count) : ∃ i, n ≤ i ∧ i < n + count ∧ nth_job_id i = id := by
    obtain ⟨i, hi, hid⟩ := mem_map.mp hmem
    have hrange := mem_range'_1.mp hi
    exact ⟨i, hrange.1, hrange.2, hid⟩
  have hnodup : (fresh_job_ids n count).Nodup := by
    refine Nodup.map_on (fun i hi j hj hsame => ?_) nodup_range'
    have hi := mem_range'_1.mp hi
    have hj := mem_range'_1.mp hj
    exact nth_job_id_inj (by omega) (by omega) hsame
  refine ⟨hnext, fun ids' hheld => ?_, fun ids' hheld id hid => ?_⟩
  · obtain ⟨ids, hids, moved, hperm, hsub⟩ := hflow ids' hheld
    refine hperm.nodup_iff.mp (hsub.nodup ?_)
    refine nodup_append.mpr ⟨h.distinct ids hids, hnodup, fun id hold id' hnew hsame => ?_⟩
    -- an id held before has a smaller number than a fresh one
    obtain ⟨i, hi, rfl⟩ := h.drawn ids hids id hold
    obtain ⟨j, hlower, hupper, rfl⟩ := hfresh hnew
    have hnumber := nth_job_id_inj (by omega) (by omega) hsame
    omega
  · obtain ⟨ids, hids, hsub⟩ := hflow ids' hheld
    rcases mem_append.mp (hsub.subset hid) with hold | hnew
    · obtain ⟨i, hi, hsame⟩ := h.drawn ids hids id hold
      exact ⟨i, by omega, hsame⟩
    · obtain ⟨i, -, hupper, hsame⟩ := hfresh hnew
      exact ⟨i, hupper, hsame⟩

theorem Numbered.run {n : Nat} (h : Numbered n server) (hwf : server.WellFormed) (actions : List (PoolContext × Event))
    (hbound : n + allocated config server actions < 2 ^ 32) :
    Numbered (n + allocated config server actions) (Transition.run (Server.step config) server actions) := by
  induction actions generalizing n server with
  | nil => exact h
  | cons action actions ih =>
    rw [allocated, ← Nat.add_assoc] at hbound ⊢
    exact ih (h.step hwf action (by omega)) (hwf.step action) hbound

theorem init_numbered (config : Config) (extranonce1 : Bytes) : Numbered 0 (init config extranonce1) := by
  have hnone {ids : List UInt32} (h : (init config extranonce1).session.Held ids) : ids = [] := by
    rcases h with rfl | ⟨c, hmem, -⟩
    · rfl
    · cases hmem
  refine ⟨rfl, fun ids hheld => ?_, fun ids hheld id hid => ?_⟩
  · rw [hnone hheld]
    exact nodup_nil
  · rw [hnone hheld] at hid
    cases hid

/-- What a session keeps in every run. -/
structure Bounded (server : Server) : Prop where
  wellFormed : server.WellFormed
  limited : server.session.Limited
  alone : server.session.StandardAlone
  jobs : ∀ c ∈ server.session.channels, c.jobs.length ≤ kMaximumIssuedJobs

theorem Bounded.step (h : server.Bounded) (config : Config) (action : PoolContext × Event) :
    (step config server action).Bounded := by
  obtain ⟨ctx, event⟩ := action
  have hwf' : (Server.step config server (ctx, event)).WellFormed := h.wellFormed.step (ctx, event)
  refine ⟨hwf', h.limited.of_roll (roll_step config server ctx event),
    h.alone.step h.wellFormed config (ctx, event), fun c' hmem => ?_⟩
  obtain ⟨messages, -, hchange⟩ := (h.wellFormed.changes config ctx event).channel c'.id
  rw [find_of_mem hwf'.nodup hmem] at hchange
  cases hfind : server.session.find_channel c'.id with
  | some c =>
    rw [hfind] at hchange
    exact hchange.jobs_length (h.jobs c (mem_of_find?_eq_some hfind))
  | none =>
    rw [hfind] at hchange
    obtain ⟨c, rest, hfresh, -, hchange⟩ := hchange.source
    refine hchange.jobs_length ?_
    rw [hfresh.jobs]
    exact Nat.zero_le _

theorem reached_bounded (config : Config) (extranonce1 : Bytes) (actions : List (PoolContext × Event)) :
    (reached config extranonce1 actions).Bounded := by
  refine Transition.run_invariant_always (fun server action h => h.step config action) actions ?_
  exact ⟨init_wellFormed config extranonce1, ⟨rfl, Nat.one_pos, Nat.le_add_left 1 _, Nat.zero_le _, by simp [init, Session.new]⟩,
    by simp [Session.StandardAlone, init, Session.new], by simp [init, Session.new]⟩

/-- A step that answers with `OpenMiningChannelError` leaves the channels, the counters and the
share history as they were. -/
theorem refused_open {ctx : PoolContext} {event : Event} {messages : List Message} {request_id : UInt32}
    {error_code : String}
    (hsent : (step config server (ctx, event)).session.sent = server.session.sent ++ messages)
    (hmem : .open_mining_channel_error request_id error_code ∈ messages) :
    let session' := (step config server (ctx, event)).session
    session'.channels = server.session.channels ∧ session'.next_channel_id = server.session.next_channel_id ∧
      session'.extranonce_counter = server.session.extranonce_counter ∧
      session'.seen_shares = server.session.seen_shares := by
  have hanswers : (step config server (ctx, event)).session.answers =
      server.session.answers ++ messages.filterMap Message.open_answer := by
    rw [Session.answers, hsent, filterMap_append]
    rfl
  have hnone : none ∈ messages.filterMap Message.open_answer := mem_filterMap.mpr ⟨_, hmem, rfl⟩
  cases roll_step config server ctx event with
  | kept hkept =>
    rw [hkept, eq_comm, append_right_eq_self] at hanswers
    rw [hanswers] at hnone
    cases hnone
  | refused _ hchannels hnext hcounter hseen => exact ⟨hchannels, hnext, hcounter, hseen⟩
  | opened hroll =>
    have hopened : (step config server (ctx, event)).session.answers =
        server.session.answers ++ [some server.session.next_channel_id] := (Prod.mk.inj hroll).2
    rw [hopened, append_cancel_left_eq] at hanswers
    rw [← hanswers] at hnone
    simp at hnone

/-- In every run of a session the channel ids handed out are 1, 2, 3 and so on up to 65535, the
open channels are one Standard channel or at most 255 Extended ones, no channel holds more than
eight jobs or, before the job ids wrap, the same id twice, and a refused open changes nothing. -/
theorem channels_and_jobs_limited (config : Config) (extranonce1 : Bytes) (actions : List (PoolContext × Event)) :
    ∀ server, server = reached config extranonce1 actions →
      server.session.answers.reduceOption = range' 1 (server.session.next_channel_id - 1) ∧
      server.session.next_channel_id ≤ kMaximumChannelId + 1 ∧
      (server.session.channels.map Channel.id).Nodup ∧
      (∀ c ∈ server.session.channels, c.id ∈ server.session.answers.reduceOption) ∧
      ((∃ c, server.session.channels = [c] ∧ c.kind = .Standard) ∨
        server.session.channels.length ≤ kMaximumActiveChannels ∧
          ∀ c ∈ server.session.channels, c.kind = .Extended) ∧
      (∀ c ∈ server.session.channels, c.jobs.length ≤ kMaximumIssuedJobs) ∧
      (allocated config (init config extranonce1) actions < 2 ^ 32 →
        ∀ c ∈ server.session.channels, (c.jobs.map Prod.fst).Nodup) ∧
      ∀ ctx frame messages request_id error_code,
        (step config server (ctx, .frame frame)).session.sent = server.session.sent ++ messages →
        .open_mining_channel_error request_id error_code ∈ messages →
        (step config server (ctx, .frame frame)).session.channels = server.session.channels ∧
          (step config server (ctx, .frame frame)).session.next_channel_id = server.session.next_channel_id ∧
          (step config server (ctx, .frame frame)).session.extranonce_counter =
            server.session.extranonce_counter ∧
          (step config server (ctx, .frame frame)).session.seen_shares = server.session.seen_shares := by
  rintro server rfl
  obtain ⟨hwf, hlimited, halone, hjobs⟩ := reached_bounded config extranonce1 actions
  refine ⟨hlimited.handed_out, hlimited.next_limit, hwf.nodup, fun c hmem => ?_, ?_, hjobs, fun hbound c hmem => ?_,
    fun ctx frame messages request_id error_code => refused_open⟩
  · rw [hlimited.handed_out]
    have hlt := hwf.ids c.id (mem_map_of_mem hmem)
    have hpositive := hlimited.ids_positive c.id (mem_map_of_mem hmem)
    exact mem_range'_1.mpr ⟨hpositive, by omega⟩
  · by_cases hstandard : ∃ c ∈ (reached config extranonce1 actions).session.channels, c.kind = .Standard
    · obtain ⟨c, hmem, hkind⟩ := hstandard
      exact .inl ⟨c, halone c hmem hkind, hkind⟩
    · refine .inr ⟨hlimited.active, fun c hmem => ?_⟩
      cases hkind : c.kind with
      | Standard => exact absurd ⟨c, hmem, hkind⟩ hstandard
      | Extended => rfl
  · have hnumbered := (init_numbered config extranonce1).run (init_wellFormed config extranonce1) actions
      (by rwa [Nat.zero_add])
    exact (nodup_append.mp (hnumbered.distinct _ (.inr ⟨c, hmem, rfl⟩))).1

namespace SecondChannel

def pool : PoolContext where
  current_job := some (.minimal "1".toList 1 1000 1)
  recent_job := fun _ => none
  runtime_config := {}
  validate_address := fun _ => some []
  steady_seconds := 0
  time := 1000

def request : OpenMiningChannel := ⟨7, "miner".toList, some 0, .filled 0xff⟩

/-- An Extended channel is open. -/
def actions : List (PoolContext × Event) :=
  [(pool, .frame ⟨0, false, .setup_connection ⟨0, 2, 2, 0⟩⟩),
    (pool, .frame ⟨0, false, .open_extended_mining_channel request 0⟩)]

end SecondChannel

open SecondChannel in
/-- A Standard channel cannot be opened beside an Extended one. -/
theorem channels_and_jobs_limited_refused :
    ∃ server, server = reached {} [0, 0, 0, 1] actions ∧
      allocated {} (init {} [0, 0, 0, 1]) actions = 1 ∧
      (∀ c ∈ server.session.channels, (c.jobs.map Prod.fst).Nodup) ∧
      (step {} server (pool, .frame ⟨0, false, .open_standard_mining_channel request⟩)).session.sent =
        server.session.sent ++ [.open_mining_channel_error 7 "channel-limit-reached"] ∧
      (step {} server (pool, .frame ⟨0, false, .open_standard_mining_channel request⟩)).session.channels =
        server.session.channels := by
  obtain ⟨-, -, -, -, -, -, hdistinct, hrefused⟩ := channels_and_jobs_limited {} [0, 0, 0, 1] actions _ rfl
  have hcount : allocated {} (init {} [0, 0, 0, 1]) actions = 1 := by decide +kernel
  have hsent : (step {} (reached {} [0, 0, 0, 1] actions)
      (pool, .frame ⟨0, false, .open_standard_mining_channel request⟩)).session.sent =
        (reached {} [0, 0, 0, 1] actions).session.sent ++
          [.open_mining_channel_error 7 "channel-limit-reached"] := by
    decide +kernel
  refine ⟨_, rfl, hcount, hdistinct (by rw [hcount]; decide), hsent, ?_⟩
  exact (hrefused pool _ _ _ _ hsent mem_cons_self).1

end Server

end erikslund.sv2
