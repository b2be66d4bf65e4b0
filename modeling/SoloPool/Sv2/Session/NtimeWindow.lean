import SoloPool.Sv2.Session.Prepare
import SoloPool.Sv2.Session.Entries
import Mathlib.Algebra.Order.Floor.Semiring
import Mathlib.Tactic.Linarith

namespace erikslund.sv2

open util stratum Transition List

variable (ctx : PoolContext) (s : Session)

/-- `prepare_share_locked` answers the share with this error code. -/
def RejectedWith (share : ShareSubmission) (code : String) : Prop :=
  (s.prepare_share_locked ctx share).1.sent =
    s.sent ++ [.submit_shares_error share.channel_id share.sequence_number code]

instance (ctx : PoolContext) (s : Session) (share : ShareSubmission) (code : String) :
    Decidable (RejectedWith ctx s share code) := inferInstanceAs (Decidable (_ = _))

theorem rejected_ntime_iff (share : ShareSubmission) :
    RejectedWith ctx s share "invalid-ntime" ↔
      ∃ c issued, Examined s share c issued ∧ OutsideWindow ctx share c issued := by
  unfold RejectedWith
  rcases s.prepare_share_cases ctx share with ⟨errors, found, code, reason, hcode, hnone, heq⟩ |
      ⟨found, hseen, heq⟩ | ⟨c, issued, hexamined, houtside, heq⟩ | ⟨c, issued, hexamined, hinside, heq⟩
  · rw [heq, Session.rejection_sent]
    refine iff_of_false ?_ (fun ⟨c, issued, hexamined, _⟩ => hnone c issued hexamined)
    simp only [mem_cons, not_mem_nil, or_false] at hcode
    rcases hcode with rfl | rfl | rfl | rfl <;> simp
  · rw [heq, Session.rejection_sent]
    exact iff_of_false (by simp) (fun ⟨c, issued, hexamined, _⟩ => hexamined.fresh hseen)
  · rw [heq, Session.rejection_sent]
    exact iff_of_true rfl ⟨c, issued, hexamined, houtside⟩
  · rw [heq]
    refine iff_of_false (by simp [Session.remember_share_locked]) (fun ⟨c', issued', hexamined', houtside⟩ => ?_)
    obtain rfl := Option.some.inj (hexamined'.channel.symm.trans hexamined.channel)
    obtain rfl := Option.some.inj (hexamined'.job.symm.trans hexamined.job)
    exact hinside houtside

/-- Channel, job id and minimum ntime of the active job a message announces: one with a
minimum ntime of its own. -/
def Message.active_job : Message → Option (Nat × UInt32 × UInt32)
  | .new_mining_job job => job.minimum_ntime.map (fun ntime => (job.channel_id, job.job_id, ntime))
  | .new_extended_mining_job job => job.minimum_ntime.map (fun ntime => (job.channel_id, job.job_id, ntime))
  | _ => none

/-- A step from `s` to `s'` announces an active job. -/
def Announces (s' : Session) (channel_id : Nat) (job_id ntime : UInt32) : Prop :=
  ∃ messages, s'.sent = s.sent ++ messages ∧
    ∃ msg ∈ messages, msg.active_job = some (channel_id, job_id, ntime)

/-- A job that is still in the list of its channel. -/
def Listed (channel_id : Nat) (entry : UInt32 × IssuedJob) (server : Server) : Prop :=
  ∃ c, server.session.find_channel channel_id = some c ∧ entry ∈ c.jobs

/-- The part of a channel that the ntime window is made of. -/
structure SameWindow (c c' : Channel) : Prop where
  previous_hash : c'.previous_hash = c.previous_hash
  minimum_ntime : c'.previous_hash_minimum_ntime = c.previous_hash_minimum_ntime
  received_at : c'.previous_hash_received_at_steady = c.previous_hash_received_at_steady

variable {mask job_id ntime : UInt32} {c c' : Channel} {messages : List Message} {channel_id : Nat}

/-- The window of an active job is fixed as long as the job stays in its channel: a clean
commit, which moves the window, empties the list. -/
theorem Change.window {ctx : PoolContext} {cause : Cause}
    {entry : UInt32 × IssuedJob}
    (h : Change mask ctx cause (some c) messages (some c')) (hlisted : entry ∈ c'.jobs)
    (hactive : entry.2.follows_channel_target = false) : SameWindow c c' := by
  cases h with
  | touched ht => exact ⟨ht.previous_hash, ht.minimum_ntime, ht.received_at⟩
  | retargeted ht => exact ⟨ht.previous_hash, ht.minimum_ntime, ht.received_at⟩
  | stranded hcommit =>
    have ht := hcommit.touched
    exact ⟨ht.previous_hash, ht.minimum_ntime, ht.received_at⟩
  | @committed _ _ _ _ clean_job _ hcommit =>
    have ht := hcommit.touched
    cases clean_job with
    | false => exact ⟨ht.previous_hash, ht.minimum_ntime, ht.received_at⟩
    | true =>
      have hmem := mem_singleton.mp (mem_evict hlisted)
      rw [hmem] at hactive
      cases hactive

theorem job_messages_active {plan : JobBuildPlan} {work : Work} {clean_job : Bool}
    (h : Session.job_messages mask c plan work clean_job = .ok messages)
    {msg : Message} (hmem : msg ∈ messages)
    (hactive : msg.active_job = some (channel_id, job_id, ntime)) :
    clean_job = false ∧ plan.job_id = job_id ∧ plan.source_job.curtime = ntime := by
  have hprevious : msg ∉ Session.previous_hash_messages c plan clean_job := fun hmem => by
    cases clean_job <;> simp [Session.previous_hash_messages] at hmem
    simp [hmem, Message.active_job] at hactive
  have hntime {ntime' : UInt32} (hannounced : Session.announced_ntime plan.source_job clean_job = some ntime') :
      clean_job = false ∧ plan.source_job.curtime = ntime' := by
    cases clean_job <;> simp_all [Session.announced_ntime]
  rcases Session.job_messages_ok h with ⟨standard, -, -, rfl⟩ | ⟨extended, -, -, rfl⟩
  · have hmem := (mem_append.mp hmem).resolve_right hprevious
    cases hannounce : plan.announce_extranonce_prefix <;> simp [Session.standard_messages, hannounce] at hmem <;>
      rcases hmem with rfl | rfl <;>
      simp only [Message.active_job, Option.map_eq_some_iff, Prod.mk.injEq, reduceCtorEq] at hactive
    all_goals
      obtain ⟨ntime', hannounced, -, rfl, rfl⟩ := hactive
      exact ⟨(hntime hannounced).1, rfl, (hntime hannounced).2⟩
  · obtain rfl := (mem_cons.mp hmem).resolve_right hprevious
    simp only [Message.active_job, Session.extended_message, Option.map_eq_some_iff, Prod.mk.injEq] at hactive
    obtain ⟨ntime', hannounced, -, rfl, rfl⟩ := hactive
    exact ⟨(hntime hannounced).1, rfl, (hntime hannounced).2⟩

/-- An announced active job is in the list of its channel, which has a prevhash. -/
theorem Change.announced {ctx : PoolContext} {cause : Cause} {c c' : Option Channel}
    (h : Change mask ctx cause c messages c') {msg : Message}
    (hmem : msg ∈ messages)
    (hactive : msg.active_job = some (channel_id, job_id, ntime)) :
    ∃ listed issued, c' = some listed ∧ (job_id, issued) ∈ listed.jobs ∧ issued.minimum_ntime = ntime ∧
      issued.follows_channel_target = false ∧ issued.source_job.curtime = ntime ∧
      listed.previous_hash ≠ none := by
  induction h with
  | absent => cases hmem
  | touched => cases hmem
  | closed => cases hmem
  | stranded => cases hmem
  | retargeted =>
    rw [mem_singleton.mp hmem] at hactive
    cases hactive
  | @committed c c₁ plan work clean_job messages hcommit hmessages =>
    obtain ⟨rfl, rfl, rfl⟩ := job_messages_active hmessages hmem hactive
    have hparent := hcommit.same_parent rfl
    simp only [Session.requires_new_prevhash_locked, Bool.or_eq_false_iff, decide_eq_false_iff_not,
      not_not] at hparent
    refine ⟨_, _, rfl, last_mem_evict c₁.jobs _, rfl, rfl, rfl, ?_⟩
    intro hnone
    cases hparent.1.symm.trans hnone
  | opened hfresh _ hannounced hchange ih =>
    rcases mem_cons.mp hmem with rfl | hmem
    · unfold Channel.AnnouncedBy at hannounced
      split at hannounced
      · obtain ⟨_, _, rfl⟩ := hannounced
        cases hactive
      · obtain ⟨_, rfl⟩ := hannounced
        cases hactive
    · exact ih hmem

theorem active_job_channel {msg : Message}
    (hactive : msg.active_job = some (channel_id, job_id, ntime)) : msg.channel = some channel_id := by
  cases msg <;> simp only [Message.active_job, Option.map_eq_some_iff, Prod.mk.injEq, reduceCtorEq] at hactive
  all_goals
    obtain ⟨-, -, rfl, -, -⟩ := hactive
    rfl

/-- The clocks of a run advance together: neither goes back, and the wall clock shows the
whole seconds of the steady clock shifted by `offset`. -/
def Clocked (offset : ℚ) (actions : List (PoolContext × Event)) : Prop :=
  actions.Pairwise (fun a b => a.1.steady_seconds ≤ b.1.steady_seconds) ∧
    ∀ action ∈ actions, action.1.time = ⌊action.1.steady_seconds + offset⌋

/-- No job in a channel has a curtime ahead of the wall clock. As the clock does not go
back, this is to say that no job is ahead of it when it is committed. -/
def CurtimesPassed (config : Config) (server : Server) (action : PoolContext × Event) : Prop :=
  ∀ c ∈ (Server.step config server action).session.channels, ∀ entry ∈ c.jobs,
    (entry.2.source_job.curtime.toNat : Int) ≤ action.1.time

/-- A listed active job keeps the window it was announced under through every run that
keeps it listed. -/
theorem window_run {config : Config} {server : Server} (hwf : server.WellFormed)
    {entry : UInt32 × IssuedJob} (hactive : entry.2.follows_channel_target = false)
    (hfind : server.session.find_channel channel_id = some c) {actions : List (PoolContext × Event)}
    (hlisted : Throughout (Server.step config) (Listed channel_id entry) server actions)
    (hfind' : (run (Server.step config) server actions).session.find_channel channel_id = some c') :
    SameWindow c c' := by
  induction actions generalizing server c with
  | nil =>
    obtain rfl := Option.some.inj (hfind.symm.trans hfind')
    exact ⟨rfl, rfl, rfl⟩
  | cons action actions ih =>
    obtain ⟨ctx, event⟩ := action
    obtain ⟨c₁, hfind₁, hmem⟩ := hlisted.2.first
    obtain ⟨messages, -, hchange⟩ := (hwf.changes config ctx event).channel channel_id
    rw [hfind, hfind₁] at hchange
    have hfirst := hchange.window hmem hactive
    have hrest := ih (hwf.step _) hfind₁ hlisted.2 hfind'
    exact ⟨hrest.previous_hash.trans hfirst.previous_hash, hrest.minimum_ntime.trans hfirst.minimum_ntime,
      hrest.received_at.trans hfirst.received_at⟩

/-- Whole seconds outrun a rational bound one second late. -/
theorem le_add_floor {m : Nat} {bound : ℚ} (p : Nat) (elapsed : ℚ) (hm : (m : ℚ) ≤ bound)
    (hlate : bound + 1 ≤ p + elapsed) : m ≤ p + ⌊max 0 elapsed⌋₊ := by
  have hfloor : max 0 elapsed < ⌊max 0 elapsed⌋₊ + 1 := Nat.lt_floor_add_one _
  have hmax : elapsed ≤ max 0 elapsed := le_max_right _ _
  have hlt : (m : ℚ) < ((p + ⌊max 0 elapsed⌋₊ : Nat) : ℚ) + 1 := by
    push_cast
    linarith
  exact Nat.lt_add_one_iff.mp (by exact_mod_cast hlt)

/-- A step that announces an active job leaves it listed, in a channel with a prevhash. -/
theorem announced_listed {config : Config} {server : Server} (hwf : server.WellFormed)
    {action : PoolContext × Event}
    (hannounced : Announces server.session (Server.step config server action).session channel_id job_id ntime) :
    ∃ c issued, (Server.step config server action).session.find_channel channel_id = some c ∧
      (job_id, issued) ∈ c.jobs ∧ issued.minimum_ntime = ntime ∧ issued.follows_channel_target = false ∧
      issued.source_job.curtime = ntime ∧ c.previous_hash ≠ none := by
  obtain ⟨ctx, event⟩ := action
  obtain ⟨messages, hsent, msg, hmem, hactive⟩ := hannounced
  obtain ⟨own, hstream, hchange⟩ := (hwf.changes config ctx event).channel channel_id
  refine hchange.announced ?_ hactive
  rw [hsent, stream_append] at hstream
  rw [← append_cancel_left hstream]
  exact mem_filter.mpr ⟨hmem, decide_eq_true (active_job_channel hactive)⟩

/-- The ntime check of a share at its job's minimum, in terms of the window of `c`. -/
theorem ntime_check_iff {s : Session} {share : ShareSubmission}
    {issued : IssuedJob} (hexamined : Examined s share c' issued) (hwindow : SameWindow c c')
    (hparent : c.previous_hash ≠ none) (hminimum : issued.minimum_ntime = share.ntime) :
    RejectedWith ctx s share "invalid-ntime" ↔
      share.ntime < c.previous_hash_minimum_ntime ∨ c.previous_hash_minimum_ntime.toNat +
        ⌊max 0 (ctx.steady_seconds - c.previous_hash_received_at_steady)⌋₊ < share.ntime.toNat := by
  have hlt := share.ntime.toNat_lt
  have hcheck : OutsideWindow ctx share c' issued ↔
      share.ntime < c.previous_hash_minimum_ntime ∨ c.previous_hash_minimum_ntime.toNat +
        ⌊max 0 (ctx.steady_seconds - c.previous_hash_received_at_steady)⌋₊ < share.ntime.toNat := by
    rw [OutsideWindow, Session.minimum_ntime, Session.maximum_ntime, hwindow.previous_hash,
      hwindow.minimum_ntime, hwindow.received_at, hminimum, UInt32.lt_iff_toNat_lt]
    simp only [hparent, false_or]
    omega
  rw [rejected_ntime_iff, ← hcheck]
  constructor
  · rintro ⟨c'', issued', hexamined', houtside⟩
    obtain rfl := Option.some.inj (hexamined'.channel.symm.trans hexamined.channel)
    obtain rfl := Option.some.inj (hexamined'.job.symm.trans hexamined.job)
    exact houtside
  · exact fun houtside => ⟨c', issued, hexamined, houtside⟩

/-- For a share whose ntime is the announced minimum of its active job, the ntime check is
decided by the prevhash the channel had at the announcement, of minimum ntime `p` and
received at `r`: the share is refused exactly below `p` and above `p` plus the whole
seconds since `r`. Unless the minimum lies below `p`, no share is refused once the job has
been out for a second more than the age the source job of that prevhash had. -/
theorem announced_ntime_window {config : Config} {extranonce1 : Bytes}
    {before after : List (PoolContext × Event)} {announcing : PoolContext × Event} {offset : ℚ}
    {channel_id : Nat} {job_id ntime : UInt32}
    (hclocked : Clocked offset (before ++ announcing :: after))
    (hpassed : Guarded (Server.step config) (CurtimesPassed config) (Server.init config extranonce1)
      (before ++ announcing :: after))
    (hannounced : Announces (Server.reached config extranonce1 before).session
      (Server.reached config extranonce1 (before ++ [announcing])).session channel_id job_id ntime) :
    ∃ c issued,
      (Server.reached config extranonce1 (before ++ [announcing])).session.find_channel channel_id = some c ∧
      (job_id, issued) ∈ c.jobs ∧ issued.minimum_ntime = ntime ∧
      (Throughout (Server.step config) (Listed channel_id (job_id, issued))
          (Server.reached config extranonce1 (before ++ [announcing])) after →
        ∀ ctx share c',
          Examined (Server.reached config extranonce1 (before ++ announcing :: after)).session share c' issued →
          share.channel_id = channel_id → share.ntime = ntime →
          (RejectedWith ctx (Server.reached config extranonce1 (before ++ announcing :: after)).session
              share "invalid-ntime" ↔
            ntime < c.previous_hash_minimum_ntime ∨ c.previous_hash_minimum_ntime.toNat +
              ⌊max 0 (ctx.steady_seconds - c.previous_hash_received_at_steady)⌋₊ < ntime.toNat) ∧
          (c.previous_hash_minimum_ntime ≤ ntime →
            announcing.1.steady_seconds + (c.previous_hash_received_at_steady + offset -
              c.previous_hash_minimum_ntime.toNat) + 1 ≤ ctx.steady_seconds →
            ¬ RejectedWith ctx (Server.reached config extranonce1 (before ++ announcing :: after)).session
              share "invalid-ntime")) := by
  have hwf := Server.reached_wellFormed config extranonce1 before
  have hguard := (guarded_append.mp hpassed).2.1
  change CurtimesPassed config (Server.reached config extranonce1 before) announcing at hguard
  rw [Server.reached_append _ _ before (announcing :: after)]
  rw [Server.reached_append _ _ before [announcing]] at hannounced ⊢
  rw [run_cons, run_nil] at hannounced ⊢
  generalize Server.reached config extranonce1 before = server at hwf hguard hannounced ⊢
  obtain ⟨c, issued, hfind, hlisted, hminimum, hfollows, hcurtime, hparent⟩ := announced_listed hwf hannounced
  refine ⟨c, issued, hfind, hlisted, hminimum, fun hthroughout ctx share c' hexamined hchannel hntime => ?_⟩
  have hwindow := window_run (hwf.step _) hfollows hfind hthroughout (hchannel ▸ hexamined.channel)
  subst hntime
  have hiff := ntime_check_iff ctx hexamined hwindow hparent hminimum
  refine ⟨hiff, fun hle hlate => ?_⟩
  have hcommitted : (share.ntime.toNat : ℚ) ≤ announcing.1.steady_seconds + offset := by
    have htime := hguard c (mem_of_find?_eq_some hfind) _ hlisted
    rw [hcurtime, hclocked.2 announcing (by simp)] at htime
    exact_mod_cast Int.le_floor.mp htime
  have hle_max := le_add_floor c.previous_hash_minimum_ntime.toNat
    (ctx.steady_seconds - c.previous_hash_received_at_steady) hcommitted (by linarith)
  rw [hiff, UInt32.lt_iff_toNat_lt]
  rw [UInt32.le_iff_toNat_le] at hle
  omega

instance (offset : ℚ) (actions : List (PoolContext × Event)) : Decidable (Clocked offset actions) :=
  inferInstanceAs (Decidable (_ ∧ _))

instance (config : Config) (server : Server) (action : PoolContext × Event) :
    Decidable (CurtimesPassed config server action) :=
  inferInstanceAs (Decidable (∀ c ∈ (Server.step config server action).session.channels, ∀ entry ∈ c.jobs, _))

namespace AgedOpen

/-- The pool at a moment of the steady clock, a thousand seconds behind the wall clock. -/
def pool (job : Job) (steady_seconds : ℚ) (time : Int) : PoolContext where
  current_job := some job
  recent_job := fun _ => some job
  runtime_config := {}
  validate_address := fun _ => some []
  steady_seconds := steady_seconds
  time := time

def aged : Job := .minimal "1".toList 1 900 1

def newer : Job := .minimal "2".toList 1 1030 2

/-- An Extended channel is opened on a job a hundred seconds old, and half a minute later
the next job on the same parent is prepared for it. -/
def before : List (PoolContext × Event) :=
  [(pool aged 0 1000, .frame ⟨0, false, .setup_connection ⟨0, 2, 2, 0⟩⟩),
   (pool aged 0 1000, .frame ⟨0, false, .open_extended_mining_channel
      ⟨7, "miner".toList, some 0, .filled 0xff⟩ 0⟩),
   (pool newer 30 1030, .publish_job "2".toList false),
   (pool newer 30 1030, .resume 0)]

/-- The commit that announces the job with minimum ntime 1030. -/
def announcing : PoolContext × Event := (pool newer 30 1030, .resume 0)

/-- A share on that job at its announced minimum, a second later. -/
def share : ShareSubmission := ⟨.Extended, 1, 0, 2, 0, 1030, 0x20000000, replicate 6 0⟩

def submitting : PoolContext × Event :=
  (pool newer 31 1031, .frame ⟨0, true, .submit_shares_extended ⟨1, 0, 2, 0, 1030, 0x20000000⟩ (replicate 6 0)⟩)

def msg : Message :=
  .new_extended_mining_job ⟨1, 2, some 1030, 0x20000000, true, [], newer.coinbase1, newer.build_coinbase2 []⟩

theorem announces : Announces (Server.reached {} [0, 0, 0, 1] before).session
    (Server.reached {} [0, 0, 0, 1] (before ++ [announcing])).session 1 2 1030 :=
  ⟨[msg], by decide +kernel, msg, by simp, rfl⟩

end AgedOpen

open AgedOpen in
/-- The announced minimum of an active job is refused while the window of an aged prevhash
has not caught up with it. -/
theorem aged_open_refuses_announced_ntime :
    Clocked 1000 (before ++ [announcing, submitting]) ∧
      Guarded (Server.step {}) (CurtimesPassed {}) (Server.init {} [0, 0, 0, 1])
        (before ++ [announcing, submitting]) ∧
      Announces (Server.reached {} [0, 0, 0, 1] before).session
        (Server.reached {} [0, 0, 0, 1] (before ++ [announcing])).session share.channel_id share.job_id share.ntime ∧
      (∃ c ∈ (Server.reached {} [0, 0, 0, 1] (before ++ [announcing])).session.channels,
        c.id = share.channel_id ∧ ∃ entry ∈ c.jobs, entry.1 = share.job_id) ∧
      RejectedWith submitting.1 (Server.reached {} [0, 0, 0, 1] (before ++ [announcing])).session share
        "invalid-ntime" :=
  ⟨by decide +kernel, by decide +kernel, announces, by decide +kernel, by decide +kernel⟩

open AgedOpen in
/-- The hypotheses of the window theorem hold in that run. -/
theorem announced_ntime_window_aged :
    ∃ c issued, (Server.reached {} [0, 0, 0, 1] (before ++ [announcing])).session.find_channel 1 = some c ∧
      (2, issued) ∈ c.jobs ∧ issued.minimum_ntime = 1030 := by
  obtain ⟨c, issued, hfind, hlisted, hminimum, -⟩ :=
    @announced_ntime_window {} [0, 0, 0, 1] before [submitting] announcing 1000 1 2 1030
      (by decide +kernel) (by decide +kernel) announces
  exact ⟨c, issued, hfind, hlisted, hminimum⟩

end erikslund.sv2
