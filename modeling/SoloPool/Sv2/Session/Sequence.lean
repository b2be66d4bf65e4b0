import SoloPool.Sv2.Session.Entries
import SoloPool.Sv2.Session.Issues

namespace erikslund.sv2

open util stratum List

/-- The publication sequence of the job last committed to a channel, zero before the first. -/
def Channel.committed_sequence (c : Channel) : Nat :=
  (c.jobs.getLast?.map (fun entry => entry.2.source_job.publication_sequence)).getD 0

/-- The channel has been given nothing newer than its mark. -/
def Channel.Marked (c : Channel) : Prop := c.committed_sequence ≤ c.last_publication_sequence

variable {c c' : Channel} {ctx : PoolContext}

theorem committed_sequence_congr (h : c'.jobs = c.jobs) :
    c'.committed_sequence = c.committed_sequence := by
  rw [Channel.committed_sequence, h, Channel.committed_sequence]

theorem committed_sequence_follow (c : Channel) (target : uint256) :
    (Session.follow_target c target).committed_sequence = c.committed_sequence := by
  simp only [Channel.committed_sequence, Session.follow_target, getLast?_map, Option.map_map]
  congr 2
  funext entry
  simp only [Function.comp_apply]
  split <;> rfl

theorem committed_sequence_add (c : Channel) (plan : JobBuildPlan) (work : Work) (clean_job : Bool) :
    (Session.add_issued_job c plan work clean_job).committed_sequence = plan.source_job.publication_sequence := by
  have hdrop (jobs : List (UInt32 × IssuedJob)) :
      (jobs ++ [(plan.job_id, Session.issued_job c plan work clean_job)]).length - kMaximumIssuedJobs ≤
        jobs.length := by
    simp only [length_append, length_singleton, kMaximumIssuedJobs]
    omega
  simp only [Channel.committed_sequence, Session.add_issued_job, Session.evict_jobs,
    drop_append_of_le_length (hdrop _), getLast?_append, getLast?_singleton, Option.some_or,
    Option.map_some, Option.getD_some]
  rfl

/-- What a change does to the sequence committed to a channel and to its mark. -/
structure Advanced (bound : Nat) (c c' : Channel) : Prop where
  committed : c.committed_sequence ≤ c'.committed_sequence
  marked : c'.Marked
  bounded : c'.last_publication_sequence ≤ bound

/-- A commit from a job that has been published moves its channel forward, if an update
never runs ahead of the mark. -/
theorem Commit.advanced {cause : Cause} {c₁ : Channel} {plan : JobBuildPlan} {work : Work}
    {clean_job : Bool} {bound : Nat} (hcommit : Commit ctx cause c c₁ plan work clean_job)
    (hplans : ∀ plan, cause.plans plan →
      0 < plan.source_job.publication_sequence ∧ plan.source_job.publication_sequence ≤ bound)
    (hupdated : cause.updated = some c.id → ∀ job, ctx.current_job = some job →
      job.publication_sequence = c.last_publication_sequence)
    (hmarked : c.Marked) (hjobs : c'.jobs = (Session.add_issued_job c₁ plan work clean_job).jobs)
    (hsequence : c'.last_publication_sequence = c₁.last_publication_sequence) : Advanced bound c c' := by
  obtain ⟨hpos, hbound⟩ := hplans plan hcommit.supplied
  have hcommitted : c'.committed_sequence = plan.source_job.publication_sequence :=
    (committed_sequence_congr hjobs).trans (committed_sequence_add ..)
  unfold Channel.Marked at hmarked
  have hmark : c.last_publication_sequence ≤ plan.source_job.publication_sequence ∧
      c'.last_publication_sequence = plan.source_job.publication_sequence := by
    rcases hcommit.sequenced with ⟨hnews, hraised⟩ | ⟨hchannel, hcurrent, hkept⟩
    · have hle := hnews (by omega)
      rw [hsequence, hraised, max_eq_right hle]
      exact ⟨hle, rfl⟩
    · have heq := hupdated hchannel _ hcurrent
      rw [hsequence, hkept, heq]
      exact ⟨le_rfl, rfl⟩
  obtain ⟨hle, heq⟩ := hmark
  refine ⟨?_, ?_, ?_⟩
  · omega
  · unfold Channel.Marked
    omega
  · omega

theorem Change.advanced {mask : UInt32} {cause : Cause} {bound : Nat}
    {messages : List Message} (h : Change mask ctx cause (some c) messages (some c'))
    (hplans : ∀ plan, cause.plans plan →
      0 < plan.source_job.publication_sequence ∧ plan.source_job.publication_sequence ≤ bound)
    (hupdated : cause.updated = some c.id → ∀ job, ctx.current_job = some job →
      job.publication_sequence = c.last_publication_sequence)
    (hmarked : c.Marked) (hbounded : c.last_publication_sequence ≤ bound) : Advanced bound c c' := by
  have hkept {c' : Channel} (hcommitted : c'.committed_sequence = c.committed_sequence)
      (hsequence : c'.last_publication_sequence = c.last_publication_sequence) : Advanced bound c c' := by
    refine ⟨hcommitted.ge, ?_, hsequence ▸ hbounded⟩
    rw [Channel.Marked, hcommitted, hsequence]
    exact hmarked
  cases h with
  | touched htouched hsequence => exact hkept (committed_sequence_congr htouched.jobs) hsequence
  | retargeted htouched hsequence =>
    exact hkept ((committed_sequence_follow ..).trans (committed_sequence_congr htouched.jobs)) hsequence
  | @committed _ _ _ _ clean_job _ hcommit =>
    cases clean_job <;> exact hcommit.advanced hplans hupdated hmarked rfl rfl
  | stranded hcommit => exact hcommit.advanced hplans hupdated hmarked rfl rfl

theorem Session.resume_call_job {config : Config} {s : Session} {call call' : Call}
    (h : (s.resume_call config ctx call).2 = some call') : call'.job = call.job := by
  cases call with
  | publishing job clean =>
    simp only [resume_call] at h
    split at h
    · cases h
    · cases h
      rfl
  | publish job clean plans =>
    cases plans with
    | nil => cases h
    | cons plan plans =>
      simp only [resume_call] at h
      split at h
      · cases h
        rfl
      · cases h
  | refreshing job =>
    simp only [resume_call] at h
    split at h
    · cases h
    · cases h
      rfl
  | refresh job plan => cases h

namespace Server

/-- A job the pool gives out, as the current one or by its id. -/
def Supplied (ctx : PoolContext) (job : Job) : Prop :=
  ctx.current_job = some job ∨ ∃ job_id, ctx.recent_job job_id = some job

/-- A call in flight after a step goes on with the job of one before it, or was just given one. -/
theorem call_job {config : Config} {server : Server} {ctx : PoolContext} {event : Event} {call : Call}
    (hmem : call ∈ (step config server (ctx, event)).calls) :
    (∃ before ∈ server.calls, call.job = before.job) ∨ Supplied ctx call.job := by
  have hold (hmem : call ∈ server.calls) :
      (∃ before ∈ server.calls, call.job = before.job) ∨ Supplied ctx call.job := .inl ⟨call, hmem, rfl⟩
  cases event with
  | frame frame =>
    simp only [step] at hmem
    split at hmem <;> exact hold hmem
  | finish_share =>
    simp only [step] at hmem
    split at hmem <;> exact hold hmem
  | deliver_blocks =>
    simp only [step] at hmem
    split at hmem <;> exact hold hmem
  | maybe_retarget => exact hold hmem
  | publish_job job_id clean =>
    simp only [step] at hmem
    split at hmem
    · exact hold hmem
    rename_i job hjob
    rcases mem_append.mp hmem with hmem | hmem
    · exact hold hmem
    · obtain rfl := mem_singleton.mp hmem
      right
      unfold published_job at hjob
      split at hjob
      · cases hjob
        exact .inr ⟨job_id, by assumption⟩
      · exact .inl (Option.filter_eq_some_iff.mp hjob).1
  | maybe_refresh_job =>
    simp only [step] at hmem
    split at hmem
    · exact hold hmem
    rename_i job hjob
    rcases mem_append.mp hmem with hmem | hmem
    · exact hold hmem
    · obtain rfl := mem_singleton.mp hmem
      exact .inr (.inl hjob)
  | resume index =>
    simp only [step] at hmem
    split at hmem
    · exact hold hmem
    rename_i resumed hresumed
    rcases mem_append.mp hmem with hmem | hmem
    · rcases mem_append.mp hmem with hmem | hmem
      · exact hold (mem_of_mem_take hmem)
      · rw [Option.mem_toList] at hmem
        exact .inl ⟨resumed, mem_of_getElem? hresumed, Session.resume_call_job hmem⟩
    · exact hold (mem_of_mem_drop hmem)

/-- A session whose work all comes from published jobs, and whose channels have been given
nothing newer than their marks. `bound` is the number of jobs published. -/
structure Sequential (published : List Job) (bound : Nat) (server : Server) : Prop where
  wellFormed : server.WellFormed
  calls : ∀ call ∈ server.calls, call.job ∈ published
  channels : ∀ channel_id c, server.session.find_channel channel_id = some c →
    c.Marked ∧ c.last_publication_sequence ≤ bound

theorem init_sequential (published : List Job) (bound : Nat) (config : Config) (extranonce1 : Bytes) :
    Sequential published bound (init config extranonce1) :=
  ⟨init_wellFormed config extranonce1, by simp [init], by simp [init, Session.new, Session.find_channel]⟩

/-- More publications spoil nothing. -/
theorem Sequential.mono {published published' : List Job} {bound bound' : Nat} {server : Server}
    (h : Sequential published bound server) (hpublished : published ⊆ published') (hbound : bound ≤ bound') :
    Sequential published' bound' server :=
  ⟨h.wellFormed, fun call hmem => hpublished (h.calls call hmem),
    fun channel_id c hfind => ⟨(h.channels channel_id c hfind).1, (h.channels channel_id c hfind).2.trans hbound⟩⟩

/-- What the pool gives a session: jobs it has published, the current one being the newest. -/
structure Feeds (published : List Job) (bound : Nat) (ctx : PoolContext) : Prop where
  supplied : ∀ job, Supplied ctx job → job ∈ published
  bounds : ∀ job ∈ published, 0 < job.publication_sequence ∧ job.publication_sequence ≤ bound
  newest : ∀ job, ctx.current_job = some job → job.publication_sequence = bound

/-- An `UpdateChannel` that issues the current job does so on a channel whose mark has reached it. -/
def UpdatesBehind (config : Config) (server : Server) (ctx : PoolContext) (event : Event) : Prop :=
  ∀ update ∈ server.update config ctx event,
    update.2.publication_sequence ≤ update.1.last_publication_sequence

instance (config : Config) (server : Server) (ctx : PoolContext) (event : Event) :
    Decidable (UpdatesBehind config server ctx event) :=
  inferInstanceAs (Decidable (∀ update ∈ _, _))

/-- An `UpdateChannel` that allocates a job id issues the current job. -/
theorem update_of_issued {config : Config} {server : Server} {ctx : PoolContext} {event : Event}
    {channel_id : Nat} {c : Channel} (hupdated : event.updated_channel = some channel_id)
    (hfind : server.session.find_channel channel_id = some c)
    (hissued : (step config server (ctx, event)).session.next_job_id ≠ server.session.next_job_id) :
    ∃ c' job, server.update config ctx event = some (c', job) ∧ ctx.current_job = some job ∧
      c'.last_publication_sequence = c.last_publication_sequence := by
  unfold Event.updated_channel at hupdated
  split at hupdated
  · rename_i extension_id is_channel_message msg
    cases hupdated
    have hcounted (dispatched : Dispatched) :
        (Session.after_dispatch dispatched).next_job_id = dispatched.session.next_job_id := by
      unfold Session.after_dispatch
      split <;> rfl
    simp only [step] at hissued
    split at hissued
    · exact absurd rfl hissued
    rename_i hidle
    rw [hcounted, Session.dispatch_locked] at hissued
    split at hissued
    · exact absurd rfl hissued
    rename_i hextension
    split at hissued
    · split at hissued <;> exact absurd rfl hissued
    rename_i hsetup
    split at hissued
    · exact absurd rfl hissued
    rename_i hfirst
    split at hissued
    · exact absurd rfl hissued
    rename_i hrouted
    have hpassed : server.session.routed ⟨extension_id, is_channel_message, .update_channel msg⟩ =
        some (.update_channel msg) := by
      simp_all [Session.routed]
    simp only [Session.thrown, Session.handle_update_locked, hfind] at hissued
    simp only [update, if_pos hidle, Session.frame_update, hpassed, Session.update_issue, hfind, Option.bind_some]
    split at hissued
    · exact absurd rfl hissued
    rename_i rate hrate
    rw [hrate, Option.bind_some]
    split at hissued
    · exact absurd rfl hissued
    rename_i htarget
    rw [if_neg htarget]
    split at hissued
    · exact absurd rfl hissued
    rename_i hsame
    rw [if_neg hsame]
    split at hissued
    · rename_i hneeded
      rw [if_pos hneeded]
      split at hissued
      · rename_i job hjob
        exact ⟨_, job, congrArg (Option.map _) hjob, hjob, rfl⟩
      · exact absurd rfl hissued
    · exact absurd rfl hissued
  · cases hupdated

variable {published : List Job} {bound : Nat} {config : Config} {server : Server} {ctx : PoolContext} {event : Event}

/-- The step of one channel, opened by it or open before. -/
theorem Sequential.channel (h : Sequential published bound server) (hfeeds : Feeds published bound ctx)
    (hbehind : UpdatesBehind config server ctx event) {channel_id : Nat} {c' : Channel}
    (hfind' : (step config server (ctx, event)).session.find_channel channel_id = some c') :
    (∀ c, server.session.find_channel channel_id = some c → Advanced bound c c') ∧
      c'.Marked ∧ c'.last_publication_sequence ≤ bound := by
  -- only an update that issues a job to an open channel counts as one
  let cause (s' : Session) : Cause :=
    { updated := event.updated_channel.filter (fun channel_id =>
        s'.next_job_id ≠ server.session.next_job_id ∧ (server.session.find_channel channel_id).isSome)
      plans := fun plan => plan.source_job ∈ published
      opens := Changes.Current ctx }
  have hchanges := h.wellFormed.changes_of config ctx event cause (fun _ _ _ => rfl)
    (fun s' channel_id c hevent hfind hissued => by simp [cause, hevent, hfind, hissued])
    (fun _ _ _ hcurrent => hcurrent)
    (fun s' plan ⟨call, hcall, hplan⟩ => by
      change plan.source_job ∈ published
      rw [(h.wellFormed.plans call hcall plan hplan).2.1]
      exact h.calls call hcall)
    (fun s' plan hissued => hfeeds.supplied _ (.inl hissued.current))
  obtain ⟨messages, -, hchange⟩ := hchanges.channel channel_id
  rw [hfind'] at hchange
  have hplans (plan : JobBuildPlan) (hplan : plan.source_job ∈ published) := hfeeds.bounds _ hplan
  cases hfind : server.session.find_channel channel_id with
  | some c =>
    obtain ⟨hmarked, hbounded⟩ := h.channels channel_id c hfind
    rw [hfind] at hchange
    have hadvanced : Advanced bound c c' := by
      refine hchange.advanced hplans (fun hupdated job hjob => ?_) hmarked hbounded
      obtain ⟨hevent, hissued⟩ := Option.filter_eq_some_iff.mp hupdated
      rw [Session.find_channel_id hfind] at hevent
      obtain ⟨found, current, hupdate, hcurrent, hmark⟩ :=
        update_of_issued hevent hfind (of_decide_eq_true hissued).1
      have hle : current.publication_sequence ≤ found.last_publication_sequence := hbehind _ hupdate
      obtain rfl : current = job := Option.some.inj (hcurrent.symm.trans hjob)
      have hnewest := hfeeds.newest current hjob
      omega
    exact ⟨fun c₀ hc₀ => Option.some.inj hc₀ ▸ hadvanced, hadvanced.marked, hadvanced.bounded⟩
  | none =>
    rw [hfind] at hchange
    obtain ⟨c, rest, hfresh, ⟨job, hjob, hsequence⟩, hchange⟩ := hchange.source
    have hid : c.id = channel_id := hchange.identity.1.symm.trans (Session.find_channel_id hfind')
    have hadvanced : Advanced bound c c' := by
      refine hchange.advanced hplans (fun hupdated => ?_) ?_ ?_
      · obtain ⟨-, hissued⟩ := Option.filter_eq_some_iff.mp hupdated
        have hopen := (of_decide_eq_true hissued).2
        rw [hid, hfind] at hopen
        cases hopen
      · simp [Channel.Marked, Channel.committed_sequence, hfresh.jobs]
      · rw [hsequence]
        exact (hfeeds.newest job hjob).le
    exact ⟨by simp, hadvanced.marked, hadvanced.bounded⟩

theorem Sequential.stepped (h : Sequential published bound server) (hfeeds : Feeds published bound ctx)
    (hbehind : UpdatesBehind config server ctx event) :
    Sequential published bound (step config server (ctx, event)) := by
  refine ⟨h.wellFormed.step (ctx, event), fun call hmem => ?_, fun channel_id c' hfind' => ?_⟩
  · rcases call_job hmem with ⟨before, hbefore, hjob⟩ | hsupplied
    · exact hjob ▸ h.calls before hbefore
    · exact hfeeds.supplied _ hsupplied
  · exact (h.channel hfeeds hbehind hfind').2

end Server

end erikslund.sv2
