import SoloPool.Sv2.Session.WellFormed

namespace erikslund.sv2

open util stratum List

theorem mem_evict {jobs : List (UInt32 × IssuedJob)} {entry : UInt32 × IssuedJob}
    (hmem : entry ∈ Session.evict_jobs jobs) : entry ∈ jobs :=
  mem_of_mem_drop hmem

theorem last_mem_evict (jobs : List (UInt32 × IssuedJob)) (entry : UInt32 × IssuedJob) :
    entry ∈ Session.evict_jobs (jobs ++ [entry]) := by
  have hdrop : (jobs ++ [entry]).length - kMaximumIssuedJobs ≤ jobs.length := by
    simp only [length_append, length_singleton, kMaximumIssuedJobs]
    omega
  rw [Session.evict_jobs, drop_append_of_le_length hdrop]
  simp

/-- The kind of channel a piece of work is for. -/
def Work.kind : Work → ChannelKind
  | .standard _ => .Standard
  | .extended _ => .Extended

theorem Session.build_job_work_kind {plan : JobBuildPlan} {work : Work}
    (h : build_job_work plan = .ok work) : work.kind = plan.kind := by
  unfold build_job_work at h
  cases hkind : plan.kind with
  | Standard =>
    simp only [hkind] at h
    cases hwork : plan.source_job.build_standard_work plan.payout_script plan.extranonce_prefix with
    | error error =>
      rw [hwork] at h
      cases h
    | ok standard =>
      rw [hwork] at h
      cases h
      rfl
  | Extended =>
    simp only [hkind] at h
    cases h
    rfl

/-- An entry in the list of a channel after a change was there before, up to its target, or
is the one just committed. -/
theorem Change.entries {mask : UInt32} {ctx : PoolContext} {cause : Cause} {c c' : Channel}
    {messages : List Message} (h : Change mask ctx cause (some c) messages (some c'))
    {entry : UInt32 × IssuedJob} (hmem : entry ∈ c'.jobs) :
    (∃ old ∈ c.jobs, entry.1 = old.1 ∧ entry.2 = { old.2 with target := entry.2.target }) ∨
      ∃ c₁ plan work clean_job, Commit ctx cause c c₁ plan work clean_job ∧
        entry = (plan.job_id, Session.issued_job c₁ plan work clean_job) := by
  have hadded {c₁ : Channel} {plan : JobBuildPlan} {work : Work} {clean_job : Bool}
      (hcommit : Commit ctx cause c c₁ plan work clean_job)
      (hmem : entry ∈ (Session.add_issued_job c₁ plan work clean_job).jobs) :
      (∃ old ∈ c.jobs, entry.1 = old.1 ∧ entry.2 = { old.2 with target := entry.2.target }) ∨
        ∃ c₁ plan work clean_job, Commit ctx cause c c₁ plan work clean_job ∧
          entry = (plan.job_id, Session.issued_job c₁ plan work clean_job) := by
    rcases mem_append.mp (mem_evict hmem) with hold | hnew
    · refine .inl ⟨entry, ?_, rfl, rfl⟩
      rw [← hcommit.touched.jobs]
      cases clean_job
      · exact hold
      · cases hold
    · exact .inr ⟨c₁, plan, work, clean_job, hcommit, mem_singleton.mp hnew⟩
  cases h with
  | touched ht =>
    rw [ht.jobs] at hmem
    exact .inl ⟨entry, hmem, rfl, rfl⟩
  | retargeted ht =>
    obtain ⟨old, hold, rfl⟩ := mem_map.mp hmem
    rw [ht.jobs] at hold
    refine .inl ⟨old, hold, rfl, ?_⟩
    dsimp only
    split <;> rfl
  | @committed _ _ _ _ clean_job _ hcommit =>
    refine hadded hcommit ?_
    cases clean_job <;> exact hmem
  | stranded hcommit => exact hadded hcommit hmem

/-- A channel that was not there before is one the step may open, as changed since. -/
theorem Change.source {mask : UInt32} {ctx : PoolContext} {cause : Cause} {c' : Channel}
    {messages : List Message} (h : Change mask ctx cause none messages (some c')) :
    ∃ c rest, c.Fresh ∧ cause.opens c ∧ Change mask ctx cause (some c) rest (some c') := by
  cases h with
  | opened hfresh hopens _ hchange => exact ⟨_, _, hfresh, hopens, hchange⟩

/-- A Standard channel is the only one of its session. -/
def Session.StandardAlone (s : Session) : Prop :=
  ∀ c ∈ s.channels, c.kind = .Standard → s.channels = [c]

theorem Session.channels_eq_singleton {s : Session} {c : Channel} (hmem : c ∈ s.channels)
    (hlength : (s.channels.map Channel.id).length ≤ 1) : s.channels = [c] := by
  rw [length_map] at hlength
  obtain ⟨c', hc'⟩ := length_eq_one_iff.mp (Nat.le_antisymm hlength (length_pos_of_mem hmem))
  rw [hc', mem_singleton] at hmem
  rw [hc', hmem]

/-- What was open before an open that admitted `c`. -/
theorem Server.opened_beside {server : Server} (hwf : server.WellFormed) {config : Config}
    {ctx : PoolContext} {event : Event}
    (hopened : (Server.step config server (ctx, event)).session.ids =
      (server.session.channels.map Channel.id ++ [server.session.next_channel_id],
        server.session.next_channel_id + 1)) :
    ∃ c, Changes.Admissible config server.session c := by
  have hid : server.session.next_channel_id ∈
      (Server.step config server (ctx, event)).session.channels.map Channel.id := by
    rw [(Prod.mk.inj hopened).1]
    simp
  obtain ⟨c', hmem, hc'⟩ := mem_map.mp hid
  have hwf' : (Server.step config server (ctx, event)).WellFormed := hwf.step (ctx, event)
  have hfind' := find_of_mem hwf'.nodup hmem
  have hfind : server.session.find_channel c'.id = none := by
    cases hfind : server.session.find_channel c'.id with
    | none => rfl
    | some c =>
      have hlt := hwf.ids c.id (mem_map_of_mem (mem_of_find?_eq_some hfind))
      rw [Session.find_channel_id hfind, hc'] at hlt
      exact absurd hlt (lt_irrefl _)
  obtain ⟨messages, -, hchange⟩ := (hwf.changes config ctx event).channel c'.id
  rw [hfind, hfind'] at hchange
  obtain ⟨c, -, -, hopens, -⟩ := hchange.source
  exact ⟨c, hopens⟩

theorem Session.StandardAlone.step {server : Server} (hwf : server.WellFormed)
    (halone : server.session.StandardAlone) (config : Config) (action : PoolContext × Event) :
    (Server.step config server action).session.StandardAlone := by
  obtain ⟨ctx, event⟩ := action
  intro c' hmem hkind
  have hfind' := Server.find_of_mem (hwf.step (ctx, event)).nodup hmem
  obtain ⟨messages, -, hchange⟩ := (hwf.changes config ctx event).channel c'.id
  rw [hfind'] at hchange
  have hids := Server.ids_step config server ctx event
  cases hfind : server.session.find_channel c'.id with
  | some c =>
    rw [hfind] at hchange
    have hstandard : c.kind = .Standard := hchange.identity.2.1.symm.trans hkind
    have hbefore := halone c (mem_of_find?_eq_some hfind) hstandard
    rcases hids with ⟨-, hsub⟩ | hopened
    · refine channels_eq_singleton hmem ?_
      simpa [hbefore] using hsub.length_le
    · -- nothing can be opened beside a Standard channel
      obtain ⟨opened, hadmissible⟩ := Server.opened_beside hwf hopened
      cases hopen : opened.kind with
      | Standard =>
        rw [hadmissible.alone hopen] at hbefore
        cases hbefore
      | Extended =>
        have hother := hadmissible.no_standard hopen c (mem_of_find?_eq_some hfind)
        rw [hstandard] at hother
        cases hother
  | none =>
    rw [hfind] at hchange
    obtain ⟨c, _, -, hopens, hchange⟩ := hchange.source
    have hempty := hopens.alone (hchange.identity.2.1.symm.trans hkind)
    refine channels_eq_singleton hmem ?_
    rcases hids with ⟨-, hsub⟩ | hopened
    · have hlength := hsub.length_le
      rw [hempty] at hlength
      exact hlength.trans (Nat.zero_le 1)
    · rw [(Prod.mk.inj hopened).1, hempty]
      exact le_rfl

end erikslund.sv2
