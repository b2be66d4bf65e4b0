import SoloPool.Sv2.Session.Entries

namespace erikslund.sv2

open util stratum Transition

section Ownership

variable (config : Config) (extranonce1 : Bytes)

/-- The prefix is one the counter has handed out, to this channel. -/
def Owns (owner : Nat → Nat) (counter channel_id : Nat) (field : Bytes) : Prop :=
  ∃ number ≤ counter, owner number = channel_id ∧ field = extranonce1 ++ Radix.be config.extranonce2_size number

/-- The prefixes of a channel's jobs are its own. -/
structure Channel.Owned (owner : Nat → Nat) (counter : Nat) (c : Channel) : Prop where
  id_le : c.id ≤ kMaximumChannelId
  reserved : c.kind = .Extended → c.extranonce_size = config.extranonce2_size - kChannelDiscriminatorBytes ∧
    c.extranonce_prefix = extranonce1 ++ Radix.be kChannelDiscriminatorBytes c.id
  work : ∀ entry ∈ c.jobs, entry.2.work.kind = c.kind
  standard : c.kind = .Standard → ∀ entry ∈ c.jobs,
    Owns config extranonce1 owner counter c.id <| IssuedJob.extranonce_prefix entry.2
  extended : c.kind = .Extended → ∀ entry ∈ c.jobs,
    IssuedJob.extranonce_prefix entry.2 = c.extranonce_prefix ∧ entry.2.extranonce_size = c.extranonce_size

/-- `owner` maps each number the counter has handed out to the channel it went to, as far
as any job or any plan in flight uses it. -/
structure Server.Owned (owner : Nat → Nat) (server : Server) : Prop where
  wellFormed : server.WellFormed
  alone : server.session.StandardAlone
  same_extranonce1 : server.session.extranonce1 = extranonce1
  channels : ∀ channel_id, ∀ c ∈ server.session.find_channel channel_id,
    c.Owned config extranonce1 owner server.session.extranonce_counter
  plans : ∀ plan, server.Pending plan → plan.kind = .Standard →
    Owns config extranonce1 owner server.session.extranonce_counter plan.channel_id plan.extranonce_prefix

end Ownership

variable {config : Config} {extranonce1 : Bytes} {owner owner' : Nat → Nat} {counter counter' : Nat}

theorem Owns.mono {channel_id : Nat} {field : Bytes} (h : Owns config extranonce1 owner counter channel_id field)
    (hcounter : counter ≤ counter') (hagree : ∀ number ≤ counter, owner' number = owner number) :
    Owns config extranonce1 owner' counter' channel_id field := by
  obtain ⟨number, hle, howner, hfield⟩ := h
  exact ⟨number, hle.trans hcounter, (hagree number hle).trans howner, hfield⟩

/-- A change keeps a channel's prefixes its own when the plans it may commit are. -/
theorem Channel.Owned.change {mask : UInt32} {ctx : PoolContext} {cause : Cause} {c c' : Channel}
    {messages : List Message} (howned : c.Owned config extranonce1 owner counter)
    (h : Change mask ctx cause (some c) messages (some c')) (hcounter : counter ≤ counter')
    (hagree : ∀ number ≤ counter, owner' number = owner number)
    (hplans : ∀ plan : JobBuildPlan, cause.plans plan → plan.For c → c.kind = .Standard →
      Owns config extranonce1 owner' counter' c.id plan.extranonce_prefix) :
    c'.Owned config extranonce1 owner' counter' := by
  obtain ⟨hid, hkind, -, hbytes, hsize⟩ := h.identity
  refine ⟨hid ▸ howned.id_le, fun hextended => ?_, fun entry hmem => ?_, fun hstandard entry hmem => ?_,
    fun hextended entry hmem => ?_⟩
  · rw [hsize, hbytes, hid]
    exact howned.reserved (hkind.symm.trans hextended)
  · rw [hkind]
    rcases h.entries hmem with ⟨old, hold, -, heq⟩ | ⟨c₁, plan, work, clean_job, hcommit, rfl⟩
    · rw [heq]
      exact howned.work old hold
    · exact (Session.build_job_work_kind hcommit.built).trans hcommit.planned.kind
  · rcases h.entries hmem with ⟨old, hold, -, heq⟩ | ⟨c₁, plan, work, clean_job, hcommit, rfl⟩
    · rw [heq, hid]
      exact (howned.standard (hkind.symm.trans hstandard) old hold).mono hcounter hagree
    · rw [hid]
      exact hplans plan hcommit.supplied hcommit.planned (hkind.symm.trans hstandard)
  · rw [hbytes, hsize]
    rcases h.entries hmem with ⟨old, hold, -, heq⟩ | ⟨c₁, plan, work, clean_job, hcommit, rfl⟩
    · rw [heq]
      exact howned.extended (hkind.symm.trans hextended) old hold
    · exact hcommit.planned.extended (hkind.symm.trans hextended)

theorem Channel.Owned.of_admissible {s : Session} {c : Channel} (hfresh : c.Fresh)
    (hopens : Changes.Admissible config s c) (hextranonce : s.extranonce1 = extranonce1) :
    c.Owned config extranonce1 owner counter := by
  subst hextranonce
  exact ⟨hopens.id_le, hopens.reserved, by simp [hfresh.jobs], by simp [hfresh.jobs], by simp [hfresh.jobs]⟩

/-- Everything the counter hands out in one step goes to the Standard channel the step
leaves open. -/
def extend_owner (owner : Nat → Nat) (counter : Nat) (s' : Session) (number : Nat) : Nat :=
  if number ≤ counter then owner number
  else ((s'.channels.find? (fun c => c.kind = .Standard)).map Channel.id).getD 0

theorem Owns.of_allocated {s s' : Session} {plan : JobBuildPlan} {c : Channel}
    (halone : s'.StandardAlone) (hmem : c ∈ s'.channels) (hkind : c.kind = .Standard)
    (hplan : plan.kind = .Standard) (hextranonce : s.extranonce1 = extranonce1)
    (hallocated : plan.Allocated config s s') :
    Owns config extranonce1 (extend_owner owner s.extranonce_counter s') s'.extranonce_counter c.id
      plan.extranonce_prefix := by
  obtain ⟨number, hlower, hupper, hbytes⟩ := hallocated hplan
  refine ⟨number, hupper, ?_, hextranonce ▸ hbytes⟩
  rw [extend_owner, if_neg (not_le.mpr hlower), halone c hmem hkind]
  simp [hkind]

theorem Server.Owned.step {server : Server} (h : server.Owned config extranonce1 owner)
    (action : PoolContext × Event) :
    ∃ owner', (∀ number ≤ server.session.extranonce_counter, owner' number = owner number) ∧
      (Server.step config server action).Owned config extranonce1 owner' := by
  obtain ⟨ctx, event⟩ := action
  have hwf' : (Server.step config server (ctx, event)).WellFormed := h.wellFormed.step (ctx, event)
  have halone' := h.alone.step h.wellFormed config (ctx, event)
  have hchanges := h.wellFormed.changes config ctx event
  have hcounter := hchanges.carried.extranonce_counter
  have hcalls {call : Call} := @calls_cases config server ctx event call
  generalize hs' : (Server.step config server (ctx, event)).session = s' at hchanges hcounter halone' hcalls
  refine ⟨extend_owner owner server.session.extranonce_counter s', ?_⟩
  have hagree : ∀ number ≤ server.session.extranonce_counter,
      extend_owner owner server.session.extranonce_counter s' number = owner number :=
    fun number hle => if_pos hle
  have hdrawn {plan : JobBuildPlan} {c : Channel} (hmem : c ∈ s'.channels) (hkind : c.kind = .Standard)
      (hplan : plan.kind = .Standard) (hallocated : plan.Allocated config server.session s') :=
    @Owns.of_allocated config extranonce1 owner server.session s' plan c halone' hmem hkind hplan
      h.same_extranonce1 hallocated
  refine ⟨hagree, hwf', hs' ▸ halone', ?_, ?_, ?_⟩
  · rw [hs', hchanges.carried.extranonce1, h.same_extranonce1]
  · rw [hs']
    intro channel_id c' hfind'
    have hmem' := List.mem_of_find?_eq_some hfind'
    obtain ⟨messages, -, hchange⟩ := hchanges.channel channel_id
    rw [hfind'] at hchange
    have hplans {c : Channel} {messages : List Message} (hchange : Change server.session.version_mask ctx
        (server.cause config event s') (some c) messages (some c')) (plan : JobBuildPlan)
        (hsupplied : (server.cause config event s').plans plan) (hfor : plan.For c) (hkind : c.kind = .Standard) :
        Owns config extranonce1 (extend_owner owner server.session.extranonce_counter s') s'.extranonce_counter
          c.id plan.extranonce_prefix := by
      obtain ⟨hid, hkind', -⟩ := hchange.identity
      rcases hsupplied with hpending | hallocated
      · rw [← hfor.channel_id]
        exact (h.plans plan hpending (hfor.kind.trans hkind)).mono hcounter hagree
      · rw [← hid]
        exact hdrawn hmem' (hkind'.trans hkind) (hfor.kind.trans hkind) hallocated
    cases hfind : server.session.find_channel channel_id with
    | some c =>
      rw [hfind] at hchange
      exact (h.channels channel_id c hfind).change hchange hcounter hagree (hplans hchange)
    | none =>
      rw [hfind] at hchange
      obtain ⟨c, messages, hfresh, hopens, hchange⟩ := hchange.source
      exact (Channel.Owned.of_admissible hfresh hopens h.same_extranonce1).change hchange hcounter hagree
        (hplans hchange)
  · rw [hs']
    rintro plan ⟨call, hcall, hplan⟩ hkind
    have hold (hpending : server.Pending plan) : Owns config extranonce1
        (extend_owner owner server.session.extranonce_counter s') s'.extranonce_counter plan.channel_id
        plan.extranonce_prefix :=
      (h.plans plan hpending hkind).mono hcounter hagree
    have hnew {job : Job} (hsame : SameView server.session s')
        (hplanned : Session.Planned config server.session s' job plan) : Owns config extranonce1
        (extend_owner owner server.session.extranonce_counter s') s'.extranonce_counter plan.channel_id
        plan.extranonce_prefix := by
      obtain ⟨⟨c, hmem, hfor⟩, -, hallocated⟩ := hplanned
      rw [← hsame.channels] at hmem
      rw [hfor.channel_id]
      exact hdrawn hmem (hfor.kind.symm.trans hkind) hkind hallocated
    rcases hcalls hcall with hsame | hnone | ⟨job, clean, first, rest, hpublish, rfl⟩ |
        ⟨job, clean, rfl, rfl⟩ | ⟨job, fresh, s'', hrefresh, rfl, rfl⟩
    · exact hold ⟨call, hsame, hplan⟩
    · rw [hnone] at hplan
      cases hplan
    · exact hold ⟨_, hpublish, List.mem_cons_of_mem first hplan⟩
    · obtain ⟨hsame, -, hplanned⟩ := server.session.prepare_publication_spec config job
      exact hnew hsame (hplanned plan hplan)
    · obtain ⟨hsame, -, hplanned⟩ := Session.prepare_refresh_spec hrefresh
      rw [List.mem_singleton.mp hplan] at hnew ⊢
      exact hnew hsame hplanned

theorem Server.init_owned (config : Config) (extranonce1 : Bytes) (owner : Nat → Nat) :
    (init config extranonce1).Owned config extranonce1 owner :=
  ⟨init_wellFormed config extranonce1, by simp [Session.StandardAlone, init, Session.new], rfl,
    by simp [init, Session.new, Session.find_channel], by simp [Pending, init]⟩

theorem Server.counter_le_of_run (config : Config) (extranonce1 : Bytes)
    {before actions : List (PoolContext × Event)} (hbefore : before <+: actions) :
    (reached config extranonce1 before).session.extranonce_counter ≤
      (reached config extranonce1 actions).session.extranonce_counter := by
  obtain ⟨rest, rfl⟩ := hbefore
  rw [reached_append]
  have hwf := reached_wellFormed config extranonce1 before
  generalize reached config extranonce1 before = start at hwf ⊢
  have hstep (server : Server) (action : PoolContext × Event) (h : server.WellFormed ∧
      start.session.extranonce_counter ≤ server.session.extranonce_counter) :
      (step config server action).WellFormed ∧
        start.session.extranonce_counter ≤ (step config server action).session.extranonce_counter :=
    ⟨h.1.step action, h.2.trans (h.1.changes config action.1 action.2).carried.extranonce_counter⟩
  exact (run_invariant_always hstep rest ⟨hwf, le_rfl⟩).2

/-- One owner for each number serves every state of a run. -/
theorem Server.reached_owned (config : Config) (extranonce1 : Bytes) (actions : List (PoolContext × Event)) :
    ∃ whole : Nat → Nat, ∀ before, before <+: actions →
      ∃ owner, (reached config extranonce1 before).Owned config extranonce1 owner ∧
        ∀ number ≤ (reached config extranonce1 before).session.extranonce_counter, whole number = owner number := by
  let agrees (server : Server) (owner owner' : Nat → Nat) : Prop := server.WellFormed →
    ∀ number ≤ server.session.extranonce_counter, owner' number = owner number
  have htrans (server : Server) (action : PoolContext × Event) (owner owner' owner'' : Nat → Nat)
      (hfirst : agrees server owner owner') (hsecond : agrees (step config server action) owner' owner'') :
      agrees server owner owner'' := by
    intro hwf number hle
    have hcounter := (hwf.changes config action.1 action.2).carried.extranonce_counter
    exact (hsecond (hwf.step action) number (hle.trans hcounter)).trans (hfirst hwf number hle)
  have hstep (server : Server) (action : PoolContext × Event) (owner : Nat → Nat)
      (howned : server.Owned config extranonce1 owner) : ∃ owner', agrees server owner owner' ∧
        (step config server action).Owned config extranonce1 owner' := by
    obtain ⟨owner', hagree, howned'⟩ := howned.step action
    exact ⟨owner', fun _ => hagree, howned'⟩
  obtain ⟨whole, -, hwhole⟩ := run_ghost _ agrees (fun _ _ _ _ _ => rfl) htrans hstep actions
    (init_owned config extranonce1 (fun _ => 0))
  refine ⟨whole, fun before hbefore => ?_⟩
  obtain ⟨owner, howned, hagrees⟩ := hwhole before hbefore
  exact ⟨owner, howned, hagrees howned.wellFormed⟩

end erikslund.sv2
