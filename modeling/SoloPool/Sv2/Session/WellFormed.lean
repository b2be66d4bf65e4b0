import SoloPool.Sv2.Session.Dispatch

namespace erikslund.sv2

open util stratum List

namespace Session

/-- Plans made from `s₀` on, for its channels and from this job. -/
def Planned (config : Config) (s₀ s : Session) (job : Job) (plan : JobBuildPlan) : Prop :=
  (∃ c ∈ s₀.channels, plan.For c) ∧ plan.source_job = job ∧ plan.Allocated config s₀ s

/-- Preparing a publication makes plans for channels of the session and changes nothing
a channel shows. -/
theorem prepare_publication_spec (config : Config) (s : Session) (job : Job) :
    SameView s (s.prepare_publication config job).2 ∧ (s.prepare_publication config job).2.roll = s.roll ∧
      ∀ plan ∈ (s.prepare_publication config job).1,
        Planned config s (s.prepare_publication config job).2 job plan := by
  apply prepare_publication_rule (motive := fun prepared =>
    SameView s prepared.2 ∧ prepared.2.roll = s.roll ∧ ∀ plan ∈ prepared.1, Planned config s prepared.2 job plan)
  · exact ⟨.refl s, rfl, by simp⟩
  · rintro plans s₁ c hmem ⟨hsame, hroll, hplans⟩
    have hprepared := s₁.prepare_job_same config c job none
    refine ⟨hsame.trans hprepared, (roll_prepare_job config s₁ c job none).trans hroll, fun plan hplan => ?_⟩
    rcases mem_append.mp hplan with hold | hnew
    · obtain ⟨hfor, hjob, hallocated⟩ := hplans plan hold
      exact ⟨hfor, hjob, hallocated.widen (SameView.refl s).carried hprepared.carried⟩
    · rw [mem_singleton.mp hnew]
      obtain ⟨hfor, hjob⟩ := s₁.prepare_job_for config c job none
      exact ⟨⟨c, hmem, hfor⟩, hjob,
        (s₁.prepare_job_allocated config c job).widen hsame.carried (SameView.refl _).carried⟩

theorem prepare_refresh_spec {config : Config} {s s' : Session} {job : Job} {plan : JobBuildPlan}
    (h : s.prepare_refresh config job = some (plan, s')) :
    SameView s s' ∧ s'.roll = s.roll ∧ Planned config s s' job plan := by
  simp only [prepare_refresh, Option.map_eq_some_iff] at h
  obtain ⟨c, hfind, hprepared⟩ := h
  have hsame := s.prepare_job_same config c job none
  have hroll := roll_prepare_job config s c job none
  have hplan := s.prepare_job_for config c job none
  have hallocated := s.prepare_job_allocated config c job
  rw [hprepared] at hsame hroll hplan hallocated
  exact ⟨hsame, hroll, ⟨c, mem_of_find?_eq_some hfind, hplan.1⟩, hplan.2, hallocated⟩

end Session

namespace Changes

open Session

variable {ctx : PoolContext} {cause : Cause} {s : Session}

theorem commit_publication {job : Job} {clean : Bool} {plan : JobBuildPlan}
    (hplan : ∀ c, s.find_channel plan.channel_id = some c → plan.For c) (hjob : plan.source_job = job)
    (hsupplied : cause.plans plan) :
    Changes ctx cause s (s.commit_publication job clean plan ctx.steady_seconds).1 := by
  have hself : Changes ctx cause s s := same (.refl s)
  unfold Session.commit_publication
  cases hwork : build_job_work plan with
  | error error => exact hself
  | ok work =>
    cases hfound : s.find_channel plan.channel_id with
    | none => exact hself
    | some c =>
      dsimp only
      split
      · exact hself
      · rename_i hnews
        have hfind : s.find_channel c.id = some c := by rwa [find_channel_id hfound]
        subst hjob
        exact commit hfind (SameView.staged (.refl s) _) (by constructor <;> rfl) id (hplan c hfound) hsupplied
          hwork (.inl ⟨fun hne => by omega, rfl⟩)

theorem commit_refresh {job : Job} {plan : JobBuildPlan}
    (hplan : ∀ c, s.find_channel plan.channel_id = some c → plan.For c) (hjob : plan.source_job = job)
    (hsupplied : cause.plans plan) :
    Changes ctx cause s (s.commit_refresh job plan ctx.steady_seconds).1 := by
  have hself : Changes ctx cause s s := same (.refl s)
  unfold Session.commit_refresh
  cases hwork : build_job_work plan with
  | error error => exact hself
  | ok work =>
    cases hfound : s.find_channel plan.channel_id with
    | none => exact hself
    | some c =>
      dsimp only
      split
      · exact hself
      split
      · exact hself
      · rename_i hnews
        have hfind : s.find_channel c.id = some c := by rwa [find_channel_id hfound]
        subst hjob
        exact commit hfind (SameView.staged (.refl s) _) (by constructor <;> rfl) id (hplan c hfound) hsupplied
          hwork (.inl ⟨fun hne => by omega, rfl⟩)

end Changes

/-- The channels have distinct ids below the next one, and every plan in flight fits its
channel if that is still open. -/
structure Server.WellFormed (server : Server) : Prop where
  nodup : (server.session.channels.map Channel.id).Nodup
  ids : ∀ channel_id ∈ server.session.channels.map Channel.id, channel_id < server.session.next_channel_id
  plans : ∀ call ∈ server.calls, ∀ plan ∈ call.plans, plan.channel_id < server.session.next_channel_id ∧
    plan.source_job = call.job ∧ ∀ c, server.session.find_channel plan.channel_id = some c → plan.For c

theorem Server.init_wellFormed (config : Config) (extranonce1 : Bytes) : (init config extranonce1).WellFormed :=
  ⟨by simp [init, Session.new], by simp [init, Session.new], by simp [init]⟩

/-- The channel an event's `UpdateChannel` names. -/
def Event.updated_channel : Event → Option Nat
  | .frame ⟨_, _, .update_channel msg⟩ => some msg.channel_id
  | _ => none

namespace Server

/-- What a step leaves of the session is what one critical section leaves. -/
theorem session_cases {config : Config} {server : Server} {ctx : PoolContext} {event : Event}
    {motive : Session → Prop}
    (hcounted : ∀ s errors close, motive s → motive { s with
      protocol_errors := errors, close_after_response := close })
    (hquiet : ∀ s', Quiet server.session s' → motive s')
    (hsetup : ∀ msg, motive (server.session.handle_setup_locked msg))
    (hopen : ∀ msg, motive (server.session.open_channel_locked config ctx msg .Standard).1)
    (hextended : ∀ msg size,
      motive (server.session.handle_open_extended_locked config ctx msg size).1)
    (hupdate : ∀ msg, event.updated_channel = some msg.channel_id →
      motive (server.session.handle_update_locked config ctx msg).1)
    (hclose : ∀ channel_id, motive (server.session.handle_close_locked channel_id))
    (hshare : ∀ share, motive (server.session.prepare_share_locked ctx share).1)
    (hfinish : ∀ share prepared, motive (server.session.finish_share ctx share prepared))
    (hdeliver : motive server.session.deliver_blocks)
    (hprepare : ∀ job, motive (server.session.prepare_publication config job).2)
    (hpublish : ∀ job clean plan plans, .publish job clean (plan :: plans) ∈ server.calls →
      motive (server.session.commit_publication job clean plan ctx.steady_seconds).1)
    (hrefreshing : ∀ job plan s', server.session.prepare_refresh config job = some (plan, s') → motive s')
    (hrefresh : ∀ job plan, .refresh job plan ∈ server.calls →
      motive (server.session.commit_refresh job plan ctx.steady_seconds).1)
    (hretarget : motive (server.session.maybe_retarget ctx)) :
    motive (step config server (ctx, event)).session := by
  have hself := hquiet _ (.refl server.session)
  cases event with
  | frame frame =>
    simp only [step]
    split
    · exact hself
    · have hdispatch : motive (server.session.dispatch_locked config ctx frame).session := by
        refine Session.dispatch_cases hquiet hsetup hopen hextended (fun msg hpayload => ?_) hclose hshare
        refine hupdate msg ?_
        obtain ⟨extension_id, is_channel_message, payload⟩ := frame
        subst hpayload
        rfl
      dsimp only
      unfold Session.after_dispatch
      split
      · exact hdispatch
      · exact hcounted (server.session.dispatch_locked config ctx frame).session (_ + 1) true hdispatch
  | finish_share =>
    simp only [step]
    split
    · exact hself
    · exact hfinish _ _
  | deliver_blocks =>
    simp only [step]
    split
    · exact hself
    · exact hdeliver
  | publish_job job_id clean =>
    simp only [step]
    split <;> exact hself
  | maybe_refresh_job =>
    simp only [step]
    split <;> exact hself
  | maybe_retarget => exact hretarget
  | resume index =>
    simp only [step]
    split
    · exact hself
    · rename_i call hcall
      have hmem : call ∈ server.calls := mem_of_getElem? hcall
      dsimp only
      cases call with
      | publishing job clean =>
        simp only [Session.resume_call]
        split
        · exact hself
        · exact hprepare job
      | publish job clean plans =>
        cases plans with
        | nil => exact hself
        | cons plan plans =>
          have hcommit := hpublish job clean plan plans hmem
          simp only [Session.resume_call]
          split <;> rename_i hresult <;> rw [hresult] at hcommit <;> exact hcommit
      | refreshing job =>
        simp only [Session.resume_call]
        split
        · exact hself
        · rename_i plan s' hprepared
          exact hrefreshing job plan s' hprepared
      | refresh job plan => exact hrefresh job plan hmem

theorem find_of_mem {s : Session} (hnodup : (s.channels.map Channel.id).Nodup) {c : Channel}
    (hmem : c ∈ s.channels) : s.find_channel c.id = some c := by
  cases hfind : s.find_channel c.id with
  | none => exact absurd (find?_eq_none.mp hfind c hmem) (by simp)
  | some c' =>
    rw [inj_on_of_nodup_map hnodup (mem_of_find?_eq_some hfind) hmem (Session.find_channel_id hfind)]

variable (config : Config) (server : Server) (ctx : PoolContext) (event : Event)

/-- A plan some call in flight still has to commit. -/
def Pending (plan : JobBuildPlan) : Prop := ∃ call ∈ server.calls, plan ∈ call.plans

/-- What a step that leads to `s'` may draw on. -/
def cause (s' : Session) : Cause where
  updated := event.updated_channel
  plans := fun plan => server.Pending plan ∨ plan.Allocated config server.session s'
  opens := Changes.Admissible config server.session

/-- Every step treats every channel in one of the ways of a critical section. The plans it
draws on are pending, or made for the current job. -/
theorem WellFormed.changes_of {server : Server} (hwf : server.WellFormed) (config : Config)
    (ctx : PoolContext) (event : Event) (cause : Session → Cause)
    (hcounted : ∀ s' errors close, cause { s' with protocol_errors := errors, close_after_response := close } = cause s')
    (hupdated : ∀ s' channel_id c, event.updated_channel = some channel_id →
      server.session.find_channel channel_id = some c → s'.next_job_id ≠ server.session.next_job_id →
      (cause s').updated = some channel_id)
    (hopens : ∀ s' c, Changes.Admissible config server.session c → Changes.Current ctx c → (cause s').opens c)
    (hpending : ∀ s' plan, server.Pending plan → (cause s').plans plan)
    (hplans : ∀ s' plan, plan.Issued config ctx server.session s' → (cause s').plans plan) :
    Changes ctx (cause (step config server (ctx, event)).session) server.session
      (step config server (ctx, event)).session := by
  have hfor {call : Call} (hcall : call ∈ server.calls) {plan : JobBuildPlan} (hplan : plan ∈ call.plans) :=
    hwf.plans call hcall plan hplan
  apply session_cases (motive := fun s' => Changes ctx (cause s') server.session s')
  · intro s errors close h
    rw [hcounted]
    exact h.then_same ⟨rfl, rfl, rfl, rfl, le_rfl⟩
  · exact fun s' h => h.changes
  · exact fun msg => .setup msg
  · exact fun msg => .open_channel msg .Standard rfl (hopens _) (hplans _)
  · exact fun msg size => .open_extended msg size rfl (hopens _) (hplans _)
  · exact fun msg hmessage => .update msg rfl (fun c => hupdated _ _ c hmessage) (hplans _)
  · exact fun channel_id => .close channel_id
  · exact fun share => .prepare_share share
  · exact fun share prepared => .finish share prepared
  · exact .same ⟨rfl, rfl, rfl, rfl, le_rfl⟩
  · exact fun job => .same (server.session.prepare_publication_spec config job).1
  · intro job clean plan plans hcall
    obtain ⟨-, hjob, hplan⟩ := hfor hcall (mem_cons_self : plan ∈ plan :: plans)
    exact .commit_publication hplan hjob (hpending _ _ ⟨_, hcall, mem_cons_self⟩)
  · exact fun job plan s' hprepared => .same (Session.prepare_refresh_spec hprepared).1
  · intro job plan hcall
    obtain ⟨-, hjob, hplan⟩ := hfor hcall (mem_singleton_self plan)
    exact .commit_refresh hplan hjob (hpending _ _ ⟨_, hcall, mem_singleton_self plan⟩)
  · unfold Session.maybe_retarget
    split
    · exact .same ⟨rfl, rfl, rfl, rfl, le_rfl⟩
    · exact .retarget_fold hwf.nodup (fun c hmem => find_of_mem hwf.nodup hmem)

theorem WellFormed.changes {server : Server} (hwf : server.WellFormed) (config : Config)
    (ctx : PoolContext) (event : Event) :
    Changes ctx (server.cause config event (step config server (ctx, event)).session)
      server.session (step config server (ctx, event)).session :=
  hwf.changes_of config ctx event (server.cause config event) (fun _ _ _ => rfl) (fun _ _ _ h _ _ => h)
    (fun _ _ h _ => h) (fun _ _ => .inl) (fun _ _ hplan => .inr hplan.allocated)

theorem roll_step :
    Session.RollStep server.session (step config server (ctx, event)).session := by
  have hsame {s' : Session} (h : s'.roll = server.session.roll) : Session.RollStep server.session s' := .of_eq h
  apply session_cases
  · intro s errors close h
    cases h with
    | kept hanswers hnext hids => exact .kept hanswers hnext hids
    | refused hanswers hchannels hnext hcounter hseen => exact .refused hanswers hchannels hnext hcounter hseen
    | opened hroll hid hroom => exact .opened hroll hid hroom
  · rintro s' ⟨errors, close, messages, -, hanswers, rfl⟩
    exact hsame (Session.roll_send server.session hanswers)
  · exact fun msg => hsame (Session.roll_setup _ msg)
  · exact fun msg => .open_channel msg .Standard
  · exact fun msg size => .open_extended msg size
  · exact fun msg _ => hsame (Session.roll_update msg)
  · exact fun channel_id => .close channel_id
  · exact fun share => hsame (Session.roll_prepare_share share)
  · exact fun share prepared => hsame (Session.roll_finish_share share prepared)
  · exact hsame rfl
  · exact fun job => hsame (server.session.prepare_publication_spec config job).2.1
  · intro job clean plan plans _
    refine hsame ?_
    unfold Session.commit_publication
    repeat' split
    all_goals simp
  · exact fun job plan s' hprepared => hsame (Session.prepare_refresh_spec hprepared).2.1
  · intro job plan _
    refine hsame ?_
    unfold Session.commit_refresh
    repeat' split
    all_goals simp
  · refine hsame ?_
    unfold Session.maybe_retarget
    split
    · rfl
    · exact Session.roll_retarget _

theorem ids_step :
    Session.IdsStep server.session (step config server (ctx, event)).session :=
  (roll_step config server ctx event).ids

/-- The calls in flight after a step: those before it, one that has no plan yet, one with a
plan less, or one that has just prepared its plans. -/
theorem calls_cases {config : Config} {server : Server} {ctx : PoolContext} {event : Event} {call : Call}
    (hmem : call ∈ (step config server (ctx, event)).calls) :
    call ∈ server.calls ∨ call.plans = [] ∨
      (∃ job clean plan plans, .publish job clean (plan :: plans) ∈ server.calls ∧
        call = .publish job clean plans) ∨
      (∃ job clean, call = .publish job clean (server.session.prepare_publication config job).1 ∧
        (step config server (ctx, event)).session = (server.session.prepare_publication config job).2) ∨
      (∃ job plan s', server.session.prepare_refresh config job = some (plan, s') ∧ call = .refresh job plan ∧
        (step config server (ctx, event)).session = s') := by
  cases event with
  | frame frame =>
    simp only [step] at hmem
    split at hmem <;> exact .inl hmem
  | finish_share =>
    simp only [step] at hmem
    split at hmem <;> exact .inl hmem
  | deliver_blocks =>
    simp only [step] at hmem
    split at hmem <;> exact .inl hmem
  | maybe_retarget => exact .inl hmem
  | publish_job job_id clean =>
    simp only [step] at hmem
    split at hmem
    · exact .inl hmem
    · rcases mem_append.mp hmem with hmem | hmem
      · exact .inl hmem
      · rw [mem_singleton.mp hmem]
        exact .inr (.inl rfl)
  | maybe_refresh_job =>
    simp only [step] at hmem
    split at hmem
    · exact .inl hmem
    · rcases mem_append.mp hmem with hmem | hmem
      · exact .inl hmem
      · rw [mem_singleton.mp hmem]
        exact .inr (.inl rfl)
  | resume index =>
    simp only [step] at hmem
    split at hmem
    · exact .inl hmem
    · rename_i resumed hresumed
      rcases mem_append.mp hmem with hmem | hmem
      · rcases mem_append.mp hmem with hmem | hmem
        · exact .inl (mem_of_mem_take hmem)
        · have hcalls : resumed ∈ server.calls := mem_of_getElem? hresumed
          rw [Option.mem_toList] at hmem
          cases resumed with
          | publishing job clean =>
            simp only [Session.resume_call] at hmem
            split at hmem
            · cases hmem
            · rename_i hopen
              cases hmem
              refine .inr (.inr (.inr (.inl ⟨job, clean, rfl, ?_⟩)))
              simp only [step, hresumed, Session.resume_call, if_neg hopen]
          | publish job clean plans =>
            cases plans with
            | nil => cases hmem
            | cons plan plans =>
              simp only [Session.resume_call] at hmem
              split at hmem
              · cases hmem
                exact .inr (.inr (.inl ⟨job, clean, plan, plans, hcalls, rfl⟩))
              · cases hmem
          | refreshing job =>
            simp only [Session.resume_call] at hmem
            split at hmem
            · cases hmem
            · rename_i plan s' hprepared
              cases hmem
              refine .inr (.inr (.inr (.inr ⟨job, plan, s', hprepared, rfl, ?_⟩)))
              simp only [step, hresumed, Session.resume_call, hprepared]
          | refresh job plan => cases hmem
      · exact .inl (mem_of_mem_drop hmem)

end Server

/-- What identifies a channel never changes. -/
theorem Change.identity {mask : UInt32} {ctx : PoolContext} {cause : Cause} {c c' : Channel}
    {messages : List Message} (h : Change mask ctx cause (some c) messages (some c')) :
    c'.id = c.id ∧ c'.kind = c.kind ∧ c'.payout_script = c.payout_script ∧
      c'.extranonce_prefix = c.extranonce_prefix ∧ c'.extranonce_size = c.extranonce_size := by
  cases h with
  | touched ht => exact ⟨ht.id, ht.kind, ht.payout_script, ht.extranonce_prefix, ht.extranonce_size⟩
  | retargeted ht => exact ⟨ht.id, ht.kind, ht.payout_script, ht.extranonce_prefix, ht.extranonce_size⟩
  | @committed _ _ _ _ clean_job _ hcommit =>
    have ht := hcommit.touched
    cases clean_job <;> exact ⟨ht.id, ht.kind, ht.payout_script, ht.extranonce_prefix, ht.extranonce_size⟩
  | stranded hcommit =>
    have ht := hcommit.touched
    exact ⟨ht.id, ht.kind, ht.payout_script, ht.extranonce_prefix, ht.extranonce_size⟩

theorem JobBuildPlan.For.of_change {mask : UInt32} {ctx : PoolContext} {cause : Cause} {c c' : Channel}
    {messages : List Message} {plan : JobBuildPlan} (h : Change mask ctx cause (some c) messages (some c'))
    (hplan : plan.For c) : plan.For c' := by
  obtain ⟨hid, hkind, hpayout, hbytes, hsize⟩ := h.identity
  refine ⟨hplan.channel_id.trans hid.symm, hplan.kind.trans hkind.symm, hplan.payout_script.trans hpayout.symm,
    fun h => ?_, fun h => hplan.standard (hkind.symm.trans h)⟩
  rw [hbytes, hsize]
  exact hplan.extended (hkind.symm.trans h)

namespace Server

/-- A channel found after a step under an id already handed out before it was open before it. -/
theorem found_before {config : Config} {server : Server} {ctx : PoolContext} {event : Event}
    {channel_id : Nat} {c' : Channel} (hlt : channel_id < server.session.next_channel_id)
    (hfind : (step config server (ctx, event)).session.find_channel channel_id = some c') :
    ∃ c, server.session.find_channel channel_id = some c := by
  have hid : channel_id ∈ (step config server (ctx, event)).session.channels.map Channel.id :=
    mem_map.mpr ⟨c', mem_of_find?_eq_some hfind, Session.find_channel_id hfind⟩
  have hold : channel_id ∈ server.session.channels.map Channel.id := by
    rcases ids_step config server ctx event with ⟨-, hsub⟩ | hopened
    · exact hsub.subset hid
    · rw [(Prod.mk.inj hopened).1] at hid
      rcases mem_append.mp hid with hid | hid
      · exact hid
      · exact absurd (mem_singleton.mp hid) (by omega)
  obtain ⟨c, hmem, rfl⟩ := mem_map.mp hold
  cases hfound : server.session.find_channel c.id with
  | none => exact absurd (find?_eq_none.mp hfound c hmem) (by simp)
  | some c' => exact ⟨c', rfl⟩

theorem next_channel_id_le (config : Config) (server : Server) (ctx : PoolContext) (event : Event) :
    server.session.next_channel_id ≤ (step config server (ctx, event)).session.next_channel_id := by
  rcases ids_step config server ctx event with ⟨hnext, -⟩ | hopened
  · exact hnext.ge
  · rw [(Prod.mk.inj hopened).2]
    omega

theorem WellFormed.step {config : Config} {server : Server} (hwf : server.WellFormed)
    (action : PoolContext × Event) : (step config server action).WellFormed := by
  obtain ⟨ctx, event⟩ := action
  have hnext := next_channel_id_le config server ctx event
  have hids := ids_step config server ctx event
  -- A plan that fitted every channel found under its id before the step still does after it.
  have hkeeps {plan : JobBuildPlan} (hlt : plan.channel_id < server.session.next_channel_id)
      (hplan : ∀ c, server.session.find_channel plan.channel_id = some c → plan.For c) :
      plan.channel_id < (Server.step config server (ctx, event)).session.next_channel_id ∧
        ∀ c, (Server.step config server (ctx, event)).session.find_channel plan.channel_id = some c →
          plan.For c := by
    refine ⟨hlt.trans_le hnext, fun c' hfind' => ?_⟩
    obtain ⟨c, hfind⟩ := found_before hlt hfind'
    obtain ⟨messages, -, hchange⟩ := (hwf.changes config ctx event).channel plan.channel_id
    rw [hfind, hfind'] at hchange
    exact .of_change hchange (hplan c hfind)
  have hprepared {plan : JobBuildPlan} {c : Channel} (hmem : c ∈ server.session.channels) (hplan : plan.For c) :
      plan.channel_id < server.session.next_channel_id ∧
        ∀ c, server.session.find_channel plan.channel_id = some c → plan.For c := by
    rw [hplan.channel_id, find_of_mem hwf.nodup hmem]
    exact ⟨hwf.ids _ (mem_map_of_mem hmem), fun c' hc' => Option.some.inj hc' ▸ hplan⟩
  refine ⟨?_, ?_, fun call hcall plan hplan => ?_⟩
  · rcases hids with ⟨-, hsub⟩ | hopened
    · exact hsub.nodup hwf.nodup
    · rw [(Prod.mk.inj hopened).1]
      refine nodup_append.mpr ⟨hwf.nodup, nodup_singleton _, fun a ha b hb => ?_⟩
      rw [mem_singleton.mp hb]
      exact (hwf.ids a ha).ne
  · intro channel_id hmem
    rcases hids with ⟨-, hsub⟩ | hopened
    · exact (hwf.ids channel_id (hsub.subset hmem)).trans_le hnext
    · rw [(Prod.mk.inj hopened).1] at hmem
      rw [(Prod.mk.inj hopened).2]
      rcases mem_append.mp hmem with hmem | hmem
      · have hlt := hwf.ids channel_id hmem
        omega
      · rw [mem_singleton.mp hmem]
        omega
  · have hdone {call : Call} (hcall : call ∈ server.calls) {plan : JobBuildPlan} (hplan : plan ∈ call.plans) :=
      hwf.plans call hcall plan hplan
    rcases calls_cases hcall with hold | hnone | ⟨job, clean, first, rest, hpublish, rfl⟩ | ⟨job, clean, rfl, -⟩ |
        ⟨job, fresh, s', hrefresh, rfl, -⟩
    · obtain ⟨hlt, hjob, hfor⟩ := hdone hold hplan
      obtain ⟨hlt', hfor'⟩ := hkeeps hlt hfor
      exact ⟨hlt', hjob, hfor'⟩
    · rw [hnone] at hplan
      cases hplan
    · obtain ⟨hlt, hjob, hfor⟩ := hdone hpublish (mem_cons_of_mem first hplan)
      obtain ⟨hlt', hfor'⟩ := hkeeps hlt hfor
      exact ⟨hlt', hjob, hfor'⟩
    · obtain ⟨⟨c, hmem, hfor⟩, hjob, -⟩ := (server.session.prepare_publication_spec config job).2.2 plan hplan
      obtain ⟨hlt, hfor⟩ := hprepared hmem hfor
      obtain ⟨hlt', hfor'⟩ := hkeeps hlt hfor
      exact ⟨hlt', hjob, hfor'⟩
    · obtain ⟨-, -, ⟨c, hmem, hfor⟩, hjob, -⟩ := Session.prepare_refresh_spec hrefresh
      rw [mem_singleton.mp hplan]
      obtain ⟨hlt, hfor⟩ := hprepared hmem hfor
      obtain ⟨hlt', hfor'⟩ := hkeeps hlt hfor
      exact ⟨hlt', hjob, hfor'⟩

theorem reached_wellFormed (config : Config) (extranonce1 : Bytes) (actions : List (PoolContext × Event)) :
    (reached config extranonce1 actions).WellFormed :=
  Transition.run_invariant_always (fun _ action h => h.step action) actions (init_wellFormed config extranonce1)

end Server

end erikslund.sv2
