import SoloPool.Sv2.Session.Entries

namespace erikslund.sv2

open util stratum List

/-- The job ids in the order they are allocated: zero is skipped when the counter wraps. -/
def nth_job_id (n : Nat) : UInt32 := UInt32.ofNat (n % (2 ^ 32 - 1) + 1)

theorem following_nth_job_id (n : Nat) : following_job_id (nth_job_id n) = nth_job_id (n + 1) := by
  have hsucc : nth_job_id n + 1 = UInt32.ofNat (n % (2 ^ 32 - 1) + 2) := UInt32.ofNat_add .. |>.symm
  unfold following_job_id
  rw [hsucc]
  by_cases hlast : n % (2 ^ 32 - 1) + 2 = 2 ^ 32
  · have hfirst : (n + 1) % (2 ^ 32 - 1) = 0 := by omega
    rw [hlast, nth_job_id, hfirst]
    rfl
  · have hnext : (n + 1) % (2 ^ 32 - 1) = n % (2 ^ 32 - 1) + 1 := by omega
    have hne : UInt32.ofNat (n % (2 ^ 32 - 1) + 2) ≠ 0 := by
      intro hzero
      have hvalue := congrArg UInt32.toNat hzero
      rw [UInt32.toNat_ofNat'] at hvalue
      have hvalue : (n % (2 ^ 32 - 1) + 2) % 2 ^ 32 = 0 := hvalue
      omega
    rw [if_neg hne, nth_job_id, hnext]

theorem nth_job_id_inj {i j : Nat} (hi : i < 2 ^ 32 - 1) (hj : j < 2 ^ 32 - 1) (h : nth_job_id i = nth_job_id j) :
    i = j := by
  have hvalue := congrArg UInt32.toNat h
  simp only [nth_job_id, UInt32.toNat_ofNat', Nat.mod_eq_of_lt hi, Nat.mod_eq_of_lt hj] at hvalue
  omega

namespace Session

variable {config : Config} {ctx : PoolContext} {s : Session}

/-- A section that issues at most one job. -/
def IssuesOne (s s' : Session) : Prop :=
  s'.next_job_id = s.next_job_id ∨ s'.next_job_id = following_job_id s.next_job_id

theorem next_job_id_reject (s : Session) (found : Option Channel) (share : ShareSubmission) (code : String) :
    (s.send_share_rejection_locked found share code).next_job_id = s.next_job_id := by
  cases found <;> rfl

theorem next_job_id_prepare_share (share : ShareSubmission) :
    (s.prepare_share_locked ctx share).1.next_job_id = s.next_job_id := by
  unfold prepare_share_locked
  split
  · rfl
  split
  · rfl
  split
  · rfl
  split
  · rfl
  dsimp only
  split
  · rfl
  split <;> rfl

theorem next_job_id_finish_share (share : ShareSubmission) (prepared : PreparedShare) :
    (s.finish_share ctx share prepared).next_job_id = s.next_job_id := by
  unfold finish_share
  cases validate_share share prepared ctx.time with
  | error rejection => exact next_job_id_reject _ _ share _
  | ok result =>
    dsimp only
    cases s.find_channel share.channel_id <;> split <;> rfl

theorem next_job_id_retarget (todo : List Channel) :
    (todo.foldl (retarget_channel ctx) s).next_job_id = s.next_job_id := by
  induction todo generalizing s with
  | nil => rfl
  | cons c rest ih =>
    rw [foldl_cons, ih]
    simp only [retarget_channel]
    repeat' split
    all_goals rfl

theorem next_job_id_open (msg : OpenMiningChannel) (kind : ChannelKind) :
    IssuesOne s (s.open_channel_locked config ctx msg kind).1 := by
  simp only [open_channel_locked]
  split
  · exact .inl rfl
  split
  · exact .inl rfl
  split
  · exact .inl rfl
  split
  · exact .inl rfl
  split
  · exact .inl rfl
  split
  · exact .inl rfl
  · unfold admit_channel
    split
    · exact .inl rfl
    · cases kind with
      | Standard => exact .inr (next_job_id_issue ..)
      | Extended => exact .inr (next_job_id_issue ..)

theorem next_job_id_update (msg : UpdateChannel) :
    IssuesOne s (s.handle_update_locked config ctx msg).1 := by
  simp only [handle_update_locked]
  repeat' split
  all_goals first
    | exact .inl rfl
    | exact .inr (next_job_id_issue ..)

theorem next_job_id_dispatch (config : Config) (ctx : PoolContext) (s : Session) (frame : Frame) :
    IssuesOne s (after_dispatch (s.dispatch_locked config ctx frame)) := by
  have hafter (dispatched : Dispatched) : (after_dispatch dispatched).next_job_id = dispatched.session.next_job_id := by
    unfold after_dispatch
    split <;> rfl
  have hdispatch : IssuesOne s (s.dispatch_locked config ctx frame).session := by
    apply dispatch_cases
    · rintro s' ⟨errors, close, messages, -, -, rfl⟩
      exact .inl rfl
    · intro msg
      unfold handle_setup_locked
      dsimp only
      repeat' split
      all_goals exact .inl rfl
    · exact fun msg => next_job_id_open msg .Standard
    · intro msg size
      unfold handle_open_extended_locked
      split
      · exact .inl rfl
      split
      · exact .inl rfl
      · exact next_job_id_open msg .Extended
    · exact fun msg _ => next_job_id_update msg
    · intro channel_id
      unfold handle_close_locked
      repeat' split
      all_goals exact .inl rfl
    · exact fun share => .inl (next_job_id_prepare_share share)
  unfold IssuesOne
  rw [hafter]
  exact hdispatch

/-- The plans of a publication take the job ids in order. -/
theorem prepare_publication_ids {n : Nat} (config : Config) (job : Job) (hnext : s.next_job_id = nth_job_id n) :
    (s.prepare_publication config job).1.map JobBuildPlan.job_id =
        (range' n (s.prepare_publication config job).1.length).map nth_job_id ∧
      (s.prepare_publication config job).2.next_job_id =
        nth_job_id (n + (s.prepare_publication config job).1.length) := by
  apply prepare_publication_rule (motive := fun prepared =>
    prepared.1.map JobBuildPlan.job_id = (range' n prepared.1.length).map nth_job_id ∧
      prepared.2.next_job_id = nth_job_id (n + prepared.1.length))
  · exact ⟨rfl, hnext⟩
  · rintro plans s₁ c - ⟨hids, hnext⟩
    refine ⟨?_, ?_⟩
    · rw [map_append, hids, length_append, length_singleton, range'_1_concat, map_append,
        map_singleton, map_singleton, job_id_prepare_job, hnext]
    · rw [next_job_id_prepare_job, hnext, following_nth_job_id, length_append,
        length_singleton, Nat.add_assoc]

/-- What dispatching a frame changes. It commits only a plan that takes the next job id. -/
theorem frame_changes {cause : Cause} (config : Config) (ctx : PoolContext) (s : Session) (frame : Frame)
    (hupdated : ∀ msg, frame.payload = .update_channel msg → cause.updated = some msg.channel_id)
    (hopens : ∀ c, cause.opens c)
    (hplans : ∀ plan : JobBuildPlan, plan.job_id = s.next_job_id →
      (after_dispatch (s.dispatch_locked config ctx frame)).next_job_id = following_job_id s.next_job_id →
      cause.plans plan) :
    Changes ctx cause s (after_dispatch (s.dispatch_locked config ctx frame)) := by
  have hafter : (after_dispatch (s.dispatch_locked config ctx frame)).next_job_id =
      (s.dispatch_locked config ctx frame).session.next_job_id := by
    unfold after_dispatch
    split <;> rfl
  rw [hafter] at hplans
  have hdispatch : (∀ plan : JobBuildPlan, plan.Issued config ctx s
      (s.dispatch_locked config ctx frame).session → cause.plans plan) →
      Changes ctx cause s (s.dispatch_locked config ctx frame).session := by
    apply dispatch_cases (motive := fun s' =>
      (∀ plan : JobBuildPlan, plan.Issued config ctx s s' → cause.plans plan) → Changes ctx cause s s')
    · exact fun s' h _ => h.changes
    · exact fun msg _ => .setup msg
    · exact fun msg h => .open_channel msg .Standard rfl (fun c _ _ => hopens c) h
    · exact fun msg size h => .open_extended msg size rfl (fun c _ _ => hopens c) h
    · exact fun msg hpayload h => .update msg rfl (fun _ _ _ => hupdated msg hpayload) h
    · exact fun channel_id _ => .close channel_id
    · exact fun share _ => .prepare_share share
  refine (hdispatch fun plan hissued => hplans plan hissued.job_id hissued.next_job_id).then_same ?_
  unfold after_dispatch
  split
  · exact .refl _
  · exact ⟨rfl, rfl, rfl, rfl, le_rfl⟩

end Session

/-- The job ids of a channel after a change were there before, apart from one just committed. -/
theorem Change.job_ids {mask : UInt32} {ctx : PoolContext} {cause : Cause} {c c' : Channel}
    {messages : List Message} (h : Change mask ctx cause (some c) messages (some c')) :
    (c'.jobs.map Prod.fst).Sublist (c.jobs.map Prod.fst) ∨
      ∃ plan, cause.plans plan ∧ (c'.jobs.map Prod.fst).Sublist (c.jobs.map Prod.fst ++ [plan.job_id]) := by
  have hadded {c₁ : Channel} {plan : JobBuildPlan} {work : Work} {clean_job : Bool}
      (hcommit : Commit ctx cause c c₁ plan work clean_job) :
      ((Session.add_issued_job c₁ plan work clean_job).jobs.map Prod.fst).Sublist
        (c.jobs.map Prod.fst ++ [plan.job_id]) := by
    have hkept : ((if clean_job then [] else c₁.jobs) ++
        [(plan.job_id, Session.issued_job c₁ plan work clean_job)]).Sublist
          (c.jobs ++ [(plan.job_id, Session.issued_job c₁ plan work clean_job)]) := by
      refine Sublist.append ?_ (.refl _)
      rw [hcommit.touched.jobs]
      cases clean_job
      · exact .refl _
      · exact nil_sublist _
    have hevicted : ((Session.add_issued_job c₁ plan work clean_job).jobs.map Prod.fst).Sublist
        ((c.jobs ++ [(plan.job_id, Session.issued_job c₁ plan work clean_job)]).map Prod.fst) :=
      ((drop_sublist _ _).trans hkept).map Prod.fst
    rwa [map_append] at hevicted
  cases h with
  | touched ht => exact .inl (ht.jobs ▸ .refl _)
  | @retargeted _ c₁ target ht =>
    have hids : (Session.follow_target c₁ target).jobs.map Prod.fst = c.jobs.map Prod.fst := by
      simp only [Session.follow_target, map_map, ← ht.jobs]
      exact map_congr_left fun entry _ => rfl
    exact .inl (hids ▸ .refl _)
  | @committed _ _ plan _ clean_job _ hcommit =>
    refine .inr ⟨plan, hcommit.supplied, ?_⟩
    cases clean_job <;> exact hadded hcommit
  | @stranded _ _ plan _ _ _ hcommit => exact .inr ⟨plan, hcommit.supplied, hadded hcommit⟩

/-- The ids of the jobs of some channel, or none. -/
def Session.Held (s : Session) (ids : List UInt32) : Prop :=
  ids = [] ∨ ∃ c ∈ s.channels, ids = c.jobs.map Prod.fst

theorem Changes.held {ctx : PoolContext} {cause : Cause} {s s' : Session} (h : Changes ctx cause s s')
    (hnodup : (s'.channels.map Channel.id).Nodup) {ids' : List UInt32} (hheld : s'.Held ids') :
    ∃ ids, s.Held ids ∧ (ids'.Sublist ids ∨ ∃ plan, cause.plans plan ∧ ids'.Sublist (ids ++ [plan.job_id])) := by
  rcases hheld with rfl | ⟨c', hmem, rfl⟩
  · exact ⟨[], .inl rfl, .inl (.refl _)⟩
  obtain ⟨messages, -, hchange⟩ := h.channel c'.id
  rw [Server.find_of_mem hnodup hmem] at hchange
  cases hfind : s.find_channel c'.id with
  | some c =>
    rw [hfind] at hchange
    exact ⟨_, .inr ⟨c, mem_of_find?_eq_some hfind, rfl⟩, hchange.job_ids⟩
  | none =>
    rw [hfind] at hchange
    obtain ⟨c, rest, hfresh, -, hchange⟩ := hchange.source
    have hids := hchange.job_ids
    rw [hfresh.jobs] at hids
    exact ⟨[], .inl rfl, hids⟩

def Call.ids (call : Call) : List UInt32 := call.plans.map JobBuildPlan.job_id

/-- How many plans a call is about to prepare. -/
def Session.plans_prepared (config : Config) (s : Session) : Call → Nat
  | .publishing job _ => (s.prepare_publication config job).1.length
  | .refreshing job => if (s.prepare_refresh config job).isSome then 1 else 0
  | _ => 0

/-- The job ids that are taken when `n` were taken before. -/
def fresh_job_ids (n count : Nat) : List UInt32 := (range' n count).map nth_job_id

namespace Session

variable {config : Config} {ctx : PoolContext} {s s' : Session}

theorem Held.of_channels {ids : List UInt32} (h : s'.Held ids) (hchannels : s'.channels = s.channels) : s.Held ids := by
  rwa [Held, hchannels] at h

/-- A call that commits its first plan: the id goes from the call to a channel. -/
theorem held_commit {plan : JobBuildPlan} {plans : List JobBuildPlan} {left ids' : List UInt32}
    (hchanges : Changes ctx ⟨none, (· = plan), fun _ => False⟩ s s')
    (hnodup : (s'.channels.map Channel.id).Nodup) (hheld : s'.Held ids')
    (hleft : left.Sublist (plans.map JobBuildPlan.job_id)) :
    ∃ ids, s.Held ids ∧ (ids' ++ left).Subperm (ids ++ (plan :: plans).map JobBuildPlan.job_id) := by
  obtain ⟨ids, hids, hsub | ⟨committed, rfl, hsub⟩⟩ := hchanges.held hnodup hheld
  · exact ⟨ids, hids, (hsub.append (hleft.trans (sublist_cons_self _ _))).subperm⟩
  · refine ⟨ids, hids, ?_⟩
    rw [map_cons, append_cons]
    exact (hsub.append hleft).subperm

theorem resume_held {call : Call} {n : Nat} (hnext : s.next_job_id = nth_job_id n)
    (hplans : ∀ plan ∈ call.plans, plan.source_job = call.job ∧
      ∀ c, s.find_channel plan.channel_id = some c → plan.For c)
    (hnodup : ((s.resume_call config ctx call).1.channels.map Channel.id).Nodup) :
    (s.resume_call config ctx call).1.next_job_id = nth_job_id (n + s.plans_prepared config call) ∧
      ∀ ids', (s.resume_call config ctx call).1.Held ids' → ∃ ids, s.Held ids ∧
        (ids' ++ (s.resume_call config ctx call).2.toList.flatMap Call.ids).Subperm
          (ids ++ call.ids ++ fresh_job_ids n (s.plans_prepared config call)) := by
  have hended (ids more fresh : List UInt32) : (ids ++ []).Subperm (ids ++ more ++ fresh) := by
    rw [append_assoc]
    exact (Sublist.append (.refl ids) (nil_sublist _)).subperm
  cases call with
  | publishing job clean =>
    obtain ⟨hsame, -⟩ := s.prepare_publication_spec config job
    obtain ⟨hids, hnext'⟩ := prepare_publication_ids config job hnext
    simp only [resume_call, plans_prepared]
    split
    · rename_i hempty
      have hnone : s.prepare_publication config job = ([], s) := by
        rw [prepare_publication, List.isEmpty_iff.mp hempty, foldl_nil]
      rw [hnone]
      exact ⟨hnext, fun ids hheld => ⟨ids, hheld, hended ids _ _⟩⟩
    · refine ⟨hnext', fun ids hheld => ⟨ids, hheld.of_channels hsame.channels, ?_⟩⟩
      have hplanned : (some (Call.publish job clean (s.prepare_publication config job).1)).toList.flatMap Call.ids =
          fresh_job_ids n (s.prepare_publication config job).1.length := by
        rw [Option.toList_some, flatMap_singleton]
        exact hids
      rw [hplanned]
      exact (Sublist.append (sublist_append_left ids _) (.refl _)).subperm
  | publish job clean plans =>
    cases plans with
    | nil => exact ⟨hnext, fun ids hheld => ⟨ids, hheld, hended ids _ _⟩⟩
    | cons plan plans =>
      obtain ⟨hjob, hfor⟩ := hplans plan mem_cons_self
      have hchanges : Changes ctx ⟨none, (· = plan), fun _ => False⟩ s
          (s.commit_publication job clean plan ctx.steady_seconds).1 := .commit_publication hfor hjob rfl
      have hkept : (s.commit_publication job clean plan ctx.steady_seconds).1.next_job_id = s.next_job_id := by
        unfold commit_publication
        repeat' split
        all_goals first | rfl | exact next_job_id_commit ..
      have hleft (error : Option String) :
          ((error.elim (some (Call.publish job clean plans)) fun _ => none).toList.flatMap Call.ids).Sublist (plans.map JobBuildPlan.job_id) := by
        cases error with
        | none => simp [Call.ids, Call.plans]
        | some error => exact nil_sublist _
      have hresumed : s.resume_call config ctx (.publish job clean (plan :: plans)) =
          ((s.commit_publication job clean plan ctx.steady_seconds).1,
            (s.commit_publication job clean plan ctx.steady_seconds).2.elim
              (some (Call.publish job clean plans)) fun _ => none) := by
        simp only [resume_call]
        split <;> rename_i hcommitted <;> rw [hcommitted] <;> rfl
      rw [hresumed] at hnodup ⊢
      refine ⟨hkept.trans hnext, fun ids' hheld => ?_⟩
      obtain ⟨ids, hids, hsub⟩ := held_commit hchanges hnodup hheld (hleft _)
      exact ⟨ids, hids, hsub.trans (sublist_append_left _ _).subperm⟩
  | refreshing job =>
    simp only [resume_call, plans_prepared]
    cases hprepared : s.prepare_refresh config job with
    | none => exact ⟨hnext, fun ids hheld => ⟨ids, hheld, hended ids _ _⟩⟩
    | some prepared =>
      obtain ⟨plan, s'⟩ := prepared
      obtain ⟨hsame, -⟩ := prepare_refresh_spec hprepared
      obtain ⟨hid, hnext'⟩ : plan.job_id = nth_job_id n ∧ s'.next_job_id = nth_job_id (n + 1) := by
        simp only [prepare_refresh, Option.map_eq_some_iff] at hprepared
        obtain ⟨c, -, hprepared⟩ := hprepared
        have hid := job_id_prepare_job config s c job none
        have hnext' := next_job_id_prepare_job config s c job none
        rw [hprepared] at hid hnext'
        rw [hnext, following_nth_job_id] at hnext'
        exact ⟨hid.trans hnext, hnext'⟩
      refine ⟨hnext', fun ids hheld => ⟨ids, hheld.of_channels hsame.channels, ?_⟩⟩
      have hplanned : (some (Call.refresh job plan)).toList.flatMap Call.ids = fresh_job_ids n 1 := by
        rw [Option.toList_some, flatMap_singleton]
        exact congrArg (fun id => [id]) hid
      rw [hplanned]
      exact (Sublist.append (sublist_append_left ids _) (.refl _)).subperm
  | refresh job plan =>
    obtain ⟨hjob, hfor⟩ := hplans plan mem_cons_self
    have hchanges : Changes ctx ⟨none, (· = plan), fun _ => False⟩ s
        (s.commit_refresh job plan ctx.steady_seconds).1 := .commit_refresh hfor hjob rfl
    have hkept : (s.commit_refresh job plan ctx.steady_seconds).1.next_job_id = s.next_job_id := by
      unfold commit_refresh
      repeat' split
      all_goals first | rfl | exact next_job_id_commit ..
    refine ⟨hkept.trans hnext, fun ids' hheld => ?_⟩
    obtain ⟨ids, hids, hsub⟩ := held_commit hchanges hnodup hheld (nil_sublist ([].map JobBuildPlan.job_id))
    exact ⟨ids, hids, hsub.trans (sublist_append_left _ _).subperm⟩

end Session

namespace Server

/-- The job ids of the plans in flight. -/
def pending_ids (server : Server) : List UInt32 := server.calls.flatMap Call.ids

/-- The job ids a step takes: one when a frame issues a job, one for each plan prepared. -/
def allocations (config : Config) (server : Server) (action : PoolContext × Event) : Nat :=
  match action.2 with
  | .frame _ => if (step config server action).session.next_job_id = server.session.next_job_id then 0 else 1
  | .resume index => server.calls[index]?.elim 0 (server.session.plans_prepared config)
  | _ => 0

/-- The job ids taken in a whole run. -/
def allocated (config : Config) : Server → List (PoolContext × Event) → Nat
  | _, [] => 0
  | server, action :: actions =>
    allocations config server action + allocated config (step config server action) actions

/-- How job ids move in a step: those of a channel, with those in flight, were held or in
flight before, or are fresh. -/
def Flow (fresh : List UInt32) (server server' : Server) : Prop :=
  ∀ ids', server'.session.Held ids' → ∃ ids, server.session.Held ids ∧
    (ids' ++ server'.pending_ids).Subperm (ids ++ server.pending_ids ++ fresh)

variable {config : Config} {ctx : PoolContext} {server server' : Server}

/-- A step that commits no plan and adds none to those in flight. -/
theorem Flow.quiet {cause : Cause} (hchanges : Changes ctx cause server.session server'.session)
    (hnodup : (server'.session.channels.map Channel.id).Nodup) (hnone : ∀ plan, ¬ cause.plans plan)
    (hpending : server'.pending_ids.Sublist server.pending_ids) : Flow [] server server' := by
  intro ids' hheld
  obtain ⟨ids, hids, hsub | ⟨plan, hplan, -⟩⟩ := hchanges.held hnodup hheld
  · refine ⟨ids, hids, ?_⟩
    rw [append_nil]
    exact (hsub.append hpending).subperm
  · exact absurd hplan (hnone plan)

/-- A call is resumed: it is replaced by what is left of it. -/
theorem pending_resume {index : Nat} {call : Call} (hcall : server.calls[index]? = some call)
    (left : Option Call) : ∃ rest, server.pending_ids.Perm (call.ids ++ rest) ∧
      ((server.calls.take index ++ left.toList ++ server.calls.drop (index + 1)).flatMap Call.ids).Perm
        (left.toList.flatMap Call.ids ++ rest) := by
  have hsplit : server.calls = server.calls.take index ++ call :: server.calls.drop (index + 1) := by
    obtain ⟨hlt, hget⟩ := List.getElem?_eq_some_iff.mp hcall
    rw [← hget, getElem_cons_drop, take_append_drop]
  refine ⟨(server.calls.take index).flatMap Call.ids ++ (server.calls.drop (index + 1)).flatMap Call.ids, ?_, ?_⟩
  · conv_lhs => rw [pending_ids, hsplit, flatMap_append, flatMap_cons]
    exact perm_append_comm_assoc _ _ _
  · rw [flatMap_append, flatMap_append, append_assoc]
    exact perm_append_comm_assoc _ _ _

theorem flow_resume (hwf : server.WellFormed) {index n : Nat} (hnext : server.session.next_job_id = nth_job_id n) :
    (step config server (ctx, .resume index)).session.next_job_id =
        nth_job_id (n + allocations config server (ctx, .resume index)) ∧
      Flow (fresh_job_ids n (allocations config server (ctx, .resume index))) server
        (step config server (ctx, .resume index)) := by
  have hwf' : (step config server (ctx, .resume index)).WellFormed := hwf.step (ctx, .resume index)
  cases hcall : server.calls[index]? with
  | none =>
    have hnone : allocations config server (ctx, .resume index) = 0 := by simp [allocations, hcall]
    have hstep : step config server (ctx, .resume index) = server := by simp [step, hcall]
    rw [hnone, hstep]
    exact ⟨hnext, fun ids hheld => ⟨ids, hheld, (sublist_append_left _ _).subperm⟩⟩
  | some call =>
    have hcount : allocations config server (ctx, .resume index) = server.session.plans_prepared config call := by
      simp [allocations, hcall]
    have hstep : step config server (ctx, .resume index) = { server with
        session := (server.session.resume_call config ctx call).1
        calls := server.calls.take index ++ (server.session.resume_call config ctx call).2.toList ++
          server.calls.drop (index + 1) } := by
      simp [step, hcall]
    rw [hstep] at hwf'
    rw [hcount, hstep]
    have hmem : call ∈ server.calls := mem_of_getElem? hcall
    obtain ⟨hnext', hheld'⟩ := Session.resume_held hnext (fun plan hplan => (hwf.plans call hmem plan hplan).2) hwf'.nodup
    obtain ⟨rest, hbefore, hafter⟩ := pending_resume hcall (server.session.resume_call config ctx call).2
    refine ⟨hnext', fun ids' hheld => ?_⟩
    obtain ⟨ids, hids, hsub⟩ := hheld' ids' hheld
    refine ⟨ids, hids, ?_⟩
    generalize fresh_job_ids n (server.session.plans_prepared config call) = fresh at hsub ⊢
    have hleft := hafter.append_left ids'
    rw [← append_assoc] at hleft
    have hright : (ids ++ call.ids ++ fresh ++ rest).Perm (ids ++ server.pending_ids ++ fresh) := by
      have hbefore := (hbefore.symm.append_left ids).append_right fresh
      rw [append_assoc _ fresh rest]
      refine (perm_append_comm.append_left _).trans ?_
      rwa [← append_assoc, append_assoc ids]
    exact (hleft.subperm.trans ((subperm_append_right rest).mpr hsub)).trans hright.subperm

theorem flow_frame (hwf : server.WellFormed) (frame : Frame) {n : Nat}
    (hnext : server.session.next_job_id = nth_job_id n) :
    (step config server (ctx, .frame frame)).session.next_job_id =
        nth_job_id (n + allocations config server (ctx, .frame frame)) ∧
      Flow (fresh_job_ids n (allocations config server (ctx, .frame frame))) server
        (step config server (ctx, .frame frame)) := by
  have hwf' : (step config server (ctx, .frame frame)).WellFormed := hwf.step (ctx, .frame frame)
  simp only [allocations]
  cases hshare : server.share with
  | some share =>
    have hstep : step config server (ctx, .frame frame) = server := by simp [step, hshare]
    rw [hstep, if_pos rfl]
    exact ⟨hnext, fun ids hheld => ⟨ids, hheld, (sublist_append_left _ _).subperm⟩⟩
  | none =>
    have hpending : (step config server (ctx, .frame frame)).pending_ids = server.pending_ids := by
      simp [pending_ids, step, hshare]
    have hsession : (step config server (ctx, .frame frame)).session =
        Session.after_dispatch (server.session.dispatch_locked config ctx frame) := by
      simp [step, hshare]
    generalize step config server (ctx, .frame frame) = server' at hwf' hpending hsession ⊢
    have hchanges : Changes ctx ⟨(Event.frame frame).updated_channel, fun plan =>
        plan.job_id = server.session.next_job_id ∧
          server'.session.next_job_id = following_job_id server.session.next_job_id, fun _ => True⟩
        server.session server'.session := by
      rw [hsession]
      refine Session.frame_changes config ctx server.session frame (fun msg hpayload => ?_) (fun _ => trivial)
        (fun plan hid htaken => ⟨hid, htaken⟩)
      obtain ⟨extension_id, is_channel_message, payload⟩ := frame
      subst hpayload
      rfl
    have hone := Session.next_job_id_dispatch config ctx server.session frame
    rw [← hsession] at hone
    rcases hone with hkept | htaken
    · rw [if_pos hkept]
      refine ⟨hkept.trans hnext, .quiet hchanges hwf'.nodup (fun plan hplan => ?_) (hpending ▸ .refl _)⟩
      exact following_job_id_ne _ (hplan.2.symm.trans hkept)
    · have hne : ¬ server'.session.next_job_id = server.session.next_job_id := by
        rw [htaken]
        exact following_job_id_ne _
      rw [if_neg hne]
      refine ⟨by rw [htaken, hnext, following_nth_job_id], fun ids' hheld => ?_⟩
      have hfresh : fresh_job_ids n 1 = [server.session.next_job_id] := by rw [hnext]; rfl
      obtain ⟨ids, hids, hsub⟩ := hchanges.held hwf'.nodup hheld
      have hsub : ids'.Sublist (ids ++ [server.session.next_job_id]) := by
        rcases hsub with hsub | ⟨plan, hplan, hsub⟩
        · exact hsub.trans (sublist_append_left _ _)
        · rwa [← hplan.1]
      refine ⟨ids, hids, ?_⟩
      rw [hfresh, hpending, append_assoc]
      refine (hsub.append (.refl server.pending_ids)).subperm.trans ?_
      rw [append_assoc]
      exact (perm_append_comm.append_left ids).subperm

/-- Every step moves job ids from the calls in flight to the channels, or takes fresh ones. -/
theorem flow (config : Config) (ctx : PoolContext) (hwf : server.WellFormed) (event : Event) {n : Nat}
    (hnext : server.session.next_job_id = nth_job_id n) :
    (step config server (ctx, event)).session.next_job_id =
        nth_job_id (n + allocations config server (ctx, event)) ∧
      Flow (fresh_job_ids n (allocations config server (ctx, event))) server
        (step config server (ctx, event)) := by
  have hwf' : (step config server (ctx, event)).WellFormed := hwf.step (ctx, event)
  have hidle (hchanges : Changes ctx ⟨none, fun _ => False, fun _ => False⟩ server.session
        (step config server (ctx, event)).session)
      (hkept : (step config server (ctx, event)).session.next_job_id = server.session.next_job_id)
      (hpending : (step config server (ctx, event)).pending_ids = server.pending_ids) :
      (step config server (ctx, event)).session.next_job_id = nth_job_id (n + 0) ∧
        Flow (fresh_job_ids n 0) server (step config server (ctx, event)) :=
    ⟨hkept.trans hnext, .quiet hchanges hwf'.nodup (fun _ => id) (hpending ▸ .refl _)⟩
  cases event with
  | frame frame => exact flow_frame hwf frame hnext
  | finish_share =>
    refine hidle ?_ ?_ ?_ <;> simp only [step] <;> split
    · exact .same (.refl _)
    · exact .finish _ _
    · rfl
    · exact Session.next_job_id_finish_share _ _
    · rfl
    · rfl
  | deliver_blocks =>
    refine hidle ?_ ?_ ?_ <;> simp only [step] <;> split
    · exact .same (.refl _)
    · exact .same ⟨rfl, rfl, rfl, rfl, le_rfl⟩
    all_goals rfl
  | publish_job job_id clean =>
    refine hidle ?_ ?_ ?_ <;> simp only [step] <;> split
    · exact .same (.refl _)
    · exact .same (.refl _)
    · rfl
    · rfl
    · rfl
    · simp [pending_ids, Call.ids, Call.plans]
  | maybe_refresh_job =>
    refine hidle ?_ ?_ ?_ <;> simp only [step] <;> split
    · exact .same (.refl _)
    · exact .same (.refl _)
    · rfl
    · rfl
    · rfl
    · simp [pending_ids, Call.ids, Call.plans]
  | resume index => exact flow_resume hwf hnext
  | maybe_retarget =>
    refine hidle ?_ ?_ rfl <;> simp only [step, Session.maybe_retarget] <;> split
    · exact .same (.refl _)
    · exact .retarget_fold hwf.nodup (fun c hmem => find_of_mem hwf.nodup hmem)
    · rfl
    · exact Session.next_job_id_retarget _

end Server

end erikslund.sv2
