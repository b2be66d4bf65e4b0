import SoloPool.Sv2.Session.Changes

namespace erikslund.sv2

open util stratum List

/-- The next job id once `job_id` is taken. Zero is skipped. -/
def following_job_id (job_id : UInt32) : UInt32 := if job_id + 1 = 0 then 1 else job_id + 1

theorem following_job_id_ne (job_id : UInt32) : following_job_id job_id ≠ job_id := by
  unfold following_job_id
  split
  · rename_i hwrapped
    intro h
    rw [← h] at hwrapped
    cases hwrapped
  · simp

namespace Session

theorem job_messages_ok {mask : UInt32} {c : Channel} {plan : JobBuildPlan} {work : Work} {clean_job : Bool}
    {messages : List Message} (h : job_messages mask c plan work clean_job = .ok messages) :
    (∃ standard, c.kind = .Standard ∧ work = .standard standard ∧
      messages = standard_messages c plan standard clean_job ++ previous_hash_messages c plan clean_job) ∨
    (∃ extended, c.kind = .Extended ∧ work = .extended extended ∧
      messages = .new_extended_mining_job (extended_message mask c plan extended clean_job) ::
        previous_hash_messages c plan clean_job) := by
  cases hkind : c.kind <;> cases work with
  | standard standard => simp_all [job_messages]
  | extended extended =>
    simp only [job_messages, hkind] at h
    first
    | cases h
    | split at h
      · cases h
      · exact .inr ⟨extended, rfl, rfl, (Except.ok.inj h).symm⟩

variable (config : Config) (s : Session) (c : Channel) (plan : JobBuildPlan) (job : Job)
  (clean : Bool)

theorem previous_hash_messages_channel (clean_job : Bool) :
    ∀ msg ∈ previous_hash_messages c plan clean_job, msg.channel = some c.id := by
  cases clean_job <;> simp [previous_hash_messages, Message.channel]

theorem job_messages_channel {mask : UInt32} {c : Channel} {plan : JobBuildPlan} {work : Work} {clean_job : Bool}
    {messages : List Message} (h : job_messages mask c plan work clean_job = .ok messages) :
    ∀ msg ∈ messages, msg.channel = some c.id := by
  have hprevious := previous_hash_messages_channel c plan clean_job
  rcases job_messages_ok h with ⟨standard, -, -, rfl⟩ | ⟨extended, -, -, rfl⟩ <;> intro msg hmem
  · rcases mem_append.mp hmem with hmem | hmem
    · cases hannounce : plan.announce_extranonce_prefix <;> simp [standard_messages, hannounce] at hmem <;>
        rcases hmem with rfl | rfl <;> rfl
    · exact hprevious msg hmem
  · rcases mem_cons.mp hmem with rfl | hmem
    · rfl
    · exact hprevious msg hmem

theorem rotate_same : SameView s (s.rotate_share_history_for_clean_job_locked job) := by
  unfold rotate_share_history_for_clean_job_locked
  split <;> exact ⟨rfl, rfl, rfl, rfl, le_rfl⟩

theorem prepare_job_same (announced : Option Bytes) :
    SameView s (s.prepare_job_locked config c job announced).2 := by
  unfold prepare_job_locked
  cases c.kind <;> cases announced <;> exact ⟨rfl, rfl, rfl, rfl, by simp [allocate_extranonce_prefix_locked, allocate_job_id_locked]⟩

/-- A freshly prepared plan fits its channel. -/
theorem prepare_job_for (announced : Option Bytes) :
    (s.prepare_job_locked config c job announced).1.For c ∧
      (s.prepare_job_locked config c job announced).1.source_job = job := by
  unfold prepare_job_locked
  cases hkind : c.kind <;> cases announced <;> refine ⟨⟨rfl, ?_, rfl, ?_, ?_⟩, rfl⟩ <;> simp [hkind]

theorem counter_commit (work : Work) (clean : Bool) (now : ℚ) :
    (s.commit_job_locked c plan work clean now).1.extranonce_counter = s.extranonce_counter := by
  have hrotate : (s.rotate_share_history_for_clean_job_locked plan.source_job).extranonce_counter =
      s.extranonce_counter := by
    unfold rotate_share_history_for_clean_job_locked
    split <;> rfl
  simp only [commit_job_locked]
  cases clean || requires_new_prevhash_locked c plan.source_job
  · split <;> rfl
  · split <;> exact hrotate

theorem counter_issue (announced : Option Bytes) (now : ℚ) :
    (s.issue_job_locked config c job clean announced now).1.extranonce_counter =
      (s.prepare_job_locked config c job announced).2.extranonce_counter := by
  unfold issue_job_locked
  dsimp only
  split
  · rfl
  · exact counter_commit ..

theorem job_id_prepare_job (announced : Option Bytes) :
    (s.prepare_job_locked config c job announced).1.job_id = s.next_job_id := by
  unfold prepare_job_locked
  cases c.kind <;> cases announced <;> rfl

theorem next_job_id_prepare_job (announced : Option Bytes) :
    (s.prepare_job_locked config c job announced).2.next_job_id = following_job_id s.next_job_id := by
  unfold prepare_job_locked
  cases c.kind <;> cases announced <;> rfl

theorem next_job_id_commit (work : Work) (clean : Bool) (now : ℚ) :
    (s.commit_job_locked c plan work clean now).1.next_job_id = s.next_job_id := by
  have hrotate (job : Job) : (s.rotate_share_history_for_clean_job_locked job).next_job_id = s.next_job_id := by
    unfold rotate_share_history_for_clean_job_locked
    split <;> rfl
  simp only [commit_job_locked]
  split <;> split <;> first | exact hrotate _ | rfl

theorem next_job_id_issue (announced : Option Bytes) (now : ℚ) :
    (s.issue_job_locked config c job clean announced now).1.next_job_id = following_job_id s.next_job_id := by
  simp only [issue_job_locked]
  split
  · exact next_job_id_prepare_job ..
  · rw [next_job_id_commit]
    exact next_job_id_prepare_job ..

/-- Issuing a job takes an id. -/
theorem next_job_id_issue_ne (announced : Option Bytes) (now : ℚ) :
    (s.issue_job_locked config c job clean announced now).1.next_job_id ≠ s.next_job_id := by
  rw [next_job_id_issue]
  exact following_job_id_ne _

/-- The rule for the loop that prepares a publication: one plan at a time, for channels of the
session it started from. -/
theorem prepare_publication_rule {config : Config} {s₀ : Session} {job : Job}
    {motive : List JobBuildPlan × Session → Prop} (hinit : motive ([], s₀))
    (hplan : ∀ plans s, ∀ c ∈ s₀.channels, motive (plans, s) →
      motive (plans ++ [(s.prepare_job_locked config c job none).1], (s.prepare_job_locked config c job none).2)) :
    motive (s₀.prepare_publication config job) := by
  have hloop (todo : List Channel) (htodo : ∀ c ∈ todo, c ∈ s₀.channels) (prepared : List JobBuildPlan × Session)
      (h : motive prepared) : motive (todo.foldl (fun prepared channel =>
        if job.publication_sequence ≠ 0 ∧ job.publication_sequence ≤ channel.last_publication_sequence then
          prepared
        else
          (prepared.1 ++ [(prepared.2.prepare_job_locked config channel job none).1],
            (prepared.2.prepare_job_locked config channel job none).2)) prepared) := by
    induction todo generalizing prepared with
    | nil => exact h
    | cons c rest ih =>
      have hrest : ∀ c ∈ rest, c ∈ s₀.channels := fun c hmem => htodo c (mem_cons_of_mem _ hmem)
      rw [foldl_cons]
      split
      · exact ih hrest prepared h
      · exact ih hrest _ (hplan prepared.1 prepared.2 c (htodo c mem_cons_self) h)
  exact hloop s₀.channels (fun _ h => h) ([], s₀) hinit

end Session

/-- The prefix of a plan for a Standard channel was drawn between `s` and `s'`. -/
def JobBuildPlan.Allocated (config : Config) (s s' : Session) (plan : JobBuildPlan) : Prop :=
  plan.kind = .Standard → ∃ number, s.extranonce_counter < number ∧ number ≤ s'.extranonce_counter ∧
    plan.extranonce_prefix = s.extranonce1 ++ Radix.be config.extranonce2_size number

theorem JobBuildPlan.Allocated.widen {config : Config} {s₀ s s' s₁ : Session} {plan : JobBuildPlan}
    (h : plan.Allocated config s s') (hbefore : Carried s₀ s) (hafter : Carried s' s₁) :
    plan.Allocated config s₀ s₁ := by
  intro hkind
  obtain ⟨number, hlower, hupper, hbytes⟩ := h hkind
  rw [hbefore.extranonce1] at hbytes
  exact ⟨number, hbefore.extranonce_counter.trans_lt hlower, hupper.trans hafter.extranonce_counter, hbytes⟩

theorem Session.prepare_job_allocated (config : Config) (s : Session) (c : Channel) (job : Job) :
    (s.prepare_job_locked config c job none).1.Allocated config s (s.prepare_job_locked config c job none).2 := by
  intro hkind
  rw [((s.prepare_job_for config c job none).1.kind)] at hkind
  refine ⟨s.extranonce_counter + 1, Nat.lt_succ_self _, ?_, ?_⟩ <;>
    simp [prepare_job_locked, hkind, allocate_job_id_locked, allocate_extranonce_prefix_locked]

/-- A plan made for the current job and committed in the critical section from `s` to `s'`. -/
structure JobBuildPlan.Issued (config : Config) (ctx : PoolContext) (s s' : Session) (plan : JobBuildPlan) :
    Prop where
  allocated : plan.Allocated config s s'
  current : ctx.current_job = some plan.source_job
  job_id : plan.job_id = s.next_job_id
  next_job_id : s'.next_job_id = following_job_id s.next_job_id

theorem JobBuildPlan.For.of_touched {plan : JobBuildPlan} {c c₁ : Channel} (htouched : Touched c c₁)
    (hplan : plan.For c₁) : plan.For c := by
  refine ⟨hplan.channel_id.trans htouched.id, hplan.kind.trans htouched.kind,
    hplan.payout_script.trans htouched.payout_script, fun hkind => ?_, fun hkind => ?_⟩
  · obtain ⟨hbytes, hsize⟩ := hplan.extended (htouched.kind.trans hkind)
    exact ⟨hbytes.trans htouched.extranonce_prefix, hsize.trans htouched.extranonce_size⟩
  · exact hplan.standard (htouched.kind.trans hkind)

/-- `s₁` is `s` with the entry of one channel possibly rewritten already. -/
structure Staged (channel_id : Nat) (s s₁ : Session) : Prop where
  stores : ∀ c, c.id = channel_id → (s₁.store_channel c).channels = (s.store_channel c).channels
  sent : s₁.sent = s.sent
  carried : Carried s s₁

theorem SameView.staged {s s₁ : Session} (h : SameView s s₁) (channel_id : Nat) : Staged channel_id s s₁ :=
  ⟨fun c _ => by simp only [Session.store_channel, h.channels], h.sent, h.carried⟩

theorem Staged.then_same {channel_id : Nat} {s s₁ s₂ : Session} (h : Staged channel_id s s₁)
    (hsame : SameView s₁ s₂) : Staged channel_id s s₂ := by
  refine ⟨fun c hid => ?_, hsame.sent.trans h.sent, h.carried.trans hsame.carried⟩
  rw [← h.stores c hid]
  simp only [Session.store_channel, hsame.channels]

theorem Session.store_staged (s : Session) (c : Channel) : Staged c.id s (s.store_channel c) := by
  refine ⟨fun c' hid => ?_, rfl, rfl, rfl, le_rfl⟩
  simp only [Session.store_channel, map_map]
  refine map_congr_left (fun stored _ => ?_)
  by_cases hstored : stored.id = c.id <;> simp [hstored, hid]

namespace Changes

variable {ctx : PoolContext} {cause : Cause} {s s₁ : Session} {c c₁ : Channel}
  {plan : JobBuildPlan} {work : Work}

theorem commit {clean : Bool} (hfind : s.find_channel c.id = some c) (hstaged : Staged c.id s s₁)
    (htouched : Touched c c₁) (hwithin : c.WithinDevice → c₁.WithinDevice) (hplan : plan.For c)
    (hsupplied : cause.plans plan) (hwork : Session.build_job_work plan = .ok work)
    (hsequenced : Sequenced ctx cause c c₁ plan.source_job) :
    Changes ctx cause s (s₁.commit_job_locked c₁ plan work clean ctx.steady_seconds).1 := by
  generalize hclean : (clean || Session.requires_new_prevhash_locked c₁ plan.source_job) = clean_job
  have hcommit : Commit ctx cause c c₁ plan work clean_job := by
    refine ⟨htouched, hwithin, hplan, hsupplied, hwork, hsequenced, fun hfalse => ?_⟩
    rw [hfalse] at hclean
    exact (Bool.or_eq_false_iff.mp hclean).2
  have hsame : SameView s₁
      (if clean_job then s₁.rotate_share_history_for_clean_job_locked plan.source_job else s₁) := by
    split
    · exact s₁.rotate_same _
    · exact .refl s₁
  simp only [Session.commit_job_locked, hclean]
  generalize (if clean_job then s₁.rotate_share_history_for_clean_job_locked plan.source_job else s₁) = s₂
    at hsame ⊢
  have hstaged₂ := hstaged.then_same hsame
  have hview : Session.job_messages s₂.version_mask (Session.add_issued_job c₁ plan work clean_job) plan work
      clean_job = Session.job_messages s.version_mask c₁ plan work clean_job := by
    rw [hstaged₂.carried.version_mask]
    rfl
  rw [hview]
  cases hmessages : Session.job_messages s.version_mask c₁ plan work clean_job with
  | error error =>
    have hid : (Session.add_issued_job c₁ plan work clean_job).id = c.id := htouched.id
    exact stored hfind hid (hstaged₂.stores _ hid) (hstaged₂.sent.trans (append_nil _).symm) (by simp)
      (.stranded hcommit hmessages) (hstaged₂.carried.trans ⟨rfl, rfl, le_rfl⟩)
  | ok messages =>
    have hchannel : ∀ msg ∈ messages, msg.channel = some c.id := by
      rw [← htouched.id]
      exact Session.job_messages_channel hmessages
    have hid : (committed_channel c₁ plan work clean_job ctx.steady_seconds).id = c.id := by
      unfold committed_channel
      split <;> exact htouched.id
    refine stored hfind hid (hstaged₂.stores _ hid) (congrArg (· ++ messages) hstaged₂.sent)
      (fun msg hmem => .inl (hchannel msg hmem)) ?_ (hstaged₂.carried.trans ⟨rfl, rfl, le_rfl⟩)
    rw [stream_all hchannel]
    exact .committed hcommit hmessages

/-- Prepare, build and commit in one critical section. -/
theorem issue {config : Config} {job : Job} {clean : Bool} {announced : Option Bytes}
    (hfind : s.find_channel c.id = some c) (hstaged : Staged c.id s s₁)
    (hbase : Changes ctx cause s s₁) (htouched : Touched c c₁)
    (hwithin : c.WithinDevice → c₁.WithinDevice)
    (hsupplied : cause.plans (s₁.prepare_job_locked config c₁ job announced).1)
    (hsequenced : Sequenced ctx cause c c₁ job) :
    Changes ctx cause s
      (s₁.issue_job_locked config c₁ job clean announced ctx.steady_seconds).1 := by
  obtain ⟨hplan, hjob⟩ := s₁.prepare_job_for config c₁ job announced
  have hsame := s₁.prepare_job_same config c₁ job announced
  unfold Session.issue_job_locked
  generalize s₁.prepare_job_locked config c₁ job announced = prepared at hplan hjob hsame hsupplied ⊢
  obtain ⟨plan, s₂⟩ := prepared
  dsimp only at hplan hjob hsame hsupplied ⊢
  cases hwork : Session.build_job_work plan with
  | error error => exact hbase.then_same hsame
  | ok work =>
    subst hjob
    exact commit hfind (hstaged.then_same hsame) htouched hwithin (.of_touched htouched hplan) hsupplied hwork
      hsequenced

end Changes

end erikslund.sv2
