import SoloPool.Sv2.Session.Handlers

namespace erikslund.sv2

open util stratum List

/-- The answer a message gives to an open request: the id handed out, or a refusal. -/
def Message.open_answer : Message → Option (Option Nat)
  | .open_standard_mining_channel_success _ channel_id _ _ _ => some (some channel_id)
  | .open_extended_mining_channel_success _ channel_id _ _ _ _ => some (some channel_id)
  | .open_mining_channel_error _ _ => some none
  | _ => none

namespace Session

/-- The channel ids in use and the next one to hand out. -/
def ids (s : Session) : List Nat × Nat := (s.channels.map Channel.id, s.next_channel_id)

/-- The answers to open requests, oldest first. -/
def answers (s : Session) : List (Option Nat) := s.sent.filterMap Message.open_answer

/-- What only opening and closing channels changes. -/
def roll (s : Session) : (List Nat × Nat) × List (Option Nat) := (s.ids, s.answers)

variable {config : Config} {ctx : PoolContext} {s : Session}

@[simp] theorem roll_store (s : Session) (c : Channel) : (s.store_channel c).roll = s.roll := by
  simp only [roll, ids, answers, store_channel, map_map]
  congr 2
  refine map_congr_left (fun stored _ => ?_)
  by_cases hstored : stored.id = c.id <;> simp [hstored]

theorem roll_send (s : Session) {messages : List Message} (h : messages.filterMap Message.open_answer = []) :
    (s.send_locked messages).roll = s.roll := by
  simp only [roll, ids, answers, send_locked, filterMap_append, h, append_nil]

@[simp] theorem roll_protocol_error (s : Session) : s.protocol_error.roll = s.roll := rfl

@[simp] theorem roll_prepare_job (config : Config) (s : Session) (c : Channel) (job : Job) (announced : Option Bytes) :
    (s.prepare_job_locked config c job announced).2.roll = s.roll := by
  unfold prepare_job_locked
  cases c.kind <;> cases announced <;> rfl

@[simp] theorem roll_rotate (s : Session) (job : Job) :
    (s.rotate_share_history_for_clean_job_locked job).roll = s.roll := by
  unfold rotate_share_history_for_clean_job_locked
  split <;> rfl

/-- Announcing a job answers no open request. -/
theorem job_messages_answers {mask : UInt32} {c : Channel} {plan : JobBuildPlan} {work : Work} {clean_job : Bool}
    {messages : List Message} (h : job_messages mask c plan work clean_job = .ok messages) :
    messages.filterMap Message.open_answer = [] := by
  have hprevious : (previous_hash_messages c plan clean_job).filterMap Message.open_answer = [] := by
    cases clean_job <;> rfl
  rcases job_messages_ok h with ⟨standard, -, -, rfl⟩ | ⟨extended, -, -, rfl⟩
  · rw [filterMap_append, hprevious, append_nil]
    unfold standard_messages
    cases plan.announce_extranonce_prefix <;> rfl
  · rw [filterMap_cons_none rfl, hprevious]

@[simp] theorem roll_commit (s : Session) (c : Channel) (plan : JobBuildPlan) (work : Work) (clean : Bool) (now : ℚ) :
    (s.commit_job_locked c plan work clean now).1.roll = s.roll := by
  simp only [commit_job_locked]
  split
  · split <;> simp
  · rename_i messages hmessages
    rw [roll_send _ (job_messages_answers hmessages)]
    split <;> simp

@[simp] theorem roll_issue (config : Config) (s : Session) (c : Channel) (job : Job) (clean : Bool)
    (announced : Option Bytes) (now : ℚ) : (s.issue_job_locked config c job clean announced now).1.roll = s.roll := by
  simp only [issue_job_locked]
  split <;> simp

@[simp] theorem roll_change_target (s : Session) (c : Channel) (target : uint256) :
    (s.change_target_locked c target).roll = s.roll := by
  unfold change_target_locked
  rw [roll_send _ rfl, roll_store]

theorem roll_setup (s : Session) (msg : SetupConnection) : (s.handle_setup_locked msg).roll = s.roll := by
  simp only [handle_setup_locked]
  repeat' split
  all_goals exact roll_send s rfl

theorem roll_update (msg : UpdateChannel) :
    (s.handle_update_locked config ctx msg).1.roll = s.roll := by
  have hrefuse (code : String) :
      (s.protocol_error.send_locked [.update_channel_error msg.channel_id code]).roll = s.roll :=
    roll_send s.protocol_error rfl
  simp only [handle_update_locked]
  split
  · exact hrefuse _
  split
  · exact hrefuse _
  split
  · exact hrefuse _
  repeat' split
  all_goals simp

theorem roll_retarget (todo : List Channel) : (todo.foldl (retarget_channel ctx) s).roll = s.roll := by
  induction todo generalizing s with
  | nil => rfl
  | cons c rest ih =>
    rw [foldl_cons, ih]
    simp only [retarget_channel]
    repeat' split
    all_goals simp

theorem roll_reject (s : Session) (found : Option Channel) (share : ShareSubmission) (code : String) :
    (s.send_share_rejection_locked found share code).roll = s.roll := by
  cases found with
  | none => exact roll_send { s with shares_rejected := s.shares_rejected + 1 } rfl
  | some c =>
    simp only [send_share_rejection_locked]
    rw [roll_send _ rfl, roll_store]
    rfl

theorem roll_prepare_share (share : ShareSubmission) :
    (s.prepare_share_locked ctx share).1.roll = s.roll := by
  have hreject (s₁ : Session) (h : s₁.roll = s.roll) (found : Option Channel) (code : String) (reason : RejectClass) :
      (s₁.reject_share_locked found share code reason).roll = s.roll :=
    (roll_reject _ found share code).trans h
  have hseen : (s.remember_share_locked share.key).2.roll = s.roll := rfl
  unfold prepare_share_locked
  split
  · exact hreject s.protocol_error rfl none _ _
  split
  · exact hreject s.protocol_error rfl _ _ _
  split
  · exact hreject s rfl _ _ _
  split
  · exact hreject s rfl _ _ _
  dsimp only
  split
  · exact hreject _ hseen _ _ _
  split
  · exact hreject _ hseen _ _ _
  · exact hseen

theorem roll_finish_share (share : ShareSubmission) (prepared : PreparedShare) :
    (s.finish_share ctx share prepared).roll = s.roll := by
  unfold finish_share
  cases validate_share share prepared ctx.time with
  | error rejection => exact roll_reject _ _ share _
  | ok result =>
    dsimp only
    cases s.find_channel share.channel_id with
    | none => split <;> exact roll_send { s with shares_accepted := s.shares_accepted + 1 } rfl
    | some c => split <;> exact (roll_send _ rfl).trans (roll_store _ _)

/-- How a critical section treats channels as a whole: it may drop some, refuse to open one, or
open the next one. -/
inductive RollStep (s s' : Session) : Prop where
  | kept (hanswers : s'.answers = s.answers) (hnext : s'.next_channel_id = s.next_channel_id)
      (hids : (s'.channels.map Channel.id).Sublist (s.channels.map Channel.id))
  | refused (hanswers : s'.answers = s.answers ++ [none]) (hchannels : s'.channels = s.channels)
      (hnext : s'.next_channel_id = s.next_channel_id) (hcounter : s'.extranonce_counter = s.extranonce_counter)
      (hseen : s'.seen_shares = s.seen_shares)
  | opened (hroll : s'.roll = ((s.channels.map Channel.id ++ [s.next_channel_id], s.next_channel_id + 1),
        s.answers ++ [some s.next_channel_id]))
      (hid : s.next_channel_id ≤ kMaximumChannelId) (hroom : s.channels.length < kMaximumActiveChannels)

theorem RollStep.of_eq {s s' : Session} (h : s'.roll = s.roll) : RollStep s s' := by
  obtain ⟨hids, hanswers⟩ := Prod.mk.inj h
  obtain ⟨hids, hnext⟩ := Prod.mk.inj hids
  exact .kept hanswers hnext (hids ▸ .refl _)

theorem RollStep.admitted {request_id : UInt32} {c : Channel} {job : Job} (hid : c.id = s.next_channel_id)
    (hlimit : s.next_channel_id ≤ kMaximumChannelId) (hroom : s.channels.length < kMaximumActiveChannels) :
    RollStep s (s.admit_channel config ctx request_id c job).1 := by
  unfold admit_channel
  split
  · exact .of_eq rfl
  · refine .opened ?_ hlimit hroom
    cases hkind : c.kind with
    | Standard =>
      simp only [roll_issue]
      simp [roll, ids, answers, emplace_channel, allocate_extranonce_prefix_locked, send_locked, Message.open_answer,
        filterMap_append, hid]
    | Extended =>
      simp only [roll_issue]
      simp [roll, ids, answers, emplace_channel, send_locked, Message.open_answer, filterMap_append, hid]

/-- An open is refused and changes nothing, or hands out the next id. -/
theorem RollStep.open_channel (msg : OpenMiningChannel) (kind : ChannelKind) :
    RollStep s (s.open_channel_locked config ctx msg kind).1 := by
  have hrefused {s' : Session} (code : String) (hsent : s'.sent = s.sent ++ [.open_mining_channel_error msg.request_id code])
      (hchannels : s'.channels = s.channels) (hnext : s'.next_channel_id = s.next_channel_id)
      (hcounter : s'.extranonce_counter = s.extranonce_counter) (hseen : s'.seen_shares = s.seen_shares) :
      RollStep s s' := by
    refine .refused ?_ hchannels hnext hcounter hseen
    rw [answers, hsent, filterMap_append]
    rfl
  simp only [open_channel_locked]
  split
  · exact hrefused _ rfl rfl rfl rfl rfl
  rename_i hid
  split
  · exact hrefused _ rfl rfl rfl rfl rfl
  rename_i hlimit
  split
  · exact hrefused _ rfl rfl rfl rfl rfl
  split
  · exact hrefused _ rfl rfl rfl rfl rfl
  split
  · exact hrefused _ rfl rfl rfl rfl rfl
  split
  · exact hrefused _ rfl rfl rfl rfl rfl
  · refine .admitted rfl (not_lt.mp hid) ?_
    cases kind with
    | Standard =>
      have hempty : s.channels = [] := by simpa using hlimit
      simp [hempty, kMaximumActiveChannels]
    | Extended =>
      simp only [reduceCtorEq, false_and, true_and, false_or, not_or, not_le] at hlimit
      exact hlimit.2

theorem RollStep.open_extended (msg : OpenMiningChannel) (minimum_extranonce_size : Nat) :
    RollStep s (s.handle_open_extended_locked config ctx msg minimum_extranonce_size).1 := by
  have hrefused (code : String) :
      RollStep s (s.protocol_error.send_locked [.open_mining_channel_error msg.request_id code]) := by
    refine .refused ?_ rfl rfl rfl rfl
    simp [answers, send_locked, protocol_error, filterMap_append, Message.open_answer]
  unfold handle_open_extended_locked
  split
  · exact hrefused _
  split
  · exact hrefused _
  · exact .open_channel msg .Extended

theorem RollStep.close (channel_id : Nat) : RollStep s (s.handle_close_locked channel_id) := by
  unfold handle_close_locked
  repeat' split
  · exact .of_eq rfl
  · exact .kept rfl rfl (nil_sublist _)
  · exact .kept rfl rfl (filter_sublist.map _)
  · exact .of_eq rfl

/-- How a critical section treats the ids: it may drop some, or hand out the next one. -/
def IdsStep (s s' : Session) : Prop :=
  (s'.next_channel_id = s.next_channel_id ∧
      (s'.channels.map Channel.id).Sublist (s.channels.map Channel.id)) ∨
    s'.ids = (s.channels.map Channel.id ++ [s.next_channel_id], s.next_channel_id + 1)

theorem RollStep.ids {s s' : Session} (h : RollStep s s') : IdsStep s s' := by
  cases h with
  | kept _ hnext hids => exact .inl ⟨hnext, hids⟩
  | refused _ hchannels hnext => exact .inl ⟨hnext, hchannels ▸ .refl _⟩
  | opened hroll => exact .inr (Prod.mk.inj hroll).1

end Session

end erikslund.sv2
