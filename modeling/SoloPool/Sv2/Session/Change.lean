import SoloPool.Sv2.Session.Run

namespace erikslund.sv2

open util stratum

/-- The channel whose announced state a message belongs to. -/
def Message.channel : Message → Option Nat
  | .open_standard_mining_channel_success _ channel_id _ _ _ => some channel_id
  | .open_extended_mining_channel_success _ channel_id _ _ _ _ => some channel_id
  | .new_mining_job job => some job.channel_id
  | .new_extended_mining_job job => some job.channel_id
  | .set_new_prev_hash msg => some msg.channel_id
  | Message.set_extranonce_prefix channel_id _ => some channel_id
  | .set_target channel_id _ => some channel_id
  | _ => none

/-- The messages about one channel, in the order they were sent. -/
def stream (channel_id : Nat) (messages : List Message) : List Message :=
  messages.filter (fun msg => msg.channel = some channel_id)

@[simp] theorem stream_append (channel_id : Nat) (as bs : List Message) :
    stream channel_id (as ++ bs) = stream channel_id as ++ stream channel_id bs :=
  List.filter_append ..

theorem stream_all {channel_id : Nat} {messages : List Message}
    (h : ∀ msg ∈ messages, msg.channel = some channel_id) : stream channel_id messages = messages :=
  List.filter_eq_self.mpr (fun msg hmem => decide_eq_true (h msg hmem))

theorem stream_none {channel_id : Nat} {messages : List Message}
    (h : ∀ msg ∈ messages, msg.channel ≠ some channel_id) : stream channel_id messages = [] :=
  List.filter_eq_nil_iff.mpr (fun msg hmem => by simpa using h msg hmem)

theorem stream_silent {messages : List Message} (h : ∀ msg ∈ messages, msg.channel = none)
    (channel_id : Nat) : stream channel_id messages = [] :=
  stream_none (fun msg hmem => by simp [h msg hmem])

/-- What stays of a channel when a step only keeps its own accounts on it. -/
structure Touched (c c' : Channel) : Prop where
  id : c'.id = c.id
  kind : c'.kind = c.kind
  payout_script : c'.payout_script = c.payout_script
  extranonce_prefix : c'.extranonce_prefix = c.extranonce_prefix
  extranonce_size : c'.extranonce_size = c.extranonce_size
  target : c'.target = c.target
  jobs : c'.jobs = c.jobs
  previous_hash : c'.previous_hash = c.previous_hash
  previous_bits : c'.previous_bits = c.previous_bits
  minimum_ntime : c'.previous_hash_minimum_ntime = c.previous_hash_minimum_ntime
  received_at : c'.previous_hash_received_at_steady = c.previous_hash_received_at_steady

theorem Touched.refl (c : Channel) : Touched c c := by
  constructor <;> rfl

/-- The channel's target is one the device can meet. -/
def Channel.WithinDevice (c : Channel) : Prop := c.target ≤ c.device_maximum_target

/-- A plan that still fits the channel it was prepared for. -/
structure JobBuildPlan.For (plan : JobBuildPlan) (c : Channel) : Prop where
  channel_id : plan.channel_id = c.id
  kind : plan.kind = c.kind
  payout_script : plan.payout_script = c.payout_script
  extended : c.kind = .Extended →
    plan.extranonce_prefix = c.extranonce_prefix ∧ plan.extranonce_size = c.extranonce_size
  standard : c.kind = .Standard → plan.extranonce_size = 0

/-- What a critical section may draw on: the channel an `UpdateChannel` names, the plans it
may commit and the channels it may open. -/
structure Cause where
  updated : Option Nat
  plans : JobBuildPlan → Prop
  opens : Channel → Prop

/-- What a commit does to the publication sequence of its channel. Publications and
refreshes are refused when the channel has seen newer work, and raise the mark. An
update of the channel leaves the mark alone. -/
def Sequenced (ctx : PoolContext) (cause : Cause) (c c₁ : Channel) (job : Job) : Prop :=
  ((job.publication_sequence ≠ 0 → c.last_publication_sequence ≤ job.publication_sequence) ∧
      c₁.last_publication_sequence = max c.last_publication_sequence job.publication_sequence) ∨
    (cause.updated = some c.id ∧ ctx.current_job = some job ∧
      c₁.last_publication_sequence = c.last_publication_sequence)

/-- A channel as `open_channel_locked` emplaces it. -/
structure Channel.Fresh (c : Channel) : Prop where
  jobs : c.jobs = []
  previous_hash : c.previous_hash = none
  within : c.WithinDevice

/-- The message that announces a fresh channel. -/
def Channel.AnnouncedBy (c : Channel) (msg : Message) : Prop :=
  match c.kind with
  | .Standard => ∃ request_id announced, msg =
      .open_standard_mining_channel_success request_id c.id c.target.le_bytes announced kGroupChannelId
  | .Extended => ∃ request_id, msg =
      .open_extended_mining_channel_success request_id c.id c.target.le_bytes c.extranonce_size
        c.extranonce_prefix kGroupChannelId

/-- A job on its way into a channel: `c₁` is the channel as the commit finds it, and
`clean_job` what the commit decides. -/
structure Commit (ctx : PoolContext) (cause : Cause) (c c₁ : Channel) (plan : JobBuildPlan)
    (work : Work) (clean_job : Bool) : Prop where
  touched : Touched c c₁
  within : c.WithinDevice → c₁.WithinDevice
  planned : plan.For c
  supplied : cause.plans plan
  built : Session.build_job_work plan = .ok work
  sequenced : Sequenced ctx cause c c₁ plan.source_job
  same_parent : clean_job = false → Session.requires_new_prevhash_locked c₁ plan.source_job = false

/-- The channel after a commit whose messages were sent. -/
def committed_channel (c : Channel) (plan : JobBuildPlan) (work : Work) (clean_job : Bool)
    (steady_seconds : ℚ) : Channel :=
  let c := Session.add_issued_job c plan work clean_job
  if clean_job then Session.set_previous_hash c plan.source_job steady_seconds else c

/-- Everything one critical section can do to one channel, with the messages it sends
about it. `stranded` is a commit whose announcement could not be encoded. -/
inductive Change (version_mask : UInt32) (ctx : PoolContext) (cause : Cause) :
    Option Channel → List Message → Option Channel → Prop
  | absent : Change version_mask ctx cause none [] none
  | touched {c c' : Channel} (htouched : Touched c c')
      (hsequence : c'.last_publication_sequence = c.last_publication_sequence)
      (hwithin : c.WithinDevice → c'.WithinDevice) :
      Change version_mask ctx cause (some c) [] (some c')
  | retargeted {c c₁ : Channel} {target : uint256} (htouched : Touched c c₁)
      (hsequence : c₁.last_publication_sequence = c.last_publication_sequence)
      (hwithin : target ≤ c₁.device_maximum_target) :
      Change version_mask ctx cause (some c) [.set_target c.id target.le_bytes]
        (some (Session.follow_target c₁ target))
  | closed {c : Channel} : Change version_mask ctx cause (some c) [] none
  | committed {c c₁ : Channel} {plan : JobBuildPlan} {work : Work} {clean_job : Bool}
      {messages : List Message} (hcommit : Commit ctx cause c c₁ plan work clean_job)
      (hmessages : Session.job_messages version_mask c₁ plan work clean_job = .ok messages) :
      Change version_mask ctx cause (some c) messages
        (some (committed_channel c₁ plan work clean_job ctx.steady_seconds))
  | stranded {c c₁ : Channel} {plan : JobBuildPlan} {work : Work} {clean_job : Bool} {error : String}
      (hcommit : Commit ctx cause c c₁ plan work clean_job)
      (herror : Session.job_messages version_mask c₁ plan work clean_job = .error error) :
      Change version_mask ctx cause (some c) [] (some (Session.add_issued_job c₁ plan work clean_job))
  | opened {c : Channel} {c' : Option Channel} {msg : Message} {messages : List Message}
      (hfresh : c.Fresh) (hopens : cause.opens c) (hannounced : c.AnnouncedBy msg)
      (hchange : Change version_mask ctx cause (some c) messages c') :
      Change version_mask ctx cause none (msg :: messages) c'

theorem Change.unchanged {version_mask : UInt32} {ctx : PoolContext} {cause : Cause}
    (c : Option Channel) : Change version_mask ctx cause c [] c := by
  cases c with
  | none => exact .absent
  | some c => exact .touched (.refl c) rfl id

end erikslund.sv2
