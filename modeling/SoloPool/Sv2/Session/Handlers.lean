import SoloPool.Sv2.Session.Steps

namespace erikslund.sv2.Changes

open util stratum Session List

variable {ctx : PoolContext} {cause : Cause} {config : Config} {s : Session}

theorem answered {s' : Session} {msg : Message} (hchannels : s'.channels = s.channels)
    (hsent : s'.sent = s.sent ++ [msg]) (hnone : msg.channel = none) (hcarried : Carried s s') :
    Changes ctx cause s s' :=
  quiet hchannels hsent (by simp [hnone]) hcarried

theorem setup (msg : SetupConnection) : Changes ctx cause s (s.handle_setup_locked msg) := by
  unfold handle_setup_locked
  dsimp only
  repeat' split
  all_goals exact answered rfl rfl rfl ⟨rfl, rfl, le_rfl⟩

theorem opened_fresh (msg : OpenMiningChannel) (rate : ℚ) (kind : ChannelKind) (address worker : Text)
    (payout_script : Bytes) (job : Job) :
    (s.opened_channel config ctx msg rate kind address worker payout_script job).Fresh :=
  ⟨rfl, rfl, uint256.min_le_right _ _⟩

theorem admitted {request_id : UInt32} {c : Channel} {job : Job} (hfresh : c.Fresh)
    (hsequence : c.last_publication_sequence = job.publication_sequence) (hcurrent : ctx.current_job = some job)
    (hopens : cause.opens c)
    (hplans : ∀ plan : JobBuildPlan, plan.Issued config ctx s (s.admit_channel config ctx request_id c job).1 →
      cause.plans plan) :
    Changes ctx cause s (s.admit_channel config ctx request_id c job).1 := by
  have hsequenced : Sequenced ctx cause c c job := .inl ⟨fun _ => hsequence.le, by rw [hsequence, max_self]⟩
  unfold admit_channel at hplans ⊢
  by_cases hcollision : s.channels.any (fun stored => stored.id = c.id)
  · simp only [hcollision, if_true]
    exact same (.refl s)
  · simp only [hcollision, Bool.false_eq_true, if_false] at hplans ⊢
    have habsent : s.find_channel c.id = none := by
      simpa [find_channel] using hcollision
    have hopen (s₁ : Session) (msg : Message) (announced : Option Bytes)
        (hchannels : s₁.channels = s.channels ++ [c]) (hsent : s₁.sent = s.sent ++ [msg])
        (hcarried : Carried s s₁) (hannounced : c.AnnouncedBy msg)
        (hsupplied : cause.plans (s₁.prepare_job_locked config c job announced).1) :
        Changes ctx cause s
          (s₁.issue_job_locked config c job true announced ctx.steady_seconds).1 := by
      have hfind : s₁.find_channel c.id = some c := by
        simp only [find_channel] at habsent ⊢
        simp [hchannels, habsent]
      refine opened hfresh hopens hannounced habsent hchannels hsent hcarried ?_
      exact issue hfind (SameView.staged (.refl s₁) _) (same (.refl s₁)) (.refl c) id hsupplied hsequenced
    cases hkind : c.kind with
    | Standard =>
      simp only [hkind] at hplans
      refine hopen _ _ _ rfl rfl ⟨rfl, rfl, Nat.le_succ _⟩ (by simp [Channel.AnnouncedBy, hkind])
        (hplans _ ⟨?_, by rw [hcurrent, (prepare_job_for ..).2], job_id_prepare_job .., next_job_id_issue ..⟩)
      refine fun _ => ⟨s.extranonce_counter + 1, Nat.lt_succ_self _, ?_, ?_⟩
      · rw [counter_issue]
        refine Nat.le_trans ?_ (prepare_job_same ..).carried.extranonce_counter
        exact le_rfl
      · simp [prepare_job_locked, hkind, emplace_channel, allocate_extranonce_prefix_locked]
    | Extended =>
      simp only [hkind] at hplans
      refine hopen _ _ _ rfl rfl ⟨rfl, rfl, le_rfl⟩ (by simp [Channel.AnnouncedBy, hkind])
        (hplans _ ⟨?_, by rw [hcurrent, (prepare_job_for ..).2], job_id_prepare_job .., next_job_id_issue ..⟩)
      intro hstandard
      rw [(prepare_job_for ..).1.kind, hkind] at hstandard
      cases hstandard

/-- What `open_channel_locked` has checked of the channel it opens, and what the channel
reserves: a Standard channel is alone, and an Extended one owns the two bytes of its id. -/
structure Admissible (config : Config) (s : Session) (c : Channel) : Prop where
  id_le : c.id ≤ kMaximumChannelId
  alone : c.kind = .Standard → s.channels = []
  no_standard : c.kind = .Extended → ∀ other ∈ s.channels, other.kind = .Extended
  reserved : c.kind = .Extended → c.extranonce_size = config.extranonce2_size - kChannelDiscriminatorBytes ∧
    c.extranonce_prefix = s.extranonce1 ++ Radix.be kChannelDiscriminatorBytes c.id

/-- The channel's mark is the sequence of the current job. -/
def Current (ctx : PoolContext) (c : Channel) : Prop :=
  ∃ job, ctx.current_job = some job ∧ c.last_publication_sequence = job.publication_sequence

theorem open_channel {s' : Session} (msg : OpenMiningChannel) (kind : ChannelKind)
    (hresult : (s.open_channel_locked config ctx msg kind).1 = s')
    (hopens : ∀ c, Admissible config s c → Current ctx c → cause.opens c)
    (hplans : ∀ plan : JobBuildPlan, plan.Issued config ctx s s' → cause.plans plan) :
    Changes ctx cause s s' := by
  simp only [open_channel_locked] at hresult
  split at hresult
  · subst hresult
    exact answered rfl rfl rfl ⟨rfl, rfl, le_rfl⟩
  rename_i hid
  split at hresult
  · subst hresult
    exact answered rfl rfl rfl ⟨rfl, rfl, le_rfl⟩
  rename_i hlimit
  split at hresult
  · subst hresult
    exact answered rfl rfl rfl ⟨rfl, rfl, le_rfl⟩
  split at hresult
  · subst hresult
    exact answered rfl rfl rfl ⟨rfl, rfl, le_rfl⟩
  split at hresult
  · subst hresult
    exact answered rfl rfl rfl ⟨rfl, rfl, le_rfl⟩
  split at hresult
  · subst hresult
    exact answered rfl rfl rfl ⟨rfl, rfl, le_rfl⟩
  · rename_i current_job hcurrent
    subst hresult
    refine admitted (opened_fresh ..) rfl hcurrent
      (hopens _ ⟨not_lt.mp hid, fun hkind => ?_, fun hkind => ?_, ?_⟩ ⟨current_job, hcurrent, rfl⟩) hplans
    · cases (hkind : kind = .Standard)
      simpa using hlimit
    · cases (hkind : kind = .Extended)
      simp only [reduceCtorEq, false_and, true_and, false_or, not_or, any_eq_true, decide_eq_true_eq,
        not_exists, not_and] at hlimit
      intro other hmem
      cases hother : other.kind with
      | Standard => exact absurd hother (hlimit.1 other hmem)
      | Extended => rfl
    · intro hkind
      cases (hkind : kind = .Extended)
      exact ⟨rfl, rfl⟩

theorem open_extended {s' : Session} (msg : OpenMiningChannel) (minimum_extranonce_size : Nat)
    (hresult : (s.handle_open_extended_locked config ctx msg minimum_extranonce_size).1 = s')
    (hopens : ∀ c, Admissible config s c → Current ctx c → cause.opens c)
    (hplans : ∀ plan : JobBuildPlan, plan.Issued config ctx s s' → cause.plans plan) :
    Changes ctx cause s s' := by
  unfold handle_open_extended_locked at hresult
  split at hresult
  · subst hresult
    exact answered rfl rfl rfl ⟨rfl, rfl, le_rfl⟩
  split at hresult
  · subst hresult
    exact answered rfl rfl rfl ⟨rfl, rfl, le_rfl⟩
  · exact open_channel msg .Extended hresult hopens hplans

/-- `change_target_locked` on a channel that may have been touched in the same section. -/
theorem retarget {s₁ : Session} {c c₁ : Channel} {target : uint256} (hfind : s.find_channel c.id = some c)
    (hstaged : Staged c.id s s₁) (htouched : Touched c c₁)
    (hsequence : c₁.last_publication_sequence = c.last_publication_sequence)
    (hwithin : target ≤ c₁.device_maximum_target) :
    Changes ctx cause s (s₁.change_target_locked c₁ target) := by
  have hid : (follow_target c₁ target).id = c.id := htouched.id
  refine stored hfind hid (hstaged.stores _ hid) (congrArg (· ++ _) hstaged.sent) ?_ ?_
    (hstaged.carried.trans ⟨rfl, rfl, le_rfl⟩)
  · simp [Message.channel, htouched.id]
  · rw [stream_all (by simp [Message.channel, htouched.id]), htouched.id]
    exact .retargeted htouched hsequence hwithin

theorem update {s' : Session} (msg : UpdateChannel)
    (hresult : (s.handle_update_locked config ctx msg).1 = s')
    (hupdated : ∀ c, s.find_channel msg.channel_id = some c → s'.next_job_id ≠ s.next_job_id →
      cause.updated = some msg.channel_id)
    (hplans : ∀ plan : JobBuildPlan, plan.Issued config ctx s s' → cause.plans plan) :
    Changes ctx cause s s' := by
  simp only [handle_update_locked] at hresult
  split at hresult
  · subst hresult
    exact answered rfl rfl rfl ⟨rfl, rfl, le_rfl⟩
  rename_i c hfound
  have hid := find_channel_id hfound
  have hfind : s.find_channel c.id = some c := by rwa [hid]
  split at hresult
  · subst hresult
    exact answered rfl rfl rfl ⟨rfl, rfl, le_rfl⟩
  rename_i rate _
  split at hresult
  · subst hresult
    exact answered rfl rfl rfl ⟨rfl, rfl, le_rfl⟩
  have htouched : Touched c (s.updated_channel config c rate (uint256.from_le_bytes msg.maximum_target)) := by
    constructor <;> rfl
  generalize hc₁ : s.updated_channel config c rate (uint256.from_le_bytes msg.maximum_target) = c₁
    at htouched hresult
  have hsequence : c₁.last_publication_sequence = c.last_publication_sequence := by
    rw [← hc₁]
    rfl
  have hstaged : Staged c.id s (s.store_channel c₁) := htouched.id ▸ s.store_staged c₁
  split at hresult
  · subst hresult
    exact retarget hfind hstaged htouched hsequence (uint256.min_le_right _ _)
  · rename_i hkept
    have hwithin : c.WithinDevice → c₁.WithinDevice := fun _ => by
      have hmin := uint256.min_le_right (if ctx.runtime_config.variable_difficulty ∧ rate > 0 then
        target_from_difficulty (difficulty_for_hashrate rate ctx.runtime_config) else c₁.target)
        c₁.device_maximum_target
      rwa [← requested_target, not_not.mp hkept] at hmin
    have hbase : Changes ctx cause s (s.store_channel c₁) :=
      accounted hfind htouched hsequence hwithin rfl (append_nil _).symm (by simp) ⟨rfl, rfl, le_rfl⟩
    split at hresult
    · split at hresult
      · rename_i job hcurrent
        subst hresult
        have hissued := hupdated c hfound (next_job_id_issue_ne config (s.store_channel c₁) c₁ job _ none _)
        refine issue hfind hstaged hbase htouched hwithin
          (hplans _ ⟨?_, by rw [hcurrent, (prepare_job_for ..).2], job_id_prepare_job .., next_job_id_issue ..⟩)
          (.inr ⟨by rw [hissued, hid], hcurrent, hsequence⟩)
        rw [JobBuildPlan.Allocated, counter_issue]
        exact prepare_job_allocated config (s.store_channel c₁) c₁ job
      · subst hresult
        exact hbase
    · subst hresult
      exact hbase

theorem close (channel_id : Nat) : Changes ctx cause s (s.handle_close_locked channel_id) := by
  unfold handle_close_locked
  split
  · split
    · exact same ⟨rfl, rfl, rfl, rfl, le_rfl⟩
    · exact dropped (fun _ => false) (by simp) rfl ⟨rfl, rfl, le_rfl⟩
  · split
    · exact dropped (fun id => decide (id ≠ channel_id)) rfl rfl ⟨rfl, rfl, le_rfl⟩
    · exact same ⟨rfl, rfl, rfl, rfl, le_rfl⟩

theorem retarget_one {c : Channel} (hfind : s.find_channel c.id = some c) :
    Changes ctx cause s (retarget_channel ctx s c) := by
  simp only [retarget_channel]
  split
  · exact same ⟨rfl, rfl, rfl, rfl, le_rfl⟩
  · have htouched : Touched c (restart_period ctx c) := by constructor <;> rfl
    split
    · exact accounted hfind htouched rfl id rfl (append_nil _).symm (by simp) ⟨rfl, rfl, le_rfl⟩
    · exact retarget hfind (s.store_staged (restart_period ctx c)) htouched rfl (uint256.min_le_right _ _)

/-- A retarget of one channel is invisible to the others. -/
theorem retarget_other (ctx : PoolContext) (s : Session) {c : Channel} {channel_id : Nat}
    (hne : channel_id ≠ c.id) :
    (retarget_channel ctx s c).find_channel channel_id = s.find_channel channel_id ∧
      stream channel_id (retarget_channel ctx s c).sent = stream channel_id s.sent := by
  have hstore (s : Session) (c' : Channel) (hid : c'.id = c.id) :
      (s.store_channel c').find_channel channel_id = s.find_channel channel_id := by
    rw [find_store, hid, if_neg hne]
  simp only [retarget_channel]
  split
  · exact ⟨rfl, rfl⟩
  split
  · exact ⟨hstore s _ rfl, rfl⟩
  · have hother : ∀ target, stream channel_id [Message.set_target c.id target] = [] := fun target =>
      stream_none (by simpa [Message.channel] using fun heq : c.id = channel_id => hne heq.symm)
    have hsent := stream_append channel_id s.sent [.set_target c.id (vardiff_target ctx c).le_bytes]
    rw [hother, append_nil] at hsent
    exact ⟨(hstore (s.store_channel (restart_period ctx c))
      (follow_target (restart_period ctx c) (vardiff_target ctx c)) rfl).trans (hstore s _ rfl), hsent⟩

theorem retarget_others (ctx : PoolContext) (s : Session) {todo : List Channel} {channel_id : Nat}
    (hne : ∀ c ∈ todo, channel_id ≠ c.id) :
    (todo.foldl (retarget_channel ctx) s).find_channel channel_id = s.find_channel channel_id ∧
      stream channel_id (todo.foldl (retarget_channel ctx) s).sent = stream channel_id s.sent := by
  induction todo generalizing s with
  | nil => exact ⟨rfl, rfl⟩
  | cons c rest ih =>
    obtain ⟨hfind, hstream⟩ := retarget_other ctx s (hne c (by simp))
    obtain ⟨hfind', hstream'⟩ := ih (retarget_channel ctx s c) (fun c hmem => hne c (by simp [hmem]))
    exact ⟨hfind'.trans hfind, hstream'.trans hstream⟩

theorem retarget_fold {todo : List Channel} (hnodup : (todo.map Channel.id).Nodup)
    (hfind : ∀ c ∈ todo, s.find_channel c.id = some c) :
    Changes ctx cause s (todo.foldl (retarget_channel ctx) s) := by
  induction todo generalizing s with
  | nil => exact same ⟨rfl, rfl, rfl, rfl, le_rfl⟩
  | cons c rest ih =>
    simp only [map_cons, nodup_cons, mem_map, not_exists, not_and] at hnodup
    obtain ⟨hfresh, hnodup⟩ := hnodup
    have hone : Changes ctx cause s (retarget_channel ctx s c) := retarget_one (hfind c (by simp))
    have hrest : Changes ctx cause (retarget_channel ctx s c)
        (rest.foldl (retarget_channel ctx) (retarget_channel ctx s c)) := by
      refine ih hnodup (fun c' hmem => ?_)
      rw [(retarget_other ctx s (hfresh c' hmem)).1]
      exact hfind c' (by simp [hmem])
    refine ⟨fun channel_id => ?_, hone.carried.trans hrest.carried⟩
    by_cases hself : channel_id = c.id
    · subst hself
      obtain ⟨hlast, hstream⟩ := retarget_others ctx (retarget_channel ctx s c)
        (fun c' hmem heq => hfresh c' hmem heq.symm)
      rw [foldl_cons, hlast, hstream]
      exact hone.channel c.id
    · obtain ⟨hfirst, hstream⟩ := retarget_other ctx s hself
      have hchannel := hrest.channel channel_id
      rwa [hfirst, hstream, hone.carried.version_mask] at hchannel

/-- A rejection is told to the pool and entered in the channel's accounts. -/
theorem reject {found : Option Channel} (hfound : ∀ c ∈ found, s.find_channel c.id = some c)
    (call : PoolCall) (share : ShareSubmission) (code : String) :
    Changes ctx cause s ((s.call_pool call).send_share_rejection_locked found share code) := by
  cases found with
  | none => exact answered rfl rfl rfl ⟨rfl, rfl, le_rfl⟩
  | some c =>
    have htouched : Touched c { c with shares_rejected := c.shares_rejected + 1 } := by constructor <;> rfl
    exact accounted (hfound c rfl) htouched rfl id rfl rfl (by simp [Message.channel]) ⟨rfl, rfl, le_rfl⟩

theorem prepare_share (share : ShareSubmission) :
    Changes ctx cause s (s.prepare_share_locked ctx share).1 := by
  have hreject (s₁ : Session) (hsame : SameView s s₁) (found : Option Channel)
      (hfound : ∀ c ∈ found, s.find_channel c.id = some c) (code : String) (reason : RejectClass) :
      Changes ctx cause s (s₁.reject_share_locked found share code reason) :=
    after_same hsame (reject (fun c hmem =>
      (find_channel_congr hsame.channels c.id).trans (hfound c hmem)) _ share code)
  have hsame : SameView s s := .refl s
  unfold prepare_share_locked
  split
  · exact hreject s.protocol_error ⟨rfl, rfl, rfl, rfl, le_rfl⟩ none (by simp) _ _
  rename_i c hfound
  have hfind : ∀ c' ∈ some c, s.find_channel c'.id = some c' := by
    rintro c' ⟨rfl⟩
    rwa [find_channel_id hfound]
  split
  · exact hreject s.protocol_error ⟨rfl, rfl, rfl, rfl, le_rfl⟩ _ hfind _ _
  split
  · exact hreject s hsame _ hfind _ _
  split
  · exact hreject s hsame _ hfind _ _
  have hseen : SameView s (s.remember_share_locked share.key).2 := ⟨rfl, rfl, rfl, rfl, le_rfl⟩
  dsimp only
  split
  · exact hreject (s.remember_share_locked share.key).2 hseen _ hfind _ _
  split
  · exact hreject (s.remember_share_locked share.key).2 hseen _ hfind _ _
  · exact same hseen

theorem finish (share : ShareSubmission) (prepared : PreparedShare) :
    Changes ctx cause s (s.finish_share ctx share prepared) := by
  have hfind : ∀ c ∈ s.find_channel share.channel_id, s.find_channel c.id = some c := fun c hfound => by
    rwa [find_channel_id hfound]
  unfold finish_share
  cases validate_share share prepared ctx.time with
  | error rejection => exact reject hfind _ share _
  | ok result =>
    dsimp only
    generalize s.find_channel share.channel_id = found at hfind ⊢
    cases found with
    | none => split <;> exact answered rfl rfl rfl ⟨rfl, rfl, le_rfl⟩
    | some c =>
      have htouched : Touched c { c with
          shares_since_retarget := c.shares_since_retarget + 1
          shares_accepted := c.shares_accepted + 1 } := by
        constructor <;> rfl
      split <;> exact accounted (hfind c rfl) htouched rfl id rfl rfl (by simp [Message.channel]) ⟨rfl, rfl, le_rfl⟩

end erikslund.sv2.Changes
