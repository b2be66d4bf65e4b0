import SoloPool.Sv2.Session.Change

namespace erikslund.sv2

open util stratum List

namespace Session

theorem find_channel_id {s : Session} {channel_id : Nat} {c : Channel}
    (h : s.find_channel channel_id = some c) : c.id = channel_id := by
  simpa using find?_some h

theorem find_channel_congr {s s' : Session} (h : s'.channels = s.channels) (channel_id : Nat) :
    s'.find_channel channel_id = s.find_channel channel_id := by
  rw [find_channel, h, find_channel]

theorem find_store (s : Session) (c : Channel) (channel_id : Nat) :
    (s.store_channel c).find_channel channel_id =
      if channel_id = c.id then (s.find_channel channel_id).map (fun _ => c) else s.find_channel channel_id := by
  simp only [find_channel, store_channel]
  induction s.channels with
  | nil => simp
  | cons stored rest ih =>
    by_cases hstored : stored.id = c.id
    · by_cases hid : channel_id = c.id
      · subst hid
        simp [hstored]
      · have hne : ¬ c.id = channel_id := fun h => hid h.symm
        have hne' : ¬ stored.id = channel_id := by rwa [hstored]
        simpa [hstored, hid, hne, hne', find?_cons] using ih
    · by_cases hid : stored.id = channel_id
      · have hne : ¬ channel_id = c.id := by rwa [← hid]
        simp [hid, hne]
      · simpa [hstored, hid, find?_cons] using ih

theorem find_filter {s s' : Session} {keep : Nat → Bool}
    (h : s'.channels = s.channels.filter (fun c => keep c.id)) (channel_id : Nat) :
    s'.find_channel channel_id = if keep channel_id then s.find_channel channel_id else none := by
  rw [find_channel, h, find_channel]
  induction s.channels with
  | nil => simp
  | cons stored rest ih =>
    by_cases hid : stored.id = channel_id
    · cases hkeep : keep channel_id <;> simp_all
    · cases hkeep : keep stored.id <;> simp_all

end Session

/-- How the parts of a session that no channel owns go through a critical section. -/
structure Carried (s s' : Session) : Prop where
  version_mask : s'.version_mask = s.version_mask
  extranonce1 : s'.extranonce1 = s.extranonce1
  extranonce_counter : s.extranonce_counter ≤ s'.extranonce_counter

theorem Carried.trans {s s₁ s' : Session} (h : Carried s s₁) (h' : Carried s₁ s') : Carried s s' :=
  ⟨h'.version_mask.trans h.version_mask, h'.extranonce1.trans h.extranonce1,
    h.extranonce_counter.trans h'.extranonce_counter⟩

/-- `s'` differs from `s` only in what no channel and no message shows. -/
structure SameView (s s' : Session) : Prop where
  channels : s'.channels = s.channels
  sent : s'.sent = s.sent
  carried : Carried s s'

theorem SameView.refl (s : Session) : SameView s s := ⟨rfl, rfl, rfl, rfl, le_rfl⟩

theorem SameView.trans {s s₁ s' : Session} (h : SameView s s₁) (h' : SameView s₁ s') : SameView s s' :=
  ⟨h'.channels.trans h.channels, h'.sent.trans h.sent, h.carried.trans h'.carried⟩

/-- Every channel, whether touched or not, takes one of the changes of a critical
section. -/
structure Changes (ctx : PoolContext) (cause : Cause) (s s' : Session) : Prop where
  channel : ∀ channel_id, ∃ messages, stream channel_id s'.sent = stream channel_id s.sent ++ messages ∧
    Change s.version_mask ctx cause (s.find_channel channel_id) messages (s'.find_channel channel_id)
  carried : Carried s s'

namespace Changes

variable {ctx : PoolContext} {cause : Cause} {s s₁ s' : Session}

theorem after_same (hsame : SameView s s₁) (h : Changes ctx cause s₁ s') :
    Changes ctx cause s s' := by
  refine ⟨fun channel_id => ?_, hsame.carried.trans h.carried⟩
  have hchannel := h.channel channel_id
  rwa [hsame.sent, hsame.carried.version_mask, Session.find_channel_congr hsame.channels] at hchannel

theorem then_same (h : Changes ctx cause s s₁) (hsame : SameView s₁ s') :
    Changes ctx cause s s' := by
  refine ⟨fun channel_id => ?_, h.carried.trans hsame.carried⟩
  rw [hsame.sent, Session.find_channel_congr hsame.channels]
  exact h.channel channel_id

/-- No channel changes, and the messages sent are about none. -/
theorem quiet {messages : List Message} (hchannels : s'.channels = s.channels)
    (hsent : s'.sent = s.sent ++ messages) (hnone : ∀ msg ∈ messages, msg.channel = none)
    (hcarried : Carried s s') :
    Changes ctx cause s s' := by
  refine ⟨fun channel_id => ⟨[], ?_, ?_⟩, hcarried⟩
  · rw [hsent, stream_append, stream_silent hnone]
  · rw [Session.find_channel_congr hchannels]
    exact .unchanged _

theorem same (h : SameView s s') : Changes ctx cause s s' :=
  quiet h.channels (by simpa using h.sent : s'.sent = s.sent ++ []) (by simp) h.carried

/-- One channel changes in place. -/
theorem stored {c c' : Channel} {messages : List Message} (hfind : s.find_channel c.id = some c)
    (hid : c'.id = c.id) (hchannels : s'.channels = (s.store_channel c').channels)
    (hsent : s'.sent = s.sent ++ messages)
    (hmessages : ∀ msg ∈ messages, msg.channel = some c.id ∨ msg.channel = none)
    (hchange : Change s.version_mask ctx cause (some c) (stream c.id messages) (some c'))
    (hcarried : Carried s s') :
    Changes ctx cause s s' := by
  refine ⟨fun channel_id => ?_, hcarried⟩
  rw [hsent, stream_append, Session.find_channel_congr hchannels, Session.find_store, hid]
  by_cases hself : channel_id = c.id
  · subst hself
    exact ⟨_, rfl, by simpa [hfind] using hchange⟩
  · have hother : stream channel_id messages = [] := by
      refine stream_none (fun msg hmem => ?_)
      rcases hmessages msg hmem with h | h
      · simpa [h] using fun heq => hself heq.symm
      · simp [h]
    exact ⟨[], by rw [hother], by simpa [hself] using Change.unchanged _⟩

/-- Accounts kept on one channel, with messages about none. -/
theorem accounted {c c' : Channel} {messages : List Message} (hfind : s.find_channel c.id = some c)
    (htouched : Touched c c') (hsequence : c'.last_publication_sequence = c.last_publication_sequence)
    (hwithin : c.WithinDevice → c'.WithinDevice)
    (hchannels : s'.channels = (s.store_channel c').channels)
    (hsent : s'.sent = s.sent ++ messages) (hnone : ∀ msg ∈ messages, msg.channel = none)
    (hcarried : Carried s s') :
    Changes ctx cause s s' := by
  refine stored hfind htouched.id hchannels hsent (fun msg hmem => .inr (hnone msg hmem)) ?_ hcarried
  rw [stream_silent hnone]
  exact .touched htouched hsequence hwithin

/-- A channel is emplaced and announced, and then changes as any other. -/
theorem opened {c : Channel} {msg : Message} (hfresh : c.Fresh) (hopens : cause.opens c)
    (hannounced : c.AnnouncedBy msg)
    (habsent : s.find_channel c.id = none) (hchannels : s₁.channels = s.channels ++ [c])
    (hsent : s₁.sent = s.sent ++ [msg]) (hcarried : Carried s s₁) (h : Changes ctx cause s₁ s') :
    Changes ctx cause s s' := by
  have hmessage : msg.channel = some c.id := by
    unfold Channel.AnnouncedBy at hannounced
    split at hannounced
    · obtain ⟨_, _, rfl⟩ := hannounced
      rfl
    · obtain ⟨_, rfl⟩ := hannounced
      rfl
  refine ⟨fun channel_id => ?_, hcarried.trans h.carried⟩
  obtain ⟨messages, hstream, hchange⟩ := h.channel channel_id
  rw [hsent, stream_append] at hstream
  rw [hcarried.version_mask] at hchange
  by_cases hself : channel_id = c.id
  · subst hself
    have hfind : s₁.find_channel c.id = some c := by
      simp only [Session.find_channel] at habsent ⊢
      simp [hchannels, habsent]
    rw [hfind] at hchange
    have hown : stream c.id [msg] = [msg] := stream_all (by simpa using hmessage)
    refine ⟨msg :: messages, by rw [hstream, hown, append_assoc, singleton_append], ?_⟩
    rw [habsent]
    exact .opened hfresh hopens hannounced hchange
  · have hfind : s₁.find_channel channel_id = s.find_channel channel_id := by
      have hne : ¬ c.id = channel_id := fun heq => hself heq.symm
      simp [Session.find_channel, hchannels, hne]
    have hother : stream channel_id [msg] = [] :=
      stream_none (by simpa [hmessage] using fun heq : c.id = channel_id => hself heq.symm)
    rw [hfind] at hchange
    exact ⟨messages, by rw [hstream, hother, append_nil], hchange⟩

/-- Channels are dropped by id. -/
theorem dropped (keep : Nat → Bool) (hchannels : s'.channels = s.channels.filter (fun c => keep c.id))
    (hsent : s'.sent = s.sent) (hcarried : Carried s s') : Changes ctx cause s s' := by
  refine ⟨fun channel_id => ⟨[], by rw [hsent, append_nil], ?_⟩, hcarried⟩
  rw [Session.find_filter hchannels]
  split
  · exact .unchanged _
  · cases s.find_channel channel_id with
    | none => exact .absent
    | some c => exact .closed

end Changes

end erikslund.sv2
