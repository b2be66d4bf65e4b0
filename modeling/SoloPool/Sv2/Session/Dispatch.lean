import SoloPool.Sv2.Session.Ids

namespace erikslund.sv2

open util stratum

/-- A critical section that only answers or counts an error. -/
def Quiet (s s' : Session) : Prop :=
  ∃ errors close messages, (∀ msg ∈ messages, msg.channel = none) ∧
    messages.filterMap Message.open_answer = [] ∧ s' = { s with protocol_errors := errors, close_after_response := close, sent := s.sent ++ messages }

theorem Quiet.refl (s : Session) : Quiet s s :=
  ⟨s.protocol_errors, s.close_after_response, [], by simp, rfl, by simp⟩

theorem Quiet.changes {ctx : PoolContext} {cause : Cause} {s s' : Session} (h : Quiet s s') :
    Changes ctx cause s s' := by
  obtain ⟨errors, close, messages, hnone, -, rfl⟩ := h
  exact .quiet rfl rfl hnone ⟨rfl, rfl, le_rfl⟩

namespace Session

/-- The refusal of a frame that comes before or after the setup it should have. -/
def refuse_setup (s : Session) (code : String) : Session :=
  { s.protocol_error.send_locked [.setup_connection_error 0 code] with close_after_response := true }

/-- The rule for dispatching a frame: it is ignored or refused, throws, or goes to one of the
handlers. -/
theorem dispatch_rule {config : Config} {ctx : PoolContext} {s : Session} {frame : Frame}
    {motive : Dispatched → Prop} (hself : ∀ error, motive { session := s, thrown := error })
    (herror : motive { session := s.protocol_error })
    (hrefuse : ∀ code, motive { session := s.refuse_setup code })
    (hsetup : ∀ msg, motive { session := s.handle_setup_locked msg })
    (hopen : ∀ msg, motive (thrown (s.open_channel_locked config ctx msg .Standard)))
    (hextended : ∀ msg size, motive (thrown (s.handle_open_extended_locked config ctx msg size)))
    (hupdate : ∀ msg, frame.payload = .update_channel msg →
      motive (thrown (s.handle_update_locked config ctx msg)))
    (hclose : ∀ channel_id, motive { session := s.handle_close_locked channel_id })
    (hshare : ∀ share, submitted frame = some share → motive (s.handle_share ctx share)) :
    motive (s.dispatch_locked config ctx frame) := by
  unfold dispatch_locked
  split
  · exact hself none
  split
  · split
    · exact hrefuse _
    split
    · exact hsetup _
    · exact hself _
  split
  · exact hrefuse _
  split
  · exact hself _
  split
  · exact hopen _
  · exact hextended _ _
  · exact hupdate _ (by assumption)
  · exact hclose _
  · exact hshare _ (by simp only [submitted, *])
  · exact hshare _ (by simp only [submitted, *])
  · exact hself _
  · exact herror

/-- What dispatching a frame leaves is what one of the handlers leaves. -/
theorem dispatch_cases {config : Config} {ctx : PoolContext} {s : Session} {frame : Frame}
    {motive : Session → Prop} (hquiet : ∀ s', Quiet s s' → motive s')
    (hsetup : ∀ msg, motive (s.handle_setup_locked msg))
    (hopen : ∀ msg, motive (s.open_channel_locked config ctx msg .Standard).1)
    (hextended : ∀ msg size, motive (s.handle_open_extended_locked config ctx msg size).1)
    (hupdate : ∀ msg, frame.payload = .update_channel msg →
      motive (s.handle_update_locked config ctx msg).1)
    (hclose : ∀ channel_id, motive (s.handle_close_locked channel_id))
    (hshare : ∀ share, motive (s.prepare_share_locked ctx share).1) :
    motive (s.dispatch_locked config ctx frame).session := by
  apply dispatch_rule (motive := fun dispatched => motive dispatched.session)
  · exact fun _ => hquiet s (.refl s)
  · exact hquiet s.protocol_error
      ⟨s.protocol_errors + 1, s.close_after_response, [], by simp, rfl, by simp [protocol_error]⟩
  · exact fun code => hquiet (s.refuse_setup code)
      ⟨s.protocol_errors + 1, true, [.setup_connection_error 0 code], by simp [Message.channel], rfl, rfl⟩
  · exact hsetup
  · exact hopen
  · exact hextended
  · exact hupdate
  · exact hclose
  · exact fun share _ => hshare share

end Session

end erikslund.sv2
