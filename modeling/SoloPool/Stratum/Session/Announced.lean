import SoloPool.Stratum.Session.Steps

namespace erikslund.stratum

open util Session List

/-- `notify` is the message that announces `job`, for some payout script. -/
def Notify.Announces (notify : Notify) (job : Job) (clean : Bool) : Prop :=
  ∃ coinbase2_hex, make_notify_line job coinbase2_hex clean = .notify notify

namespace Notify.Announces

variable {notify : Notify} {job : Job} {clean : Bool}

theorem job_id (h : notify.Announces job clean) : notify.job_id = job.job_id := by
  obtain ⟨_, h⟩ := h
  cases h
  rfl

theorem prevhash (h : notify.Announces job clean) : notify.prevhash = job.prevhash_stratum := by
  obtain ⟨_, h⟩ := h
  cases h
  rfl

theorem clean_jobs (h : notify.Announces job clean) : notify.clean_jobs = clean := by
  obtain ⟨_, h⟩ := h
  cases h
  rfl

end Notify.Announces

/-- What a step tells the client: nothing, or of one job that `send_notify` was called with
or that is current. -/
inductive Server.Informs (ctx : PoolContext) (event : Event) (server server' : Server) : Prop where
  | quiet (hready : server'.session.Ready → server.session.Ready ∨ ctx.current_job = none)
      (hsequence : server'.session.last_notified_publication_sequence =
        server.session.last_notified_publication_sequence)
      (hannounced : server'.announced = server.announced)
  | announced (job : Job) (clean : Bool) (notify : Notify) (script : Option Bytes)
      (hsource : event = .send_notify job clean ∧ server.session.Ready ∧ (job.publication_sequence = 0 ∨
          server.session.last_notified_publication_sequence < job.publication_sequence) ∨
        ctx.current_job = some job ∧ clean = true)
      (hnotify : notify.Announces job clean)
      (hsequence : server'.session.last_notified_publication_sequence =
        max server.session.last_notified_publication_sequence job.publication_sequence)
      (hannounced : server'.announced = (notify, script) :: server.announced)

theorem Session.Notified.ready_after {job : Job} {clean : Bool} {script : Bytes} {s s' : Session}
    (h : Notified job clean script s s') : s'.Ready := by
  rw [Ready, h.subscribed, h.authorized, h.payout_script]
  exact h.ready

namespace Server

variable {ctx : PoolContext} {event : Event}

/-- A session that is ready after `send_notify` was so before, and has caught up with the job. -/
theorem send_notify_catches_up {config : Config} {server : Server} {job : Job} {clean : Bool}
    (hready : (step config server (ctx, .send_notify job clean)).session.Ready) :
    server.session.Ready ∧ job.publication_sequence ≤
      (step config server (ctx, .send_notify job clean)).session.last_notified_publication_sequence := by
  change (server.session.send_notify job clean).Ready at hready
  have hbefore : server.session.Ready := by
    rcases server.session.send_notify_cases job clean with ⟨heq, -⟩ | ⟨-, script, hnotified⟩
    · rwa [heq] at hready
    · exact hnotified.ready
  exact ⟨hbefore, send_notify_reaches hbefore job clean⟩

theorem informs (config : Config) (server : Server) (ctx : PoolContext) (event : Event) :
    Informs ctx event server (step config server (ctx, event)) := by
  have hannounced := announced_step config server (ctx, event)
  have hquiet (hunchanged : Unchanged server.session (step config server (ctx, event)).session) :
      Informs ctx event server (step config server (ctx, event)) := by
    rw [new_notifies_of_readied hunchanged.toReadied, nil_append] at hannounced
    exact .quiet (fun hready => .inl (hunchanged.ready_iff.mp hready)) hunchanged.sequence hannounced
  cases stepped config server ctx event with
  | moved hmoved hbusy hshare hremembered haccepted =>
    cases hmoved with
    | quiet hreadied hready =>
      rw [new_notifies_of_readied hreadied, nil_append] at hannounced
      exact .quiet hready hreadied.sequence hannounced
    | announced mid job clean script hreadied hsource hnotified =>
      obtain ⟨notify, hnotify, hnew⟩ := new_notifies_of_notified hreadied hnotified
      rw [hnew] at hannounced
      refine .announced job clean notify (some script) ?_ ⟨_, hnotify⟩ ?_ hannounced
      · rw [Event.Source, FromPool, hreadied.sequence] at hsource
        rcases hsource with ⟨rfl, hfresh⟩ | hpool
        · exact .inl ⟨rfl, (send_notify_catches_up hnotified.ready_after).1, hfresh⟩
        · exact .inr hpool
      · rw [hnotified.sequence, hreadied.sequence]
  | submitted submission job prepared hidle hjob htaken hshare hremembered haccepted =>
    -- A submit touches the share history and the cached coinbase only.
    have hframe := htaken.frame
    have hnothing : new_notifies server.session (step config server (ctx, event)).session = [] := by
      rw [hframe]
      simp [new_notifies]
    rw [hnothing, nil_append] at hannounced
    refine .quiet (fun hready => .inl ?_) (by rw [hframe]) hannounced
    rw [hframe] at hready
    exact hready
  | finished submission prepared hflight hunchanged hshare hremembered haccepted =>
    exact hquiet hunchanged

theorem Informs.sequence_le {server server' : Server} (h : Informs ctx event server server') :
    server.session.last_notified_publication_sequence ≤ server'.session.last_notified_publication_sequence := by
  cases h with
  | quiet hready hsequence hannounced => exact hsequence.ge
  | announced job clean notify script hsource hnotify hsequence hannounced =>
    rw [hsequence]
    exact le_max_left _ _

end Server

/-! ## Payout of authorized sessions -/

namespace Session

/-- An authorized session has a payout script. -/
def Paid (s : Session) : Prop := s.authorized = true → s.payout_script.isSome = true

variable {config : Config} {ctx : PoolContext} {s s' : Session}

theorem Paid.unchanged (h : s.Paid) (hunchanged : Unchanged s s') : s'.Paid := by
  rw [Paid, hunchanged.authorized, hunchanged.payout_script]
  exact h

theorem Paid.send_difficulty_then_work (h : s.Paid) (ctx : PoolContext) :
    (s.send_difficulty_then_work ctx).Paid := by
  rcases s.send_difficulty_then_work_cases ctx with ⟨hunchanged, -⟩ | ⟨job, script, -, hnotified⟩
  · exact h.unchanged hunchanged
  · rw [Paid, hnotified.authorized, hnotified.payout_script]
    exact h

theorem Paid.dispatch (h : s.Paid) (request : Request) : (s.dispatch config ctx request).Paid := by
  have herror (id : RequestId) (error : StratumError) : (s.send_error id error).Paid :=
    h.unchanged ((Unchanged.refl s).send_error id error)
  unfold Session.dispatch
  split
  · unfold handle_subscribe
    dsimp only
    split
    · apply Paid.send_difficulty_then_work
      exact h
    · exact h
  · unfold handle_authorize
    split
    · exact herror _ _
    split
    · exact herror _ _
    dsimp only
    split
    · exact h
    · apply Paid.send_difficulty_then_work
      exact fun _ => rfl
  · exact h.unchanged (handle_configure_unchanged _)
  · exact h.unchanged (handle_suggest_difficulty_unchanged _)
  · exact h
  all_goals
    split
    · exact h
    · exact h

end Session

namespace Server

variable {config : Config}

theorem paid_step {server : Server} (h : server.session.Paid) (ctx : PoolContext) (event : Event) :
    (step config server (ctx, event)).session.Paid := by
  cases event with
  | line request =>
    cases hflight : server.share with
    | some _ => simpa only [step, hflight] using h
    | none =>
      simp only [step, hflight, handle_line]
      split
      · rcases server.session.handle_submit_cases config ctx request with ⟨hunchanged, -⟩ |
          ⟨submission, job, -, -, htaken⟩
        · exact h.unchanged hunchanged
        · change (server.session.handle_submit config ctx request).1.Paid
          rw [htaken.frame]
          exact h
      · exact h.dispatch request
  | finish_submit =>
    cases hflight : server.share with
    | none => simpa only [step, hflight] using h
    | some share =>
      simp only [step, hflight]
      exact h.unchanged (finish_submit_unchanged ..)
  | send_notify job clean =>
    change (server.session.send_notify job clean).Paid
    rcases server.session.send_notify_cases job clean with ⟨heq, -⟩ | ⟨-, script, hnotified⟩
    · rwa [heq]
    · rw [Paid, hnotified.authorized, hnotified.payout_script]
      exact h
  | send_set_difficulty => exact h
  | maybe_retarget => exact h.unchanged (maybe_retarget_unchanged ..)

/-! ## The lines on the wire -/

/-- The notifies sent, oldest first. -/
def notifies (server : Server) : List Notify := server.session.sent.filterMap Line.notify?

/-- Lines are only ever appended. -/
theorem sent_step (server : Server) (ctx : PoolContext) (event : Event) :
    ∃ lines, (step config server (ctx, event)).session.sent = server.session.sent ++ lines := by
  cases stepped config server ctx event with
  | moved hmoved =>
    cases hmoved with
    | quiet hreadied =>
      obtain ⟨lines, hsent, -⟩ := hreadied.sent
      exact ⟨lines, hsent⟩
    | announced mid job clean script hreadied hsource hnotified =>
      obtain ⟨before, hbefore, -⟩ := hreadied.sent
      obtain ⟨lines, hsent, -⟩ := hnotified.sent
      exact ⟨_, by rw [hsent, hbefore, append_assoc, append_assoc]⟩
  | submitted submission job prepared hidle hjob htaken =>
    refine ⟨[], ?_⟩
    rw [htaken.frame, append_nil]
  | finished submission prepared hflight hunchanged =>
    obtain ⟨lines, hsent, -⟩ := hunchanged.sent
    exact ⟨lines, hsent⟩

/-- What holds of a session whatever its pool does: a payout script once it is authorized,
and `announced` recording just the notifies sent. -/
structure Sound (server : Server) : Prop where
  paid : server.session.Paid
  recorded : server.announced.map Prod.fst = server.notifies.reverse

theorem init_sound (ctx : PoolContext) (extranonce1 : Bytes) : (init ctx extranonce1).Sound :=
  ⟨fun hauthorized => (nomatch hauthorized), rfl⟩

theorem Sound.step {server : Server} (h : server.Sound) (ctx : PoolContext) (event : Event) :
    (Server.step config server (ctx, event)).Sound := by
  refine ⟨paid_step h.paid ctx event, ?_⟩
  obtain ⟨lines, hsent⟩ := @sent_step config server ctx event
  rw [announced_step, new_notifies_of_append hsent, notifies, hsent]
  simp [h.recorded, notifies, Function.comp_def]

end Server

end erikslund.stratum
