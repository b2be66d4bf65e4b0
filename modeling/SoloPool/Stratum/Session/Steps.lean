import SoloPool.Stratum.Session.Dispatch

namespace erikslund.stratum

open util List

/-- The share is validated on the fields of the submission. -/
def PreparedSubmit.Carries (prepared : PreparedSubmit) (submission : Submission) : Prop :=
  ∀ extranonce1 now_unix, prepared.input extranonce1 now_unix =
    submission.input prepared.coinbase2 extranonce1 (target_from_difficulty prepared.accept_difficulty) now_unix

namespace Session

/-- A submission that `remember` has taken, and the share prepared for it. -/
structure Taken (submission : Submission) (job : Job) (s s' : Session) (prepared : Option PreparedSubmit) : Prop where
  fresh : ¬ s.seen_shares.Remembers submission.make_dedup_key
  seen_shares : s'.seen_shares = (s.seen_shares.remember kMaxSeenShares submission.make_dedup_key).2
  frame : s' = { s with seen_shares := s'.seen_shares, coinbase2_cache := s'.coinbase2_cache }
  carried : ∀ share ∈ prepared, share.Carries submission
  prepared : (s.payout_script = none ∧ prepared = none ∧ s'.coinbase2_cache = s.coinbase2_cache) ∨
    ∃ script share, s.payout_script = some script ∧ s'.coinbase2_cache = some (s.cached job script) ∧
      prepared = some share ∧ share.job = job ∧ share.coinbase2 = (s.cached job script).coinbase2

theorem submission_mask {s : Session} {request : Request} {submission : Submission}
    (h : s.submission request = some submission) : submission.version_mask = s.version_mask := by
  unfold Session.submission at h
  split at h
  · cases h
    rfl
  · cases h

theorem handle_submit_cases (config : Config) (ctx : PoolContext) (s : Session) (request : Request) :
    (Unchanged s (s.handle_submit config ctx request).1 ∧ (s.handle_submit config ctx request).2 = none) ∨
      ∃ submission job, s.submission request = some submission ∧
        ctx.recent_job submission.job_id = some job ∧
        Taken submission job s (s.handle_submit config ctx request).1
          (s.handle_submit config ctx request).2 := by
  unfold handle_submit
  split
  · exact .inl ⟨.send_error (.refl s) _ _, rfl⟩
  split
  · exact .inl ⟨.send_error (.refl s) _ _, rfl⟩
  split
  · exact .inl ⟨.send_error (.refl s) _ _, rfl⟩
  rename_i submission hsubmission
  split
  · exact .inl ⟨.reject_submit _ _ _, rfl⟩
  rename_i job hjob
  split
  · exact .inl ⟨.reject_submit _ _ _, rfl⟩
  split
  · exact .inl ⟨.reject_submit _ _ _, rfl⟩
  rename_i seen_shares hremember
  have hfresh : ¬ s.seen_shares.Remembers submission.make_dedup_key := by
    rw [← Generations.remember_refused_iff kMaxSeenShares, hremember]
    exact Bool.noConfusion
  refine .inr ⟨submission, job, hsubmission, hjob, ?_⟩
  dsimp only
  rcases Option.eq_none_or_eq_some s.payout_script with hpayout | ⟨script, hpayout⟩
  · have herror : ({ s with seen_shares } : Session).coinbase2_for job =
        .error "coinbase2_for called before payout_script_ was set" := by
      simp [coinbase2_for, hpayout]
    rw [herror]
    exact ⟨hfresh, by rw [hremember], rfl, by simp, .inl ⟨hpayout, rfl, rfl⟩⟩
  · rw [coinbase2_for_eq]
    · refine ⟨hfresh, by rw [hremember], rfl, ?_, .inr ⟨script, _, hpayout, rfl, rfl, rfl, rfl⟩⟩
      rintro share ⟨⟩ extranonce1 now_unix
      rw [Submission.input, submission_mask hsubmission]
      rfl
    · exact hpayout

/-- A ready session has seen a job once it has been sent its notify. -/
theorem send_notify_reaches {s : Session} (hready : s.Ready) (job : Job) (clean : Bool) :
    job.publication_sequence ≤ (s.send_notify job clean).last_notified_publication_sequence := by
  rcases s.send_notify_cases job clean with ⟨heq, hold⟩ | ⟨-, script, hnotified⟩
  · rw [heq]
    exact (hold hready).2
  · rw [hnotified.sequence]
    exact le_max_right _ _

end Session

open Session

variable (config : Config) (ctx : PoolContext) (server : Server) (s : Session)

/-- Where an announced job comes from: the caller of `send_notify`, which drops a job that
is not news to the session, or the pool. -/
def Event.Source (event : Event) (s : Session) (job : Job) (clean : Bool) : Prop :=
  (event = .send_notify job clean ∧
      (job.publication_sequence = 0 ∨ s.last_notified_publication_sequence < job.publication_sequence)) ∨
    FromPool ctx s job clean

/-- A request that completes the handshake of a session, or repeats it. -/
def Request.Joins (request : Request) : Prop :=
  match request.method with
  | .subscribe => s.authorized = true ∧ s.payout_script.isSome = true
  | .authorize => s.subscribed = true ∧ ∃ name ∈ request.params.head?, name.isEmpty = false ∧
      (ctx.validate_address ((log.sanitize name).takeWhile (fun c => c ≠ '.'))).isSome = true
  | _ => False

/-- An event that announces clean work to the session it finds. -/
def Event.Cleans : Event → Prop
  | .send_notify job clean => clean = true ∧ server.session.Ready ∧
      (job.publication_sequence = 0 ∨ server.session.last_notified_publication_sequence < job.publication_sequence)
  | .line request => server.share = none ∧ ctx.current_job.isSome = true ∧ request.Joins ctx server.session
  | _ => False

instance (ctx : PoolContext) (s : Session) (request : Request) : Decidable (request.Joins ctx s) := by
  unfold Request.Joins
  split <;> infer_instance

instance (ctx : PoolContext) (server : Server) (event : Event) : Decidable (event.Cleans ctx server) := by
  unfold Event.Cleans Session.Ready
  split <;> infer_instance

/-- What a step can do. Nothing changes the payout script while a share is validated. -/
inductive Server.Stepped (ctx : PoolContext) (event : Event) (server server' : Server) : Prop where
  | moved (hmoved : Moved ctx (event.Source ctx) server.session server'.session)
      (hbusy : server.share ≠ none → server'.session.payout_script = server.session.payout_script)
      (hshare : server'.share = server.share) (hremembered : server'.remembered = server.remembered)
      (haccepted : server'.accepted = server.accepted)
      (hcleans : server'.session.seen_shares = server.session.seen_shares ∨ event.Cleans ctx server)
  | submitted (submission : Submission) (job : Job) (prepared : Option PreparedSubmit)
      (hidle : server.share = none) (hjob : ctx.recent_job submission.job_id = some job)
      (htaken : Taken submission job server.session server'.session prepared)
      (hshare : server'.share = prepared.map (fun prepared => (submission, prepared)))
      (hremembered : server'.remembered = submission :: server.remembered)
      (haccepted : server'.accepted = server.accepted)
  | finished (submission : Submission) (prepared : PreparedSubmit)
      (hflight : server.share = some (submission, prepared))
      (hunchanged : Unchanged server.session server'.session) (hshare : server'.share = none)
      (hremembered : server'.remembered = server.remembered)
      (haccepted : server'.accepted = submission :: server.accepted ∨ server'.accepted = server.accepted)

theorem Session.Moved.mono {ctx : PoolContext} {source source' : Session → Job → Bool → Prop} {s s' : Session}
    (himp : ∀ s job clean, source s job clean → source' s job clean) (h : Moved ctx source s s') :
    Moved ctx source' s s' := by
  cases h with
  | quiet hreadied hready => exact .quiet hreadied hready
  | announced mid job clean script hreadied hsource hnotified =>
    exact .announced mid job clean script hreadied (himp _ _ _ hsource) hnotified

/-- Only a request that joins the session is answered with work. -/
theorem Session.dispatch_cleans (request : Request) :
    (s.dispatch config ctx request).seen_shares = s.seen_shares ∨
      ctx.current_job.isSome = true ∧ request.Joins ctx s := by
  have hwork {mid : Session} (hsame : mid.seen_shares = s.seen_shares) (hjoins : mid.Ready → request.Joins ctx s) :
      (mid.send_difficulty_then_work ctx).seen_shares = s.seen_shares ∨
        ctx.current_job.isSome = true ∧ request.Joins ctx s := by
    rcases mid.send_difficulty_then_work_cases ctx with ⟨hunchanged, -⟩ | ⟨job, script, hjob, hnotified⟩
    · exact .inl (hunchanged.seen_shares.trans hsame)
    · exact .inr ⟨by rw [hjob]; rfl, hjoins hnotified.ready⟩
  unfold dispatch
  split
  · rename_i hmethod
    simp only [handle_subscribe]
    split
    · rename_i hauthorized
      exact hwork rfl fun _ => by simpa [Request.Joins, hmethod, send_line] using hauthorized
    · exact .inl rfl
  · rename_i hmethod
    unfold handle_authorize
    split
    · exact .inl rfl
    rename_i name rest hparams
    split
    · exact .inl rfl
    rename_i hname
    dsimp only
    split
    · exact .inl rfl
    rename_i script hscript
    refine hwork rfl fun hready => ?_
    have hsubscribed : s.subscribed = true := hready.1
    simp_all [Request.Joins]
  · exact .inl (handle_configure_unchanged request).seen_shares
  · exact .inl (handle_suggest_difficulty_unchanged request).seen_shares
  · exact .inl rfl
  all_goals
    split
    · exact .inl rfl
    · exact .inl rfl

theorem Server.stepped (ctx : PoolContext) (event : Event) :
    Server.Stepped ctx event server (Server.step config server (ctx, event)) := by
  have hstill : Server.Stepped ctx event server server :=
    .moved (.of_unchanged (.refl _)) (fun _ => rfl) rfl rfl rfl (.inl rfl)
  cases event with
  | line request =>
    cases hflight : server.share with
    | some _ =>
      simp only [step, hflight]
      exact hstill
    | none =>
      simp only [step, hflight, handle_line]
      split
      · rcases server.session.handle_submit_cases config ctx request with ⟨hunchanged, hnone⟩ |
          ⟨submission, job, hsubmission, hjob, htaken⟩
        · refine .moved (.of_unchanged hunchanged) (fun _ => hunchanged.payout_script) ?_ ?_ rfl
            (.inl hunchanged.seen_shares)
          · simp [hnone, hflight]
          · simp [hunchanged.seen_shares, Option.filter_eq_none_iff]
        · refine .submitted submission job _ hflight hjob htaken ?_ ?_ rfl
          · simp [hsubmission]
          · have hnew : (server.session.handle_submit config ctx request).1.seen_shares.Remembers
                submission.make_dedup_key := htaken.seen_shares ▸ Generations.remember_remembers ..
            simp [hsubmission, Option.filter_some, htaken.fresh, hnew]
      · refine .moved ((dispatch_moved ..).mono (fun _ _ _ => .inr)) (absurd hflight) rfl rfl rfl ?_
        exact (dispatch_cleans config ctx server.session request).imp_right fun h => ⟨hflight, h⟩
  | finish_submit =>
    cases hflight : server.share with
    | none =>
      simp only [step, hflight]
      exact hstill
    | some share =>
      obtain ⟨submission, prepared⟩ := share
      simp only [step, hflight]
      refine .finished submission prepared hflight (finish_submit_unchanged ..) rfl rfl ?_
      dsimp only [advance]
      split
      · exact .inl rfl
      · exact .inr rfl
  | send_notify job clean =>
    rcases server.session.send_notify_cases job clean with ⟨heq, -⟩ | ⟨hfresh, script, hnotified⟩
    · refine .moved ?_ (fun _ => ?_) rfl rfl rfl (.inl (congrArg seen_shares heq))
      · change Moved ctx _ server.session (server.session.send_notify job clean)
        rw [heq]
        exact .of_unchanged (.refl _)
      · change (server.session.send_notify job clean).payout_script = _
        rw [heq]
    · refine .moved (.announced _ job clean script (Unchanged.refl _).toReadied (.inl ⟨rfl, hfresh⟩) hnotified)
        (fun _ => hnotified.payout_script) rfl rfl rfl ?_
      cases clean with
      | false => exact .inl hnotified.seen_shares
      | true => exact .inr ⟨rfl, hnotified.ready, hfresh⟩
  | send_set_difficulty =>
    exact .moved (.of_unchanged (Unchanged.refl _).send_set_difficulty) (fun _ => rfl) rfl rfl rfl (.inl rfl)
  | maybe_retarget =>
    have hunchanged := maybe_retarget_unchanged ctx server.session
    exact .moved (.of_unchanged hunchanged) (fun _ => hunchanged.payout_script) rfl rfl rfl
      (.inl hunchanged.seen_shares)

namespace Server

theorem new_notifies_of_append {s s' : Session} {lines : List Line} (hsent : s'.sent = s.sent ++ lines) :
    new_notifies s s' =
      (lines.filterMap Line.notify?).reverse.map (fun notify => (notify, s'.payout_script)) := by
  simp [new_notifies, hsent]

/-- A critical section that only readies the session announces nothing. -/
theorem new_notifies_of_readied {s s' : Session} (h : Readied s s') : new_notifies s s' = [] := by
  obtain ⟨lines, hsent, hquiet⟩ := h.sent
  simp [new_notifies_of_append hsent, filterMap_eq_nil_iff.mpr hquiet]

/-- One that announces a job announces just that. -/
theorem new_notifies_of_notified {s mid s' : Session} {job : Job} {clean : Bool} {script : Bytes}
    (hreadied : Readied s mid) (hnotified : Notified job clean script mid s') :
    ∃ notify, make_notify_line job (mid.cached job script).coinbase2_hex clean = .notify notify ∧
      new_notifies s s' = [(notify, some script)] := by
  obtain ⟨lines, hsent, hquiet⟩ := hreadied.sent
  obtain ⟨lines', hsent', hquiet'⟩ := hnotified.sent
  rw [hsent, append_assoc, append_assoc] at hsent'
  refine ⟨_, rfl, ?_⟩
  rw [new_notifies_of_append hsent', hnotified.payout_script, hnotified.payout]
  simp [filterMap_eq_nil_iff.mpr hquiet, filterMap_eq_nil_iff.mpr hquiet', make_notify_line,
    Line.notify?]

theorem announced_step (config : Config) (server : Server) (action : PoolContext × Event) :
    (step config server action).announced =
      new_notifies server.session (step config server action).session ++ server.announced := by
  have hstill : server.announced = new_notifies server.session server.session ++ server.announced := by
    rw [new_notifies_of_readied (Unchanged.refl _).toReadied, nil_append]
  obtain ⟨ctx, event⟩ := action
  cases event with
  | line request =>
    cases hflight : server.share with
    | some _ => simpa only [step, hflight] using hstill
    | none =>
      simp only [step, hflight, handle_line]
      split <;> rfl
  | finish_submit =>
    cases hflight : server.share with
    | none => simpa only [step, hflight] using hstill
    | some share =>
      simp only [step, hflight]
      rfl
  | send_notify job clean => rfl
  | send_set_difficulty => rfl
  | maybe_retarget => rfl

end Server

end erikslund.stratum
