import SoloPool.Sv2.Session.Issues
import SoloPool.Sv2.Session.Prepare
import SoloPool.Sv2.Session.WellFormed

namespace erikslund.sv2

open util stratum Option

/-- The share history, with the job it was last rotated for. -/
def Session.history (s : Session) : Option Job × Nat × Generations ShareKey :=
  (s.last_clean_job, s.last_clean_publication_sequence, s.seen_shares)

/-- What a commit that rotates the history leaves: its channel has the one job. -/
structure Issue.Rotated (issue : Issue) (s s' : Session) : Prop where
  rotates : issue.Rotates s
  seen_shares : s'.seen_shares = s.seen_shares.rotateIfNonempty
  jobs : ∀ c ∈ s'.find_channel issue.channel.id, ∀ entry ∈ c.jobs, entry.1 = issue.plan.job_id

/-- The share history stays as it is, or the commit of a critical section rotates it. -/
def HistoryKept (issue : Option Issue) (s s' : Session) : Prop :=
  s'.seen_shares = s.seen_shares ∨ ∃ issued ∈ issue, issued.Rotated s s'

theorem Session.eq_of_find_store {s : Session} {c c' : Channel}
    (hfind : (s.store_channel c).find_channel c.id = some c') : c' = c := by
  obtain ⟨stored, -, hstored⟩ := List.mem_map.mp (List.mem_of_find?_eq_some hfind)
  have hid : c'.id = c.id := find_channel_id hfind
  split at hstored
  · exact hstored.symm
  · rename_i hother
    exact absurd (hstored ▸ hid) hother

namespace HistoryKept

open Session

variable {config : Config} {ctx : PoolContext} {issue : Option Issue} {s s₁ s' : Session}

theorem after_eq (heq : s₁.history = s.history) (h : HistoryKept issue s₁ s') : HistoryKept issue s s' := by
  simp only [history, Prod.mk.injEq] at heq
  obtain ⟨hjob, hsequence, hseen⟩ := heq
  rcases h with h | ⟨issued, hissued, hrotates, hrotated, hjobs⟩
  · exact .inl (h.trans hseen)
  · refine .inr ⟨issued, hissued, ?_, by rw [hrotated, hseen], hjobs⟩
    rwa [Issue.Rotates, hjob, hsequence] at hrotates

theorem of_remembers {key : ShareKey} (h : HistoryKept issue s s') (hkey : s'.seen_shares.Remembers key) :
    s.seen_shares.Remembers key := by
  rcases h with h | ⟨_, _, h⟩
  · rwa [h] at hkey
  · rw [h.seen_shares] at hkey
    exact Generations.rotateIfNonempty_remembers hkey

theorem commit_job (c : Channel) (plan : JobBuildPlan) (work : Work) (clean : Bool) (now : ℚ) :
    HistoryKept (some ⟨c, plan, clean⟩) s (s.commit_job_locked c plan work clean now).1 := by
  simp only [commit_job_locked]
  cases hclean : clean || requires_new_prevhash_locked c plan.source_job with
  | false => split <;> exact .inl rfl
  | true =>
    by_cases hlast : s.last_clean_job = some plan.source_job ∧
        s.last_clean_publication_sequence = plan.source_job.publication_sequence
    · rw [if_pos rfl, rotate_share_history_for_clean_job_locked, if_pos hlast]
      split <;> exact .inl rfl
    · rw [if_pos rfl, rotate_share_history_for_clean_job_locked, if_neg hlast]
      refine .inr ⟨_, rfl, ⟨hclean, hlast⟩, by split <;> rfl, fun c' hfind entry hentry => ?_⟩
      have hjobs : c'.jobs = (add_issued_job c plan work true).jobs := by
        split at hfind
        · rw [eq_of_find_store (c := add_issued_job c plan work true) hfind]
        · rw [eq_of_find_store (c := set_previous_hash (add_issued_job c plan work true) plan.source_job now) hfind]
          rfl
      rw [hjobs] at hentry
      rw [List.mem_singleton.mp (List.mem_of_mem_drop hentry)]

theorem prepare_job (config : Config) (s : Session) (c : Channel) (job : Job) (announced : Option Bytes) :
    (s.prepare_job_locked config c job announced).2.history = s.history := by
  unfold prepare_job_locked
  cases c.kind <;> cases announced <;> rfl

theorem issue_job (c : Channel) (job : Job) (clean : Bool) (announced : Option Bytes) (now : ℚ)
    (hissue : issue = s.built_issue config c job clean announced) :
    HistoryKept issue s (s.issue_job_locked config c job clean announced now).1 := by
  subst hissue
  have hprepared := prepare_job config s c job announced
  unfold issue_job_locked built_issue
  cases hwork : build_job_work (s.prepare_job_locked config c job announced).1 with
  | error error =>
    simp only [hwork]
    exact after_eq hprepared (.inl rfl)
  | ok work =>
    simp only [hwork]
    exact after_eq hprepared (commit_job ..)

theorem open_channel (msg : OpenMiningChannel) (kind : ChannelKind) :
    HistoryKept (s.open_issue config ctx msg kind) s
      (s.open_channel_locked config ctx msg kind).1 := by
  simp only [open_channel_locked, open_issue]
  split
  · exact .inl rfl
  split
  · exact .inl rfl
  cases s.checked_hash_rate config kind msg.nominal_hash_rate with
  | none => exact .inl rfl
  | some rate =>
    simp only [bind_some]
    split
    · exact .inl rfl
    cases ctx.validate_address ((log.sanitize msg.user_identity).takeWhile (· ≠ '.')) with
    | none => exact .inl rfl
    | some payout_script =>
      cases ctx.current_job with
      | none => exact .inl rfl
      | some job =>
        simp only [bind_some, admit_channel]
        split
        · exact .inl rfl
        · cases kind <;> refine after_eq ?_ (issue_job _ _ _ _ _ ?_) <;> rfl

theorem open_extended (msg : OpenMiningChannel) (size : Nat) :
    HistoryKept (s.open_extended_issue config ctx msg size) s
      (s.handle_open_extended_locked config ctx msg size).1 := by
  unfold handle_open_extended_locked open_extended_issue
  split
  · exact .inl rfl
  split
  · exact .inl rfl
  · exact open_channel msg .Extended

theorem built_issue_store (config : Config) (s : Session) (c c' : Channel) (job : Job) (clean : Bool) :
    (s.store_channel c').built_issue config c job clean none = s.built_issue config c job clean none := by
  unfold built_issue prepare_job_locked
  cases c.kind <;> rfl

theorem update (msg : UpdateChannel) :
    HistoryKept ((s.update_issue config ctx msg).bind fun (channel, current_job) =>
        s.built_issue config channel current_job (requires_new_prevhash_locked channel current_job) none) s
      (s.handle_update_locked config ctx msg).1 := by
  simp only [handle_update_locked, update_issue]
  cases s.find_channel msg.channel_id with
  | none => exact .inl rfl
  | some found =>
    simp only [bind_some]
    cases s.checked_hash_rate config found.kind msg.nominal_hash_rate with
    | none => exact .inl rfl
    | some rate =>
      simp only [bind_some]
      split
      · exact .inl rfl
      split
      · exact .inl rfl
      split
      · cases ctx.current_job with
        | none => exact .inl rfl
        | some job =>
          simp only [map_some, bind_some]
          refine after_eq ?_ (issue_job _ _ _ _ _ (built_issue_store ..).symm)
          rfl
      · exact .inl rfl

theorem close (channel_id : Nat) : HistoryKept issue s (s.handle_close_locked channel_id) := by
  unfold handle_close_locked
  repeat' split
  all_goals exact .inl rfl

theorem setup (msg : SetupConnection) : HistoryKept issue s (s.handle_setup_locked msg) := by
  simp only [handle_setup_locked]
  repeat' split
  all_goals exact .inl rfl

theorem finish (share : ShareSubmission) (prepared : PreparedShare) :
    (s.finish_share ctx share prepared).seen_shares = s.seen_shares := by
  unfold finish_share
  cases validate_share share prepared ctx.time with
  | error rejection =>
    dsimp only
    cases s.find_channel share.channel_id <;> rfl
  | ok result =>
    dsimp only
    cases s.find_channel share.channel_id <;> split <;> rfl

theorem retarget (todo : List Channel) :
    (todo.foldl (retarget_channel ctx) s).seen_shares = s.seen_shares := by
  induction todo generalizing s with
  | nil => rfl
  | cons c rest ih =>
    rw [List.foldl_cons, ih]
    simp only [retarget_channel]
    repeat' split
    all_goals rfl

theorem prepare_publication (job : Job) :
    (s.prepare_publication config job).2.history = s.history := by
  apply prepare_publication_rule (motive := fun prepared => prepared.2.history = s.history)
  · rfl
  · intro plans s₁ c _ h
    exact (prepare_job config s₁ c job none).trans h

/-- A frame either submits a share or leaves none to validate and keeps the history. -/
theorem dispatch (config : Config) (ctx : PoolContext) (s : Session) (frame : Frame) :
    (HistoryKept (s.frame_issue config ctx frame) s (s.dispatch_locked config ctx frame).session ∧
        (s.dispatch_locked config ctx frame).share = none) ∨
      ∃ share, submitted frame = some share ∧
        s.dispatch_locked config ctx frame = s.handle_share ctx share := by
  unfold dispatch_locked
  split
  · exact .inl ⟨.inl rfl, rfl⟩
  rename_i hextension
  split
  · split
    · exact .inl ⟨.inl rfl, rfl⟩
    split
    · exact .inl ⟨setup _, rfl⟩
    · exact .inl ⟨.inl rfl, rfl⟩
  rename_i hsetup
  split
  · exact .inl ⟨.inl rfl, rfl⟩
  rename_i hfirst
  split
  · exact .inl ⟨.inl rfl, rfl⟩
  rename_i hrouted
  have hpassed : s.routed frame = some frame.payload := by simp_all [routed]
  simp only [frame_issue, hpassed]
  cases hpayload : frame.payload with
  | open_standard_mining_channel msg => exact .inl ⟨open_channel msg _, rfl⟩
  | open_extended_mining_channel msg size => exact .inl ⟨open_extended msg size, rfl⟩
  | update_channel msg => exact .inl ⟨update msg, rfl⟩
  | close_channel channel_id => exact .inl ⟨close channel_id, rfl⟩
  | submit_shares_standard msg => exact .inr ⟨_, by rw [submitted, hpayload], rfl⟩
  | submit_shares_extended msg extranonce => exact .inr ⟨_, by rw [submitted, hpayload], rfl⟩
  | _ => exact .inl ⟨.inl rfl, rfl⟩

theorem after_dispatch {dispatched : Dispatched} (h : HistoryKept issue s dispatched.session) :
    HistoryKept issue s (Session.after_dispatch dispatched) := by
  unfold Session.after_dispatch
  split
  · exact h
  · exact h.imp_right fun ⟨issued, hmem, hrotates, hseen, hjobs⟩ => ⟨issued, hmem, hrotates, hseen, hjobs⟩

theorem resume (call : Call) : HistoryKept (s.call_issue call) s (s.resume_call config ctx call).1 := by
  cases call with
  | publishing job clean =>
    simp only [resume_call]
    split
    · exact .inl rfl
    · exact after_eq (prepare_publication job) (.inl rfl)
  | publish job clean plans =>
    cases plans with
    | nil => exact .inl rfl
    | cons plan plans =>
      have hcommit : HistoryKept (s.call_issue (.publish job clean (plan :: plans))) s
          (s.commit_publication job clean plan ctx.steady_seconds).1 := by
        simp only [commit_publication, call_issue, bind_eq_bind]
        cases hwork : build_job_work plan with
        | error error => exact .inl rfl
        | ok work =>
          cases hfind : s.find_channel plan.channel_id with
          | none => exact .inl rfl
          | some c =>
            by_cases hold : job.publication_sequence ≠ 0 ∧ job.publication_sequence ≤ c.last_publication_sequence
            · simp only [if_pos hold]
              exact .inl rfl
            · simp only [if_neg hold, bind_some]
              rw [if_pos ⟨rfl, hold⟩]
              exact commit_job ..
      simp only [resume_call]
      split <;> rename_i hresult <;> rw [hresult] at hcommit <;> exact hcommit
  | refreshing job =>
    simp only [resume_call, prepare_refresh]
    cases s.channels.find? _ with
    | none => exact .inl rfl
    | some c => exact .inl (congrArg (fun history => history.2.2) (prepare_job config s c job none))
  | refresh job plan =>
    simp only [resume_call, commit_refresh, call_issue, bind_eq_bind]
    cases hwork : build_job_work plan with
    | error error => exact .inl rfl
    | ok work =>
      cases hfind : s.find_channel plan.channel_id with
      | none => exact .inl rfl
      | some c =>
        dsimp only
        split
        · exact .inl rfl
        rename_i hneeds
        split
        · exact .inl rfl
        rename_i hfresh
        rw [bind_some, if_pos ⟨rfl, hneeds, hfresh⟩]
        exact commit_job ..

end HistoryKept

/-- What a step does to the history, the share in flight and the two records. -/
inductive HistoryStep (config : Config) (ctx : PoolContext) (event : Event) (server server' : Server) : Prop
  /-- No share is involved. -/
  | kept (hseen : HistoryKept (server.issue config ctx event) server.session server'.session)
      (hshare : server'.share = server.share) (hremembered : server'.remembered = server.remembered) (haccepted : server'.accepted = server.accepted)
  /-- A share is looked at: `prepared` is what `prepare_share_locked` makes of it. -/
  | submitted (share : ShareSubmission) (hidle : server.share = none)
      (hseen : server'.session.seen_shares =
        (server.session.prepare_share_locked ctx share).1.seen_shares)
      (hshare : server'.share =
        (server.session.prepare_share_locked ctx share).2.map (fun prepared => (share, prepared)))
      (hremembered : server'.remembered = (if ¬ server.session.seen_shares.Remembers share.key ∧
        (server.session.prepare_share_locked ctx share).1.seen_shares.Remembers share.key
          then [share.key] else []) ++ server.remembered)
      (haccepted : server'.accepted = server.accepted)
  /-- The share in flight is answered. -/
  | finished (share : ShareSubmission) (prepared : PreparedShare) (hflight : server.share = some (share, prepared))
      (hseen : server'.session.seen_shares = server.session.seen_shares) (hshare : server'.share = none)
      (hremembered : server'.remembered = server.remembered)
      (haccepted : server'.accepted = server.accepted ∨ server'.accepted = share.key :: server.accepted)

theorem history_step (config : Config) (server : Server) (ctx : PoolContext) (event : Event) :
    HistoryStep config ctx event server (Server.step config server (ctx, event)) := by
  have hself : HistoryStep config ctx event server server := .kept (.inl rfl) rfl rfl rfl
  cases event with
  | frame frame =>
    cases hshare : server.share with
    | some inflight =>
      have hstep : Server.step config server (ctx, .frame frame) = server := by simp [Server.step, hshare]
      rwa [hstep]
    | none =>
      simp only [Server.step, hshare]
      rcases HistoryKept.dispatch config ctx server.session frame with
        ⟨hkept, hnone⟩ | ⟨share, hsubmitted, hdispatch⟩
      · refine .kept ?_ (hnone.trans hshare.symm) ?_ rfl
        · rw [Server.issue, if_pos hshare]
          exact HistoryKept.after_dispatch hkept
        · have hforget : Server.remembered_key server.session
              (server.session.dispatch_locked config ctx frame).session frame = none := by
            rw [Server.remembered_key, filter_eq_none_iff]
            intro key _ hfresh
            simp only [decide_eq_true_eq] at hfresh
            exact hfresh.1 (hkept.of_remembers hfresh.2)
          simp [hforget]
      · refine .submitted share hshare ?_ (by rw [hdispatch]; rfl) ?_ rfl
        · rw [hdispatch]
          rfl
        · rw [hdispatch, Server.remembered_key, hsubmitted, map_some, filter_some]
          by_cases hnew : ¬ server.session.seen_shares.Remembers share.key ∧
              (server.session.prepare_share_locked ctx share).1.seen_shares.Remembers share.key
          · simp [hnew, Session.handle_share]
          · simp only [Session.handle_share, hnew, if_false]
            simp
  | finish_share =>
    cases hshare : server.share with
    | none =>
      have hstep : Server.step config server (ctx, .finish_share) = server := by simp [Server.step, hshare]
      rwa [hstep]
    | some inflight =>
      obtain ⟨share, prepared⟩ := inflight
      simp only [Server.step, hshare]
      refine .finished share prepared hshare (HistoryKept.finish share prepared) rfl rfl ?_
      dsimp only
      split
      · exact .inr rfl
      · exact .inl rfl
  | deliver_blocks =>
    simp only [Server.step]
    split
    · exact hself
    · exact .kept (.inl rfl) rfl rfl rfl
  | publish_job job_id clean =>
    simp only [Server.step]
    split
    · exact hself
    · exact .kept (.inl rfl) rfl rfl rfl
  | maybe_refresh_job =>
    simp only [Server.step]
    split
    · exact hself
    · exact .kept (.inl rfl) rfl rfl rfl
  | resume index =>
    simp only [Server.step]
    split
    · exact hself
    · rename_i call hcall
      refine .kept ?_ rfl rfl rfl
      simpa only [Server.issue, hcall, bind_some] using HistoryKept.resume call
  | maybe_retarget =>
    refine .kept (.inl ?_) rfl rfl rfl
    simp only [Server.step, Session.maybe_retarget]
    split
    · rfl
    · exact HistoryKept.retarget _

end erikslund.sv2
