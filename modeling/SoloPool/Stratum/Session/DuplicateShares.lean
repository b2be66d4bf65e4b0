import SoloPool.Stratum.Session.Steps

namespace erikslund.stratum

open util Transition Session

/-- Clean work is announced only when no submission on a job the pool still returns is held by
the older generation of the share history alone. -/
def KeepsRecentKeys (server : Server) (action : PoolContext × Event) : Prop :=
  action.2.Cleans action.1 server → server.session.seen_shares.current ≠ ∅ →
    ∀ submission ∈ server.remembered, submission.make_dedup_key ∈ server.session.seen_shares.previous →
      submission.make_dedup_key ∉ server.session.seen_shares.current → action.1.recent_job submission.job_id = none

instance (server : Server) (action : PoolContext × Event) : Decidable (KeepsRecentKeys server action) :=
  inferInstanceAs (Decidable (_ → _ → ∀ submission ∈ server.remembered, _))

/-- A step other than a submit leaves the share history, or rotates it. -/
theorem Session.Moved.seen_shares {ctx : PoolContext} {source : Session → Job → Bool → Prop} {s s' : Session}
    (hmoved : Moved ctx source s s') :
    s'.seen_shares = s.seen_shares ∨ s'.seen_shares = s.seen_shares.rotateIfNonempty := by
  cases hmoved with
  | quiet hreadied _ => exact .inl hreadied.seen_shares
  | announced mid job clean script hreadied _ hnotified =>
    rw [hnotified.seen_shares, hreadied.seen_shares]
    cases clean
    · exact .inl rfl
    · exact .inr rfl

namespace Server

/-- The submissions accepted or being validated have been remembered, and the live
generation holds no more keys than that. -/
structure Recorded (server : Server) : Prop where
  counted : server.session.seen_shares.current.card ≤ server.remembered.length
  accepted : ∀ submission ∈ server.accepted, submission ∈ server.remembered
  share : ∀ share ∈ server.share, share.1 ∈ server.remembered

variable {config : Config} {server : Server} {action : PoolContext × Event} {submission : Submission} {base : Nat}

theorem remembered_le (config : Config) (server : Server) (action : PoolContext × Event) :
    server.remembered.length ≤ (step config server action).remembered.length := by
  obtain ⟨ctx, event⟩ := action
  cases stepped config server ctx event with
  | moved _ _ _ hremembered _ => rw [hremembered]
  | submitted _ _ _ _ _ _ _ hremembered _ => simp [hremembered]
  | finished _ _ _ _ _ hremembered _ => rw [hremembered]

theorem init_recorded (ctx : PoolContext) (extranonce1 : Bytes) : (init ctx extranonce1).Recorded :=
  ⟨Nat.le_refl 0, by simp [init], by simp [init]⟩

theorem Recorded.step (hrecorded : server.Recorded) (config : Config) (action : PoolContext × Event) :
    (step config server action).Recorded := by
  obtain ⟨ctx, event⟩ := action
  cases stepped config server ctx event with
  | moved hmoved _ hshare hremembered haccepted =>
    refine ⟨?_, by rw [haccepted, hremembered]; exact hrecorded.accepted,
      by rw [hshare, hremembered]; exact hrecorded.share⟩
    rw [hremembered]
    rcases hmoved.seen_shares with h | h <;> rw [h]
    · exact hrecorded.counted
    · exact (Generations.rotateIfNonempty_card_le _).trans hrecorded.counted
  | submitted submission job prepared hidle _ htaken hshare hremembered haccepted =>
    refine ⟨?_, ?_, ?_⟩
    · rw [htaken.seen_shares, hremembered]
      exact (Generations.remember_card_le ..).trans (Nat.succ_le_succ hrecorded.counted)
    · rw [haccepted, hremembered]
      exact fun accepted hmem => List.mem_cons_of_mem _ (hrecorded.accepted accepted hmem)
    · rw [hshare, hremembered]
      cases prepared <;> simp
  | finished submission prepared hflight hunchanged hshare hremembered haccepted =>
    refine ⟨by rw [hunchanged.seen_shares, hremembered]; exact hrecorded.counted, ?_, by simp [hshare]⟩
    have hin : submission ∈ server.remembered := hrecorded.share _ hflight
    rw [hremembered]
    rcases haccepted with h | h <;> rw [h]
    · exact List.forall_mem_cons.mpr ⟨hin, hrecorded.accepted⟩
    · exact hrecorded.accepted

/-- Shares accepted so far for this submission, with one that is being validated. -/
def credits (server : Server) (submission : Submission) : Nat :=
  server.accepted.count submission +
    if server.share.map (fun share => share.1) = some submission then 1 else 0

/-- What has not been remembered has no credit. -/
theorem Recorded.credits_eq_zero (hrecorded : server.Recorded) (hnew : submission ∉ server.remembered) :
    server.credits submission = 0 := by
  have haccepted : submission ∉ server.accepted := fun h => hnew (hrecorded.accepted _ h)
  have hshare : server.share.map (fun share => share.1) ≠ some submission := by
    intro h
    obtain ⟨share, hflight, rfl⟩ := Option.map_eq_some_iff.mp h
    exact hnew (hrecorded.share _ hflight)
  simp [credits, List.count_eq_zero_of_not_mem haccepted, hshare]

theorem credited_once_step (hrecorded : server.Recorded)
    (honce : server.session.seen_shares.CreditedOnce submission.make_dedup_key base (server.credits submission))
    (hkeeps : KeepsRecentKeys server action)
    (hfew : (step config server action).remembered.length < kMaxSeenShares)
    (hrecent : (action.1.recent_job submission.job_id).isSome) :
    (step config server action).session.seen_shares.CreditedOnce submission.make_dedup_key base
      ((step config server action).credits submission) := by
  have hroom : server.session.seen_shares.current.card < kMaxSeenShares :=
    (hrecorded.counted.trans (remembered_le config server action)).trans_lt hfew
  obtain ⟨ctx, event⟩ := action
  cases stepped config server ctx event with
  | moved hmoved _ hshare _ haccepted hcleans =>
    have hcredits : (step config server (ctx, event)).credits submission = server.credits submission := by
      rw [credits, hshare, haccepted, credits]
    by_cases hin : submission ∈ server.remembered
    · refine honce.keep hcredits.le (fun hkey => ?_)
      rcases hcleans with hseen | hcleans
      · rwa [hseen]
      rcases hmoved.seen_shares with hseen | hseen
      · rwa [hseen]
      · rw [hseen]
        refine Generations.rotateIfNonempty_keeps hkey (fun hlive hprevious => ?_)
        by_contra hold
        have hnone : ctx.recent_job submission.job_id = none :=
          hkeeps hcleans hlive submission hin hprevious hold
        simp [hnone] at hrecent
    · exact .inl (by simp [hcredits, hrecorded.credits_eq_zero hin])
  | finished _ prepared hflight hunchanged hshare _ haccepted =>
    refine honce.keep ?_ (fun hkey => by rwa [hunchanged.seen_shares])
    rcases haccepted with haccepted | haccepted
    · simp [credits, hshare, haccepted, hflight, List.count_cons]
    · simp [credits, hshare, haccepted]
  | submitted taken job prepared hidle _ htaken hshare _ haccepted =>
    rw [htaken.seen_shares]
    refine honce.remember hroom htaken.fresh ?_
    simp only [credits, haccepted, hshare, hidle]
    by_cases hsame : taken = submission
    · subst hsame
      cases prepared <;> simp
    · cases prepared <;> simp [hsame]

end Server

/-- In a run that remembers fewer than `kMaxSeenShares` submissions and in which no rotation
drops a submission on a job the pool still returns, a submission is accepted at most once
while the pool returns its job. -/
theorem accepted_once_while_recent {config : Config} {ctx : PoolContext} {extranonce1 : Bytes}
    {before after : List (PoolContext × Event)} {submission : Submission}
    (hkeeps : Guarded (Server.step config) KeepsRecentKeys (Server.init ctx extranonce1)
      (before ++ after))
    (hfew : (Server.reached config ctx extranonce1 (before ++ after)).remembered.length < kMaxSeenShares)
    (hidle : (Server.reached config ctx extranonce1 before).share = none)
    (hrecent : ∀ action ∈ after, (action.1.recent_job submission.job_id).isSome) :
    (Server.reached config ctx extranonce1 (before ++ after)).accepted.count submission ≤
      (Server.reached config ctx extranonce1 before).accepted.count submission + 1 := by
  rw [Server.reached_append] at hfew ⊢
  have hrecorded : (Server.reached config ctx extranonce1 before).Recorded :=
    run_invariant_always (fun _ action h => h.step config action) before (Server.init_recorded ..)
  have hguard := guarded_and (guarded_and (guarded_append.mp hkeeps).2
    (guarded_of_bound (Server.remembered_le config) hfew)) (guarded_of_forall hrecent _)
  change Guarded _ _ (Server.reached config ctx extranonce1 before) after at hguard
  generalize Server.reached config ctx extranonce1 before = server at *
  have hstart : server.session.seen_shares.CreditedOnce submission.make_dedup_key
      (server.accepted.count submission) (server.credits submission) :=
    .inl (by simp [Server.credits, hidle])
  have hend := run_invariant
    (fun s action (h : s.Recorded ∧ s.session.seen_shares.CreditedOnce submission.make_dedup_key
        (server.accepted.count submission) (s.credits submission)) hguard =>
      ⟨h.1.step config action, Server.credited_once_step h.1 h.2 hguard.1.1 hguard.1.2 hguard.2⟩)
    ⟨hrecorded, hstart⟩ hguard
  exact (Nat.le_add_right _ _).trans hend.2.le

namespace ReauthorizedMiner

/-- A pool that accepts one job throughout, with the difficulties its own session tests use. -/
def pool (job : Job) : PoolContext where
  current_job := some job
  recent_job := fun job_id => if job_id = job.job_id then some job else none
  runtime_config := { initial_difficulty := 1 / 10 ^ 10, minimum_difficulty := 1 / 10 ^ 12 }
  validate_address := fun _ => some []
  steady_seconds := 0
  time := 1000

def job : Job := .minimal "1".toList 1 1000 1

def request (method : Method) (params : List String) : PoolContext × Event :=
  (pool job, .line { method, params := params.map String.toList })

/-- A share on the one job, whole. -/
def submitting (nonce : String) : List (PoolContext × Event) :=
  [request .submit ["miner", "1", "0000000000000000", "000003e8", nonce], (pool job, .finish_submit)]

def before : List (PoolContext × Event) := [request .subscribe [], request .authorize ["miner"]]

/-- The share `first` is submitted twice, with two more authorizations between, each after a
share of its own generation. -/
def after : List (PoolContext × Event) :=
  submitting "00000001" ++ [request .authorize ["miner"]] ++ submitting "00000002" ++
    [request .authorize ["miner"]] ++ submitting "00000001"

def first : Submission :=
  ⟨"1".toList, "0000000000000000".toList, "000003e8".toList, "00000001".toList, none, 0⟩

end ReauthorizedMiner

open ReauthorizedMiner in
/-- One submission is accepted twice on a job the pool returns throughout: each authorization
announces clean work and so rotates the history. -/
theorem authorizations_forget_recent_share :
    (Server.reached {} (pool job) [0, 0, 0, 1] (before ++ after)).remembered.length < kMaxSeenShares ∧
      (Server.reached {} (pool job) [0, 0, 0, 1] before).share = none ∧
      (∀ action ∈ before ++ after, action.1.recent_job first.job_id = some job) ∧
      (Server.reached {} (pool job) [0, 0, 0, 1] before).accepted.count first = 0 ∧
      (Server.reached {} (pool job) [0, 0, 0, 1] (before ++ after)).accepted.count first = 2 := by
  decide +kernel

open ReauthorizedMiner in
/-- Repeated after one authorization, the share is accepted once. -/
theorem accepted_once_while_recent_repeated :
    (Server.reached {} (pool job) [0, 0, 0, 1] (before ++ (submitting "00000001" ++
      [request .authorize ["miner"]] ++ submitting "00000001"))).accepted.count first ≤
    (Server.reached {} (pool job) [0, 0, 0, 1] before).accepted.count first + 1 :=
  accepted_once_while_recent (by decide +kernel) (by decide +kernel) (by decide) (by decide)

end erikslund.stratum
