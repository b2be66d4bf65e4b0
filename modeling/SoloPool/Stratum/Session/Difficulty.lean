import Mathlib.Tactic.Linarith
import SoloPool.Stratum.Session.Steps

namespace erikslund.stratum

open util List

/-- What the lines sent tell a miner about its difficulty: the last one announced, and those
it may be using for the current job. -/
structure Told where
  in_force : Option ℚ
  in_use : List ℚ
deriving DecidableEq

def Told.next_job (told : Told) : Told := ⟨told.in_force, told.in_force.toList⟩

/-- A miner may apply a new difficulty at once, or from the next job on. -/
def Told.hear (told : Told) : Line → Told
  | .set_difficulty difficulty => ⟨some difficulty, difficulty :: told.in_use⟩
  | .notify _ => told.next_job
  | _ => told

def told (lines : List Line) : Told := lines.foldl Told.hear ⟨none, []⟩

theorem told_append (lines : List Line) (line : Line) : told (lines ++ [line]) = (told lines).hear line := by
  rw [told, foldl_append]
  rfl

namespace Session

variable {config : Config} {ctx : PoolContext} {s s' mid : Session} {asked : Option ℚ}

/-- The threshold of a share submitted now. -/
def accept_difficulty (s : Session) : ℚ :=
  if s.pending_difficulty_change then min s.difficulty s.previous_difficulty else s.difficulty

theorem handle_submit_accept {request : Request} {prepared : PreparedSubmit}
    (h : (s.handle_submit config ctx request).2 = some prepared) :
    prepared.accept_difficulty = s.accept_difficulty := by
  unfold handle_submit at h
  split at h
  · cases h
  split at h
  · cases h
  split at h
  · cases h
  split at h
  · cases h
  split at h
  · cases h
  split at h
  · cases h
  rename_i seen_shares hremember
  dsimp only at h
  rcases Option.eq_none_or_eq_some s.payout_script with hpayout | ⟨script, hpayout⟩
  · simp only [coinbase2_for, hpayout] at h
    cases h
  · rw [@coinbase2_for_eq { s with seen_shares } script hpayout] at h
    cases h
    rfl

/-- The threshold is not above any difficulty the miner may be using. -/
def Lenient (s : Session) : Prop := ∀ difficulty ∈ (told s.sent).in_use, s.accept_difficulty ≤ difficulty

/-- The fields a change of difficulty is made of. -/
def tuning (s : Session) : ℚ × ℚ × Bool := (s.difficulty, s.previous_difficulty, s.pending_difficulty_change)

theorem accept_difficulty_congr (h : s'.tuning = s.tuning) : s'.accept_difficulty = s.accept_difficulty := by
  simp only [tuning, Prod.mk.injEq] at h
  rw [accept_difficulty, accept_difficulty, h.1, h.2.1, h.2.2]

theorem accept_difficulty_le (s : Session) : s.accept_difficulty ≤ s.difficulty := by
  unfold accept_difficulty
  split
  · exact min_le_left _ _
  · exact le_rfl

/-- A critical section that leaves the difficulty, and what the miner knows of it, alone. -/
structure Kept (s s' : Session) : Prop where
  tuning : s'.tuning = s.tuning
  told : told s'.sent = told s.sent
  ready : s'.Ready → s.Ready

theorem Kept.refl (s : Session) : Kept s s := ⟨rfl, rfl, fun h => h⟩

theorem Kept.send_line (h : Kept s s') {line : Line} (hline : ∀ told : Told, told.hear line = told) :
    Kept s (s'.send_line line) :=
  ⟨h.tuning, by rw [Session.send_line, told_append, hline, h.told], h.ready⟩

theorem Kept.send_error (h : Kept s s') (id : RequestId) (error : StratumError) : Kept s (s'.send_error id error) := by
  have hcounted (errors : Nat) : Kept s { s' with protocol_errors := errors } := ⟨h.tuning, h.told, h.ready⟩
  exact (hcounted _).send_line fun _ => rfl

theorem Kept.reject_submit (id : RequestId) (reason : RejectClass) (error : StratumError) :
    Kept s (s.reject_submit id reason error) := by
  have hrejected : Kept s ({ s with shares_rejected := s.shares_rejected + 1 }.call_pool
      (.note_rejected_share (s.address.getD []) (s.worker.getD []) reason)) := ⟨rfl, rfl, fun h => h⟩
  exact hrejected.send_error id error

/-- The difficulty a `mining.suggest_difficulty` asks for, as it is clamped. -/
def suggested (ctx : PoolContext) (request : Request) : Option ℚ :=
  match request.method with
  | .suggest_difficulty => request.suggested_difficulty.bind (fun suggested =>
      clamp_suggested_difficulty suggested ctx.runtime_config.minimum_difficulty
        ctx.runtime_config.maximum_difficulty)
  | _ => none

/-- The difficulty a retarget that is due computes. -/
def retargeted (ctx : PoolContext) (s : Session) : Option ℚ :=
  let config := ctx.runtime_config
  let elapsed := ctx.steady_seconds - s.last_retarget
  if ¬ config.variable_difficulty ∨ ¬ s.authorized then none
  else if elapsed < config.vardiff_retarget_seconds then none
  else some (vardiff_next s.difficulty (if elapsed > 0 then s.shares_since_retarget / elapsed * 60 else 0)
    config.vardiff_target_shares_per_minute config.minimum_difficulty config.maximum_difficulty)

/-- What a critical section that asks for the difficulty `asked` can do to the difficulty. -/
inductive Tuned (asked : Option ℚ) (s s' : Session) : Prop where
  | kept (h : Kept s s') (hasked : ∀ difficulty ∈ asked, difficulty = s.difficulty)
  | repeated (htuning : s'.tuning = s.tuning)
      (htold : told s'.sent = (told s.sent).hear (.set_difficulty s.difficulty)) (hasked : asked = none)
  | changed (hasked : asked = some s'.difficulty) (hprevious : s'.previous_difficulty =
        if s.pending_difficulty_change then s.previous_difficulty else s.difficulty)
      (hpending : s'.pending_difficulty_change = true)
      (htold : told s'.sent = (told s.sent).hear (.set_difficulty s'.difficulty) ∨
        told s'.sent = told s.sent ∧ ¬ s'.Ready)
  | notified (hdifficulty : s'.difficulty = s.difficulty) (hpending : s'.pending_difficulty_change = false)
      (htold : told s'.sent = (told s.sent).next_job ∧ s.Ready ∨
        told s'.sent = ((told s.sent).hear (.set_difficulty s.difficulty)).next_job)
      (hasked : asked = none)

theorem Tuned.quiet (h : Kept s s') : Tuned none s s' := .kept h fun _ h => nomatch h

theorem difficulty_of_tuning (h : s'.tuning = s.tuning) : s'.difficulty = s.difficulty := congrArg Prod.fst h

/-- Work is sent behind the difficulty it is sent with. -/
theorem send_difficulty_then_work_tuned (htuning : mid.tuning = s.tuning) (htold : told mid.sent = told s.sent)
    (ctx : PoolContext) : Tuned none s (mid.send_difficulty_then_work ctx) := by
  have hdifficulty := difficulty_of_tuning htuning
  have hrepeated : Tuned none s (mid.send_line (.set_difficulty mid.difficulty)) := by
    refine .repeated htuning ?_ rfl
    rw [send_line, told_append, htold, hdifficulty]
  unfold send_difficulty_then_work
  cases ctx.current_job with
  | none => exact hrepeated
  | some job =>
    dsimp only
    by_cases hready : mid.Ready
    · obtain ⟨script, hpayout⟩ := hready.payout
      rw [build_notify_line_of_ready hready hpayout]
      refine .notified hdifficulty rfl (.inr ?_) rfl
      simp only [send_line, make_notify_line]
      rw [told_append, told_append, ← hdifficulty, ← htold]
      rfl
    · rw [build_notify_line_of_not_ready hready]
      exact hrepeated

theorem send_notify_tuned (job : Job) (clean : Bool) : Tuned none s (s.send_notify job clean) := by
  unfold send_notify
  split
  · exact .quiet (.refl s)
  by_cases hready : s.Ready
  · obtain ⟨script, hpayout⟩ := hready.payout
    rw [build_notify_line_of_ready hready hpayout]
    refine .notified rfl rfl (.inl ⟨?_, hready⟩) rfl
    simp only [send_line, make_notify_line]
    rw [told_append]
    rfl
  · rw [build_notify_line_of_not_ready hready]
    exact .quiet (.refl s)

theorem maybe_retarget_tuned (ctx : PoolContext) :
    Tuned (s.retargeted ctx) s (s.maybe_retarget ctx) := by
  have hreset : Kept s { s with shares_since_retarget := 0, last_retarget := ctx.steady_seconds } :=
    ⟨rfl, rfl, fun h => h⟩
  have hnext (difficulty : ℚ) : Tuned (some difficulty) s (if difficulty ≠ s.difficulty then
        ({ s with shares_since_retarget := 0, last_retarget := ctx.steady_seconds }.begin_difficulty_change
          difficulty).do_send_set_difficulty
      else { s with shares_since_retarget := 0, last_retarget := ctx.steady_seconds }) := by
    split
    · refine .changed rfl rfl rfl (.inl ?_)
      rw [do_send_set_difficulty, send_line, told_append]
      rfl
    · rename_i hsame
      exact .kept hreset (by simpa using hsame)
  unfold maybe_retarget retargeted
  dsimp only
  split
  · exact .quiet (.refl s)
  split
  · exact .quiet (.refl s)
  · exact hnext _

theorem Tuned.send_result (h : Tuned asked s s') (id : RequestId) (result : Bool) :
    Tuned asked s (s'.send_result id result) := by
  have htold : told (s'.send_result id result).sent = told s'.sent := by
    rw [Session.send_result, send_line, told_append]
    rfl
  cases h with
  | kept h hasked => exact .kept (h.send_line fun _ => rfl) hasked
  | repeated htuning hrepeated hasked => exact .repeated htuning (htold.trans hrepeated) hasked
  | changed hasked hprevious hpending hchanged =>
    refine .changed hasked hprevious hpending ?_
    rw [htold]
    exact hchanged
  | notified hdifficulty hpending hnotified hasked =>
    refine .notified hdifficulty hpending ?_ hasked
    rw [htold]
    exact hnotified

theorem handle_suggest_difficulty_tuned {request : Request} (hmethod : request.method = .suggest_difficulty) :
    Tuned (suggested ctx request) s (s.handle_suggest_difficulty ctx request) := by
  simp only [handle_suggest_difficulty, suggested, hmethod]
  refine Tuned.send_result ?_ request.id true
  cases request.suggested_difficulty.bind _ with
  | none => exact .quiet (.refl s)
  | some clamped =>
    dsimp only
    split
    · rename_i hsame
      exact .kept (.refl s) (by simpa using hsame)
    split
    · refine .changed rfl rfl rfl (.inl ?_)
      rw [do_send_set_difficulty, send_line, told_append]
      rfl
    · rename_i hunsubscribed
      exact .changed rfl rfl rfl (.inr ⟨rfl, fun hready => hunsubscribed hready.1⟩)

theorem handle_subscribe_tuned (request : Request) : Tuned none s (s.handle_subscribe config ctx request) := by
  have htold (user_agent : Text) (line : Line) (hline : ∀ told : Told, told.hear line = told) :
      told ({ s with user_agent, subscribed := true }.send_line line).sent = told s.sent := by
    rw [send_line, told_append, hline]
  unfold handle_subscribe
  dsimp only
  split
  · apply send_difficulty_then_work_tuned
    · rfl
    · exact htold _ _ fun _ => rfl
  · rename_i hnot
    exact .quiet ⟨rfl, htold _ _ fun _ => rfl, fun hready => absurd hready.2 hnot⟩

theorem handle_authorize_tuned (request : Request) : Tuned none s (s.handle_authorize ctx request) := by
  unfold handle_authorize
  split
  · exact .quiet ((Kept.refl s).send_error _ _)
  split
  · exact .quiet ((Kept.refl s).send_error _ _)
  dsimp only
  split
  · exact .quiet ((Kept.refl s).send_line fun _ => rfl)
  · apply send_difficulty_then_work_tuned
    · rfl
    · rw [Session.send_result, send_line, told_append]
      rfl

theorem handle_configure_kept (request : Request) : Kept s (s.handle_configure config request) := by
  unfold handle_configure
  split
  · exact (Kept.refl s).send_line fun _ => rfl
  · have hmask (mask : UInt32) : Kept s { s with version_mask := mask } := ⟨rfl, rfl, fun h => h⟩
    exact (hmask _).send_line fun _ => rfl

theorem dispatch_tuned (config : Config) (ctx : PoolContext) (s : Session) (request : Request) :
    Tuned (suggested ctx request) s (s.dispatch config ctx request) := by
  by_cases hmethod : request.method = .suggest_difficulty
  · simp only [dispatch, hmethod]
    exact handle_suggest_difficulty_tuned hmethod
  have hnone : suggested ctx request = none := by
    unfold suggested
    split
    · contradiction
    · rfl
  rw [hnone, dispatch]
  split
  · exact handle_subscribe_tuned request
  · exact handle_authorize_tuned request
  · exact .quiet (handle_configure_kept request)
  · contradiction
  · exact .quiet ((Kept.refl s).send_line fun _ => rfl)
  all_goals
    split
    · exact .quiet (.refl s)
    · exact .quiet ((Kept.refl s).send_line fun _ => rfl)

theorem handle_submit_kept (config : Config) (ctx : PoolContext) (s : Session) (request : Request) :
    Kept s (s.handle_submit config ctx request).1 := by
  unfold handle_submit
  split
  · exact (Kept.refl s).send_error _ _
  split
  · exact (Kept.refl s).send_error _ _
  split
  · exact (Kept.refl s).send_error _ _
  split
  · exact .reject_submit _ _ _
  split
  · exact .reject_submit _ _ _
  split
  · exact .reject_submit _ _ _
  rename_i job _ _ _ seen_shares hremember
  dsimp only
  rcases Option.eq_none_or_eq_some s.payout_script with hpayout | ⟨script, hpayout⟩
  · have herror : ({ s with seen_shares } : Session).coinbase2_for job =
        .error "coinbase2_for called before payout_script_ was set" := by
      simp [coinbase2_for, hpayout]
    rw [herror]
    exact ⟨rfl, rfl, fun h => h⟩
  · rw [@coinbase2_for_eq { s with seen_shares } script hpayout]
    exact ⟨rfl, rfl, fun h => h⟩

theorem finish_submit_kept (ctx : PoolContext) (s : Session) (prepared : PreparedSubmit) :
    Kept s (s.finish_submit ctx prepared) := by
  have hcounted (accepted rejected errors shares : Nat) (calls : List PoolCall) : Kept s { s with
      shares_accepted := accepted
      shares_rejected := rejected
      protocol_errors := errors
      shares_since_retarget := shares
      pool_calls := calls } := ⟨rfl, rfl, fun h => h⟩
  unfold finish_submit
  split
  · exact (hcounted s.shares_accepted _ s.protocol_errors s.shares_since_retarget _).send_error _ _
  · dsimp only
    unfold send_result
    split <;> exact (hcounted _ s.shares_rejected _ _ _).send_line fun _ => rfl

/-- While a lowered difficulty waits for the next job, none above it is asked for. -/
def Steadied (s : Session) (asked : Option ℚ) : Prop :=
  s.pending_difficulty_change = true → s.difficulty < s.previous_difficulty →
    ∀ difficulty ∈ asked, difficulty ≤ s.difficulty

instance (s : Session) (asked : Option ℚ) : Decidable (Steadied s asked) :=
  inferInstanceAs (Decidable (_ → _ → ∀ difficulty ∈ asked, _))

/-- The miner of a ready session has been told its difficulty. -/
structure Honest (s : Session) : Prop where
  lenient : s.Lenient
  announced : s.Ready → (told s.sent).in_force = some s.difficulty

theorem Honest.step (h : s.Honest) (htuned : Tuned asked s s') (hsteadied : s.Steadied asked) : s'.Honest := by
  cases htuned with
  | kept hkept =>
    refine ⟨?_, fun hready => ?_⟩
    · rw [Lenient, hkept.told, accept_difficulty_congr hkept.tuning]
      exact h.lenient
    · rw [hkept.told, difficulty_of_tuning hkept.tuning]
      exact h.announced (hkept.ready hready)
  | repeated htuning htold =>
    refine ⟨?_, fun _ => ?_⟩
    · rw [Lenient, htold, accept_difficulty_congr htuning]
      exact forall_mem_cons.mpr ⟨s.accept_difficulty_le, h.lenient⟩
    · rw [htold, difficulty_of_tuning htuning]
      rfl
  | changed hasked hprevious hpending htold =>
    have haccept : s'.accept_difficulty ≤ s.accept_difficulty := by
      rw [accept_difficulty, if_pos hpending, accept_difficulty, hprevious]
      cases hwaiting : s.pending_difficulty_change with
      | false => exact min_le_right _ _
      | true =>
        rw [if_pos rfl, if_pos rfl]
        rcases lt_or_ge s.difficulty s.previous_difficulty with hlowered | hraised
        · exact le_min ((min_le_left _ _).trans (hsteadied hwaiting hlowered _ hasked)) (min_le_right _ _)
        · exact (min_le_right _ _).trans (le_min hraised le_rfl)
    have hold : ∀ difficulty ∈ (told s.sent).in_use, s'.accept_difficulty ≤ difficulty :=
      fun difficulty hmem => haccept.trans (h.lenient difficulty hmem)
    rcases htold with htold | ⟨htold, hready⟩
    · refine ⟨?_, fun _ => ?_⟩
      · rw [Lenient, htold]
        exact forall_mem_cons.mpr ⟨s'.accept_difficulty_le, hold⟩
      · rw [htold]
        rfl
    · refine ⟨?_, fun h => absurd h hready⟩
      rw [Lenient, htold]
      exact hold
  | notified hdifficulty hpending htold =>
    have hinforce : (told s'.sent).in_force = some s.difficulty ∧ (told s'.sent).in_use = [s.difficulty] := by
      rcases htold with ⟨htold, hready⟩ | htold
      · rw [htold, Told.next_job, h.announced hready]
        exact ⟨rfl, rfl⟩
      · rw [htold]
        exact ⟨rfl, rfl⟩
    refine ⟨?_, fun _ => by rw [hinforce.1, hdifficulty]⟩
    rw [Lenient, hinforce.2]
    intro difficulty hmem
    rw [mem_singleton.mp hmem, ← hdifficulty]
    exact s'.accept_difficulty_le

/-- Raised again, the threshold passes the difficulty that was announced in between. -/
theorem passed_of_raised (htuned : Tuned asked s s') (hmem : s.difficulty ∈ (told s.sent).in_use)
    (hraised : ¬ s.Steadied asked) :
    s.difficulty ∈ (told s'.sent).in_use ∧ s.difficulty < s'.accept_difficulty := by
  simp only [Steadied, Classical.not_imp, not_forall, not_le] at hraised
  obtain ⟨hwaiting, hlowered, difficulty, hdifficulty, hraised⟩ := hraised
  cases htuned with
  | kept hkept hasked => exact absurd (hasked difficulty hdifficulty).symm hraised.ne
  | repeated htuning htold hasked => simp [hasked] at hdifficulty
  | notified _ hpending htold hasked => simp [hasked] at hdifficulty
  | changed hasked hprevious hpending htold =>
    obtain rfl : s'.difficulty = difficulty := by simpa [hasked] using hdifficulty
    constructor
    · rcases htold with htold | ⟨htold, -⟩
      · rw [htold]
        exact mem_cons_of_mem _ hmem
      · rwa [htold]
    · rw [accept_difficulty, if_pos hpending, hprevious, if_pos hwaiting]
      exact lt_min hraised hlowered

/-- A submission is judged by a threshold no difficulty in use exceeds, and so accepted if it
would be at one of them. -/
structure Honours (s : Session) : Prop where
  threshold : ∀ config ctx request prepared, (s.handle_submit config ctx request).2 = some prepared →
    ∀ difficulty ∈ (told s.sent).in_use, prepared.accept_difficulty ≤ difficulty
  accepted : ∀ config ctx request prepared, (s.handle_submit config ctx request).2 = some prepared →
    ∀ difficulty ∈ (told s.sent).in_use, ∀ now_unix result, prepared.job.validate_share
        { prepared.input s.extranonce1 now_unix with share_target := target_from_difficulty difficulty } = .ok result →
      prepared.job.validate_share (prepared.input s.extranonce1 now_unix) = .ok result

end Session

namespace Server

open Session

variable {config : Config} {server : Server}

/-- The difficulty that an event asks for. -/
def asked (ctx : PoolContext) (server : Server) : Event → Option ℚ
  | .line request => if server.share = none then suggested ctx request else none
  | .maybe_retarget => server.session.retargeted ctx
  | _ => none

theorem step_tuned (config : Config) (server : Server) (ctx : PoolContext) (event : Event) :
    Tuned (server.asked ctx event) server.session (step config server (ctx, event)).session := by
  cases event with
  | line request =>
    cases hflight : server.share with
    | some _ =>
      simp only [step, asked, hflight, reduceCtorEq, if_false]
      exact .quiet (.refl _)
    | none =>
      rw [asked, if_pos hflight]
      simp only [step, hflight, handle_line]
      split
      · rename_i hmethod
        simp only [suggested, hmethod]
        exact .quiet (handle_submit_kept config ctx server.session request)
      · exact dispatch_tuned config ctx server.session request
  | finish_submit =>
    cases hflight : server.share with
    | none =>
      simp only [step, hflight]
      exact .quiet (.refl _)
    | some share =>
      simp only [step, hflight]
      exact .quiet (finish_submit_kept ctx server.session share.2)
  | send_notify job clean => exact send_notify_tuned job clean
  | send_set_difficulty =>
    refine .repeated rfl ?_ rfl
    change stratum.told (server.session.sent ++ [.set_difficulty server.session.difficulty]) = _
    rw [told_append]
  | maybe_retarget => exact maybe_retarget_tuned ctx

theorem init_honest (ctx : PoolContext) (extranonce1 : Bytes) : (init ctx extranonce1).session.Honest :=
  ⟨fun _ hmem => (not_mem_nil hmem).elim, fun hready => (Bool.false_ne_true hready.1).elim⟩

end Server

/-- A share that meets a target meets any higher one. -/
theorem Job.validate_header_mono {job : Job} {coinbase : Bytes} {root : Hash256} {ntime nonce version : UInt32}
    {target target' : uint256} {result : ShareResult} (htarget : target ≤ target')
    (h : job.validate_header coinbase root ntime nonce version target = .ok result) :
    job.validate_header coinbase root ntime nonce version target' = .ok result := by
  unfold validate_header at h ⊢
  dsimp only at h ⊢
  split at h
  · cases h
  rename_i hmeets
  rw [if_neg]
  · exact h
  · rintro ⟨hblock, habove⟩
    refine hmeets ⟨hblock, fun hmet => habove ?_⟩
    simp only [meets_target, decide_eq_true_eq, uint256.le_iff_toNat] at hmet htarget ⊢
    exact hmet.trans htarget

theorem Job.validate_share_mono {job : Job} {input : ShareInput} {target : uint256} {result : ShareResult}
    (htarget : target ≤ input.share_target)
    (h : job.validate_share { input with share_target := target } = .ok result) :
    job.validate_share input = .ok result := by
  unfold validate_share at h ⊢
  split at h
  · cases h
  rename_i hsize
  rw [if_neg hsize]
  split at h
  · rename_i extranonce2 ntime nonce hextranonce2 hntime hnonce
    simp only [hextranonce2, hntime, hnonce]
    split at h
    · cases h
    rename_i hlength
    rw [if_neg hlength]
    split at h
    · cases h
    rename_i hrange
    rw [if_neg hrange]
    split at h
    · cases h
    rename_i version hversion
    simp only [hversion]
    exact validate_header_mono htarget h
  · cases h

namespace Session

theorem Honest.honours {s : Session} (h : s.Honest) : s.Honours := by
  have hthreshold {config ctx request prepared} (hprepared : (s.handle_submit config ctx request).2 = some prepared)
      {difficulty : ℚ} (hmem : difficulty ∈ (told s.sent).in_use) : prepared.accept_difficulty ≤ difficulty := by
    rw [handle_submit_accept hprepared]
    exact h.lenient difficulty hmem
  refine ⟨fun _ _ _ _ hprepared _ hmem => hthreshold hprepared hmem, ?_⟩
  intro config ctx request prepared hprepared difficulty hmem now_unix result hresult
  exact Job.validate_share_mono (target_from_difficulty_anti (hthreshold hprepared hmem)) hresult

end Session

open Server Session

/-- A session whose pending lowerings are not taken back before the next job never refuses a
share that meets a difficulty its miner may be using. One that takes back a lowering it has
announced judges the next share by a threshold above that difficulty. -/
theorem threshold_honours_difficulties (config : Config) (ctx : PoolContext) (extranonce1 : Bytes)
    (actions : List (PoolContext × Event)) :
    (Transition.Guarded (Server.step config) (fun server action =>
        server.session.Steadied (server.asked action.1 action.2)) (Server.init ctx extranonce1) actions →
      Transition.Throughout (Server.step config) (fun server => server.session.Honours)
        (Server.init ctx extranonce1) actions) ∧
    ∀ server action, server.session.difficulty ∈ (told server.session.sent).in_use →
      ¬ server.session.Steadied (server.asked action.1 action.2) →
      server.session.difficulty ∈ (told (Server.step config server action).session.sent).in_use ∧
        ∀ ctx request prepared,
          ((Server.step config server action).session.handle_submit config ctx request).2 = some prepared →
          server.session.difficulty < prepared.accept_difficulty := by
  refine ⟨fun hguard => ?_, ?_⟩
  · have hhonest : Transition.Throughout (Server.step config) (fun server => server.session.Honest)
        (Server.init ctx extranonce1) actions := by
      refine Transition.throughout_invariant ?_ (init_honest ctx extranonce1) hguard
      exact fun server action h hsteadied => h.step (step_tuned config server action.1 action.2) hsteadied
    exact hhonest.mono fun server h => h.honours
  · intro server action hmem hraised
    obtain ⟨hstill, hpassed⟩ := passed_of_raised (step_tuned config server action.1 action.2) hmem hraised
    refine ⟨hstill, fun ctx request prepared hprepared => ?_⟩
    rwa [handle_submit_accept hprepared]

namespace LoweredMiner

def job : Job := { Job.minimal "1".toList 1 1000 1 with bits := 0x1d00ffff, nbits_hex := "1d00ffff".toList }

def pool : PoolContext where
  current_job := some job
  recent_job := fun job_id => if job_id = job.job_id then some job else none
  runtime_config := { initial_difficulty := 8, minimum_difficulty := 1 / 10 ^ 12 }
  validate_address := fun _ => some []
  steady_seconds := 0
  time := 1000

def request (method : Method) (params : List String) : PoolContext × Event :=
  (pool, .line { method, params := params.map String.toList })

def suggest (difficulty : ℚ) : PoolContext × Event :=
  (pool, .line { method := .suggest_difficulty, suggested_difficulty := some (some difficulty) })

/-- The miner is given work at difficulty 8, and then asks for one that any hash meets. -/
def lowered : List (PoolContext × Event) := [request .subscribe [], request .authorize ["miner"], suggest (1 / 10 ^ 10)]

def submitting : List (PoolContext × Event) :=
  [request .submit ["miner", "1", "0000000000000000", "000003e8", "00000001"], (pool, .finish_submit)]

end LoweredMiner

open LoweredMiner in
/-- Once it asks for 16 as well, a share is refused as too easy, though the easy difficulty was
announced for its job. -/
theorem raised_miner_refused :
    (told (Server.reached {} pool [0, 0, 0, 1] (lowered ++ [suggest 16])).session.sent).in_use = [16, 1 / 10 ^ 10, 8] ∧
      (Server.reached {} pool [0, 0, 0, 1] (lowered ++ [suggest 16])).session.accept_difficulty = 8 ∧
      (Server.reached {} pool [0, 0, 0, 1] (lowered ++ [suggest 16] ++ submitting)).session.sent.getLast? =
        some (.error .null ERR_LOW_DIFFICULTY) ∧
      (Server.reached {} pool [0, 0, 0, 1] (lowered ++ submitting)).session.sent.getLast? =
        some (.result .null true) := by
  decide +kernel

open LoweredMiner in
/-- A share and a lower difficulty, both while the first lowering waits for a job. -/
theorem threshold_honours_difficulties_lowered :
    Transition.Throughout (Server.step {}) (fun server => server.session.Honours) (Server.init pool [0, 0, 0, 1])
      (lowered ++ submitting ++ [suggest (1 / 10 ^ 11)]) :=
  (threshold_honours_difficulties {} pool [0, 0, 0, 1] _).1 (by decide +kernel)

end erikslund.stratum
