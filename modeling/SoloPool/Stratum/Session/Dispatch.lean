import SoloPool.Stratum.Session.Changes

namespace erikslund.stratum

open util

namespace Session

/-- What a critical section other than a submit does to the work of the client: nothing, or
it announces one job, which `source` says where from. A session becomes ready without an
announcement only when the pool has no job. -/
inductive Moved (ctx : PoolContext) (source : Session → Job → Bool → Prop) (s s' : Session) : Prop where
  | quiet (hreadied : Readied s s') (hready : s'.Ready → s.Ready ∨ ctx.current_job = none)
  | announced (mid : Session) (job : Job) (clean : Bool) (script : Bytes) (hreadied : Readied s mid)
      (hsource : source mid job clean) (hnotified : Notified job clean script mid s')

/-- The handshake announces the current job, clean. -/
def FromPool (ctx : PoolContext) (_ : Session) (job : Job) (clean : Bool) : Prop :=
  ctx.current_job = some job ∧ clean = true

variable {config : Config} {ctx : PoolContext} {source : Session → Job → Bool → Prop} {s mid s' : Session}

theorem Readied.trans (h : Readied s mid) (h' : Unchanged mid s') : Readied s s' := by
  obtain ⟨lines, hsent, hquiet⟩ := h.sent
  obtain ⟨lines', hsent', hquiet'⟩ := h'.sent
  refine ⟨h'.extranonce1.trans h.extranonce1, h'.seen_shares.trans h.seen_shares,
    h'.sequence.trans h.sequence, ?_, lines ++ lines', by simp [hsent', hsent], ?_⟩
  · rw [h'.cache, h'.payout_script, if_pos rfl, h.cache]
  · simpa [or_imp, forall_and] using ⟨hquiet, hquiet'⟩

theorem Moved.of_unchanged (h : Unchanged s s') : Moved ctx source s s' :=
  .quiet h.toReadied (fun hready => .inl (h.ready_iff.mp hready))

theorem Moved.of_readied (h : Readied s mid) :
    Moved ctx (FromPool ctx) s (mid.send_difficulty_then_work ctx) := by
  rcases mid.send_difficulty_then_work_cases ctx with ⟨hunchanged, hnone⟩ | ⟨job, script, hjob, hnotified⟩
  · exact .quiet (h.trans hunchanged) (fun hready => .inr (hnone (hunchanged.ready_iff.mp hready)))
  · exact .announced mid job true script h ⟨hjob, rfl⟩ hnotified

theorem handle_subscribe_moved (request : Request) :
    Moved ctx (FromPool ctx) s (s.handle_subscribe config ctx request) := by
  have hreadied : Readied s { s with user_agent := s.requested_user_agent request.params, subscribed := true } :=
    ⟨rfl, rfl, rfl, by simp, [], by simp, by simp⟩
  unfold handle_subscribe
  dsimp only
  split
  · exact .of_readied (hreadied.send_line rfl)
  · rename_i hnot
    exact .quiet (hreadied.send_line rfl) (fun hready => absurd hready.2 hnot)

theorem handle_authorize_moved (request : Request) :
    Moved ctx (FromPool ctx) s (s.handle_authorize ctx request) := by
  unfold handle_authorize
  split
  · exact .of_unchanged (.send_error (.refl s) _ _)
  split
  · exact .of_unchanged (.send_error (.refl s) _ _)
  dsimp only
  split
  · exact .of_unchanged (.send_line (.refl s) rfl)
  · unfold send_result
    refine .of_readied (Readied.send_line ?_ rfl)
    exact ⟨rfl, rfl, rfl, by simp only [eq_comm], [], by simp, by simp⟩

theorem handle_suggest_difficulty_unchanged (request : Request) :
    Unchanged s (s.handle_suggest_difficulty ctx request) := by
  have hchanged (difficulty : ℚ) : Unchanged s { s.begin_difficulty_change difficulty with
      shares_since_retarget := 0, last_retarget := ctx.steady_seconds } :=
    ⟨⟨rfl, rfl, rfl, (Unchanged.refl s).cache, (Unchanged.refl s).sent⟩, rfl, rfl, rfl⟩
  unfold handle_suggest_difficulty
  refine .send_line ?_ rfl
  dsimp only
  split
  · exact .refl s
  split
  · exact .refl s
  split
  · exact (hchanged _).send_set_difficulty
  · exact hchanged _

theorem handle_configure_unchanged (request : Request) : Unchanged s (s.handle_configure config request) := by
  unfold handle_configure
  split
  · exact .send_line (.refl s) rfl
  · refine .send_line ?_ rfl
    exact ⟨⟨rfl, rfl, rfl, (Unchanged.refl s).cache, (Unchanged.refl s).sent⟩, rfl, rfl, rfl⟩

theorem dispatch_moved (config : Config) (ctx : PoolContext) (s : Session) (request : Request) :
    Moved ctx (FromPool ctx) s (s.dispatch config ctx request) := by
  unfold dispatch
  split
  · exact handle_subscribe_moved request
  · exact handle_authorize_moved request
  · exact .of_unchanged (handle_configure_unchanged request)
  · exact .of_unchanged (handle_suggest_difficulty_unchanged request)
  · exact .of_unchanged (.send_line (.refl s) rfl)
  all_goals
    split
    · exact .of_unchanged (.refl s)
    · exact .of_unchanged (.send_line (.refl s) rfl)

theorem maybe_retarget_unchanged (ctx : PoolContext) (s : Session) :
    Unchanged s (s.maybe_retarget ctx) := by
  have hreset : Unchanged s { s with shares_since_retarget := 0, last_retarget := ctx.steady_seconds } :=
    ⟨⟨rfl, rfl, rfl, (Unchanged.refl s).cache, (Unchanged.refl s).sent⟩, rfl, rfl, rfl⟩
  have hnext (difficulty : ℚ) : Unchanged s (if difficulty ≠ s.difficulty then
        ({ s with shares_since_retarget := 0, last_retarget := ctx.steady_seconds }.begin_difficulty_change
          difficulty).do_send_set_difficulty
      else { s with shares_since_retarget := 0, last_retarget := ctx.steady_seconds }) := by
    split
    · exact Unchanged.send_set_difficulty
        ⟨⟨rfl, rfl, rfl, hreset.cache, hreset.sent⟩, rfl, rfl, rfl⟩
    · exact hreset
  unfold maybe_retarget
  dsimp only
  split
  · exact .refl s
  split
  · exact .refl s
  · exact hnext _

theorem finish_submit_unchanged (ctx : PoolContext) (s : Session) (prepared : PreparedSubmit) :
    Unchanged s (s.finish_submit ctx prepared) := by
  have hcounted (accepted rejected errors shares : Nat) (calls : List PoolCall) : Unchanged s { s with
      shares_accepted := accepted
      shares_rejected := rejected
      protocol_errors := errors
      shares_since_retarget := shares
      pool_calls := calls } :=
    ⟨⟨rfl, rfl, rfl, (Unchanged.refl s).cache, (Unchanged.refl s).sent⟩, rfl, rfl, rfl⟩
  unfold finish_submit
  split
  · exact (hcounted s.shares_accepted _ s.protocol_errors s.shares_since_retarget _).send_error _ _
  · dsimp only
    unfold send_result
    split <;> exact (hcounted _ s.shares_rejected _ _ _).send_line rfl

end Session

end erikslund.stratum
