import SoloPool.Stratum.Session.Submit

namespace erikslund.stratum

open util Option

namespace Session

/-- A session that notifies its client of work. -/
def Ready (session : Session) : Prop :=
  session.subscribed = true ∧ session.authorized = true ∧ session.payout_script.isSome = true

/-- What a critical section does before it announces work: the payout script may change,
which drops the cached coinbase, and lines other than notifies may be sent. -/
structure Readied (s s' : Session) : Prop where
  extranonce1 : s'.extranonce1 = s.extranonce1
  seen_shares : s'.seen_shares = s.seen_shares
  sequence : s'.last_notified_publication_sequence = s.last_notified_publication_sequence
  cache : s'.coinbase2_cache = if s'.payout_script = s.payout_script then s.coinbase2_cache else none
  sent : ∃ lines, s'.sent = s.sent ++ lines ∧ ∀ line ∈ lines, line.notify? = none

/-- A critical section that leaves the client's work alone: as `Readied`, with the payout
script and the two handshake flags as they were. -/
structure Unchanged (s s' : Session) : Prop extends Readied s s' where
  subscribed : s'.subscribed = s.subscribed
  authorized : s'.authorized = s.authorized
  payout_script : s'.payout_script = s.payout_script

/-- The coinbase a job is announced and validated with. -/
def cached (s : Session) (job : Job) (script : Bytes) : Coinbase2Cache :=
  (s.coinbase2_cache.filter (fun cache => cache.job_id = job.job_id)).getD
    ⟨job.job_id, job.build_coinbase2 script, to_hex (job.build_coinbase2 script)⟩

/-- `s'` is `s` after it has announced `job`. -/
structure Notified (job : Job) (clean : Bool) (script : Bytes) (s s' : Session) : Prop where
  ready : s.Ready
  payout : s.payout_script = some script
  extranonce1 : s'.extranonce1 = s.extranonce1
  subscribed : s'.subscribed = s.subscribed
  authorized : s'.authorized = s.authorized
  payout_script : s'.payout_script = s.payout_script
  seen_shares : s'.seen_shares = if clean then s.seen_shares.rotateIfNonempty else s.seen_shares
  sequence : s'.last_notified_publication_sequence =
    max s.last_notified_publication_sequence job.publication_sequence
  cache : s'.coinbase2_cache = some (s.cached job script)
  sent : ∃ lines, s'.sent = s.sent ++ lines ++
    [make_notify_line job (s.cached job script).coinbase2_hex clean] ∧ ∀ line ∈ lines, line.notify? = none

variable {s s₁ s' : Session}

theorem Unchanged.refl (s : Session) : Unchanged s s :=
  ⟨⟨rfl, rfl, rfl, by simp, [], by simp, by simp⟩, rfl, rfl, rfl⟩

theorem Unchanged.ready_iff (h : Unchanged s s') : s'.Ready ↔ s.Ready := by
  rw [Ready, Ready, h.subscribed, h.authorized, h.payout_script]

theorem Readied.send_line (h : Readied s s') {line : Line} (hline : line.notify? = none) :
    Readied s (s'.send_line line) := by
  obtain ⟨lines, hsent, hquiet⟩ := h.sent
  refine ⟨h.extranonce1, h.seen_shares, h.sequence, h.cache, lines ++ [line], ?_, ?_⟩
  · simp [Session.send_line, hsent]
  · simpa [or_imp, forall_and] using ⟨hquiet, hline⟩

theorem Unchanged.send_line (h : Unchanged s s') {line : Line} (hline : line.notify? = none) :
    Unchanged s (s'.send_line line) :=
  ⟨h.toReadied.send_line hline, h.subscribed, h.authorized, h.payout_script⟩

theorem Unchanged.send_set_difficulty (h : Unchanged s s') : Unchanged s s'.do_send_set_difficulty :=
  h.send_line rfl

theorem Unchanged.send_error (h : Unchanged s s') (id : RequestId) (error : StratumError) :
    Unchanged s (s'.send_error id error) := by
  have hcounted (errors : Nat) : Unchanged s { s' with protocol_errors := errors } :=
    ⟨⟨h.extranonce1, h.seen_shares, h.sequence, h.cache, h.sent⟩, h.subscribed, h.authorized, h.payout_script⟩
  exact (hcounted _).send_line rfl

theorem Unchanged.reject_submit (id : RequestId) (reason : RejectClass) (error : StratumError) :
    Unchanged s (s.reject_submit id reason error) := by
  have hrejected : Unchanged s ({ s with shares_rejected := s.shares_rejected + 1 }.call_pool
      (.note_rejected_share (s.address.getD []) (s.worker.getD []) reason)) :=
    ⟨⟨rfl, rfl, rfl, (Unchanged.refl s).cache, (Unchanged.refl s).sent⟩, rfl, rfl, rfl⟩
  exact hrejected.send_error id error

/-- `coinbase2_for` once a payout script is set. -/
theorem coinbase2_for_eq {script : Bytes} (hpayout : s.payout_script = some script) (job : Job) :
    s.coinbase2_for job = .ok (s.cached job script, { s with coinbase2_cache := some (s.cached job script) }) := by
  simp only [coinbase2_for, hpayout, cached]
  cases hfound : s.coinbase2_cache.filter (fun cache => cache.job_id = job.job_id) with
  | none => simp
  | some cache =>
    have hsome : s.coinbase2_cache = some cache := (filter_eq_some_iff.mp hfound).1
    cases s
    simp_all

/-- The session a notify leaves. -/
def noted (s : Session) (job : Job) (clean : Bool) (script : Bytes) : Session :=
  { s with
    last_notified_publication_sequence := max s.last_notified_publication_sequence job.publication_sequence
    coinbase2_cache := some (s.cached job script)
    seen_shares := if clean then s.seen_shares.rotateIfNonempty else s.seen_shares
    pending_difficulty_change := false }

/-- A session that is not ready builds no line. -/
theorem build_notify_line_of_not_ready (hready : ¬ s.Ready) (job : Job) (clean : Bool) :
    s.build_notify_line job clean = (s, none) := by
  unfold build_notify_line
  rw [if_pos]
  by_contra hnot
  simp only [not_or, not_not, isNone_iff_eq_none, ← isSome_iff_ne_none] at hnot
  exact hready hnot

/-- A ready one does. -/
theorem build_notify_line_of_ready (hready : s.Ready) {script : Bytes} (hpayout : s.payout_script = some script)
    (job : Job) (clean : Bool) : s.build_notify_line job clean =
      (s.noted job clean script, some (make_notify_line job (s.cached job script).coinbase2_hex clean)) := by
  unfold build_notify_line
  rw [if_neg (by simp [hready.1, hready.2.1, hpayout])]
  dsimp only
  rw [coinbase2_for_eq]
  · rfl
  · exact hpayout

theorem Ready.payout (hready : s.Ready) : ∃ script, s.payout_script = some script :=
  isSome_iff_exists.mp hready.2.2

theorem Notified.of_noted (hready : s.Ready) {script : Bytes} (hpayout : s.payout_script = some script)
    {job : Job} {clean : Bool} (hs' : s' = { s.noted job clean script with sent := s'.sent }) {lines : List Line}
    (hsent : s'.sent = s.sent ++ lines ++ [make_notify_line job (s.cached job script).coinbase2_hex clean])
    (hquiet : ∀ line ∈ lines, line.notify? = none) : Notified job clean script s s' := by
  rw [hs']
  exact ⟨hready, hpayout, rfl, rfl, rfl, rfl, rfl, rfl, rfl, lines, hsent, hquiet⟩

/-- `send_notify` announces a fresh job, or does nothing. -/
theorem send_notify_cases (job : Job) (clean : Bool) :
    (s.send_notify job clean = s ∧ (s.Ready → job.publication_sequence ≠ 0 ∧
        job.publication_sequence ≤ s.last_notified_publication_sequence)) ∨
      (job.publication_sequence = 0 ∨ s.last_notified_publication_sequence < job.publication_sequence) ∧
        ∃ script, Notified job clean script s (s.send_notify job clean) := by
  unfold send_notify
  split
  · rename_i hold
    exact .inl ⟨rfl, fun _ => hold⟩
  · rename_i hfresh
    by_cases hready : s.Ready
    · obtain ⟨script, hpayout⟩ := hready.payout
      rw [build_notify_line_of_ready hready hpayout]
      refine .inr ⟨by omega, script, ?_⟩
      exact .of_noted hready hpayout rfl (List.append_nil _ ▸ rfl) (List.forall_mem_nil _)
    · rw [build_notify_line_of_not_ready hready]
      exact .inl ⟨rfl, fun h => absurd h hready⟩

/-- `send_difficulty_then_work` announces the current job of the pool to a ready session. -/
theorem send_difficulty_then_work_cases (ctx : PoolContext) :
    (Unchanged s (s.send_difficulty_then_work ctx) ∧ (s.Ready → ctx.current_job = none)) ∨
      ∃ job script, ctx.current_job = some job ∧
        Notified job true script s (s.send_difficulty_then_work ctx) := by
  unfold send_difficulty_then_work
  cases hjob : ctx.current_job with
  | none => exact .inl ⟨(Unchanged.refl s).send_line rfl, fun _ => rfl⟩
  | some job =>
    by_cases hready : s.Ready
    · obtain ⟨script, hpayout⟩ := hready.payout
      dsimp only
      rw [build_notify_line_of_ready hready hpayout]
      refine .inr ⟨job, script, rfl, ?_⟩
      exact .of_noted hready hpayout rfl rfl (by simp [Line.notify?])
    · dsimp only
      rw [build_notify_line_of_not_ready hready]
      exact .inl ⟨(Unchanged.refl s).send_line rfl, fun h => absurd h hready⟩

end Session

end erikslund.stratum
