import SoloPool.Sv2.Session.Shares

namespace erikslund.sv2

open util stratum

/-- The share gets as far as the ntime check, on this job of this channel. -/
structure Examined (s : Session) (share : ShareSubmission) (c : Channel) (issued : IssuedJob) : Prop where
  channel : s.find_channel share.channel_id = some c
  kind : c.kind = share.kind
  job : Session.find_job c share.job_id = some issued
  size : ¬ (share.kind = .Extended ∧ share.extranonce.length ≠ issued.extranonce_size)
  fresh : ¬ s.seen_shares.Remembers share.key

/-- The ntime check fails. -/
def OutsideWindow (ctx : PoolContext) (share : ShareSubmission) (c : Channel) (issued : IssuedJob) : Prop :=
  c.previous_hash = none ∨ share.ntime.toNat < Session.minimum_ntime c issued ∨
    share.ntime.toNat > Session.maximum_ntime c ctx.steady_seconds

/-- The share `prepare_share_locked` hands to validation. -/
def prepared_share (s : Session) (share : ShareSubmission) (c : Channel) (issued : IssuedJob) : PreparedShare :=
  { issued_job := issued
    submitted_extranonce := share.extranonce
    issued_target := issued.target
    version_rolling_mask := s.version_mask
    address := c.address
    worker := c.worker }

namespace Session

theorem remember_fresh {s : Session} {key : ShareKey} (hfresh : ¬ s.seen_shares.Remembers key) :
    (s.remember_share_locked key).1 = true := by
  rw [remember_share_locked]
  by_contra hrefused
  exact hfresh ((Generations.remember_refused_iff kMaxSeenShares _ _).mp (Bool.eq_false_iff.mpr hrefused))

theorem remember_seen {s : Session} {key : ShareKey} (hseen : s.seen_shares.Remembers key) :
    s.remember_share_locked key = (false, s) := by
  rw [remember_share_locked, Generations.remember_refused hseen]

/-- The four ways `prepare_share_locked` ends: refused before the history is consulted,
a duplicate, outside the ntime window, or handed on. -/
theorem prepare_share_cases (ctx : PoolContext) (s : Session) (share : ShareSubmission) :
    (∃ errors found code reason,
      code ∈ ["invalid-channel", "invalid-channel-type", "stale-share", "invalid-extranonce-size"] ∧
      (∀ c issued, ¬ Examined s share c issued) ∧
      s.prepare_share_locked ctx share =
        ({ s with protocol_errors := errors }.reject_share_locked found share code reason, none)) ∨
    (∃ found, s.seen_shares.Remembers share.key ∧
      s.prepare_share_locked ctx share =
        (s.reject_share_locked found share "duplicate-share" .Duplicate, none)) ∨
    (∃ c issued, Examined s share c issued ∧ OutsideWindow ctx share c issued ∧
      s.prepare_share_locked ctx share =
        ((s.remember_share_locked share.key).2.reject_share_locked c share "invalid-ntime" .Ntime, none)) ∨
    (∃ c issued, Examined s share c issued ∧ ¬ OutsideWindow ctx share c issued ∧
      s.prepare_share_locked ctx share =
        ((s.remember_share_locked share.key).2, some (prepared_share s share c issued))) := by
  unfold prepare_share_locked
  cases hfind : s.find_channel share.channel_id with
  | none =>
    refine .inl ⟨s.protocol_errors + 1, none, _, _, by simp, fun c issued hexamined => ?_, rfl⟩
    cases hexamined.channel.symm.trans hfind
  | some c =>
    have hchannel {c' : Channel} {issued : IssuedJob} (hexamined : Examined s share c' issued) : c' = c :=
      Option.some.inj (hexamined.channel.symm.trans hfind)
    dsimp only
    by_cases hkind : c.kind = share.kind
    · rw [if_neg (not_not.mpr hkind)]
      cases hjob : find_job c share.job_id with
      | none =>
        refine .inl ⟨s.protocol_errors, some c, _, _, by simp, fun c' issued hexamined => ?_, rfl⟩
        cases hchannel hexamined
        cases hexamined.job.symm.trans hjob
      | some issued =>
        dsimp only
        by_cases hsize : share.kind = .Extended ∧ share.extranonce.length ≠ issued.extranonce_size
        · rw [if_pos hsize]
          refine .inl ⟨s.protocol_errors, some c, _, _, by simp, fun c' issued' hexamined => ?_, rfl⟩
          cases hchannel hexamined
          cases hexamined.job.symm.trans hjob
          exact hexamined.size hsize
        · rw [if_neg hsize]
          by_cases hseen : s.seen_shares.Remembers share.key
          · rw [remember_seen hseen]
            exact .inr (.inl ⟨some c, hseen, by simp⟩)
          · have hexamined : Examined s share c issued := ⟨hfind, hkind, hjob, hsize, hseen⟩
            rw [if_neg (by simp [remember_fresh hseen])]
            split
            · rename_i houtside
              exact .inr (.inr (.inl ⟨c, issued, hexamined, houtside, rfl⟩))
            · rename_i hinside
              exact .inr (.inr (.inr ⟨c, issued, hexamined, hinside, rfl⟩))
    · rw [if_pos hkind]
      refine .inl ⟨s.protocol_errors + 1, some c, _, _, by simp, fun c' issued hexamined => ?_, rfl⟩
      cases hchannel hexamined
      exact hkind hexamined.kind

theorem rejection_sent (s : Session) (found : Option Channel) (share : ShareSubmission) (code : String)
    (reason : RejectClass) : (s.reject_share_locked found share code reason).sent =
      s.sent ++ [.submit_shares_error share.channel_id share.sequence_number code] := by
  cases found <;> rfl

end Session

end erikslund.sv2
