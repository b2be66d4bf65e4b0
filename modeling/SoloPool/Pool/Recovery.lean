import SoloPool.Pool.Spool
import SoloPool.Pool.State

namespace erikslund

open util bitcoin stratum List

def kRpcBlockNotFound : Int := -5

/-- What an exception from a request to the node says: the code of an RPC error, or another
failure. -/
inductive RequestFailure where
  | rpc_error (code : Int)
  | other
deriving DecidableEq

/-- The node's answers about its chain during one turn of the recovery thread. -/
structure ChainReport where
  get_tip : Except String Text
  fetch_header : Text → Except RequestFailure HeaderFacts

inductive ArchiveSuffix where
  | submitted
  | rejected
  | stale
deriving DecidableEq

structure RecoveredSubmission where
  block : PendingBlock
  spool_path : Text
  submitted_once : Bool
  retry_after : ℚ
deriving DecidableEq

/-- What the thread had been told when it archived a file: the replies to a submission, or
the node's report. -/
inductive Evidence where
  | replies (replies : List SubmitReply)
  | report (report : ChainReport)

/-- One call of `archive_recovered_block`. The file stays where it is when it cannot be renamed. -/
structure Archival where
  block : PendingBlock
  spool_path : Text
  suffix : ArchiveSuffix
  evidence : Evidence
  renamed : Bool

/-- The recovery thread with its queue. `taken` is the submission it is working on; `enqueued`
are the paths `resubmit_spooled_blocks` has queued and `archived` the calls of
`archive_recovered_block`, both newest first. -/
structure Recovery where
  recovery_queue : List RecoveredSubmission
  tracked_recovered_blocks : List Text
  taken : Option RecoveredSubmission
  stop_requested : Bool
  enqueued : List Text
  archived : List Archival

/-- A file of the spool directory as it is found there. It may be unreadable, and the queue may
be out of memory when its turn comes. -/
structure SpoolEntry where
  name : Text
  contents : Option Text
  room : Bool

/-- A call of `resubmit_spooled_blocks` is one `resubmit` for each file it lists, so that the
thread can run in between. -/
inductive RecoveryEvent where
  | resubmit (entry : SpoolEntry)
  | wait_for_submission (now : ℚ)
  | recover (report : ChainReport) (replies : List SubmitReply) (renamed : Bool) (now : ℚ)
  | request_stop

/-- `none` is `false`: nothing is archived and the block is submitted again. -/
def resolve_recovered_block_from_tip (block : PendingBlock) (report : ChainReport) : Option ArchiveSuffix :=
  if block.height < 0 ∨ block.hash = [] then none
  else
    match report.get_tip with
    | .error _ => none
    | .ok raw_tip_hash =>
      if raw_tip_hash.length ≠ 64 ∨ ¬ is_hex raw_tip_hash then none
      else
        match from_hex raw_tip_hash with
        | .error _ => none
        | .ok tip_bytes =>
          if block.hash = to_hex tip_bytes then some .submitted
          else
            match report.fetch_header (to_hex tip_bytes) with
            | .error _ => none
            | .ok tip =>
              if tip.confirmations < 1 ∨ block.height ≥ tip.height then none
              else
                match report.fetch_header block.hash with
                | .error (.rpc_error code) => if code ≠ kRpcBlockNotFound then none else some .stale
                | .error .other => none
                | .ok candidate =>
                  if candidate.height ≠ block.height then none
                  else if candidate.confirmations > 0 then some .submitted
                  else if candidate.confirmations ≠ -1 then none
                  else some .stale

/-- `none` is `true`: retry. -/
def submit_recovered_block (replies : List SubmitReply) : Option ArchiveSuffix :=
  match submitblock replies with
  | .error _ => none
  | .ok rejection =>
    match classify_submit rejection with
    | .Accepted | .AlreadyKnown => some .submitted
    | .Inconclusive => none
    | .Rejected => some .rejected

namespace Recovery

def init : Recovery where
  recovery_queue := []
  tracked_recovered_blocks := []
  taken := none
  stop_requested := false
  enqueued := []
  archived := []

variable (s : Recovery)

/-- One file of the loop in `resubmit_spooled_blocks`. When the queue is out of memory the path
is forgotten again and the exception leaves the call. -/
def resubmit (entry : SpoolEntry) : Recovery :=
  if extension entry.name ≠ ".hex".toList then s
  else
    match entry.contents >>= spooled_block entry.name with
    | none => s
    | some block =>
      if entry.name ∈ s.tracked_recovered_blocks ∨ ¬ entry.room then s
      else
        { s with
          tracked_recovered_blocks := entry.name :: s.tracked_recovered_blocks
          recovery_queue := s.recovery_queue ++ [⟨block, entry.name, false, 0⟩]
          enqueued := entry.name :: s.enqueued }

def wait_for_submission (now : ℚ) : Recovery :=
  if s.stop_requested ∨ s.taken.isSome then s
  else
    match s.recovery_queue.find? (fun queued => queued.retry_after ≤ now) with
    | none => s
    | some submission =>
      { s with
        taken := some submission
        recovery_queue := s.recovery_queue.eraseP (fun queued => queued.retry_after ≤ now) }

def archive_recovered_block (submission : RecoveredSubmission) (suffix : ArchiveSuffix)
    (evidence : Evidence) (renamed : Bool) : Recovery :=
  { s with
    taken := none
    archived := ⟨submission.block, submission.spool_path, suffix, evidence, renamed⟩ :: s.archived }

/-- The body of the loop in `recovery_loop`. A block is looked up on the chain only after it has
been submitted once. -/
def recovery_loop (report : ChainReport) (replies : List SubmitReply) (renamed : Bool) (now : ℚ) :
    Recovery :=
  match s.taken with
  | none => s
  | some submission =>
    match if submission.submitted_once then resolve_recovered_block_from_tip submission.block report else none with
    | some suffix => s.archive_recovered_block submission suffix (.report report) renamed
    | none =>
      match submit_recovered_block replies with
      | some suffix => s.archive_recovered_block submission suffix (.replies replies) renamed
      | none =>
        if s.stop_requested then { s with taken := none }
        else
          { s with
            taken := none
            recovery_queue := s.recovery_queue ++
              [{ submission with submitted_once := true, retry_after := now + kInconclusiveRetryDelay }] }

def step : RecoveryEvent → Recovery
  | .resubmit entry => s.resubmit entry
  | .wait_for_submission now => s.wait_for_submission now
  | .recover report replies renamed now => s.recovery_loop report replies renamed now
  | .request_stop => { s with stop_requested := true }

/-- The state after a run of the pool. -/
def reached (events : List RecoveryEvent) : Recovery := Transition.run step init events

end Recovery

/-- The node reports that the block is its tip. -/
def ChainReport.IsTip (report : ChainReport) (block : PendingBlock) : Prop :=
  ∃ raw_tip_hash tip_bytes, report.get_tip = .ok raw_tip_hash ∧ try_from_hex raw_tip_hash = some tip_bytes ∧
    block.hash = to_hex tip_bytes

/-- The node reports positive confirmations for the block at its height. -/
def ChainReport.Confirms (report : ChainReport) (block : PendingBlock) : Prop :=
  ∃ candidate, report.fetch_header block.hash = .ok candidate ∧ candidate.height = block.height ∧
    0 < candidate.confirmations

/-- The reported tip is confirmed and strictly higher. -/
def ChainReport.Outgrows (report : ChainReport) (block : PendingBlock) : Prop :=
  ∃ raw_tip_hash tip_bytes tip, report.get_tip = .ok raw_tip_hash ∧ try_from_hex raw_tip_hash = some tip_bytes ∧
    report.fetch_header (to_hex tip_bytes) = .ok tip ∧ 1 ≤ tip.confirmations ∧ block.height < tip.height

/-- The block is unknown to the node, or not on its chain. -/
def ChainReport.Disowns (report : ChainReport) (block : PendingBlock) : Prop :=
  report.fetch_header block.hash = .error (.rpc_error kRpcBlockNotFound) ∨
    ∃ candidate, report.fetch_header block.hash = .ok candidate ∧ candidate.confirmations = -1

/-- What the evidence has to be for a file to be archived under a suffix. -/
def Archival.Justified (archival : Archival) : Prop :=
  match archival.suffix with
  | .submitted =>
    (∃ replies, archival.evidence = .replies replies ∧ Won replies) ∨
      ∃ report, archival.evidence = .report report ∧
        (report.IsTip archival.block ∨ report.Confirms archival.block)
  | .stale =>
    ∃ report, archival.evidence = .report report ∧ report.Outgrows archival.block ∧ report.Disowns archival.block
  | .rejected => ∃ replies, archival.evidence = .replies replies ∧ Refused replies

theorem resolve_recovered_block_some {block : PendingBlock} {report : ChainReport} {suffix : ArchiveSuffix}
    (h : resolve_recovered_block_from_tip block report = some suffix) :
    (suffix = .submitted ∧ (report.IsTip block ∨ report.Confirms block)) ∨
      (suffix = .stale ∧ report.Outgrows block ∧ report.Disowns block) := by
  unfold resolve_recovered_block_from_tip at h
  split at h
  · cases h
  split at h
  · cases h
  rename_i raw_tip_hash htip
  split at h
  · cases h
  split at h
  · cases h
  rename_i tip_bytes hbytes
  have hdecoded := from_hex_eq_ok.mp hbytes
  split at h
  · rename_i hsame
    cases h
    exact .inl ⟨rfl, .inl ⟨raw_tip_hash, tip_bytes, htip, hdecoded, hsame⟩⟩
  split at h
  · cases h
  rename_i tip hfetched
  split at h
  · cases h
  rename_i hbelow
  rw [not_or, not_lt, ge_iff_le, not_le] at hbelow
  have hhigher : report.Outgrows block := ⟨raw_tip_hash, tip_bytes, tip, htip, hdecoded, hfetched, hbelow⟩
  split at h
  · rename_i code hcandidate
    split at h
    · cases h
    rename_i hcode
    cases h
    rw [not_not.mp hcode] at hcandidate
    exact .inr ⟨rfl, hhigher, .inl hcandidate⟩
  · cases h
  · rename_i candidate hcandidate
    split at h
    · cases h
    rename_i hheight
    split at h
    · rename_i hconfirmed
      cases h
      exact .inl ⟨rfl, .inr ⟨candidate, hcandidate, not_not.mp hheight, hconfirmed⟩⟩
    split at h
    · cases h
    rename_i hoff
    cases h
    exact .inr ⟨rfl, hhigher, .inr ⟨candidate, hcandidate, not_not.mp hoff⟩⟩

theorem submit_recovered_block_some {replies : List SubmitReply} {suffix : ArchiveSuffix}
    (h : submit_recovered_block replies = some suffix) :
    (suffix = .submitted ∧ Won replies) ∨ (suffix = .rejected ∧ Refused replies) := by
  unfold submit_recovered_block at h
  split at h
  · cases h
  rename_i rejection hresult
  have hclass : submit_class (submitblock replies) = some (classify_submit rejection) := by
    rw [hresult]
    rfl
  cases houtcome : classify_submit rejection with
  | Accepted =>
    rw [houtcome] at h hclass
    cases h
    exact .inl ⟨rfl, won_iff_class.mpr (.inl hclass)⟩
  | AlreadyKnown =>
    rw [houtcome] at h hclass
    cases h
    exact .inl ⟨rfl, won_iff_class.mpr (.inr hclass)⟩
  | Inconclusive =>
    rw [houtcome] at h
    cases h
  | Rejected =>
    rw [houtcome] at h hclass
    cases h
    exact .inr ⟨rfl, refused_of_class hclass⟩

/-- A file with the block that was read from it. -/
def RecoveredSubmission.file (submission : RecoveredSubmission) : Text × PendingBlock :=
  (submission.spool_path, submission.block)

namespace Recovery

variable {s s' : Recovery}

/-- What one step can do. -/
inductive Stepped (s : Recovery) : Recovery → Prop where
  | still : Stepped s s
  | enqueued (name contents : Text) (block : PendingBlock) (hread : spooled_block name contents = some block)
      (hnew : name ∉ s.tracked_recovered_blocks) :
      Stepped s { s with
        tracked_recovered_blocks := name :: s.tracked_recovered_blocks
        recovery_queue := s.recovery_queue ++ [⟨block, name, false, 0⟩]
        enqueued := name :: s.enqueued }
  | taken (submission : RecoveredSubmission) (now : ℚ) (hidle : s.taken = none)
      (hdue : s.recovery_queue.find? (fun queued => queued.retry_after ≤ now) = some submission) :
      Stepped s { s with
        taken := some submission
        recovery_queue := s.recovery_queue.eraseP (fun queued => queued.retry_after ≤ now) }
  | archived (submission : RecoveredSubmission) (suffix : ArchiveSuffix) (evidence : Evidence) (renamed : Bool)
      (htaken : s.taken = some submission)
      (hjustified : Archival.Justified ⟨submission.block, submission.spool_path, suffix, evidence, renamed⟩) :
      Stepped s (s.archive_recovered_block submission suffix evidence renamed)
  | dropped (hstop : s.stop_requested = true) : Stepped s { s with taken := none }
  | requeued (submission : RecoveredSubmission) (now : ℚ) (htaken : s.taken = some submission) :
      Stepped s { s with
        taken := none
        recovery_queue := s.recovery_queue ++
          [{ submission with submitted_once := true, retry_after := now + kInconclusiveRetryDelay }] }
  | stopped : Stepped s { s with stop_requested := true }

theorem stepped (s : Recovery) (event : RecoveryEvent) : Stepped s (s.step event) := by
  cases event with
  | resubmit entry =>
    simp only [step, resubmit]
    split
    · exact .still
    split
    · exact .still
    rename_i block hblock
    split
    · exact .still
    · rename_i hnew
      obtain ⟨contents, -, hread⟩ := Option.bind_eq_some_iff.mp hblock
      exact .enqueued entry.name contents block hread (not_or.mp hnew).1
  | wait_for_submission now =>
    simp only [step, wait_for_submission]
    split
    · exact .still
    rename_i hidle
    split
    · exact .still
    · rename_i submission hdue
      exact .taken submission now (Option.not_isSome_iff_eq_none.mp (not_or.mp hidle).2) hdue
  | recover report replies renamed now =>
    simp only [step, recovery_loop]
    split
    · exact .still
    rename_i submission htaken
    split
    · rename_i suffix hresolved
      refine .archived submission suffix _ renamed htaken ?_
      split at hresolved
      · rcases resolve_recovered_block_some hresolved with ⟨rfl, hchain⟩ | ⟨rfl, hstale⟩
        · exact .inr ⟨report, rfl, hchain⟩
        · exact ⟨report, rfl, hstale⟩
      · cases hresolved
    split
    · rename_i suffix hanswered
      refine .archived submission suffix _ renamed htaken ?_
      rcases submit_recovered_block_some hanswered with ⟨rfl, hwon⟩ | ⟨rfl, hrefused⟩
      · exact .inl ⟨replies, rfl, hwon⟩
      · exact ⟨replies, rfl, hrefused⟩
    split
    · rename_i hstop
      exact .dropped hstop
    · exact .requeued submission now htaken
  | request_stop => exact .stopped

/-- The files the thread still has to settle: those queued and the one it is working on. -/
def pending (s : Recovery) : List (Text × PendingBlock) :=
  (s.recovery_queue ++ s.taken.toList).map RecoveredSubmission.file

/-- What holds of every run: a path is queued once, and until a stop is requested it is pending
or archived; what is archived is the block of that file, for a reason. -/
structure Settled (s : Recovery) : Prop where
  once : s.enqueued.Nodup
  kept : s.stop_requested = false → s.enqueued.Perm (s.pending.map Prod.fst ++ s.archived.map Archival.spool_path)
  read : ∀ archival ∈ s.archived, ∃ contents, spooled_block archival.spool_path contents = some archival.block
  justified : ∀ archival ∈ s.archived, archival.Justified

/-- With what carries it: the tracked paths are those queued, and every pending block was read
from its file. -/
structure Sound (s : Recovery) : Prop extends Settled s where
  tracked : s.tracked_recovered_blocks = s.enqueued
  pending_read : ∀ file ∈ s.pending, ∃ contents, spooled_block file.1 contents = some file.2

/-- Only the submission that is due leaves the queue. -/
theorem eraseP_perm {queue : List RecoveredSubmission} {due : RecoveredSubmission → Bool}
    {submission : RecoveredSubmission} (h : queue.find? due = some submission) :
    (queue.eraseP due ++ [submission]).Perm queue := by
  induction queue with
  | nil => cases h
  | cons first rest ih =>
    by_cases hdue : due first = true
    · rw [find?_cons_of_pos hdue] at h
      obtain rfl := Option.some.inj h
      rw [eraseP_cons_of_pos hdue]
      exact perm_append_singleton first rest
    · rw [find?_cons_of_neg hdue] at h
      rw [eraseP_cons_of_neg hdue, cons_append]
      exact (ih h).cons first

theorem pending_taken {submission : RecoveredSubmission} (h : s.taken = some submission) :
    s.pending = s.recovery_queue.map RecoveredSubmission.file ++ [submission.file] := by
  rw [pending, h, map_append]
  rfl

theorem pending_idle (h : s.taken = none) : s.pending = s.recovery_queue.map RecoveredSubmission.file := by
  rw [pending, h, map_append]
  exact append_nil _

/-- A step that leaves the same files pending. -/
theorem Sound.repended (h : s.Sound) (hpending : s'.pending.Perm s.pending)
    (hsame : s'.tracked_recovered_blocks = s.tracked_recovered_blocks ∧ s'.enqueued = s.enqueued ∧
      s'.archived = s.archived ∧ s'.stop_requested = s.stop_requested) : s'.Sound := by
  obtain ⟨htracked, henqueued, harchived, hstop⟩ := hsame
  refine ⟨⟨henqueued ▸ h.once, fun hrunning => ?_, harchived ▸ h.read, harchived ▸ h.justified⟩, ?_, fun file hfile =>
    h.pending_read file (hpending.mem_iff.mp hfile)⟩
  · rw [henqueued, harchived]
    exact (h.kept (hstop ▸ hrunning)).trans ((hpending.symm.map Prod.fst).append_right _)
  · rw [htracked, henqueued]
    exact h.tracked

theorem Sound.stepped (h : s.Sound) (hstep : Stepped s s') : s'.Sound := by
  cases hstep with
  | still => exact h
  | enqueued name contents block hread hnew =>
    have hpending : (pending { s with
        tracked_recovered_blocks := name :: s.tracked_recovered_blocks
        recovery_queue := s.recovery_queue ++ [⟨block, name, false, 0⟩]
        enqueued := name :: s.enqueued }).Perm ((name, block) :: s.pending) := by
      simp only [pending, append_assoc, map_append, map_cons, singleton_append]
      exact perm_middle
    refine ⟨⟨?_, fun hrunning => ?_, h.read, h.justified⟩, congrArg (name :: ·) h.tracked, fun file hfile => ?_⟩
    · exact nodup_cons.mpr ⟨h.tracked ▸ hnew, h.once⟩
    · exact ((h.kept hrunning).cons name).trans ((hpending.symm.map Prod.fst).append_right _)
    · rcases mem_cons.mp (hpending.mem_iff.mp hfile) with rfl | hfile
      · exact ⟨contents, hread⟩
      · exact h.pending_read file hfile
  | taken submission now hidle hdue =>
    refine h.repended ?_ ⟨rfl, rfl, rfl, rfl⟩
    rw [pending_idle hidle]
    exact (eraseP_perm hdue).map RecoveredSubmission.file
  | archived submission suffix evidence renamed htaken hjustified =>
    have hpending : s.pending = (s.archive_recovered_block submission suffix evidence renamed).pending ++
        [submission.file] := by
      rw [pending_taken htaken, pending_idle rfl]
      rfl
    refine ⟨⟨h.once, fun hrunning => ?_, ?_, ?_⟩, h.tracked, fun file hfile => ?_⟩
    · have hkept := h.kept hrunning
      rw [hpending, map_append, append_assoc] at hkept
      exact hkept
    · refine forall_mem_cons.mpr ⟨h.pending_read submission.file ?_, h.read⟩
      rw [hpending]
      exact mem_append_right _ mem_cons_self
    · exact forall_mem_cons.mpr ⟨hjustified, h.justified⟩
    · apply h.pending_read
      rw [hpending]
      exact mem_append_left _ hfile
  | dropped hstop =>
    refine ⟨⟨h.once, fun hrunning => ?_, h.read, h.justified⟩, h.tracked, fun file hfile => ?_⟩
    · rw [hstop] at hrunning
      cases hrunning
    · rw [pending_idle rfl] at hfile
      apply h.pending_read
      rw [pending, map_append]
      exact mem_append_left _ hfile
  | requeued submission now htaken =>
    refine h.repended ?_ ⟨rfl, rfl, rfl, rfl⟩
    rw [pending_taken htaken, pending_idle rfl, map_append]
    exact .refl _
  | stopped => exact ⟨⟨h.once, nofun, h.read, h.justified⟩, h.tracked, h.pending_read⟩

theorem reached_settled (events : List RecoveryEvent) : (reached events).Settled := by
  have hinit : init.Sound := by
    refine ⟨⟨nodup_nil, fun _ => .refl _, ?_, ?_⟩, rfl, ?_⟩
    · intro archival hmem
      cases hmem
    · intro archival hmem
      cases hmem
    · intro file hmem
      cases hmem
  exact (Transition.run_invariant_always (fun s event h => h.stepped (stepped s event)) events hinit).toSettled

/-- The block of an accepted share survives the spool, an identity is read from a name only if
the file has that header, and in every run of the recovery thread each file is queued once and
archived for a reason, or kept for another attempt. -/
theorem spool_recovers {job : Job} {result : ShareResult} (h : job.Validated result) (hpositive : 0 < job.height)
    (hfits : job.height < 2 ^ 63) {block : PendingBlock} (hheight : block.height = job.height)
    (hhash : block.hash = result.block_hash_hex)
    (hhex : job.build_block_hex result.legacy_coinbase result.header = .ok block.hex) :
    (extension block.spool_name = ".hex".toList ∧
      spooled_block block.spool_name block.spool_contents = some ⟨block.height, block.hash, block.hex, [], []⟩) ∧
      (∀ name block_hex identity, parse_spooled_block_identity name block_hex = some identity →
        NamesHeader name block_hex identity) ∧
      ∀ events, (reached events).Settled :=
  ⟨spooled_block_roundtrip h hpositive hfits hheight hhash hhex,
    fun _ _ _ hidentity => parse_spooled_block_identity_some hidentity, reached_settled⟩

/-- A file named after nothing is submitted twice; the second time no endpoint answers. -/
def unanswered : List RecoveryEvent :=
  [.resubmit ⟨"found.hex".toList, some "00\n".toList, true⟩, .resubmit ⟨"found.hex".toList, some "00\n".toList, true⟩,
    .wait_for_submission 0, .recover ⟨.error "timeout", fun _ => .error .other⟩ [.ok (some "inconclusive".toList)] true 1,
    .wait_for_submission 6, .recover ⟨.error "timeout", fun _ => .error .other⟩ [.error "timeout"] true 7]

open RolledShare in
theorem spool_recovers_rolled : ∃ result hex, job.validate_share submitted = .ok result ∧
    job.build_block_hex result.legacy_coinbase result.header = .ok hex ∧
    (∃ name contents, spooled_block name contents = some ⟨1, result.block_hash_hex, hex, [], []⟩) ∧
    (reached unanswered).enqueued = ["found.hex".toList] ∧ (reached unanswered).Settled := by
  obtain ⟨result, hresult⟩ : ∃ result, job.validate_share submitted = .ok result := by
    cases h : job.validate_share submitted with
    | error rejection =>
      have hok : (job.validate_share submitted).isOk = true := by decide +kernel
      rw [h] at hok
      cases hok
    | ok result => exact ⟨result, rfl⟩
  have hhex : job.build_block_hex result.legacy_coinbase result.header =
      .ok (to_hex (result.header ++ encode_varint 1 ++ result.legacy_coinbase ++ [])) := rfl
  obtain ⟨⟨-, hread⟩, -, hsettled⟩ := @spool_recovers job result (.share submitted hresult) (by decide) (by decide)
    ⟨1, result.block_hash_hex, _, [], []⟩ rfl rfl hhex
  exact ⟨result, _, hresult, hhex, ⟨_, _, hread⟩, by decide +kernel, hsettled unanswered⟩

end Recovery

end erikslund
