import SoloPool.Sv2.Mirror
import SoloPool.Sv2.Session.Entries
import Mathlib.Data.List.Forall2

namespace erikslund.sv2

open util stratum List

/-- The merkle root of a share on the job. -/
def IssuedJob.merkle_root (issued : IssuedJob) (extranonce : Bytes) : Hash256 :=
  match issued.work with
  | .standard work => work.merkle_root
  | .extended work =>
    merkle_root_from_branch
      (sha256d <| work.coinbase_tx_prefix ++ issued.extranonce_prefix ++ extranonce ++ work.coinbase_tx_suffix)
      work.merkle_path

/-- The header of a share on the job. -/
def IssuedJob.header (issued : IssuedJob) (ntime nonce version : UInt32) (extranonce : Bytes) : Bytes :=
  issued.source_job.build_header (issued.merkle_root extranonce) ntime nonce version

/-- Validation refuses a share by its fields alone, or judges its header against the issued
target. -/
theorem Session.validate_share_header (share : ShareSubmission) (prepared : PreparedShare) (now_unix : Int) :
    (∃ rejection, validate_share share prepared now_unix = .error rejection ∧
      rejection.reason ≠ .AboveTarget) ∨
    ∃ legacy_coinbase, validate_share share prepared now_unix =
      prepared.issued_job.source_job.validate_header legacy_coinbase
        (prepared.issued_job.merkle_root prepared.submitted_extranonce) share.ntime share.nonce share.version
        prepared.issued_target := by
  have hstandard (job : Job) (input : StandardShareInput) :
      (∃ rejection, job.validate_standard_share input = .error rejection ∧ rejection.reason ≠ .AboveTarget) ∨
        job.validate_standard_share input = job.validate_header input.legacy_coinbase input.merkle_root
          input.ntime input.nonce input.version input.share_target := by
    unfold Job.validate_standard_share
    split
    · exact .inl ⟨_, rfl, by simp⟩
    split
    · exact .inl ⟨_, rfl, by simp⟩
    · exact .inr rfl
  unfold validate_share IssuedJob.merkle_root
  dsimp only
  cases prepared.issued_job.work with
  | standard work => exact (hstandard _ _).imp_right (fun h => ⟨_, h⟩)
  | extended work =>
    dsimp only
    unfold Job.validate_extended_share
    split
    · exact .inl ⟨_, rfl, by simp⟩
    · exact (hstandard _ _).imp_right (fun h => ⟨_, h⟩)

/-- The announced form of a piece of work. -/
def Work.announced : Work → mirror.Work
  | .standard work => .standard work.merkle_root
  | .extended work => .extended work.coinbase_tx_prefix work.coinbase_tx_suffix work.merkle_path

/-- A job of the client and the entry it stands for. -/
structure JobMirrored (entry : UInt32 × IssuedJob) (job : mirror.MiningJob) : Prop where
  job_id : job.job_id = entry.1
  future : job.future = entry.2.follows_channel_target
  work : job.work = entry.2.work.announced
  extended : entry.2.work.kind = .Extended → job.extranonce_prefix = IssuedJob.extranonce_prefix entry.2
  target : job.target = entry.2.target.le_bytes

/-- The client's view of a channel: its newest jobs are the listed ones, in order. -/
structure Mirrored (c : Channel) (m : mirror.Channel) : Prop where
  target : m.target = c.target.le_bytes
  within : c.WithinDevice
  extended : c.kind = .Extended → m.extranonce_prefix = c.extranonce_prefix
  previous : m.previous = c.previous_hash.map (fun previous_hash => (previous_hash, c.previous_bits))
  parents : ∀ entry ∈ c.jobs, c.previous_hash = some entry.2.source_job.prevhash_internal ∧
    c.previous_bits = entry.2.source_job.bits
  jobs : ∃ older recent, m.jobs = older ++ recent ∧ Forall₂ JobMirrored c.jobs recent

variable {entry : UInt32 × IssuedJob} {job : mirror.MiningJob} {c c₁ : Channel} {m : mirror.Channel}
  {plan : JobBuildPlan} {work : Work} {clean_job : Bool} {ctx : PoolContext} {cause : Cause}

theorem JobMirrored.merkle_root (h : JobMirrored entry job)
    (extranonce : Bytes) : mirror.Channel.merkle_root job extranonce = entry.2.merkle_root extranonce := by
  unfold mirror.Channel.merkle_root IssuedJob.merkle_root
  rw [h.work]
  cases hwork : entry.2.work with
  | standard work => rfl
  | extended work => rw [h.extended (by rw [hwork]; rfl)]; rfl

/-- The client hashes what the pool hashes. -/
theorem Mirrored.header (h : Mirrored c m)
    (hentry : entry ∈ c.jobs) (hjob : JobMirrored entry job)
    (ntime nonce version : UInt32) (extranonce : Bytes) :
    m.header job ntime nonce version extranonce = some (entry.2.header ntime nonce version extranonce) := by
  obtain ⟨hparent, hbits⟩ := h.parents entry hentry
  rw [mirror.Channel.header, h.previous, hparent, hjob.merkle_root, hbits]
  rfl

theorem Touched.mirrored {c' : Channel} (htouched : Touched c c')
    (hwithin : c.WithinDevice → c'.WithinDevice) (h : Mirrored c m) : Mirrored c' m := by
  refine ⟨htouched.target ▸ h.target, hwithin h.within, fun hkind => ?_, ?_, ?_, ?_⟩
  · have hreserved := htouched.extranonce_prefix
    rw [hreserved]
    exact h.extended (htouched.kind ▸ hkind)
  · rw [htouched.previous_hash, htouched.previous_bits]
    exact h.previous
  · rw [htouched.jobs, htouched.previous_hash, htouched.previous_bits]
    exact h.parents
  · rw [htouched.jobs]
    exact h.jobs

/-- The jobs that follow the channel's target are those announced without a minimum ntime. -/
theorem Mirrored.retarget {target : uint256} (h : Mirrored c m)
    (htouched : Touched c c₁) (hwithin : target ≤ c₁.device_maximum_target) :
    Mirrored (Session.follow_target c₁ target) (m.set_target target.le_bytes) := by
  have hjob {entry : UInt32 × IssuedJob} {job : mirror.MiningJob} (hmirrored : JobMirrored entry job) :
      JobMirrored
        (entry.1, if entry.2.follows_channel_target then { entry.2 with target := target } else entry.2)
        (if job.future then { job with target := target.le_bytes } else job) := by
    rw [hmirrored.future]
    split
    · exact ⟨hmirrored.job_id, rfl, hmirrored.work, hmirrored.extended, rfl⟩
    · exact hmirrored
  refine ⟨rfl, hwithin, fun hkind => ?_, ?_, ?_, ?_⟩
  · exact (h.extended (htouched.kind ▸ hkind)).trans htouched.extranonce_prefix.symm
  · change m.previous = c₁.previous_hash.map (fun previous_hash => (previous_hash, c₁.previous_bits))
    rw [htouched.previous_hash, htouched.previous_bits]
    exact h.previous
  · intro entry hentry
    obtain ⟨old, hold, rfl⟩ := mem_map.mp hentry
    rw [htouched.jobs] at hold
    obtain ⟨hparent, hbits⟩ := h.parents old hold
    have hsource : (if old.2.follows_channel_target then { old.2 with target := target }
        else old.2).source_job = old.2.source_job := by
      split <;> rfl
    dsimp only
    rw [hsource]
    exact ⟨htouched.previous_hash.trans hparent, htouched.previous_bits.trans hbits⟩
  · obtain ⟨older, recent, hjobs, hrecent⟩ := h.jobs
    refine ⟨_, _, (congrArg _ hjobs).trans map_append, ?_⟩
    change Forall₂ JobMirrored (c₁.jobs.map _) _
    rw [htouched.jobs, forall₂_map_left_iff, forall₂_map_right_iff]
    exact hrecent.imp (fun _ _ hmirrored => hjob hmirrored)

/-- The client's view after the announcement of a job. -/
def announced_view (m : mirror.Channel) (channel_id : Nat) (plan : JobBuildPlan) (work : Work)
    (clean_job : Bool) : mirror.Channel :=
  let job := plan.source_job
  let announced := m.announce plan.job_id (Session.announced_ntime job clean_job) work.announced
  if clean_job then
    announced.set_new_prev_hash ⟨channel_id, plan.job_id, job.prevhash_internal, job.curtime, job.bits⟩
  else announced

/-- What the messages of a commit do to the client's view: a Standard channel may take a
new prefix, then the job is announced. -/
theorem receive_job_messages {mask : UInt32}
    {messages : List Message} (h : Session.job_messages mask c plan work clean_job = .ok messages)
    (m : mirror.Channel) :
    ∃ m₁ : mirror.Channel, m₁.target = m.target ∧ m₁.previous = m.previous ∧ m₁.jobs = m.jobs ∧
      (c.kind = .Extended → m₁.extranonce_prefix = m.extranonce_prefix) ∧
      messages.foldl mirror.Channel.receive (some m) = some (announced_view m₁ c.id plan work clean_job) := by
  have hprevious (m₁ : mirror.Channel) :
      (Session.previous_hash_messages c plan clean_job).foldl mirror.Channel.receive
        (some (m₁.announce plan.job_id (Session.announced_ntime plan.source_job clean_job) work.announced)) =
      some (announced_view m₁ c.id plan work clean_job) := by
    cases clean_job <;> rfl
  rcases Session.job_messages_ok h with ⟨standard, hkind, rfl, rfl⟩ | ⟨extended, hkind, rfl, rfl⟩
  · rw [foldl_append, Session.standard_messages, foldl_append]
    cases plan.announce_extranonce_prefix with
    | true =>
      refine ⟨{ m with extranonce_prefix := plan.extranonce_prefix }, rfl, rfl, rfl, ?_, hprevious _⟩
      intro hextended
      rw [hkind] at hextended
      cases hextended
    | false => exact ⟨m, rfl, rfl, rfl, fun _ => rfl, hprevious _⟩
  · exact ⟨m, rfl, rfl, rfl, fun _ => rfl, hprevious _⟩

theorem Commit.parent_kept (hcommit : Commit ctx cause c c₁ plan work false) :
    c₁.previous_hash = some plan.source_job.prevhash_internal ∧ c₁.previous_bits = plan.source_job.bits := by
  have hsame := hcommit.same_parent rfl
  simpa [Session.requires_new_prevhash_locked] using hsame

theorem Commit.job_mirrored (hcommit : Commit ctx cause c c₁ plan work clean_job)
    {m₁ : mirror.Channel} (h : Mirrored c m) (htarget : m₁.target = m.target)
    (hextended : c₁.kind = .Extended → m₁.extranonce_prefix = m.extranonce_prefix) :
    JobMirrored (plan.job_id, Session.issued_job c₁ plan work clean_job)
      ⟨plan.job_id, (Session.announced_ntime plan.source_job clean_job).isNone, work.announced,
        m₁.extranonce_prefix, m₁.target⟩ := by
  refine ⟨rfl, by cases clean_job <;> rfl, rfl, fun hkind => ?_, ?_⟩
  · have hkind' : c.kind = .Extended :=
      (hcommit.planned.kind.symm.trans (Session.build_job_work_kind hcommit.built).symm).trans hkind
    have hown := hextended (hcommit.touched.kind.trans hkind')
    exact (hown.trans (h.extended hkind')).trans (hcommit.planned.extended hkind').1.symm
  · exact (htarget.trans h.target).trans (congrArg uint256.le_bytes hcommit.touched.target.symm)

/-- Evicting from the front leaves the newest jobs aligned. -/
theorem aligned_evict {jobs : List (UInt32 × IssuedJob)} {recent : List mirror.MiningJob}
    (older : List mirror.MiningJob)
    (hrecent : Forall₂ JobMirrored jobs recent) (hnew : JobMirrored entry job) :
    ∃ older' recent', older ++ recent ++ [job] = older' ++ recent' ∧
      Forall₂ JobMirrored (Session.evict_jobs (jobs ++ [entry])) recent' := by
  let count := (jobs ++ [entry]).length - kMaximumIssuedJobs
  refine ⟨older ++ (recent ++ [job]).take count, (recent ++ [job]).drop count, ?_,
    forall₂_drop count (rel_append hrecent (.cons hnew .nil))⟩
  rw [append_assoc older (List.take _ _), take_append_drop, append_assoc]

theorem Mirrored.commit (hcommit : Commit ctx cause c c₁ plan work clean_job)
    {m₁ : mirror.Channel} (h : Mirrored c m) (htarget : m₁.target = m.target)
    (hprevious : m₁.previous = m.previous) (hjobs : m₁.jobs = m.jobs)
    (hextended : c₁.kind = .Extended → m₁.extranonce_prefix = m.extranonce_prefix) (now : ℚ) :
    Mirrored (committed_channel c₁ plan work clean_job now) (announced_view m₁ c₁.id plan work clean_job) := by
  have hnew := hcommit.job_mirrored h htarget hextended
  have htouched := hcommit.touched
  have htarget' : m₁.target = c₁.target.le_bytes := by rw [htarget, h.target, htouched.target]
  have hown (hkind : c₁.kind = .Extended) : m₁.extranonce_prefix = c₁.extranonce_prefix := by
    rw [hextended hkind, htouched.extranonce_prefix]
    exact h.extended (htouched.kind ▸ hkind)
  obtain ⟨older, recent, hmirror, hrecent⟩ := h.jobs
  cases clean_job with
  | false =>
    obtain ⟨hparent, hbits⟩ := hcommit.parent_kept
    refine ⟨htarget', hcommit.within h.within, hown, ?_, ?_, ?_⟩
    · change m₁.previous = c₁.previous_hash.map _
      rw [hprevious, h.previous, htouched.previous_hash]
      change _ = c.previous_hash.map (fun previous_hash => (previous_hash, c₁.previous_bits))
      rw [htouched.previous_bits]
    · intro entry hentry
      rcases mem_append.mp (mem_evict hentry) with hold | hlast
      · change entry ∈ c₁.jobs at hold
        rw [htouched.jobs] at hold
        obtain ⟨hparent', hbits'⟩ := h.parents entry hold
        exact ⟨htouched.previous_hash.trans hparent', htouched.previous_bits.trans hbits'⟩
      · rw [mem_singleton.mp hlast]
        exact ⟨hparent, hbits⟩
    · change ∃ older recent, m₁.jobs ++ [_] = older ++ recent ∧
        Forall₂ JobMirrored (Session.evict_jobs (c₁.jobs ++ [_])) recent
      rw [hjobs, hmirror, htouched.jobs]
      exact aligned_evict older hrecent hnew
  | true =>
    refine ⟨htarget', hcommit.within h.within, hown, rfl, ?_, ?_⟩
    · intro entry hentry
      rw [mem_singleton.mp (mem_evict hentry)]
      exact ⟨rfl, rfl⟩
    · refine ⟨m₁.jobs.filter (fun job => job.job_id = plan.job_id), [_], ?_, .cons hnew .nil⟩
      simp [announced_view, mirror.Channel.announce, mirror.Channel.set_new_prev_hash, filter_append]

end erikslund.sv2
