import SoloPool.Stratum.Validators
import SoloPool.Sv2.Session.Mirrored
import SoloPool.Sv2.Session.Prepare

namespace erikslund.sv2

open util stratum Transition List

/-- The announcement of the job fits its wire format. -/
def IssuedJob.Encodable (issued : IssuedJob) : Prop :=
  match issued.work with
  | .standard _ => True
  | .extended work => work.merkle_path.length ≤ 255 ∧ work.coinbase_tx_suffix.length ≤ 65535

instance (issued : IssuedJob) : Decidable issued.Encodable :=
  match hwork : issued.work with
  | .standard _ => .isTrue (by simp [IssuedJob.Encodable, hwork])
  | .extended work => decidable_of_iff (work.merkle_path.length ≤ 255 ∧ work.coinbase_tx_suffix.length ≤ 65535)
      (by simp [IssuedJob.Encodable, hwork])

/-- Every job on a channel fits. -/
def Server.Encodable (server : Server) : Prop :=
  ∀ c ∈ server.session.channels, ∀ entry ∈ c.jobs, entry.2.Encodable

instance (server : Server) : Decidable server.Encodable :=
  inferInstanceAs (Decidable (∀ c ∈ server.session.channels, ∀ entry ∈ c.jobs, entry.2.Encodable))

theorem NewExtendedMiningJob.codec_error_none {msg : NewExtendedMiningJob}
    (hpath : msg.merkle_path.length ≤ 255) (hlead : msg.coinbase_tx_prefix.length ≤ 65535)
    (hsuffix : msg.coinbase_tx_suffix.length ≤ 65535) : msg.codec_error = none := by
  rw [codec_error, if_neg (by omega), if_neg (by omega), if_neg (by omega)]

variable {ctx : PoolContext} {c : Channel}

/-- The announcement of a job that fits can be encoded: the other fields never fail. -/
theorem Commit.encodes {cause : Cause} {c₁ : Channel} {plan : JobBuildPlan}
    {work : Work} {clean_job : Bool} (hcommit : Commit ctx cause c c₁ plan work clean_job)
    (hencodable : (Session.issued_job c₁ plan work clean_job).Encodable) (mask : UInt32) :
    ∃ messages, Session.job_messages mask c₁ plan work clean_job = .ok messages := by
  have hkind : work.kind = c₁.kind :=
    ((Session.build_job_work_kind hcommit.built).trans hcommit.planned.kind).trans hcommit.touched.kind.symm
  have hbuilt := hcommit.built
  cases work with
  | standard standard =>
    have hstandard : c₁.kind = .Standard := hkind.symm
    simp only [Session.job_messages, hstandard]
    exact ⟨_, rfl⟩
  | extended extended =>
    have hextended : c₁.kind = .Extended := hkind.symm
    obtain ⟨hpath, hsuffix⟩ : extended.merkle_path.length ≤ 255 ∧ extended.coinbase_tx_suffix.length ≤ 65535 :=
      hencodable
    have hlead : extended.coinbase_tx_prefix.length ≤ 142 := by
      have hplan : plan.kind = .Extended := (Session.build_job_work_kind hcommit.built).symm
      rw [Session.build_job_work, hplan] at hbuilt
      cases hbuilt
      exact plan.source_job.coinbase1_le
    have hcodec : (Session.extended_message mask c₁ plan extended clean_job).codec_error = none :=
      NewExtendedMiningJob.codec_error_none hpath (hlead.trans (by decide)) hsuffix
    simp only [Session.job_messages, hextended, hcodec]
    exact ⟨_, rfl⟩

/-- A change of a channel and the messages about it keep the client's view in step. -/
theorem Change.mirrored {mask : UInt32} {cause : Cause} {c' : Channel}
    {messages : List Message} {m : mirror.Channel}
    (h : Change mask ctx cause (some c) messages (some c')) (hmirrored : Mirrored c m)
    (hencodable : ∀ entry ∈ c'.jobs, entry.2.Encodable) :
    ∃ m', messages.foldl mirror.Channel.receive (some m) = some m' ∧ Mirrored c' m' := by
  cases h with
  | touched htouched _ hwithin => exact ⟨m, rfl, htouched.mirrored hwithin hmirrored⟩
  | retargeted htouched _ hwithin => exact ⟨_, rfl, hmirrored.retarget htouched hwithin⟩
  | committed hcommit hmessages =>
    obtain ⟨m₁, htarget, hprevious, hjobs, hextended, hfold⟩ := receive_job_messages hmessages m
    exact ⟨_, hfold, .commit hcommit hmirrored htarget hprevious hjobs hextended _⟩
  | @stranded _ c₁ plan work clean_job _ hcommit herror =>
    obtain ⟨messages, hmessages⟩ := hcommit.encodes (hencodable _ (last_mem_evict _ _)) mask
    cases herror.symm.trans hmessages

theorem Channel.Fresh.mirrored {msg : Message} (hfresh : c.Fresh)
    (hannounced : c.AnnouncedBy msg) (view : Option mirror.Channel) :
    ∃ m, mirror.Channel.receive view msg = some m ∧ Mirrored c m := by
  have hview {extranonce : Bytes} (hown : c.kind = .Extended → extranonce = c.extranonce_prefix) :
      Mirrored c ⟨c.target.le_bytes, extranonce, none, []⟩ := by
    refine ⟨rfl, hfresh.within, hown, by rw [hfresh.previous_hash]; rfl, ?_, ⟨[], [], rfl, ?_⟩⟩
    · rw [hfresh.jobs]
      simp
    · rw [hfresh.jobs]
      exact .nil
  unfold Channel.AnnouncedBy at hannounced
  cases hkind : c.kind with
  | Standard =>
    rw [hkind] at hannounced
    obtain ⟨request_id, announced, rfl⟩ := hannounced
    exact ⟨_, rfl, hview (by simp [hkind])⟩
  | Extended =>
    rw [hkind] at hannounced
    obtain ⟨request_id, rfl⟩ := hannounced
    exact ⟨_, rfl, hview (fun _ => rfl)⟩

/-- The client has every open channel in view. -/
def Server.Mirrored (server : Server) : Prop :=
  ∀ channel_id, ∀ c ∈ server.session.find_channel channel_id,
    ∃ m, mirror.Client.after server.session.sent channel_id = some m ∧ sv2.Mirrored c m

theorem Server.Mirrored.step {config : Config} {server : Server} (hwf : server.WellFormed)
    (hmirrored : server.Mirrored) (action : PoolContext × Event)
    (hencodable : (Server.step config server action).Encodable) :
    (Server.step config server action).Mirrored := by
  obtain ⟨ctx, event⟩ := action
  intro channel_id c' hfind'
  have hfits := hencodable c' (mem_of_find?_eq_some hfind')
  obtain ⟨messages, hstream, hchange⟩ := (hwf.changes config ctx event).channel channel_id
  rw [mirror.Client.after_eq, hstream, foldl_append, ← mirror.Client.after_eq]
  rw [Option.mem_def] at hfind'
  rw [hfind'] at hchange
  cases hfind : server.session.find_channel channel_id with
  | some c =>
    rw [hfind] at hchange
    obtain ⟨m, hview, hm⟩ := hmirrored channel_id c hfind
    rw [hview]
    exact hchange.mirrored hm hfits
  | none =>
    rw [hfind] at hchange
    cases hchange with
    | opened hfresh _ hannounced hchange =>
      obtain ⟨m, hview, hm⟩ :=
        hfresh.mirrored hannounced (mirror.Client.after server.session.sent channel_id)
      rw [foldl_cons, hview]
      exact hchange.mirrored hm hfits

/-- The client computes from the wire the entry's target, and its header for any share. -/
structure Computes (m : mirror.Channel) (entry : UInt32 × IssuedJob) (job : mirror.MiningJob) : Prop where
  job_id : job.job_id = entry.1
  target : job.target = entry.2.target.le_bytes
  header : ∀ ntime nonce version extranonce,
    m.header job ntime nonce version extranonce = some (entry.2.header ntime nonce version extranonce)

/-- A share as `prepare_share_locked` hands it on is held to that target, and unless its fields
are refused outright its verdict is the one on that header. -/
structure Judged (m : mirror.Channel) (share : ShareSubmission) (prepared : PreparedShare)
    (entry : UInt32 × IssuedJob) (job : mirror.MiningJob) : Prop where
  job_id : entry.1 = share.job_id
  issued_job : prepared.issued_job = entry.2
  issued_target : prepared.issued_target = entry.2.target
  extranonce : prepared.submitted_extranonce = share.extranonce
  verdict : ∀ now_unix,
    (∃ rejection, Session.validate_share share prepared now_unix = .error rejection ∧
      rejection.reason ≠ .AboveTarget) ∨
    ∃ header legacy_coinbase,
      m.header job share.ntime share.nonce share.version share.extranonce = some header ∧
      Session.validate_share share prepared now_unix =
        entry.2.source_job.verdict header legacy_coinbase entry.2.target

theorem Computes.judged {m : mirror.Channel} {entry : UInt32 × IssuedJob} {job : mirror.MiningJob}
    (h : Computes m entry job) {s : Session} {share : ShareSubmission}
    (hid : entry.1 = share.job_id) : Judged m share (prepared_share s share c entry.2) entry job := by
  refine ⟨hid, rfl, rfl, rfl, fun now_unix => ?_⟩
  refine (Session.validate_share_header share (prepared_share s share c entry.2) now_unix).imp_right ?_
  rintro ⟨legacy_coinbase, hjudged⟩
  exact ⟨_, legacy_coinbase, h.header .., hjudged.trans (Job.validate_header_eq ..)⟩

/-- What `prepare_share_locked` hands on is the share on a listed job of its channel. -/
theorem Session.prepare_share_some {s s' : Session} {share : ShareSubmission}
    {prepared : PreparedShare} (h : s.prepare_share_locked ctx share = (s', some prepared))
    (hfind : s.find_channel share.channel_id = some c) :
    ∃ entry ∈ c.jobs, entry.1 = share.job_id ∧ prepared = prepared_share s share c entry.2 := by
  rcases s.prepare_share_cases ctx share with
    ⟨_, _, _, _, -, -, heq⟩ | ⟨_, -, heq⟩ | ⟨_, _, -, -, heq⟩ | ⟨c', issued, hexamined, -, heq⟩ <;>
    rw [heq] at h
  all_goals cases h
  cases hexamined.channel.symm.trans hfind
  obtain ⟨entry, hentry, rfl⟩ := Option.map_eq_some_iff.mp hexamined.job
  exact ⟨entry, mem_of_find?_eq_some hentry, by simpa using find?_some hentry, rfl⟩

/-- In every run whose jobs fit the wire format, a client that has processed the messages
sent so far has the listed jobs of every open channel as its newest ones, in order, and
computes for each the header and the target that validation uses for the shares on it. The
listed jobs have the channel's parent and bits, and its target, which the device can meet, is
the last one announced. -/
theorem mirror_agrees {config : Config} {extranonce1 : Bytes} {actions : List (PoolContext × Event)}
    (hencodable : Guarded (Server.step config) (fun server action => (Server.step config server action).Encodable)
      (Server.init config extranonce1) actions)
    {channel_id : Nat} {c : Channel}
    (hfind : (Server.reached config extranonce1 actions).session.find_channel channel_id = some c) :
    ∃ m, mirror.Client.after (Server.reached config extranonce1 actions).session.sent channel_id = some m ∧
      Forall₂ (Computes m) c.jobs (m.jobs.drop (m.jobs.length - c.jobs.length)) ∧
      (∀ ctx share s' prepared, share.channel_id = channel_id →
        (Server.reached config extranonce1 actions).session.prepare_share_locked ctx share = (s', some prepared) →
        ∃ entry ∈ c.jobs, ∃ job ∈ m.jobs, Computes m entry job ∧ Judged m share prepared entry job) ∧
      (∀ entry ∈ c.jobs, c.previous_hash = some entry.2.source_job.prevhash_internal ∧
        c.previous_bits = entry.2.source_job.bits) ∧
      c.target ≤ c.device_maximum_target ∧ m.target = c.target.le_bytes := by
  have hinit : (Server.init config extranonce1).Mirrored := by
    simp [Server.Mirrored, Server.init, Session.new, Session.find_channel]
  have hstep (server : Server) (action : PoolContext × Event) (h : server.WellFormed ∧ server.Mirrored)
      (hfits : (Server.step config server action).Encodable) :
      (Server.step config server action).WellFormed ∧ (Server.step config server action).Mirrored :=
    ⟨h.1.step action, h.2.step h.1 action hfits⟩
  have hrun := run_invariant hstep ⟨Server.init_wellFormed config extranonce1, hinit⟩ hencodable
  obtain ⟨m, hview, hm⟩ := hrun.2 channel_id c hfind
  obtain ⟨older, recent, hjobs, hrecent⟩ := hm.jobs
  have hnewest : m.jobs.drop (m.jobs.length - c.jobs.length) = recent := by
    rw [hrecent.length_eq, hjobs, length_append, Nat.add_sub_cancel, drop_left]
  have hlisted : Forall₂ (fun entry job => entry ∈ c.jobs ∧ JobMirrored entry job) c.jobs recent :=
    (forall₂_and_left c.jobs recent).mpr ⟨fun _ h => h, hrecent⟩
  have hcomputes : Forall₂ (Computes m) c.jobs recent :=
    hlisted.imp fun entry job h => ⟨h.2.job_id, h.2.target, hm.header h.1 h.2⟩
  refine ⟨m, hview, by rwa [hnewest], ?_, hm.parents, hm.within, hm.target⟩
  rintro ctx share s' prepared rfl hprepared
  obtain ⟨entry, hentry, hid, rfl⟩ := Session.prepare_share_some hprepared hfind
  obtain ⟨i, hi, rfl⟩ := getElem_of_mem hentry
  have hi' : i < recent.length := hcomputes.length_eq ▸ hi
  have hcomputed := hcomputes.get hi hi'
  exact ⟨_, hentry, _, hjobs ▸ mem_append_right _ (get_mem ..), hcomputed, hcomputed.judged hid⟩

theorem NewExtendedMiningJob.codec_error_suffix {msg : NewExtendedMiningJob}
    (hsuffix : 65535 < msg.coinbase_tx_suffix.length) : ∃ error, msg.codec_error = some error := by
  rw [codec_error, if_pos hsuffix]
  split
  · exact ⟨_, rfl⟩
  split
  · exact ⟨_, rfl⟩
  · exact ⟨_, rfl⟩

/-- A job that does not fit is listed all the same, and nothing is sent. -/
theorem Session.commit_oversized (s : Session) {extended : ExtendedWork} (hkind : c.kind = .Extended)
    (hlong : 65535 < extended.coinbase_tx_suffix.length) (plan : JobBuildPlan) (clean : Bool) (now : ℚ) :
    ∃ error, s.commit_job_locked c plan (.extended extended) clean now =
      ((if clean || requires_new_prevhash_locked c plan.source_job then
          s.rotate_share_history_for_clean_job_locked plan.source_job else s).store_channel
        (add_issued_job c plan (.extended extended) (clean || requires_new_prevhash_locked c plan.source_job)),
        some error) := by
  simp only [commit_job_locked]
  generalize (clean || requires_new_prevhash_locked c plan.source_job) = clean_job
  have hadded : (add_issued_job c plan (.extended extended) clean_job).kind = .Extended := hkind
  have hsuffix (mask : UInt32) : ∃ error, (extended_message mask (add_issued_job c plan (.extended extended) clean_job)
      plan extended clean_job).codec_error = some error :=
    NewExtendedMiningJob.codec_error_suffix hlong
  simp only [job_messages, hadded]
  obtain ⟨error, herror⟩ := hsuffix (if clean_job then
    s.rotate_share_history_for_clean_job_locked plan.source_job else s).version_mask
  rw [herror]
  exact ⟨error, rfl⟩

namespace Oversized

def pool (job : Job) : PoolContext where
  current_job := some job
  recent_job := fun _ => some job
  runtime_config := {}
  validate_address := fun _ => some []
  steady_seconds := 0
  time := 1000

def first : Job := .minimal "1".toList 1 1000 1

/-- The next block's job, whose template asks for a coinbase output of 64 KiB. -/
def second : Job :=
  { Job.minimal "2".toList 2 1000 2 with coinbase_required_outputs := [⟨0, replicate 65536 0x00⟩] }

theorem second_long : 65535 < (second.build_coinbase2 []).length := by
  have hscript : 65536 ≤ (bitcoin.append_output ⟨0, replicate 65536 0x00⟩).length := by
    simp only [bitcoin.append_output, length_append, length_replicate]
    omega
  simp only [Job.build_coinbase2, bitcoin.build_coinbase2, second, Job.minimal, flatMap_cons, length_append]
  omega

def opening : List (PoolContext × Event) :=
  [(pool first, .frame ⟨0, false, .setup_connection ⟨0, 2, 2, 0⟩⟩),
   (pool first, .frame ⟨0, false, .open_extended_mining_channel
      ⟨7, "miner".toList, some 0, .filled 0xff⟩ 0⟩)]

def delivering : List (PoolContext × Event) :=
  [(pool second, .publish_job "2".toList true), (pool second, .resume 0), (pool second, .resume 0)]

def opened : Server := Server.reached {} [0, 0, 0, 1] opening

def channel : Channel := opened.session.channels.head (by decide +kernel)

theorem opened_state : opened.session.channels = [channel] ∧ opened.calls = [] ∧ channel.id = 1 ∧
    channel.kind = .Extended ∧ channel.last_publication_sequence = 1 ∧ channel.payout_script = [] ∧
    channel.previous_hash = some first.prevhash_internal := by
  decide +kernel

theorem opened_channels : opened.session.channels = [channel] := opened_state.1

def prepared : JobBuildPlan × Session := opened.session.prepare_job_locked {} channel second none

theorem news : ¬ (second.publication_sequence ≠ 0 ∧
    second.publication_sequence ≤ channel.last_publication_sequence) := by
  obtain ⟨-, -, -, -, hsequence, -, -⟩ := opened_state
  rw [hsequence]
  decide

theorem prepare_second : opened.session.prepare_publication {} second = ([prepared.1], prepared.2) := by
  rw [Session.prepare_publication, opened_channels, foldl_cons, foldl_nil]
  exact if_neg news

/-- The channel with the job that could not be announced. -/
def stranded : Channel :=
  Session.add_issued_job { channel with last_publication_sequence := 2 } prepared.1
    (.extended (second.build_extended_work [])) true

theorem commit_second : ∃ s' error,
    prepared.2.commit_publication second true prepared.1 0 = (s', some error) ∧
      s'.channels = [stranded] ∧ s'.sent = opened.session.sent := by
  obtain ⟨-, -, -, hkind, hsequence, hscript, -⟩ := opened_state
  obtain ⟨hfor, hjob⟩ := opened.session.prepare_job_for {} channel second none
  have hsame := opened.session.prepare_job_same {} channel second none
  have hwork : Session.build_job_work prepared.1 = .ok (.extended (second.build_extended_work [])) := by
    have hpayout : prepared.1.payout_script = [] := hfor.payout_script.trans hscript
    have hplan : prepared.1.kind = .Extended := hfor.kind.trans hkind
    have hsource : prepared.1.source_job = second := hjob
    rw [Session.build_job_work, hplan]
    simp only [hpayout, hsource]
  have hfind : prepared.2.find_channel prepared.1.channel_id = some channel := by
    have hid : prepared.1.channel_id = channel.id := hfor.channel_id
    have hsame' : prepared.2.channels = opened.session.channels := hsame.channels
    rw [Session.find_channel, hsame', hid, opened_channels]
    simp
  have hlong : 65535 < (second.build_extended_work []).coinbase_tx_suffix.length := second_long
  have hkind' : { channel with last_publication_sequence := 2 }.kind = .Extended := hkind
  obtain ⟨error, hcommit⟩ := prepared.2.commit_oversized hkind' hlong prepared.1 true 0
  have hresult : prepared.2.commit_publication second true prepared.1 0 =
      prepared.2.commit_job_locked { channel with last_publication_sequence := 2 } prepared.1
        (.extended (second.build_extended_work [])) true 0 := by
    simp only [Session.commit_publication, hwork, hfind, if_neg news]
    rw [hsequence]
    rfl
  have hview := prepared.2.rotate_same prepared.1.source_job
  refine ⟨_, error, hresult.trans hcommit, ?_, ?_⟩
  · simp only [Bool.true_or, if_true, Session.store_channel, hview.channels]
    have hsame' : prepared.2.channels = opened.session.channels := hsame.channels
    rw [hsame', opened_channels]
    simp [stranded, Session.add_issued_job]
  · exact hview.sent.trans hsame.sent

/-- One commit fails and ends the publication. -/
theorem delivered {server : Server} {plan : JobBuildPlan} {mid s' : Session} {error : String}
    (hcalls : server.calls = []) (hopen : server.session.channels.isEmpty = false)
    (hprepare : server.session.prepare_publication {} second = ([plan], mid))
    (hcommit : mid.commit_publication second true plan 0 = (s', some error)) :
    (run (Server.step {}) server delivering).session = s' := by
  have hpublish : Server.step {} server (pool second, .publish_job "2".toList true) =
      { server with calls := server.calls ++ [.publishing second true] } := rfl
  have hplans : Server.step {} { server with calls := [.publishing second true] } (pool second, .resume 0) =
      { server with session := mid, calls := [.publish second true [plan]] } := by
    simp only [Server.step, getElem?_cons_zero, Session.resume_call, hopen, hprepare]
    rfl
  have hfail : (Server.step {} { server with session := mid, calls := [.publish second true [plan]] }
      (pool second, .resume 0)).session = s' := by
    have hcommit' : mid.commit_publication second true plan (pool second).steady_seconds = (s', some error) := hcommit
    simp only [Server.step, getElem?_cons_zero, Session.resume_call, hcommit']
  rw [delivering, run_cons, run_cons, run_cons, run_nil, hpublish, hcalls, nil_append, hplans, hfail]

theorem published : (Server.reached {} [0, 0, 0, 1] (opening ++ delivering)).session =
    (prepared.2.commit_publication second true prepared.1 0).1 := by
  have hcalls : opened.calls = [] := opened_state.2.1
  have hopen : opened.session.channels.isEmpty = false := by rw [opened_channels]; rfl
  obtain ⟨s', error, hcommit, -, -⟩ := commit_second
  rw [hcommit, Server.reached_append]
  exact delivered hcalls hopen prepare_second hcommit

end Oversized

open Oversized in
/-- A job whose announcement does not fit the wire format is listed without being announced,
under a parent that is not the channel's. -/
theorem oversized_job_unannounced :
    ∃ c m entry, (Server.reached {} [0, 0, 0, 1] (opening ++ delivering)).session.find_channel 1 = some c ∧
      mirror.Client.after (Server.reached {} [0, 0, 0, 1] (opening ++ delivering)).session.sent 1 = some m ∧
      entry ∈ c.jobs ∧ (∀ job ∈ m.jobs, job.job_id ≠ entry.1) ∧
      c.previous_hash ≠ some entry.2.source_job.prevhash_internal := by
  obtain ⟨s', error, hcommit, hchannels, hsent⟩ := commit_second
  rw [published, hcommit]
  dsimp only
  obtain ⟨-, -, hid, -, -, -, hparent⟩ := opened_state
  have hjob : prepared.1.job_id = 2 := by decide +kernel
  have hsource : prepared.1.source_job = second := (opened.session.prepare_job_for {} channel second none).2
  have hknown : (mirror.Client.after opened.session.sent 1).map (fun m => m.jobs.map mirror.MiningJob.job_id) =
      some [1] := by
    decide +kernel
  obtain ⟨m, hm, hjobs⟩ := Option.map_eq_some_iff.mp hknown
  have hstranded : stranded.id = 1 := hid
  refine ⟨stranded, m, _, ?_, by rw [hsent, hm],
    (last_mem_evict [] _ : (prepared.1.job_id, _) ∈ stranded.jobs), fun job hmem => ?_, ?_⟩
  · rw [Session.find_channel, hchannels]
    simp [hstranded]
  · have hlisted := mem_map_of_mem (f := mirror.MiningJob.job_id) hmem
    rw [hjobs, mem_singleton] at hlisted
    rw [hlisted, hjob]
    decide
  · change channel.previous_hash ≠ some prepared.1.source_job.prevhash_internal
    rw [hparent, hsource]
    decide

open Oversized in
/-- A run with a job that fits. -/
theorem mirror_agrees_opened :
    ∃ m, mirror.Client.after opened.session.sent 1 = some m ∧ m.target = channel.target.le_bytes := by
  obtain ⟨m, hview, -, -, -, -, htarget⟩ := @mirror_agrees {} [0, 0, 0, 1] opening (by decide +kernel) 1 channel
    (by decide +kernel)
  exact ⟨m, hview, htarget⟩

end erikslund.sv2
