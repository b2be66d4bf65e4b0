import SoloPool.Sv2.Session.History

namespace erikslund.sv2

open util stratum Transition
open List hiding after

/-- The job a key names is still in the list of its channel. -/
def KeyListed (key : ShareKey) (server : Server) : Prop :=
  ∃ c ∈ server.session.find_channel key.channel_id, (Session.find_job c key.job_id).isSome

instance (key : ShareKey) (server : Server) : Decidable (KeyListed key server) :=
  decidable_of_iff ((server.session.find_channel key.channel_id).any
      (fun c => (Session.find_job c key.job_id).isSome) = true) (by
    simp [KeyListed, Option.any_eq_true])

variable (config : Config) (server : Server) (action : PoolContext × Event)

/-- A commit rotates the share history only when the keys of listed jobs that the older
generation alone holds are on its own channel, whose other jobs it drops. -/
def KeepsListedKeys : Prop :=
  ∀ issue ∈ server.issue config action.1 action.2, issue.Rotates server.session →
    server.session.seen_shares.current ≠ ∅ → ∀ key ∈ server.session.seen_shares.previous,
      key ∉ server.session.seen_shares.current → KeyListed key server →
        key.channel_id = issue.channel.id ∧ key.job_id ≠ issue.plan.job_id

instance (config : Config) (server : Server) (action : PoolContext × Event) :
    Decidable (KeepsListedKeys config server action) :=
  inferInstanceAs (Decidable (∀ issue ∈ _, _ → _ → ∀ key ∈ server.session.seen_shares.previous, _))

/-- A key listed after a clean commit to its channel is of the job committed. -/
theorem KeyListed.of_rotated {key : ShareKey} {server : Server} {issue : Issue} {s : Session}
    (hlisted : KeyListed key server) (hrotated : issue.Rotated s server.session)
    (hchannel : key.channel_id = issue.channel.id) : key.job_id = issue.plan.job_id := by
  obtain ⟨c, hfind, hjob⟩ := hlisted
  obtain ⟨issued, hissued⟩ := Option.isSome_iff_exists.mp hjob
  obtain ⟨entry, hentry, -⟩ := Option.map_eq_some_iff.mp hissued
  have hid : entry.1 = key.job_id := by simpa using find?_some hentry
  rw [← hid]
  exact hrotated.jobs c (hchannel ▸ hfind) entry (mem_of_find?_eq_some hentry)

/-- `prepare_share_locked` touches the history only to remember a fresh key. -/
theorem prepare_share_seen (ctx : PoolContext) (s : Session) (share : ShareSubmission) :
    ((s.prepare_share_locked ctx share).1.seen_shares = s.seen_shares ∧
        (s.prepare_share_locked ctx share).2 = none) ∨
      (¬ s.seen_shares.Remembers share.key ∧ (s.prepare_share_locked ctx share).1.seen_shares =
        (s.seen_shares.remember kMaxSeenShares share.key).2) := by
  have hreject (s : Session) (found : Option Channel) (code : String) (reason : RejectClass) :
      (s.reject_share_locked found share code reason).seen_shares = s.seen_shares := by
    cases found <;> rfl
  rcases s.prepare_share_cases ctx share with ⟨errors, found, code, reason, -, -, heq⟩ | ⟨found, -, heq⟩ |
      ⟨c, issued, hexamined, -, heq⟩ | ⟨c, issued, hexamined, -, heq⟩ <;> rw [heq]
  · exact .inl ⟨hreject _ _ _ _, rfl⟩
  · exact .inl ⟨hreject _ _ _ _, rfl⟩
  · exact .inr ⟨hexamined.fresh, hreject _ _ _ _⟩
  · exact .inr ⟨hexamined.fresh, rfl⟩

/-- The live generation holds no more keys than have been remembered. -/
def Server.Counted : Prop :=
  server.session.seen_shares.current.card ≤ server.remembered.length

theorem remembered_le :
    server.remembered.length ≤ (Server.step config server action).remembered.length := by
  obtain ⟨ctx, event⟩ := action
  cases history_step config server ctx event with
  | kept _ _ hremembered => rw [hremembered]
  | submitted share _ _ _ hremembered => simp [hremembered]
  | finished _ _ _ _ _ hremembered => rw [hremembered]

theorem Server.Counted.step {server : Server} (hcounted : server.Counted) (config : Config)
    (action : PoolContext × Event) : (Server.step config server action).Counted := by
  obtain ⟨ctx, event⟩ := action
  unfold Server.Counted at hcounted ⊢
  cases history_step config server ctx event with
  | kept hseen _ hremembered =>
    rw [hremembered]
    rcases hseen with h | ⟨_, _, h⟩
    · rwa [h]
    · rw [h.seen_shares]
      exact (Generations.rotateIfNonempty_card_le _).trans hcounted
  | finished _ _ _ hseen _ hremembered => rwa [hseen, hremembered]
  | submitted share _ hseen _ hremembered =>
    rw [hseen, hremembered]
    rcases prepare_share_seen ctx server.session share with ⟨h, -⟩ | ⟨hfresh, h⟩
    · rw [h]
      simp only [length_append]
      omega
    · have hnew := Generations.remember_remembers kMaxSeenShares server.session.seen_shares share.key
      have hcard := Generations.remember_card_le kMaxSeenShares server.session.seen_shares share.key
      rw [← h] at hnew hcard
      rw [if_pos ⟨hfresh, hnew⟩]
      simp only [length_append, length_singleton]
      omega

/-- Shares of this key accepted so far, with one that is being validated. -/
def Server.credits (key : ShareKey) : Nat :=
  server.accepted.count key + if server.share.map (fun share => share.1.key) = some key then 1 else 0

theorem Server.credited_once_step {config : Config} {server : Server} {action : PoolContext × Event}
    {key : ShareKey} {base : Nat} (honce : server.session.seen_shares.CreditedOnce key base (server.credits key))
    (hcounted : server.Counted) (hkeeps : KeepsListedKeys config server action)
    (hfew : (Server.step config server action).remembered.length < kMaxSeenShares)
    (hbefore : KeyListed key server) (hlisted : KeyListed key (Server.step config server action)) :
    (Server.step config server action).session.seen_shares.CreditedOnce key base
      ((Server.step config server action).credits key) := by
  have hroom : server.session.seen_shares.current.card < kMaxSeenShares :=
    (hcounted.trans (remembered_le config server action)).trans_lt hfew
  obtain ⟨ctx, event⟩ := action
  cases history_step config server ctx event with
  | kept hseen hshare _ haccepted =>
    refine honce.keep (by rw [Server.credits, hshare, haccepted, Server.credits]) (fun hkey => ?_)
    rcases hseen with hseen | ⟨issue, hissue, hrotated⟩
    · rwa [hseen]
    · rw [hrotated.seen_shares]
      refine Generations.rotateIfNonempty_keeps hkey (fun hlive hprevious => ?_)
      by_contra hold
      obtain ⟨hchannel, hjob⟩ := hkeeps issue hissue hrotated.rotates hlive key hprevious hold hbefore
      exact hjob (hlisted.of_rotated hrotated hchannel)
  | finished share prepared hflight hseen hshare _ haccepted =>
    refine honce.keep ?_ (fun hkey => by rwa [hseen])
    rcases haccepted with haccepted | haccepted
    · simp [Server.credits, hshare, haccepted]
    · simp [Server.credits, hshare, haccepted, hflight, count_cons]
  | submitted share hidle hseen hshare _ haccepted =>
    rcases prepare_share_seen ctx server.session share with ⟨hsame, hnone⟩ | ⟨hfresh, hnew⟩
    · refine honce.keep (by simp [Server.credits, hshare, haccepted, hnone]) (fun hkey => ?_)
      rwa [hseen, hsame]
    · rw [hseen, hnew]
      refine honce.remember hroom hfresh ?_
      simp only [Server.credits, haccepted, hshare, hidle]
      cases (server.session.prepare_share_locked ctx share).2 <;> simp

/-- In a run that remembers fewer than `kMaxSeenShares` shares and in which no rotation
drops a key of a listed job, a key submitted while its job stays listed is accepted at
most once. -/
theorem accepted_once_while_listed {config : Config} {extranonce1 : Bytes}
    {before after : List (PoolContext × Event)} {key : ShareKey}
    (hkeeps : Guarded (Server.step config) (KeepsListedKeys config) (Server.init config extranonce1)
      (before ++ after))
    (hfew : (Server.reached config extranonce1 (before ++ after)).remembered.length < kMaxSeenShares)
    (hidle : (Server.reached config extranonce1 before).share = none)
    (hlisted : Throughout (Server.step config) (KeyListed key) (Server.reached config extranonce1 before) after) :
    (Server.reached config extranonce1 (before ++ after)).accepted.count key ≤
      (Server.reached config extranonce1 before).accepted.count key + 1 := by
  rw [Server.reached_append] at hfew ⊢
  have hcounted : (Server.reached config extranonce1 before).Counted :=
    run_invariant_always (fun _ action h => h.step config action) before (Nat.le_refl 0)
  have hguard := guarded_and (guarded_append.mp hkeeps).2
    (guarded_of_bound (remembered_le config) hfew)
  change Guarded _ _ (Server.reached config extranonce1 before) after at hguard
  generalize Server.reached config extranonce1 before = server at *
  have hstart : server.session.seen_shares.CreditedOnce key (server.accepted.count key) (server.credits key) :=
    .inl (by simp [Server.credits, hidle])
  have hend := run_invariant_while
    (fun s action (h : s.Counted ∧
        s.session.seen_shares.CreditedOnce key (server.accepted.count key) (s.credits key)) hguard hbefore hlisted =>
      ⟨h.1.step config action, Server.credited_once_step h.2 h.1 hguard.1 hguard.2 hbefore hlisted⟩)
    ⟨hcounted, hstart⟩ hguard hlisted
  exact (Nat.le_add_right _ _).trans hend.2.le

namespace ForgottenShare

/-- A pool whose current job is `job`, with the difficulties its own session tests use. -/
def pool (job : Job) : PoolContext where
  current_job := some job
  recent_job := fun _ => some job
  runtime_config := { initial_difficulty := 1 / 10 ^ 10, minimum_difficulty := 1 / 10 ^ 12 }
  validate_address := fun _ => some []
  steady_seconds := 0
  time := 1000

def first : Job := .minimal "1".toList 1 1000 1

def second : Job := .minimal "2".toList 1 1000 2

def third : Job := .minimal "3".toList 1 1000 3

def setup : PoolContext × Event := (pool first, .frame ⟨0, false, .setup_connection ⟨0, 2, 2, 0⟩⟩)

def opening (job : Job) : PoolContext × Event :=
  (pool job, .frame ⟨0, false, .open_extended_mining_channel
    ⟨7, "miner".toList, some 0, .filled 0xff⟩ 0⟩)

/-- A whole `publish_job` call: the lookup, the plans, one commit for each channel, the return. -/
def publishing (job : Job) (channels : Nat) : List (PoolContext × Event) :=
  (pool job, .publish_job job.job_id false) :: replicate (channels + 2) (pool job, .resume 0)

def submitting (job : Job) (channel_id : Nat) (job_id : UInt32) : List (PoolContext × Event) :=
  [(pool job, .frame ⟨0, true, .submit_shares_extended ⟨channel_id, 0, job_id, 0, 1000, 0x20000000⟩
    (replicate 6 0)⟩), (pool job, .finish_share)]

def before : List (PoolContext × Event) := [setup, opening first]

/-- Two more channels are opened, each on a newer job of the same parent and each after a
share has been accepted. -/
def after : List (PoolContext × Event) :=
  submitting first 1 1 ++ publishing second 1 ++ [opening second] ++ submitting second 2 3 ++
    publishing third 2 ++ [opening third] ++ submitting third 1 1

def key : ShareKey := ⟨1, 1, 0, 1000, 0x20000000, replicate 6 0⟩

end ForgottenShare

open ForgottenShare in
/-- One share is accepted twice while its job stays listed: each of two later opens rotates
the history of the whole session. -/
theorem opens_forget_listed_share :
    (Server.reached {} [0, 0, 0, 1] (before ++ after)).remembered.length < kMaxSeenShares ∧
      (Server.reached {} [0, 0, 0, 1] before).share = none ∧
      Throughout (Server.step {}) (KeyListed key) (Server.reached {} [0, 0, 0, 1] before) after ∧
      (Server.reached {} [0, 0, 0, 1] before).accepted.count key = 0 ∧
      (Server.reached {} [0, 0, 0, 1] (before ++ after)).accepted.count key = 2 := by
  decide +kernel

open ForgottenShare in
/-- Repeated before the second open, the share is accepted once. -/
theorem accepted_once_while_listed_repeated :
    (Server.reached {} [0, 0, 0, 1] (before ++ (submitting first 1 1 ++ [opening second] ++
      submitting second 1 1))).accepted.count key ≤
    (Server.reached {} [0, 0, 0, 1] before).accepted.count key + 1 :=
  accepted_once_while_listed (by decide +kernel) (by decide +kernel) (by decide +kernel) (by decide +kernel)

end erikslund.sv2
