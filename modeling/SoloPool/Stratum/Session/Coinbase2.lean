import SoloPool.Stratum.Session.Steps

namespace erikslund.stratum

open util Transition Session List Option

/-- The one job behind each job id. -/
structure Directory where
  find : Text → Job
  job_id_find : ∀ job_id, (find job_id).job_id = job_id

namespace Directory

/-- The jobs a step is given are the ones their ids name. -/
structure Supplies (directory : Directory) (action : PoolContext × Event) : Prop where
  current : ∀ job ∈ action.1.current_job, job = directory.find job.job_id
  recent : ∀ job_id, ∀ job ∈ action.1.recent_job job_id, job = directory.find job_id
  notify : ∀ job clean, action.2 = .send_notify job clean → job = directory.find job.job_id

end Directory

variable {directory : Directory} {config : Config} {s s' : Session}

/-- The cached coinbase is the one its job has for the payout script of the session. -/
def Session.CacheFaithful (directory : Directory) (s : Session) : Prop :=
  ∀ cache ∈ s.coinbase2_cache, ∃ script, s.payout_script = some script ∧
    cache.coinbase2 = (directory.find cache.job_id).build_coinbase2 script ∧
    cache.coinbase2_hex = to_hex cache.coinbase2

theorem Session.CacheFaithful.readied (h : s.CacheFaithful directory) (hreadied : Readied s s') :
    s'.CacheFaithful directory := by
  intro cache hcache
  rw [mem_def, hreadied.cache] at hcache
  split at hcache
  · rename_i hpayout
    rw [hpayout]
    exact h cache hcache
  · cases hcache

/-- The coinbase `coinbase2_for` returns is the one of the job. -/
theorem Session.CacheFaithful.cached_eq (h : s.CacheFaithful directory) {script : Bytes}
    (hpayout : s.payout_script = some script) {job : Job} (hjob : job = directory.find job.job_id) :
    s.cached job script = ⟨job.job_id, job.build_coinbase2 script, to_hex (job.build_coinbase2 script)⟩ := by
  unfold cached
  cases hfound : s.coinbase2_cache.filter (fun cache => cache.job_id = job.job_id) with
  | none => rfl
  | some cache =>
    obtain ⟨hcache, hid⟩ := filter_eq_some_iff.mp hfound
    obtain ⟨script', hpayout', hcoinbase2, hhex⟩ := h cache hcache
    obtain rfl : script' = script := Option.some.inj (hpayout'.symm.trans hpayout)
    have hid : cache.job_id = job.job_id := of_decide_eq_true hid
    rw [hid, ← hjob] at hcoinbase2
    rw [hcoinbase2] at hhex
    obtain ⟨cached_id, cached_coinbase2, cached_hex⟩ := cache
    subst hid hcoinbase2 hhex
    rfl

namespace Server

/-- Every coinbase the server holds or has announced is the one of its job for the payout
script it was made under. -/
structure Faithful (directory : Directory) (server : Server) : Prop where
  cache : server.session.CacheFaithful directory
  announced : ∀ entry ∈ server.announced, ∃ script, entry.2 = some script ∧
    entry.1.coinbase2 = to_hex ((directory.find entry.1.job_id).build_coinbase2 script)
  share : ∀ share ∈ server.share, share.2.job = directory.find share.1.job_id ∧
    ∃ script, server.session.payout_script = some script ∧
      share.2.coinbase2 = share.2.job.build_coinbase2 script
  carried : ∀ share ∈ server.share, share.2.Carries share.1

theorem init_faithful (directory : Directory) (ctx : PoolContext) (extranonce1 : Bytes) :
    (init ctx extranonce1).Faithful directory :=
  ⟨by simp [CacheFaithful, init, Session.new], by simp [init], by simp [init], by simp [init]⟩

theorem Faithful.step {server : Server} (hfaithful : server.Faithful directory) (config : Config)
    {action : PoolContext × Event} (hsupplies : directory.Supplies action) :
    (step config server action).Faithful directory := by
  obtain ⟨ctx, event⟩ := action
  have hannounced := announced_step config server (ctx, event)
  cases stepped config server ctx event with
  | moved hmoved hbusy hshare _ _ =>
    have hshares : ∀ share ∈ (Server.step config server (ctx, event)).share,
        share.2.job = directory.find share.1.job_id ∧
        ∃ script, (Server.step config server (ctx, event)).session.payout_script = some script ∧
          share.2.coinbase2 = share.2.job.build_coinbase2 script := by
      intro share hflight
      rw [hshare] at hflight
      rw [hbusy (ne_none_iff_exists'.mpr ⟨share, hflight⟩)]
      exact hfaithful.share share hflight
    cases hmoved with
    | quiet hreadied _ =>
      rw [new_notifies_of_readied hreadied, nil_append] at hannounced
      exact ⟨hfaithful.cache.readied hreadied, hannounced ▸ hfaithful.announced, hshares,
        hshare ▸ hfaithful.carried⟩
    | announced mid job clean script hreadied hsource hnotified =>
      have hjob : job = directory.find job.job_id := by
        rcases hsource with ⟨hevent, -⟩ | ⟨hcurrent, -⟩
        · exact hsupplies.notify job clean hevent
        · exact hsupplies.current job hcurrent
      have hcached := (hfaithful.cache.readied hreadied).cached_eq hnotified.payout hjob
      obtain ⟨notify, hline, hnew⟩ := new_notifies_of_notified hreadied hnotified
      rw [hcached] at hline
      cases hline
      rw [hnew] at hannounced
      refine ⟨fun cache hcache => ?_, ?_, hshares, hshare ▸ hfaithful.carried⟩
      · rw [mem_def, hnotified.cache, hcached] at hcache
        cases hcache
        exact ⟨script, hnotified.payout_script.trans hnotified.payout, by rw [← hjob], rfl⟩
      · rw [hannounced]
        exact forall_mem_cons.mpr ⟨⟨script, rfl, by rw [← hjob]⟩, hfaithful.announced⟩
  | submitted submission job prepared _ hrecent htaken hshare _ _ =>
    have hsent : (Server.step config server (ctx, event)).session.sent = server.session.sent := by
      rw [htaken.frame]
    have hpayout : (Server.step config server (ctx, event)).session.payout_script =
        server.session.payout_script := by
      rw [htaken.frame]
    rw [new_notifies_of_append (hsent.trans (append_nil _).symm)] at hannounced
    have hfound : job = directory.find submission.job_id := hsupplies.recent submission.job_id job hrecent
    rcases htaken.prepared with ⟨-, hnone, hcache⟩ | ⟨script, share, hscript, hcache, hsome, hjob, hcoinbase2⟩
    · refine ⟨fun cache hmem => ?_, hannounced ▸ hfaithful.announced, by simp [hshare, hnone], by simp [hshare, hnone]⟩
      rw [mem_def, hcache] at hmem
      rw [hpayout]
      exact hfaithful.cache cache hmem
    · have hnamed : job = directory.find job.job_id := by rw [hfound, directory.job_id_find]
      rw [hfaithful.cache.cached_eq hscript hnamed] at hcache hcoinbase2
      refine ⟨fun cache hmem => ?_, hannounced ▸ hfaithful.announced, ?_, ?_⟩
      · rw [mem_def, hcache] at hmem
        cases hmem
        exact ⟨script, hpayout.trans hscript, by rw [← hnamed], rfl⟩
      · rw [hshare, hsome]
        simp only [map_some, mem_def, Option.some.injEq, forall_eq']
        exact ⟨hjob.trans hfound, script, hpayout.trans hscript, by rw [hcoinbase2, hjob]⟩
      · rw [hshare, hsome]
        rintro _ ⟨⟩
        exact htaken.carried share hsome
  | finished submission prepared _ hunchanged hshare _ _ =>
    rw [new_notifies_of_readied hunchanged.toReadied, nil_append] at hannounced
    exact ⟨hfaithful.cache.readied hunchanged.toReadied, hannounced ▸ hfaithful.announced, by simp [hshare],
      by simp [hshare]⟩

/-- The last notify sent for a job, with the payout script it was built for. -/
def last_announced (server : Server) (job_id : Text) : Option (Notify × Option Bytes) :=
  server.announced.find? (fun entry => entry.1.job_id = job_id)

/-- The share being validated is checked with the coinbase its job was last announced with. -/
def ValidatesAnnounced (server : Server) : Prop :=
  ∀ share ∈ server.share, ∀ entry ∈ server.last_announced share.1.job_id,
    entry.1.coinbase2 = to_hex share.2.coinbase2

instance (server : Server) : Decidable server.ValidatesAnnounced :=
  inferInstanceAs (Decidable (∀ share ∈ server.share, _))

end Server

/-- A script with its size in front is longer the longer the script. -/
theorem sized_inj {script script' : Bytes} :
    encode_varint script.length ++ script = encode_varint script'.length ++ script' ↔ script = script' := by
  refine ⟨fun h => ?_, by rintro rfl; rfl⟩
  have hlength := congrArg List.length h
  have hsame : script.length = script'.length := by
    simp only [length_append, encode_varint] at hlength
    split_ifs at hlength <;> simp only [length_cons, length_nil, Radix.le_length] at hlength <;> omega
  rw [hsame] at h
  exact append_cancel_left h

/-- The second half of a coinbase names the script that it pays. -/
theorem Job.build_coinbase2_injective (job : Job) : Function.Injective job.build_coinbase2 := by
  intro script script' h
  unfold Job.build_coinbase2 at h
  split at h <;>
    simp only [bitcoin.build_coinbase2, bitcoin.append_output, flatMap_cons, flatMap_nil, append_nil,
      ← append_assoc, append_cancel_right_eq] at h <;>
    simp only [append_assoc, append_cancel_left_eq, length_cons] at h <;>
    exact sized_inj.mp h

/-- A share is validated on the fields of its submission and the coinbase its job has for the
payout script of the session. The last notify for the job carried that coinbase exactly if it
was built for this script. -/
theorem submit_validates_announced_coinbase2 {directory : Directory} {config : Config} {ctx : PoolContext}
    {extranonce1 : Bytes} {actions : List (PoolContext × Event)} {share : Submission × PreparedSubmit}
    (hsupplies : ∀ action ∈ actions, directory.Supplies action)
    (hflight : (Server.reached config ctx extranonce1 actions).share = some share) :
    ∃ script, (Server.reached config ctx extranonce1 actions).session.payout_script = some script ∧
      share.2.job = directory.find share.1.job_id ∧
      (∀ session_extranonce1 now_unix, share.2.input session_extranonce1 now_unix =
        share.1.input (share.2.job.build_coinbase2 script) session_extranonce1
          (target_from_difficulty share.2.accept_difficulty) now_unix) ∧
      ∀ notify announced, (Server.reached config ctx extranonce1 actions).last_announced share.1.job_id =
          some (notify, announced) →
        ((∀ session_extranonce1 now_unix,
            notify.coinbase2 = to_hex (share.2.input session_extranonce1 now_unix).coinbase2) ↔
          announced = some script) := by
  have hfaithful : (Server.reached config ctx extranonce1 actions).Faithful directory :=
    run_invariant (fun _ _ h hsupplies => h.step config hsupplies) (Server.init_faithful directory ctx extranonce1)
      (guarded_of_forall hsupplies _)
  obtain ⟨hjob, script, hpayout, hcoinbase2⟩ := hfaithful.share share hflight
  refine ⟨script, hpayout, hjob, ?_, fun notify announced hlast => ?_⟩
  · rw [← hcoinbase2]
    exact hfaithful.carried share hflight
  · have hid : notify.job_id = share.1.job_id := by simpa using find?_some hlast
    obtain ⟨script', hscript, hnotify⟩ := hfaithful.announced _ (mem_of_find?_eq_some hlast)
    dsimp only at hscript hnotify
    rw [hnotify, hscript, hid, ← hjob]
    simp only [PreparedSubmit.input, hcoinbase2, forall_const, to_hex_injective.eq_iff,
      (Job.build_coinbase2_injective _).eq_iff, Option.some.injEq]

namespace ChangedPayout

def jobs : Directory where
  find := fun job_id => .minimal job_id 1 1000 (if job_id = "1".toList then 1 else 2)
  job_id_find := fun _ => rfl

def first : Job := jobs.find "1".toList

def second : Job := jobs.find "2".toList

/-- A pool that accepts both jobs, each address being its own payout script. -/
def pool (job : Job) : PoolContext where
  current_job := some job
  recent_job := fun job_id =>
    if job_id = "1".toList then some first else if job_id = "2".toList then some second else none
  runtime_config := {}
  validate_address := fun address => some (address.map (fun c => UInt8.ofNat c.toNat))
  steady_seconds := 0
  time := 1000

def request (job : Job) (method : Method) (params : List String) : PoolContext × Event :=
  (pool job, .line { method, params := params.map String.toList })

def announcing : List (PoolContext × Event) :=
  [request first .subscribe [], request first .authorize ["a"], (pool second, .send_notify second false)]

def submitting : PoolContext × Event :=
  request second .submit ["a", "1", "0000000000000000", "000003e8", "00000001"]

theorem supplies (job_id : Text) (event : Event) (hevent : ∀ job clean, event = .send_notify job clean →
    job = jobs.find job.job_id) : jobs.Supplies (pool (jobs.find job_id), event) := by
  refine ⟨by simp [pool, jobs.job_id_find], fun job_id job hjob => ?_, hevent⟩
  simp only [pool, mem_def] at hjob
  split at hjob
  · cases hjob
    simp_all [first]
  · split at hjob
    · cases hjob
      simp_all [second]
    · cases hjob

theorem run_supplies :
    ∀ action ∈ announcing ++ [request second .authorize ["b"], submitting], jobs.Supplies action := by
  simp only [announcing, submitting, request, cons_append, nil_append, forall_mem_cons]
  refine ⟨supplies _ _ (by simp), supplies _ _ (by simp), supplies _ _ ?_, supplies _ _ (by simp),
    supplies _ _ (by simp), by simp⟩
  rintro job clean ⟨⟩
  rfl

theorem unchanged_supplies : ∀ action ∈ announcing ++ [submitting], jobs.Supplies action := by
  refine forall_mem_append.mpr ⟨fun action h => ?_, forall_mem_singleton.mpr ?_⟩
  · exact run_supplies action (mem_append_left _ h)
  · exact run_supplies submitting (by simp)

end ChangedPayout

open ChangedPayout in
/-- After a re-authorization with another address, a share on an older job is checked with a
coinbase the client has never been sent. -/
theorem reauthorized_submit_unannounced_coinbase2 :
    (∀ action ∈ announcing ++ [request second .authorize ["b"], submitting], jobs.Supplies action) ∧
      (Server.reached {} (pool first) [0, 0, 0, 1]
        (announcing ++ [request second .authorize ["b"], submitting])).share.isSome ∧
      ¬ (Server.reached {} (pool first) [0, 0, 0, 1]
        (announcing ++ [request second .authorize ["b"], submitting])).ValidatesAnnounced :=
  ⟨run_supplies, by decide, by decide⟩

open ChangedPayout in
/-- Without it, the share is checked with the announced one. -/
theorem submit_validates_announced_coinbase2_unchanged :
    ∃ share notify script, (Server.reached {} (pool first) [0, 0, 0, 1] (announcing ++ [submitting])).share = some share ∧
      (Server.reached {} (pool first) [0, 0, 0, 1] (announcing ++ [submitting])).last_announced share.1.job_id =
        some (notify, some script) ∧
      ∀ extranonce1 now_unix, notify.coinbase2 = to_hex (share.2.input extranonce1 now_unix).coinbase2 := by
  have hsome : (Server.reached {} (pool first) [0, 0, 0, 1] (announcing ++ [submitting])).share.isSome := by
    decide
  obtain ⟨share, hshare⟩ := isSome_iff_exists.mp hsome
  obtain ⟨script, hpayout, -, -, hiff⟩ := submit_validates_announced_coinbase2 unchanged_supplies hshare
  have hlast : ∀ share ∈ (Server.reached {} (pool first) [0, 0, 0, 1] (announcing ++ [submitting])).share,
      ((Server.reached {} (pool first) [0, 0, 0, 1] (announcing ++ [submitting])).last_announced
        share.1.job_id).map Prod.snd =
      some (Server.reached {} (pool first) [0, 0, 0, 1] (announcing ++ [submitting])).session.payout_script := by
    decide
  have hentry := hlast share hshare
  rw [hpayout] at hentry
  obtain ⟨⟨notify, _⟩, hfound, rfl⟩ := map_eq_some_iff.mp hentry
  exact ⟨share, notify, script, hshare, hfound, (hiff notify _ hfound).mpr rfl⟩

end erikslund.stratum
