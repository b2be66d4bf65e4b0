import Mathlib.Data.List.Chain
import SoloPool.Pool.Delivery

namespace erikslund

open util bitcoin stratum Transition List

/-- A job published and on its way, with the flag it is sent with. -/
def Broadcast.flying : Broadcast → Option (Job × Bool)
  | .published job clean | .delivering job clean _ => some (job, clean)
  | .publishing _ _ _ | .done _ => none

/-- The call is yet to hand its job to `client`, one of `clients` at the time of the snapshot. -/
def Broadcast.Reaches (clients : List ClientRef) (client : ClientRef) : Broadcast → Prop
  | .published _ _ => client ∈ clients
  | .delivering _ _ recipients => client ∈ recipients
  | .publishing _ _ _ | .done _ => False

/-- The job that `build_and_broadcast` is about to publish with `clean` false. -/
def WorkThread.refreshing : WorkThread → Option Job
  | .broadcasting _ _ (.publishing job false _) => some job
  | _ => none

/-- The empty job that is not yet with every SV1 client. -/
def ZmqThread.owing : ZmqThread → Option Job
  | .broadcasting _ (.published job _) => some job
  | .broadcasting _ (.delivering job _ recipients) =>
    if recipients.any (fun client => ¬ client.publish_asynchronously) then some job else none
  | _ => none

def Pool.Event.is_work : Pool.Event → Bool
  | .work => true
  | _ => false

theorem Broadcast.job_of_flying {broadcast : Broadcast} {job : Job} {clean : Bool}
    (h : broadcast.flying = some (job, clean)) : broadcast.job = some job := by
  cases broadcast <;> simp_all [flying, Broadcast.job]

theorem Broadcast.Reaches.mono {broadcast : Broadcast} {clients clients' : List ClientRef} {client : ClientRef}
    (hsub : client ∈ clients' → client ∈ clients) (h : broadcast.Reaches clients' client) :
    broadcast.Reaches clients client := by
  cases broadcast with
  | published => exact hsub h
  | _ => exact h

theorem ZmqThread.owing_of_owes {zmq : ZmqThread} {broadcast : Broadcast} (hzmq : zmq.broadcast = some broadcast)
    {index : Nat} {job : Job} (h : broadcast.Owes (.sv1 index) job) : zmq.owing = some job := by
  cases zmq with
  | broadcasting block_hash broadcast' =>
    cases hzmq
    cases broadcast with
    | publishing => exact h.elim
    | published other clean =>
      cases h
      rfl
    | delivering other clean recipients =>
      obtain ⟨rfl, hmem⟩ := h
      have hany : recipients.any (fun client => decide (¬ client.publish_asynchronously)) = true :=
        any_eq_true.mpr ⟨.sv1 index, hmem, rfl⟩
      simp only [owing, hany, if_true]
    | done => exact h.elim
  | _ => cases hzmq

/-- A notify on another parent than the one before it tells the client to drop its work. -/
def Linked (newer older : Notify × Option Bytes) : Prop :=
  newer.1.prevhash ≠ older.1.prevhash → newer.1.clean_jobs = true

/-- A step links its notify to the one before, if a job sent with `clean` false is on the
parent of the job told last. -/
theorem Heard.linked {published : List Job} {ctx : PoolContext} {event : stratum.Event}
    {server server' : stratum.Server}
    (h : Heard published server.announced server.session.last_notified_publication_sequence)
    (hchained : server.announced.IsChain Linked) (htold : Server.Informs ctx event server server')
    (hsame : ∀ job, event = .send_notify job false → server.session.Ready →
      server.session.last_notified_publication_sequence < job.publication_sequence → ∀ older ∈ published,
      older.publication_sequence = server.session.last_notified_publication_sequence →
        older.prevhash_stratum = job.prevhash_stratum)
    (hpositive : ∀ job, event = .send_notify job false → 0 < job.publication_sequence) :
    server'.announced.IsChain Linked := by
  cases htold with
  | quiet hready hsequence hannounced => rwa [hannounced]
  | announced job clean notify script hsource hnotify hsequence hannounced =>
    rw [hannounced]
    generalize hentries : server.announced = entries at h hchained
    generalize hlast : server.session.last_notified_publication_sequence = last at h hsame hsource
    cases h with
    | nil => exact .singleton _
    | cons older clean' notify' script' holder hnotify' hle hrest =>
      refine hchained.cons_cons fun hother => ?_
      change notify.clean_jobs = true
      rw [hnotify.clean_jobs]
      rcases hsource with ⟨hevent, hready, hnew⟩ | ⟨-, hclean⟩
      · cases clean with
        | true => rfl
        | false =>
          have hparent := hsame job hevent hready (by have := hpositive job hevent; omega) older holder rfl
          refine absurd ?_ hother
          change notify.prevhash = notify'.prevhash
          rw [hnotify.prevhash, hnotify'.prevhash, hparent]
      · exact hclean

namespace Pool

variable {setup : Setup} {env : Environment} {pool pool' : Pool}

/-- `job` is on the parent of the job published before it. -/
def Refreshes (pool : Pool) (job : Job) : Prop :=
  ∀ older ∈ pool.published, older.publication_sequence < job.publication_sequence →
    (∀ other ∈ pool.published, other.publication_sequence < job.publication_sequence →
      other.publication_sequence ≤ older.publication_sequence) →
    older.prevhash_stratum = job.prevhash_stratum

/-- A job on its way with `clean` false refreshes the work of every session it reaches. -/
def Refreshed (pool : Pool) (broadcast : Broadcast) : Prop :=
  ∀ job, broadcast.flying = some (job, false) → pool.Refreshes job ∧
    ∀ (index : Nat) (server : stratum.Server), pool.sv1[index]? = some server →
      broadcast.Reaches pool.clients (.sv1 index) → server.session.Ready →
      ∀ older ∈ pool.published, older.publication_sequence < job.publication_sequence →
        older.publication_sequence ≤ server.session.last_notified_publication_sequence

/-- What keeps the notifies of every session linked. -/
structure CleanNotifies (pool : Pool) : Prop where
  linked : ∀ (index : Nat) (server : stratum.Server), pool.sv1[index]? = some server →
    server.announced.IsChain Linked
  empty : ∀ block_hash broadcast job clean, pool.zmq = .broadcasting block_hash broadcast →
    broadcast.flying = some (job, clean) → clean = true
  refreshed : ∀ prevhash version broadcast, pool.work = .broadcasting prevhash version broadcast →
    pool.Refreshed broadcast

/-- Where `build_and_broadcast` publishes with `clean` false, it replaces a job on the same
parent, which the ZMQ thread has handed to all its SV1 clients. -/
def RefreshesParent (pool : Pool) (action : Environment × Event) : Prop :=
  action.2.is_work = true → ∀ job ∈ pool.work.refreshing, pool.cache.outcome job false = .Published →
    ∀ current ∈ pool.cache.current_job,
      current.prevhash_stratum = job.prevhash_stratum ∧ pool.zmq.owing ≠ some current

instance (pool : Pool) (action : Environment × Event) : Decidable (RefreshesParent pool action) :=
  inferInstanceAs (Decidable (_ = true → ∀ job ∈ pool.work.refreshing, pool.cache.outcome job false = .Published →
    ∀ current ∈ pool.cache.current_job,
      current.prevhash_stratum = job.prevhash_stratum ∧ pool.zmq.owing ≠ some current))

theorem init_cleanNotifies (setup : Setup) : (init setup).CleanNotifies :=
  ⟨by simp [init], by simp [init], by simp [init]⟩

variable {broadcast broadcast' : Broadcast}

theorem Refreshed.of_not_flying (h : broadcast.flying = none) : pool.Refreshed broadcast := by
  intro job hjob
  rw [h] at hjob
  cases hjob

theorem Refreshed.same (h : pool.Refreshed broadcast) (hsame : SameDelivery pool pool') :
    pool'.Refreshed broadcast := by
  intro job hjob
  obtain ⟨hparent, hbehind⟩ := h job hjob
  rw [Refreshes, hsame.published, hsame.sv1]
  refine ⟨hparent, fun index server hserver hreaches => hbehind index server hserver ?_⟩
  exact hreaches.mono (hsame.clients index)

theorem Refreshed.step_sv1 (h : pool.Refreshed broadcast) (hlogged : pool.Logged) (index : Nat)
    (event : stratum.Event) : (pool.step_sv1 setup env index event).Refreshed broadcast := by
  intro job hjob
  obtain ⟨hparent, hbehind⟩ := h job hjob
  refine ⟨hparent, fun other server' hserver' hreaches hready older holder hnewer => ?_⟩
  obtain ⟨server, hserver, ⟨-, rfl⟩ | ⟨-, rfl⟩⟩ := step_sv1_at hserver'
  · rcases hlogged.ready_step hready with hbefore | hcaught
    · exact (hbehind other server hserver hreaches hbefore older holder hnewer).trans
        (Server.informs setup.config server (pool.context env) event).sequence_le
    · exact hcaught older holder
  · exact hbehind other server' hserver hreaches hready older holder hnewer

theorem Refreshed.connected (h : pool.Refreshed broadcast) (extranonce1 : Bytes) :
    Refreshed { pool with
      sv1 := pool.sv1 ++ [.init (pool.context env) extranonce1]
      clients := pool.clients ++ [.sv1 pool.sv1.length] } broadcast := by
  intro job hjob
  obtain ⟨hparent, hbehind⟩ := h job hjob
  refine ⟨hparent, fun index server hserver hreaches hready => ?_⟩
  rcases connected_at hserver with ⟨hserver, hold⟩ | rfl
  · refine hbehind index server hserver (hreaches.mono fun hclient => ?_) hready
    simpa [hold] using hclient
  · cases hready.1

/-- A later publication is no work that `broadcast` refreshes. -/
theorem Refreshed.published (h : pool.Refreshed broadcast) (hlogged : pool.Logged) (job : Job)
    (hflying : ∀ other, broadcast.job = some other → other ∈ pool.published)
    (hpublished : pool'.published = pool.cache.stamp job :: pool.published) (hsv1 : pool'.sv1 = pool.sv1)
    (hclients : pool'.clients = pool.clients) : pool'.Refreshed broadcast := by
  intro other hother
  obtain ⟨hparent, hbehind⟩ := h other hother
  have hle := (hlogged.bounds other (hflying other (Broadcast.job_of_flying hother))).2
  have hold {older : Job} (holder : older ∈ pool'.published)
      (hnewer : older.publication_sequence < other.publication_sequence) : older ∈ pool.published := by
    rw [hpublished] at holder
    rcases mem_cons.mp holder with rfl | holder
    · change pool.cache.publish_counter + 1 < other.publication_sequence at hnewer
      omega
    · exact holder
  refine ⟨fun older holder hnewer hnewest => ?_, ?_⟩
  · refine hparent older (hold holder hnewer) hnewer fun mid hmid => hnewest mid ?_
    rw [hpublished]
    exact mem_cons_of_mem _ hmid
  · rw [hsv1, hclients]
    exact fun index server hserver hreaches hready older holder hnewer =>
      hbehind index server hserver hreaches hready older (hold holder hnewer) hnewer

theorem mem_clients_of_mem_recipients {clients : List ClientRef} {broadcast_cursor : Nat} {client : ClientRef}
    (h : client ∈ recipients clients broadcast_cursor) : client ∈ clients := by
  rcases mem_append.mp h with h | h
  · exact mem_rotate.mp (mem_of_mem_filter h)
  · exact mem_rotate.mp (mem_of_mem_filter h)

/-- Work published with `clean` false refreshes that of every ready client. -/
theorem Delivered.refreshed (hdelivered : pool.Delivered pool.flights) (hlogged : pool.Logged) {prevhash : Text}
    {version : UInt32} {job : Job} {clean required : Bool}
    (hwork : pool.work = .broadcasting prevhash version (.publishing job clean required))
    (hguard : clean = false → ∀ current, pool.cache.current_job = some current →
      current.prevhash_stratum = job.prevhash_stratum ∧ pool.zmq.owing ≠ some current)
    (hpublished : pool'.published = pool.cache.stamp job :: pool.published) (hsv1 : pool'.sv1 = pool.sv1)
    (hclients : pool'.clients = pool.clients) : pool'.Refreshed (.published (pool.cache.stamp job) clean) := by
  rintro _ ⟨⟩
  have hnew : (pool.cache.stamp job).publication_sequence = pool.cache.publish_counter + 1 := rfl
  have hold {older : Job} (holder : older ∈ pool'.published)
      (hnewer : older.publication_sequence < (pool.cache.stamp job).publication_sequence) :
      older ∈ pool.published := by
    rw [hpublished] at holder
    rcases mem_cons.mp holder with rfl | holder
    · omega
    · exact holder
  have hcurrent {older : Job} (holder : older ∈ pool.published) :
      ∃ current, pool.cache.current_job = some current := by
    rw [hlogged.current]
    cases hjobs : pool.published with
    | nil =>
      rw [hjobs] at holder
      cases holder
    | cons current jobs => exact ⟨current, rfl⟩
  refine ⟨fun older holder hnewer hnewest => ?_, fun index server hserver hreaches hready older holder hnewer => ?_⟩
  · -- The job published last is the one replaced.
    have holder := hold holder hnewer
    obtain ⟨current, hcurrent⟩ := hcurrent holder
    have hmem := hlogged.current_mem hcurrent
    have hle := hlogged.le_current holder hcurrent
    have hcounter := hlogged.newest current hcurrent
    have hge := hnewest current (by rw [hpublished]; exact mem_cons_of_mem _ hmem) (by omega)
    obtain rfl := hlogged.eq_of_sequence holder hmem (le_antisymm hle hge)
    exact (hguard rfl older hcurrent).1
  · have holder := hold holder hnewer
    obtain ⟨current, hcurrent⟩ := hcurrent holder
    have hclient : .sv1 index ∈ pool.clients := hclients ▸ hreaches
    refine (hlogged.le_current holder hcurrent).trans ?_
    rcases hdelivered.owed index server (hsv1 ▸ hserver) hclient hready current (hlogged.current_mem hcurrent) with
      hle | ⟨broadcast, hflight, howes⟩
    · exact hle
    · -- Only the ZMQ thread could owe it, which the guard excludes.
      refine absurd ?_ (hguard rfl current hcurrent).2
      rcases mem_append.mp hflight with hflight | hflight
      · rw [hwork] at hflight
        obtain rfl : broadcast = .publishing job false required := by
          simpa [WorkThread.broadcast] using hflight
        exact howes.elim
      · exact ZmqThread.owing_of_owes (by simpa using hflight) howes

/-- Sessions stay linked by a step of one of them that tells of no job, or of one that is
clean or refreshes its work. -/
theorem CleanNotifies.linked_step (h : pool.CleanNotifies) {flights : List Broadcast}
    (hdelivered : pool.Delivered flights) {index : Nat} {event : stratum.Event}
    (hsent : ∀ job, event = .send_notify job false → 0 < job.publication_sequence ∧ pool.Refreshes job ∧
      ∀ server, pool.sv1[index]? = some server → server.session.Ready → ∀ older ∈ pool.published,
        older.publication_sequence < job.publication_sequence →
          older.publication_sequence ≤ server.session.last_notified_publication_sequence)
    (other : Nat) (server' : stratum.Server)
    (hserver' : (pool.step_sv1 setup env index event).sv1[other]? = some server') :
    server'.announced.IsChain Linked := by
  obtain ⟨server, hserver, ⟨rfl, rfl⟩ | ⟨-, rfl⟩⟩ := step_sv1_at hserver'
  · have hheard := hdelivered.heard other server hserver
    have htold := Server.informs setup.config server (pool.context env) event
    refine hheard.linked (h.linked other server hserver) htold ?_ fun job hevent => (hsent job hevent).1
    intro job hevent hready hnew older holder hlast
    obtain ⟨-, hparent, hbehind⟩ := hsent job hevent
    refine hparent older holder (hlast ▸ hnew) fun mid hmid hnewer => ?_
    rw [hlast]
    exact hbehind server hserver hready mid hmid hnewer
  · exact h.linked other server' hserver

/-- A step that leaves the sessions alone and puts no job on its way. -/
theorem CleanNotifies.same (h : pool.CleanNotifies) (hsame : SameDelivery pool pool')
    (hwork : ∀ prevhash version broadcast, pool'.work = .broadcasting prevhash version broadcast →
      broadcast.flying = none ∨ pool.work = .broadcasting prevhash version broadcast)
    (hzmq : ∀ block_hash broadcast, pool'.zmq = .broadcasting block_hash broadcast →
      broadcast.flying = none ∨ pool.zmq = .broadcasting block_hash broadcast) : pool'.CleanNotifies := by
  refine ⟨?_, ?_, ?_⟩
  · rw [hsame.sv1]
    exact h.linked
  · intro block_hash broadcast job clean hthread hflying
    rcases hzmq block_hash broadcast hthread with hnone | hbefore
    · rw [hnone] at hflying
      cases hflying
    · exact h.empty block_hash broadcast job clean hbefore hflying
  · intro prevhash version broadcast hthread
    rcases hwork prevhash version broadcast hthread with hnone | hbefore
    · exact .of_not_flying hnone
    · exact (h.refreshed prevhash version broadcast hbefore).same hsame

theorem Refreshed.weaken (h : pool.Refreshed broadcast) (hflying : broadcast'.flying = broadcast.flying)
    (hreaches : ∀ index, broadcast'.Reaches pool.clients (.sv1 index) →
      broadcast.Reaches pool.clients (.sv1 index)) : pool.Refreshed broadcast' := by
  intro job hjob
  obtain ⟨hparent, hbehind⟩ := h job (hflying ▸ hjob)
  exact ⟨hparent, fun index server hserver hreach => hbehind index server hserver (hreaches index hreach)⟩

theorem CleanNotifies.work_turn (h : pool.CleanNotifies) (hlogged : pool.Logged) (hprepared : pool.Prepared)
    (hdelivered : pool.Delivered pool.flights) {prevhash : Text} {version : UInt32}
    (hwork : pool.work = .broadcasting prevhash version broadcast)
    (hguard : ∀ job ∈ pool.work.refreshing, pool.cache.outcome job false = .Published →
      ∀ current ∈ pool.cache.current_job,
        current.prevhash_stratum = job.prevhash_stratum ∧ pool.zmq.owing ≠ some current)
    (hturn : BroadcastStep setup env (.build_and_broadcast prevhash) pool broadcast pool' broadcast') :
    { pool' with work := .broadcasting prevhash version broadcast' }.CleanNotifies := by
  have hbefore := h.refreshed prevhash version broadcast hwork
  cases hturn with
  | published job clean required houtcome =>
    obtain ⟨-, rfl⟩ := hprepared.work prevhash version job clean required hwork
    refine ⟨h.linked, h.empty, fun _ _ other hother => ?_⟩
    obtain rfl : .published (pool.cache.stamp job) clean = other := (WorkThread.broadcasting.inj hother).2.2
    refine hdelivered.refreshed hlogged hwork ?_ (by simp [Pool.published, published_jobs]) rfl rfl
    rintro rfl current hcurrent
    exact hguard job (by rw [hwork]; rfl) houtcome current hcurrent
  | refused job clean required hrefused =>
    refine h.same ⟨rfl, by simp [Pool.published, published_jobs, hrefused], rfl, fun _ h => h, le_rfl⟩ ?_
      (fun _ _ hthread => .inr hthread)
    rintro _ _ _ ⟨⟩
    exact .inl rfl
  | alone job clean hclients =>
    refine h.same ⟨rfl, rfl, rfl, fun _ h => h, le_rfl⟩ ?_ (fun _ _ hthread => .inr hthread)
    rintro _ _ _ ⟨⟩
    exact .inl rfl
  | returned job clean =>
    refine h.same ⟨rfl, rfl, rfl, fun _ h => h, le_rfl⟩ ?_ (fun _ _ hthread => .inr hthread)
    rintro _ _ _ ⟨⟩
    exact .inl rfl
  | snapshot job clean =>
    refine ⟨h.linked, h.empty, ?_⟩
    rintro _ _ _ ⟨⟩
    have hsnapshot : pool.Refreshed (.delivering job clean (recipients pool.clients pool.broadcast_cursor)) :=
      hbefore.weaken rfl (fun index => mem_clients_of_mem_recipients)
    exact hsnapshot.same ⟨rfl, rfl, rfl, fun _ h => h, le_rfl⟩
  | delivered job clean recipient rest =>
    have hrest : pool.Refreshed (.delivering job clean rest) :=
      hbefore.weaken rfl (fun index => mem_cons_of_mem recipient)
    cases recipient with
    | sv2 index =>
      obtain ⟨publication_queue, heq⟩ := @deliver_sv2 setup env pool job clean index
      rw [heq]
      refine ⟨h.linked, h.empty, ?_⟩
      rintro _ _ _ ⟨⟩
      exact hrest.same ⟨rfl, rfl, rfl, fun _ h => h, le_rfl⟩
    | sv1 index =>
      refine ⟨h.linked_step hdelivered ?_, h.empty, ?_⟩
      · rintro _ ⟨⟩
        obtain ⟨hparent, hbehind⟩ := hbefore job rfl
        have hflight : .delivering job false (.sv1 index :: rest) ∈ pool.flights := by
          simp [flights, hwork, WorkThread.broadcast]
        have hmem := hdelivered.published _ hflight job rfl
        refine ⟨(hlogged.bounds job hmem).1, hparent, fun server hserver => ?_⟩
        exact hbehind index server hserver mem_cons_self
      · rintro _ _ _ ⟨⟩
        exact (hrest.step_sv1 hlogged index _).same ⟨rfl, rfl, rfl, fun _ h => h, le_rfl⟩

theorem CleanNotifies.zmq_turn (h : pool.CleanNotifies) (hlogged : pool.Logged) (hprepared : pool.Prepared)
    (hdelivered : pool.Delivered pool.flights) {block_hash : Text}
    (hzmq : pool.zmq = .broadcasting block_hash broadcast)
    (hturn : BroadcastStep setup env (.on_zmq_block block_hash) pool broadcast pool' broadcast') :
    { pool' with zmq := .broadcasting block_hash broadcast' }.CleanNotifies := by
  have hclean := h.empty block_hash broadcast
  cases hturn with
  | published job clean required houtcome =>
    obtain ⟨-, rfl, -⟩ := hprepared.zmq block_hash job clean required hzmq
    refine ⟨h.linked, ?_, fun prevhash version other hwork => ?_⟩
    · rintro _ _ _ _ ⟨⟩ ⟨⟩
      rfl
    · have hflight : other ∈ pool.flights := by
        have hbroadcast : pool.work.broadcast = some other := by
          change pool.work = _ at hwork
          rw [hwork]
          rfl
        simp [flights, hbroadcast]
      exact (h.refreshed prevhash version other hwork).published hlogged job (hdelivered.published other hflight)
        (by simp [Pool.published, published_jobs]) rfl rfl
  | refused job clean required hrefused =>
    refine h.same ⟨rfl, by simp [Pool.published, published_jobs, hrefused], rfl, fun _ h => h, le_rfl⟩
      (fun _ _ _ hthread => .inr hthread) ?_
    rintro _ _ ⟨⟩
    exact .inl rfl
  | alone job clean hclients =>
    refine h.same ⟨rfl, rfl, rfl, fun _ h => h, le_rfl⟩ (fun _ _ _ hthread => .inr hthread) ?_
    rintro _ _ ⟨⟩
    exact .inl rfl
  | returned job clean =>
    refine h.same ⟨rfl, rfl, rfl, fun _ h => h, le_rfl⟩ (fun _ _ _ hthread => .inr hthread) ?_
    rintro _ _ ⟨⟩
    exact .inl rfl
  | snapshot job clean =>
    refine ⟨h.linked, ?_, fun prevhash version other hwork => ?_⟩
    · rintro _ _ _ _ ⟨⟩ ⟨⟩
      exact hclean job clean hzmq rfl
    · exact (h.refreshed prevhash version other hwork).same ⟨rfl, rfl, rfl, fun _ h => h, le_rfl⟩
  | delivered job clean recipient rest =>
    obtain rfl := hclean job clean hzmq rfl
    cases recipient with
    | sv2 index =>
      obtain ⟨publication_queue, heq⟩ := @deliver_sv2 setup env pool job true index
      rw [heq]
      refine ⟨h.linked, ?_, fun prevhash version other hwork => ?_⟩
      · rintro _ _ _ _ ⟨⟩ ⟨⟩
        rfl
      · exact (h.refreshed prevhash version other hwork).same ⟨rfl, rfl, rfl, fun _ h => h, le_rfl⟩
    | sv1 index =>
      refine ⟨h.linked_step hdelivered (fun _ hevent => by cases hevent), ?_, fun prevhash version other hwork => ?_⟩
      · rintro _ _ _ _ ⟨⟩ ⟨⟩
        rfl
      · exact ((h.refreshed prevhash version other hwork).step_sv1 hlogged index _).same
          ⟨rfl, rfl, rfl, fun _ h => h, le_rfl⟩

theorem CleanNotifies.work (h : pool.CleanNotifies) (hlogged : pool.Logged) (hprepared : pool.Prepared)
    (hdelivered : pool.Delivered pool.flights)
    (hguard : pool.work.broadcast ≠ none → ∀ job ∈ pool.work.refreshing,
      pool.cache.outcome job false = .Published → ∀ current ∈ pool.cache.current_job,
        current.prevhash_stratum = job.prevhash_stratum ∧ pool.zmq.owing ≠ some current)
    (hstep : WorkStep setup env pool pool') : pool'.CleanNotifies := by
  cases hstep with
  | idle work refresh_failing hbefore hafter =>
    refine h.same ⟨rfl, rfl, rfl, fun _ h => h, le_rfl⟩ ?_ (fun _ _ hthread => .inr hthread)
    intro prevhash version broadcast hthread
    obtain rfl : work = _ := hthread
    cases hafter
  | made block_template clean job hbefore hjob =>
    refine h.same ⟨rfl, rfl, rfl, fun _ h => h, Nat.le_succ _⟩ ?_ (fun _ _ hthread => .inr hthread)
    rintro _ _ _ ⟨⟩
    exact .inl rfl
  | broadcast prevhash version broadcast broadcast' pool' hbefore hturn =>
    exact h.work_turn hlogged hprepared hdelivered hbefore (hguard (by rw [hbefore]; simp [WorkThread.broadcast])) hturn
  | failed refresh_failing hbefore =>
    exact h.same ⟨rfl, rfl, rfl, fun _ h => h, Nat.le_succ _⟩ (fun _ _ _ hthread => by cases hthread)
      (fun _ _ hthread => .inr hthread)
  | stale prevhash version hbefore =>
    exact h.same ⟨rfl, rfl, rfl, fun _ h => h, le_rfl⟩ (fun _ _ _ hthread => by cases hthread)
      (fun _ _ hthread => .inr hthread)
  | noted prevhash version outcome hbefore hfresh =>
    exact h.same ⟨rfl, rfl, rfl, fun _ h => h, le_rfl⟩ (fun _ _ _ hthread => by cases hthread)
      (fun _ _ hthread => .inr hthread)

theorem CleanNotifies.zmq (h : pool.CleanNotifies) (hlogged : pool.Logged) (hprepared : pool.Prepared)
    (hdelivered : pool.Delivered pool.flights) (hstep : ZmqStep setup env pool pool') :
    pool'.CleanNotifies := by
  have hidle (hsame : SameDelivery pool pool') (hwork : pool'.work = pool.work) (hzmq : ∀ block_hash broadcast,
      pool'.zmq = .broadcasting block_hash broadcast → broadcast.flying = none) : pool'.CleanNotifies :=
    h.same hsame (fun _ _ _ hthread => .inr (hwork ▸ hthread)) (fun _ _ hthread => .inl (hzmq _ _ hthread))
  cases hstep with
  | undecided zmq hbefore hafter =>
    refine hidle ⟨rfl, rfl, rfl, fun _ h => h, le_rfl⟩ rfl fun block_hash broadcast hthread => ?_
    obtain rfl : zmq = _ := hthread
    cases hafter
  | broadcast block_hash broadcast broadcast' pool' hbefore hturn =>
    exact h.zmq_turn hlogged hprepared hdelivered hbefore hturn
  | made block_hash header version halving_interval block_template job hbefore htemplate hjob =>
    refine hidle ⟨rfl, rfl, rfl, fun _ h => h, Nat.le_succ _⟩ rfl ?_
    rintro _ _ ⟨⟩
    rfl
  | failed block_hash header version halving_interval job_counter hbefore hcounter =>
    exact hidle ⟨rfl, rfl, rfl, fun _ h => h, hcounter⟩ rfl (fun _ _ hthread => (nomatch hthread))
  | _ => exact hidle ⟨rfl, rfl, rfl, fun _ h => h, le_rfl⟩ rfl (fun _ _ hthread => (nomatch hthread))

theorem CleanNotifies.stepped {event : Event} (h : pool.CleanNotifies) (hlogged : pool.Logged)
    (hprepared : pool.Prepared) (hdelivered : pool.Delivered pool.flights)
    (hguard : pool.RefreshesParent (env, event)) (hstep : Stepped setup env event pool pool') :
    pool'.CleanNotifies := by
  cases hstep with
  | work hwork hevent =>
    refine h.work hlogged hprepared hdelivered (fun hflying => ?_) hwork
    obtain rfl := hevent.resolve_left hflying
    exact hguard rfl
  | zmq hzmq hevent => exact h.zmq hlogged hprepared hdelivered hzmq
  | add_client extranonce1 =>
    refine ⟨fun index server hserver => ?_, h.empty, fun prevhash version broadcast hwork => ?_⟩
    · rcases connected_at hserver with ⟨hserver, -⟩ | rfl
      · exact h.linked index server hserver
      · exact .nil
    · exact ((h.refreshed prevhash version broadcast hwork).connected extranonce1).same
        ⟨rfl, rfl, rfl, fun _ h => h, le_rfl⟩
  | sv1 index action haction =>
    refine ⟨h.linked_step hdelivered fun job hevent => absurd hevent (haction job false), h.empty, ?_⟩
    exact fun prevhash version broadcast hwork =>
      (h.refreshed prevhash version broadcast hwork).step_sv1 hlogged index action
  | add_sv2_client extranonce1 =>
    refine h.same ⟨rfl, rfl, rfl, fun index hclient => ?_, le_rfl⟩ (fun _ _ _ hthread => .inr hthread)
      (fun _ _ hthread => .inr hthread)
    simpa using hclient
  | remove_client client =>
    exact h.same ⟨rfl, rfl, rfl, fun _ h => mem_of_mem_filter h, le_rfl⟩ (fun _ _ _ hthread => .inr hthread)
      (fun _ _ hthread => .inr hthread)
  | _ =>
    exact h.same ⟨rfl, rfl, rfl, fun _ h => h, le_rfl⟩ (fun _ _ _ hthread => .inr hthread)
      (fun _ _ hthread => .inr hthread)

theorem reached_cleanNotifies (setup : Setup) {actions : List (Environment × Event)}
    (hguard : Guarded (step setup) RefreshesParent (init setup) actions) :
    (reached setup actions).Delivered (reached setup actions).flights ∧ (reached setup actions).CleanNotifies := by
  let inv (pool : Pool) : Prop := pool.Logged ∧ pool.Prepared ∧ pool.Delivered pool.flights ∧ pool.CleanNotifies
  have hinvariant : inv (reached setup actions) := by
    refine run_invariant ?_ ⟨init_logged setup, init_prepared setup, init_delivered setup,
      init_cleanNotifies setup⟩ hguard
    rintro pool ⟨env, event⟩ ⟨hlogged, hprepared, hdelivered, hnotifies⟩ hparent
    have hstep := stepped setup pool env event
    exact ⟨hlogged.stepped hstep, hprepared.stepped hstep, hdelivered.flown hlogged (hstep.flown []),
      hnotifies.stepped hlogged hprepared hdelivered hparent hstep⟩
  exact hinvariant.2.2

/-- Of two consecutive notifies on different parents the later one is clean, in every run in
which work published with `clean` false replaces a job on the same parent that no SV1 client
still waits for. -/
theorem new_parent_is_clean (setup : Setup) {actions : List (Environment × Event)}
    (hguard : Guarded (step setup) RefreshesParent (init setup) actions) {index : Nat} {server : stratum.Server}
    (hserver : (reached setup actions).sv1[index]? = some server) :
    server.notifies.IsChain (fun older newer => older.prevhash ≠ newer.prevhash → newer.clean_jobs = true) := by
  obtain ⟨hdelivered, hnotifies⟩ := reached_cleanNotifies setup hguard
  have hnotified : server.notifies = (server.announced.map Prod.fst).reverse := by
    rw [(hdelivered.sound index server hserver).recorded, reverse_reverse]
  rw [hnotified, isChain_reverse, isChain_map]
  exact (hnotifies.linked index server hserver).imp fun newer older hlinked hother => hlinked hother.symm

end Pool

namespace Pool

open Regtest

/-- A block of the same height is announced, and its parent's old work refreshed after it. -/
def reorganized : List (Environment × Event) :=
  actions (miner 0 ++ refresh_work (Job.minimal_template 1 900) 8 ++ zmq_block 2 7 ++
    refresh_work (Job.minimal_template 1 901) 8)

/-- The client is moved back to the first parent without being told to drop its work. -/
theorem new_parent_not_clean :
    ∃ server ∈ (reached setup reorganized).sv1, server.session.subscribed = true ∧
      server.session.authorized = true ∧
      server.notifies.map (fun notify => (notify.prevhash, notify.clean_jobs)) =
        [(parent 1, true), (parent 2, true), (parent 1, false)] := by
  decide

/-- Work on one parent, refreshed, and then a new block. -/
def refreshed_work : List (Environment × Event) :=
  actions (miner 0 ++ refresh_work (Job.minimal_template 1 900) 8 ++ refresh_work (Job.minimal_template 1 901) 8 ++
    zmq_block 2 7)

theorem new_parent_is_clean_refreshed :
    ∃ server, (reached setup refreshed_work).sv1[0]? = some server ∧
      server.notifies.map Notify.clean_jobs = [true, false, true] ∧
      server.notifies.IsChain (fun older newer => older.prevhash ≠ newer.prevhash → newer.clean_jobs = true) := by
  have hserver : ∃ server ∈ (reached setup refreshed_work).sv1[0]?,
      server.notifies.map Notify.clean_jobs = [true, false, true] := by decide
  obtain ⟨server, hserver, hflags⟩ := hserver
  exact ⟨server, hserver, hflags, new_parent_is_clean setup (by decide) hserver⟩

end Pool

end erikslund
