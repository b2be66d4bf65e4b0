import Mathlib.Data.List.Rotate
import SoloPool.Pool.Flights
import SoloPool.Stratum.Session.Announced

namespace erikslund

open util bitcoin stratum List Option

namespace Pool

variable {setup : Setup} {env : Environment} {pool pool' : Pool} {flights flights' : List Broadcast}

/-- A step publishes the job of one call, or none. -/
theorem Flown.published_eq (h : Flown setup env pool flights pool' flights') :
    (pool'.cache = pool.cache ∧ pool'.published = pool.published) ∨
      ∃ job clean required rest,
        flights.Perm (.publishing job clean required :: rest) ∧
        flights'.Perm (.published (pool.cache.stamp job) clean :: rest) ∧
        pool.cache.outcome job required = .Published ∧
        pool'.cache = pool.cache.store job ∧ pool'.published = pool.cache.stamp job :: pool.published := by
  cases h with
  | turn publisher broadcast broadcast' mid rest hturn hsame hbefore hafter =>
    rw [hsame.cache, hsame.published]
    cases hturn with
    | published job clean required houtcome =>
      exact .inr ⟨job, clean, required, rest, hbefore, hafter, houtcome, rfl,
        by simp [Pool.published, published_jobs]⟩
    | refused job clean required hrefused =>
      exact .inl ⟨rfl, by simp [Pool.published, published_jobs, hrefused]⟩
    | delivered job clean recipient rest =>
      have hcore := @SameCore.deliver setup env pool job clean recipient
      exact .inl ⟨hcore.cache, by rw [Pool.published, hcore.history, Pool.published]⟩
    | _ => exact .inl ⟨rfl, rfl⟩
  | kept hsame => exact .inl ⟨hsame.cache, hsame.published⟩
  | began _ _ _ hsame => exact .inl ⟨hsame.cache, hsame.published⟩
  | ended _ hsame => exact .inl ⟨hsame.cache, hsame.published⟩
  | connected _ hsame => exact .inl ⟨hsame.cache, hsame.published⟩
  | session _ _ _ hsame => exact .inl ⟨hsame.cache, hsame.published⟩

theorem Logged.flown (h : pool.Logged) (hstep : Flown setup env pool flights pool' flights') :
    pool'.Logged := by
  unfold Logged at h ⊢
  rcases hstep.published_eq with ⟨hcache, hpublished⟩ | ⟨job, _, _, _, _, _, _, hcache, hpublished⟩
  · rwa [hcache, hpublished]
  · rw [hcache, hpublished]
    exact h.store job

/-! ## Job ids -/

theorem next_job_id_injective (setup : Setup) : Function.Injective (next_job_id setup) := by
  intro a b h
  exact format_08x_injective (append_cancel_left h)

/-- The ids given out: to the jobs about to be published and to those published. -/
def job_ids (pool : Pool) (flights : List Broadcast) : List Text :=
  (flights.filterMap Broadcast.unpublished).map Job.job_id ++ pool.published.map Job.job_id

/-- The ids come from the counter, each once. -/
structure Identified (setup : Setup) (pool : Pool) (flights : List Broadcast) : Prop where
  counted : ∀ job_id ∈ pool.job_ids flights, ∃ n ≤ pool.job_counter, job_id = next_job_id setup n
  distinct : (pool.job_ids flights).Nodup

theorem job_ids_perm (h : flights.Perm flights') (pool : Pool) :
    (pool.job_ids flights).Perm (pool.job_ids flights') :=
  ((h.filterMap _).map _).append_right _

theorem Identified.of_subperm (h : Identified setup pool flights) (hids : (pool'.job_ids flights').Subperm
    (pool.job_ids flights)) (hcounter : pool.job_counter ≤ pool'.job_counter) : Identified setup pool' flights' := by
  refine ⟨fun job_id hmem => ?_, ?_⟩
  · obtain ⟨n, hn, hid⟩ := h.counted job_id (hids.subset hmem)
    exact ⟨n, hn.trans hcounter, hid⟩
  · obtain ⟨ids, hperm, hsublist⟩ := hids
    exact hperm.nodup_iff.mp (h.distinct.sublist hsublist)

theorem BroadcastStep.job_ids {publisher : Publisher} {broadcast broadcast' : Broadcast}
    (h : BroadcastStep setup env publisher pool broadcast pool' broadcast') (rest : List Broadcast) :
    (pool'.job_ids (broadcast' :: rest)).Subperm (pool.job_ids (broadcast :: rest)) := by
  have hsame (hpublished : pool'.published = pool.published) (hdone : broadcast'.unpublished = none) :
      (pool'.job_ids (broadcast' :: rest)).Subperm (pool.job_ids (broadcast :: rest)) := by
    refine Sublist.subperm ?_
    rw [Pool.job_ids, Pool.job_ids, hpublished, filterMap_cons_none hdone]
    refine Sublist.append_right (Sublist.map _ ?_) _
    exact Sublist.filterMap _ (sublist_cons_self _ _)
  cases h with
  | published job clean required houtcome =>
    refine Perm.subperm ?_
    simp only [Pool.job_ids, Broadcast.unpublished, filterMap_cons, Pool.published, published_jobs, if_true,
      map_cons]
    exact perm_middle
  | refused job clean required hrefused =>
    exact hsame (by simp [Pool.published, published_jobs, hrefused]) rfl
  | delivered job clean recipient rest =>
    have hcore := @SameCore.deliver setup env pool job clean recipient
    exact hsame (by rw [Pool.published, hcore.history, Pool.published]) rfl
  | _ => exact hsame rfl rfl

theorem Identified.flown (h : Identified setup pool flights)
    (hstep : Flown setup env pool flights pool' flights') : Identified setup pool' flights' := by
  have hkept {mid : Pool} (hsame : SameDelivery mid pool') :
      (pool'.job_ids flights').Perm (mid.job_ids flights') := by
    rw [Pool.job_ids, Pool.job_ids, hsame.published]
  cases hstep with
  | kept hsame hflights =>
    subst hflights
    exact h.of_subperm (hkept hsame).subperm hsame.job_counter
  | began job clean required hsame hid hcounter hflights =>
    have hids : (pool'.job_ids flights').Perm (job.job_id :: pool.job_ids flights) :=
      (hkept hsame).trans (job_ids_perm hflights pool)
    refine ⟨fun job_id hmem => ?_, hids.nodup_iff.mpr (nodup_cons.mpr ⟨fun hmem => ?_, h.distinct⟩)⟩
    · rcases mem_cons.mp (hids.subset hmem) with rfl | hmem
      · exact ⟨pool.job_counter + 1, hcounter.ge, hid⟩
      · obtain ⟨n, hn, hsource⟩ := h.counted job_id hmem
        exact ⟨n, hn.trans hsame.job_counter, hsource⟩
    · -- The counter has just moved past every id given out.
      obtain ⟨n, hn, hsource⟩ := h.counted _ hmem
      have heq := next_job_id_injective setup (hid.symm.trans hsource)
      omega
  | ended outcome hsame hflights =>
    exact h.of_subperm ((hkept hsame).trans (job_ids_perm hflights pool).symm).subperm hsame.job_counter
  | turn publisher broadcast broadcast' mid rest hturn hsame hbefore hafter =>
    have hcounter : mid.job_counter = pool.job_counter := by
      cases hturn with
      | delivered job clean recipient rest =>
        obtain ⟨sv1, publication_queue, heq⟩ := @deliver_eq setup env pool job clean recipient
        rw [heq]
      | _ => rfl
    refine h.of_subperm ?_ (hcounter ▸ hsame.job_counter)
    have hids := ((hkept hsame).trans (job_ids_perm hafter mid)).subperm
    exact (hids.trans (hturn.job_ids rest)).trans (job_ids_perm hbefore pool).symm.subperm
  | connected extranonce1 hsame hflights =>
    subst hflights
    exact h.of_subperm (hkept hsame).subperm hsame.job_counter
  | session index action haction hsame hflights =>
    subst hflights
    exact h.of_subperm (hkept hsame).subperm hsame.job_counter

end Pool

/-! ## What sessions have been told -/

/-- The notifies of a session, newest first, announce published jobs in the order of their
publication, the newest under the sequence number `last`. -/
inductive Heard (published : List Job) : List (Notify × Option Bytes) → Nat → Prop where
  | nil : Heard published [] 0
  | cons {entries : List (Notify × Option Bytes)} {last : Nat} (job : Job) (clean : Bool) (notify : Notify)
      (script : Option Bytes) (hjob : job ∈ published) (hnotify : notify.Announces job clean)
      (hlast : last ≤ job.publication_sequence) (hentries : Heard published entries last) :
      Heard published ((notify, script) :: entries) job.publication_sequence

variable {published : List Job} {entries : List (Notify × Option Bytes)} {last : Nat}

theorem Heard.mono {published' : List Job} (hsub : ∀ job ∈ published, job ∈ published')
    (h : Heard published entries last) :
    Heard published' entries last := by
  induction h with
  | nil => exact .nil
  | cons job clean notify script hjob hnotify hlast _ ih =>
    exact .cons job clean notify script (hsub job hjob) hnotify hlast ih

theorem Heard.last_le {bound : Nat}
    (h : Heard published entries last) (hbound : ∀ job ∈ published, job.publication_sequence ≤ bound) :
    last ≤ bound := by
  cases h with
  | nil => exact Nat.zero_le bound
  | cons job _ _ _ hjob => exact hbound job hjob

/-- A step keeps the order if what it announces is published and no older than `last`. -/
theorem Heard.told {ctx : PoolContext} {event : stratum.Event}
    {server server' : stratum.Server}
    (h : Heard published server.announced server.session.last_notified_publication_sequence)
    (htold : Server.Informs ctx event server server')
    (hcurrent : ∀ job, ctx.current_job = some job → job ∈ published ∧
      server.session.last_notified_publication_sequence ≤ job.publication_sequence)
    (hsent : ∀ job clean, event = .send_notify job clean → job ∈ published ∧ 0 < job.publication_sequence) :
    Heard published server'.announced server'.session.last_notified_publication_sequence := by
  cases htold with
  | quiet hready hsequence hannounced => rwa [hsequence, hannounced]
  | announced job clean notify script hsource hnotify hsequence hannounced =>
    have hjob : job ∈ published ∧
        server.session.last_notified_publication_sequence ≤ job.publication_sequence := by
      rcases hsource with ⟨hevent, -, hnew⟩ | ⟨hjob, -⟩
      · have hpositive := hsent job clean hevent
        exact ⟨hpositive.1, by omega⟩
      · exact hcurrent job hjob
    rw [hsequence, hannounced, max_eq_right hjob.2]
    exact .cons job clean notify script hjob.1 hnotify hjob.2 h

namespace Pool

variable {setup : Setup} {env : Environment} {pool pool' : Pool} {flights flights' : List Broadcast}

/-- The sessions have been told of published work in order, and a connected session that is
ready for work has been told of every job since, or is owed it by a call in flight. -/
structure Delivered (pool : Pool) (flights : List Broadcast) : Prop where
  published : ∀ broadcast ∈ flights, ∀ job, broadcast.job = some job → job ∈ pool.published
  heard : ∀ (index : Nat) (server : stratum.Server), pool.sv1[index]? = some server →
    Heard pool.published server.announced server.session.last_notified_publication_sequence
  sound : ∀ (index : Nat) (server : stratum.Server), pool.sv1[index]? = some server → server.Sound
  owed : ∀ (index : Nat) (server : stratum.Server), pool.sv1[index]? = some server → .sv1 index ∈ pool.clients → server.session.Ready →
    ∀ job ∈ pool.published, job.publication_sequence ≤ server.session.last_notified_publication_sequence ∨
      ∃ broadcast ∈ flights, broadcast.Owes (.sv1 index) job

theorem Delivered.same (h : pool.Delivered flights) (hsame : SameDelivery pool pool') : pool'.Delivered flights := by
  refine ⟨?_, ?_, ?_, ?_⟩
  · rw [hsame.published]
    exact h.published
  · rw [hsame.published, hsame.sv1]
    exact h.heard
  · rw [hsame.sv1]
    exact h.sound
  · rw [hsame.published, hsame.sv1]
    exact fun index server hserver hclient => h.owed index server hserver (hsame.clients index hclient)

theorem Delivered.perm (h : pool.Delivered flights) (hperm : flights.Perm flights') : pool.Delivered flights' := by
  refine ⟨fun broadcast hmem => h.published broadcast (hperm.symm.subset hmem), h.heard, h.sound, ?_⟩
  intro index server hserver hclient hready job hjob
  rcases h.owed index server hserver hclient hready job hjob with hle | ⟨broadcast, hmem, howes⟩
  · exact .inl hle
  · exact .inr ⟨broadcast, hperm.subset hmem, howes⟩

theorem mem_recipients {client : ClientRef} (clients : List ClientRef) (broadcast_cursor : Nat)
    (h : client ∈ clients) : client ∈ recipients clients broadcast_cursor := by
  cases hkind : client.publish_asynchronously <;> simp [recipients, h, hkind]

variable {rest : List Broadcast} {index : Nat} {event : stratum.Event}

/-- A call that leaves the jobs and sessions alone, and owes no less. -/
theorem Delivered.replace {broadcast broadcast' : Broadcast}
    (h : pool.Delivered (broadcast :: rest))
    (hjob : ∀ job, broadcast'.job = some job → job ∈ pool.published)
    (howes : ∀ index job, .sv1 index ∈ pool.clients → broadcast.Owes (.sv1 index) job →
      broadcast'.Owes (.sv1 index) job) : pool.Delivered (broadcast' :: rest) := by
  refine ⟨?_, h.heard, h.sound, ?_⟩
  · refine forall_mem_cons.mpr ⟨hjob, fun other hmem => h.published other (mem_cons_of_mem _ hmem)⟩
  · intro index server hserver hclient hready job hpublished
    rcases h.owed index server hserver hclient hready job hpublished with hle | ⟨other, hmem, hother⟩
    · exact .inl hle
    · rcases mem_cons.mp hmem with rfl | hmem
      · exact .inr ⟨broadcast', mem_cons_self, howes index job hclient hother⟩
      · exact .inr ⟨other, mem_cons_of_mem _ hmem, hother⟩

/-- The sessions after a step of one of them. -/
theorem step_sv1_at {other : Nat} {server' : stratum.Server}
    (h : (pool.step_sv1 setup env index event).sv1[other]? = some server') :
    ∃ server, pool.sv1[other]? = some server ∧
      (other = index ∧ server' = server.step setup.config (pool.context env, event) ∨
        other ≠ index ∧ server' = server) := by
  simp only [step_sv1, getElem?_modify] at h
  split at h
  · rename_i heq
    obtain ⟨server, hserver, rfl⟩ := map_eq_some_iff.mp h
    exact ⟨server, hserver, .inl ⟨heq.symm, rfl⟩⟩
  · rename_i hne
    obtain ⟨server, hserver, rfl⟩ := map_eq_some_iff.mp h
    exact ⟨server, hserver, .inr ⟨fun heq => hne heq.symm, rfl⟩⟩

theorem Delivered.heard_step (h : pool.Delivered flights) (hlogged : pool.Logged)
    (hsent : ∀ job clean, event = .send_notify job clean → job ∈ pool.published) {other : Nat}
    {server' : stratum.Server} (hserver' : (pool.step_sv1 setup env index event).sv1[other]? = some server') :
    Heard pool.published server'.announced server'.session.last_notified_publication_sequence ∧
      server'.Sound := by
  obtain ⟨server, hserver, ⟨-, rfl⟩ | ⟨-, rfl⟩⟩ := step_sv1_at hserver'
  · have hheard := h.heard other server hserver
    refine ⟨hheard.told (Server.informs setup.config server _ event) ?_ ?_,
      (h.sound other server hserver).step _ event⟩
    · intro job hjob
      refine ⟨hlogged.current_mem hjob, hheard.last_le fun older holder => ?_⟩
      exact hlogged.le_current holder hjob
    · intro job clean hevent
      have hmem := hsent job clean hevent
      exact ⟨hmem, (hlogged.bounds job hmem).1⟩
  · exact ⟨h.heard other server' hserver, h.sound other server' hserver⟩

/-- A session catches up with the job that is handed to it. -/
theorem Delivered.notified {job : Job} {clean : Bool} {recipients : List ClientRef}
    (h : pool.Delivered (.delivering job clean (.sv1 index :: recipients) :: rest))
    (hlogged : pool.Logged) : (pool.step_sv1 setup env index (.send_notify job clean)).Delivered
      (.delivering job clean recipients :: rest) := by
  have hmem := h.published _ mem_cons_self job rfl
  have hsent : ∀ sent clean', stratum.Event.send_notify job clean = .send_notify sent clean' →
      sent ∈ pool.published := by
    rintro _ _ ⟨⟩
    exact hmem
  refine ⟨?_, fun other server' hserver' => (h.heard_step hlogged hsent hserver').1,
    fun other server' hserver' => (h.heard_step hlogged hsent hserver').2, ?_⟩
  · refine forall_mem_cons.mpr ⟨?_, fun other hother => h.published other (mem_cons_of_mem _ hother)⟩
    rintro _ ⟨⟩
    exact hmem
  · intro other server' hserver' hclient hready older holder
    obtain ⟨server, hserver, ⟨rfl, rfl⟩ | ⟨hne, rfl⟩⟩ := step_sv1_at hserver'
    · obtain ⟨hbefore, hcaught⟩ := Server.send_notify_catches_up hready
      have hgrown := (Server.informs setup.config server (pool.context env)
        (.send_notify job clean)).sequence_le
      rcases h.owed other server hserver hclient hbefore older holder with hle | ⟨broadcast, hflight, howes⟩
      · exact .inl (hle.trans hgrown)
      · rcases mem_cons.mp hflight with rfl | hflight
        · obtain ⟨rfl, -⟩ := howes
          exact .inl hcaught
        · exact .inr ⟨broadcast, mem_cons_of_mem _ hflight, howes⟩
    · rcases h.owed other server' hserver hclient hready older holder with hle | ⟨broadcast, hflight, howes⟩
      · exact .inl hle
      · rcases mem_cons.mp hflight with rfl | hflight
        · refine .inr ⟨_, mem_cons_self, howes.1, ?_⟩
          simpa [hne] using howes.2
        · exact .inr ⟨broadcast, mem_cons_of_mem _ hflight, howes⟩

/-- A session that becomes ready is told of the current job, which nothing is newer than. -/
theorem Logged.ready_step (hlogged : pool.Logged) {server : stratum.Server}
    (hready : (server.step setup.config (pool.context env, event)).session.Ready) :
    server.session.Ready ∨ ∀ job ∈ pool.published, job.publication_sequence ≤
      (server.step setup.config (pool.context env, event)).session.last_notified_publication_sequence := by
  cases Server.informs setup.config server (pool.context env) event with
  | quiet hbefore hsequence hannounced =>
    rcases hbefore hready with hbefore | hnone
    · exact .inl hbefore
    · have hempty : pool.published = [] := head?_eq_none_iff.mp (hlogged.current.symm.trans hnone)
      exact .inr (by simp [hempty])
  | announced current clean notify script hsource hnotify hsequence hannounced =>
    rcases hsource with ⟨-, hbefore, -⟩ | ⟨hcurrent, -⟩
    · exact .inl hbefore
    · rw [hsequence]
      exact .inr fun job hjob => le_max_of_le_right (hlogged.le_current hjob hcurrent)

theorem Delivered.session (h : pool.Delivered flights) (hlogged : pool.Logged) {action : stratum.Event}
    (haction : ∀ job clean, action ≠ .send_notify job clean) :
    (pool.step_sv1 setup env index action).Delivered flights := by
  have hsent : ∀ job clean, action = .send_notify job clean → job ∈ pool.published :=
    fun job clean heq => absurd heq (haction job clean)
  refine ⟨h.published, fun other server' hserver' => (h.heard_step hlogged hsent hserver').1,
    fun other server' hserver' => (h.heard_step hlogged hsent hserver').2, ?_⟩
  intro other server' hserver' hclient hready job hjob
  obtain ⟨server, hserver, ⟨-, rfl⟩ | ⟨-, rfl⟩⟩ := step_sv1_at hserver'
  · have hgrown := (Server.informs setup.config server (pool.context env) action).sequence_le
    rcases hlogged.ready_step hready with hbefore | hcaught
    · rcases h.owed other server hserver hclient hbefore job hjob with hle | howed
      · exact .inl (hle.trans hgrown)
      · exact .inr howed
    · exact .inl (hcaught job hjob)
  · exact h.owed other server' hserver hclient hready job hjob

/-- The sessions after one has connected. -/
theorem connected_at {server new : stratum.Server}
    (h : (pool.sv1 ++ [new])[index]? = some server) :
    pool.sv1[index]? = some server ∧ index ≠ pool.sv1.length ∨ server = new := by
  rcases Nat.lt_or_ge index pool.sv1.length with hlt | hge
  · rw [getElem?_append_left hlt] at h
    exact .inl ⟨h, hlt.ne⟩
  · rw [getElem?_append_right hge] at h
    exact .inr (by simpa using mem_of_getElem? h)

theorem Delivered.connected (h : pool.Delivered flights) (extranonce1 : Bytes) :
    Delivered { pool with
      sv1 := pool.sv1 ++ [.init (pool.context env) extranonce1]
      clients := pool.clients ++ [.sv1 pool.sv1.length] } flights := by
  refine ⟨h.published, fun index server hserver => ?_, fun index server hserver => ?_, ?_⟩
  · rcases connected_at hserver with ⟨hserver, -⟩ | rfl
    · exact h.heard index server hserver
    · exact .nil
  · rcases connected_at hserver with ⟨hserver, -⟩ | rfl
    · exact h.sound index server hserver
    · exact Server.init_sound _ _
  · intro index server hserver hclient hready job hjob
    rcases connected_at hserver with ⟨hserver, hold⟩ | rfl
    · refine h.owed index server hserver ?_ hready job hjob
      simpa [hold] using hclient
    · cases hready.1

theorem Delivered.turn {publisher : Publisher} {broadcast broadcast' : Broadcast}
    (h : pool.Delivered (broadcast :: rest)) (hlogged : pool.Logged)
    (hturn : BroadcastStep setup env publisher pool broadcast pool' broadcast') :
    pool'.Delivered (broadcast' :: rest) := by
  cases hturn with
  | published job clean required houtcome =>
    have hpublished : published_jobs (⟨publisher, pool.cache.stamp job, .Published⟩ :: pool.history) =
        pool.cache.stamp job :: pool.published := by
      simp [Pool.published, published_jobs]
    have hmem {older : Job} (holder : older ∈ pool.published) :
        older ∈ published_jobs (⟨publisher, pool.cache.stamp job, .Published⟩ :: pool.history) := by
      rw [hpublished]
      exact mem_cons_of_mem _ holder
    refine ⟨?_, ?_, h.sound, ?_⟩
    · intro other hother older holder
      rcases mem_cons.mp hother with rfl | hother
      · cases holder
        change pool.cache.stamp job ∈ published_jobs _
        rw [hpublished]
        exact mem_cons_self
      · exact hmem (h.published other (mem_cons_of_mem _ hother) older holder)
    · exact fun index server hserver => (h.heard index server hserver).mono fun older => hmem
    · intro index server hserver hclient hready older holder
      change older ∈ published_jobs _ at holder
      rw [hpublished] at holder
      rcases mem_cons.mp holder with rfl | holder
      · exact .inr ⟨_, mem_cons_self, rfl⟩
      · rcases h.owed index server hserver hclient hready older holder with hle | ⟨other, hother, howes⟩
        · exact .inl hle
        · rcases mem_cons.mp hother with rfl | hother
          · exact howes.elim
          · exact .inr ⟨other, mem_cons_of_mem _ hother, howes⟩
  | refused job clean required hrefused =>
    have hreplaced : pool.Delivered (.done (pool.cache.outcome job required) :: rest) :=
      h.replace (fun _ hjob => by cases hjob) (fun _ _ _ howes => howes.elim)
    refine hreplaced.same ⟨rfl, ?_, rfl, fun _ h => h, le_rfl⟩
    simp [Pool.published, published_jobs, hrefused]
  | alone job clean hclients =>
    refine h.replace (fun _ hjob => by cases hjob) (fun index _ hclient => ?_)
    rw [hclients] at hclient
    cases hclient
  | snapshot job clean =>
    have hmem := h.published _ mem_cons_self job rfl
    have hreplaced : pool.Delivered (.delivering job clean (recipients pool.clients pool.broadcast_cursor) :: rest) :=
      h.replace (fun _ hjob => by cases hjob; exact hmem)
        (fun index _ hclient howes => ⟨howes, mem_recipients _ _ hclient⟩)
    exact hreplaced.same ⟨rfl, rfl, rfl, fun _ h => h, le_rfl⟩
  | returned job clean => exact h.replace (fun _ hjob => by cases hjob) (fun _ _ _ howes => by cases howes.2)
  | delivered job clean recipient recipients =>
    have hmem := h.published _ mem_cons_self job rfl
    cases recipient with
    | sv2 index =>
      have hreplaced : pool.Delivered (.delivering job clean recipients :: rest) := by
        refine h.replace (fun _ hjob => by cases hjob; exact hmem) (fun other _ _ howes => ⟨howes.1, ?_⟩)
        simpa using howes.2
      obtain ⟨publication_queue, heq⟩ := @deliver_sv2 setup env pool job clean index
      rw [heq]
      exact hreplaced.same ⟨rfl, rfl, rfl, fun _ h => h, le_rfl⟩
    | sv1 index => exact h.notified hlogged

theorem init_identified (setup : Setup) : Identified setup (init setup) [] :=
  ⟨by simp [init, job_ids, Pool.published, published_jobs], by simp [init, job_ids, Pool.published, published_jobs]⟩

theorem init_delivered (setup : Setup) : (init setup).Delivered [] :=
  ⟨by simp, by simp [init], by simp [init], by simp [init]⟩

theorem Delivered.flown (h : pool.Delivered flights) (hlogged : pool.Logged)
    (hstep : Flown setup env pool flights pool' flights') : pool'.Delivered flights' := by
  cases hstep with
  | kept hsame hflights =>
    subst hflights
    exact h.same hsame
  | began job clean required hsame hid hcounter hflights =>
    refine (Delivered.perm ?_ hflights.symm).same hsame
    refine ⟨?_, h.heard, h.sound, ?_⟩
    · exact forall_mem_cons.mpr ⟨(fun _ hjob => by cases hjob), h.published⟩
    · intro index server hserver hclient hready job hjob
      rcases h.owed index server hserver hclient hready job hjob with hle | ⟨broadcast, hmem, howes⟩
      · exact .inl hle
      · exact .inr ⟨broadcast, mem_cons_of_mem _ hmem, howes⟩
  | ended outcome hsame hflights =>
    refine Delivered.same ?_ hsame
    have hended := h.perm hflights
    refine ⟨fun broadcast hmem => hended.published broadcast (mem_cons_of_mem _ hmem), h.heard, h.sound, ?_⟩
    intro index server hserver hclient hready job hjob
    rcases hended.owed index server hserver hclient hready job hjob with hle | ⟨broadcast, hmem, howes⟩
    · exact .inl hle
    · rcases mem_cons.mp hmem with rfl | hmem
      · exact howes.elim
      · exact .inr ⟨broadcast, hmem, howes⟩
  | turn publisher broadcast broadcast' mid rest hturn hsame hbefore hafter =>
    exact (((h.perm hbefore).turn hlogged hturn).perm hafter.symm).same hsame
  | connected extranonce1 hsame hflights =>
    subst hflights
    exact (h.connected extranonce1).same hsame
  | session index action haction hsame hflights =>
    subst hflights
    exact (h.session hlogged haction).same hsame

end Pool

/-- Notifies keep the order of publication. -/
theorem Heard.pairwise (hids : (published.map Job.job_id).Nodup)
    (h : Heard published entries last) :
    entries.Pairwise (fun newer older => ∀ job ∈ published, ∀ job' ∈ published,
      newer.1.job_id = job.job_id → older.1.job_id = job'.job_id →
        job'.publication_sequence ≤ job.publication_sequence) ∧
      ∀ entry ∈ entries, ∃ job ∈ published, entry.1.job_id = job.job_id ∧ job.publication_sequence ≤ last := by
  induction h with
  | nil => exact ⟨.nil, by simp⟩
  | @cons entries last job clean notify script hjob hnotify hlast _ ih =>
    refine ⟨pairwise_cons.mpr ⟨?_, ih.1⟩, forall_mem_cons.mpr ⟨⟨job, hjob, hnotify.job_id, le_rfl⟩, ?_⟩⟩
    · intro entry hentry newer hnewer older holder hnewer_id holder_id
      obtain ⟨announced, hannounced, hid, hle⟩ := ih.2 entry hentry
      obtain rfl := inj_on_of_nodup_map hids hnewer hjob (hnewer_id.symm.trans hnotify.job_id)
      obtain rfl := inj_on_of_nodup_map hids holder hannounced (holder_id.symm.trans hid)
      exact hle.trans hlast
    · intro entry hentry
      obtain ⟨announced, hannounced, hid, hle⟩ := ih.2 entry hentry
      exact ⟨announced, hannounced, hid, hle.trans hlast⟩

namespace Broadcasts

theorem reached_delivered (setup : Setup) (actions : List (Environment × Event)) :
    (reached setup actions).pool.Logged ∧
      Pool.Identified setup (reached setup actions).pool (reached setup actions).flights ∧
      (reached setup actions).pool.Delivered (reached setup actions).flights := by
  let inv (broadcasts : Broadcasts) : Prop := broadcasts.pool.Logged ∧
    Pool.Identified setup broadcasts.pool broadcasts.flights ∧ broadcasts.pool.Delivered broadcasts.flights
  have hinit : inv (init setup) :=
    ⟨Pool.init_logged setup, Pool.init_identified setup, Pool.init_delivered setup⟩
  have hreached : inv (reached setup actions) := by
    refine Transition.run_invariant_always ?_ actions hinit
    rintro broadcasts ⟨env, event⟩ ⟨hlogged, hidentified, hdelivered⟩
    have hstep := flown setup broadcasts env event
    exact ⟨hlogged.flown hstep, hidentified.flown hstep, hdelivered.flown hlogged hstep⟩
  exact hreached

/-- The notifies sent to a session announce published jobs and never go back in the order of
their publication. While no call is in flight, the last notify sent to a connected session
that has subscribed and been authorized is the one for the current job. -/
theorem notifies_follow_publication (setup : Setup) (actions : List (Environment × Event)) {index : Nat}
    {server : stratum.Server} (hserver : (reached setup actions).pool.sv1[index]? = some server) :
    (∀ notify ∈ server.notifies, ∃ job ∈ (reached setup actions).pool.published, notify.job_id = job.job_id) ∧
    server.notifies.Pairwise (fun older newer =>
      ∀ job ∈ (reached setup actions).pool.published, ∀ job' ∈ (reached setup actions).pool.published,
        older.job_id = job.job_id → newer.job_id = job'.job_id →
          job.publication_sequence ≤ job'.publication_sequence) ∧
    ((∀ broadcast ∈ (reached setup actions).flights, ∃ outcome, broadcast = .done outcome) →
      .sv1 index ∈ (reached setup actions).pool.clients → server.session.subscribed = true →
      server.session.authorized = true → ∀ current, (reached setup actions).pool.cache.current_job = some current →
        ∃ notify clean, server.notifies.getLast? = some notify ∧ notify.Announces current clean) := by
  obtain ⟨hlogged, hidentified, hdelivered⟩ := reached_delivered setup actions
  have hheard := hdelivered.heard index server hserver
  have hsound := hdelivered.sound index server hserver
  have hids := Nodup.of_append_right hidentified.distinct
  obtain ⟨hordered, hpublished⟩ := hheard.pairwise hids
  have hnotifies : server.notifies = (server.announced.map Prod.fst).reverse := by
    rw [hsound.recorded, reverse_reverse]
  rw [hnotifies]
  refine ⟨fun notify hnotify => ?_, ?_, fun hdone hclient hsubscribed hauthorized current hcurrent => ?_⟩
  · obtain ⟨entry, hentry, rfl⟩ := mem_map.mp (mem_reverse.mp hnotify)
    obtain ⟨job, hjob, hid, -⟩ := hpublished entry hentry
    exact ⟨job, hjob, hid⟩
  · rw [pairwise_reverse, pairwise_map]
    refine hordered.imp fun hpair job hjob job' hjob' hid hid' => ?_
    exact hpair job' hjob' job hjob hid' hid
  · have hready : server.session.Ready := ⟨hsubscribed, hauthorized, hsound.paid hauthorized⟩
    have hmem := hlogged.current_mem hcurrent
    have hcaught : current.publication_sequence ≤ server.session.last_notified_publication_sequence := by
      rcases hdelivered.owed index server hserver hclient hready current hmem with hle | ⟨broadcast, hflight, howes⟩
      · exact hle
      · obtain ⟨outcome, rfl⟩ := hdone broadcast hflight
        exact howes.elim
    rw [getLast?_reverse]
    generalize server.announced = entries at hheard
    generalize server.session.last_notified_publication_sequence = last at hheard hcaught
    cases hheard with
    | nil =>
      have hpositive := (hlogged.bounds current hmem).1
      omega
    | cons job clean notify script hjob hnotify =>
      have hle := hlogged.le_current hjob hcurrent
      obtain rfl := hlogged.eq_of_sequence hjob hmem (le_antisymm hle hcaught)
      exact ⟨notify, clean, rfl, hnotify⟩

open Pool.Regtest in
/-- Two calls at once: the second overtakes the first between its publication and its
deliveries. -/
def crossing : List (Environment × Event) :=
  actions ((miner 0).map .pool ++
    [.broadcast_job (.build_and_broadcast (parent 1)) (Job.minimal_template 1 900) true false,
      .broadcast_job (.on_zmq_block (parent 2)) (Job.minimal_template 2 900) true true,
      .turn 0, .turn 1, .turn 1, .turn 1, .turn 0, .turn 0, .turn 0, .turn 1])

open Pool.Regtest in
/-- The client ends up with the job of the second call, the first one being dropped. -/
theorem notifies_follow_publication_crossing :
    ∃ server, (reached setup crossing).pool.sv1[0]? = some server ∧ ∃ current,
      (reached setup crossing).pool.cache.current_job = some current ∧
      current.job_id = Pool.next_job_id setup 2 ∧ ∃ notify clean,
        server.notifies.getLast? = some notify ∧ notify.Announces current clean := by
  have hsome : ((reached setup crossing).pool.sv1[0]?).isSome := by decide
  have hcurrent : (reached setup crossing).pool.cache.current_job.map Job.job_id =
      some (Pool.next_job_id setup 2) := by decide
  obtain ⟨server, hserver⟩ := isSome_iff_exists.mp hsome
  obtain ⟨current, hcurrent, hid⟩ := map_eq_some_iff.mp hcurrent
  have hflags : ∀ server ∈ (reached setup crossing).pool.sv1, server.session.subscribed = true ∧
      server.session.authorized = true := by decide
  obtain ⟨hsubscribed, hauthorized⟩ := hflags server (mem_of_getElem? hserver)
  have hflights : (reached setup crossing).flights = [.done .Published, .done .Published] := by decide
  exact ⟨server, hserver, current, hcurrent, hid, (notifies_follow_publication setup crossing hserver).2.2
    (by simp [hflights]) (by decide) hsubscribed hauthorized current hcurrent⟩

end Broadcasts

end erikslund
