import SoloPool.Pool.Changes
import SoloPool.Stratum.Session.Steps
import SoloPool.Sv2.Session.Extranonce

namespace erikslund

open util bitcoin stratum List Option

/-- The parts of an accepted configuration that size the first extranonce. -/
theorem Config.Accepted.extranonce1_fits {config : Config} (haccepted : config.Accepted) :
    config.extranonce1_prefix.length + 4 ≤ config.extranonce1_size ∧ config.extranonce1_size ≤ 8 := by
  obtain ⟨raw, hraw⟩ := haccepted
  simp only [finalize_and_validate, ite_eq_iff, reduceCtorEq, and_false, false_or, Except.ok.injEq] at hraw
  obtain ⟨-, -, -, -, -, -, -, -, -, -, hsize, hprefix, -, -, rfl⟩ := hraw
  dsimp only
  omega

namespace Pool

/-- The client that an event makes room for, and draws an extranonce for. -/
def Event.arrival (pool : Pool) : Event → Option ClientRef
  | .add_client => some (.sv1 pool.sv1.length)
  | .add_sv2_client => some (.sv2 pool.sv2.length)
  | _ => none

/-- The clients that arrive in a run, in the order in which they draw their extranonces. -/
def arrivals (setup : Setup) : Pool → List (Environment × Event) → List ClientRef
  | _, [] => []
  | pool, action :: actions => (action.2.arrival pool).toList ++ arrivals setup (pool.step setup action) actions

def extranonce1 (pool : Pool) : ClientRef → Option Bytes
  | .sv1 index => pool.sv1[index]?.map (fun server => server.session.extranonce1)
  | .sv2 index => pool.sv2[index]?.map (fun server => server.session.extranonce1)

/-- Sessions take steps of their own, and none arrives. -/
structure Stays (setup : Setup) (pool pool' : Pool) : Prop where
  counter : pool'.extranonce1_counter = pool.extranonce1_counter
  sv1_length : pool'.sv1.length = pool.sv1.length
  sv2_length : pool'.sv2.length = pool.sv2.length
  sv1 : ∀ (index : Nat) (server' : stratum.Server), pool'.sv1[index]? = some server' → ∃ server actions,
    pool.sv1[index]? = some server ∧ server' = Transition.run (Server.step setup.config) server actions
  sv2 : ∀ (index : Nat) (server' : sv2.Server), pool'.sv2[index]? = some server' → ∃ server actions,
    pool.sv2[index]? = some server ∧ server' = Transition.run (sv2.Server.step setup.config) server actions

variable {setup : Setup} {env : Environment} {pool pool' : Pool}

theorem Stays.of_eq (hcounter : pool'.extranonce1_counter = pool.extranonce1_counter) (hsv1 : pool'.sv1 = pool.sv1)
    (hsv2 : pool'.sv2 = pool.sv2) : Stays setup pool pool' := by
  refine ⟨hcounter, by rw [hsv1], by rw [hsv2], ?_, ?_⟩
  · intro index server hserver
    exact ⟨server, [], hsv1 ▸ hserver, rfl⟩
  · intro index server hserver
    exact ⟨server, [], hsv2 ▸ hserver, rfl⟩

theorem Stays.refl (pool : Pool) : Stays setup pool pool := .of_eq rfl rfl rfl

theorem Stays.step_sv1 (index : Nat) (event : stratum.Event) :
    Stays setup pool (pool.step_sv1 setup env index event) := by
  refine ⟨rfl, length_modify .., rfl, ?_, fun index server hserver => ⟨server, [], hserver, rfl⟩⟩
  intro other server' hserver'
  rw [Pool.step_sv1, getElem?_modify] at hserver'
  obtain ⟨server, hserver, hmodified⟩ := map_eq_some_iff.mp hserver'
  split at hmodified
  · exact ⟨server, [(pool.context env, event)], hserver, hmodified.symm⟩
  · exact ⟨server, [], hserver, hmodified.symm⟩

theorem Stays.step_sv2 (index : Nat) (event : sv2.Event) :
    Stays setup pool (pool.step_sv2 setup env index event) := by
  refine ⟨rfl, rfl, length_modify .., fun index server hserver => ⟨server, [], hserver, rfl⟩, ?_⟩
  intro other server' hserver'
  rw [Pool.step_sv2, getElem?_modify] at hserver'
  obtain ⟨server, hserver, hmodified⟩ := map_eq_some_iff.mp hserver'
  split at hmodified
  · exact ⟨server, [(pool.context env, event)], hserver, hmodified.symm⟩
  · exact ⟨server, [], hserver, hmodified.symm⟩

theorem BroadcastStep.stays {publisher : Publisher} {broadcast broadcast' : Broadcast}
    (h : BroadcastStep setup env publisher pool broadcast pool' broadcast') : Stays setup pool pool' := by
  cases h with
  | delivered job clean recipient rest =>
    cases recipient with
    | sv1 index => exact .step_sv1 index _
    | sv2 index =>
      obtain ⟨publication_queue, hdeliver⟩ := @deliver_sv2 setup env pool job clean index
      rw [hdeliver]
      exact .of_eq rfl rfl rfl
  | _ => exact .of_eq rfl rfl rfl

theorem WorkStep.stays (h : WorkStep setup env pool pool') : Stays setup pool pool' := by
  cases h with
  | broadcast prevhash version broadcast broadcast' mid hbefore hturn => exact { hturn.stays with }
  | _ => exact .of_eq rfl rfl rfl

theorem ZmqStep.stays (h : ZmqStep setup env pool pool') : Stays setup pool pool' := by
  cases h with
  | broadcast block_hash broadcast broadcast' mid hbefore hturn => exact { hturn.stays with }
  | _ => exact .of_eq rfl rfl rfl

theorem step_stays (setup : Setup) (env : Environment) (pool : Pool) {event : Event}
    (hevent : event.arrival pool = none) : Stays setup pool (pool.step setup (env, event)) := by
  cases event with
  | poll refresh_due tip =>
    simp only [step]
    split
    · rename_i hwork
      exact (poll_spec setup env hwork refresh_due tip).stays
    · exact .refl pool
  | fetch_template reply =>
    simp only [step]
    split
    · exact .refl pool
    · cases reply <;> exact .of_eq rfl rfl rfl
  | work =>
    obtain hstill | hwork := step_work_spec setup env pool
    · rw [step, hstill]
      exact .refl pool
    · exact hwork.stays
  | on_zmq_block block_hash =>
    simp only [step, on_zmq_block]
    split
    · split
      · exact .of_eq rfl rfl rfl
      · exact .refl pool
    · exact .refl pool
  | fetch_header reply =>
    simp only [step]
    split <;> exact .of_eq rfl rfl rfl
  | zmq =>
    obtain hstill | hzmq := step_zmq_spec setup env pool
    · rw [step, hstill]
      exact .refl pool
    · exact hzmq.stays
  | publication_loop =>
    simp only [step, publication_loop]
    split
    · split
      · exact .of_eq rfl rfl rfl
      · rename_i index _
        exact { Stays.step_sv2 index _ with }
    · exact .refl pool
    · split
      · exact .refl pool
      · exact .of_eq rfl rfl rfl
  | add_client => cases hevent
  | add_sv2_client => cases hevent
  | remove_client client => exact .of_eq rfl rfl rfl
  | sv1 index event =>
    cases event with
    | send_notify job clean => exact .refl pool
    | _ => exact .step_sv1 index _
  | sv2 index event =>
    cases event with
    | publish_job job_id clean => exact .refl pool
    | _ => exact .step_sv2 index _

/-- Each session is a run of its own, begun with the extranonce drawn when its client arrived. -/
structure Arrived (setup : Setup) (roster : List ClientRef) (pool : Pool) : Prop where
  counter : pool.extranonce1_counter = setup.started + roster.length
  distinct : roster.Nodup
  known_sv1 : ∀ index, .sv1 index ∈ roster ↔ index < pool.sv1.length
  known_sv2 : ∀ index, .sv2 index ∈ roster ↔ index < pool.sv2.length
  sv1 : ∀ (index : Nat) (server : stratum.Server), pool.sv1[index]? = some server → ∃ ordinal ctx actions,
    roster[ordinal]? = some (.sv1 index) ∧ server = Server.reached setup.config ctx
      (next_extranonce1 setup.config (setup.started + ordinal + 1)) actions
  sv2 : ∀ (index : Nat) (server : sv2.Server), pool.sv2[index]? = some server → ∃ ordinal actions,
    roster[ordinal]? = some (.sv2 index) ∧ server = sv2.Server.reached setup.config
      (next_extranonce1 setup.config (setup.started + ordinal + 1)) actions

theorem init_arrived (setup : Setup) : Arrived setup [] (init setup) :=
  ⟨rfl, nodup_nil, by simp [init], by simp [init], by simp [init], by simp [init]⟩

variable {roster : List ClientRef}

theorem Arrived.stays (h : Arrived setup roster pool) (hstays : Stays setup pool pool') :
    Arrived setup roster pool' := by
  refine ⟨hstays.counter.trans h.counter, h.distinct, ?_, ?_, ?_, ?_⟩
  · intro index
    rw [hstays.sv1_length]
    exact h.known_sv1 index
  · intro index
    rw [hstays.sv2_length]
    exact h.known_sv2 index
  · intro index server' hserver'
    obtain ⟨server, more, hserver, rfl⟩ := hstays.sv1 index server' hserver'
    obtain ⟨ordinal, ctx, actions, hordinal, rfl⟩ := h.sv1 index server hserver
    exact ⟨ordinal, ctx, actions ++ more, hordinal, (Server.reached_append ..).symm⟩
  · intro index server' hserver'
    obtain ⟨server, more, hserver, rfl⟩ := hstays.sv2 index server' hserver'
    obtain ⟨ordinal, actions, hordinal, rfl⟩ := h.sv2 index server hserver
    exact ⟨ordinal, actions ++ more, hordinal, (sv2.Server.reached_append ..).symm⟩

/-- A client that arrives is a new one. -/
theorem Arrived.fresh (h : Arrived setup roster pool) : .sv1 pool.sv1.length ∉ roster ∧ .sv2 pool.sv2.length ∉ roster := by
  rw [h.known_sv1, h.known_sv2]
  exact ⟨Nat.lt_irrefl _, Nat.lt_irrefl _⟩

theorem getElem?_append_of_some {α : Type} {items : List α} {index : Nat} {item : α} (h : items[index]? = some item)
    (more : List α) : (items ++ more)[index]? = some item := by
  rw [getElem?_append_left (List.getElem?_eq_some_iff.mp h).1]
  exact h

theorem getElem?_concat_eq_some {α : Type} {items : List α} {last item : α} {index : Nat}
    (h : (items ++ [last])[index]? = some item) :
    items[index]? = some item ∨ index = items.length ∧ item = last := by
  obtain hlt | hge := Nat.lt_or_ge index items.length
  · rw [getElem?_append_left hlt] at h
    exact .inl h
  · have hlast : index = items.length := by
      have hbound := (List.getElem?_eq_some_iff.mp h).1
      rw [length_append, length_singleton] at hbound
      omega
    subst hlast
    rw [getElem?_concat_length] at h
    exact .inr ⟨rfl, (Option.some.inj h).symm⟩

theorem Arrived.add_client (h : Arrived setup roster pool) (env : Environment) :
    Arrived setup (roster ++ [.sv1 pool.sv1.length]) (pool.step setup (env, .add_client)) := by
  refine ⟨?_, ?_, ?_, ?_, ?_, ?_⟩
  · change pool.extranonce1_counter + 1 = _
    rw [h.counter, length_append, length_singleton, Nat.add_assoc]
  · exact nodup_append_comm.mp (nodup_cons.mpr ⟨h.fresh.1, h.distinct⟩)
  · intro index
    simp only [mem_append, h.known_sv1, mem_singleton, ClientRef.sv1.injEq, step, length_append,
      length_singleton]
    omega
  · intro index
    simp only [mem_append, h.known_sv2, mem_singleton, reduceCtorEq, or_false, step]
  · intro index server hserver
    obtain hserver | ⟨rfl, rfl⟩ := getElem?_concat_eq_some hserver
    · obtain ⟨ordinal, ctx, actions, hordinal, rfl⟩ := h.sv1 index server hserver
      exact ⟨ordinal, ctx, actions, getElem?_append_of_some hordinal _, rfl⟩
    · refine ⟨roster.length, pool.context env, [], getElem?_concat_length, ?_⟩
      rw [← h.counter]
      rfl
  · intro index server hserver
    obtain ⟨ordinal, actions, hordinal, rfl⟩ := h.sv2 index server hserver
    exact ⟨ordinal, actions, getElem?_append_of_some hordinal _, rfl⟩

theorem Arrived.add_sv2_client (h : Arrived setup roster pool) (env : Environment) :
    Arrived setup (roster ++ [.sv2 pool.sv2.length]) (pool.step setup (env, .add_sv2_client)) := by
  refine ⟨?_, ?_, ?_, ?_, ?_, ?_⟩
  · change pool.extranonce1_counter + 1 = _
    rw [h.counter, length_append, length_singleton, Nat.add_assoc]
  · exact nodup_append_comm.mp (nodup_cons.mpr ⟨h.fresh.2, h.distinct⟩)
  · intro index
    simp only [mem_append, h.known_sv1, mem_singleton, reduceCtorEq, or_false, step]
  · intro index
    simp only [mem_append, h.known_sv2, mem_singleton, ClientRef.sv2.injEq, step, length_append,
      length_singleton]
    omega
  · intro index server hserver
    obtain ⟨ordinal, ctx, actions, hordinal, rfl⟩ := h.sv1 index server hserver
    exact ⟨ordinal, ctx, actions, getElem?_append_of_some hordinal _, rfl⟩
  · intro index server hserver
    obtain hserver | ⟨rfl, rfl⟩ := getElem?_concat_eq_some hserver
    · obtain ⟨ordinal, actions, hordinal, rfl⟩ := h.sv2 index server hserver
      exact ⟨ordinal, actions, getElem?_append_of_some hordinal _, rfl⟩
    · refine ⟨roster.length, [], getElem?_concat_length, ?_⟩
      rw [← h.counter]
      rfl

theorem Arrived.step (h : Arrived setup roster pool) (env : Environment) (event : Event) :
    Arrived setup (roster ++ (event.arrival pool).toList) (pool.step setup (env, event)) := by
  cases harrival : event.arrival pool with
  | none =>
    rw [toList_none, append_nil]
    exact h.stays (step_stays setup env pool harrival)
  | some client =>
    cases event with
    | add_client =>
      cases harrival
      exact h.add_client env
    | add_sv2_client =>
      cases harrival
      exact h.add_sv2_client env
    | _ => cases harrival

theorem Arrived.run (h : Arrived setup roster pool) (actions : List (Environment × Event)) :
    Arrived setup (roster ++ arrivals setup pool actions) (Transition.run (Pool.step setup) pool actions) := by
  induction actions generalizing roster pool with
  | nil =>
    rw [arrivals, append_nil]
    exact h
  | cons action actions ih =>
    rw [arrivals, ← append_assoc, Transition.run_cons]
    exact ih (h.step action.1 action.2)

theorem reached_arrived (setup : Setup) (actions : List (Environment × Event)) :
    Arrived setup (arrivals setup (init setup) actions) (reached setup actions) :=
  (init_arrived setup).run actions

/-- Clients keep their places as others arrive. -/
theorem arrivals_mono (setup : Setup) (pool : Pool) {before actions : List (Environment × Event)}
    (hbefore : before <+: actions) : arrivals setup pool before <+: arrivals setup pool actions := by
  obtain ⟨after, rfl⟩ := hbefore
  induction before generalizing pool with
  | nil => exact nil_prefix
  | cons action before ih =>
    rw [cons_append, arrivals, arrivals]
    exact prefix_append_right_inj _ |>.mpr (ih _)

end Pool

/-! ## What clients can submit -/

theorem stratum.Server.reached_extranonce1 (config : Config) (ctx : PoolContext) (extranonce1 : Bytes)
    (actions : List (PoolContext × stratum.Event)) :
    (stratum.Server.reached config ctx extranonce1 actions).session.extranonce1 = extranonce1 := by
  have hstep (server : stratum.Server) (action : PoolContext × stratum.Event)
      (h : server.session.extranonce1 = extranonce1) :
      (server.step config action).session.extranonce1 = extranonce1 := by
    rw [← h]
    cases Server.stepped config server action.1 action.2 with
    | moved hmoved =>
      cases hmoved with
      | quiet hreadied => exact hreadied.extranonce1
      | announced mid job clean script hreadied hsource hnotified =>
        exact hnotified.extranonce1.trans hreadied.extranonce1
    | submitted submission job prepared hidle hjob htaken => rw [htaken.frame]
    | finished submission prepared hflight hunchanged => exact hunchanged.extranonce1
  exact Transition.run_invariant_always hstep actions rfl

theorem sv2.Server.reached_extranonce1 (config : Config) (extranonce1 : Bytes)
    (actions : List (PoolContext × sv2.Event)) :
    (sv2.Server.reached config extranonce1 actions).session.extranonce1 = extranonce1 := by
  obtain ⟨_, hwhole⟩ := sv2.Server.reached_owned config extranonce1 actions
  obtain ⟨owner, howned, -⟩ := hwhole actions (prefix_refl _)
  exact howned.same_extranonce1

/-- Some share with this full extranonce would be accepted from the session. -/
def stratum.Session.Accepts (session : stratum.Session) (field : Bytes) : Prop :=
  ∃ (prepared : PreparedSubmit) (time : Int) (extranonce2 : Bytes),
    (prepared.job.validate_share (prepared.input session.extranonce1 time)).isOk ∧
      try_from_hex prepared.extranonce2 = some extranonce2 ∧ field = session.extranonce1 ++ extranonce2

namespace Pool

def Accepts (pool : Pool) (client : ClientRef) (field : Bytes) : Prop :=
  match client with
  | .sv1 index => ∃ server, pool.sv1[index]? = some server ∧ server.session.Accepts field
  | .sv2 index => ∃ server channel_id, pool.sv2[index]? = some server ∧ server.session.Accepts channel_id field

variable {setup : Setup} {pool : Pool} {roster : List ClientRef}

theorem Arrived.ordinal_unique (h : Arrived setup roster pool) {ordinal ordinal' : Nat} {client : ClientRef}
    (hclient : roster[ordinal]? = some client) (hclient' : roster[ordinal']? = some client) : ordinal = ordinal' :=
  (getElem?_inj (List.getElem?_eq_some_iff.mp hclient).1 h.distinct).mp (hclient.trans hclient'.symm)

theorem Arrived.extranonce1 (h : Arrived setup roster pool) {ordinal : Nat} {client : ClientRef}
    (hclient : roster[ordinal]? = some client) :
    pool.extranonce1 client = some (next_extranonce1 setup.config (setup.started + ordinal + 1)) := by
  have hmem := mem_of_getElem? hclient
  cases client with
  | sv1 index =>
    have hserver := getElem?_eq_getElem ((h.known_sv1 index).mp hmem)
    obtain ⟨ordinal', ctx, actions, hordinal, hrun⟩ := h.sv1 index _ hserver
    rw [Pool.extranonce1, hserver, hrun, map_some, Server.reached_extranonce1, h.ordinal_unique hordinal hclient]
  | sv2 index =>
    have hserver := getElem?_eq_getElem ((h.known_sv2 index).mp hmem)
    obtain ⟨ordinal', actions, hordinal, hrun⟩ := h.sv2 index _ hserver
    rw [Pool.extranonce1, hserver, hrun, map_some, sv2.Server.reached_extranonce1, h.ordinal_unique hordinal hclient]

/-- Whatever a client submits begins with the extranonce it drew. -/
theorem Arrived.accepts (h : Arrived setup roster pool) {client : ClientRef} {field : Bytes}
    (haccepts : pool.Accepts client field) :
    ∃ ordinal, roster[ordinal]? = some client ∧
      next_extranonce1 setup.config (setup.started + ordinal + 1) <+: field := by
  cases client with
  | sv1 index =>
    obtain ⟨server, hserver, prepared, time, extranonce2, -, -, rfl⟩ := haccepts
    obtain ⟨ordinal, ctx, actions, hordinal, rfl⟩ := h.sv1 index server hserver
    refine ⟨ordinal, hordinal, ?_⟩
    rw [Server.reached_extranonce1]
    exact prefix_append ..
  | sv2 index =>
    obtain ⟨server, channel_id, hserver, haccepts⟩ := haccepts
    obtain ⟨ordinal, actions, hordinal, rfl⟩ := h.sv2 index server hserver
    refine ⟨ordinal, hordinal, ?_⟩
    obtain ⟨_, hwhole⟩ := sv2.Server.reached_owned setup.config
      (next_extranonce1 setup.config (setup.started + ordinal + 1)) actions
    obtain ⟨owner, howned, -⟩ := hwhole actions (prefix_refl _)
    obtain ⟨number, -, -, rfl⟩ | ⟨c, -, -, -, -, extranonce, -, rfl⟩ := howned.accepts haccepts
    · exact prefix_append ..
    · exact prefix_append ..

end Pool

/-! ## Extranonces drawn from the counter -/

namespace Pool

variable {config : Config}

theorem next_extranonce1_length (haccepted : config.Accepted) (value : Nat) :
    (next_extranonce1 config value).length = config.extranonce1_size := by
  have hfits := haccepted.extranonce1_fits.1
  rw [next_extranonce1, length_append, Radix.be_length]
  omega

/-- The counter has eight bytes, and no extranonce shows more of it. -/
theorem next_extranonce1_wraps (haccepted : config.Accepted) (value : Nat) :
    next_extranonce1 config (value % 2 ^ 64) = next_extranonce1 config value := by
  have hdvd : 256 ^ (config.extranonce1_size - config.extranonce1_prefix.length) ∣ 2 ^ 64 := by
    change _ ∣ 256 ^ 8
    apply Nat.pow_dvd_pow
    have hfits := haccepted.extranonce1_fits
    omega
  rw [next_extranonce1, ← Radix.be_mod, Nat.mod_mod_of_dvd _ hdvd, Radix.be_mod, next_extranonce1]

theorem next_extranonce1_ne {value value' : Nat} (hlt : value < value')
    (hclose : value' - value < 256 ^ (config.extranonce1_size - config.extranonce1_prefix.length)) :
    next_extranonce1 config value ≠ next_extranonce1 config value' := by
  intro heq
  have hmod := Radix.be_inj (append_cancel_left heq)
  have hdvd := Nat.dvd_of_mod_eq_zero (Nat.sub_mod_eq_zero_of_mod_eq hmod.symm)
  have hle := Nat.le_of_dvd (by omega) hdvd
  omega

/-- What begins with both of two equally long lists shows them to be equal. -/
theorem eq_of_prefixes {first second field : Bytes} (hfirst : first <+: field) (hsecond : second <+: field)
    (hlength : first.length = second.length) : first = second :=
  (prefix_of_prefix_length_le hfirst hsecond hlength.le).eq_of_length hlength

/-- Clients that draw within one lap of the counter bytes get different extranonces, of the configured size and under
the configured first bytes, whenever either of the two submits; and pools with different first bytes keep apart. -/
theorem extranonces_drawn_apart (setup : Setup) (haccepted : setup.config.Accepted)
    (actions : List (Environment × Event)) :
    (∀ ordinal client, (arrivals setup (init setup) actions)[ordinal]? = some client →
      ∃ extranonce1, (reached setup actions).extranonce1 client = some extranonce1 ∧
        extranonce1 = next_extranonce1 setup.config ((setup.started + ordinal + 1) % 2 ^ 64) ∧
        extranonce1.length = setup.config.extranonce1_size ∧ setup.config.extranonce1_prefix <+: extranonce1) ∧
    (∀ ordinal ordinal' client client', (arrivals setup (init setup) actions)[ordinal]? = some client →
      (arrivals setup (init setup) actions)[ordinal']? = some client' → ordinal < ordinal' →
      ordinal' - ordinal < 256 ^ (setup.config.extranonce1_size - setup.config.extranonce1_prefix.length) →
      (reached setup actions).extranonce1 client ≠ (reached setup actions).extranonce1 client' ∧
      ∀ before before' field, before <+: actions → before' <+: actions →
        (reached setup before).Accepts client field → ¬ (reached setup before').Accepts client' field) ∧
    (∀ (setup' : Setup) (actions' : List (Environment × Event)), setup'.config.Accepted →
      setup'.config.extranonce1_prefix.length = setup.config.extranonce1_prefix.length →
      setup'.config.extranonce1_prefix ≠ setup.config.extranonce1_prefix →
      ∀ client client' field, (reached setup actions).Accepts client field →
        ¬ (reached setup' actions').Accepts client' field) := by
  have harrived := reached_arrived setup actions
  refine ⟨?_, ?_, ?_⟩
  · intro ordinal client hclient
    refine ⟨_, harrived.extranonce1 hclient, (next_extranonce1_wraps haccepted _).symm,
      next_extranonce1_length haccepted _, prefix_append ..⟩
  · intro ordinal ordinal' client client' hclient hclient' hlt hclose
    have hne : next_extranonce1 setup.config (setup.started + ordinal + 1) ≠
        next_extranonce1 setup.config (setup.started + ordinal' + 1) :=
      next_extranonce1_ne (by omega) (by omega)
    refine ⟨?_, ?_⟩
    · rw [harrived.extranonce1 hclient, harrived.extranonce1 hclient']
      exact fun heq => hne (Option.some.inj heq)
    · intro before before' field hbefore hbefore' haccepts haccepts'
      have hdrawn {before : List (Environment × Event)} {ordinal : Nat} {client : ClientRef} {field : Bytes}
          (hbefore : before <+: actions) (hclient : (arrivals setup (init setup) actions)[ordinal]? = some client)
          (haccepts : (reached setup before).Accepts client field) :
          next_extranonce1 setup.config (setup.started + ordinal + 1) <+: field := by
        obtain ⟨earlier, hearlier, hfield⟩ := (reached_arrived setup before).accepts haccepts
        obtain ⟨later, hlater⟩ := arrivals_mono setup (init setup) hbefore
        have hplace := getElem?_append_of_some hearlier later
        rw [hlater] at hplace
        rwa [harrived.ordinal_unique hplace hclient] at hfield
      apply hne
      apply eq_of_prefixes (hdrawn hbefore hclient haccepts) (hdrawn hbefore' hclient' haccepts')
      rw [next_extranonce1_length haccepted, next_extranonce1_length haccepted]
  · intro setup' actions' haccepted' hlength hprefix client client' field haccepts haccepts'
    obtain ⟨ordinal, -, hfield⟩ := harrived.accepts haccepts
    obtain ⟨ordinal', -, hfield'⟩ := (reached_arrived setup' actions').accepts haccepts'
    have hstart : setup.config.extranonce1_prefix <+: field := (prefix_append ..).trans hfield
    have hstart' : setup'.config.extranonce1_prefix <+: field := (prefix_append ..).trans hfield'
    exact hprefix (eq_of_prefixes hstart' hstart hlength)

open Regtest in
/-- Two clients, one of each protocol, draw one after the other. -/
theorem extranonces_drawn_apart_pair :
    (reached setup (actions [.add_client, .add_sv2_client])).extranonce1 (.sv1 0) ≠
      (reached setup (actions [.add_client, .add_sv2_client])).extranonce1 (.sv2 0) :=
  ((extranonces_drawn_apart setup ⟨{}, by decide +kernel⟩ (actions [.add_client, .add_sv2_client])).2.1 0 1 _ _ rfl rfl
    (by decide) (by decide)).1

end Pool

end erikslund
