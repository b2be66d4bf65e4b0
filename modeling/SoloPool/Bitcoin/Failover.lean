import Mathlib.Data.List.Nodup
import Mathlib.Data.Nat.ModEq
import Mathlib.Data.List.Range
import SoloPool.Bitcoin.RpcClient

namespace erikslund.bitcoin.rpc

open List

variable {J : Type}

namespace Call

/-- The endpoints are asked in turn from the active index that was read, each at most once, after
at most one failback, and that and the probe ask endpoint 0. -/
structure Orderly (count : Nat) (call : Call J) : Prop where
  order : call.asked.map Prod.fst = (range call.asked.length).map fun offset => (call.start + offset) % count
  most : call.asked.length ≤ count
  failback : call.failback = [] ∨ ∃ post, call.failback = [(0, post)]
  probe : ∀ ask ∈ call.probe, ask.1 = 0

/-- The endpoint `index` gave the call its answer. -/
def Served (json : JsonReader J) (call : Call J) (index : Nat) : Prop :=
  ∃ post answer, (index, post) ∈ call.asked ∧ call.request.reply json post = .result answer

/-- How a call around the endpoints may end: as the first endpoint that is not unavailable
decides, or, once all are unavailable, without an answer; or by a failback. -/
inductive Settled (json : JsonReader J) (count : Nat) (call : Call J) : Outcome J → Prop where
  | returned (before : List (Nat × Post)) (index : Nat) (post : Post) (answer : Answer J)
      (hasked : call.asked = before ++ [(index, post)])
      (hbefore : ∀ earlier ∈ before, (call.request.reply json earlier.2).unavailable = true)
      (hreply : call.request.reply json post = .result answer) : Settled json count call (.returned answer)
  | rpc_error (before : List (Nat × Post)) (index : Nat) (post : Post) (what : String) (code : Option Int)
      (hasked : call.asked = before ++ [(index, post)])
      (hbefore : ∀ earlier ∈ before, (call.request.reply json earlier.2).unavailable = true)
      (hreply : call.request.reply json post = .rpc_error what code)
      (havailable : endpoint_unavailable code = false) : Settled json count call (.rpc_error what code)
  | unavailable (what : String) (hcount : call.asked.length = count)
      (hall : ∀ ask ∈ call.asked, (call.request.reply json ask.2).unavailable = true) :
      Settled json count call (.unavailable what)
  | failed_back (post : Post) (block_template : BlockTemplate) (hrequest : call.request = .getblocktemplate_parsed)
      (hasked : call.asked = []) (hfailback : call.failback = [(0, post)])
      (hreply : fetch_template_from json post = .result block_template) :
      Settled json count call (.failed_back block_template)

end Call

/-- A `maybe_failback` was given the tip and saw endpoint 0 report it. -/
def Probed (log : List Note) (tip : Text) : Prop := ∃ id, .probed id tip ∈ log

/-- Why a call may have set the active index to `after`: that endpoint answered it, or it failed
back to endpoint 0 with a template on a tip that was probed before. -/
inductive Justified (json : JsonReader J) (earlier : List Note) (call : Call J) : Nat → Prop where
  | served (after : Nat) (answer : Answer J) (hserved : call.Served json after)
      (hphase : call.phase = .done (.returned answer)) : Justified json earlier call after
  | failed_back (block_template : BlockTemplate) (hphase : call.phase = .done (.failed_back block_template))
      (hprobed : Probed earlier block_template.previousblockhash) : Justified json earlier call 0

theorem Justified.zero_or_served {json : JsonReader J} {earlier : List Note} {call : Call J} {after : Nat}
    (h : Justified json earlier call after) : after = 0 ∨ call.Served json after := by
  cases h with
  | served _ answer hserved _ => exact .inr hserved
  | failed_back block_template _ _ => exact .inl rfl

namespace Call

/-- What the phase of a call says of its history and of what the threads share. -/
def AtPhase (json : JsonReader J) (count : Nat) (shared : Shared) (log : List Note) (call : Call J) : Prop :=
  match call.phase with
  | .take_tip => call.request = .getblocktemplate_parsed ∧ call.asked = [] ∧ call.failback = []
  | .check_active tip | .failback_post tip =>
    call.request = .getblocktemplate_parsed ∧ call.asked = [] ∧ call.failback = [] ∧ Probed log tip
  | .failback_parse tip http_status =>
    call.request = .getblocktemplate_parsed ∧ call.asked = [] ∧
      call.failback = [(0, .ok (http_status, shared.gbt_body))] ∧ Probed log tip
  | .failback_install tip block_template =>
    call.request = .getblocktemplate_parsed ∧ call.asked = [] ∧ block_template.previousblockhash = tip ∧
      Probed log tip ∧ ∃ post, call.failback = [(0, post)] ∧ fetch_template_from json post = .result block_template
  | .load => call.request.cyclic = true ∧ call.asked = []
  | .attempt start offset _ =>
    call.request.cyclic = true ∧ start = call.start ∧ offset = call.asked.length ∧
      ∀ ask ∈ call.asked, (call.request.reply json ask.2).unavailable = true
  | .parse start offset http_status =>
    call.request = .getblocktemplate_parsed ∧ start = call.start ∧ ∃ before,
      call.asked = before ++ [((start + offset) % count, .ok (http_status, shared.gbt_body))] ∧
      offset = before.length ∧ ∀ ask ∈ before, (call.request.reply json ask.2).unavailable = true
  | .install start index answer =>
    call.request.cyclic = true ∧ index ≠ start ∧ ∃ before post, call.asked = before ++ [(index, post)] ∧
      (∀ ask ∈ before, (call.request.reply json ask.2).unavailable = true) ∧
      call.request.reply json post = .result answer
  | .probe_check tip | .probe_time tip | .probe_store tip _ | .probe_post tip =>
    call.request = .maybe_failback tip ∧ call.probe = none
  | .probe_schedule tip => call.request = .maybe_failback tip ∧ Probed log tip
  | .submit _ => call.request = .submitblock
  | .done outcome => call.request.cyclic = true → call.Settled json count outcome

structure Inv (json : JsonReader J) (count : Nat) (shared : Shared) (log : List Note) (call : Call J) : Prop where
  orderly : call.Orderly count
  phase : call.AtPhase json count shared log

variable {json : JsonReader J} {count id : Nat} {shared : Shared} {log : List Note} {call : Call J} {post : Post}
  {now : ℚ}

theorem cyclic_of_template (h : call.request = .getblocktemplate_parsed) : call.request.cyclic = true := by
  rw [h]
  rfl

/-- One endpoint more is asked. -/
theorem Orderly.ask (h : call.Orderly count) (hroom : call.asked.length < count) (post : Post) (phase : Phase J) :
    Orderly count { call with
      asked := call.asked ++ [((call.start + call.asked.length) % count, post)], phase := phase } := by
  constructor
  · change (call.asked ++ [_]).map Prod.fst = _
    rw [map_append, length_append, length_singleton, range_succ, map_append, ← h.order]
    rfl
  · change (call.asked ++ [_]).length ≤ count
    rw [length_append]
    exact hroom
  · exact h.failback
  · exact h.probe

/-- The endpoints that a call has asked differ. -/
theorem Orderly.nodup_asked (h : call.Orderly count) : (call.asked.map Prod.fst).Nodup := by
  rw [h.order]
  refine Nodup.map_on (fun i hi j hj heq => ?_) nodup_range
  rw [mem_range] at hi hj
  have hmod : call.start + i ≡ call.start + j [MOD count] := heq
  exact Nat.ModEq.eq_of_lt_of_lt (Nat.ModEq.add_left_cancel' call.start hmod) (Nat.lt_of_lt_of_le hi h.most)
    (Nat.lt_of_lt_of_le hj h.most)

/-- The reply of the endpoint asked last leads to the next phase. -/
theorem AtPhase.after_reply (call : Call J) {before : List (Nat × Post)} (hcyclic : call.request.cyclic = true)
    (hasked : call.asked = before ++ [((call.start + before.length) % count, post)])
    (hbefore : ∀ ask ∈ before, (call.request.reply json ask.2).unavailable = true) :
    AtPhase json count shared log { call with
      phase := .after_reply count call.start before.length (call.request.reply json post) } := by
  have hnext (what : String) (hunavailable : (call.request.reply json post).unavailable = true) :
      AtPhase json count shared log { call with phase := .attempt call.start (before.length + 1) what } := by
    refine ⟨hcyclic, rfl, ?_, ?_⟩
    · change _ = call.asked.length
      rw [hasked, length_append, length_singleton]
    · change ∀ ask ∈ call.asked, _
      rw [hasked]
      intro ask hask
      rcases mem_append.mp hask with hearlier | hlast
      · exact hbefore ask hearlier
      · rw [mem_singleton.mp hlast]
        exact hunavailable
  cases hreply : call.request.reply json post with
  | result answer =>
    unfold Phase.after_reply
    by_cases hindex : (call.start + before.length) % count ≠ call.start
    · simp only [if_pos hindex]
      exact ⟨hcyclic, hindex, before, post, hasked, hbefore, hreply⟩
    · simp only [if_neg hindex]
      exact fun _ => .returned before _ post answer hasked hbefore hreply
  | rpc_error what code =>
    unfold Phase.after_reply
    by_cases hcode : endpoint_unavailable code = true
    · simp only [if_pos hcode]
      exact hnext what (by rw [hreply]; exact hcode)
    · simp only [if_neg hcode]
      exact fun _ => .rpc_error before _ post what code hasked hbefore hreply (Bool.eq_false_of_not_eq_true hcode)
  | connection_error what => exact hnext what (by rw [hreply]; rfl)

theorem probed_append {tip : Text} (h : Probed log tip) (notes : List Note) : Probed (log ++ notes) tip := by
  obtain ⟨id, hmem⟩ := h
  exact ⟨id, mem_append_left notes hmem⟩

theorem Orderly.set_phase (h : call.Orderly count) (phase : Phase J) : Orderly count { call with phase := phase } :=
  ⟨h.order, h.most, h.failback, h.probe⟩

theorem reply_template (h : call.request = .getblocktemplate_parsed) (post : Post) :
    call.request.reply json post = (fetch_template_from json post).map .block_template := by
  rw [h, Request.reply, if_pos rfl]

/-- What a step keeps of a call and its history; a call that is done stays as it is. -/
structure Grows (call after : Call J) : Prop where
  request : after.request = call.request
  asked : call.asked <+: after.asked
  probe : ∀ ask, call.probe = some ask → after.probe = some ask
  done : ∀ outcome, call.phase = .done outcome → after = call

/-- The call is not done. -/
def going : Phase J → Bool
  | .done _ => false
  | _ => true

theorem ne_done {before : Phase J} (hp : call.phase = before) (hgoing : going before = true) :
    ∀ outcome, call.phase ≠ .done outcome := by
  intro outcome hdone
  rw [← hp, hdone] at hgoing
  cases hgoing

theorem Grows.set_phase {phase before : Phase J} (hp : call.phase = before)
    (hgoing : going before = true) : call.Grows { call with phase := phase } :=
  ⟨rfl, prefix_rfl, fun _ h => h, fun outcome h => absurd h (ne_done hp hgoing outcome)⟩

/-- What a step of the call with number `id` does to the active index, with its notes. -/
inductive Moved (json : JsonReader J) (id : Nat) (shared : Shared) (log : List Note) (call : Call J) :
    Shared → List Note → Prop where
  | still (shared' : Shared) (hcurrent : shared'.current = shared.current) : Moved json id shared log call shared' []
  | probed (shared' : Shared) (tip : Text) (post : Post) (value : J) (hcurrent : shared'.current = shared.current)
      (hrequest : call.request = .maybe_failback tip) (hprobe : call.probe = some (0, post))
      (hreply : call_one json post = .result value) (htip : json.get_string value = some tip) :
      Moved json id shared log call shared' [.probed id tip]
  | changed (shared' : Shared) (hcurrent : shared'.current ≠ shared.current) (hcyclic : call.request.cyclic = true)
      (hjustified : Justified json log call shared'.current) :
      Moved json id shared log call shared' [.changed id shared.current shared'.current]

/-- All that a step of a call does. -/
structure Advanced (json : JsonReader J) (count id : Nat) (shared : Shared) (log : List Note) (call : Call J)
    (shared' : Shared) (call' : Call J) (notes : List Note) : Prop where
  inv : call'.Inv json count shared' (log ++ notes)
  grows : call.Grows call'
  moved : Moved json id shared log call' shared' notes
  body : shared'.gbt_body = shared.gbt_body ∨
    call.request = .getblocktemplate_parsed ∧ ∀ outcome, call.phase ≠ .done outcome
  tip : ∀ tip, shared'.failback_expected_tip = some tip → shared.failback_expected_tip = some tip ∨ Probed log tip

/-- A step that touches nothing the threads share. -/
theorem Advanced.local {call' : Call J} (hinv : call'.Inv json count shared (log ++ [])) (hgrows : call.Grows call') :
    Advanced json count id shared log call shared call' [] :=
  ⟨hinv, hgrows, .still shared rfl, .inl rfl, fun _ h => .inl h⟩

variable {shared' : Shared} {call' : Call J} {notes : List Note}

theorem not_cyclic_of_probe {tip : Text} (hrequest : call.request = .maybe_failback tip) :
    call.request.cyclic ≠ true := by
  rw [hrequest]
  exact Bool.false_ne_true

section Phases

variable (horderly : call.Orderly count) (hphase : call.AtPhase json count shared log)
  (hstep : call.step json count id shared post now = (shared', call', notes))
include horderly hphase hstep

open Call

theorem step_take_tip (hp : call.phase = .take_tip)
    (hshared : ∀ tip, shared.failback_expected_tip = some tip → Probed log tip) :
    Advanced json count id shared log call shared' call' notes := by
  simp only [AtPhase, step, hp] at hphase hstep
  obtain ⟨hrequest, hasked, hfailback⟩ := hphase
  cases htip : shared.failback_expected_tip with
  | none =>
    rw [htip] at hstep
    cases hstep
    exact ⟨⟨horderly.set_phase _, cyclic_of_template hrequest, hasked⟩, .set_phase hp rfl, .still _ rfl, .inl rfl,
      nofun⟩
  | some tip =>
    rw [htip] at hstep
    cases hstep
    exact ⟨⟨horderly.set_phase _, hrequest, hasked, hfailback, probed_append (hshared tip htip) _⟩,
      .set_phase hp rfl, .still _ rfl, .inl rfl, nofun⟩

variable {tip : Text} {start : Nat}

theorem step_check_active (hp : call.phase = .check_active tip) :
    Advanced json count id shared log call shared' call' notes := by
  simp only [AtPhase, step, hp] at hphase hstep
  obtain ⟨hrequest, hasked, hfailback, hprobed⟩ := hphase
  split at hstep
  · cases hstep
    exact .local ⟨horderly.set_phase _, cyclic_of_template hrequest, hasked⟩ (.set_phase hp rfl)
  · cases hstep
    exact .local ⟨horderly.set_phase _, hrequest, hasked, hfailback, probed_append hprobed _⟩ (.set_phase hp rfl)

theorem step_failback_post (hp : call.phase = .failback_post tip) :
    Advanced json count id shared log call shared' call' notes := by
  simp only [AtPhase, step, hp] at hphase hstep
  obtain ⟨hrequest, hasked, hfailback, hprobed⟩ := hphase
  have hgoing := ne_done hp rfl
  have hasking (phase : Phase J) :
      Orderly count { call with failback := call.failback ++ [(0, post)], phase := phase } ∧
      call.Grows { call with failback := call.failback ++ [(0, post)], phase := phase } := by
    refine ⟨⟨horderly.order, horderly.most, .inr ⟨post, ?_⟩, horderly.probe⟩, rfl, prefix_rfl, fun _ h => h,
      fun outcome h => absurd h (hgoing outcome)⟩
    change call.failback ++ [(0, post)] = _
    rw [hfailback]
    rfl
  cases post with
  | error what =>
    cases hstep
    exact .local ⟨(hasking _).1, cyclic_of_template hrequest, hasked⟩ (hasking _).2
  | ok response =>
    cases hstep
    refine ⟨⟨(hasking _).1, hrequest, hasked, ?_, probed_append hprobed _⟩, (hasking _).2, .still _ rfl,
      .inr ⟨hrequest, hgoing⟩, fun _ h => .inl h⟩
    change call.failback ++ [_] = _
    rw [hfailback]
    rfl

theorem step_failback_parse {http_status : Nat} (hp : call.phase = .failback_parse tip http_status) :
    Advanced json count id shared log call shared' call' notes := by
  simp only [AtPhase, step, hp] at hphase hstep
  obtain ⟨hrequest, hasked, hfailback, hprobed⟩ := hphase
  have hload : Advanced json count id shared log call shared { call with phase := .load } [] :=
    .local ⟨horderly.set_phase _, cyclic_of_template hrequest, hasked⟩ (.set_phase hp rfl)
  cases hreply : parse_template json http_status shared.gbt_body with
  | result block_template =>
    simp only [hreply] at hstep
    split at hstep
    · cases hstep
      exact hload
    · rename_i htip
      cases hstep
      exact .local ⟨horderly.set_phase _, hrequest, hasked, not_not.mp htip, probed_append hprobed _, _, hfailback,
        hreply⟩ (.set_phase hp rfl)
  | rpc_error what code =>
    rw [hreply] at hstep
    cases hstep
    exact hload
  | connection_error what =>
    rw [hreply] at hstep
    cases hstep
    exact hload

theorem step_failback_install {block_template : BlockTemplate}
    (hp : call.phase = .failback_install tip block_template) :
    Advanced json count id shared log call shared' call' notes := by
  simp only [AtPhase, step, hp] at hphase hstep
  obtain ⟨hrequest, hasked, rfl, hprobed, response, hfailback, hreply⟩ := hphase
  cases hstep
  refine ⟨⟨horderly.set_phase _, fun _ => .failed_back response block_template hrequest hasked hfailback hreply⟩,
    .set_phase hp rfl, ?_, .inl rfl, fun _ h => .inl h⟩
  unfold Note.change
  split
  · rename_i hzero
    exact .still _ hzero.symm
  · rename_i hbackup
    exact .changed { shared with current := 0 } (fun h => hbackup h.symm) (cyclic_of_template hrequest)
      (.failed_back block_template rfl hprobed)

theorem step_load (hp : call.phase = .load) : Advanced json count id shared log call shared' call' notes := by
  simp only [AtPhase, step, hp] at hphase hstep
  obtain ⟨hcyclic, hasked⟩ := hphase
  cases hstep
  refine .local ⟨⟨?_, horderly.most, horderly.failback, horderly.probe⟩, hcyclic, rfl, ?_, ?_⟩
    ⟨rfl, prefix_rfl, fun _ h => h, fun outcome h => absurd h (ne_done hp rfl outcome)⟩
  · change call.asked.map Prod.fst = (range call.asked.length).map _
    rw [hasked]
    rfl
  · change 0 = call.asked.length
    rw [hasked]
    rfl
  · change ∀ ask ∈ call.asked, _
    rw [hasked]
    exact nofun

theorem step_attempt {offset : Nat} {last_error : String} (hp : call.phase = .attempt start offset last_error) :
    Advanced json count id shared log call shared' call' notes := by
  simp only [AtPhase, step, hp] at hphase hstep
  obtain ⟨hcyclic, rfl, rfl, hall⟩ := hphase
  have hgoing := ne_done hp rfl
  by_cases hroom : call.asked.length < count
  · rw [if_pos hroom] at hstep
    let asked := call.asked ++ [((call.start + call.asked.length) % count, post)]
    have hgrows (phase : Phase J) : call.Grows { call with asked := asked, phase := phase } :=
      ⟨rfl, prefix_append _ _, fun _ h => h, fun outcome h => absurd h (hgoing outcome)⟩
    have hnext : AtPhase json count shared (log ++ []) { call with
        asked := asked
        phase := .after_reply count call.start call.asked.length (call.request.reply json post) } :=
      .after_reply { call with asked := asked } hcyclic rfl hall
    by_cases hrequest : call.request = .getblocktemplate_parsed
    · rw [if_pos hrequest] at hstep
      cases post with
      | error what =>
        cases hstep
        rw [reply_template hrequest (.error what)] at hnext
        exact .local ⟨horderly.ask hroom _ _, hnext⟩ (hgrows _)
      | ok response =>
        cases hstep
        exact ⟨⟨horderly.ask hroom _ _, hrequest, rfl, call.asked, rfl, rfl, hall⟩, hgrows _, .still _ rfl,
          .inr ⟨hrequest, hgoing⟩, fun _ h => .inl h⟩
    · rw [if_neg hrequest] at hstep
      cases hstep
      exact .local ⟨horderly.ask hroom post _, hnext⟩ (hgrows _)
  · rw [if_neg hroom] at hstep
    cases hstep
    refine .local ⟨horderly.set_phase _, fun _ => .unavailable _ ?_ hall⟩ (.set_phase hp rfl)
    exact Nat.le_antisymm horderly.most (Nat.le_of_not_lt hroom)

theorem step_parse {offset http_status : Nat} (hp : call.phase = .parse start offset http_status) :
    Advanced json count id shared log call shared' call' notes := by
  simp only [AtPhase, step, hp] at hphase hstep
  obtain ⟨hrequest, rfl, before, hasked, rfl, hbefore⟩ := hphase
  have hreply : (parse_template json http_status shared.gbt_body).map .block_template =
      call.request.reply json (.ok (http_status, shared.gbt_body)) :=
    (reply_template hrequest (.ok (http_status, shared.gbt_body))).symm
  rw [hreply] at hstep
  cases hstep
  exact .local ⟨horderly.set_phase _, .after_reply call (cyclic_of_template hrequest) hasked hbefore⟩
    (.set_phase hp rfl)

theorem step_install {index : Nat} {answer : Answer J} (hp : call.phase = .install start index answer) :
    Advanced json count id shared log call shared' call' notes := by
  simp only [AtPhase, step, hp] at hphase hstep
  obtain ⟨hcyclic, hindex, before, response, hasked, hbefore, hreply⟩ := hphase
  have hreturned (shared : Shared) (log : List Note) :
      Inv json count shared log { call with phase := .done (.returned answer) } :=
    ⟨horderly.set_phase _, fun _ => .returned before index response answer hasked hbefore hreply⟩
  split at hstep
  · rename_i hactive
    cases hstep
    refine ⟨hreturned _ _, .set_phase hp rfl, ?_, .inl rfl, fun _ h => .inl h⟩
    have hserved : Served json { call with phase := .done (.returned answer) } index := by
      refine ⟨response, answer, ?_, hreply⟩
      change _ ∈ call.asked
      rw [hasked]
      exact mem_append_right _ (mem_singleton_self _)
    rw [← hactive, Note.change, if_neg (hactive ▸ hindex.symm)]
    exact .changed { shared with current := index } (hactive ▸ hindex) hcyclic (.served index answer hserved rfl)
  · cases hstep
    exact .local (hreturned _ _) (.set_phase hp rfl)

theorem step_probe_check (hp : call.phase = .probe_check tip) :
    Advanced json count id shared log call shared' call' notes := by
  simp only [AtPhase, step, hp] at hphase hstep
  split at hstep
  · cases hstep
    exact .local ⟨horderly.set_phase _, fun hcyclic => absurd hcyclic (not_cyclic_of_probe hphase.1)⟩ (.set_phase hp rfl)
  · cases hstep
    exact .local ⟨horderly.set_phase _, hphase⟩ (.set_phase hp rfl)

theorem step_probe_time (hp : call.phase = .probe_time tip) :
    Advanced json count id shared log call shared' call' notes := by
  simp only [AtPhase, step, hp] at hphase hstep
  split at hstep
  · cases hstep
    exact .local ⟨horderly.set_phase _, fun hcyclic => absurd hcyclic (not_cyclic_of_probe hphase.1)⟩ (.set_phase hp rfl)
  · cases hstep
    exact .local ⟨horderly.set_phase _, hphase⟩ (.set_phase hp rfl)

theorem step_probe_store {stored : ℚ} (hp : call.phase = .probe_store tip stored) :
    Advanced json count id shared log call shared' call' notes := by
  simp only [AtPhase, step, hp] at hphase hstep
  cases hstep
  exact ⟨⟨horderly.set_phase _, hphase⟩, .set_phase hp rfl, .still _ rfl, .inl rfl, fun _ h => .inl h⟩

theorem step_probe_post (hp : call.phase = .probe_post tip) :
    Advanced json count id shared log call shared' call' notes := by
  simp only [AtPhase, step, hp] at hphase hstep
  obtain ⟨hrequest, hprobe⟩ := hphase
  have hprobing (phase : Phase J) : Orderly count { call with probe := some (0, post), phase := phase } ∧
      call.Grows { call with probe := some (0, post), phase := phase } := by
    refine ⟨⟨horderly.order, horderly.most, horderly.failback, fun ask h => ?_⟩, rfl, prefix_rfl,
      fun ask h => ?_, fun outcome h => absurd h (ne_done hp rfl outcome)⟩
    · rw [← Option.some.inj h]
    · rw [hprobe] at h
      cases h
  have hfinished : Advanced json count id shared log call shared
      { call with probe := some (0, post), phase := .done .finished } [] :=
    .local ⟨(hprobing _).1, fun hcyclic => absurd hcyclic (not_cyclic_of_probe hrequest)⟩ (hprobing _).2
  cases hreply : call_one json post with
  | result value =>
    simp only [hreply] at hstep
    split at hstep
    · rename_i htip
      cases hstep
      refine ⟨⟨(hprobing _).1, hrequest, id, ?_⟩, (hprobing _).2, .probed _ tip post value rfl hrequest rfl hreply htip,
        .inl rfl, fun _ h => .inl h⟩
      exact mem_append_right _ (mem_singleton_self _)
    · cases hstep
      exact hfinished
  | rpc_error what code =>
    rw [hreply] at hstep
    cases hstep
    exact hfinished
  | connection_error what =>
    rw [hreply] at hstep
    cases hstep
    exact hfinished

theorem step_probe_schedule (hp : call.phase = .probe_schedule tip) :
    Advanced json count id shared log call shared' call' notes := by
  simp only [AtPhase, step, hp] at hphase hstep
  obtain ⟨hrequest, hprobed⟩ := hphase
  cases hstep
  refine ⟨⟨horderly.set_phase _, fun hcyclic => absurd hcyclic (not_cyclic_of_probe hrequest)⟩, .set_phase hp rfl, .still _ rfl, .inl rfl, ?_⟩
  intro tip' htip'
  rw [← Option.some.inj htip']
  exact .inr hprobed

theorem step_submit {replies : List SubmitReply} (hp : call.phase = .submit replies) :
    Advanced json count id shared log call shared' call' notes := by
  simp only [AtPhase, step, hp] at hphase hstep
  split at hstep
  · cases hstep
    exact .local ⟨horderly.set_phase _, hphase⟩ (.set_phase hp rfl)
  · cases hstep
    refine .local ⟨horderly.set_phase _, fun hcyclic => ?_⟩ (.set_phase hp rfl)
    rw [hphase] at hcyclic
    cases hcyclic

theorem step_done {outcome : Outcome J} (hp : call.phase = .done outcome) :
    Advanced json count id shared log call shared' call' notes := by
  have hsame : (shared, call, ([] : List Note)) = (shared', call', notes) := by
    rw [← hstep, step]
    simp only [hp]
  cases hsame
  rw [← append_nil log] at hphase
  exact .local ⟨horderly, hphase⟩ ⟨rfl, prefix_rfl, fun _ h => h, fun _ _ => rfl⟩

end Phases

/-- A step that changes the active index says so. -/
theorem step_noted (hstep : call.step json count id shared post now = (shared', call', notes))
    (hchange : shared'.current ≠ shared.current) : notes = [.changed id shared.current shared'.current] := by
  have hnote {before after : Nat} (hne : after ≠ before) : Note.change id before after = [.changed id before after] :=
    if_neg (Ne.symm hne)
  unfold Call.step at hstep
  -- all phases but the exchange of a failback and the compare-and-swap leave the index alone
  repeat' split at hstep
  all_goals cases hstep
  all_goals first
    | exact absurd rfl hchange
    | exact hnote hchange
    | (rename_i hactive; exact hactive ▸ hnote hchange)

/-- All that a step of a call in order does. -/
theorem Inv.step (h : call.Inv json count shared log)
    (hshared : ∀ tip, shared.failback_expected_tip = some tip → Probed log tip)
    (hstep : call.step json count id shared post now = (shared', call', notes)) :
    Advanced json count id shared log call shared' call' notes := by
  obtain ⟨horderly, hphase⟩ := h
  cases hp : call.phase with
  | take_tip => exact step_take_tip horderly hphase hstep hp hshared
  | check_active tip => exact step_check_active horderly hphase hstep hp
  | failback_post tip => exact step_failback_post horderly hphase hstep hp
  | failback_parse tip http_status => exact step_failback_parse horderly hphase hstep hp
  | failback_install tip block_template => exact step_failback_install horderly hphase hstep hp
  | load => exact step_load horderly hphase hstep hp
  | attempt start offset last_error => exact step_attempt horderly hphase hstep hp
  | parse start offset http_status => exact step_parse horderly hphase hstep hp
  | install start index answer => exact step_install horderly hphase hstep hp
  | probe_check tip => exact step_probe_check horderly hphase hstep hp
  | probe_time tip => exact step_probe_time horderly hphase hstep hp
  | probe_store tip stored => exact step_probe_store horderly hphase hstep hp
  | probe_post tip => exact step_probe_post horderly hphase hstep hp
  | probe_schedule tip => exact step_probe_schedule horderly hphase hstep hp
  | submit replies => exact step_submit horderly hphase hstep hp
  | done outcome => exact step_done horderly hphase hstep hp

end Call

/-- The call that changed the active index last, with what it changed it to. -/
def installed (log : List Note) : Option (Nat × Nat) :=
  log.foldl (fun last note => match note with
    | .changed call _ after => some (call, after)
    | .probed _ _ => last) none

/-- A call of `getblocktemplate_parsed` that has not ended. -/
def Call.Fetching (call : Call J) : Prop :=
  call.request = .getblocktemplate_parsed ∧ ∀ outcome, call.phase ≠ .done outcome

namespace RpcClient

/-- What the log says of the active index: it is 0 or an endpoint that answered the call that
installed it, each change has its reason in the call that made it, and each probe its call. -/
structure History (json : JsonReader J) (current : Nat) (calls : List (Call J)) (log : List Note) : Prop where
  active : installed log = none ∧ current = 0 ∨
    ∃ id call, installed log = some (id, current) ∧ calls[id]? = some call ∧ (current = 0 ∨ call.Served json current)
  changed : ∀ earlier id before after later, log = earlier ++ .changed id before after :: later →
    ∃ call, calls[id]? = some call ∧ call.request.cyclic = true ∧ Justified json earlier call after
  probed : ∀ id tip, .probed id tip ∈ log → ∃ call post value, calls[id]? = some call ∧
    call.request = .maybe_failback tip ∧ call.probe = some (0, post) ∧ call_one json post = .result value ∧
    json.get_string value = some tip

/-- What the threads' calls have done to the endpoints and to the active index. -/
structure Traced (json : JsonReader J) (count : Nat) (client : RpcClient J) : Prop where
  orderly : ∀ call ∈ client.calls, call.Orderly count
  distinct : ∀ call ∈ client.calls, (call.asked.map Prod.fst).Nodup
  settled : ∀ call ∈ client.calls, call.request.cyclic = true →
    ∀ outcome, call.phase = .done outcome → call.Settled json count outcome
  history : History json client.shared.current client.calls client.log
  quiet : ∀ (id : Nat) (call : Call J) (before after : Nat), client.calls[id]? = some call →
    call.request = .submitblock ∨ (∃ what, call.phase = .done (.unavailable what)) →
    .changed id before after ∉ client.log
  noted : ∀ event, (client.step json count event).shared.current ≠ client.shared.current →
    ∃ id post now, event = .advance id post now ∧ (client.step json count event).log =
      client.log ++ [.changed id client.shared.current (client.step json count event).shared.current]

/-- One template is fetched at a time, as the buffer for the response asks for. -/
def Alone (client : RpcClient J) (event : Event) : Prop :=
  event = .start .getblocktemplate_parsed → ∀ call ∈ client.calls, ¬ call.Fetching

structure Inv (json : JsonReader J) (count : Nat) (client : RpcClient J) : Prop where
  calls : ∀ (id : Nat) (call : Call J), client.calls[id]? = some call → call.Inv json count client.shared client.log
  tip : ∀ tip, client.shared.failback_expected_tip = some tip → Probed client.log tip
  single : ∀ (i j : Nat) (a b : Call J), client.calls[i]? = some a → client.calls[j]? = some b →
    a.Fetching → b.Fetching → i = j
  history : History json client.shared.current client.calls client.log

variable {json : JsonReader J} {count : Nat} {client : RpcClient J}

theorem inv_init : Inv json count ({} : RpcClient J) := by
  refine ⟨fun id call hcall => ?_, fun tip htip => ?_, fun i j a b ha => ?_, .inl ⟨rfl, rfl⟩,
    fun earlier id before after later hlog => ?_, fun id tip hmem => ?_⟩
  · exact absurd hcall (by simp)
  · exact absurd htip (by simp)
  · exact absurd ha (by simp)
  · exact absurd hlog (by simp)
  · exact absurd hmem not_mem_nil

end RpcClient

namespace Call

variable {json : JsonReader J} {count : Nat} {shared shared' : Shared} {log log' : List Note} {call after : Call J}

/-- Only a fetch depends on the buffer. -/
theorem Inv.mono (h : call.Inv json count shared log)
    (hbody : shared'.gbt_body = shared.gbt_body ∨ ¬ call.Fetching) (hlog : ∀ tip, Probed log tip → Probed log' tip) :
    call.Inv json count shared' log' := by
  refine ⟨h.orderly, ?_⟩
  have hphase := h.phase
  have hsame (hrequest : call.request = .getblocktemplate_parsed) (hgoing : ∀ outcome, call.phase ≠ .done outcome) :
      shared'.gbt_body = shared.gbt_body := by
    rcases hbody with hbody | hnot
    · exact hbody
    · exact absurd ⟨hrequest, hgoing⟩ hnot
  unfold AtPhase at hphase ⊢
  cases hp : call.phase with
  | check_active tip =>
    simp only [hp] at hphase ⊢
    exact ⟨hphase.1, hphase.2.1, hphase.2.2.1, hlog tip hphase.2.2.2⟩
  | failback_post tip =>
    simp only [hp] at hphase ⊢
    exact ⟨hphase.1, hphase.2.1, hphase.2.2.1, hlog tip hphase.2.2.2⟩
  | failback_parse tip http_status =>
    simp only [hp] at hphase ⊢
    rw [hsame hphase.1 (ne_done hp rfl)]
    exact ⟨hphase.1, hphase.2.1, hphase.2.2.1, hlog tip hphase.2.2.2⟩
  | failback_install tip block_template =>
    simp only [hp] at hphase ⊢
    obtain ⟨hrequest, hasked, htip, hprobed, hfailback⟩ := hphase
    exact ⟨hrequest, hasked, htip, hlog tip hprobed, hfailback⟩
  | parse start offset http_status =>
    simp only [hp] at hphase ⊢
    rw [hsame hphase.1 (ne_done hp rfl)]
    exact hphase
  | probe_schedule tip =>
    simp only [hp] at hphase ⊢
    exact ⟨hphase.1, hlog tip hphase.2⟩
  | _ =>
    simp only [hp] at hphase ⊢
    exact hphase

theorem Grows.refl (call : Call J) : call.Grows call :=
  ⟨rfl, prefix_rfl, fun _ h => h, fun _ _ => rfl⟩

theorem Grows.served (h : call.Grows after) {index : Nat} (hserved : call.Served json index) :
    after.Served json index := by
  obtain ⟨post, answer, hmem, hreply⟩ := hserved
  exact ⟨post, answer, h.asked.subset hmem, h.request ▸ hreply⟩

theorem Grows.justified (h : call.Grows after) {earlier : List Note} {index : Nat}
    (hjustified : Justified json earlier call index) : Justified json earlier after index := by
  have hsame : after = call := by
    cases hjustified with
    | served _ answer _ hphase => exact h.done _ hphase
    | failed_back block_template hphase _ => exact h.done _ hphase
  rw [hsame]
  exact hjustified

theorem Grows.fetching (h : call.Grows after) (hfetching : after.Fetching) : call.Fetching := by
  refine ⟨h.request ▸ hfetching.1, fun outcome hdone => ?_⟩
  rw [h.done outcome hdone] at hfetching
  exact hfetching.2 outcome hdone

end Call

/-- A note at the end is the last of a log or one behind it. -/
theorem append_singleton_cases {log earlier later : List Note} {note found : Note}
    (h : log ++ [note] = earlier ++ found :: later) :
    (log = earlier ∧ note = found) ∨ ∃ rest, log = earlier ++ found :: rest := by
  rcases eq_nil_or_concat later with rfl | ⟨rest, last, rfl⟩
  · obtain ⟨hlog, hnote⟩ := append_inj' h rfl
    exact .inl ⟨hlog, singleton_inj.mp hnote⟩
  · rw [concat_eq_append, ← cons_append, ← append_assoc] at h
    exact .inr ⟨rest, (append_inj' h rfl).1⟩

namespace RpcClient

variable {json : JsonReader J} {count : Nat} {client : RpcClient J}

/-- Calls that go on keep the history. -/
theorem History.grow {current : Nat} {calls calls' : List (Call J)} {log : List Note}
    (h : History json current calls log)
    (hkept : ∀ {id : Nat} {call : Call J}, calls[id]? = some call → ∃ after, calls'[id]? = some after ∧ call.Grows after) :
    History json current calls' log := by
  refine ⟨?_, fun earlier id before after later hlog => ?_, fun id tip hmem => ?_⟩
  · rcases h.active with hnone | ⟨id, call, hinstalled, hcall, hserved⟩
    · exact .inl hnone
    · obtain ⟨call', hcall', hgrows⟩ := hkept hcall
      exact .inr ⟨id, call', hinstalled, hcall', hserved.imp_right hgrows.served⟩
  · obtain ⟨call, hcall, hcyclic, hjustified⟩ := h.changed earlier id before after later hlog
    obtain ⟨call', hcall', hgrows⟩ := hkept hcall
    exact ⟨call', hcall', hgrows.request ▸ hcyclic, hgrows.justified hjustified⟩
  · obtain ⟨call, post, value, hcall, hrequest, hprobe, hreply⟩ := h.probed id tip hmem
    obtain ⟨call', hcall', hgrows⟩ := hkept hcall
    exact ⟨call', post, value, hcall', hgrows.request.trans hrequest, hgrows.probe _ hprobe, hreply⟩

theorem installed_append (log : List Note) (note : Note) : installed (log ++ [note]) =
    match note with
    | .changed call _ after => some (call, after)
    | .probed _ _ => installed log := by
  unfold installed
  rw [foldl_append]
  rfl

/-- The notes of a step go on with the history. -/
theorem History.note {shared shared' : Shared} {calls : List (Call J)} {log notes : List Note} {id : Nat}
    {call : Call J} (h : History json shared.current calls log) (hcall : calls[id]? = some call)
    (hmoved : Call.Moved json id shared log call shared' notes) :
    History json shared'.current calls (log ++ notes) := by
  cases hmoved with
  | still hcurrent =>
    rw [hcurrent, append_nil]
    exact h
  | probed tip post value hcurrent hrequest hprobe hreply htip =>
    rw [hcurrent]
    refine ⟨?_, fun earlier i before after later hlog => ?_, fun i tip' hmem => ?_⟩
    · rw [installed_append]
      exact h.active
    · rcases append_singleton_cases hlog with ⟨-, hnote⟩ | ⟨rest, hlog⟩
      · cases hnote
      · exact h.changed earlier i before after rest hlog
    · rcases mem_append.mp hmem with hmem | hmem
      · exact h.probed i tip' hmem
      · cases mem_singleton.mp hmem
        exact ⟨call, post, value, hcall, hrequest, hprobe, hreply, htip⟩
  | changed hcurrent hcyclic hjustified =>
    refine ⟨?_, fun earlier i before after later hlog => ?_, fun i tip hmem => ?_⟩
    · rw [installed_append]
      exact .inr ⟨id, call, rfl, hcall, hjustified.zero_or_served⟩
    · rcases append_singleton_cases hlog with ⟨rfl, hnote⟩ | ⟨rest, hlog⟩
      · cases hnote
        exact ⟨call, hcall, hcyclic, hjustified⟩
      · exact h.changed earlier i before after rest hlog
    · rcases mem_append.mp hmem with hmem | hmem
      · exact h.probed i tip hmem
      · cases mem_singleton.mp hmem

/-- A call that is new has asked nothing. -/
theorem first_inv (request : Request) (shared : Shared) (log : List Note) :
    Call.Inv json count shared log ⟨request, request.first_phase, 0, [], [], none⟩ := by
  refine ⟨⟨rfl, Nat.zero_le _, .inl rfl, nofun⟩, ?_⟩
  cases request with
  | call_payload => exact ⟨rfl, rfl⟩
  | getblocktemplate_parsed => exact ⟨rfl, rfl, rfl⟩
  | maybe_failback tip => exact ⟨rfl, rfl⟩
  | submitblock => rfl

theorem Inv.start (h : client.Inv json count) {request : Request} (halone : client.Alone (.start request)) :
    (client.step json count (.start request)).Inv json count := by
  have hkept {id : Nat} {call : Call J} (hcall : client.calls[id]? = some call) :
      (client.step json count (.start request)).calls[id]? = some call := by
    obtain ⟨hid, -⟩ := List.getElem?_eq_some_iff.mp hcall
    exact (getElem?_append_left hid).trans hcall
  have hcases {id : Nat} {call : Call J} (hcall : (client.step json count (.start request)).calls[id]? = some call) :
      client.calls[id]? = some call ∨
        id = client.calls.length ∧ call = ⟨request, request.first_phase, 0, [], [], none⟩ := by
    rcases Nat.lt_or_ge id client.calls.length with hid | hid
    · exact .inl ((getElem?_append_left hid).symm.trans hcall)
    · obtain ⟨hbound, -⟩ := List.getElem?_eq_some_iff.mp hcall
      have hlength : id < client.calls.length + 1 := by rwa [← length_concat, concat_eq_append]
      obtain rfl : id = client.calls.length := by omega
      exact .inr ⟨rfl, Option.some.inj (hcall.symm.trans getElem?_concat_length)⟩
  have hother {id : Nat} {call : Call J} (hcall : client.calls[id]? = some call)
      (hrequest : request = .getblocktemplate_parsed) : ¬ call.Fetching :=
    halone (by rw [hrequest]) call (mem_of_getElem? hcall)
  refine ⟨fun id call hcall => ?_, h.tip, fun i j a b ha hb hfa hfb => ?_,
    h.history.grow fun hcall => ⟨_, hkept hcall, .refl _⟩⟩
  · rcases hcases hcall with hcall | ⟨-, rfl⟩
    · exact h.calls id call hcall
    · exact first_inv request _ _
  · rcases hcases ha with ha | ⟨hi, rfl⟩
    · rcases hcases hb with hb | ⟨hj, rfl⟩
      · exact h.single i j a b ha hb hfa hfb
      · exact absurd hfa (hother ha hfb.1)
    · rcases hcases hb with hb | ⟨hj, rfl⟩
      · exact absurd hfb (hother hb hfa.1)
      · rw [hi, hj]

theorem Inv.advance (h : client.Inv json count) {id : Nat} {call call' : Call J} {shared' : Shared}
    {notes : List Note} (hcall : client.calls[id]? = some call)
    (hadvanced : call.Advanced json count id client.shared client.log shared' call' notes) :
    Inv json count ⟨shared', client.calls.set id call', client.log ++ notes⟩ := by
  have hid : id < client.calls.length := (List.getElem?_eq_some_iff.mp hcall).1
  have hnew : (client.calls.set id call')[id]? = some call' := getElem?_set_self hid
  have hkept {i : Nat} {a : Call J} (ha : client.calls[i]? = some a) :
      ∃ a', (client.calls.set id call')[i]? = some a' ∧ a.Grows a' := by
    by_cases hi : i = id
    · subst hi
      obtain rfl := Option.some.inj (hcall.symm.trans ha)
      exact ⟨call', hnew, hadvanced.grows⟩
    · exact ⟨a, (getElem?_set_ne (Ne.symm hi)).trans ha, .refl a⟩
  have hcases {i : Nat} {a : Call J} (ha : (client.calls.set id call')[i]? = some a) :
      (i = id ∧ a = call') ∨ (i ≠ id ∧ client.calls[i]? = some a) := by
    by_cases hi : i = id
    · subst hi
      exact .inl ⟨rfl, Option.some.inj (ha.symm.trans hnew)⟩
    · exact .inr ⟨hi, (getElem?_set_ne (Ne.symm hi)).symm.trans ha⟩
  have hlog (tip : Text) (hprobed : Probed client.log tip) : Probed (client.log ++ notes) tip :=
    Call.probed_append hprobed notes
  refine ⟨fun i a ha => ?_, fun tip htip => ?_, fun i j a b ha hb hfa hfb => ?_,
    (h.history.grow hkept).note hnew hadvanced.moved⟩
  · rcases hcases ha with ⟨-, rfl⟩ | ⟨hi, ha⟩
    · exact hadvanced.inv
    · refine (h.calls i a ha).mono ?_ hlog
      rcases hadvanced.body with hbody | hfetching
      · exact .inl hbody
      · exact .inr fun hother => hi (h.single i id a call ha hcall hother hfetching)
  · rcases hadvanced.tip tip htip with hbefore | hprobed
    · exact hlog tip (h.tip tip hbefore)
    · exact hlog tip hprobed
  · have hbefore {i : Nat} {a : Call J} (ha : (client.calls.set id call')[i]? = some a) (hfa : a.Fetching) :
        ∃ a', client.calls[i]? = some a' ∧ a'.Fetching := by
      rcases hcases ha with ⟨rfl, rfl⟩ | ⟨-, ha⟩
      · exact ⟨call, hcall, hadvanced.grows.fetching hfa⟩
      · exact ⟨a, ha, hfa⟩
    obtain ⟨a', ha', hfa'⟩ := hbefore ha hfa
    obtain ⟨b', hb', hfb'⟩ := hbefore hb hfb
    exact h.single i j a' b' ha' hb' hfa' hfb'

/-- The call that takes a step, if there is one. -/
theorem step_advance_cases (json : JsonReader J) (count : Nat) (client : RpcClient J) (id : Nat) (post : Post) (now : ℚ) :
    client.step json count (.advance id post now) = client ∨
    ∃ call shared' call' notes, client.calls[id]? = some call ∧
      call.step json count id client.shared post now = (shared', call', notes) ∧
      client.step json count (.advance id post now) =
        ⟨shared', client.calls.set id call', client.log ++ notes⟩ := by
  cases hcall : client.calls[id]? with
  | none =>
    refine .inl ?_
    simp only [RpcClient.step, hcall]
  | some call =>
    let taken := call.step json count id client.shared post now
    refine .inr ⟨call, taken.1, taken.2.1, taken.2.2, rfl, rfl, ?_⟩
    simp only [RpcClient.step, hcall, taken]

theorem Inv.step (h : client.Inv json count) {event : Event} (halone : client.Alone event) :
    (client.step json count event).Inv json count := by
  cases event with
  | start request => exact h.start halone
  | advance id post now =>
    rcases step_advance_cases json count client id post now with
      hnone | ⟨call, shared', call', notes, hcall, hstep, heq⟩
    · rw [hnone]
      exact h
    · rw [heq]
      exact h.advance hcall ((h.calls id call hcall).step h.tip hstep)

/-- A step that changes the active index is noted, with the call that takes it. -/
theorem step_noted (json : JsonReader J) (count : Nat) (client : RpcClient J) (event : Event)
    (hchange : (client.step json count event).shared.current ≠ client.shared.current) :
    ∃ id post now, event = .advance id post now ∧ (client.step json count event).log =
      client.log ++ [.changed id client.shared.current (client.step json count event).shared.current] := by
  cases event with
  | start request => exact absurd rfl hchange
  | advance id post now =>
    rcases step_advance_cases json count client id post now with
      hnone | ⟨call, shared', call', notes, -, hstep, heq⟩
    · rw [hnone] at hchange
      exact absurd rfl hchange
    · rw [heq] at hchange ⊢
      rw [Call.step_noted hstep hchange]
      exact ⟨id, post, now, rfl, rfl⟩

theorem Inv.traced (h : client.Inv json count) : client.Traced json count := by
  have hinv {call : Call J} (hmem : call ∈ client.calls) : call.Inv json count client.shared client.log := by
    obtain ⟨id, hid⟩ := mem_iff_getElem?.mp hmem
    exact h.calls id call hid
  refine ⟨fun call hmem => (hinv hmem).orderly, fun call hmem => (hinv hmem).orderly.nodup_asked,
    fun call hmem hcyclic outcome hdone => ?_, h.history, fun id call before after hcall hquiet hmem => ?_,
    step_noted json count client⟩
  · have hphase := (hinv hmem).phase
    unfold Call.AtPhase at hphase
    rw [hdone] at hphase
    exact hphase hcyclic
  · obtain ⟨earlier, later, hlog⟩ := append_of_mem hmem
    obtain ⟨found, hfound, hcyclic, hjustified⟩ := h.history.changed earlier id before after later hlog
    obtain rfl := Option.some.inj (hcall.symm.trans hfound)
    rcases hquiet with hsubmit | ⟨what, hunavailable⟩
    · rw [hsubmit] at hcyclic
      cases hcyclic
    · cases hjustified with
      | served _ answer _ hphase => cases hphase.symm.trans hunavailable
      | failed_back block_template hphase _ => cases hphase.symm.trans hunavailable

/-- While templates are fetched one at a time: every call asks the endpoints in turn from the active
index it read and ends as the first one that is available decides; the active index is 0 or an
endpoint that answered the call that installed it; and no change of it is without its reason. -/
theorem active_index_traced (json : JsonReader J) (count : Nat) {events : List Event}
    (halone : Transition.Guarded (RpcClient.step json count) Alone {} events) :
    Traced json count (Transition.run (RpcClient.step json count) {} events) :=
  (Transition.run_invariant (fun _ _ h halone => h.step halone) inv_init halone).traced

end RpcClient

namespace Overlap

/-- A reader of two bodies, one of which is a template. -/
def json : JsonReader Unit where
  read _ := none
  read_template body :=
    if body = ['g'] then
      .ok ⟨some { height := some 1, version := some 1, curtime := some 1, bits := some "207fffff".toList,
                  coinbasevalue := some 0, previousblockhash := some [] }, none⟩
    else .error ""
  get_string _ := none
  submitblock_rejection _ := none

/-- Of two fetches, the second gets a template between the response and the parsing of the first. -/
def events : List Event :=
  let down : Post := .error ""
  [.start .getblocktemplate_parsed, .start .getblocktemplate_parsed,
    .advance 0 down 0, .advance 0 down 0, .advance 1 down 0, .advance 1 down 0,
    .advance 0 down 0, .advance 0 (.ok (200, ['x'])) 0, .advance 1 (.ok (200, ['g'])) 0,
    .advance 0 down 0, .advance 0 down 0]

end Overlap

/-- Fetches that overlap share the buffer: a call to which every endpoint it asked was unavailable
returns a template and installs an endpoint. -/
theorem overlapping_fetches_mixed :
    let client := Transition.run (RpcClient.step Overlap.json 2) {} Overlap.events
    client.shared.current = 1 ∧ installed client.log = some (0, 1) ∧
      (client.calls[0]?.map fun call =>
        call.asked.all fun ask => (call.request.reply Overlap.json ask.2).unavailable) = some true := by
  decide +kernel

/-- A run in which endpoint 1 serves a template that endpoint 0 cannot. -/
theorem active_index_traced_failover :
    let events : List Event := [.start .getblocktemplate_parsed, .advance 0 (.error "") 0, .advance 0 (.error "") 0,
      .advance 0 (.error "") 0, .advance 0 (.ok (200, ['g'])) 0, .advance 0 (.error "") 0, .advance 0 (.error "") 0]
    let client := Transition.run (RpcClient.step Overlap.json 2) {} events
    client.shared.current = 1 ∧ RpcClient.Traced Overlap.json 2 client := by
  intro events client
  have halone : Transition.Guarded (RpcClient.step Overlap.json 2) RpcClient.Alone {} events := by
    refine ⟨fun _ call hmem => absurd hmem not_mem_nil, ?_⟩
    exact ⟨nofun, nofun, nofun, nofun, nofun, nofun, trivial⟩
  exact ⟨by decide, RpcClient.active_index_traced Overlap.json 2 halone⟩

end erikslund.bitcoin.rpc
