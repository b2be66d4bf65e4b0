import SoloPool.Lib.Transducer

/-! Machines that collect a known number of tokens, act on them, and go on with the next
phase: fed one token at a time, or copying as many as are there. -/

namespace Collector

open List

variable {P τ α ε : Type} {need : P → Nat}

/-- A phase with what it has collected; a phase that has all it needs is never kept. -/
structure State (τ : Type) (need : P → Nat) where
  phase : P
  collected : List τ
  room : collected.length < need phase

variable (hneed : ∀ phase, 0 < need phase) (complete : P → List τ → List α × Except ε P)

def start (phase : P) : State τ need := ⟨phase, [], hneed phase⟩

def advance (result : List α × Except ε P) : List α × Except ε (State τ need) :=
  (result.1, result.2.map (start hneed))

def feed (state : State τ need) (token : τ) : List α × Except ε (State τ need) :=
  if h : (state.collected ++ [token]).length < need state.phase then ([], .ok ⟨state.phase, state.collected ++ [token], h⟩)
  else advance hneed (complete state.phase (state.collected ++ [token]))

/-- Copy as many tokens as the phase still needs, act once it has them all, and go on
with the rest. -/
def consume (state : State τ need) (tokens : List τ) (out : List α) : List α × Except ε (State τ need) :=
  if _ : tokens = [] then (out, .ok state)
  else
    let count := min (need state.phase - state.collected.length) tokens.length
    let collected := state.collected ++ tokens.take count
    if hshort : collected.length < need state.phase then
      consume ⟨state.phase, collected, hshort⟩ (tokens.drop count) out
    else
      match complete state.phase collected with
      | (more, .error error) => (out ++ more, .error error)
      | (more, .ok phase) => consume (start hneed phase) (tokens.drop count) (out ++ more)
termination_by tokens.length
decreasing_by
  all_goals
    have hpositive : 0 < tokens.length := length_pos_iff.mpr ‹_›
    have hroom := state.room
    simp only [length_drop]
    omega

open Transducer

/-- Tokens that do not fill the phase are kept. -/
theorem run_short (state : State τ need) {tokens : List τ}
    (hshort : (state.collected ++ tokens).length < need state.phase) :
    run (feed hneed complete) state tokens = ([], .ok ⟨state.phase, state.collected ++ tokens, hshort⟩) := by
  induction tokens generalizing state with
  | nil => simp only [append_nil, run_nil]
  | cons token tokens ih =>
    have hsplit : state.collected ++ token :: tokens = state.collected ++ [token] ++ tokens := by simp
    have hnext : (state.collected ++ [token]).length < need state.phase := by
      simp only [length_append, length_cons, length_nil] at hshort ⊢
      omega
    rw [run_cons, feed, dif_pos hnext, resume_ok,
      ih ⟨state.phase, state.collected ++ [token], hnext⟩ (hsplit ▸ hshort)]
    simp only [nil_append, append_assoc, singleton_append]

/-- The token that fills the phase completes it. -/
theorem run_whole (state : State τ need) {tokens : List τ}
    (hwhole : (state.collected ++ tokens).length = need state.phase) :
    run (feed hneed complete) state tokens =
      advance hneed (complete state.phase (state.collected ++ tokens)) := by
  obtain rfl | ⟨before, last, rfl⟩ := eq_nil_or_concat tokens
  · have hroom := state.room
    rw [append_nil] at hwhole
    omega
  · have hshort : (state.collected ++ before).length < need state.phase := by
      simp only [concat_eq_append, length_append, length_cons, length_nil] at hwhole ⊢
      omega
    have hlast : ¬ (state.collected ++ before ++ [last]).length < need state.phase := by
      simp only [concat_eq_append, ← append_assoc] at hwhole
      omega
    rw [concat_eq_append, run_append, run_short hneed complete state hshort, resume_ok,
      run_singleton, feed, dif_neg hlast, nil_append, append_assoc]

theorem filled (state : State τ need) {tokens : List τ}
    (hfull : ¬ (state.collected ++ tokens.take (min (need state.phase - state.collected.length) tokens.length)).length <
      need state.phase) :
    (state.collected ++ tokens.take (min (need state.phase - state.collected.length) tokens.length)).length =
      need state.phase := by
  have hroom := state.room
  simp only [length_append, length_take] at hfull ⊢
  omega

/-- Copying is feeding token by token. -/
theorem consume_eq (state : State τ need) (tokens : List τ) (out : List α) :
    consume hneed complete state tokens out =
      (out ++ (run (feed hneed complete) state tokens).1,
        (run (feed hneed complete) state tokens).2) := by
  fun_induction consume hneed complete state tokens out with
  | case1 state out => simp only [run_nil, append_nil]
  | case2 state tokens out hsome count collected hshort ih =>
    rw [ih, run_cut _ state count, run_short hneed complete state hshort, resume_ok,
      nil_append]
  | case3 state tokens out hsome count collected hfull more error hdone =>
    have hwhole := filled state hfull
    simp only [collected] at hdone
    rw [run_cut _ state count, run_whole hneed complete state hwhole, hdone]
    rfl
  | case4 state tokens out hsome count collected hfull more phase hdone ih =>
    have hwhole := filled state hfull
    simp only [collected] at hdone
    rw [ih, run_cut _ state count, run_whole hneed complete state hwhole, hdone]
    simp only [advance, Except.map, resume_ok, append_assoc]

end Collector
