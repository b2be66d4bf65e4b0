import Mathlib.Data.List.Basic

/-! Machines that turn a stream of tokens into outputs, and may fail for good. -/

namespace Transducer

open List

variable {S τ α ε : Type} (step : S → τ → List α × Except ε S)

/-- Feed tokens until they are used up or the machine fails. -/
def run (s : S) : List τ → List α × Except ε S
  | [] => ([], .ok s)
  | token :: tokens =>
    match step s token with
    | (out, .error error) => (out, .error error)
    | (out, .ok s') => (out ++ (run s' tokens).1, (run s' tokens).2)

/-- Feed what comes next to a machine that may have failed. -/
def resume (tokens : List τ) (so_far : List α × Except ε S) : List α × Except ε S :=
  match so_far with
  | (out, .error error) => (out, .error error)
  | (out, .ok s) => (out ++ (run step s tokens).1, (run step s tokens).2)

@[simp] theorem run_nil (s : S) : run step s [] = ([], .ok s) := rfl

theorem run_cons (s : S) (token : τ) (tokens : List τ) :
    run step s (token :: tokens) = resume step tokens (step s token) := by
  rw [run]
  rcases step s token with ⟨out, _ | s'⟩ <;> rfl

theorem run_singleton (s : S) (token : τ) : run step s [token] = step s token := by
  rw [run_cons]
  rcases step s token with ⟨out, _ | s'⟩
  · rfl
  · rw [resume, run_nil, append_nil]

@[simp] theorem resume_nil (so_far : List α × Except ε S) : resume step [] so_far = so_far := by
  rcases so_far with ⟨out, _ | s⟩
  · rfl
  · rw [resume, run_nil, append_nil]

theorem resume_ok (tokens : List τ) (out : List α) (s : S) :
    resume step tokens (out, .ok s) = (out ++ (run step s tokens).1, (run step s tokens).2) := rfl

/-- A prefix of the outputs is the same on both sides. -/
theorem resume_out (tokens : List τ) (out : List α) (so_far : List α × Except ε S) :
    resume step tokens (out ++ so_far.1, so_far.2) =
      (out ++ (resume step tokens so_far).1, (resume step tokens so_far).2) := by
  rcases so_far with ⟨out', _ | s⟩
  · rfl
  · simp only [resume, append_assoc]

theorem run_append (s : S) (tokens more : List τ) :
    run step s (tokens ++ more) = resume step more (run step s tokens) := by
  induction tokens generalizing s with
  | nil => rw [nil_append, run_nil, resume_ok, nil_append]
  | cons token tokens ih =>
    rw [cons_append, run_cons, run_cons]
    rcases step s token with ⟨out, _ | s'⟩
    · rfl
    · rw [resume_ok, resume_ok, ih, resume_out]

theorem run_cut (s : S) (count : Nat) (tokens : List τ) :
    run step s tokens = resume step (tokens.drop count) (run step s (tokens.take count)) := by
  rw [← run_append, take_append_drop]

end Transducer
