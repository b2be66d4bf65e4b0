import SoloPool.Lib.Reader

/-! Readers that count how often their loops turn. -/

namespace Reader

variable {τ ε α β : Type}

/-- A reader with the number of turns its loops have begun, whether it reads or fails. -/
def Counted (τ ε α : Type) := List τ → Except ε (α × List τ) × Nat

namespace Counted

/-- What `f` makes of a result, with the turns so far. -/
def andThen (f : α → Counted τ ε β) (turns : Nat) : Except ε (α × List τ) → Except ε (β × List τ) × Nat
  | .error error => (.error error, turns)
  | .ok (a, rest) => ((f a rest).1, turns + (f a rest).2)

instance : Monad (Counted τ ε) where
  pure a := fun input => (.ok (a, input), 0)
  bind p f := fun input => andThen f (p input).2 (p input).1

/-- A reader without loops. -/
def lift (p : Reader τ ε α) : Counted τ ε α := fun input => (p.run input, 0)

/-- One turn of a loop. -/
def turn (p : Counted τ ε α) : Counted τ ε α := fun input => ((p input).1, (p input).2 + 1)

def times : Nat → Counted τ ε α → Counted τ ε (List α)
  | 0, _ => pure []
  | count + 1, p => do
    let a ← turn p
    let rest ← times count p
    return a :: rest

/-- The reader without its count. -/
def erase (p : Counted τ ε α) : Reader τ ε α := fun input => (p input).1

def span (p : Counted τ ε α) : Counted τ ε (α × List τ) := fun input => (Reader.span p.erase input, (p input).2)

@[simp] theorem erase_pure (a : α) : erase (pure a : Counted τ ε α) = pure a := rfl

@[simp] theorem erase_lift (p : Reader τ ε α) : erase (lift p) = p := rfl

@[simp] theorem erase_span (p : Counted τ ε α) : erase (span p) = Reader.span p.erase := rfl

@[simp] theorem erase_bind (p : Counted τ ε α) (f : α → Counted τ ε β) :
    erase (p >>= f) = p.erase >>= fun a => (f a).erase := by
  funext input
  change (andThen f (p input).2 (p input).1).1 = Except.bind (p input).1 (fun result => (f result.1 result.2).1)
  cases (p input).1 <;> rfl

@[simp] theorem erase_ite {c : Prop} [Decidable c] (p q : Counted τ ε α) :
    erase (if c then p else q) = if c then p.erase else q.erase := apply_ite erase c p q

@[simp] theorem erase_times (p : Counted τ ε α) (count : Nat) : erase (times count p) = Reader.times count p.erase := by
  induction count with
  | zero => rfl
  | succ count ih =>
    rw [times, Reader.times, erase_bind]
    simp only [erase_bind, ih, erase_pure]
    rfl

end Counted

/-- `p` takes at least so many elements. -/
def Consumes (least : Nat) (p : Reader τ ε α) : Prop :=
  ∀ input a rest, Reads p input a rest → least + rest.length ≤ input.length

namespace Consumes

variable {least least' : Nat} {p : Reader τ ε α}

theorem mono (h : Consumes least p) (hle : least' ≤ least) : Consumes least' p := by
  intro input a rest hread
  have hleast := h input a rest hread
  omega

theorem pure (a : α) : Consumes 0 (pure a : Reader τ ε α) := by
  intro input b rest hread
  obtain ⟨-, rfl⟩ := reads_pure.mp hread
  omega

theorem throw (least : Nat) (error : ε) : Consumes least (throw error : Reader τ ε α) :=
  fun _ _ _ hread => absurd hread reads_throw

theorem take (error : ε) (count : Nat) : Consumes count (take error count : Reader τ ε (List τ)) := by
  intro input taken rest hread
  obtain ⟨hlength, rfl⟩ := reads_take hread
  rw [List.length_append]
  omega

theorem bind {f : α → Reader τ ε β} (hp : Consumes least p) (hf : ∀ a, Consumes least' (f a)) :
    Consumes (least + least') (p >>= f) := by
  intro input b rest hread
  obtain ⟨a, mid, hfirst, hsecond⟩ := reads_bind.mp hread
  have hleast := hp input a mid hfirst
  have hleast' := hf a mid b rest hsecond
  omega

theorem ite {c : Prop} [Decidable c] {q : Reader τ ε α} (hp : Consumes least p) (hq : Consumes least q) :
    Consumes least (if c then p else q) := by
  split
  · exact hp
  · exact hq

end Consumes

open Counted

/-- A success takes `least` elements besides one for each turn; at any rate the turns exceed the
input by no more than `slack`. -/
structure Paid (least slack : Nat) (p : Counted τ ε α) : Prop where
  success : ∀ input a rest, Reads p.erase input a rest → (p input).2 + least + rest.length ≤ input.length
  always : ∀ input, (p input).2 ≤ input.length + slack

namespace Paid

variable {least least' slack slack' : Nat} {p : Counted τ ε α}

theorem lift {q : Reader τ ε α} (h : Consumes least q) (slack : Nat) : Paid least slack (Counted.lift q) where
  success input a rest hread := by
    have hleast := h input a rest hread
    change 0 + least + rest.length ≤ input.length
    omega
  always input := Nat.zero_le _

theorem pure (slack : Nat) (a : α) : Paid 0 slack (pure a : Counted τ ε α) := Paid.lift (Consumes.pure a) slack

theorem span (h : Paid least slack p) : Paid least slack (Counted.span p) where
  success input result rest hread := by
    have hrun : ∃ a, Reads p.erase input a rest := by
      change (match p.erase input with | .error error => _ | .ok (a, rest) => _) = _ at hread
      split at hread
      · cases hread
      · rename_i a rest' hrun
        cases hread
        exact ⟨a, hrun⟩
    obtain ⟨a, hrun⟩ := hrun
    exact h.success input a rest hrun
  always := h.always

/-- Two readers one after the other; what the first takes pays for the slack of the second. -/
theorem bind {f : α → Counted τ ε β} (hp : Paid least slack p) (hf : ∀ a, Paid least' slack' (f a))
    (hslack : slack' ≤ slack + least) : Paid (least + least') slack (p >>= f) := by
  have hturns (input : List τ) : ((p >>= f) input).2 = (andThen f (p input).2 (p input).1).2 := rfl
  constructor
  · intro input b rest hread
    rw [erase_bind] at hread
    obtain ⟨a, mid, hfirst, hsecond⟩ := reads_bind.mp hread
    have hleast := hp.success input a mid hfirst
    have hleast' := (hf a).success mid b rest hsecond
    have hresult : (p input).1 = .ok (a, mid) := hfirst
    rw [hturns, hresult, andThen]
    omega
  · intro input
    rw [hturns]
    cases hresult : (p input).1 with
    | error error => exact hp.always input
    | ok result =>
      obtain ⟨a, mid⟩ := result
      have hleast := hp.success input a mid hresult
      have halways := (hf a).always mid
      rw [andThen]
      omega

theorem ite {c : Prop} [Decidable c] {q : Counted τ ε α} (hp : Paid least slack p) (hq : Paid least slack q) :
    Paid least slack (if c then p else q) := by
  split
  · exact hp
  · exact hq

/-- What is returned in the end costs nothing. -/
theorem map (h : Paid least slack p) (f : α → β) : Paid least slack (p >>= fun a => Pure.pure (f a)) :=
  h.bind (fun a => Paid.pure slack (f a)) (Nat.le_add_right _ _)

/-- A loop turns at most as often as it has input, once more perhaps if it fails, as long as each
turn takes an element. -/
theorem times (h : Paid 1 slack p) (count : Nat) : Paid 0 (slack + 1) (Counted.times count p) := by
  have hturn : Paid 0 (slack + 1) (turn p) := by
    refine ⟨fun input a rest hread => ?_, fun input => ?_⟩
    · have hleast := h.success input a rest hread
      change (p input).2 + 1 + 0 + rest.length ≤ input.length
      omega
    · have halways := h.always input
      change (p input).2 + 1 ≤ input.length + (slack + 1)
      omega
  induction count with
  | zero => exact .pure _ []
  | succ count ih =>
    exact hturn.bind (fun a => ih.map _) (Nat.le_add_right _ _)

end Paid

end Reader
