import Mathlib.Data.List.Forall2

/-! Readers that consume a list from its front, or fail. -/

abbrev Reader (τ ε α : Type) := StateT (List τ) (Except ε) α

namespace Reader

open List

variable {τ ε α β : Type}

/-- `p` reads `a` off the front of `input` and leaves `rest`. -/
def Reads (p : Reader τ ε α) (input : List τ) (a : α) (rest : List τ) : Prop := p.run input = .ok (a, rest)

variable {a : α} {input rest bytes : List τ} {p : Reader τ ε α} {f : α → Reader τ ε β} {b : β}

theorem reads_pure {b : α} :
    Reads (pure a : Reader τ ε α) input b rest ↔ a = b ∧ input = rest := by
  rw [Reads, StateT.run_pure]
  change Except.ok (a, input) = Except.ok (b, rest) ↔ _
  rw [Except.ok.injEq, Prod.mk.injEq]

theorem Reads.pure (a : α) (input : List τ) : Reads (pure a : Reader τ ε α) input a input :=
  reads_pure.mpr ⟨rfl, rfl⟩

theorem reads_bind :
    Reads (p >>= f) input b rest ↔ ∃ a mid, Reads p input a mid ∧ Reads (f a) mid b rest := by
  simp only [Reads, StateT.run_bind]
  cases p.run input with
  | error message => simp [bind, Except.bind]
  | ok result =>
    obtain ⟨a, mid⟩ := result
    simp [bind, Except.bind]

theorem Reads.bind {mid : List τ}
    (hp : Reads p input a mid) (hf : Reads (f a) mid b rest) : Reads (p >>= f) input b rest :=
  reads_bind.mpr ⟨a, mid, hp, hf⟩

theorem reads_throw {error : ε} : ¬ Reads (throw error : Reader τ ε α) input a rest := by
  intro h
  cases h

/-- What is read is determined by the input. -/
theorem Reads.unique {rest' : List τ} {a' : α} (h : Reads p input a rest)
    (h' : Reads p input a' rest') : a = a' ∧ rest = rest' := by
  have heq := h.symm.trans h'
  cases heq
  exact ⟨rfl, rfl⟩

/-- `p` reads `bytes` as `a`, whatever follows. -/
def Encodes (p : Reader τ ε α) (bytes : List τ) (a : α) : Prop := ∀ rest, Reads p (bytes ++ rest) a rest

/-- Nothing is left of what was written. -/
theorem Encodes.run (h : Encodes p bytes a) :
    p.run bytes = .ok (a, []) := by
  have hread := h []
  rwa [append_nil] at hread

theorem Encodes.bind {bytes' : List τ}
    (hp : Encodes p bytes a) (hf : Encodes (f a) bytes' b) : Encodes (p >>= f) (bytes ++ bytes') b := by
  intro rest
  rw [append_assoc]
  exact (hp _).bind (hf rest)

theorem Encodes.map (f : α → β) (hp : Encodes p bytes a) :
    Encodes (p >>= fun a => pure (f a)) bytes (f a) :=
  fun rest => (hp rest).bind (.pure _ rest)

/-- A successful read takes its input off the front, and more input after it changes nothing. -/
def Local (p : Reader τ ε α) : Prop :=
  ∀ input a rest, Reads p input a rest →
    (∃ used, input = used ++ rest) ∧ ∀ more, Reads p (input ++ more) a (rest ++ more)

theorem Local.pure (a : α) : Local (pure a : Reader τ ε α) := by
  intro input b rest h
  obtain ⟨rfl, rfl⟩ := reads_pure.mp h
  exact ⟨⟨[], rfl⟩, fun more => .pure a _⟩

theorem Local.throw (error : ε) : Local (throw error : Reader τ ε α) :=
  fun _ _ _ h => absurd h reads_throw

theorem Local.bind (hp : Local p) (hf : ∀ a, Local (f a)) :
    Local (p >>= f) := by
  intro input b rest h
  obtain ⟨a, mid, hread, hrest⟩ := reads_bind.mp h
  obtain ⟨⟨used, rfl⟩, hmore⟩ := hp input a mid hread
  obtain ⟨⟨used', rfl⟩, hmore'⟩ := hf a mid b rest hrest
  exact ⟨⟨used ++ used', by rw [append_assoc]⟩, fun more => (hmore more).bind (hmore' more)⟩

theorem Local.ite {c : Prop} [Decidable c] {q : Reader τ ε α} (hp : Local p) (hq : Local q) :
    Local (if c then p else q) := by
  split
  · exact hp
  · exact hq

/-- What is read to the end of its input is read in front of anything. -/
theorem Local.encodes (hp : Local p) (h : Reads p bytes a []) :
    Encodes p bytes a := by
  intro rest
  have hmore := (hp bytes a [] h).2 rest
  rwa [nil_append] at hmore

/-- The next `count` elements. -/
def take (error : ε) (count : Nat) : Reader τ ε (List τ) := fun input =>
  if count > input.length then .error error else .ok (input.take count, input.drop count)

theorem take_encodes (error : ε) {taken : List τ} {count : Nat} (hlength : taken.length = count) :
    Encodes (take error count) taken taken := by
  intro rest
  have hfits : ¬ count > (taken ++ rest).length := by
    rw [length_append]
    omega
  change (if _ then _ else _) = _
  rw [if_neg hfits, take_left' hlength, drop_left' hlength]

theorem reads_take {error : ε} {count : Nat} {taken : List τ}
    (h : Reads (take error count : Reader τ ε (List τ)) input taken rest) :
    taken.length = count ∧ input = taken ++ rest := by
  change (if _ then _ else _) = _ at h
  split at h
  · cases h
  rename_i hfits
  cases h
  exact ⟨length_take_of_le (by omega), (take_append_drop count input).symm⟩

theorem take_local (error : ε) (count : Nat) : Local (take error count : Reader τ ε (List τ)) := by
  intro input taken rest h
  obtain ⟨hlength, rfl⟩ := reads_take h
  refine ⟨⟨taken, rfl⟩, fun more => ?_⟩
  rw [append_assoc]
  exact take_encodes error hlength _

/-- What `p` reads, with the input it consumes. -/
def span (p : Reader τ ε α) : Reader τ ε (α × List τ) := fun input =>
  match p input with
  | .error error => .error error
  | .ok (a, rest) => .ok ((a, input.take (input.length - rest.length)), rest)

theorem span_reads {used : List τ} (h : Reads p (used ++ rest) a rest) :
    Reads (span p) (used ++ rest) (a, used) rest := by
  have hrun : p (used ++ rest) = .ok (a, rest) := h
  have hlength : (used ++ rest).length - rest.length = used.length := by simp
  change (match p (used ++ rest) with | .error error => _ | .ok (a, rest) => _) = _
  rw [hrun]
  simp only [hlength, take_left]

theorem Encodes.span (h : Encodes p bytes a) :
    Encodes (span p) bytes (a, bytes) :=
  fun rest => span_reads (h rest)

theorem Local.span (hp : Local p) : Local (span p) := by
  intro input result rest h
  have hread : ∃ a, Reads p input a rest := by
    change (match p input with | .error error => _ | .ok (a, rest) => _) = _ at h
    split at h
    · cases h
    · rename_i a rest' hrun
      cases h
      exact ⟨a, hrun⟩
  obtain ⟨a, hread⟩ := hread
  obtain ⟨⟨used, rfl⟩, hmore⟩ := hp input a rest hread
  obtain ⟨rfl, -⟩ := h.unique (span_reads hread)
  refine ⟨⟨used, rfl⟩, fun more => ?_⟩
  have hread' := hmore more
  rw [append_assoc] at hread' ⊢
  exact span_reads hread'

/-- `p`, `count` times. -/
def times : Nat → Reader τ ε α → Reader τ ε (List α)
  | 0, _ => pure []
  | count + 1, p => do
    let a ← p
    let rest ← times count p
    return a :: rest

theorem Local.times (hp : Local p) (count : Nat) : Local (times count p) := by
  induction count with
  | zero => exact .pure []
  | succ count ih => exact hp.bind fun a => ih.bind fun rest => .pure (a :: rest)

/-- Pieces written one after the other are read back in order. -/
theorem times_encodes {pieces : List (List τ)} {items : List α}
    (h : Forall₂ (Encodes p) pieces items) : Encodes (times items.length p) pieces.flatten items := by
  induction h with
  | nil => exact fun rest => .pure [] rest
  | cons hpiece hrest ih =>
    rw [flatten_cons]
    exact hpiece.bind (ih.map _)

theorem times_map_encodes {ι : Type} {write : ι → List τ} {read : ι → α} {items : List ι}
    (h : ∀ item ∈ items, Encodes p (write item) (read item)) :
    Encodes (times items.length p) (items.map write).flatten (items.map read) := by
  have heach : Forall₂ (Encodes p) (items.map write) (items.map read) := by
    rw [forall₂_map_left_iff, forall₂_map_right_iff, forall₂_same]
    exact h
  have htimes := times_encodes heach
  rwa [length_map] at htimes

theorem once_encodes (h : Encodes p bytes a) :
    Encodes (times 1 p) bytes [a] := by
  have hone := times_encodes (.cons h .nil)
  rwa [flatten_cons, flatten_nil, append_nil] at hone

end Reader
