import SoloPool.Lib.Reader
import SoloPool.Lib.Result

/-! Writers and the readers that undo them. -/

namespace Codec

open Reader

variable {τ ε α β : Type}

/-- One write after another; the first that fails decides. -/
def writes : List (Except ε (List τ)) → Except ε (List τ)
  | [] => .ok []
  | first :: others => do
    let bytes ← first
    let more ← writes others
    return bytes ++ more

theorem writes_cons_eq_ok {first : Except ε (List τ)} {others : List (Except ε (List τ))} {bytes : List τ} :
    writes (first :: others) = .ok bytes ↔
      ∃ head tail, first = .ok head ∧ writes others = .ok tail ∧ bytes = head ++ tail := by
  rw [writes, Result.bind_eq_ok]
  constructor
  · rintro ⟨head, hfirst, hrest⟩
    obtain ⟨tail, hothers, hbytes⟩ := Result.bind_eq_ok.mp hrest
    exact ⟨head, tail, hfirst, hothers, (Result.pure_eq_ok.mp hbytes).symm⟩
  · rintro ⟨head, tail, hfirst, hothers, rfl⟩
    exact ⟨head, hfirst, Result.bind_eq_ok.mpr ⟨tail, hothers, rfl⟩⟩

/-- What was read against what is written for it. -/
abbrev Rewriting (τ : Type) := List τ → List τ → Prop

/-- One rewriting after another. -/
def Rewriting.Then (first second : Rewriting τ) : Rewriting τ := fun used bytes =>
  ∃ head tail head' tail', used = head ++ tail ∧ bytes = head' ++ tail' ∧ first head head' ∧ second tail tail'

@[simp] theorem Rewriting.then_eq : (Rewriting.Then Eq Eq : Rewriting τ) = Eq := by
  funext used bytes
  apply propext
  constructor
  · rintro ⟨head, tail, head', tail', rfl, rfl, rfl, rfl⟩
    rfl
  · rintro rfl
    exact ⟨[], used, [], used, rfl, rfl, rfl, rfl⟩

/-- Among the values in `P`, which are all that `read` returns, those that fit can be written and are read back;
and what is read, however it was put, is written again up to `same`. -/
structure Lossless (P : α → Prop) (write : α → Except ε (List τ)) (read : Reader τ ε α) (fits : α → Prop)
    (same : Rewriting τ) : Prop where
  writes_iff : ∀ a, P a → ((∃ bytes, write a = .ok bytes) ↔ fits a)
  encodes : ∀ a bytes, P a → write a = .ok bytes → Encodes read bytes a
  rewrites : ∀ input a rest, Reads read input a rest →
    P a ∧ ∃ used bytes, input = used ++ rest ∧ Encodes read used a ∧ write a = .ok bytes ∧ same used bytes

/-- A codec for all values. -/
abbrev Total (write : α → Except ε (List τ)) (read : Reader τ ε α) (fits : α → Prop) (same : Rewriting τ) : Prop :=
  Lossless (fun _ => True) write read fits same

variable {P : α → Prop} {fits : α → Prop} {same : Rewriting τ}

/-- Nothing is left to read. -/
theorem Lossless.done {value : α} (honly : ∀ a, P a ↔ a = value) :
    Lossless P (fun _ => writes []) (pure value : Reader τ ε α) (fun _ => True) Eq := by
  refine ⟨fun a _ => ⟨fun _ => trivial, fun _ => ⟨[], rfl⟩⟩, ?_, ?_⟩
  · intro a bytes ha hwrite
    obtain rfl := (honly a).mp ha
    cases hwrite
    exact fun rest => .pure a rest
  · intro input a rest hread
    obtain ⟨rfl, rfl⟩ := reads_pure.mp hread
    exact ⟨(honly value).mpr rfl, [], [], rfl, fun rest => .pure value rest, rfl, rfl⟩

variable {write : α → Except ε (List τ)} {read : Reader τ ε β}

/-- Nothing that is written leads here. -/
theorem Lossless.refused (error : ε) (hnone : ∀ a, ¬ P a) :
    Lossless P write (throw error) fits same := by
  refine ⟨fun a ha => absurd ha (hnone a), fun a bytes ha => absurd ha (hnone a), ?_⟩
  intro input a rest hread
  exact absurd hread reads_throw

/-- One field, then the others for the values that have it. -/
theorem Lossless.field {write : β → Except ε (List τ)} {fits_field : β → Prop}
    {same_field : Rewriting τ} (get : α → β) {others : α → List (Except ε (List τ))} {next : β → Reader τ ε α}
    (hfield : Total write read fits_field same_field)
    (hothers : ∀ b, Lossless (fun a => P a ∧ get a = b) (fun a => writes (others a)) (next b) fits same) :
    Lossless P (fun a => writes (write (get a) :: others a)) (read >>= next)
      (fun a => fits_field (get a) ∧ fits a) (same_field.Then same) := by
  refine ⟨?_, ?_, ?_⟩
  · intro a ha
    rw [← hfield.writes_iff (get a) trivial, ← (hothers (get a)).writes_iff a ⟨ha, rfl⟩]
    constructor
    · rintro ⟨bytes, hwrite⟩
      obtain ⟨head, tail, hhead, htail, -⟩ := writes_cons_eq_ok.mp hwrite
      exact ⟨⟨head, hhead⟩, ⟨tail, htail⟩⟩
    · rintro ⟨⟨head, hhead⟩, ⟨tail, htail⟩⟩
      exact ⟨head ++ tail, writes_cons_eq_ok.mpr ⟨head, tail, hhead, htail, rfl⟩⟩
  · intro a bytes ha hwrite
    obtain ⟨head, tail, hhead, htail, rfl⟩ := writes_cons_eq_ok.mp hwrite
    exact (hfield.encodes (get a) head trivial hhead).bind ((hothers (get a)).encodes a tail ⟨ha, rfl⟩ htail)
  · intro input a rest hread
    obtain ⟨b, mid, hfirst, hnext⟩ := reads_bind.mp hread
    obtain ⟨-, head, head', rfl, hencodes, hhead, hsame⟩ := hfield.rewrites input b mid hfirst
    obtain ⟨⟨ha, rfl⟩, tail, tail', rfl, hencodes', htail, hsame'⟩ := (hothers b).rewrites mid a rest hnext
    refine ⟨ha, head ++ tail, head' ++ tail', (List.append_assoc ..).symm, hencodes.bind hencodes', ?_, ?_⟩
    · exact writes_cons_eq_ok.mpr ⟨head', tail', hhead, htail, rfl⟩
    · exact ⟨head, tail, head', tail', rfl, rfl, hsame, hsame'⟩

/-- The same, where nothing is rewritten. -/
theorem Lossless.exact {write : β → Except ε (List τ)} {fits_field : β → Prop} (get : α → β)
    {others : α → List (Except ε (List τ))} {next : β → Reader τ ε α} (hfield : Total write read fits_field Eq)
    (hothers : ∀ b, Lossless (fun a => P a ∧ get a = b) (fun a => writes (others a)) (next b) fits Eq) :
    Lossless P (fun a => writes (write (get a) :: others a)) (read >>= next) (fun a => fits_field (get a) ∧ fits a)
      Eq := by
  have h := Lossless.field get hfield hothers
  rwa [Rewriting.then_eq] at h

/-- The same codec under other words. -/
theorem Lossless.congr {write' : α → Except ε (List τ)} {read : Reader τ ε α} {fits' : α → Prop}
    (h : Lossless P write read fits same) (hwrite : ∀ a, P a → write' a = write a)
    (hfits : ∀ a, P a → (fits' a ↔ fits a)) : Lossless P write' read fits' same := by
  refine ⟨?_, ?_, ?_⟩
  · intro a ha
    rw [hwrite a ha, hfits a ha]
    exact h.writes_iff a ha
  · intro a bytes ha hbytes
    exact h.encodes a bytes ha (hwrite a ha ▸ hbytes)
  · intro input a rest hread
    obtain ⟨ha, used, bytes, hinput, hencodes, hbytes, hsame⟩ := h.rewrites input a rest hread
    exact ⟨ha, used, bytes, hinput, hencodes, (hwrite a ha).trans hbytes, hsame⟩

theorem Lossless.refit {read : Reader τ ε α} {fits' : α → Prop} (h : Lossless P write read fits same)
    (hfits : ∀ a, P a → (fits' a ↔ fits a)) : Lossless P write read fits' same :=
  h.congr (fun _ _ => rfl) hfits

/-- What is known of everything written. -/
theorem Lossless.noting {read : Reader τ ε α} (Q : List τ → Prop)
    (h : Lossless P write read fits same) (hwritten : ∀ a bytes, write a = .ok bytes → Q bytes) :
    Lossless P write read fits (fun used bytes => same used bytes ∧ Q bytes) := by
  refine ⟨h.writes_iff, h.encodes, ?_⟩
  intro input a rest hread
  obtain ⟨ha, used, bytes, hinput, hencodes, hbytes, hsame⟩ := h.rewrites input a rest hread
  exact ⟨ha, used, bytes, hinput, hencodes, hbytes, hsame, hwritten a bytes hbytes⟩

/-- A writer that refuses what is outside of `P`. -/
theorem Lossless.guarded [DecidablePred P] {read : Reader τ ε α} (error : ε)
    (h : Lossless P write read (fun _ => True) same) :
    Total (fun a => if P a then write a else .error error) read P same := by
  refine ⟨?_, ?_, ?_⟩
  · intro a _
    split
    · rename_i ha
      exact iff_of_true ((h.writes_iff a ha).mpr trivial) ha
    · rename_i ha
      refine iff_of_false ?_ ha
      rintro ⟨bytes, hbytes⟩
      cases hbytes
  · intro a bytes _ hwrite
    split at hwrite
    · rename_i ha
      exact h.encodes a bytes ha hwrite
    · cases hwrite
  · intro input a rest hread
    obtain ⟨ha, used, bytes, hinput, hencodes, hbytes, hsame⟩ := h.rewrites input a rest hread
    exact ⟨trivial, used, bytes, hinput, hencodes, (if_pos ha).trans hbytes, hsame⟩

/-- A list with its length in front, refused when it is longer than `limit`. -/
theorem Total.sized {write : β → Except ε (List τ)} (hsize : Total write read (fun _ => True) Eq)
    (size_of : Nat → β) (limit : Nat) (error : ε) {others : List α → List (Except ε (List τ))}
    {next : β → Reader τ ε (List α)}
    (hothers : ∀ size, Lossless (fun items : List α => items.length ≤ limit ∧ size_of items.length = size)
      (fun items => writes (others items)) (next size) (fun _ => True) Eq) :
    Total (fun items => if items.length > limit then .error error
        else writes (write (size_of items.length) :: others items))
      (read >>= next) (fun items => items.length ≤ limit) Eq := by
  have hfield := Lossless.exact (fun items : List α => size_of items.length) hsize hothers
  refine (hfield.refit (fun _ _ => by simp)).guarded error |>.congr ?_ (fun _ _ => Iff.rfl)
  intro items _
  simp only [gt_iff_lt, ← Nat.not_le, ite_not]

/-- As many elements as were announced. -/
theorem Lossless.counted {P : List τ → Prop} (error : ε) {count : Nat} (hcount : ∀ taken, P taken ↔ taken.length = count) :
    Lossless P (fun taken => writes [.ok taken]) (take error count) (fun _ => True) Eq := by
  have hwrite : ∀ taken : List τ, (writes [.ok taken] : Except ε (List τ)) = .ok taken := by
    intro taken
    exact writes_cons_eq_ok.mpr ⟨taken, [], rfl, rfl, (List.append_nil taken).symm⟩
  refine ⟨fun taken _ => ⟨fun _ => trivial, fun _ => ⟨taken, hwrite taken⟩⟩, ?_, ?_⟩
  · intro taken bytes htaken hbytes
    obtain rfl := Except.ok.inj ((hwrite taken).symm.trans hbytes)
    exact take_encodes error ((hcount taken).mp htaken)
  · intro input taken rest hread
    obtain ⟨hlength, rfl⟩ := reads_take hread
    exact ⟨(hcount taken).mpr hlength, taken, taken, rfl, take_encodes error hlength, hwrite taken, rfl⟩

/-- Values of fixed width. -/
theorem Total.fixed (error : ε) {width : Nat} {bytes_of : α → List τ} {value_of : List τ → α}
    (hwidth : ∀ a, (bytes_of a).length = width) (hvalue : ∀ a, value_of (bytes_of a) = a)
    (hbytes : ∀ bytes, bytes.length = width → bytes_of (value_of bytes) = bytes) :
    Total (fun a => .ok (bytes_of a)) (do let bytes ← take error width; return value_of bytes) (fun _ => True) Eq := by
  refine ⟨fun a _ => ⟨fun _ => trivial, fun _ => ⟨bytes_of a, rfl⟩⟩, ?_, ?_⟩
  · intro a bytes _ hwrite
    cases hwrite
    have hencodes := (take_encodes error (hwidth a)).map value_of
    rwa [hvalue] at hencodes
  · intro input a rest hread
    obtain ⟨taken, mid, htake, hpure⟩ := reads_bind.mp hread
    obtain ⟨rfl, rfl⟩ := reads_pure.mp hpure
    obtain ⟨hlength, rfl⟩ := reads_take htake
    refine ⟨trivial, taken, taken, rfl, (take_encodes error hlength).map value_of, ?_, rfl⟩
    rw [hbytes taken hlength]

section Repeated

variable {write : α → Except ε (List τ)} {read : Reader τ ε α} (h : Total write read (fun _ => True) Eq)

include h

theorem Total.writes_map (items : List α) : ∃ bytes, writes (items.map write) = .ok bytes := by
  induction items with
  | nil => exact ⟨[], rfl⟩
  | cons item items ih =>
    obtain ⟨head, hhead⟩ := (h.writes_iff item trivial).mpr trivial
    obtain ⟨tail, htail⟩ := ih
    exact ⟨head ++ tail, writes_cons_eq_ok.mpr ⟨head, tail, hhead, htail, rfl⟩⟩

theorem Total.encodes_times {items : List α} {bytes : List τ} (hwrites : writes (items.map write) = .ok bytes) :
    Encodes (times items.length read) bytes items := by
  induction items generalizing bytes with
  | nil =>
    cases hwrites
    exact fun rest => .pure [] rest
  | cons item items ih =>
    obtain ⟨head, tail, hhead, htail, rfl⟩ := writes_cons_eq_ok.mp hwrites
    exact (h.encodes item head trivial hhead).bind ((ih htail).map _)

theorem Total.reads_times {count : Nat} {input rest : List τ} {items : List α}
    (hread : Reads (times count read) input items rest) :
    items.length = count ∧ ∃ used, input = used ++ rest ∧ writes (items.map write) = .ok used := by
  induction count generalizing input items with
  | zero =>
    obtain ⟨rfl, rfl⟩ := reads_pure.mp hread
    exact ⟨rfl, [], rfl, rfl⟩
  | succ count ih =>
    obtain ⟨item, mid, hfirst, hnext⟩ := reads_bind.mp hread
    obtain ⟨others, mid', hothers, hpure⟩ := reads_bind.mp hnext
    obtain ⟨rfl, rfl⟩ := reads_pure.mp hpure
    obtain ⟨-, head, _, rfl, -, hhead, rfl⟩ := h.rewrites input item mid hfirst
    obtain ⟨hlength, tail, rfl, htail⟩ := ih hothers
    refine ⟨congrArg (· + 1) hlength, head ++ tail, (List.append_assoc ..).symm, ?_⟩
    exact writes_cons_eq_ok.mpr ⟨head, tail, hhead, htail, rfl⟩

/-- Values one after another, their number known. -/
theorem Lossless.repeated {P : List α → Prop} {count : Nat} (hcount : ∀ items, P items ↔ items.length = count) :
    Lossless P (fun items => writes (items.map write)) (times count read) (fun _ => True) Eq := by
  refine ⟨fun items _ => ⟨fun _ => trivial, fun _ => h.writes_map items⟩, ?_, ?_⟩
  · intro items bytes hitems hwrites
    rw [← (hcount items).mp hitems]
    exact h.encodes_times hwrites
  · intro input items rest hread
    obtain ⟨hlength, used, hinput, hwrites⟩ := h.reads_times hread
    have hencodes := h.encodes_times hwrites
    rw [hlength] at hencodes
    exact ⟨(hcount items).mpr hlength, used, used, hinput, hencodes, hwrites, rfl⟩

end Repeated

end Codec
