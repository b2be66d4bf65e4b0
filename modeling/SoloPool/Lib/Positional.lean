import Mathlib.Data.List.TakeWhile
import Mathlib.Data.Nat.Digits.Lemmas
import Mathlib.Tactic.Ring

/-! Positional numerals and their conversion from one base to another, a symbol at a time. -/

namespace Positional

open List Nat

/-- The pass over digits in place: each is multiplied by the factor and takes what is carried
into it. The second component is what is carried out. -/
def pass (base factor : Nat) : List Nat → Nat → List Nat × Nat
  | [], carry => ([], carry)
  | digit :: digits, carry =>
    let (rest, out) := pass base factor digits ((carry + digit * factor) / base)
    ((carry + digit * factor) % base :: rest, out)

/-- The digits of what is carried out are written after the others. -/
def absorb (base factor : Nat) (digits : List Nat) (symbol : Nat) : List Nat :=
  (pass base factor digits symbol).1 ++ Nat.digits base (pass base factor digits symbol).2

/-- The number of a text of symbols, the most significant first. -/
def number (base : Nat) (symbols : List Nat) : Nat := ofDigits base symbols.reverse

variable {base factor : Nat}

@[simp] theorem absorb_nil (symbol : Nat) : absorb base factor [] symbol = Nat.digits base symbol := rfl

theorem absorb_cons (digit : Nat) (digits : List Nat) (symbol : Nat) :
    absorb base factor (digit :: digits) symbol =
      (symbol + digit * factor) % base :: absorb base factor digits ((symbol + digit * factor) / base) := rfl

/-- The canonical digits of a number become those of the number times the factor, plus the symbol. -/
theorem absorb_digits (hbase : 1 < base) (hfactor : 0 < factor) (n symbol : Nat) :
    absorb base factor (Nat.digits base n) symbol = Nat.digits base (symbol + factor * n) := by
  induction n using Nat.strongRecOn generalizing symbol with
  | ind n ih =>
    by_cases hn : n = 0
    · subst hn
      simp
    · have hpos : 0 < n := Nat.pos_of_ne_zero hn
      have hsplit := div_add_mod n base
      have hcarry := div_add_mod (symbol + n % base * factor) base
      rw [digits_def' hbase hpos, absorb_cons, ih _ (Nat.div_lt_self hpos hbase)]
      generalize hlow : (symbol + n % base * factor) % base = low at hcarry ⊢
      generalize hhigh : (symbol + n % base * factor) / base = high at hcarry ⊢
      have hvalue : symbol + factor * n = low + base * (high + factor * (n / base)) := by
        calc symbol + factor * n = symbol + factor * (base * (n / base) + n % base) := by rw [hsplit]
          _ = (symbol + n % base * factor) + base * (factor * (n / base)) := by ring
          _ = low + base * (high + factor * (n / base)) := by rw [← hcarry]; ring
      rw [hvalue, digits_add base hbase low _ (by rw [← hlow]; exact mod_lt _ (by omega))]
      by_contra hzero
      push Not at hzero
      have hempty : symbol + factor * n = 0 := by rw [hvalue, hzero.1, hzero.2]; ring
      have := Nat.mul_pos hfactor hpos
      omega

theorem number_concat (symbols : List Nat) (symbol : Nat) :
    number factor (symbols ++ [symbol]) = symbol + factor * number factor symbols := by
  rw [number, reverse_append, reverse_singleton, singleton_append, ofDigits_cons]
  rfl

theorem number_cons (symbol : Nat) (symbols : List Nat) :
    number base (symbol :: symbols) = symbol * base ^ symbols.length + number base symbols := by
  rw [number, reverse_cons, ofDigits_append, ofDigits_singleton, length_reverse, number]
  ring

theorem number_lt (hbase : 1 < base) {symbols : List Nat} (hfit : ∀ symbol ∈ symbols, symbol < base) :
    number base symbols < base ^ symbols.length := by
  rw [← length_reverse]
  apply ofDigits_lt_base_pow_length hbase
  intro symbol hmem
  exact hfit symbol (mem_reverse.mp hmem)

/-- Absorbing a text symbol by symbol gives the canonical digits of its number. -/
theorem foldl_absorb (hbase : 1 < base) (hfactor : 0 < factor) (symbols : List Nat) :
    symbols.foldl (absorb base factor) [] = Nat.digits base (number factor symbols) := by
  induction symbols using reverseRecOn with
  | nil => simp [number]
  | append_singleton symbols symbol ih =>
    rw [foldl_append, foldl_cons, foldl_nil, ih, absorb_digits hbase hfactor, number_concat]

/-- A text in another base: as many zeros in front, then the canonical digits. -/
def convert (source target : Nat) (symbols : List Nat) : List Nat :=
  replicate (symbols.takeWhile (· == 0)).length 0 ++ (Nat.digits target (number source symbols)).reverse

theorem takeWhile_eq_replicate (symbols : List Nat) :
    symbols.takeWhile (· == 0) = replicate (symbols.takeWhile (· == 0)).length 0 := by
  rw [eq_replicate_iff]
  refine ⟨rfl, ?_⟩
  intro symbol hmem
  have hzero := mem_takeWhile_imp hmem
  exact beq_iff_eq.mp hzero

theorem number_zeros_append (count : Nat) (symbols : List Nat) :
    number base (replicate count 0 ++ symbols) = number base symbols := by
  rw [number, reverse_append, reverse_replicate, ofDigits_append_replicate_zero]
  rfl

theorem number_convert (source target : Nat) (symbols : List Nat) :
    number target (convert source target symbols) = number source symbols := by
  rw [convert, number_zeros_append, number, reverse_reverse, ofDigits_digits]

/-- The canonical digits do not begin with a zero. -/
theorem takeWhile_digits (n : Nat) : ((Nat.digits base n).reverse).takeWhile (· == 0) = [] := by
  by_cases hn : n = 0
  · rw [hn, digits_zero]
    rfl
  · have hne : Nat.digits base n ≠ [] := digits_ne_nil_iff_ne_zero.mpr hn
    have hlast := getLast_digit_ne_zero base hn
    rw [← dropLast_append_getLast hne, reverse_append, reverse_singleton, singleton_append]
    apply takeWhile_cons_of_neg
    simpa using hlast

theorem takeWhile_convert (source target : Nat) (symbols : List Nat) :
    (convert source target symbols).takeWhile (· == 0) = symbols.takeWhile (· == 0) := by
  rw [convert, takeWhile_append_of_pos, takeWhile_digits, append_nil, ← takeWhile_eq_replicate]
  intro symbol hmem
  rw [eq_of_mem_replicate hmem]
  rfl

/-- Digits in range are the canonical digits of their number after the zeros in front. -/
theorem digits_number (hbase : 1 < base) {symbols : List Nat} (hfit : ∀ symbol ∈ symbols, symbol < base) :
    (Nat.digits base (number base symbols)).reverse = symbols.dropWhile (· == 0) := by
  have hnumber : number base symbols = number base (symbols.dropWhile (· == 0)) := by
    conv_lhs => rw [← takeWhile_append_dropWhile (l := symbols) (p := (· == 0)), takeWhile_eq_replicate]
    exact number_zeros_append _ _
  rw [hnumber, number, digits_ofDigits base hbase, reverse_reverse]
  · intro symbol hmem
    apply hfit
    exact (dropWhile_sublist _).subset (mem_reverse.mp hmem)
  · intro hne
    rw [getLast_reverse]
    have hhead := head_dropWhile_not (· == 0) (reverse_ne_nil_iff.mp hne)
    simpa using hhead

/-- The leading digit of a number lies between bounds that hold of its quotient. -/
theorem head_digits (hbase : 1 < base) {low high : Nat} (hlow : 0 < low) (hhigh : high ≤ base) {count n : Nat}
    (hle : low * base ^ count ≤ n) (hlt : n < high * base ^ count) :
    ∃ digit rest, (Nat.digits base n).reverse = digit :: rest ∧ low ≤ digit ∧ digit < high := by
  have hpos : 0 < base := by omega
  induction count generalizing n with
  | zero =>
    rw [Nat.pow_zero, Nat.mul_one] at hle hlt
    refine ⟨n, [], ?_, hle, hlt⟩
    rw [digits_of_lt base n (by omega) (by omega), reverse_singleton]
  | succ count ih =>
    rw [Nat.pow_succ, ← Nat.mul_assoc] at hle hlt
    obtain ⟨digit, rest, hdigits, hbounds⟩ := ih ((Nat.le_div_iff_mul_le hpos).mpr hle)
      ((Nat.div_lt_iff_lt_mul hpos).mpr hlt)
    have hn : 0 < n := Nat.lt_of_lt_of_le (Nat.mul_pos (Nat.mul_pos hlow (Nat.pow_pos hpos)) hpos) hle
    refine ⟨digit, rest ++ [n % base], ?_, hbounds⟩
    rw [digits_def' hbase hn, reverse_cons, hdigits, cons_append]

/-- Converting to another base and back loses nothing. -/
theorem convert_convert {source target : Nat} (hsource : 1 < source) {symbols : List Nat}
    (hfit : ∀ symbol ∈ symbols, symbol < source) :
    convert target source (convert source target symbols) = symbols := by
  conv_lhs => rw [convert]
  rw [number_convert, takeWhile_convert, digits_number hsource hfit, ← takeWhile_eq_replicate,
    takeWhile_append_dropWhile]

theorem convert_fit {source target : Nat} (htarget : 1 < target) (symbols : List Nat) :
    ∀ symbol ∈ convert source target symbols, symbol < target := by
  intro symbol hmem
  rcases mem_append.mp hmem with hzero | hdigit
  · rw [eq_of_mem_replicate hzero]
    omega
  · exact digits_lt_base htarget (mem_reverse.mp hdigit)

end Positional
