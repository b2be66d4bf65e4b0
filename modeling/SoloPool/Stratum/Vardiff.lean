import Mathlib.Tactic.FieldSimp
import Mathlib.Tactic.Linarith
import SoloPool.Stratum.Context

namespace erikslund.stratum

/-- A miner of constant speed under variable difficulty, with the bounds that the
configuration accepts. -/
structure Vardiff where
  /-- Shares per minute at difficulty one. -/
  speed : ℚ
  target : ℚ
  min_difficulty : ℚ
  max_difficulty : ℚ
  speed_pos : 0 < speed
  target_pos : 0 < target
  min_pos : 0 < min_difficulty
  min_le_cap : min_difficulty ≤ if max_difficulty > 0 then max_difficulty else 10 ^ 12

namespace Vardiff

variable (loop : Vardiff) {d start : ℚ}

def difficulty_cap : ℚ := if loop.max_difficulty > 0 then loop.max_difficulty else 10 ^ 12

/-- The share rate at a difficulty. -/
def shares_per_minute (d : ℚ) : ℚ := loop.speed / d

def next (d : ℚ) : ℚ :=
  vardiff_next d (loop.shares_per_minute d) loop.target loop.min_difficulty loop.max_difficulty

def difficulty (start : ℚ) (retargets : ℕ) : ℚ := loop.next^[retargets] start

structure Within (d : ℚ) : Prop where
  lower : loop.min_difficulty ≤ d
  upper : d ≤ loop.difficulty_cap

/-- In the band, or held at the bound towards which the rate pushes. -/
inductive Settled (d : ℚ) : Prop where
  | in_band (hslow : loop.target / 2 ≤ loop.shares_per_minute d) (hfast : loop.shares_per_minute d ≤ 2 * loop.target)
  | at_minimum (hbound : d = loop.min_difficulty) (hslow : loop.shares_per_minute d < loop.target / 2)
  | at_cap (hbound : d = loop.difficulty_cap) (hfast : loop.shares_per_minute d > 2 * loop.target)

variable {loop}

theorem Within.pos (h : loop.Within d) : 0 < d := loop.min_pos.trans_le h.lower

theorem next_eq (h : loop.Within d) : loop.next d =
    if loop.shares_per_minute d > loop.target * 2 ∧ d < loop.difficulty_cap then min loop.difficulty_cap (d * 2)
    else if loop.shares_per_minute d < loop.target / 2 then max loop.min_difficulty (d / 2)
    else d := by
  have hclamped : min (max d loop.min_difficulty) loop.difficulty_cap = d := by
    rw [max_eq_left h.lower, min_eq_left h.upper]
  unfold next vardiff_next
  dsimp only
  rw [← difficulty_cap, hclamped]

/-- What one retarget can do. -/
inductive Retarget (loop : Vardiff) (d : ℚ) : ℚ → Prop where
  | raised (hfast : loop.shares_per_minute d > 2 * loop.target) (hroom : d < loop.difficulty_cap) :
      Retarget loop d (min loop.difficulty_cap (d * 2))
  | lowered (hslow : loop.shares_per_minute d < loop.target / 2) (hroom : loop.min_difficulty < d) :
      Retarget loop d (max loop.min_difficulty (d / 2))
  | held (hsettled : loop.Settled d) : Retarget loop d d

theorem retarget (h : loop.Within d) : Retarget loop d (loop.next d) := by
  have hpos := h.pos
  have htarget := loop.target_pos
  rw [next_eq h]
  split
  · rename_i hraise
    exact .raised (by linarith [hraise.1]) hraise.2
  rename_i hcapped
  split
  · rename_i hslow
    rcases h.lower.lt_or_eq with hroom | hbound
    · exact .lowered hslow hroom
    · have hheld : max loop.min_difficulty (d / 2) = d := by
        rw [hbound]
        exact max_eq_left (by linarith)
      rw [hheld]
      exact .held (.at_minimum hbound.symm hslow)
  · rename_i hslow
    rcases h.upper.lt_or_eq with hroom | hbound
    · have hfast : ¬ loop.shares_per_minute d > loop.target * 2 := fun hfast => hcapped ⟨hfast, hroom⟩
      exact .held (.in_band (not_lt.mp hslow) (by linarith))
    · rcases le_or_gt (loop.shares_per_minute d) (2 * loop.target) with hfast | hfast
      · exact .held (.in_band (not_lt.mp hslow) hfast)
      · exact .held (.at_cap hbound hfast)

theorem Within.next (h : loop.Within d) : loop.Within (loop.next d) := by
  have hpos := h.pos
  have hnext := retarget h
  generalize loop.next d = d' at hnext ⊢
  cases hnext with
  | raised hfast hroom => exact ⟨le_min (h.lower.trans h.upper) (by linarith [h.lower]), min_le_left _ _⟩
  | lowered hslow hroom => exact ⟨le_max_left _ _, max_le (h.lower.trans h.upper) (by linarith [h.upper])⟩
  | held hsettled => exact h

theorem Within.after (h : loop.Within start) (retargets : ℕ) : loop.Within (loop.difficulty start retargets) := by
  induction retargets with
  | zero => exact h
  | succ retargets ih =>
    rw [difficulty, Function.iterate_succ_apply']
    exact ih.next

/-- The rate falls as the difficulty rises. -/
theorem shares_per_minute_anti {d' : ℚ} (hpos : 0 < d) (h : d ≤ d') :
    loop.shares_per_minute d' ≤ loop.shares_per_minute d :=
  div_le_div_of_nonneg_left loop.speed_pos.le hpos h

theorem shares_per_minute_double : loop.shares_per_minute (d * 2) = loop.shares_per_minute d / 2 := by
  rw [shares_per_minute, shares_per_minute, div_div]

theorem shares_per_minute_half : loop.shares_per_minute (d / 2) = loop.shares_per_minute d * 2 := by
  rw [shares_per_minute, shares_per_minute, div_div_eq_mul_div, mul_div_right_comm]

/-- A rate above the target stays above it, and the difficulty is not lowered. -/
theorem above_next (h : loop.Within d) (habove : loop.target < loop.shares_per_minute d) :
    loop.target < loop.shares_per_minute (loop.next d) ∧ d ≤ loop.next d := by
  have hpos' := h.next.pos
  have htarget := loop.target_pos
  have hnext := retarget h
  generalize loop.next d = d' at hnext hpos' ⊢
  cases hnext with
  | raised hfast hroom =>
    have hhalf : loop.shares_per_minute (d * 2) ≤ loop.shares_per_minute (min loop.difficulty_cap (d * 2)) :=
      shares_per_minute_anti hpos' (min_le_right _ _)
    rw [shares_per_minute_double] at hhalf
    exact ⟨by linarith, le_min hroom.le (by linarith [h.pos])⟩
  | lowered hslow hroom => linarith
  | held hsettled => exact ⟨habove, le_rfl⟩

/-- A rate below the target stays below it, and the difficulty is not raised. -/
theorem below_next (h : loop.Within d) (hbelow : loop.shares_per_minute d < loop.target) :
    loop.shares_per_minute (loop.next d) < loop.target ∧ loop.next d ≤ d := by
  have hpos := h.pos
  have htarget := loop.target_pos
  have hnext := retarget h
  generalize loop.next d = d' at hnext ⊢
  cases hnext with
  | raised hfast hroom => linarith
  | lowered hslow hroom =>
    have hdouble : loop.shares_per_minute (max loop.min_difficulty (d / 2)) ≤ loop.shares_per_minute (d / 2) :=
      shares_per_minute_anti (by linarith) (le_max_right _ _)
    rw [shares_per_minute_half] at hdouble
    exact ⟨by linarith, max_le hroom.le (by linarith)⟩
  | held hsettled => exact ⟨hbelow, le_rfl⟩

/-- A difficulty is only raised while the rate is above the target, and then stays there. -/
theorem above_of_raised (h : loop.Within d) (hraised : d < loop.next d) :
    loop.target < loop.shares_per_minute d := by
  have htarget := loop.target_pos
  by_contra hnot
  rcases (not_lt.mp hnot).lt_or_eq with hbelow | hequal
  · exact (below_next h hbelow).2.not_gt hraised
  · rw [next_eq h, if_neg (by rw [hequal]; intro hfast; linarith [hfast.1]), if_neg (by linarith)] at hraised
    exact lt_irrefl d hraised

theorem below_of_lowered (h : loop.Within d) (hlowered : loop.next d < d) :
    loop.shares_per_minute d < loop.target := by
  have htarget := loop.target_pos
  by_contra hnot
  rcases (not_lt.mp hnot).lt_or_eq with habove | hequal
  · exact (above_next h habove).2.not_gt hlowered
  · rw [next_eq h, if_neg (by rw [← hequal]; intro hfast; linarith [hfast.1]), if_neg (by linarith)] at hlowered
    exact lt_irrefl d hlowered

theorem settled_fixed (h : loop.Within d) (hsettled : loop.Settled d) : loop.next d = d := by
  have hpos := h.pos
  have htarget := loop.target_pos
  rw [next_eq h]
  cases hsettled with
  | in_band hslow hfast => rw [if_neg (fun hraise => by linarith [hraise.1]), if_neg (not_lt.mpr hslow)]
  | at_minimum hbound hslow =>
    rw [if_neg (fun hraise => by linarith [hraise.1]), if_pos hslow, ← hbound]
    exact max_eq_left (by linarith)
  | at_cap hbound hfast =>
    rw [if_neg (fun hraise => hraise.2.ne hbound), if_neg (fun hslow => by linarith)]

/-- From a rate above the target, the difficulty settles before doubling could pass the cap. -/
theorem settles_above {retargets : ℕ} (h : loop.Within start) (habove : loop.target < loop.shares_per_minute start)
    (hdoublings : loop.difficulty_cap ≤ start * 2 ^ retargets) :
    ∃ n ≤ retargets, loop.Settled (loop.difficulty start n) := by
  have htarget := loop.target_pos
  induction retargets generalizing start with
  | zero =>
    have hbound : start = loop.difficulty_cap := le_antisymm h.upper (by simpa using hdoublings)
    refine ⟨0, le_rfl, ?_⟩
    rcases le_or_gt (loop.shares_per_minute start) (2 * loop.target) with hfast | hfast
    · exact .in_band (by change _ ≤ loop.shares_per_minute start; linarith) hfast
    · exact .at_cap hbound hfast
  | succ retargets ih =>
    have hnext := retarget h
    have hwithin := h.next
    have habove' := (above_next h habove).1
    have hstep (n : ℕ) : loop.difficulty (loop.next start) n = loop.difficulty start (n + 1) :=
      (Function.iterate_succ_apply loop.next n start).symm
    generalize loop.next start = d' at hnext hwithin habove' hstep
    cases hnext with
    | raised hfast hroom =>
      rcases le_or_gt loop.difficulty_cap (start * 2) with hcapped | hfree
      · rw [min_eq_left hcapped] at hwithin habove' hstep
        obtain ⟨n, hn, hsettled⟩ := ih hwithin habove'
          (le_mul_of_one_le_right (loop.min_pos.trans_le loop.min_le_cap).le (one_le_pow₀ one_le_two))
        exact ⟨n + 1, Nat.succ_le_succ hn, hstep n ▸ hsettled⟩
      · rw [min_eq_right hfree.le] at hwithin habove' hstep
        obtain ⟨n, hn, hsettled⟩ := ih hwithin habove' (by rw [pow_succ'] at hdoublings; linarith)
        exact ⟨n + 1, Nat.succ_le_succ hn, hstep n ▸ hsettled⟩
    | lowered hslow hroom => linarith
    | held hsettled => exact ⟨0, Nat.zero_le _, hsettled⟩

/-- From a rate below the target, the difficulty settles before halving could pass the minimum. -/
theorem settles_below {retargets : ℕ} (h : loop.Within start) (hbelow : loop.shares_per_minute start < loop.target)
    (hhalvings : start ≤ loop.min_difficulty * 2 ^ retargets) :
    ∃ n ≤ retargets, loop.Settled (loop.difficulty start n) := by
  have htarget := loop.target_pos
  induction retargets generalizing start with
  | zero =>
    have hbound : start = loop.min_difficulty := le_antisymm (by simpa using hhalvings) h.lower
    refine ⟨0, le_rfl, ?_⟩
    rcases lt_or_ge (loop.shares_per_minute start) (loop.target / 2) with hslow | hslow
    · exact .at_minimum hbound hslow
    · exact .in_band hslow (by change loop.shares_per_minute start ≤ _; linarith)
  | succ retargets ih =>
    have hnext := retarget h
    have hwithin := h.next
    have hbelow' := (below_next h hbelow).1
    have hstep (n : ℕ) : loop.difficulty (loop.next start) n = loop.difficulty start (n + 1) :=
      (Function.iterate_succ_apply loop.next n start).symm
    generalize loop.next start = d' at hnext hwithin hbelow' hstep
    cases hnext with
    | raised hfast hroom => linarith
    | lowered hslow hroom =>
      have hless : max loop.min_difficulty (start / 2) ≤ loop.min_difficulty * 2 ^ retargets := by
        refine max_le (le_mul_of_one_le_right loop.min_pos.le (one_le_pow₀ one_le_two)) ?_
        rw [pow_succ] at hhalvings
        linarith
      obtain ⟨n, hn, hsettled⟩ := ih hwithin hbelow' hless
      exact ⟨n + 1, Nat.succ_le_succ hn, hstep n ▸ hsettled⟩
    | held hsettled => exact ⟨0, Nat.zero_le _, hsettled⟩

theorem difficulty_succ (start : ℚ) (n : ℕ) : loop.difficulty start (n + 1) = loop.next (loop.difficulty start n) :=
  Function.iterate_succ_apply' loop.next n start

/-- Once the rate is above the target, no retarget lowers the difficulty. -/
theorem rises_above {m n : ℕ} (h : loop.Within start) (hmn : m ≤ n)
    (habove : loop.target < loop.shares_per_minute (loop.difficulty start m)) :
    loop.target < loop.shares_per_minute (loop.difficulty start n) ∧
      loop.difficulty start n ≤ loop.difficulty start (n + 1) := by
  have hstays : loop.target < loop.shares_per_minute (loop.difficulty start n) := by
    induction n, hmn using Nat.le_induction with
    | base => exact habove
    | succ n hmn ih =>
      rw [difficulty_succ]
      exact (above_next (h.after n) ih).1
  rw [difficulty_succ]
  exact ⟨hstays, (above_next (h.after n) hstays).2⟩

theorem falls_below {m n : ℕ} (h : loop.Within start) (hmn : m ≤ n)
    (hbelow : loop.shares_per_minute (loop.difficulty start m) < loop.target) :
    loop.shares_per_minute (loop.difficulty start n) < loop.target ∧
      loop.difficulty start (n + 1) ≤ loop.difficulty start n := by
  have hstays : loop.shares_per_minute (loop.difficulty start n) < loop.target := by
    induction n, hmn using Nat.le_induction with
    | base => exact hbelow
    | succ n hmn ih =>
      rw [difficulty_succ]
      exact (below_next (h.after n) ih).1
  rw [difficulty_succ]
  exact ⟨hstays, (below_next (h.after n) hstays).2⟩

theorem settles {k : ℕ} (h : loop.Within start) (hk : loop.difficulty_cap / loop.min_difficulty ≤ 2 ^ k) :
    ∃ n ≤ k, loop.Settled (loop.difficulty start n) := by
  have htarget := loop.target_pos
  have hcap : loop.difficulty_cap ≤ loop.min_difficulty * 2 ^ k := (div_le_iff₀' loop.min_pos).mp hk
  have hpow : (0 : ℚ) ≤ 2 ^ k := by positivity
  rcases lt_trichotomy (loop.shares_per_minute start) loop.target with hbelow | hequal | habove
  · exact settles_below h hbelow (h.upper.trans hcap)
  · exact ⟨0, Nat.zero_le k, .in_band (by change _ ≤ loop.shares_per_minute start; linarith)
      (by change loop.shares_per_minute start ≤ _; linarith)⟩
  · exact settles_above h habove (hcap.trans (mul_le_mul_of_nonneg_right h.lower hpow))

variable (loop) in
/-- The difficulty converges within `k` retargets, without oscillating. -/
structure Converges (start : ℚ) (k : ℕ) : Prop where
  within : ∀ n, loop.Within (loop.difficulty start n)
  not_raised : ∀ m n, m ≤ n → loop.difficulty start (m + 1) < loop.difficulty start m →
    loop.difficulty start (n + 1) ≤ loop.difficulty start n
  not_lowered : ∀ m n, m ≤ n → loop.difficulty start m < loop.difficulty start (m + 1) →
    loop.difficulty start n ≤ loop.difficulty start (n + 1)
  settles : ∃ n ≤ k, loop.next (loop.difficulty start n) = loop.difficulty start n ∧
    loop.Settled (loop.difficulty start n)

/-- A miner of constant speed is led to the band, or to the bound it cannot pass, in as many
retargets as doublings lead from the minimum to the cap; the least such `k` is one of them. -/
theorem converges (loop : Vardiff) {start : ℚ} (h : loop.Within start) {k : ℕ}
    (hk : loop.difficulty_cap / loop.min_difficulty ≤ 2 ^ k) : loop.Converges start k := by
  refine ⟨h.after, ?_, ?_, ?_⟩
  · intro m n hmn hlowered
    rw [difficulty_succ] at hlowered
    exact (falls_below h hmn (below_of_lowered (h.after m) hlowered)).2
  · intro m n hmn hraised
    rw [difficulty_succ] at hraised
    exact (rises_above h hmn (above_of_raised (h.after m) hraised)).2
  · obtain ⟨n, hn, hsettled⟩ := settles h hk
    exact ⟨n, hn, settled_fixed (h.after n) hsettled, hsettled⟩

/-- A thousand shares a minute at difficulty one, twelve wanted, between one and a thousand. -/
def fast_miner : Vardiff where
  speed := 1000
  target := 12
  min_difficulty := 1
  max_difficulty := 1000
  speed_pos := by norm_num
  target_pos := by norm_num
  min_pos := by norm_num
  min_le_cap := by norm_num

theorem converges_fast_miner : fast_miner.Converges 1 10 ∧ fast_miner.difficulty 1 10 = 64 := by
  have hcap : fast_miner.difficulty_cap = 1000 := by norm_num [difficulty_cap, fast_miner]
  have hstart : fast_miner.Within 1 := ⟨le_refl (1 : ℚ), by rw [hcap]; norm_num⟩
  refine ⟨fast_miner.converges hstart ?_, by decide +kernel⟩
  rw [hcap]
  norm_num [fast_miner]

end Vardiff

end erikslund.stratum
