import Mathlib.Data.List.Basic

namespace Coalescing

open List

variable {E K : Type} [DecidableEq K] (key : E → K) (merge : E → E → E)

/-- Add an entry to a queue that holds one entry for a key: a new one goes to the back, one
whose key is waiting is merged into the entry that waits. -/
def enqueue : List E → E → List E
  | [], entry => [entry]
  | pending :: rest, entry =>
    if key pending = key entry then merge pending entry :: rest else pending :: enqueue rest entry

/-- What has happened to a queue. -/
inductive Record (E : Type) where
  | enqueued (entry : E)
  | popped (entry : E)
deriving DecidableEq

/-- The entries enqueued under a key since one was last popped, all newest first. -/
def since (k : K) : List (Record E) → List E
  | [] => []
  | .enqueued entry :: log => if key entry = k then entry :: since k log else since k log
  | .popped entry :: log => if key entry = k then [] else since k log

/-- What a list of entries, newest first, has been merged into. -/
inductive Merged : List E → E → Prop where
  | single (entry : E) : Merged [entry] entry
  | merge (entry : E) {entries : List E} {pending : E} (h : Merged entries pending) :
      Merged (entry :: entries) (merge pending entry)

/-- The queue holds, for each live key, what has been enqueued under it since its last pop. -/
structure Tracked (live : K → Prop) (queue : List E) (log : List (Record E)) : Prop where
  distinct : (queue.map key).Nodup
  alive : ∀ pending ∈ queue, live (key pending)
  waiting : ∀ pending ∈ queue, Merged merge (since key (key pending) log) pending
  absent : ∀ k, live k → (∀ pending ∈ queue, key pending ≠ k) → since key k log = []
  popped : ∀ after entry before, log = after ++ .popped entry :: before →
    Merged merge (since key (key entry) before) entry

variable {key merge}

/-! ## The operations -/

variable {entry : E} {after before : List (Record E)}

/-- An entry after `enqueue` waited before under another key, or carries the new one. -/
theorem mem_enqueue {queue : List E} {pending : E}
    (hdistinct : (queue.map key).Nodup) (h : pending ∈ enqueue key merge queue entry) :
    (key pending ≠ key entry ∧ pending ∈ queue) ∨
      (∃ waiting ∈ queue, key waiting = key entry ∧ pending = merge waiting entry) ∨
      ((∀ waiting ∈ queue, key waiting ≠ key entry) ∧ pending = entry) := by
  induction queue with
  | nil => exact .inr (.inr ⟨by simp, by simpa [enqueue] using h⟩)
  | cons front rest ih =>
    obtain ⟨hfront, hdistinct⟩ := nodup_cons.mp hdistinct
    unfold enqueue at h
    split at h
    · rename_i hsame
      rcases mem_cons.mp h with rfl | h
      · exact .inr (.inl ⟨front, mem_cons_self, hsame, rfl⟩)
      · refine .inl ⟨fun hother => hfront ?_, mem_cons_of_mem _ h⟩
        rw [hsame, ← hother]
        exact mem_map_of_mem h
    · rename_i hother
      rcases mem_cons.mp h with rfl | h
      · exact .inl ⟨hother, mem_cons_self⟩
      · rcases ih hdistinct h with ⟨hne, hmem⟩ | ⟨waiting, hmem, hwaiting⟩ | ⟨hnone, heq⟩
        · exact .inl ⟨hne, mem_cons_of_mem _ hmem⟩
        · exact .inr (.inl ⟨waiting, mem_cons_of_mem _ hmem, hwaiting⟩)
        · exact .inr (.inr ⟨forall_mem_cons.mpr ⟨hother, hnone⟩, heq⟩)

theorem map_key_enqueue (hkey : ∀ a b, key (merge a b) = key a) (queue : List E) (entry : E) :
    (enqueue key merge queue entry).map key =
      if key entry ∈ queue.map key then queue.map key else queue.map key ++ [key entry] := by
  induction queue with
  | nil => simp [enqueue]
  | cons front rest ih =>
    unfold enqueue
    by_cases hsame : key front = key entry
    · simp [hsame, hkey]
    · simp only [hsame, if_false, map_cons, ih, mem_cons, Ne.symm hsame, false_or]
      split <;> rfl

variable {live live' : K → Prop} {queue : List E} {log : List (Record E)}

theorem Tracked.empty (live : K → Prop) : Tracked key merge live [] [] :=
  ⟨by simp, by simp, by simp, by simp [since], by simp⟩

theorem Tracked.popped_enqueued (h : Tracked key merge live queue log)
    {other : E} (hlog : .enqueued other :: log = after ++ .popped entry :: before) :
    Merged merge (since key (key entry) before) entry := by
  cases after with
  | nil => cases hlog
  | cons record after =>
    cases hlog
    exact h.popped after entry before rfl

theorem Tracked.enqueue (h : Tracked key merge live queue log) (hkey : ∀ a b, key (merge a b) = key a)
    (hlive : live (key entry)) :
    Tracked key merge live (enqueue key merge queue entry) (.enqueued entry :: log) := by
  have hkeys := map_key_enqueue hkey queue entry
  refine ⟨?_, fun pending hmem => ?_, fun pending hmem => ?_, fun k hk habsent => ?_, ?_⟩
  · rw [hkeys]
    split
    · exact h.distinct
    · rename_i hnew
      refine nodup_append.mpr ⟨h.distinct, by simp, fun k hk other hother => ?_⟩
      obtain rfl := mem_singleton.mp hother
      exact fun heq => hnew (heq ▸ hk)
  · rcases mem_enqueue h.distinct hmem with ⟨-, hold⟩ | ⟨waiting, -, hwaiting, rfl⟩ | ⟨-, rfl⟩
    · exact h.alive pending hold
    · rwa [hkey, hwaiting]
    · exact hlive
  · rcases mem_enqueue h.distinct hmem with ⟨hne, hold⟩ | ⟨waiting, hwaits, hwaiting, rfl⟩ | ⟨hnone, rfl⟩
    · simp only [since, Ne.symm hne, if_false]
      exact h.waiting pending hold
    · rw [hkey, hwaiting]
      simp only [since, if_true]
      exact .merge entry (hwaiting ▸ h.waiting waiting hwaits)
    · simp only [since, if_true, h.absent _ hlive hnone]
      exact .single pending
  · have hk : k ∉ (Coalescing.enqueue key merge queue entry).map key := by
      intro hmem
      obtain ⟨pending, hpending, heq⟩ := mem_map.mp hmem
      exact habsent pending hpending heq
    rw [hkeys] at hk
    have hne : key entry ≠ k := by
      rintro rfl
      split at hk
      · rename_i hin
        exact hk hin
      · simp at hk
    simp only [since, hne, if_false]
    refine h.absent k ‹_› fun pending hpending heq => hk ?_
    split
    · exact mem_map.mpr ⟨pending, hpending, heq⟩
    · exact mem_append_left _ (mem_map.mpr ⟨pending, hpending, heq⟩)
  · exact fun after other before => h.popped_enqueued

/-- An entry under a key that is not live is dropped. -/
theorem Tracked.drop (h : Tracked key merge live queue log) (hdead : ¬ live (key entry)) :
    Tracked key merge live queue (.enqueued entry :: log) := by
  have hsince {k : K} (hk : live k) : since key k (.enqueued entry :: log) = since key k log := by
    refine if_neg fun heq => hdead ?_
    rwa [heq]
  refine ⟨h.distinct, h.alive, fun pending hmem => ?_, fun k hk habsent => ?_,
    fun after other before => h.popped_enqueued⟩
  · rw [hsince (h.alive pending hmem)]
    exact h.waiting pending hmem
  · rw [hsince hk]
    exact h.absent k hk habsent

theorem Tracked.pop {front : E} (h : Tracked key merge live (front :: queue) log) :
    Tracked key merge live queue (.popped front :: log) := by
  obtain ⟨hfront, hdistinct⟩ := nodup_cons.mp h.distinct
  refine ⟨hdistinct, fun pending hmem => h.alive pending (mem_cons_of_mem _ hmem), fun pending hmem => ?_,
    fun k hk habsent => ?_, fun after entry before hlog => ?_⟩
  · have hne : key front ≠ key pending := fun heq => hfront (heq ▸ mem_map_of_mem hmem)
    simp only [since, hne, if_false]
    exact h.waiting pending (mem_cons_of_mem _ hmem)
  · by_cases heq : key front = k
    · simp only [since, heq, if_true]
    · simp only [since, heq, if_false]
      exact h.absent k hk (forall_mem_cons.mpr ⟨heq, habsent⟩)
  · cases after with
    | nil =>
      cases hlog
      exact h.waiting _ mem_cons_self
    | cons record after =>
      cases hlog
      exact h.popped after entry before rfl

/-- Keys that are no longer live leave the queue. -/
theorem Tracked.forget (h : Tracked key merge live queue log) (p : E → Bool)
    (hlive : ∀ k, live' k → live k) (hkept : ∀ pending ∈ queue, (p pending = true ↔ live' (key pending))) :
    Tracked key merge live' (queue.filter p) log := by
  refine ⟨h.distinct.sublist (Sublist.map key filter_sublist), fun pending hmem => ?_,
    fun pending hmem => h.waiting pending (mem_of_mem_filter hmem), fun k hk habsent => ?_, h.popped⟩
  · obtain ⟨hmem, hp⟩ := mem_filter.mp hmem
    exact (hkept pending hmem).mp hp
  · refine h.absent k (hlive k hk) fun pending hmem heq => ?_
    have hp := (hkept pending hmem).mpr (heq ▸ hk)
    exact habsent pending (mem_filter.mpr ⟨hmem, hp⟩) heq

/-- A key that nothing was enqueued under becomes live. -/
theorem Tracked.extend (h : Tracked key merge live queue log)
    (hlive : ∀ k, live k → live' k) (hnew : ∀ k, live' k → live k ∨ since key k log = []) :
    Tracked key merge live' queue log := by
  refine ⟨h.distinct, fun pending hmem => hlive _ (h.alive pending hmem), h.waiting, fun k hk habsent => ?_, h.popped⟩
  rcases hnew k hk with hold | hnone
  · exact h.absent k hold habsent
  · exact hnone

/-! ## What becomes of an entry -/

theorem mem_since (hunpopped : ∀ other, .popped other ∈ after → key other ≠ key entry) :
    entry ∈ since key (key entry) (after ++ .enqueued entry :: before) := by
  induction after with
  | nil => simp [since]
  | cons record after ih =>
    have hmem := ih fun other hother => hunpopped other (mem_cons_of_mem _ hother)
    cases record with
    | enqueued other =>
      simp only [cons_append, since]
      split
      · exact mem_cons_of_mem _ hmem
      · exact hmem
    | popped other =>
      simp only [cons_append, since, hunpopped other mem_cons_self, if_false]
      exact hmem

/-- The first pop under the key after `entry` was enqueued carries what `entry` was merged into. -/
theorem Tracked.popped_after (h : Tracked key merge live queue log)
    (hlog : log = after ++ .enqueued entry :: before) {other : E} (hpopped : .popped other ∈ after)
    (hother : key other = key entry) : ∃ pending entries, .popped pending ∈ after ∧ key pending = key entry ∧
      entry ∈ entries ∧ Merged merge entries pending := by
  -- Walk from the newest record down to the oldest pop under this key.
  suffices hwalk : ∀ newer older, after = newer ++ older →
      (∃ other, .popped other ∈ older ∧ key other = key entry) →
      ∃ pending entries, .popped pending ∈ after ∧ key pending = key entry ∧ entry ∈ entries ∧
        Merged merge entries pending from
    hwalk [] after rfl ⟨other, hpopped, hother⟩
  intro newer older
  induction older generalizing newer with
  | nil => simp
  | cons record older ih =>
    rintro rfl ⟨other, hmem, hother⟩
    by_cases hlater : ∃ other, .popped other ∈ older ∧ key other = key entry
    · exact ih (newer ++ [record]) (by simp) hlater
    · rcases mem_cons.mp hmem with rfl | hmem
      · refine ⟨other, since key (key entry) (older ++ .enqueued entry :: before), by simp, hother,
          mem_since fun later hmem heq => hlater ⟨later, hmem, heq⟩, ?_⟩
        rw [← hother]
        exact h.popped newer other _ (by simp [hlog])
      · exact absurd ⟨other, hmem, hother⟩ hlater

/-- What is enqueued under a live key has been merged into the entry that waits, or into one
popped since. -/
theorem Tracked.covered (h : Tracked key merge live queue log)
    (hlog : log = after ++ .enqueued entry :: before) (hlive : live (key entry)) :
    ∃ pending entries, (pending ∈ queue ∨ .popped pending ∈ after) ∧ key pending = key entry ∧ entry ∈ entries ∧
      Merged merge entries pending := by
  by_cases hpopped : ∃ other, .popped other ∈ after ∧ key other = key entry
  · obtain ⟨other, hmem, hother⟩ := hpopped
    obtain ⟨pending, entries, hpopped, hrest⟩ := h.popped_after hlog hmem hother
    exact ⟨pending, entries, .inr hpopped, hrest⟩
  · have hmem : entry ∈ since key (key entry) log := by
      rw [hlog]
      exact mem_since fun other hother heq => hpopped ⟨other, hother, heq⟩
    by_cases habsent : ∀ pending ∈ queue, key pending ≠ key entry
    · rw [h.absent _ hlive habsent] at hmem
      cases hmem
    · push Not at habsent
      obtain ⟨pending, hpending, heq⟩ := habsent
      exact ⟨pending, _, .inl hpending, heq, hmem, heq ▸ h.waiting pending hpending⟩

end Coalescing
