import Mathlib.Data.Finset.Card
import SoloPool.Bitcoin.SubmitBlock
import SoloPool.Lib.Run
import SoloPool.Stratum.Block

namespace erikslund

open util bitcoin stratum List

/-- In seconds. -/
def kInconclusiveRetryDelay : ℚ := 5

structure PendingBlock where
  height : Int
  hash : Text
  hex : Text
  address : Text
  worker : Text
deriving DecidableEq

/-- `found` is the identity of the shared block: the call of `on_block_found` that made it. -/
structure LiveSubmission where
  block : PendingBlock
  retry_after : ℚ
  found : Nat
deriving DecidableEq

/-- One call of `submit_block` with the replies of the endpoints. -/
structure SubmitAttempt where
  submission : LiveSubmission
  replies : List SubmitReply
deriving DecidableEq

/-- The submit thread with its queue and what it credits. `taken` is the submission it is
working on, `found` all blocks ever queued, oldest first, and `attempts` the calls of
`submit_block`, newest first. -/
structure Submissions where
  submit_queue : List LiveSubmission
  taken : Option LiveSubmission
  stop_requested : Bool
  credited_blocks : List Text
  blocks_found : Nat
  blocks_by_address : List (Text × Nat)
  found : List PendingBlock
  attempts : List SubmitAttempt
deriving DecidableEq

/-- What reaches the submit thread, and what it does by itself: one look at the queue at a
time, one submission answered. -/
inductive SubmitEvent where
  | on_block_found (address worker : Text) (job : Job) (result : ShareResult)
  | wait_for_submission (now : ℚ)
  | submit_block (replies : List SubmitReply) (now : ℚ)
  | request_stop

/-- `++map[key]`. -/
def increment (key : Text) : List (Text × Nat) → List (Text × Nat)
  | [] => [(key, 1)]
  | (name, count) :: rest => if name = key then (name, count + 1) :: rest else (name, count) :: increment key rest

namespace Submissions

/-- A pool that has restored its statistics. -/
def init (blocks_found : Nat) (blocks_by_address : List (Text × Nat)) : Submissions where
  submit_queue := []
  taken := none
  stop_requested := false
  credited_blocks := []
  blocks_found := blocks_found
  blocks_by_address := blocks_by_address
  found := []
  attempts := []

variable (s : Submissions)

/-- When the block cannot be built the exception leaves `on_block_found` before the queue is
touched. -/
def on_block_found (address worker : Text) (job : Job) (result : ShareResult) : Submissions :=
  match job.build_block_hex result.legacy_coinbase result.header with
  | .error _ => s
  | .ok hex =>
    let block : PendingBlock := ⟨job.height, result.block_hash_hex, hex, address, worker⟩
    { s with
      submit_queue := s.submit_queue ++ [⟨block, 0, s.found.length⟩]
      found := s.found ++ [block] }

def credit_block (block : PendingBlock) : Submissions :=
  if block.hash ∈ s.credited_blocks then s
  else
    { s with
      credited_blocks := block.hash :: s.credited_blocks
      blocks_by_address :=
        if block.address.isEmpty then s.blocks_by_address else increment block.address s.blocks_by_address
      blocks_found := s.blocks_found + 1 }

/-- Whether to retry, and the pool after it. -/
def submit_block (block : PendingBlock) (replies : List SubmitReply) : Bool × Submissions :=
  match submitblock replies with
  | .error _ => (true, s)
  | .ok rejection =>
    match classify_submit rejection with
    | .Accepted | .AlreadyKnown => (false, s.credit_block block)
    | .Inconclusive => (true, s)
    | .Rejected => (false, s)

/-- One look at the queue: the first submission that is due is taken out. -/
def wait_for_submission (now : ℚ) : Submissions :=
  if s.stop_requested ∨ s.taken.isSome then s
  else
    match s.submit_queue.find? (fun queued => queued.retry_after ≤ now) with
    | none => s
    | some submission =>
      { s with
        taken := some submission
        submit_queue := s.submit_queue.eraseP (fun queued => queued.retry_after ≤ now) }

/-- The body of the loop in `submit_loop`. -/
def submit_loop (replies : List SubmitReply) (now : ℚ) : Submissions :=
  match s.taken with
  | none => s
  | some submission =>
    let (retry, after) := s.submit_block submission.block replies
    let after := { after with taken := none, attempts := ⟨submission, replies⟩ :: s.attempts }
    if ¬ retry ∨ s.stop_requested then after
    else
      { after with
        submit_queue := s.submit_queue ++ [{ submission with retry_after := now + kInconclusiveRetryDelay }] }

def step : SubmitEvent → Submissions
  | .on_block_found address worker job result => s.on_block_found address worker job result
  | .wait_for_submission now => s.wait_for_submission now
  | .submit_block replies now => s.submit_loop replies now
  | .request_stop => { s with stop_requested := true }

end Submissions

/-- Some endpoint has the block: it answered null or `duplicate`. -/
def Won (replies : List SubmitReply) : Prop :=
  .ok none ∈ replies ∨ .ok (some "duplicate".toList) ∈ replies

/-- Every endpoint answered, each with a rejection that retrying does not change. -/
def Refused (replies : List SubmitReply) : Prop :=
  replies ≠ [] ∧ ∀ reply ∈ replies, submit_class reply = some .Rejected

instance (replies : List SubmitReply) : Decidable (Won replies) := inferInstanceAs (Decidable (_ ∨ _))

/-- Whether the first block won with `hash` has an address. -/
def addressed (won : List PendingBlock) (hash : Text) : Bool :=
  (won.find? (fun block => block.hash = hash)).any (fun block => ¬ block.address.isEmpty)

/-- The sum over `blocks_by_address`. -/
def total (blocks_by_address : List (Text × Nat)) : Nat := (blocks_by_address.map Prod.snd).sum

theorem total_increment (key : Text) (counts : List (Text × Nat)) : total (increment key counts) = total counts + 1 := by
  induction counts with
  | nil => rfl
  | cons entry rest ih =>
    obtain ⟨name, count⟩ := entry
    simp only [increment]
    simp only [total] at ih ⊢
    split
    · simp only [map_cons, sum_cons]
      omega
    · simp only [map_cons, sum_cons, ih]
      omega

theorem won_iff {replies : List SubmitReply} : Won replies ↔
    some .Accepted ∈ replies.map submit_class ∨ some .AlreadyKnown ∈ replies.map submit_class := by
  have haccepted (reply : SubmitReply) : submit_class reply = some .Accepted ↔ reply = .ok none := by
    rcases reply with _ | _ | _
    · simp [submit_class]
    · simp [submit_class, classify_submit]
    · simp only [submit_class, classify_submit]
      split_ifs <;> simp
  have hknown (reply : SubmitReply) :
      submit_class reply = some .AlreadyKnown ↔ reply = .ok (some "duplicate".toList) := by
    rcases reply with _ | _ | rejection
    · simp [submit_class]
    · simp [submit_class, classify_submit]
    · simp only [submit_class, classify_submit]
      split_ifs <;> simp_all
  simp only [mem_map, haccepted, hknown, exists_eq_right, Won]

/-- A block is won when the result of `submitblock` says so. -/
theorem won_iff_class {replies : List SubmitReply} : Won replies ↔
    submit_class (submitblock replies) = some .Accepted ∨ submit_class (submitblock replies) = some .AlreadyKnown := by
  rw [submitblock_class, won_iff, best_class]
  split_ifs <;> simp_all

/-- A result that stops the retries is a win or a refusal by all. -/
theorem refused_of_class {replies : List SubmitReply} (h : submit_class (submitblock replies) = some .Rejected) :
    Refused replies := by
  rw [submitblock_class, best_class] at h
  split at h
  · cases h
  rename_i haccepted
  split at h
  · cases h
  rename_i hknown
  split at h
  · cases h
  rename_i hinconclusive
  split at h
  · cases h
  rename_i herror
  refine ⟨fun hnil => herror (.inr (by rw [hnil]; rfl)), fun reply hmem => ?_⟩
  have hclass : submit_class reply ∈ replies.map submit_class := mem_map_of_mem hmem
  rcases hreply : submit_class reply with _ | _ | _ | _ | _
  · exact absurd (.inl (hreply ▸ hclass)) herror
  · exact absurd (hreply ▸ hclass) haccepted
  · exact absurd (hreply ▸ hclass) hknown
  · exact absurd (hreply ▸ hclass) hinconclusive
  · rfl

namespace Submissions

/-- The blocks of the attempts that some endpoint answered with null or `duplicate`, oldest
first. -/
def won (s : Submissions) : List PendingBlock :=
  (s.attempts.reverse.filter (fun attempt => Won attempt.replies)).map (fun attempt => attempt.submission.block)

variable {s : Submissions}

/-- The three ends of an attempt. -/
theorem submit_block_spec (s : Submissions) (block : PendingBlock) (replies : List SubmitReply) :
    (Won replies ∧ s.submit_block block replies = (false, s.credit_block block)) ∨
      (¬ Won replies ∧ Refused replies ∧ s.submit_block block replies = (false, s)) ∨
      (¬ Won replies ∧ s.submit_block block replies = (true, s)) := by
  have hlost : ¬ Won replies ↔ submit_class (submitblock replies) ≠ some .Accepted ∧
      submit_class (submitblock replies) ≠ some .AlreadyKnown := by
    rw [won_iff_class, not_or]
  unfold submit_block
  cases hresult : submitblock replies with
  | error what =>
    rw [hresult] at hlost
    exact .inr (.inr ⟨hlost.mpr ⟨nofun, nofun⟩, rfl⟩)
  | ok rejection =>
    rw [hresult] at hlost
    have hclass : submit_class (.ok rejection) = some (classify_submit rejection) := rfl
    rw [hclass] at hlost
    cases houtcome : classify_submit rejection with
    | Accepted =>
      rw [houtcome] at hlost
      exact .inl ⟨not_not.mp fun hnot => (hlost.mp hnot).1 rfl, by simp only [houtcome]⟩
    | AlreadyKnown =>
      rw [houtcome] at hlost
      exact .inl ⟨not_not.mp fun hnot => (hlost.mp hnot).2 rfl, by simp only [houtcome]⟩
    | Inconclusive =>
      rw [houtcome] at hlost
      exact .inr (.inr ⟨hlost.mpr ⟨nofun, nofun⟩, by simp only [houtcome]⟩)
    | Rejected =>
      rw [houtcome] at hlost
      refine .inr (.inl ⟨hlost.mpr ⟨nofun, nofun⟩, refused_of_class ?_, by simp only [houtcome]⟩)
      rw [hresult, hclass, houtcome]

/-- What one step can do. -/
inductive Stepped (s : Submissions) : Submissions → Prop where
  | still : Stepped s s
  | found (block : PendingBlock) :
      Stepped s { s with
        submit_queue := s.submit_queue ++ [⟨block, 0, s.found.length⟩]
        found := s.found ++ [block] }
  | taken (submission : LiveSubmission) (now : ℚ) (hidle : s.taken = none)
      (hdue : s.submit_queue.find? (fun queued => queued.retry_after ≤ now) = some submission) :
      Stepped s { s with
        taken := some submission
        submit_queue := s.submit_queue.eraseP (fun queued => queued.retry_after ≤ now) }
  | won (submission : LiveSubmission) (replies : List SubmitReply) (htaken : s.taken = some submission)
      (hwon : Won replies) :
      Stepped s { s.credit_block submission.block with
        taken := none
        attempts := ⟨submission, replies⟩ :: s.attempts }
  | refused (submission : LiveSubmission) (replies : List SubmitReply) (htaken : s.taken = some submission)
      (hlost : ¬ Won replies) (hrefused : Refused replies) :
      Stepped s { s with taken := none, attempts := ⟨submission, replies⟩ :: s.attempts }
  | dropped (submission : LiveSubmission) (replies : List SubmitReply) (htaken : s.taken = some submission)
      (hlost : ¬ Won replies) (hstop : s.stop_requested = true) :
      Stepped s { s with taken := none, attempts := ⟨submission, replies⟩ :: s.attempts }
  | requeued (submission : LiveSubmission) (replies : List SubmitReply) (now : ℚ) (htaken : s.taken = some submission)
      (hlost : ¬ Won replies) :
      Stepped s { s with
        taken := none
        attempts := ⟨submission, replies⟩ :: s.attempts
        submit_queue := s.submit_queue ++ [{ submission with retry_after := now + kInconclusiveRetryDelay }] }
  | stopped : Stepped s { s with stop_requested := true }

theorem stepped (s : Submissions) (event : SubmitEvent) : Stepped s (s.step event) := by
  cases event with
  | on_block_found address worker job result =>
    simp only [step, on_block_found]
    split
    · exact .still
    · exact .found _
  | wait_for_submission now =>
    simp only [step, wait_for_submission]
    split
    · exact .still
    rename_i hidle
    split
    · exact .still
    · rename_i submission hdue
      refine .taken submission now ?_ hdue
      rw [not_or] at hidle
      exact Option.not_isSome_iff_eq_none.mp hidle.2
  | submit_block replies now =>
    simp only [step, submit_loop]
    split
    · exact .still
    rename_i submission htaken
    rcases s.submit_block_spec submission.block replies with ⟨hwon, heq⟩ | ⟨hlost, hrefused, heq⟩ | ⟨hlost, heq⟩
    · simp only [heq, Bool.false_eq_true, not_false_eq_true, true_or, if_true]
      exact .won submission replies htaken hwon
    · simp only [heq, Bool.false_eq_true, not_false_eq_true, true_or, if_true]
      exact .refused submission replies htaken hlost hrefused
    · simp only [heq, not_true_eq_false, false_or]
      split
      · rename_i hstop
        exact .dropped submission replies htaken hlost hstop
      · exact .requeued submission replies now htaken hlost
  | request_stop => exact .stopped

/-- Where a found block can be: queued, taken, or settled by an attempt that was won or refused
by all endpoints. -/
def Held (s : Submissions) (id : Nat) (block : PendingBlock) : Prop :=
  (∃ submission ∈ s.submit_queue, submission.found = id ∧ submission.block = block) ∨
    (∃ submission, s.taken = some submission ∧ submission.found = id ∧ submission.block = block) ∨
    ∃ attempt ∈ s.attempts, attempt.submission.found = id ∧ attempt.submission.block = block ∧
      (Won attempt.replies ∨ Refused attempt.replies)

/-- While the pool is not stopping, no found block is lost. -/
def Kept (s : Submissions) : Prop :=
  s.stop_requested = false → ∀ id block, s.found[id]? = some block → s.Held id block

theorem credit_block_frame (s : Submissions) (block : PendingBlock) :
    (s.credit_block block).submit_queue = s.submit_queue ∧ (s.credit_block block).found = s.found ∧
      (s.credit_block block).stop_requested = s.stop_requested := by
  unfold credit_block
  split <;> exact ⟨rfl, rfl, rfl⟩

/-- Only the submission that is due leaves the queue. -/
theorem mem_eraseP_or_due {queue : List LiveSubmission} {due : LiveSubmission → Bool} {submission : LiveSubmission}
    (h : submission ∈ queue) : submission ∈ queue.eraseP due ∨ queue.find? due = some submission := by
  induction queue with
  | nil => cases h
  | cons first rest ih =>
    by_cases hdue : due first = true
    · rw [eraseP_cons_of_pos hdue, find?_cons_of_pos hdue]
      rcases mem_cons.mp h with rfl | h
      · exact .inr rfl
      · exact .inl h
    · rw [eraseP_cons_of_neg hdue, find?_cons_of_neg hdue]
      rcases mem_cons.mp h with rfl | h
      · exact .inl mem_cons_self
      · exact (ih h).imp_left (mem_cons_of_mem first)

variable {s' : Submissions}

/-- An attempt that ends the retries settles the block that was taken and leaves the rest. -/
theorem Held.settled {submission : LiveSubmission} {replies : List SubmitReply} {id : Nat}
    {block : PendingBlock} (h : s.Held id block) (htaken : s.taken = some submission)
    (hend : Won replies ∨ Refused replies) (hqueue : s'.submit_queue = s.submit_queue)
    (hattempts : s'.attempts = ⟨submission, replies⟩ :: s.attempts) : s'.Held id block := by
  rcases h with ⟨queued, hqueued, hid⟩ | ⟨held, hheld, hid, hblock⟩ | ⟨attempt, hattempt, hid⟩
  · exact .inl ⟨queued, hqueue ▸ hqueued, hid⟩
  · obtain rfl : submission = held := Option.some.inj (htaken.symm.trans hheld)
    exact .inr (.inr ⟨⟨submission, replies⟩, hattempts ▸ mem_cons_self, hid, hblock, hend⟩)
  · exact .inr (.inr ⟨attempt, hattempts ▸ mem_cons_of_mem _ hattempt, hid⟩)

theorem Kept.stepped (h : s.Kept) (hstep : Stepped s s') : s'.Kept := by
  intro hrunning id block hblock
  cases hstep with
  | still => exact h hrunning id block hblock
  | found added =>
    rcases Nat.lt_or_ge id s.found.length with hold | hnew
    · have hbefore : s.found[id]? = some block := getElem?_append_left hold ▸ hblock
      refine (h hrunning id block hbefore).imp_left ?_
      rintro ⟨queued, hqueued, hid⟩
      exact ⟨queued, mem_append_left _ hqueued, hid⟩
    · -- the block just found is the last one, and queued
      rw [getElem?_append_right hnew] at hblock
      obtain ⟨hlast, rfl⟩ : id - s.found.length = 0 ∧ added = block := by
        simpa [getElem?_singleton] using hblock
      have hid : s.found.length = id := by omega
      exact .inl ⟨⟨added, 0, s.found.length⟩, mem_append_right _ mem_cons_self, hid, rfl⟩
  | taken submission now hidle hdue =>
    rcases h hrunning id block hblock with ⟨queued, hqueued, hid⟩ | ⟨held, hheld, -⟩ | hsettled
    · rcases mem_eraseP_or_due hqueued with hrest | hfirst
      · exact .inl ⟨queued, hrest, hid⟩
      · obtain rfl : submission = queued := Option.some.inj (hdue.symm.trans hfirst)
        exact .inr (.inl ⟨submission, rfl, hid⟩)
    · rw [hidle] at hheld
      cases hheld
    · exact .inr (.inr hsettled)
  | won submission replies htaken hwon =>
    obtain ⟨hqueue, hfound, hstop⟩ := s.credit_block_frame submission.block
    exact (h (hstop ▸ hrunning) id block (hfound ▸ hblock)).settled htaken (.inl hwon) hqueue rfl
  | refused submission replies htaken hlost hrefused =>
    exact (h hrunning id block hblock).settled htaken (.inr hrefused) rfl rfl
  | dropped submission replies htaken hlost hstop =>
    rw [hstop] at hrunning
    cases hrunning
  | requeued submission replies now htaken hlost =>
    rcases h hrunning id block hblock with ⟨queued, hqueued, hid⟩ | ⟨held, hheld, hid⟩ | ⟨attempt, hattempt, hid⟩
    · exact .inl ⟨queued, mem_append_left _ hqueued, hid⟩
    · obtain rfl : submission = held := Option.some.inj (htaken.symm.trans hheld)
      exact .inl ⟨_, mem_append_right _ mem_cons_self, hid⟩
    · exact .inr (.inr ⟨attempt, mem_cons_of_mem _ hattempt, hid⟩)
  | stopped => cases hrunning

/-- What has been credited: each hash of a block that was won, once. -/
structure Credited (blocks_found : Nat) (blocks_by_address : List (Text × Nat)) (s : Submissions) : Prop where
  once : s.credited_blocks.Nodup
  hashes : ∀ hash, hash ∈ s.credited_blocks ↔ hash ∈ s.won.map PendingBlock.hash
  found : s.blocks_found = blocks_found + s.credited_blocks.length
  by_address : total s.blocks_by_address =
    total blocks_by_address + (s.credited_blocks.filter (addressed s.won)).length

theorem won_cons (submission : LiveSubmission) (replies : List SubmitReply) (hlost : ¬ Won replies)
    (hattempts : s'.attempts = ⟨submission, replies⟩ :: s.attempts) : s'.won = s.won := by
  simp only [won, hattempts, reverse_cons, filter_append, map_append]
  simp [hlost]

theorem won_cons_won (submission : LiveSubmission) (replies : List SubmitReply) (hwon : Won replies)
    (hattempts : s'.attempts = ⟨submission, replies⟩ :: s.attempts) : s'.won = s.won ++ [submission.block] := by
  simp only [won, hattempts, reverse_cons, filter_append, map_append]
  simp [hwon]

/-- A later win does not change which block of a hash was first. -/
theorem addressed_append {won : List PendingBlock} {hash : Text} (h : hash ∈ won.map PendingBlock.hash)
    (block : PendingBlock) : addressed (won ++ [block]) hash = addressed won hash := by
  obtain ⟨first, hfirst, rfl⟩ := mem_map.mp h
  obtain ⟨winner, hwinner⟩ : ∃ winner, won.find? (fun block => block.hash = first.hash) = some winner :=
    Option.isSome_iff_exists.mp (find?_isSome.mpr ⟨first, hfirst, decide_eq_true rfl⟩)
  simp only [addressed, find?_append, hwinner, Option.some_or]

theorem addressed_append_new {won : List PendingBlock} {block : PendingBlock}
    (h : block.hash ∉ won.map PendingBlock.hash) : addressed (won ++ [block]) block.hash = !block.address.isEmpty := by
  have hnone : won.find? (fun other => other.hash = block.hash) = none := by
    refine find?_eq_none.mpr fun other hother hsame => h ?_
    rw [← of_decide_eq_true hsame]
    exact mem_map_of_mem hother
  have hlast : addressed (won ++ [block]) block.hash = decide (¬ block.address.isEmpty = true) := by
    simp [addressed, find?_append, hnone]
  rw [hlast]
  cases block.address.isEmpty <;> rfl

theorem Credited.stepped {blocks_found : Nat} {blocks_by_address : List (Text × Nat)}
    (h : Credited blocks_found blocks_by_address s) (hstep : Stepped s s') :
    Credited blocks_found blocks_by_address s' := by
  have hlost_case {submission : LiveSubmission} {replies : List SubmitReply} {after : Submissions}
      (hlost : ¬ Won replies) (hattempts : after.attempts = ⟨submission, replies⟩ :: s.attempts)
      (hcredited : after.credited_blocks = s.credited_blocks) (hfound : after.blocks_found = s.blocks_found)
      (haddress : after.blocks_by_address = s.blocks_by_address) :
      Credited blocks_found blocks_by_address after := by
    have hwon := won_cons submission replies hlost hattempts
    exact ⟨hcredited ▸ h.once, by rw [hcredited, hwon]; exact h.hashes, by rw [hfound, hcredited]; exact h.found,
      by rw [haddress, hcredited, hwon]; exact h.by_address⟩
  cases hstep with
  | still => exact h
  | found => exact ⟨h.once, h.hashes, h.found, h.by_address⟩
  | taken => exact ⟨h.once, h.hashes, h.found, h.by_address⟩
  | stopped => exact ⟨h.once, h.hashes, h.found, h.by_address⟩
  | refused submission replies _ hlost _ => exact hlost_case hlost rfl rfl rfl rfl
  | dropped submission replies _ hlost _ => exact hlost_case hlost rfl rfl rfl rfl
  | requeued submission replies _ _ hlost => exact hlost_case hlost rfl rfl rfl rfl
  | won submission replies htaken hwon =>
    have hgrown : won { s.credit_block submission.block with
        taken := none, attempts := ⟨submission, replies⟩ :: s.attempts } = s.won ++ [submission.block] :=
      won_cons_won submission replies hwon rfl
    have hfilter : s.credited_blocks.filter (addressed (s.won ++ [submission.block])) =
        s.credited_blocks.filter (addressed s.won) :=
      filter_congr fun hash hmem => addressed_append ((h.hashes hash).mp hmem) submission.block
    by_cases hknown : submission.block.hash ∈ s.credited_blocks
    · have hcredit : s.credit_block submission.block = s := if_pos hknown
      rw [hcredit] at hgrown ⊢
      refine ⟨h.once, fun hash => ?_, h.found, ?_⟩
      · rw [hgrown, map_append, mem_append, ← h.hashes hash]
        refine ⟨.inl, ?_⟩
        rintro (hmem | hmem)
        · exact hmem
        · rw [mem_singleton.mp hmem]
          exact hknown
      · rw [hgrown, hfilter]
        exact h.by_address
    · have hnew : submission.block.hash ∉ s.won.map PendingBlock.hash := fun hmem => hknown ((h.hashes _).mpr hmem)
      simp only [credit_block, if_neg hknown] at hgrown ⊢
      refine ⟨nodup_cons.mpr ⟨hknown, h.once⟩, fun hash => ?_, ?_, ?_⟩
      · rw [hgrown, map_append, mem_append, ← h.hashes hash]
        simp [or_comm]
      · rw [length_cons, h.found, Nat.add_assoc]
      · rw [hgrown, filter_cons, addressed_append_new hnew, hfilter]
        cases hempty : submission.block.address.isEmpty with
        | true => exact h.by_address
        | false =>
          simp only [Bool.false_eq_true, if_false, Bool.not_false, if_true, total_increment, length_cons,
            h.by_address, Nat.add_assoc]

theorem init_credited (blocks_found : Nat) (blocks_by_address : List (Text × Nat)) :
    Credited blocks_found blocks_by_address (init blocks_found blocks_by_address) :=
  ⟨nodup_nil, fun _ => Iff.rfl, rfl, rfl⟩

theorem Credited.hashes_eq {blocks_found : Nat} {blocks_by_address : List (Text × Nat)}
    (h : Credited blocks_found blocks_by_address s) :
    s.credited_blocks.toFinset = (s.won.map PendingBlock.hash).toFinset := by
  ext hash
  rw [mem_toFinset, mem_toFinset]
  exact h.hashes hash

open Transition

/-- The class of `submitblock` is the best of the endpoints' in any order. In every run of the
submit thread, a found block is queued, taken, or settled by one attempt until a stop is
requested, and the counters grow by one for each distinct hash that was won. -/
theorem found_blocks_settled_and_credited (blocks_found : Nat) (blocks_by_address : List (Text × Nat)) :
    (∀ replies, submit_class (submitblock replies) = best_class (replies.map submit_class)) ∧
      (∀ replies replies' : List SubmitReply, replies.Perm replies' →
        submit_class (submitblock replies) = submit_class (submitblock replies')) ∧
      ∀ events, ∀ s, s = run step (init blocks_found blocks_by_address) events →
        (s.stop_requested = false → ∀ id block, s.found[id]? = some block → s.Held id block) ∧
          s.blocks_found = blocks_found + (s.won.map PendingBlock.hash).toFinset.card ∧
          total s.blocks_by_address = total blocks_by_address +
            ((s.won.map PendingBlock.hash).toFinset.filter (fun hash => addressed s.won hash)).card := by
  refine ⟨submitblock_class, fun replies replies' hperm => ?_, ?_⟩
  · rw [submitblock_class, submitblock_class, best_class_perm (hperm.map submit_class)]
  · rintro events s rfl
    have hkept : Kept (run step (init blocks_found blocks_by_address) events) := by
      refine run_invariant_always (fun s event h => h.stepped (stepped s event)) events ?_
      intro _ id block hblock
      cases hblock
    have hcredited : Credited blocks_found blocks_by_address
        (run step (init blocks_found blocks_by_address) events) :=
      run_invariant_always (fun s event h => h.stepped (stepped s event)) events
        (init_credited blocks_found blocks_by_address)
    refine ⟨hkept, ?_, ?_⟩
    · rw [hcredited.found, ← hcredited.hashes_eq, toFinset_card_of_nodup hcredited.once]
    · rw [hcredited.by_address, ← hcredited.hashes_eq, ← toFinset_filter,
        toFinset_card_of_nodup (hcredited.once.filter _)]

end Submissions

namespace RetriedBlock

open Submissions

/-- A found block, submitted to two endpoints: the first attempt gives no answer, the second
reaches one of them. -/
def retried : List SubmitEvent :=
  [.on_block_found "miner".toList "rig".toList (Job.minimal "1".toList 1 900 1) ⟨none, true, [1], [2], "00".toList⟩,
    .wait_for_submission 0, .submit_block [.error "timeout", .ok (some "inconclusive".toList)] 1,
    .wait_for_submission 6, .submit_block [.error "timeout", .ok none] 7]

theorem found_blocks_settled_and_credited_retried :
    ∃ s, s = Transition.run step (init 3 []) retried ∧ s.stop_requested = false ∧
      (∃ block, s.found[0]? = some block ∧ s.Held 0 block) ∧ s.blocks_found = 4 ∧ total s.blocks_by_address = 1 ∧
      submit_class (submitblock [.error "timeout", .ok none]) = submit_class (submitblock [.ok none, .error "timeout"]) := by
  obtain ⟨-, hperm, hrun⟩ := found_blocks_settled_and_credited 3 []
  obtain ⟨hheld, hfound, haddress⟩ := hrun retried _ rfl
  have hone : (Transition.run step (init 3 []) retried).found[0]? =
      some ⟨1, "00".toList, "010102".toList, "miner".toList, "rig".toList⟩ := by decide +kernel
  refine ⟨_, rfl, by decide +kernel, ⟨_, hone, hheld (by decide +kernel) 0 _ hone⟩, ?_, ?_, hperm _ _ (.swap _ _ _)⟩
  · rw [hfound]
    decide +kernel
  · rw [haddress]
    decide +kernel

end RetriedBlock

end erikslund
