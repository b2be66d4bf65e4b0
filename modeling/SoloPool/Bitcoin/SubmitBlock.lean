import Mathlib.Data.List.Induction
import SoloPool.Util.Bytes

namespace erikslund.bitcoin

open List

/-- What an endpoint gives, and what `submitblock` gives in turn: no rejection, a rejection, or
an exception with its text. -/
abbrev SubmitReply := Except String (Option Text)

/-- The variables of the loop over the responses. -/
structure SubmitTally where
  accepted : Bool := false
  already_known : Bool := false
  inconclusive : Option Text := none
  first_rejection : Option Text := none
  first_error : Option String := none

def SubmitTally.record (tally : SubmitTally) : SubmitReply → SubmitTally
  | .ok none => { tally with accepted := true }
  | .ok (some rejection) =>
    if rejection = "duplicate".toList then { tally with already_known := true }
    else if rejection = "inconclusive".toList ∨ rejection = "duplicate-inconclusive".toList then
      { tally with inconclusive := tally.inconclusive <|> some rejection }
    else { tally with first_rejection := tally.first_rejection <|> some rejection }
  | .error what => { tally with first_error := tally.first_error <|> some what }

def SubmitTally.result (tally : SubmitTally) : SubmitReply :=
  if tally.accepted then .ok none
  else if tally.already_known then .ok (some "duplicate".toList)
  else
    match tally.inconclusive, tally.first_error, tally.first_rejection with
    | some text, _, _ => .ok (some text)
    | none, some what, _ => .error what
    | none, none, some rejection => .ok (some rejection)
    | none, none, none => .error "submitblock received no endpoint response"

/-- The replies of the endpoints in their order. -/
def submitblock (replies : List SubmitReply) : SubmitReply := (replies.foldl SubmitTally.record {}).result

inductive SubmitOutcome where
  | Accepted
  | AlreadyKnown
  | Inconclusive
  | Rejected
deriving DecidableEq

def classify_submit : Option Text → SubmitOutcome
  | none => .Accepted
  | some rejection =>
    if rejection = "duplicate".toList then .AlreadyKnown
    else if rejection = "inconclusive".toList ∨ rejection = "duplicate-inconclusive".toList then .Inconclusive
    else .Rejected

/-- The class of a reply; `none` is an error. -/
def submit_class : SubmitReply → Option SubmitOutcome
  | .ok rejection => some (classify_submit rejection)
  | .error _ => none

/-- The best class among those of the endpoints: accepted, then duplicate, inconclusive, error
and rejection. -/
def best_class (classes : List (Option SubmitOutcome)) : Option SubmitOutcome :=
  if some .Accepted ∈ classes then some .Accepted
  else if some .AlreadyKnown ∈ classes then some .AlreadyKnown
  else if some .Inconclusive ∈ classes then some .Inconclusive
  else if none ∈ classes ∨ classes = [] then none
  else some .Rejected

theorem best_class_perm {classes classes' : List (Option SubmitOutcome)} (h : classes.Perm classes') :
    best_class classes = best_class classes' := by
  have hnil : classes = [] ↔ classes' = [] := by
    rw [← length_eq_zero_iff, ← length_eq_zero_iff, h.length_eq]
  simp only [best_class, h.mem_iff, hnil]

namespace SubmitTally

/-- Whether the loop has met a reply of a class. -/
def noted (tally : SubmitTally) : Option SubmitOutcome → Bool
  | some .Accepted => tally.accepted
  | some .AlreadyKnown => tally.already_known
  | some .Inconclusive => tally.inconclusive.isSome
  | none => tally.first_error.isSome
  | some .Rejected => tally.first_rejection.isSome

/-- The texts the loop keeps are of the class they are kept for. -/
structure Keeps (tally : SubmitTally) : Prop where
  inconclusive : ∀ text, tally.inconclusive = some text → classify_submit (some text) = .Inconclusive
  rejection : ∀ text, tally.first_rejection = some text → classify_submit (some text) = .Rejected

theorem noted_record (tally : SubmitTally) (reply : SubmitReply) (outcome : Option SubmitOutcome) :
    (tally.record reply).noted outcome = (tally.noted outcome || decide (outcome = submit_class reply)) := by
  cases reply with
  | error what => rcases outcome with _ | _ | _ <;> simp [record, noted, submit_class]
  | ok answer =>
    cases answer with
    | none => rcases outcome with _ | _ | _ <;> simp [record, noted, submit_class, classify_submit]
    | some rejection =>
      simp only [record, submit_class, classify_submit]
      split_ifs <;> rcases outcome with _ | _ | _ <;> simp [noted]

theorem Keeps.record {tally : SubmitTally} (h : tally.Keeps) (reply : SubmitReply) : (tally.record reply).Keeps := by
  have hfirst {found : Option Text} {rejection text : Text} (h : (found <|> some rejection) = some text) :
      found = some text ∨ rejection = text := by
    cases found with
    | none => exact .inr (Option.some.inj h)
    | some first => exact .inl h
  match reply with
  | .error what => exact ⟨h.inconclusive, h.rejection⟩
  | .ok none => exact ⟨h.inconclusive, h.rejection⟩
  | .ok (some rejection) =>
    simp only [SubmitTally.record]
    split
    · exact ⟨h.inconclusive, h.rejection⟩
    rename_i hduplicate
    split
    · rename_i hopen
      refine ⟨?_, h.rejection⟩
      intro text htext
      rcases hfirst htext with hbefore | rfl
      · exact h.inconclusive text hbefore
      · rw [classify_submit, if_neg hduplicate, if_pos hopen]
    · rename_i hclosed
      refine ⟨h.inconclusive, ?_⟩
      intro text htext
      rcases hfirst htext with hbefore | rfl
      · exact h.rejection text hbefore
      · rw [classify_submit, if_neg hduplicate, if_neg hclosed]

/-- After the loop, the classes it has met are those of the replies. -/
theorem tally_spec (replies : List SubmitReply) :
    (replies.foldl SubmitTally.record {}).Keeps ∧ ∀ outcome,
      (replies.foldl SubmitTally.record {}).noted outcome = true ↔ outcome ∈ replies.map submit_class := by
  induction replies using reverseRecOn with
  | nil =>
    refine ⟨⟨by simp, by simp⟩, ?_⟩
    rintro (_ | _ | _) <;> simp [noted]
  | append_singleton replies reply ih =>
    rw [foldl_append]
    refine ⟨ih.1.record reply, fun outcome => ?_⟩
    simp only [foldl_cons, foldl_nil, noted_record, Bool.or_eq_true, decide_eq_true_eq, ih.2 outcome,
      map_append, map_cons, map_nil, mem_append, mem_singleton]

end SubmitTally

/-- The class of the result is the best one among the endpoints'. -/
theorem submitblock_class (replies : List SubmitReply) :
    submit_class (submitblock replies) = best_class (replies.map submit_class) := by
  obtain ⟨hkeeps, hnoted⟩ := SubmitTally.tally_spec replies
  unfold submitblock
  generalize replies.foldl SubmitTally.record {} = tally at hkeeps hnoted
  simp only [best_class, ← hnoted, SubmitTally.noted]
  unfold SubmitTally.result
  by_cases haccepted : tally.accepted = true
  · rw [if_pos haccepted, if_pos haccepted]
    rfl
  by_cases hknown : tally.already_known = true
  · rw [if_neg haccepted, if_neg haccepted, if_pos hknown, if_pos hknown]
    rfl
  rw [if_neg haccepted, if_neg haccepted, if_neg hknown, if_neg hknown]
  cases hinconclusive : tally.inconclusive with
  | some text => exact congrArg some (hkeeps.inconclusive text hinconclusive)
  | none =>
    cases herror : tally.first_error with
    | some what => rfl
    | none =>
      cases hrejection : tally.first_rejection with
      | some text =>
        have hmem := (hnoted (some .Rejected)).mp (by rw [SubmitTally.noted, hrejection]; rfl)
        have hne : replies.map submit_class ≠ [] := ne_nil_of_mem hmem
        simp [hne, submit_class, hkeeps.rejection text hrejection]
      | none =>
        -- no class has been met, so there was no endpoint to answer
        have hnone : replies.map submit_class = [] := by
          refine eq_nil_iff_forall_not_mem.mpr fun outcome hmem => ?_
          have hmet := (hnoted outcome).mpr hmem
          rcases outcome with _ | _ | _ <;> simp_all [SubmitTally.noted]
        simp [hnone, submit_class]

end erikslund.bitcoin
