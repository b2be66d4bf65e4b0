import SoloPool.Lib.Json
import SoloPool.Util.Bytes

namespace erikslund.stratum

open List Option

def kMaxJsonDepth : Nat := 64

/-- The local variables of `within_depth`. -/
structure DepthScan where
  depth : Nat := 0
  in_string : Bool := false
  escaped : Bool := false
deriving DecidableEq

/-- One turn of its loop; `none` is `return false`. -/
def DepthScan.step (scan : DepthScan) (c : Char) : Option DepthScan :=
  if scan.in_string then
    if scan.escaped then some { scan with escaped := false }
    else if c = '\\' then some { scan with escaped := true }
    else if c = '"' then some { scan with in_string := false }
    else some scan
  else if c = '"' then some { scan with in_string := true }
  else if c = '\x7b' ∨ c = '[' then
    if scan.depth + 1 > kMaxJsonDepth then none else some { scan with depth := scan.depth + 1 }
  else if (c = '\x7d' ∨ c = ']') ∧ scan.depth > 0 then some { scan with depth := scan.depth - 1 }
  else some scan

def within_depth (text : Text) : Bool := (text.foldlM DepthScan.step {}).isSome

namespace DepthScan

/-- Outside of strings, so deep. -/
def outside (depth : Nat) : DepthScan := { depth := depth }

/-- Within a string, at a character that is not escaped. -/
def inside (depth : Nat) : DepthScan := { depth := depth, in_string := true }

/-- Within a string, behind a backslash. -/
def escaping (depth : Nat) : DepthScan := { depth := depth, in_string := true, escaped := true }

variable {depth : Nat}

variable {c : Char} {text text' : Text}

theorem step_outside (hc : c ≠ '"') :
    (outside depth).step c =
      if c = '\x7b' ∨ c = '[' then
        if depth + 1 > kMaxJsonDepth then none else some (outside (depth + 1))
      else if (c = '\x7d' ∨ c = ']') ∧ depth > 0 then some (outside (depth - 1))
      else some (outside depth) := by
  have hout : ¬ (outside depth).in_string = true := Bool.false_ne_true
  rw [step, if_neg hout, if_neg hc]
  rfl

theorem step_plain (h : c ∉ Json.delimiters) : (outside depth).step c = some (outside depth) := by
  simp only [Json.delimiters, List.mem_cons, List.not_mem_nil, or_false, not_or] at h
  simp [step, outside, h]

/-- What neither is nor opens nor closes anything is passed over. -/
theorem scan_plain (h : Json.Plain text) :
    text.foldlM step (outside depth) = some (outside depth) := by
  induction text with
  | nil => rfl
  | cons c text ih =>
    obtain ⟨hc, hrest⟩ := List.forall_mem_cons.mp h
    rw [List.foldlM_cons, step_plain hc]
    exact ih hrest

theorem scan_append {scan scan' : DepthScan} (h : text.foldlM step scan = some scan') :
    (text ++ text').foldlM step scan = text'.foldlM step scan' := by
  rw [List.foldlM_append, h]
  rfl

theorem scan_cons {scan scan' : DepthScan} (h : scan.step c = some scan') :
    (c :: text).foldlM step scan = text.foldlM step scan' := by
  rw [List.foldlM_cons, h]
  rfl

theorem step_inside (hquote : c ≠ '"') (hescape : c ≠ '\\') :
    (inside depth).step c = some (inside depth) := by
  simp [step, inside, hquote, hescape]

theorem step_escape : (inside depth).step '\\' = some (escaping depth) := rfl

theorem step_escaped (c : Char) : (escaping depth).step c = some (inside depth) := rfl

theorem hexDigit_inside (h : Json.HexDigit c) : (inside depth).step c = some (inside depth) := by
  apply step_inside
  · rintro rfl
    exact absurd h (by simp [Json.HexDigit])
  · rintro rfl
    exact absurd h (by simp [Json.HexDigit])

theorem scan_characters (h : Json.Characters text) :
    text.foldlM step (inside depth) = some (inside depth) := by
  induction h with
  | nil => rfl
  | plain _ hquote hescape _ ih => rw [scan_cons (step_inside hquote hescape), ih]
  | escape _ _ ih => rw [scan_cons step_escape, scan_cons (step_escaped _), ih]
  | unicode ha hb hc hd _ ih =>
    rw [scan_cons step_escape, scan_cons (step_escaped _), scan_cons (hexDigit_inside ha),
      scan_cons (hexDigit_inside hb), scan_cons (hexDigit_inside hc), scan_cons (hexDigit_inside hd), ih]

/-- A string is passed over, whatever brackets and quotation marks it contains. -/
theorem scan_quoted (h : Json.Quoted text) :
    text.foldlM step (outside depth) = some (outside depth) := by
  cases h with
  | mk hcharacters =>
    have hopen : (outside depth).step '"' = some (inside depth) := rfl
    have hclose : (inside depth).step '"' = some (outside depth) := rfl
    rw [scan_cons hopen, scan_append (scan_characters hcharacters), scan_cons hclose]
    rfl

/-- What a text of some depth does to the scan: it comes back to where it was, or is refused. -/
def Deep (text : Text) (depth : Nat) : Prop :=
  ∀ start ≤ kMaxJsonDepth, text.foldlM step (outside start) =
    if start + depth ≤ kMaxJsonDepth then some (outside start) else none

theorem Deep.of_passed (h : ∀ start, text.foldlM step (outside start) = some (outside start)) :
    Deep text 0 := by
  intro start hstart
  rw [h start, if_pos (by omega)]

theorem Deep.append {depth depth' : Nat} (h : Deep text depth) (h' : Deep text' depth') :
    Deep (text ++ text') (max depth depth') := by
  intro start hstart
  have hfirst := h start hstart
  by_cases hfits : start + depth ≤ kMaxJsonDepth
  · rw [if_pos hfits] at hfirst
    rw [scan_append hfirst, h' start hstart]
    by_cases hfits' : start + depth' ≤ kMaxJsonDepth
    · rw [if_pos hfits', if_pos (by omega)]
    · rw [if_neg hfits', if_neg (by omega)]
  · rw [if_neg hfits] at hfirst
    rw [foldlM_append, hfirst, if_neg (by omega)]
    rfl

/-- A text that is passed over adds no depth before or after another. -/
theorem Deep.behind {depth : Nat}
    (h : ∀ start, text.foldlM step (outside start) = some (outside start)) (h' : Deep text' depth) :
    Deep (text ++ text') depth := by
  have hboth := (Deep.of_passed h).append h'
  rwa [Nat.zero_max] at hboth

theorem Deep.before {depth : Nat} (h : Deep text depth)
    (h' : ∀ start, text'.foldlM step (outside start) = some (outside start)) : Deep (text ++ text') depth := by
  have hboth := h.append (Deep.of_passed h')
  rwa [Nat.max_zero] at hboth

/-- An array or an object is one deeper than what it contains. -/
theorem Deep.bracketed {body : Text} {depth : Nat} (h : Deep body depth) {opening closing : Char}
    (hopening : opening = '\x7b' ∨ opening = '[') (hclosing : closing = '\x7d' ∨ closing = ']') :
    Deep (opening :: (body ++ [closing])) (depth + 1) := by
  intro start hstart
  have hquote : opening ≠ '"' := by
    obtain rfl | rfl := hopening
    · decide
    · decide
  by_cases hroom : start + 1 ≤ kMaxJsonDepth
  · have hopen : (outside start).step opening = some (outside (start + 1)) := by
      simp [step, outside, hquote, hopening, Nat.not_lt.mpr hroom]
    have hclose : (outside (start + 1)).step closing = some (outside start) := by
      obtain rfl | rfl := hclosing
      · rfl
      · rfl
    rw [scan_cons hopen]
    have hbody := h (start + 1) hroom
    by_cases hfits : start + 1 + depth ≤ kMaxJsonDepth
    · rw [if_pos hfits] at hbody
      rw [scan_append hbody, scan_cons hclose, if_pos (by omega)]
      rfl
    · rw [if_neg hfits] at hbody
      rw [List.foldlM_append, hbody, if_neg (by omega)]
      rfl
  · have hopen : (outside start).step opening = none := by
      simp [step, outside, hquote, hopening, Nat.lt_of_not_le hroom]
    rw [List.foldlM_cons, hopen, if_neg (by omega)]
    rfl

/-- Commas and colons add no depth either. -/
theorem Deep.separated {depth : Nat} {separator : Char} (hseparator : separator ∉ Json.delimiters)
    (h : Deep text depth) : Deep (separator :: text) depth :=
  Deep.behind (fun _ => scan_plain (Json.Plain.cons hseparator .nil)) h

theorem scan_blank (h : Json.Blank text) (start : Nat) :
    text.foldlM step (outside start) = some (outside start) := scan_plain h.plain

theorem literal_plain {word : Text} (h : word ∈ ["true".toList, "false".toList, "null".toList]) :
    Json.Plain word := by
  simp only [List.mem_cons, List.not_mem_nil, or_false] at h
  obtain rfl | rfl | rfl := h
  · exact Json.Plain.of_forall_mem (by decide) fun _ hmem => hmem
  · exact Json.Plain.of_forall_mem (by decide) fun _ hmem => hmem
  · exact Json.Plain.of_forall_mem (by decide) fun _ hmem => hmem

/-- Neither does the name of a member with the blanks around it. -/
theorem Deep.named {front name after before : Text} {depth : Nat} (hfront : Json.Blank front)
    (hname : Json.Quoted name) (hafter : Json.Blank after) (hbefore : Json.Blank before) (h : Deep text depth) :
    Deep (front ++ (name ++ (after ++ ':' :: (before ++ text)))) depth :=
  .behind (scan_blank hfront) (.behind (fun _ => scan_quoted hname) (.behind (scan_blank hafter)
    (.separated (by decide) (.behind (scan_blank hbefore) h))))

mutual

theorem value_deep {text : Text} {depth : Nat} : Json.Value text depth → Deep text depth
  | .literal hword => .of_passed fun _ => scan_plain (literal_plain hword)
  | .number hnumber => .of_passed fun _ => scan_plain hnumber.plain
  | .quoted hquoted => .of_passed fun _ => scan_quoted hquoted
  | .empty_array hblank => (Deep.of_passed (scan_blank hblank)).bracketed (.inr rfl) (.inr rfl)
  | .array hbody => (elements_deep hbody).bracketed (.inr rfl) (.inr rfl)
  | .empty_object hblank => (Deep.of_passed (scan_blank hblank)).bracketed (.inl rfl) (.inl rfl)
  | .object hbody => (members_deep hbody).bracketed (.inl rfl) (.inl rfl)

theorem elements_deep {text : Text} {depth : Nat} : Json.Elements text depth → Deep text depth
  | .last hfront hvalue hback => .behind (scan_blank hfront) ((value_deep hvalue).before (scan_blank hback))
  | .more hfront hvalue hback hrest =>
    .behind (scan_blank hfront) ((value_deep hvalue).append
      (.behind (scan_blank hback) (.separated (by decide) (elements_deep hrest))))

theorem members_deep {text : Text} {depth : Nat} : Json.Members text depth → Deep text depth
  | .last hfront hname hafter hbefore hvalue hback =>
    .named hfront hname hafter hbefore ((value_deep hvalue).before (scan_blank hback))
  | .more hfront hname hafter hbefore hvalue hback hrest =>
    .named hfront hname hafter hbefore ((value_deep hvalue).append
      (.behind (scan_blank hback) (.separated (by decide) (members_deep hrest))))

end

end DepthScan

/-- What stands between the quotation marks of a string literal in any text. -/
inductive LiteralBody : Text → Prop
  | nil : LiteralBody []
  | plain {c : Char} {rest : Text} (hquote : c ≠ '"') (hescape : c ≠ '\\') (hrest : LiteralBody rest) :
      LiteralBody (c :: rest)
  | escape {c : Char} {rest : Text} (hrest : LiteralBody rest) : LiteralBody ('\\' :: c :: rest)

/-- The front of a text ends outside of string literals, and these are its characters that stand
outside of them. -/
inductive Outside : Text → Text → Prop
  | nil : Outside [] []
  | character {front code : Text} {c : Char} (h : Outside front code) (hc : c ≠ '"') :
      Outside (front ++ [c]) (code ++ [c])
  | literal {front code body : Text} (h : Outside front code) (hbody : LiteralBody body) :
      Outside (front ++ '"' :: (body ++ ['"'])) code

/-- The opening brackets that are still open, the latest first: a closing bracket closes the
latest. -/
def pending (code : Text) : Text :=
  code.foldl (fun brackets c =>
    if c = '\x7b' ∨ c = '[' then c :: brackets
    else if c = '\x7d' ∨ c = ']' then brackets.tail
    else brackets) []

namespace DepthScan

theorem scan_literalBody {body : Text} (h : LiteralBody body) (depth : Nat) :
    body.foldlM step (inside depth) = some (inside depth) := by
  induction h with
  | nil => rfl
  | plain hquote hescape _ ih => rw [scan_cons (step_inside hquote hescape), ih]
  | escape _ ih => rw [scan_cons step_escape, scan_cons (step_escaped _), ih]

/-- A step outside of strings keeps the number of pending brackets, up to the limit. -/
theorem step_pending {code : Text} {c : Char} (hc : c ≠ '"') {scan : DepthScan}
    (h : (outside (pending code).length).step c = some scan) (hle : (pending code).length ≤ kMaxJsonDepth) :
    scan = outside (pending (code ++ [c])).length ∧ (pending (code ++ [c])).length ≤ kMaxJsonDepth := by
  have hsnoc : pending (code ++ [c]) = if c = '\x7b' ∨ c = '[' then c :: pending code
      else if c = '\x7d' ∨ c = ']' then (pending code).tail else pending code := by
    rw [pending, foldl_append]
    rfl
  rw [hsnoc]
  rw [step_outside hc] at h
  by_cases hopening : c = '\x7b' ∨ c = '['
  · rw [if_pos hopening] at h ⊢
    by_cases hroom : (pending code).length + 1 > kMaxJsonDepth
    · rw [if_pos hroom] at h
      cases h
    · rw [if_neg hroom] at h
      cases h
      exact ⟨rfl, Nat.le_of_not_lt hroom⟩
  rw [if_neg hopening] at h ⊢
  by_cases hclosing : c = '\x7d' ∨ c = ']'
  · rw [if_pos hclosing, length_tail]
    by_cases hsome : (pending code).length > 0
    · rw [if_pos ⟨hclosing, hsome⟩] at h
      cases h
      exact ⟨rfl, by omega⟩
    · rw [if_neg (fun hboth => hsome hboth.2)] at h
      cases h
      rw [Nat.eq_zero_of_not_pos hsome]
      exact ⟨rfl, Nat.zero_le _⟩
  · rw [if_neg (fun hboth => hclosing hboth.1)] at h
    cases h
    rw [if_neg hclosing]
    exact ⟨rfl, hle⟩

/-- As long as the scan goes on, it counts the pending brackets. -/
theorem scan_outside {front code : Text} (h : Outside front code) {scan : DepthScan}
    (hscan : front.foldlM step {} = some scan) :
    scan = outside (pending code).length ∧ (pending code).length ≤ kMaxJsonDepth := by
  induction h generalizing scan with
  | nil =>
    cases hscan
    exact ⟨rfl, Nat.zero_le _⟩
  | @character front code c h hc ih =>
    rw [foldlM_append] at hscan
    obtain ⟨before, hbefore, hstep⟩ := bind_eq_some_iff.mp hscan
    obtain ⟨rfl, hle⟩ := ih hbefore
    rw [foldlM_cons] at hstep
    obtain ⟨after, hafter, hdone⟩ := bind_eq_some_iff.mp hstep
    cases hdone
    exact step_pending hc hafter hle
  | @literal front code body h hbody ih =>
    rw [foldlM_append] at hscan
    obtain ⟨before, hbefore, hstep⟩ := bind_eq_some_iff.mp hscan
    obtain ⟨rfl, hle⟩ := ih hbefore
    have hopen : (outside (pending code).length).step '"' = some (inside (pending code).length) := rfl
    have hclose : (inside (pending code).length).step '"' = some (outside (pending code).length) := rfl
    rw [scan_cons hopen, scan_append (scan_literalBody hbody _), scan_cons hclose] at hstep
    cases hstep
    exact ⟨rfl, hle⟩

end DepthScan

/-- A JSON text is let through exactly when it nests at most 64 deep, and in whatever text is let
through at most 64 brackets are open at each place outside of its strings. -/
theorem within_depth_exact :
    (∀ text depth, Json.Document text depth → (within_depth text = true ↔ depth ≤ 64)) ∧
    ∀ text, within_depth text = true →
      ∀ front rest code, text = front ++ rest → Outside front code → (pending code).length ≤ 64 := by
  constructor
  · intro text depth hdocument
    obtain ⟨hfront, hvalue, hback⟩ := hdocument
    have hdeep := DepthScan.Deep.behind (DepthScan.scan_blank hfront)
      ((DepthScan.value_deep hvalue).before (DepthScan.scan_blank hback)) 0 (Nat.zero_le _)
    change (foldlM DepthScan.step (DepthScan.outside 0) _).isSome = true ↔ depth ≤ kMaxJsonDepth
    rw [hdeep, Nat.zero_add]
    split
    · rename_i hfits
      exact iff_of_true rfl hfits
    · rename_i hdeeper
      exact iff_of_false Bool.false_ne_true hdeeper
  · rintro text hwithin front rest code rfl houtside
    obtain ⟨last, hlast⟩ := isSome_iff_exists.mp hwithin
    rw [foldlM_append] at hlast
    obtain ⟨scan, hscan, -⟩ := bind_eq_some_iff.mp hlast
    exact (DepthScan.scan_outside houtside hscan).2

/-- A bracket in a string counts for nothing. -/
theorem within_depth_exact_quoted :
    within_depth "[\"[\"]".toList = true ∧ (pending ['[']).length ≤ 64 := by
  have hblank : Json.Blank [] := fun _ hmem => absurd hmem not_mem_nil
  have hvalue : Json.Value "[\"[\"]".toList 1 := by
    have hquoted : Json.Quoted ['"', '[', '"'] :=
      .mk (.plain (by decide) (by decide) (by decide) .nil)
    have hbody : Json.Elements ['"', '[', '"'] 0 :=
      Json.Elements.last hblank (.quoted hquoted) hblank
    exact .array hbody
  have hdocument : Json.Document "[\"[\"]".toList 1 :=
    Json.Document.mk hblank hvalue hblank
  have hwithin := (within_depth_exact.1 _ 1 hdocument).mpr (by decide)
  exact ⟨hwithin, within_depth_exact.2 _ hwithin ['['] _ ['['] rfl (.character .nil (by decide))⟩

end erikslund.stratum
