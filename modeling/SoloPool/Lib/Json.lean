import Mathlib.Data.List.Basic

/-! The grammar of JSON texts, with the depth to which arrays and objects nest. -/

namespace Json

open List

/-- Insignificant white space. -/
def Blank (text : List Char) : Prop := ∀ c ∈ text, c ∈ [' ', '\t', '\n', '\r']

def Digits (text : List Char) : Prop := text ≠ [] ∧ ∀ c ∈ text, c.isDigit = true

inductive Integer : List Char → Prop
  | zero : Integer ['0']
  | digits {first : Char} {rest : List Char} (hfirst : first.isDigit = true) (hne : first ≠ '0')
      (hrest : ∀ c ∈ rest, c.isDigit = true) : Integer (first :: rest)

inductive Fraction : List Char → Prop
  | none : Fraction []
  | some {digits : List Char} (hdigits : Digits digits) : Fraction ('.' :: digits)

inductive Exponent : List Char → Prop
  | none : Exponent []
  | some {mark : Char} {sign digits : List Char} (hmark : mark ∈ ['e', 'E']) (hsign : sign ∈ [[], ['+'], ['-']])
      (hdigits : Digits digits) : Exponent (mark :: (sign ++ digits))

inductive Number : List Char → Prop
  | mk {sign integer fraction exponent : List Char} (hsign : sign ∈ [[], ['-']]) (hinteger : Integer integer)
      (hfraction : Fraction fraction) (hexponent : Exponent exponent) :
      Number (sign ++ (integer ++ (fraction ++ exponent)))

def HexDigit (c : Char) : Prop := c.isDigit = true ∨ c ∈ ['a', 'b', 'c', 'd', 'e', 'f', 'A', 'B', 'C', 'D', 'E', 'F']

/-- What stands between the quotation marks of a string. -/
inductive Characters : List Char → Prop
  | nil : Characters []
  | plain {c : Char} {rest : List Char} (hcontrol : 0x20 ≤ c.toNat) (hquote : c ≠ '"') (hescape : c ≠ '\\')
      (hrest : Characters rest) : Characters (c :: rest)
  | escape {c : Char} {rest : List Char} (hc : c ∈ ['"', '\\', '/', 'b', 'f', 'n', 'r', 't'])
      (hrest : Characters rest) : Characters ('\\' :: c :: rest)
  | unicode {a b c d : Char} {rest : List Char} (ha : HexDigit a) (hb : HexDigit b) (hc : HexDigit c)
      (hd : HexDigit d) (hrest : Characters rest) : Characters ('\\' :: 'u' :: a :: b :: c :: d :: rest)

inductive Quoted : List Char → Prop
  | mk {characters : List Char} (hcharacters : Characters characters) : Quoted ('"' :: (characters ++ ['"']))

mutual

/-- A value, and the depth to which its arrays and objects nest. -/
inductive Value : List Char → Nat → Prop
  | literal {word : List Char} (hword : word ∈ ["true".toList, "false".toList, "null".toList]) : Value word 0
  | number {text : List Char} (hnumber : Number text) : Value text 0
  | quoted {text : List Char} (hquoted : Quoted text) : Value text 0
  | empty_array {blank : List Char} (hblank : Blank blank) : Value ('[' :: (blank ++ [']'])) 1
  | array {body : List Char} {depth : Nat} (hbody : Elements body depth) : Value ('[' :: (body ++ [']'])) (depth + 1)
  | empty_object {blank : List Char} (hblank : Blank blank) : Value ('\x7b' :: (blank ++ ['\x7d'])) 1
  | object {body : List Char} {depth : Nat} (hbody : Members body depth) :
      Value ('\x7b' :: (body ++ ['\x7d'])) (depth + 1)

/-- The values of an array, with a comma between two of them. -/
inductive Elements : List Char → Nat → Prop
  | last {front value back : List Char} {depth : Nat} (hfront : Blank front) (hvalue : Value value depth)
      (hback : Blank back) : Elements (front ++ (value ++ back)) depth
  | more {front value back rest : List Char} {depth depth' : Nat} (hfront : Blank front) (hvalue : Value value depth)
      (hback : Blank back) (hrest : Elements rest depth') :
      Elements (front ++ (value ++ (back ++ ',' :: rest))) (max depth depth')

/-- The members of an object, each a string and a value with a colon between them. -/
inductive Members : List Char → Nat → Prop
  | last {front name after before value back : List Char} {depth : Nat} (hfront : Blank front) (hname : Quoted name)
      (hafter : Blank after) (hbefore : Blank before) (hvalue : Value value depth) (hback : Blank back) :
      Members (front ++ (name ++ (after ++ ':' :: (before ++ (value ++ back))))) depth
  | more {front name after before value back rest : List Char} {depth depth' : Nat} (hfront : Blank front)
      (hname : Quoted name) (hafter : Blank after) (hbefore : Blank before) (hvalue : Value value depth)
      (hback : Blank back) (hrest : Members rest depth') :
      Members (front ++ (name ++ (after ++ ':' :: (before ++ (value ++ (back ++ ',' :: rest)))))) (max depth depth')

end

/-- A whole text. -/
inductive Document : List Char → Nat → Prop
  | mk {front value back : List Char} {depth : Nat} (hfront : Blank front) (hvalue : Value value depth)
      (hback : Blank back) : Document (front ++ (value ++ back)) depth

/-- The characters that delimit strings, arrays and objects. -/
def delimiters : List Char := ['"', '[', ']', '\x7b', '\x7d']

/-- A text without any of them. -/
def Plain (text : List Char) : Prop := ∀ c ∈ text, c ∉ delimiters

namespace Plain

variable {text text' : List Char}

theorem nil : Plain [] := fun _ hmem => absurd hmem not_mem_nil

theorem cons {c : Char} (hc : c ∉ delimiters) (h : Plain text) : Plain (c :: text) :=
  forall_mem_cons.mpr ⟨hc, h⟩

theorem append (h : Plain text) (h' : Plain text') : Plain (text ++ text') :=
  forall_mem_append.mpr ⟨h, h'⟩

/-- A text of characters that are all in a list without delimiters. -/
theorem of_forall_mem {allowed : List Char} (hallowed : allowed.all (fun c => delimiters.all (· != c)) = true)
    (h : ∀ c ∈ text, c ∈ allowed) : Plain text := by
  intro c hmem hdelimiter
  have hfree := all_eq_true.mp (all_eq_true.mp hallowed c (h c hmem)) c hdelimiter
  exact bne_iff_ne.mp hfree rfl

theorem digit {c : Char} (h : c.isDigit = true) : c ∉ delimiters := by
  intro hmem
  have hnone : delimiters.all (fun c => !c.isDigit) = true := by decide
  have hc := all_eq_true.mp hnone c hmem
  rw [h] at hc
  cases hc

theorem digits (h : ∀ c ∈ text, c.isDigit = true) : Plain text := fun c hmem => digit (h c hmem)

end Plain

variable {text : List Char}

theorem Blank.plain (h : Blank text) : Plain text := Plain.of_forall_mem (by decide) h

theorem Integer.plain (h : Integer text) : Plain text := by
  cases h with
  | zero => exact Plain.cons (by decide) .nil
  | digits hfirst _ hrest => exact Plain.cons (Plain.digit hfirst) (Plain.digits hrest)

theorem Fraction.plain (h : Fraction text) : Plain text := by
  cases h with
  | none => exact .nil
  | some hdigits => exact Plain.cons (by decide) (Plain.digits hdigits.2)

theorem Exponent.plain (h : Exponent text) : Plain text := by
  cases h with
  | none => exact .nil
  | some hmark hsign hdigits =>
    simp only [mem_cons, not_mem_nil, or_false] at hmark hsign
    have hsigned := Plain.digits hdigits.2
    obtain rfl | rfl := hmark
    all_goals obtain rfl | rfl | rfl := hsign
    all_goals first
      | exact Plain.cons (by decide) hsigned
      | exact Plain.cons (by decide) (Plain.cons (by decide) hsigned)

theorem Number.plain (h : Number text) : Plain text := by
  cases h with
  | mk hsign hinteger hfraction hexponent =>
    have hrest := hinteger.plain.append (hfraction.plain.append hexponent.plain)
    simp only [mem_cons, not_mem_nil, or_false] at hsign
    obtain rfl | rfl := hsign
    · exact hrest
    · exact Plain.cons (by decide) hrest

end Json
