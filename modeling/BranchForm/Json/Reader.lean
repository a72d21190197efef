import BranchForm.Text.Hex
import BranchForm.Value.Display
import BranchForm.Value.Members

/-!
# Reading JSON text

A text is read from the front; every part that is read leaves a shorter rest. A text that is not
JSON is refused with the place where reading stopped.

* `Json.Problem` names what was found amiss and `Json.Failure` adds how much text was left there;
* `Json.readValue` reads one value from the front of a text;
* `Json.read` reads a whole text; the numbers `NaN`, `Infinity` and `-Infinity` are admitted, of
  equal names in a record the last value counts, and a whole number of more digits than a number may
  have ends the reading where it is met; unpaired surrogates are not kept apart (`Json.unitChar`);
* `Json.Failure.message` gives the place by line, column and number of characters before it.
-/

namespace BranchForm.Json

open BranchForm.Text (hexValue)

/-- What is amiss with a text that is not JSON. -/
inductive Problem where
  /-- No value begins here. -/
  | value
  /-- The name of a member does not begin here. -/
  | name
  /-- A name is not followed by a colon. -/
  | colon
  /-- An element is followed neither by a comma nor by the end. -/
  | comma
  /-- A value is followed by more text. -/
  | extra
  /-- A string does not end. -/
  | unterminated
  /-- A string holds a control character. -/
  | control
  /-- A backslash is followed by a letter without meaning. -/
  | escape
  /-- A code unit is not written with four hexadecimal digits. -/
  | unit
  /-- The text begins with a byte order mark. -/
  | byteOrderMark
  /-- A whole number has more digits than a number may have. -/
  | longNumber
  deriving DecidableEq, Repr

/-- A problem in words. -/
def Problem.words : Problem → String
  | .value => "Expecting value"
  | .name => "Expecting property name enclosed in double quotes"
  | .colon => "Expecting ':' delimiter"
  | .comma => "Expecting ',' delimiter"
  | .extra => "Extra data"
  | .unterminated => "Unterminated string starting at"
  | .control => "Invalid control character at"
  | .escape => "Invalid \\escape"
  | .unit => "Invalid \\uXXXX escape"
  | .byteOrderMark => "Unexpected UTF-8 BOM (decode using utf-8-sig)"
  | .longNumber => "Number with too many digits"

/-- A problem and the number of characters from its place to the end. -/
structure Failure where
  /-- What is amiss. -/
  problem : Problem
  /-- Characters left at the place. -/
  left : Nat
  deriving DecidableEq, Repr

/-- The failure of reading `text`, with its place. -/
def Failure.message (f : Failure) (text : List Char) : String :=
  let before := text.take (text.length - f.left)
  let line := before.count '\n' + 1
  let column := (before.reverse.takeWhile (· != '\n')).length + 1
  s!"{f.problem.words}: line {line} column {column} (char {before.length})"

/-- What is left after a part of a text has been read: less than before. -/
abbrev Rest (cs : List Char) := { r : List Char // r.length < cs.length }

/-- The blanks between the parts of a text. -/
def isSpace (c : Char) : Bool := c == ' ' || c == '\n' || c == '\t' || c == '\r'

/-- A text without the blanks at its front. -/
def skip (cs : List Char) : List Char := cs.dropWhile isSpace

theorem length_skip_le (cs : List Char) : (skip cs).length ≤ cs.length :=
  (List.dropWhile_suffix _).length_le

/-- The number that a digit stands for. -/
def digitValue (c : Char) : Nat := c.toNat - '0'.toNat

/-- The number written by decimal digits. -/
def decimal (ds : List Char) : Nat := ds.foldl (fun n d => 10 * n + digitValue d) 0

/-- The code unit written by four hexadecimal digits. -/
def hexUnit (a b c d : Char) : Option Nat := do
  let a ← hexValue a
  let b ← hexValue b
  let c ← hexValue c
  let d ← hexValue d
  pure (((a * 16 + b) * 16 + c) * 16 + d)

/-- The character of a single code unit. A surrogate without its partner is no character; it is read
as U+FFFD, so texts that differ in unpaired surrogates only are read as one, where a reader whose
texts can hold surrogates keeps them apart. -/
def unitChar (n : Nat) : Char :=
  if 0xD800 ≤ n ∧ n < 0xE000 then Char.ofNat 0xFFFD else Char.ofNat n

/-- The character that a backslash and a letter stand for. -/
def escapedChar (c : Char) : Option Char :=
  if c = '"' ∨ c = '\\' ∨ c = '/' then some c
  else if c = 'b' then some (Char.ofNat 8)
  else if c = 'f' then some (Char.ofNat 12)
  else if c = 'n' then some '\n'
  else if c = 'r' then some '\r'
  else if c = 't' then some '\t'
  else none

/-- The second half of a surrogate pair at the front of a text, if the text goes on behind it. -/
def lowSurrogate (cs : List Char) : Except Failure (Option (Nat × List Char)) :=
  match cs with
  | '\\' :: 'u' :: a :: b :: c :: d :: e :: r =>
    match hexUnit a b c d with
    | none => .error ⟨.unit, (e :: r).length + 5⟩
    | some n => .ok (if 0xDC00 ≤ n ∧ n < 0xE000 then some (n, e :: r) else none)
  | _ => .ok none

theorem length_of_lowSurrogate {cs : List Char} {n : Nat} {r : List Char}
    (h : lowSurrogate cs = .ok (some (n, r))) : r.length < cs.length := by
  unfold lowSurrogate at h
  split at h
  · split at h
    · simp at h
    · simp only [Except.ok.injEq] at h
      split at h
      · simp only [Option.some.injEq, Prod.mk.injEq] at h
        rw [← h.2]; simp only [List.length_cons]; omega
      · simp at h
  · simp at h

/-- The character of a code unit and what follows it, with the partner of a leading surrogate. -/
def unitWith (n : Nat) (cs : List Char) :
    Except Failure (Char × { r : List Char // r.length ≤ cs.length }) :=
  if 0xD800 ≤ n ∧ n < 0xDC00 then
    match h : lowSurrogate cs with
    | .error f => .error f
    | .ok none => .ok (unitChar n, ⟨cs, Nat.le_refl _⟩)
    | .ok (some (m, r)) =>
      .ok (Char.ofNat (0x10000 + (n - 0xD800) * 0x400 + (m - 0xDC00)),
        ⟨r, Nat.le_of_lt (length_of_lowSurrogate h)⟩)
  else .ok (unitChar n, ⟨cs, Nat.le_refl _⟩)

/-- The rest of a string behind its opening quote, from which `start` characters are left. The
characters read so far are collected in reverse. -/
def readString (start : Nat) (seen cs : List Char) :
    Except Failure (List Char × List Char) :=
  match cs with
  | [] => .error ⟨.unterminated, start⟩
  | '"' :: r => .ok (seen.reverse, r)
  | '\\' :: [] => .error ⟨.unterminated, start⟩
  | '\\' :: 'u' :: r =>
    match r with
    | a :: b :: c :: d :: e :: q =>
      match hexUnit a b c d with
      | none => .error ⟨.unit, q.length + 6⟩
      | some n => match unitWith n (e :: q) with
        | .error f => .error f
        | .ok (ch, ⟨rest, _⟩) => readString start (ch :: seen) rest
    | _ => .error ⟨.unit, r.length + 1⟩
  | '\\' :: c :: r =>
    match escapedChar c with
    | none => .error ⟨.escape, r.length + 2⟩
    | some ch => readString start (ch :: seen) r
  | c :: r =>
    if c.toNat < 32 then .error ⟨.control, r.length + 1⟩ else readString start (c :: seen) r
termination_by cs.length
decreasing_by all_goals (simp only [List.length_cons] at *; omega)

theorem length_of_readString {start : Nat} {seen cs s r : List Char}
    (h : readString start seen cs = .ok (s, r)) : r.length < cs.length := by
  fun_induction readString start seen cs with
  | case1 => simp at h
  | case2 => simp_all
  | case3 => simp at h
  | case4 => simp at h
  | case5 => simp at h
  | case6 seen a b c d e q n hn ch rest hrest heq ih =>
    have := ih h
    have : rest.length ≤ q.length + 1 := hrest
    simp only [List.length_cons]
    omega
  | case7 => simp at h
  | case8 => simp at h
  | case9 seen c r ch heq hne ih =>
    have := ih h
    simp only [List.length_cons]
    omega
  | case10 => simp at h
  | case11 seen c r _ _ _ _ hc ih =>
    have := ih h
    simp only [List.length_cons]
    omega

/-- A string, with the opening quote already read from the front of `cs`. -/
def readText (cs : List Char) : Except Failure (String × Rest cs) :=
  match h : readString (cs.length + 1) [] cs with
  | .error f => .error f
  | .ok (s, r) => .ok (String.ofList s, ⟨r, length_of_readString h⟩)

/-- Digits at the front of a text, and what follows them. -/
def digits (cs : List Char) : List Char × List Char :=
  (cs.takeWhile Char.isDigit, cs.dropWhile Char.isDigit)

/-- The digits of a decimal fraction behind the point, or none. -/
def fractionDigits (cs : List Char) : List Char × List Char :=
  match cs with
  | '.' :: r => if (digits r).1.isEmpty then ([], cs) else digits r
  | _ => ([], cs)

/-- The sign of an exponent, and what follows it. -/
def exponentSign (cs : List Char) : Bool × List Char :=
  match cs with
  | '-' :: r => (true, r)
  | '+' :: r => (false, r)
  | _ => (false, cs)

/-- The exponent, or none. -/
def exponentPart (cs : List Char) : Option Int × List Char :=
  match cs with
  | c :: r =>
    let ds := (exponentSign r).2
    if (c = 'e' ∨ c = 'E') ∧ (digits ds).1 ≠ [] then
      let n : Int := decimal (digits ds).1
      (some (if (exponentSign r).1 then -n else n), (digits ds).2)
    else (none, cs)
  | [] => (none, cs)

/-- A number that begins with the digits `whole`, and what follows it. There is no whole number of
very many digits. -/
def numberFrom (negative : Bool) (whole cs : List Char) : Option Value × List Char :=
  let (part, r) := fractionDigits cs
  let (exponent, r) := exponentPart r
  if part.isEmpty ∧ exponent = none then
    let n : Int := decimal whole
    (if whole.length ≤ Value.mostDigits then some (.int (if negative then -n else n)) else none, r)
  else
    (some (.float (.ofDecimal negative (decimal (whole ++ part)) (exponent.getD 0 - part.length))),
      r)

/-- A number together with what is left behind it, or the failure at its place. -/
def finishNumber (left : Nat) {cs : List Char} (v : Option Value) (rest : Rest cs) :
    Except Failure (Value × Rest cs) :=
  match v with
  | some v => .ok (v, rest)
  | none => .error ⟨.longNumber, left⟩

theorem length_digits_le (cs : List Char) : (digits cs).2.length ≤ cs.length :=
  (List.dropWhile_suffix _).length_le

theorem length_fractionDigits_le (cs : List Char) : (fractionDigits cs).2.length ≤ cs.length := by
  unfold fractionDigits
  split
  · split
    · exact Nat.le_refl _
    · exact Nat.le_succ_of_le (length_digits_le _)
  · exact Nat.le_refl _

theorem length_exponentSign_le (cs : List Char) : (exponentSign cs).2.length ≤ cs.length := by
  unfold exponentSign
  split <;> simp

theorem length_exponentPart_le (cs : List Char) : (exponentPart cs).2.length ≤ cs.length := by
  unfold exponentPart
  split
  · next c r =>
    dsimp only
    split
    · exact Nat.le_trans (length_digits_le _) (Nat.le_succ_of_le (length_exponentSign_le r))
    · exact Nat.le_refl _
  · exact Nat.le_refl _

theorem length_numberFrom_le (negative : Bool) (whole cs : List Char) :
    (numberFrom negative whole cs).2.length ≤ cs.length := by
  have h :=
    Nat.le_trans (length_exponentPart_le (fractionDigits cs).2) (length_fractionDigits_le cs)
  unfold numberFrom
  dsimp only
  split <;> exact h

/-- A number behind its sign, at the front of `cs`. -/
def readUnsigned (negative : Bool) (left : Nat) (cs : List Char) :
    Except Failure (Value × Rest cs) :=
  match cs with
  | [] => .error ⟨.value, left⟩
  | c :: r =>
    if c = '0' then
      finishNumber left (numberFrom negative ['0'] r).1
        ⟨_, Nat.lt_succ_of_le (length_numberFrom_le negative ['0'] r)⟩
    else if c.isDigit then
      finishNumber left (numberFrom negative (c :: (digits r).1) (digits r).2).1
        ⟨_, Nat.lt_succ_of_le (Nat.le_trans
          (length_numberFrom_le negative (c :: (digits r).1) (digits r).2) (length_digits_le r))⟩
    else .error ⟨.value, left⟩

/-- A word or a number at the front of a text. -/
def readAtom (cs : List Char) : Except Failure (Value × Rest cs) :=
  match cs with
  | 'n' :: 'u' :: 'l' :: 'l' :: r => .ok (.null, ⟨r, by simp only [List.length_cons]; omega⟩)
  | 't' :: 'r' :: 'u' :: 'e' :: r => .ok (.bool true, ⟨r, by simp only [List.length_cons]; omega⟩)
  | 'f' :: 'a' :: 'l' :: 's' :: 'e' :: r =>
    .ok (.bool false, ⟨r, by simp only [List.length_cons]; omega⟩)
  | 'N' :: 'a' :: 'N' :: r => .ok (.float .nan, ⟨r, by simp only [List.length_cons]; omega⟩)
  | 'I' :: 'n' :: 'f' :: 'i' :: 'n' :: 'i' :: 't' :: 'y' :: r =>
    .ok (.float (.infinite false), ⟨r, by simp only [List.length_cons]; omega⟩)
  | '-' :: 'I' :: 'n' :: 'f' :: 'i' :: 'n' :: 'i' :: 't' :: 'y' :: r =>
    .ok (.float (.infinite true), ⟨r, by simp only [List.length_cons]; omega⟩)
  | '-' :: r => match readUnsigned true (r.length + 1) r with
    | .error f => .error f
    | .ok (v, ⟨t, h⟩) => .ok (v, ⟨t, Nat.lt_succ_of_lt h⟩)
  | cs => readUnsigned false cs.length cs

mutual

/-- A value at the front of a text. -/
def readValue (cs : List Char) : Except Failure (Value × Rest cs) :=
  match cs with
  | '"' :: r => match readText r with
    | .error f => .error f
    | .ok (s, ⟨t, h⟩) => .ok (.text s, ⟨t, Nat.lt_succ_of_lt h⟩)
  | '\x7b' :: r =>
    have hr := length_skip_le r
    match h : skip r with
    | '\x7d' :: t => .ok (.record [], ⟨t, by simp only [h, List.length_cons] at *; omega⟩)
    | s => match readMembers s with
      | .error f => .error f
      | .ok (ms, ⟨t, ht⟩) =>
        .ok (.record (Members.ofPairs ms), ⟨t, by simp only [h, List.length_cons] at *; omega⟩)
  | '[' :: r =>
    have hr := length_skip_le r
    match h : skip r with
    | ']' :: t => .ok (.list [], ⟨t, by simp only [h, List.length_cons] at *; omega⟩)
    | s => match readItems s with
      | .error f => .error f
      | .ok (vs, ⟨t, ht⟩) =>
        .ok (.list vs, ⟨t, by simp only [h, List.length_cons] at *; omega⟩)
  | cs => readAtom cs
termination_by (cs.length, 0)
decreasing_by all_goals (apply Prod.Lex.left; simp_all only [List.length_cons]; omega)

/-- The elements of a list up to its end. -/
def readItems (cs : List Char) : Except Failure (List Value × Rest cs) :=
  match readValue cs with
  | .error f => .error f
  | .ok (v, ⟨r, hr⟩) =>
    have hs := length_skip_le r
    match h : skip r with
    | ']' :: t => .ok ([v], ⟨t, by simp only [h, List.length_cons] at *; omega⟩)
    | ',' :: t =>
      have ht := length_skip_le t
      match readItems (skip t) with
      | .error f => .error f
      | .ok (vs, ⟨u, hu⟩) => .ok (v :: vs, ⟨u, by simp only [h, List.length_cons] at *; omega⟩)
    | s => .error ⟨.comma, s.length⟩
termination_by (cs.length, 1)
decreasing_by
  · apply Prod.Lex.right; omega
  · apply Prod.Lex.left; simp only [h, List.length_cons] at *; omega

/-- The members of a record up to its end, in the order they are written. -/
def readMembers (cs : List Char) : Except Failure (List (Value × Value) × Rest cs) :=
  match cs with
  | '"' :: q => match readText q with
    | .error f => .error f
    | .ok (name, ⟨r, hr⟩) =>
      have hs := length_skip_le r
      match h : skip r with
      | ':' :: t =>
        have ht := length_skip_le t
        match readValue (skip t) with
        | .error f => .error f
        | .ok (v, ⟨u, hu⟩) =>
          have hu' := length_skip_le u
          match h' : skip u with
          | '\x7d' :: w =>
            .ok ([(.text name, v)], ⟨w, by simp only [h, h', List.length_cons] at *; omega⟩)
          | ',' :: w =>
            have hw := length_skip_le w
            match readMembers (skip w) with
            | .error f => .error f
            | .ok (ms, ⟨x, hx⟩) =>
              .ok ((.text name, v) :: ms, ⟨x, by simp only [h, h', List.length_cons] at *; omega⟩)
          | s => .error ⟨.comma, s.length⟩
      | s => .error ⟨.colon, s.length⟩
  | cs => .error ⟨.name, cs.length⟩
termination_by (cs.length, 1)
decreasing_by
  · apply Prod.Lex.left; simp only [h, List.length_cons] at *; omega
  · apply Prod.Lex.left; simp only [h, h', List.length_cons] at *; omega

end

/-- The value of a whole text. -/
def readAll (cs : List Char) : Except Failure Value :=
  match cs with
  | '\uFEFF' :: _ => .error ⟨.byteOrderMark, cs.length⟩
  | _ => match readValue (skip cs) with
    | .error f => .error f
    | .ok (v, ⟨r, _⟩) => match skip r with
      | [] => .ok v
      | s => .error ⟨.extra, s.length⟩

/-- Why a text has no value. -/
inductive Refusal where
  /-- It is not JSON, for the reason given. -/
  | syntaxError (reason : String)
  /-- A number in it has more digits than a number may have. -/
  | longNumber
  deriving DecidableEq, Repr

/-- The value of a JSON text, or why it has none. -/
def read (s : String) : Except Refusal Value :=
  (readAll s.toList).mapError fun f =>
    if f.problem = .longNumber then .longNumber else .syntaxError (f.message s.toList)

end BranchForm.Json
