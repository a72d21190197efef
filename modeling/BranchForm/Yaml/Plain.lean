import BranchForm.Value.Display
import BranchForm.Yaml.Line

/-!
# What an unquoted text stands for

A text without quotes stands for itself unless its form is that of an empty value, a truth value, a
number or a moment of time. The forms are those of YAML 1.1: numbers may be divided by underscores
and written in base two, eight, sixteen and sixty; a number with a point needs a sign in its
exponent.

* `Yaml.Plain.isInt` and `Yaml.Plain.isFloat` recognise the forms of numbers, `Yaml.Plain.moment?`
  reads those of moments;
* `Yaml.Plain.kind` tells what an unquoted text stands for: only those of kind `text` may be written
  without quotes;
* `Yaml.Plain.int?` and `Yaml.Plain.float` read the numbers.
-/

namespace BranchForm.Yaml

/-- What an unquoted text can stand for. -/
inductive PlainKind where
  /-- The text itself. -/
  | text
  /-- No value. -/
  | null
  /-- A truth value. -/
  | bool
  /-- A whole number. -/
  | int
  /-- A number with a point. -/
  | float
  /-- A date or a point in time. -/
  | moment
  /-- The name under which a mapping takes over the members of another one. -/
  | merge
  /-- The name of the default member of a mapping. -/
  | default
  deriving DecidableEq, Repr

namespace Plain

/-- The words that stand for no value. -/
def nullWords : List String := ["", "~", "null", "Null", "NULL"]

/-- The words that stand for true. -/
def trueWords : List String := ["yes", "Yes", "YES", "true", "True", "TRUE", "on", "On", "ON"]

/-- The words that stand for false. -/
def falseWords : List String := ["no", "No", "NO", "false", "False", "FALSE", "off", "Off", "OFF"]

/-- The words for infinity, without a sign. -/
def infinityWords : List String := [".inf", ".Inf", ".INF"]

/-- The words for an undefined result. -/
def undefinedWords : List String := [".nan", ".NaN", ".NAN"]

/-! ### Forms of numbers -/

/-- A number without its sign. -/
def unsigned : List Char → List Char
  | '-' :: cs => cs
  | '+' :: cs => cs
  | cs => cs

/-- Whether a number has a minus sign. -/
def isNegative (cs : List Char) : Bool := cs.head? == some '-'

/-- Digits may be divided by underscores. -/
def isDigitOrGap (c : Char) : Bool := c.isDigit || c == '_'

/-- What follows groups of one or two digits below sixty, each behind a colon. -/
def afterSixties : List Char → List Char
  | ':' :: a :: b :: cs =>
    if '0' ≤ a && a ≤ '5' && b.isDigit then afterSixties cs
    else if a.isDigit then afterSixties (b :: cs)
    else ':' :: a :: b :: cs
  | [':', a] => if a.isDigit then [] else [':', a]
  | cs => cs

/-- Whether a text is an exponent with its sign. -/
def isExponent : List Char → Bool
  | e :: sign :: ds => (e == 'e' || e == 'E') && (sign == '-' || sign == '+') &&
      !ds.isEmpty && ds.all Char.isDigit
  | _ => false

/-- Whether a text consists of digits, behind which an exponent may stand. -/
def isFractionPart (cs : List Char) : Bool :=
  let rest := cs.dropWhile isDigitOrGap
  rest.isEmpty || isExponent rest

/-- Whether a text has the form of a whole number. -/
def isInt (cs : List Char) : Bool :=
  match unsigned cs with
  | ['0'] => true
  | '0' :: 'b' :: r => !r.isEmpty && r.all fun c => c == '0' || c == '1' || c == '_'
  | '0' :: 'x' :: r => !r.isEmpty && r.all fun c =>
      isDigitOrGap c || ('a' ≤ c && c ≤ 'f') || ('A' ≤ c && c ≤ 'F')
  | '0' :: r => r.all fun c => ('0' ≤ c && c ≤ '7') || c == '_'
  | d :: r => d.isDigit &&
      match r.dropWhile isDigitOrGap with
      | [] => true
      | rest => rest.head? == some ':' && (afterSixties rest).isEmpty
  | [] => false

/-- Whether a text has the form of a number with a point. -/
def isFloat (cs : List Char) : Bool :=
  (match unsigned cs with
    | d :: r => d.isDigit &&
        match r.dropWhile isDigitOrGap with
        | '.' :: part => isFractionPart part
        | ':' :: rest => match afterSixties (':' :: rest) with
          | '.' :: part => part.all isDigitOrGap
          | _ => false
        | _ => false
    | [] => false) ||
  (match cs with
    | '.' :: d :: part => d.isDigit && isFractionPart part
    | _ => false) ||
  infinityWords.contains (String.ofList (unsigned cs)) ||
  undefinedWords.contains (String.ofList cs)

/-- The number that a digit stands for, letters counting from ten. -/
def digitValue (c : Char) : Nat :=
  if c.isDigit then c.toNat - '0'.toNat else c.toLower.toNat - 'a'.toNat + 10

/-- The number that digits stand for in a base. -/
def numeral (base : Nat) (ds : List Char) : Nat :=
  ds.foldl (fun n d => base * n + digitValue d) 0

/-! ### Forms of moments -/

/-- The number that the digits at the front of a text stand for, of which there must be a least and
may be a most count, and what follows them. -/
def leading (least most : Nat) (cs : List Char) : Option (Nat × List Char) :=
  let ds := (cs.take most).takeWhile Char.isDigit
  if ds.length < least then none else some (numeral 10 ds, cs.drop ds.length)

/-- What follows a character at the front of a text. -/
def behind (c : Char) : List Char → Option (List Char)
  | d :: cs => if d = c then some cs else none
  | [] => none

/-- The day at the front of a text, whose month and day have at least a count of digits. -/
def readDay (least : Nat) (cs : List Char) : Option (Day × List Char) := do
  let (year, r) ← leading 4 4 cs
  let (month, r) ← leading least 2 (← behind '-' r)
  let (day, r) ← leading least 2 (← behind '-' r)
  pure (⟨year, month, day⟩, r)

/-- What follows the letter or the blanks between a day and a time of day. -/
def behindDay : List Char → Option (List Char)
  | c :: cs =>
    if c = 'T' ∨ c = 't' then some cs
    else if isBlank c then some (cs.dropWhile isBlank) else none
  | [] => none

/-- The microseconds that the digits behind a point stand for: the first six of them count. -/
def microseconds (ds : List Char) : Nat :=
  numeral 10 (ds.take 6) * Nat.pow 10 (6 - (ds.take 6).length)

/-- The time of day at the front of a text. -/
def readClock (cs : List Char) : Option (Clock × List Char) := do
  let (hour, r) ← leading 1 2 cs
  let (minute, r) ← leading 2 2 (← behind ':' r)
  let (second, r) ← leading 2 2 (← behind ':' r)
  match r with
  | '.' :: r =>
    pure (⟨hour, minute, second, microseconds (r.takeWhile Char.isDigit)⟩,
      r.dropWhile Char.isDigit)
  | r => pure (⟨hour, minute, second, 0⟩, r)

/-- The minutes by which a text says that a clock is ahead of universal time, if it says so at all.
-/
def readAhead (cs : List Char) : Option (Option Int) :=
  if cs.isEmpty then some none
  else match cs.dropWhile isBlank with
    | ['Z'] => some (some 0)
    | sign :: r =>
      if sign = '+' ∨ sign = '-' then do
        let (hours, r) ← leading 1 2 r
        let minutes ← match r with
          | [] => some 0
          | r => match leading 2 2 (← behind ':' r) with
            | some (minutes, []) => some minutes
            | _ => none
        let ahead : Int := 60 * hours + minutes
        pure (some (if sign = '-' then -ahead else ahead))
      else none
    | [] => none

/-- The moment that a text has the form of, whether there is such a moment or not. -/
def moment? (cs : List Char) : Option Moment :=
  match readDay 2 cs with
  | some (day, []) => some (.day day)
  | _ => do
    let (day, r) ← readDay 1 cs
    let (clock, r) ← readClock (← behindDay r)
    let ahead ← readAhead r
    pure (.time day clock ahead)

/-- Whether a text has the form of a date or of a point in time. -/
def isMoment (cs : List Char) : Bool := (moment? cs).isSome

/-! ### Kinds and values -/

/-- What an unquoted text stands for. -/
def kind (cs : List Char) : PlainKind :=
  let word := String.ofList cs
  if trueWords.contains word || falseWords.contains word then .bool
  else if isFloat cs then .float
  else if isInt cs then .int
  else if word = "<<" then .merge
  else if nullWords.contains word then .null
  else if isMoment cs then .moment
  else if word = "=" then .default
  else .text

/-- A text divided at its colons. -/
def groups (cs : List Char) : List (List Char) := cs.splitOn ':'

/-- The whole number that a text of that form stands for. A base may be named without any digit, and
then there is no number; nor is there one of very many decimal digits. -/
def int? (cs : List Char) : Option Int :=
  let magnitude : Option Nat := match (unsigned cs).filter (· != '_') with
    | ['0', 'b'] | ['0', 'x'] => none
    | '0' :: 'b' :: ds => some (numeral 2 ds)
    | '0' :: 'x' :: ds => some (numeral 16 ds)
    | '0' :: ds => some (numeral 8 ds)
    | ds =>
      if (groups ds).all fun g => g.length ≤ Value.mostDigits then
        some ((groups ds).foldl (fun n g => 60 * n + numeral 10 g) 0)
      else none
  magnitude.map fun n => if isNegative cs then -(n : Int) else n

/-- The number that digits with a point and an exponent stand for. -/
def decimal (cs : List Char) : Binary64 :=
  let whole := cs.takeWhile Char.isDigit
  let (part, rest) := match cs.dropWhile Char.isDigit with
    | '.' :: r => (r.takeWhile Char.isDigit, r.dropWhile Char.isDigit)
    | r => ([], r)
  let power : Int := match rest with
    | _ :: '-' :: ds => -(numeral 10 ds : Int)
    | _ :: '+' :: ds => numeral 10 ds
    | _ => 0
  .ofDecimal false (numeral 10 (whole ++ part)) (power - part.length)

/-- The sum of groups, the last of which counts once, the one in front of it sixty times, and so on.
-/
def sixties (gs : List (List Char)) : Binary64 :=
  (gs.reverse.foldl (fun (sum, weight) g => (sum.plus ((decimal g).times weight), 60 * weight))
    (Binary64.finite false 0 0, 1)).1

/-- The number that a text with a point stands for. -/
def float (cs : List Char) : Binary64 :=
  let body := unsigned cs
  let magnitude :=
    if infinityWords.contains (String.ofList body) then .infinite false
    else if undefinedWords.contains (String.ofList body) then .nan
    else match groups (body.filter (· != '_')) with
      | [g] => decimal g
      | gs => sixties gs
  if isNegative cs then magnitude.negate else magnitude

end Plain

end BranchForm.Yaml
