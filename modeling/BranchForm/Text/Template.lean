import BranchForm.Text.Padding
import BranchForm.Text.Case
import BranchForm.Text.Quoted
import BranchForm.Error

/-!
# Templates

The texts of a compiled form are templates over the label of a node. A template holds text and slots
in curly brackets; a doubled bracket stands for itself. A slot names a value, may pick a character
of it by its number or ask for its kind behind a point, may ask for it between quotes behind an
exclamation mark, and may ask for a form behind a colon, which may itself hold slots.

* `Piece` is a part of a template and `pieces` divides a template;
* `Item` is what a slot may stand for: a text, or what is asked about one behind a point;
  `Slot.item` is the item of a slot and `inForm` its text in the form asked for;
* `fillWith` fills a template with given values and `fill` with the two names of a label. Pieces are
  filled from the left, so the first piece that fails decides.
-/

namespace BranchForm.Text

/-- A part of a template that is replaced by a value. -/
structure Slot where
  /-- The name with what is picked from its value. -/
  path : List Char
  /-- The letter that asks for quotes. -/
  conversion : Option Char
  /-- The form asked for. -/
  spec : List Char
  deriving DecidableEq, Repr

/-- A part of a template. -/
inductive Piece where
  /-- A character that stands for itself. -/
  | char (c : Char)
  /-- A slot. -/
  | slot (s : Slot)
  /-- The brackets of the template do not match from here on. -/
  | broken
  deriving DecidableEq, Repr

/-- The path of a slot up to the sign that ends it, with the sign and what follows. Between square
brackets the signs have no meaning. -/
def takePath (inside : Bool) (seen : List Char) : List Char →
    Option (List Char × Char × List Char)
  | [] => none
  | c :: cs =>
    if inside then takePath (c != ']') (c :: seen) cs
    else if c = '\x7b' then none
    else if c = '\x7d' ∨ c = ':' ∨ c = '!' then some (seen.reverse, c, cs)
    else takePath (c == '[') (c :: seen) cs

/-- The form of a slot up to the bracket that closes the slot, and what follows. -/
def takeSpec (depth : Nat) (seen : List Char) : List Char → Option (List Char × List Char)
  | [] => none
  | c :: cs =>
    if c = '\x7b' then takeSpec (depth + 1) (c :: seen) cs
    else if c = '\x7d' then
      match depth with
      | 0 => some (seen.reverse, cs)
      | depth + 1 => takeSpec depth (c :: seen) cs
    else takeSpec depth (c :: seen) cs

/-- The slot at the front of a text, behind its opening bracket, and what follows it. -/
def takeSlot (cs : List Char) : Option (Slot × List Char) := do
  let (path, sign, r) ← takePath false [] cs
  if sign = '\x7d' then pure (⟨path, none, []⟩, r)
  else if sign = ':' then
    let (spec, r) ← takeSpec 0 [] r
    pure (⟨path, none, spec⟩, r)
  else match r with
    | c :: '\x7d' :: t => pure (⟨path, some c, []⟩, t)
    | c :: ':' :: t =>
      let (spec, u) ← takeSpec 0 [] t
      pure (⟨path, some c, spec⟩, u)
    | _ => none

theorem length_of_takePath {inside : Bool} {seen cs p r : List Char} {c : Char}
    (h : takePath inside seen cs = some (p, c, r)) : r.length < cs.length := by
  fun_induction takePath inside seen cs <;> simp_all <;> omega

theorem length_of_takeSpec {depth : Nat} {seen cs s r : List Char}
    (h : takeSpec depth seen cs = some (s, r)) : r.length < cs.length := by
  fun_induction takeSpec depth seen cs <;> simp_all <;> omega

theorem length_of_takeSlot {cs r : List Char} {s : Slot} (h : takeSlot cs = some (s, r)) :
    r.length < cs.length := by
  simp only [takeSlot, Option.bind_eq_bind, Option.bind_eq_some_iff, Prod.exists] at h
  obtain ⟨path, sign, t, hp, h⟩ := h
  have hp := length_of_takePath hp
  have viaSpec : ∀ {u : List Char} {mark : Option Char}, u.length ≤ t.length →
      (do let (spec, v) ← takeSpec 0 [] u; pure ((⟨path, mark, spec⟩ : Slot), v)) = some (s, r) →
      r.length < cs.length := by
    intro u mark hu hs
    simp only [Option.bind_eq_bind, Option.bind_eq_some_iff, Prod.exists, Option.pure_def,
      Option.some.injEq, Prod.mk.injEq] at hs
    obtain ⟨spec, v, hv, -, rfl⟩ := hs
    have := length_of_takeSpec hv
    omega
  split at h
  · simp only [Option.pure_def, Option.some.injEq, Prod.mk.injEq] at h
    rw [← h.2]; exact hp
  · split at h
    · exact viaSpec (Nat.le_refl _) h
    · split at h
      · simp only [Option.pure_def, Option.some.injEq, Prod.mk.injEq] at h
        rw [← h.2]; simp only [List.length_cons] at hp; omega
      · exact viaSpec (by simp only [List.length_cons]; omega) h
      · simp at h

/-- The pieces of a template. -/
def pieces (cs : List Char) : List Piece :=
  match cs with
  | [] => []
  | c :: r =>
    if c = '\x7b' then
      match _hr : r with
      | '\x7b' :: t => .char c :: pieces t
      | q => match _h : takeSlot q with
        | some (s, t) => .slot s :: pieces t
        | none => [.broken]
    else if c = '\x7d' then
      match r with
      | '\x7d' :: t => .char c :: pieces t
      | _ => [.broken]
    else .char c :: pieces r
termination_by cs.length
decreasing_by
  · simp only [List.length_cons]; omega
  · have := length_of_takeSlot _h; simp only [List.length_cons]; omega
  · simp only [List.length_cons]; omega
  · simp only [List.length_cons]; omega

/-- What a slot stands for: a text, or what can be asked about one behind a point. -/
inductive Item where
  /-- A text. -/
  | text (cs : List Char)
  /-- The kind of something, by its name. -/
  | kind (name : String)
  /-- An operation on texts, by its name. -/
  | operation (name : String)
  deriving DecidableEq, Repr

/-- The operations on texts. -/
def textOperations : List String :=
  ["capitalize", "casefold", "center", "count", "encode", "endswith", "expandtabs", "find",
    "format", "format_map", "index", "isalnum", "isalpha", "isascii", "isdecimal", "isdigit",
    "isidentifier", "islower", "isnumeric", "isprintable", "isspace", "istitle", "isupper", "join",
    "ljust", "lower", "lstrip", "maketrans", "partition", "removeprefix", "removesuffix", "replace",
    "rfind", "rindex", "rjust", "rpartition", "rsplit", "rstrip", "split", "splitlines",
    "startswith", "strip", "swapcase", "title", "translate", "upper", "zfill", "__add__",
    "__contains__", "__delattr__", "__dir__", "__eq__", "__format__", "__ge__", "__getattribute__",
    "__getitem__", "__getnewargs__", "__getstate__", "__gt__", "__hash__", "__init__",
    "__init_subclass__", "__iter__", "__le__", "__len__", "__lt__", "__mod__", "__mul__", "__ne__",
    "__new__", "__reduce__", "__reduce_ex__", "__repr__", "__rmod__", "__rmul__", "__setattr__",
    "__sizeof__", "__str__", "__subclasshook__"]

/-- What the kind of texts says about itself. -/
def textKindNotes : String :=
  "str(object='') -> str\nstr(bytes_or_buffer[, encoding[, errors]]) -> str\n\n" ++
  "Create a new string object from the given object. If encoding or\n" ++
  "errors is specified, then the object must expose a data buffer\n" ++
  "that will be decoded using the given encoding and error handler.\n" ++
  "Otherwise, returns the result of object.__str__() (if defined)\n" ++
  "or repr(object).\nencoding defaults to sys.getdefaultencoding().\n" ++
  "errors defaults to 'strict'."

namespace Item

/-- The text of an item. -/
def shown : Item → List Char
  | .text cs => cs
  | .kind name => s!"<class '{name}'>".toList
  | .operation name => s!"<built-in method {name} of str object>".toList

/-- The text of an item between quotes, if it is a text itself. -/
def shownQuoted (quote : String → String) : Item → List Char
  | .text cs => (quote (String.ofList cs)).toList
  | i => i.shown

/-- What is asked about an item by a name. -/
def asked (i : Item) (name : String) : Except Fault Item :=
  let ofText (s : String) : Except Fault Item := .ok (.text s.toList)
  match i, name with
  | .text _, "__class__" => .ok (.kind "str")
  | .text _, "__doc__" | .kind "str", "__doc__" => ofText textKindNotes
  | .text _, name => if textOperations.contains name then .ok (.operation name)
    else .error .missingOperation
  | .kind _, "__class__" => .ok (.kind "type")
  | .kind k, "__name__" | .kind k, "__qualname__" => ofText k
  | .kind _, "__module__" => ofText "builtins"
  | .kind "str", "__base__" | .kind "type", "__base__" => .ok (.kind "object")
  | .operation _, "__class__" => .ok (.kind "builtin_function_or_method")
  | .operation name, "__name__" => ofText name
  | .operation name, "__qualname__" => ofText ("str." ++ name)
  | _, _ => .error .missingOperation

/-- The character of a text that stands between square brackets by its number. -/
def picked (i : Item) (index : List Char) : Except Fault Item :=
  if index.isEmpty then .error .badValue
  else match i, numberOf index with
    | .text cs, some n =>
      if n ≤ largestSize then
        match cs[n]? with
        | some c => .ok (.text [c])
        | none => .error .missingIndex
      else .error .badValue
    | _, some n => .error (if n ≤ largestSize then .wrongKind else .badValue)
    | _, none => .error .wrongKind

end Item

/-- The values of the names of a template. -/
abbrev Names := List (List Char × List Char)

/-- The value of the name at the front of a path. A template has no values by number. -/
def named (names : Names) (name : List Char) : Except Fault (List Char) :=
  if name.isEmpty then .error .missingIndex
  else match numberOf name with
    | some n => .error (if n ≤ largestSize then .missingIndex else .badValue)
    | none => match names.lookup name with
      | some v => .ok v
      | none => .error .missingKey

/-- Whether a character stands for itself in a path and does not ask for anything. -/
def isPathName (c : Char) : Bool := c != '.' && c != '['

/-- An item with everything picked from it that the rest of a path asks for: a place between square
brackets, or something behind a point. -/
def pick (i : Item) (cs : List Char) : Except Fault Item :=
  match cs with
  | [] => .ok i
  | '[' :: r =>
    let index := r.takeWhile (· != ']')
    match _h : r.dropWhile (· != ']') with
    | [] => .error .badValue
    | _ :: t => do
      let j ← i.picked index
      pick j t
  | '.' :: r =>
    if (r.takeWhile isPathName).isEmpty then .error .badValue
    else do
      let j ← i.asked (String.ofList (r.takeWhile isPathName))
      pick j (r.dropWhile isPathName)
  | _ => .error .badValue
termination_by cs.length
decreasing_by
  · have h := (List.dropWhile_suffix (l := r) (· != ']')).length_le
    rw [_h] at h
    simp only [List.length_cons] at *
    omega
  · have h := (List.dropWhile_suffix (l := r) isPathName).length_le
    simp only [List.length_cons]
    omega

/-- What a slot stands for, as a text if it asks for one. -/
def Slot.item (s : Slot) (names : Names) : Except Fault Item := do
  let v ← named names (s.path.takeWhile isPathName)
  let i ← pick (.text v) (s.path.dropWhile isPathName)
  match s.conversion with
  | none => pure i
  | some 's' => pure (.text i.shown)
  | some 'r' => pure (.text (i.shownQuoted quoted))
  | some 'a' => pure (.text (i.shownQuoted quotedAscii))
  | some _ => .error .badValue

/-- An item in the form asked for. Only texts have forms. -/
def inForm (spec : List Char) (i : Item) : Except Fault (List Char) :=
  if spec.isEmpty then .ok i.shown
  else match i with
    | .text cs => match Padding.ofSpec? spec with
      | some p => .ok (p.apply cs)
      | none => .error .badValue
    | _ => .error .wrongKind

/-- Fills a template. The forms of its slots may hold slots themselves, to the depth given. -/
def fillWith (names : Names) : (depth : Nat) → List Char → Except Fault (List Char)
  | 0, _ => .error .badValue
  | depth + 1, template => do
    let parts ← (pieces template).mapM fun
      | .char c => .ok [c]
      | .broken => .error .badValue
      | .slot s => do
        let v ← s.item names
        let spec ← if s.spec.contains '\x7b' then fillWith names depth s.spec else .ok s.spec
        inForm spec v
    pure parts.flatten

/-- The names that a label gives to a template. -/
def labelNames (label : String) : Names :=
  [("label".toList, label.toList), ("label_lower".toList, (lower label).toList)]

/-- A template filled from a label. -/
def fill (template label : String) : Except Error String :=
  match fillWith (labelNames label) 2 template.toList with
  | .ok cs => .ok (String.ofList cs)
  | .error cause => .error (.fault cause)

end BranchForm.Text
