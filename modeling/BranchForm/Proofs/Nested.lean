import BranchForm.Session.Move
import Mathlib.Data.List.Flatten

/-!
# Fields at any depth

Fields may have fields inside them, to any depth. Two ways of going through them are in use: one
lists the fields from the first to the last, each before those inside it, the other one looks for a
field with a stack and takes the last ones first. Both come by the same fields.

* `Field.deepAll` lists fields at any depth, `Step.answerKeys` are the ids of those of a step;
* `Field.fromEndAll` lists them in the order of the search, `Field.fromEndAll_perm` : these are the
  same fields;
* `Session.findField_eq_find?` : the search finds the first field of its order that has the name, so
  it finds one if there is one (`Session.exists_findField_iff`), and what it finds is one
  (`Session.of_findField`).
-/

namespace BranchForm

namespace Field

/-! ### From the first to the last -/

mutual

/-- A field, and then the fields inside it. -/
def deep : Field → List Field
  | .mk q fs => .mk q fs :: deepAll fs

/-- Fields at any depth, each before those inside it. -/
def deepAll : List Field → List Field
  | [] => []
  | f :: fs => deep f ++ deepAll fs

end

/-- At any depth stand the fields themselves and those inside them. -/
theorem mem_deepAll {g : Field} {fs : List Field} :
    g ∈ deepAll fs ↔ ∃ f ∈ fs, g = f ∨ g ∈ deepAll f.subFields := by
  induction fs with
  | nil => simp [deepAll]
  | cons f fs ih =>
    have hdeep : deep f = f :: deepAll f.subFields := by
      cases f
      rfl
    rw [deepAll, List.mem_append, ih, hdeep, List.mem_cons]
    simp

/-- Fields without sub-fields are all that there are. -/
theorem deepAll_of_flat {fs : List Field} (h : ∀ f ∈ fs, f.subFields = []) : deepAll fs = fs := by
  induction fs with
  | nil => rfl
  | cons f fs ih =>
    obtain ⟨hf, hfs⟩ := List.forall_mem_cons.1 h
    obtain ⟨q, inside⟩ := f
    obtain rfl : inside = [] := hf
    rw [deepAll, deep, ih hfs, deepAll, List.singleton_append]

/-! ### From the last to the first -/

mutual

/-- A field, and then the fields inside it, of those beside each other the last one first. -/
def fromEnd : Field → List Field
  | .mk q fs => .mk q fs :: fromEndAll fs

/-- Fields at any depth, of those beside each other the last one first. -/
def fromEndAll : List Field → List Field
  | [] => []
  | f :: fs => fromEndAll fs ++ fromEnd f

end

theorem fromEndAll_eq_flatMap (fs : List Field) : fromEndAll fs = fs.reverse.flatMap fromEnd := by
  induction fs with
  | nil => rfl
  | cons f fs ih => simp [fromEndAll, ih]

mutual

theorem fromEnd_perm (f : Field) : (fromEnd f).Perm (deep f) := by
  obtain ⟨q, fs⟩ := f
  rw [fromEnd, deep]
  exact (fromEndAll_perm fs).cons _

/-- Both lists have the same fields, each as often. -/
theorem fromEndAll_perm (fs : List Field) : (fromEndAll fs).Perm (deepAll fs) := by
  match fs with
  | [] => exact .nil
  | f :: fs =>
    rw [fromEndAll, deepAll]
    exact List.perm_append_comm.trans ((fromEnd_perm f).append (fromEndAll_perm fs))

end

end Field

/-- The keys under which the answers on a step are stored. -/
def Step.answerKeys (s : Step) : List Value := (Field.deepAll s.fields).map Field.id

namespace Session

variable {step : Step} {fieldId : Value} {name : String} {f : Field}

/-! ### The field with a name -/

/-- What is on a stack of fields comes in front of what is below it. -/
theorem searchFields_eq_find? (fieldId : Value) (stack : List Field) :
    searchFields fieldId stack = (stack.flatMap Field.fromEnd).find? (·.hasName fieldId) := by
  fun_induction searchFields fieldId stack with
  | case1 => rfl
  | case2 f rest hname =>
    obtain ⟨q, fs⟩ := f
    simp [Field.fromEnd, hname]
  | case3 f rest hname ih =>
    obtain ⟨q, fs⟩ := f
    rw [ih, List.flatMap_append, ← Field.fromEndAll_eq_flatMap]
    simp [Field.fromEnd, Field.subFields, hname]

/-- The search finds the first field that has the name, from the end. -/
theorem findField_eq_find? (step : Step) (fieldId : Value) :
    findField step fieldId = (Field.fromEndAll step.fields).find? (·.hasName fieldId) := by
  rw [findField, searchFields_eq_find?, Field.fromEndAll_eq_flatMap]

/-- A field that is found is one of the step, at any depth, and has the name. -/
theorem of_findField (h : findField step fieldId = some f) :
    f ∈ Field.deepAll step.fields ∧ f.hasName fieldId = true := by
  rw [findField_eq_find?] at h
  refine ⟨(Field.fromEndAll_perm _).mem_iff.1 (List.mem_of_find?_eq_some h), ?_⟩
  exact List.find?_some (p := fun f : Field => f.hasName fieldId) h

/-- A field is found if the step has one of the name, at any depth. -/
theorem exists_findField_iff : (∃ f, findField step fieldId = some f) ↔
    ∃ f ∈ Field.deepAll step.fields, f.hasName fieldId = true := by
  rw [findField_eq_find?, ← Option.isSome_iff_exists, List.find?_isSome]
  exact exists_congr fun f => and_congr_left' (Field.fromEndAll_perm _).mem_iff

theorem exists_findField (h : .text name ∈ step.answerKeys) :
    ∃ f, findField step (.text name) = some f := by
  obtain ⟨f, hf, hid⟩ := List.mem_map.1 h
  refine exists_findField_iff.2 ⟨f, hf, ?_⟩
  rw [Field.hasName, hid, Value.agrees_text]
  exact decide_eq_true rfl

end Session

end BranchForm
