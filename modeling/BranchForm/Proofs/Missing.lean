import BranchForm.Proofs.Nested
import BranchForm.Proofs.Requests
import BranchForm.Proofs.Values

/-!
# Required fields without an answer

A session lists the required fields of its step that have no answer yet, at whatever depth they
stand. Answers are stored under the ids of fields, so the fields of one id have one answer in common:
once it is given, the id is gone from the list wherever it stood in it, and the rest of the list is
the same as before.

* `Session.owes` tells the fields whose answer is missing, `Session.missing_eq` : their ids are
  listed, in the order of the fields;
* `Session.owes_of_answered` says what one answer changes about a field, `Session.missing_of_answered`
  what it changes about the list;
* `Session.exists_answers_select` : a field whose answer is missing gets one by a pick;
* `Session.missing_lists_owed` is the result.
-/

namespace BranchForm

namespace Session

variable {form : Form} {s s' : Session} {step : Step} {name : String} {stored value : Value}

/-! ### The list -/

/-- A field is required and has no answer. -/
def owes (s : Session) (f : Field) : Bool := f.question.required && !isAnswer (s.answer f.id)

mutual

theorem missingIn_eq (s : Session) (f : Field) :
    missingIn s.answers f = ((Field.deep f).filter s.owes).map Field.id := by
  obtain ⟨q, fs⟩ := f
  rw [missingIn, Field.deep, List.filter_cons, missingAmong_eq s fs]
  change (if s.owes (.mk q fs) = true then [q.id] else []) ++ _ = _
  split
  · rfl
  · rfl

theorem missingAmong_eq (s : Session) (fs : List Field) :
    missingAmong s.answers fs = ((Field.deepAll fs).filter s.owes).map Field.id := by
  match fs with
  | [] => rfl
  | f :: fs =>
    rw [missingAmong, Field.deepAll, List.filter_append, List.map_append, missingIn_eq s f,
      missingAmong_eq s fs]

end

theorem missing_eq (hstep : s.step form = .ok step) :
    s.missing form = .ok (((Field.deepAll step.fields).filter s.owes).map Field.id) := by
  rw [missing, hstep, ← missingAmong_eq]
  rfl

/-! ### One answer more -/

/-- With an answer under its id a field owes none, and the other fields owe theirs as before. -/
theorem owes_of_answered (hanswers : s'.answers = Members.put s.answers (.text name) stored)
    (hstored : isAnswer stored = true) (f : Field) :
    s'.owes f = (s.owes f && decide (f.id ≠ .text name)) := by
  by_cases hid : f.id = .text name
  · have hself : isAnswer (s'.answer name) = true := by
      rwa [answer, hanswers, Members.getOrNull_put_self]
    simp [owes, hid, hself]
  · have hother : s'.answer f.id = s.answer f.id := by
      simp only [answer, hanswers, Members.getOrNull, Members.getD,
        Members.get?_put_text_of_ne hid]
    simp [owes, hother, hid]

/-- An answer takes the id that it is given under out of the list, wherever it stands. -/
theorem missing_of_answered (hstep : s.step form = .ok step) (hcurrent : s'.current = s.current)
    (hanswers : s'.answers = Members.put s.answers (.text name) stored)
    (hstored : isAnswer stored = true) :
    s'.missing form = .ok ((((Field.deepAll step.fields).filter s.owes).map Field.id).filter
      fun fieldId => decide (fieldId ≠ .text name)) := by
  rw [missing_eq ((step_congr hcurrent).trans hstep), List.filter_map, List.filter_filter]
  congr 2
  refine List.filter_congr fun f _ => ?_
  rw [owes_of_answered hanswers hstored, Bool.and_comm]
  rfl

/-! ### Picks -/

/-- Where there is no answer, a value that is switched is on, and is the only one. -/
theorem switch_of_unanswered (h : isAnswer stored = false) : switch stored value = ([value], true) := by
  have hcases : stored = .null ∨ stored = .text "" ∨ stored = .list [] := by
    simpa [isAnswer, or_iff_not_imp_left] using h
  rcases hcases with rfl | rfl | rfl
  · rfl
  · rfl
  · rfl

/-- A pick in a field of the step that has no answer gives it one. -/
theorem exists_answers_select (hstep : s.step form = .ok step)
    (hkey : .text name ∈ step.answerKeys) (hnone : isAnswer (s.answer name) = false)
    (hvalue : isAnswer value = true) : ∃ stored, isAnswer stored = true ∧
      (s.select form name value).session.answers = Members.put s.answers (.text name) stored := by
  obtain ⟨f, hfield⟩ := exists_findField hkey
  cases hkind : f.question.kind.isMultiple with
  | false =>
    refine ⟨value, hvalue, ?_⟩
    rw [select_of_single hstep hfield hkind, answers_follow]
    rfl
  | true =>
    refine ⟨.list [value], by simp [isAnswer], ?_⟩
    rw [select_of_multiple hstep hfield hkind (switch_of_unanswered hnone), answers_follow]
    rfl

/-- **Both ways through nested fields come by the same ones.** A field is found by its id exactly if
the step has one, at any depth. The ids of the required fields without an answer are listed in the
order of the fields. Each of them can be answered by a pick, and an answer that is picked or given
takes its id out of the list wherever it stands, and no other one. -/
theorem missing_lists_owed (hstep : s.step form = .ok step) :
    (∀ fieldId, (∃ f, findField step fieldId = some f) ↔
      ∃ f ∈ Field.deepAll step.fields, f.hasName fieldId = true) ∧
    (∀ fieldId f, findField step fieldId = some f →
      f ∈ Field.deepAll step.fields ∧ f.hasName fieldId = true) ∧
    ∃ owed, s.missing form = .ok owed ∧
      owed = ((Field.deepAll step.fields).filter s.owes).map Field.id ∧
      (∀ name : String, .text name ∈ owed → ∀ value, isAnswer value = true →
        isAnswer ((s.select form name value).session.answer name) = true ∧
        ((s.select form name value).session.current = s.current →
          (s.select form name value).session.missing form =
            .ok (owed.filter fun fieldId => decide (fieldId ≠ .text name)))) ∧
      ∀ (name : String) (value : Value), isAnswer value = true →
        (s.set form name value).session.current = s.current →
          (s.set form name value).session.missing form =
            .ok (owed.filter fun fieldId => decide (fieldId ≠ .text name)) := by
  refine ⟨fun _ => exists_findField_iff, fun _ _ => of_findField, _, missing_eq hstep, rfl, ?_, ?_⟩
  · intro name hmem value hvalue
    obtain ⟨f, hf, hid⟩ := List.mem_map.1 hmem
    obtain ⟨hdeep, howes⟩ := List.mem_filter.1 hf
    have hnone : isAnswer (s.answer name) = false := by
      simp only [owes, hid, Bool.and_eq_true, Bool.not_eq_true'] at howes
      exact howes.2
    have hkey : .text name ∈ step.answerKeys := List.mem_map.2 ⟨f, hdeep, hid⟩
    obtain ⟨stored, hstored, hanswers⟩ := exists_answers_select hstep hkey hnone hvalue
    refine ⟨?_, fun hcurrent => missing_of_answered hstep hcurrent hanswers hstored⟩
    rwa [answer, hanswers, Members.getOrNull_put_self]
  · intro name value hvalue hcurrent
    exact missing_of_answered hstep hcurrent (answers_set form s rfl value) hvalue

/-- The step for the crew of a boat, which asks for two names under one id. -/
def crewStep : Step :=
  { id := "step1", title := "Crew"
    fields := [
      .mk { id := "boat", kind := .radio, label := "Boat" } [
        .mk { id := "name", kind := .text, label := "Skipper" } [
          .mk { id := "phone", kind := .text, label := "Phone", required := false } []]],
      .mk { id := "gear", kind := .checkbox, label := "Gear" } [
        .mk { id := "name", kind := .text, label := "Owner" } []]] }

/-- A form with a step for the crew. -/
def regatta : Form where
  name := "Regatta"
  steps := [crewStep]

theorem missing_regatta :
    Session.step regatta { current := "step1" } = .ok crewStep ∧
      Session.missing regatta { current := "step1" } = .ok ["boat", "name", "gear", "name"] ∧
      (Session.select regatta { current := "step1" } "gear" "sail").session.missing regatta =
        .ok ["boat", "name", "name"] ∧
      (Session.set regatta { current := "step1" } "name" "Ada").session.missing regatta =
        .ok ["boat", "gear"] := by
  have hstep : Session.step regatta { current := "step1" } = .ok crewStep := rfl
  obtain ⟨-, -, owed, hmissing, howed, hselect, hset⟩ := missing_lists_owed hstep
  have hids : owed = ["boat", "name", "gear", "name"] := by
    rw [howed]
    decide
  subst hids
  refine ⟨hstep, hmissing, ?_, hset "name" "Ada" rfl rfl⟩
  exact (hselect "gear" (by decide) "sail" rfl).2 (by decide +kernel)

end Session

end BranchForm
