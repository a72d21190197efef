import BranchForm.Session.Move
import Mathlib.Data.List.Nodup

/-!
# Steps under their ids and places

A form is asked for a step by an id, by a value that may name one, by its place in the document, or
by a target. These are the laws of the look-ups; those that find a given step again need the ids of
the steps to be distinct.

* `Form.Has` holds of the values that name a step;
* `Form.step?_of_mem` and `Form.latestStep?_of_mem` : a step is found under its id;
* `Form.stepIndex?_of_getElem?` : a step is found at its place, `Form.getElem?_of_indexOf?` and
  `Form.exists_indexOf?_of_has` lead from a value to a place and back;
* `Form.has_of_resolve` : a target that resolves names a step, and so do the targets of answers
  (`Form.has_of_branchTarget`, `Form.has_of_answeredTarget`).
-/

namespace BranchForm

namespace Form

variable {form : Form}

/-! ### Ids -/

/-- A value names a step of the form. -/
def Has (form : Form) (v : Value) : Prop := ∃ step ∈ form.steps, v = .text step.id

theorem of_stepOf? {v : Value} {step : Step} (h : form.stepOf? v = some step) :
    step ∈ form.steps ∧ v = .text step.id := by
  cases v with
  | text stepId =>
    have hid : step.id = stepId := by simpa using List.find?_some h
    exact ⟨List.mem_of_find?_eq_some h, hid ▸ rfl⟩
  | _ => cases h

theorem has_of_stepOf? {v : Value} {step : Step} (h : form.stepOf? v = some step) : form.Has v :=
  ⟨step, of_stepOf? h⟩

theorem exists_stepOf?_of_has {v : Value} (h : form.Has v) : ∃ step, form.stepOf? v = some step := by
  obtain ⟨step, hmem, rfl⟩ := h
  exact Option.isSome_iff_exists.1 (List.find?_isSome.2 ⟨step, hmem, by simp⟩)

theorem eq_of_id_eq (hd : form.stepIds.Nodup) {s t : Step} (hs : s ∈ form.steps)
    (ht : t ∈ form.steps) (h : s.id = t.id) : s = t :=
  List.inj_on_of_nodup_map hd hs ht h

theorem step?_of_mem (hd : form.stepIds.Nodup) {s : Step} (hs : s ∈ form.steps) :
    form.step? s.id = some s := by
  have hsome : (form.step? s.id).isSome := List.find?_isSome.2 ⟨s, hs, by simp⟩
  obtain ⟨t, ht⟩ := Option.isSome_iff_exists.1 hsome
  have hid : t.id = s.id := by simpa using List.find?_some ht
  rw [ht, eq_of_id_eq hd (List.mem_of_find?_eq_some ht) hs hid]

theorem of_latestStep? {stepId : String} {s : Step} (h : form.latestStep? stepId = some s) :
    s ∈ form.steps ∧ s.id = stepId :=
  ⟨List.mem_reverse.1 (List.mem_of_find?_eq_some h), by simpa using List.find?_some h⟩

theorem latestStep?_of_mem (hd : form.stepIds.Nodup) {s : Step}
    (hs : s ∈ form.steps) : form.latestStep? s.id = some s := by
  have hsome : (form.latestStep? s.id).isSome :=
    List.find?_isSome.2 ⟨s, List.mem_reverse.2 hs, by simp⟩
  obtain ⟨t, ht⟩ := Option.isSome_iff_exists.1 hsome
  obtain ⟨hmem, hid⟩ := of_latestStep? ht
  rw [ht, eq_of_id_eq hd hmem hs hid]

theorem stepIndex?_of_getElem? (hd : form.stepIds.Nodup) {i : Nat} {s : Step}
    (h : form.steps[i]? = some s) : form.stepIndex? s.id = some i := by
  obtain ⟨hi, rfl⟩ := List.getElem?_eq_some_iff.1 h
  rw [stepIndex?, List.findIdx?_eq_some_iff_getElem]
  refine ⟨hi, by simp, ?_⟩
  intro j hji
  have hlength : form.stepIds.length = form.steps.length := by simp [stepIds]
  have hi' : i < form.stepIds.length := by omega
  have hj' : j < form.stepIds.length := by omega
  have hne : form.stepIds[j] ≠ form.stepIds[i] := by
    rw [Ne, hd.getElem_inj_iff]
    omega
  simpa [stepIds] using hne

/-! ### Places -/

theorem has_stepIdAt {i : Nat} (h : i < form.steps.length) : form.Has (Session.stepIdAt form i) := by
  refine ⟨form.steps[i], List.getElem_mem h, ?_⟩
  simp [Session.stepIdAt, h]

theorem getElem?_of_indexOf? {v : Value} {i : Nat} (h : form.indexOf? v = some i) :
    ∃ step, form.steps[i]? = some step ∧ v = .text step.id := by
  cases v with
  | text stepId =>
    obtain ⟨hi, hid, -⟩ := List.findIdx?_eq_some_iff_getElem.1 h
    have hid' : form.steps[i].id = stepId := by simpa using hid
    exact ⟨form.steps[i], List.getElem?_eq_getElem hi, congrArg Value.text hid'.symm⟩
  | _ => cases h

theorem lt_of_indexOf? {v : Value} {i : Nat} (h : form.indexOf? v = some i) :
    i < form.steps.length := by
  obtain ⟨step, hget, -⟩ := getElem?_of_indexOf? h
  exact (List.getElem?_eq_some_iff.1 hget).1

theorem exists_indexOf?_of_has {v : Value} (h : form.Has v) : ∃ i, form.indexOf? v = some i := by
  obtain ⟨step, hmem, rfl⟩ := h
  rw [← Option.isSome_iff_exists, indexOf?, stepIndex?, List.findIdx?_isSome, List.any_eq_true]
  exact ⟨step, hmem, by simp⟩

theorem indexOf?_stepIdAt (hd : form.stepIds.Nodup) {i : Nat} (hi : i < form.steps.length) :
    form.indexOf? (Session.stepIdAt form i) = some i := by
  have hget := List.getElem?_eq_getElem hi
  simp only [Session.stepIdAt, hget]
  exact stepIndex?_of_getElem? hd hget

/-! ### Targets -/

/-- A target that resolves is the id of a step. -/
theorem has_of_resolve {source target v : Value} (h : form.resolve source target = .ok v) :
    form.Has v := by
  simp only [resolve] at h
  split at h
  · rename_i step hstep
    cases h
    exact has_of_stepOf? hstep
  · cases h

theorem resolve_of_mem {step : Step} (hstep : step ∈ form.steps) (hne : step.id ≠ finalStepId)
    (source : Value) : form.resolve source (.text step.id) = .ok (.text step.id) := by
  obtain ⟨found, hfound⟩ := exists_stepOf?_of_has ⟨step, hstep, rfl⟩
  simp [resolve, hne, hfound]

theorem resolve_of_map {source target v : Value}
    (h : (form.resolve source target).map some = .ok (some v)) : form.resolve source target = .ok v := by
  cases hr : form.resolve source target with
  | error cause =>
    rw [hr] at h
    cases h
  | ok w =>
    rw [hr] at h
    cases h
    rfl

theorem has_of_map_resolve {source target v : Value}
    (h : (form.resolve source target).map some = .ok (some v)) : form.Has v :=
  has_of_resolve (resolve_of_map h)

theorem has_of_branchTarget {s : Session} {step : Step} {fieldId v : Value} {choice : Option Choice}
    (h : form.branchTarget s step fieldId choice = .ok (some v)) : form.Has v := by
  simp only [branchTarget] at h
  split at h
  · exact has_of_map_resolve h
  · split at h
    · cases h
    · split at h
      · cases h
      · exact has_of_map_resolve h

theorem has_of_answeredTarget {s : Session} {step : Step} {v : Value}
    (h : form.answeredTarget s step = .ok (some v)) : form.Has v := by
  simp only [answeredTarget] at h
  split at h
  · exact has_of_map_resolve h
  · split at h
    · exact has_of_map_resolve h
    · cases h

end Form

end BranchForm
