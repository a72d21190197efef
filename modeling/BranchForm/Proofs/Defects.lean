import BranchForm.Proofs.FirstError
import BranchForm.Proofs.Settled

/-!
# What is wrong with a stored form

A stored form that cannot be read is malformed, and opened as an empty draft unless the caller is
strict. But a decoder checks little before it looks into a value, so some defects stop it before it
could tell what is wrong, and these are not taken for damage to the form.

The defects of a stored form can be listed without reading it: in the order in which a decoder would
come to them, each with the error it makes of it.

* `Members.nameDefects` and `Value.defectsWithin` list what is wrong with the name of a part and with
  the parts in a member;
* `Choice.defects`, `Question.defects`, `Field.defects`, `Condition.defects`, `Step.defects`,
  `FormSettings.defects` and `Form.defects` list what is wrong with the parts of a form and with a
  form;
* `Form.stopsAt_decode` : reading a form stops at its first defect, and succeeds if there is none;
  likewise for its parts;
* `Form.reopen_error_iff` : a form that was read is only stopped by damage and by stray choices;
* `Form.Escapes` are the errors of which neither makes a malformed form, and `openRecord_error_iff`
  says that these are the ones that come through, strict or not.
-/

namespace BranchForm

/-! ### Members of stored parts -/

/-- What is wrong with the name of a part: it is absent, or cannot be written as a text. -/
def Members.nameDefects (ms : Members) (key part : String) : List Error :=
  match get? ms key with
  | some name => if name.hasText then [] else [.fault .badValue]
  | none => match Value.sorted (names ms) with
    | .ok keys => [.missingMember part key keys]
    | .error e => [e]

/-- What is wrong with the parts in a member that may be absent. -/
def Value.defectsWithin (defects : Value → List Error) (v : Value) : List Error :=
  match v.elementsOrNone with
  | .ok parts => parts.flatMap defects
  | .error e => [e]

section

variable {α β : Type} {es : List Error}

theorem stopsAt_require {ms : Members} {key part : String} {f : String → Except Error α}
    (h : ∀ s, StopsAt (f s) es) :
    StopsAt ((Value.record ms).require key part >>= fun w => w.asLabel >>= f)
      (Members.nameDefects ms key part ++ es) := by
  rw [Members.nameDefects, Value.require]
  cases Members.get? ms key with
  | none =>
    cases Value.sorted (Members.names ms) with
    | error e => exact stopsAt_error e _
    | ok keys => exact stopsAt_error _ _
  | some w =>
    rw [ok_bind, Value.asLabel]
    by_cases htext : w.hasText = true
    · simp only [if_pos htext]
      exact h w.display
    · simp only [if_neg htext]
      exact stopsAt_error _ _

theorem stopsAt_parts {v : Value} {decode : Value → Except Error α} {defects : Value → List Error}
    (hdecode : ∀ w, StopsAt (decode w) (defects w)) {f : List α → Except Error β}
    (h : ∀ as, StopsAt (f as) es) :
    StopsAt (v.elementsOrNone >>= fun parts => parts.mapM decode >>= f)
      (v.defectsWithin defects ++ es) := by
  rw [Value.defectsWithin]
  cases v.elementsOrNone with
  | error e => exact stopsAt_error e _
  | ok parts =>
    rw [ok_bind]
    exact (stopsAt_mapM fun w _ => hdecode w).bind fun as _ => h as

end

/-! ### The parts of a form -/

/-- What a decoder ends with: an error that it reports, or one of three faults. -/
def Error.OfReading (e : Error) : Prop :=
  e.isDecoding = true ∨
    ∃ cause ∈ [Fault.wrongKind, .badValue, .missingOperation], e = .fault cause

theorem Error.ofReading_fault {cause : Fault}
    (h : cause ∈ [Fault.wrongKind, .badValue, .missingOperation]) : (Error.fault cause).OfReading :=
  .inr ⟨cause, h, rfl⟩

theorem Error.ofReading_sorted {vs : List Value} {e : Error} (h : Value.sorted vs = .error e) :
    e.OfReading := by
  unfold Value.sorted at h
  split at h
  · cases h
  · cases h
    exact ofReading_fault (by decide)

theorem Members.ofReading_nameDefects (ms : Members) (key part : String) :
    ∀ e ∈ ms.nameDefects key part, e.OfReading := by
  unfold nameDefects
  split
  · split
    · exact nofun
    · exact List.forall_mem_singleton.2 (Error.ofReading_fault (by decide))
  · split
    · exact List.forall_mem_singleton.2 (.inl rfl)
    · rename_i e he
      exact List.forall_mem_singleton.2 (Error.ofReading_sorted he)

theorem Value.ofReading_elementsOrNone {v : Value} {e : Error} (h : v.elementsOrNone = .error e) :
    e.OfReading := by
  unfold elementsOrNone at h
  split at h
  · cases v <;> cases h <;> exact Error.ofReading_fault (by decide)
  · cases h

theorem Value.ofReading_defectsWithin {defects : Value → List Error}
    (h : ∀ w, ∀ e ∈ defects w, e.OfReading) (v : Value) :
    ∀ e ∈ v.defectsWithin defects, e.OfReading := by
  unfold defectsWithin
  split
  · intro e he
    obtain ⟨w, -, hw⟩ := List.mem_flatMap.1 he
    exact h w e hw
  · rename_i e he
    exact List.forall_mem_singleton.2 (ofReading_elementsOrNone he)

namespace Choice

/-- What is wrong with a stored choice. -/
def defects : Value → List Error
  | .record ms => Members.nameDefects ms "optionId" "option"
  | _ => [.fault .wrongKind]

theorem stopsAt_decode (v : Value) : StopsAt (decode v) (defects v) := by
  cases v with
  | record ms =>
    rw [defects, ← List.append_nil (Members.nameDefects _ _ _)]
    exact stopsAt_require fun id => stopsAt_ok _
  | _ => exact stopsAt_error _ []

theorem ofReading_defects (v : Value) : ∀ e ∈ defects v, e.OfReading := by
  cases v with
  | record ms => exact Members.ofReading_nameDefects ms _ _
  | _ => exact List.forall_mem_singleton.2 (Error.ofReading_fault (by decide))

end Choice

namespace Question

/-- What is wrong with what a stored field asks. A field of unknown type is not looked into. -/
def defects (ms : Members) : List Error :=
  if Known ms then
    Members.nameDefects ms "fieldId" "field" ++
      (Members.getOrNull ms "options").defectsWithin Choice.defects
  else Members.nameDefects ms "type" "field" ++
    [.unknownFieldType (Members.getOrNull ms "fieldId") (Members.getOrNull ms "type")]

/-- A field of unknown type is reported once its type can be written as a text. -/
theorem decode_of_not_known {ms : Members} (h : ¬ Known ms) :
    decode (.record ms) = (Value.record ms).require "type" "field" >>= fun w => w.asLabel >>=
      fun _ => .error (.unknownFieldType (Members.getOrNull ms "fieldId")
        (Members.getOrNull ms "type")) := by
  rw [decode, Value.require]
  cases hget : Members.get? ms "type" with
  | none => cases Value.sorted (Members.names ms) <;> rfl
  | some type =>
    have hnull : Members.getOrNull ms "type" = type := Members.getOrNull_of_get? hget
    have hkind : FieldKind.ofValue? type = none := by simpa [Known, hnull] using h
    simp only [ok_bind, hkind, hnull]
    rfl

/-- A field of known type is read on from its name. -/
theorem decode_of_known {ms : Members} (h : Known ms) :
    ∃ kind, decode (.record ms) = (Value.record ms).require "fieldId" "field" >>= fun w =>
      w.asLabel >>= fun id => (Members.getOrNull ms "options").elementsOrNone >>= fun us =>
        us.mapM Choice.decode >>= fun choices => .ok {
          id := .text id, kind, label := Members.getD ms "label" (.text "")
          required := (Members.getD ms "required" (.bool true)).truthy, choices
          image := Members.getOrNull ms "imageUrl" } := by
  obtain ⟨kind, hkind⟩ := Option.isSome_iff_exists.1 h
  cases hget : Members.get? ms "type" with
  | none =>
    rw [Members.getOrNull_of_none hget] at hkind
    cases hkind
  | some type =>
    rw [Members.getOrNull_of_get? hget] at hkind
    have htype : (Value.record ms).require "type" "field" = .ok type := by
      simp only [Value.require, hget]
    refine ⟨kind, ?_⟩
    rw [decode, htype, ok_bind]
    simp only [hkind]
    rfl

theorem stopsAt_decode (ms : Members) : StopsAt (decode (.record ms)) (defects ms) := by
  rw [defects]
  by_cases hknown : Known ms
  · obtain ⟨kind, hdecode⟩ := decode_of_known hknown
    rw [if_pos hknown, hdecode, ← List.append_nil (Value.defectsWithin _ _)]
    exact stopsAt_require fun id => stopsAt_parts Choice.stopsAt_decode fun choices => stopsAt_ok _
  · rw [if_neg hknown, decode_of_not_known hknown]
    exact stopsAt_require fun _ => stopsAt_error _ []

theorem ofReading_defects (ms : Members) : ∀ e ∈ defects ms, e.OfReading := by
  unfold defects
  split
  · exact List.forall_mem_append.2 ⟨Members.ofReading_nameDefects ms _ _,
      Value.ofReading_defectsWithin Choice.ofReading_defects _⟩
  · exact List.forall_mem_append.2 ⟨Members.ofReading_nameDefects ms _ _,
      List.forall_mem_singleton.2 (.inl rfl)⟩

end Question

namespace Field

mutual

/-- What is wrong with a stored field. -/
def defects : Value → List Error
  | .record ms => Question.defects ms ++ subFieldDefects ms
  | _ => [.fault .wrongKind]

/-- What is wrong with the sub-fields among the members of a record. -/
def subFieldDefects : List (Value × Value) → List Error
  | [] => []
  | (name, v) :: ms => if name = .text "subFields" then elementDefects v else subFieldDefects ms

/-- What is wrong with the fields a value is made of. -/
def elementDefects : Value → List Error
  | .list vs => allDefects vs
  | v => if v.truthy then [.fault .wrongKind] else []

/-- What is wrong with several stored fields. -/
def allDefects : List Value → List Error
  | [] => []
  | v :: vs => defects v ++ allDefects vs

end

mutual

theorem stopsAt_decode : ∀ v, StopsAt (decode v) (defects v)
  | .record ms => by
    rw [decode, defects]
    exact (Question.stopsAt_decode ms).bind fun q _ => (stopsAt_decodeSubFields ms).map _
  | .null | .bool _ | .int _ | .float _ | .text _ | .moment _ | .list _ => stopsAt_error _ []

theorem stopsAt_decodeSubFields : ∀ ms, StopsAt (decodeSubFields ms) (subFieldDefects ms)
  | [] => stopsAt_ok []
  | (name, v) :: ms => by
    rw [decodeSubFields, subFieldDefects]
    split
    · exact stopsAt_decodeElements v
    · exact stopsAt_decodeSubFields ms

theorem stopsAt_decodeElements : ∀ v, StopsAt (decodeElements v) (elementDefects v)
  | .list vs => stopsAt_decodeAll vs
  | .null | .bool _ | .int _ | .float _ | .text _ | .moment _ | .record _ => by
    simp only [decodeElements, elementDefects]
    split
    · exact stopsAt_error _ []
    · exact stopsAt_ok []

theorem stopsAt_decodeAll : ∀ vs, StopsAt (decodeAll vs) (allDefects vs)
  | [] => stopsAt_ok []
  | v :: vs => by
    rw [decodeAll, allDefects]
    exact (stopsAt_decode v).bind fun f _ => (stopsAt_decodeAll vs).map _

end

mutual

theorem ofReading_defects : ∀ v, ∀ e ∈ defects v, e.OfReading
  | .record ms => List.forall_mem_append.2
      ⟨Question.ofReading_defects ms, ofReading_subFieldDefects ms⟩
  | .null | .bool _ | .int _ | .float _ | .text _ | .moment _ | .list _ =>
    List.forall_mem_singleton.2 (Error.ofReading_fault (by decide))

theorem ofReading_subFieldDefects : ∀ ms, ∀ e ∈ subFieldDefects ms, e.OfReading
  | [] => nofun
  | (name, v) :: ms => by
    rw [subFieldDefects]
    split
    · exact ofReading_elementDefects v
    · exact ofReading_subFieldDefects ms

theorem ofReading_elementDefects : ∀ v, ∀ e ∈ elementDefects v, e.OfReading
  | .list vs => ofReading_allDefects vs
  | .null | .bool _ | .int _ | .float _ | .text _ | .moment _ | .record _ => by
    simp only [elementDefects]
    split
    · exact List.forall_mem_singleton.2 (Error.ofReading_fault (by decide))
    · exact nofun

theorem ofReading_allDefects : ∀ vs, ∀ e ∈ allDefects vs, e.OfReading
  | [] => nofun
  | v :: vs => List.forall_mem_append.2 ⟨ofReading_defects v, ofReading_allDefects vs⟩

end

end Field

namespace Condition

/-- What is wrong with a stored condition. -/
def defects : Value → List Error
  | .record ms =>
    Members.nameDefects ms "fieldId" "condition" ++ Members.nameDefects ms "nextStepId" "condition"
  | _ => [.fault .wrongKind]

theorem stopsAt_decode (v : Value) : StopsAt (decode v) (defects v) := by
  cases v with
  | record ms =>
    rw [defects, ← List.append_nil (Members.nameDefects ms "nextStepId" _)]
    exact stopsAt_require fun fieldId => stopsAt_require fun nextStep => stopsAt_ok _
  | _ => exact stopsAt_error _ []

theorem ofReading_defects (v : Value) : ∀ e ∈ defects v, e.OfReading := by
  cases v with
  | record ms =>
    exact List.forall_mem_append.2
      ⟨Members.ofReading_nameDefects ms _ _, Members.ofReading_nameDefects ms _ _⟩
  | _ => exact List.forall_mem_singleton.2 (Error.ofReading_fault (by decide))

end Condition

namespace Step

/-- What is wrong with a stored step. -/
def defects : Value → List Error
  | .record ms => Members.nameDefects ms "stepId" "step" ++
      (Field.elementDefects (Members.getOrNull ms "fields") ++
        (Members.getOrNull ms "nextStepCondition").defectsWithin Condition.defects)
  | _ => [.fault .wrongKind]

theorem stopsAt_decode (v : Value) : StopsAt (decode v) (defects v) := by
  cases v with
  | record ms =>
    rw [defects, ← List.append_nil (Value.defectsWithin _ _)]
    refine stopsAt_require fun id => ?_
    refine (Field.stopsAt_decodeElements _).bind fun fields _ => ?_
    exact stopsAt_parts Condition.stopsAt_decode fun conditions => stopsAt_ok _
  | _ => exact stopsAt_error _ []

theorem ofReading_defects (v : Value) : ∀ e ∈ defects v, e.OfReading := by
  cases v with
  | record ms =>
    refine List.forall_mem_append.2 ⟨Members.ofReading_nameDefects ms _ _, ?_⟩
    exact List.forall_mem_append.2 ⟨Field.ofReading_elementDefects _,
      Value.ofReading_defectsWithin Condition.ofReading_defects _⟩
  | _ => exact List.forall_mem_singleton.2 (Error.ofReading_fault (by decide))

end Step

namespace FormSettings

/-- What is wrong with stored settings. -/
def defects (v : Value) : List Error :=
  match v.orElse (.record []) with
  | .record _ => []
  | _ => [.fault .missingOperation]

theorem stopsAt_decode (v : Value) : StopsAt (decode v) (defects v) := by
  rw [decode, defects]
  cases v.orElse (.record []) with
  | record ms => exact stopsAt_ok _
  | _ => exact stopsAt_error _ []

theorem ofReading_defects (v : Value) : ∀ e ∈ defects v, e.OfReading := by
  unfold defects
  split
  · exact nofun
  · exact List.forall_mem_singleton.2 (Error.ofReading_fault (by decide))

end FormSettings

namespace Form

/-- What is wrong with a stored form. -/
def defects : Value → List Error
  | .record ms => (Members.getOrNull ms "steps").defectsWithin Step.defects ++
      FormSettings.defects (Members.getOrNull ms "settings")
  | v => [.formNotRecord v.kindName]

/-- Reading a form stops at its first defect. -/
theorem stopsAt_decode (v : Value) : StopsAt (decode v) (defects v) := by
  cases v with
  | record ms =>
    rw [decode, defects]
    exact stopsAt_parts Step.stopsAt_decode fun steps => (FormSettings.stopsAt_decode _).map _
  | _ => exact stopsAt_error _ []

theorem ofReading_defects (v : Value) : ∀ e ∈ defects v, e.OfReading := by
  cases v with
  | record ms =>
    exact List.forall_mem_append.2
      ⟨Value.ofReading_defectsWithin Step.ofReading_defects _, FormSettings.ofReading_defects _⟩
  | _ => exact List.forall_mem_singleton.2 (.inl rfl)

/-! ### Opening a form -/

/-- Following the choices of the entry step comes to one whose target is a list or a record, before
it comes to any damage. -/
def GoesAstray (form : Form) : Prop :=
  ∃ entry, form.entry? = some entry ∧ Strays form [entryStepId] [] entry.leadChoices

/-- A form whose choices have texts for ids is only stopped by damage and by stray choices. -/
theorem reopen_error_iff {form : Form}
    (hids : ∀ s ∈ form.steps, ∀ c ∈ s.leadChoices, ∃ i, c.id = .text i) {e : Error}
    (he : ∀ cause, e ≠ .malformed cause) (rootId : Value) :
    form.reopen rootId = .error e ↔ e = .fault .wrongKind ∧ form.GoesAstray := by
  constructor
  · intro h
    obtain hnone | hnoEntry | ⟨entry, hentry, hlead⟩ := form.reopen_cases rootId
    · rw [hnone] at h
      cases h
    · rw [hnoEntry] at h
      exact absurd (Except.error.inj h).symm (he _)
    · have hmem : entry ∈ form.steps := List.mem_of_find?_eq_some hentry
      rw [reopen_eq_rooted hentry hlead] at h
      cases hreopen : reopenChoices form [entryStepId] [] entry.leadChoices with
      | error f =>
        rw [hreopen] at h
        obtain rfl : f = e := Except.error.inj h
        obtain ⟨cause, hcause⟩ | ⟨hfault, hstrays⟩ := error_of_reopenChoices _ _ _ hreopen
        · exact absurd hcause (he cause)
        · exact ⟨hfault, entry, hentry, hstrays⟩
      | ok out =>
        obtain ⟨children, after⟩ := out
        -- all choices are followed, and where ids are texts only damage is left to be found
        have htexts := texts_of_reopenChoices hids (hids entry hmem) hreopen
        have hrooted : form.rooted rootId children = .error e := by rwa [hreopen] at h
        obtain ⟨t, ht, -⟩ | ⟨cause, hcause⟩ := form.rooted_of_texts htexts rootId
        · rw [ht] at hrooted
          cases hrooted
        · rw [hcause] at hrooted
          exact absurd (Except.error.inj hrooted).symm (he cause)
  · rintro ⟨rfl, entry, hentry, hstrays⟩
    have hlead : entry.leadChoices ≠ [] := by
      intro hnil
      rw [hnil] at hstrays
      cases hstrays
    rw [reopen_eq_rooted hentry hlead, reopenChoices_of_strays hstrays]
    rfl

/-- The errors with which a stored form is not opened, although they do not make it malformed: its
first defect, if that is not told from other data of unexpected kind, or a choice that leads to a
list or a record. -/
inductive Escapes (v : Value) : Error → Prop
  /-- The form cannot be read, and the decoder has not found out why. -/
  | unread {e : Error} : (defects v).head? = some e → e.isDecoding = false → Escapes v e
  /-- The form is read, but its choices cannot be followed. -/
  | astray {form : Form} : decode v = .ok form → form.GoesAstray → Escapes v (.fault .wrongKind)

/-- What escapes is a fault, and no error that a caller of the library knows. -/
theorem Escapes.exists_fault {v : Value} {e : Error} (h : Escapes v e) :
    ∃ cause ∈ [Fault.wrongKind, .badValue, .missingOperation], e = .fault cause := by
  cases h with
  | unread hfirst hdecoding =>
    refine (ofReading_defects v e (List.mem_of_mem_head? hfirst)).resolve_left ?_
    rw [hdecoding]
    exact Bool.false_ne_true
  | astray => exact ⟨.wrongKind, by decide, rfl⟩

theorem Escapes.ne_malformed {v : Value} {e : Error} (h : Escapes v e) (cause : Malformation) :
    e ≠ .malformed cause := by
  obtain ⟨fault, -, rfl⟩ := h.exists_fault
  exact nofun

end Form

/-- What is opened, before the caller decides about malformed forms. -/
def openingOf (v rootId : Value) : Except Error (Option OptionTree) :=
  match Form.decode v with
  | .ok form => form.reopen rootId
  | .error e => .error (if e.isDecoding then .malformed (.undecodable e.message) else e)

theorem openRecord_eq (v rootId : Value) (strict : Bool) :
    openRecord v rootId strict = openOutcome strict (openingOf v rootId) := rfl

section

variable {r : Except Error (Option OptionTree)} {e : Error}

/-- A caller who is not strict is spared damage, and nothing else. -/
theorem openOutcome_error_iff :
    (openOutcome false r).outcome = .error e ↔ r = .error e ∧ ∀ cause, e ≠ .malformed cause := by
  unfold openOutcome
  split
  · rename_i cause
    refine ⟨nofun, ?_⟩
    rintro ⟨heq, he⟩
    exact absurd (Except.error.inj heq).symm (he cause)
  · rename_i hnot
    exact ⟨fun h => ⟨h, fun cause hcause => hnot cause (hcause ▸ h)⟩, fun h => h.1⟩

/-- The warning tells the damage. -/
theorem openOutcome_warned_iff {cause : Malformation} :
    openOutcome false r = { outcome := .ok none, warnings := [.openedEmpty cause] } ↔
      r = .error (.malformed cause) := by
  unfold openOutcome
  split
  · simp
  · rename_i hnot
    exact ⟨fun h => absurd (congrArg Opened.warnings h) (by simp), fun h => absurd h (hnot cause)⟩

end

theorem openingOf_error_iff {v : Value} {e : Error} (he : ∀ cause, e ≠ .malformed cause)
    (rootId : Value) : openingOf v rootId = .error e ↔ Form.Escapes v e := by
  have hdefects : ∀ f, Form.decode v = .error f ↔ (Form.defects v).head? = some f := fun f =>
    (Form.stopsAt_decode v).error_iff
  rw [openingOf]
  cases hdecode : Form.decode v with
  | error f =>
    rw [Except.error.injEq]
    constructor
    · intro h
      by_cases hdecoding : f.isDecoding = true
      · rw [if_pos hdecoding] at h
        exact absurd h.symm (he _)
      · rw [if_neg hdecoding] at h
        subst h
        exact .unread ((hdefects f).1 hdecode) (Bool.eq_false_iff.2 hdecoding)
    · intro h
      cases h with
      | unread hfirst hdecoding =>
        rw [← hdefects, hdecode] at hfirst
        cases hfirst
        rw [if_neg (Bool.eq_false_iff.1 hdecoding)]
      | astray hform =>
        rw [hdecode] at hform
        cases hform
  | ok form =>
    rw [Form.reopen_error_iff (Form.textual_of_decode hdecode) he rootId]
    constructor
    · rintro ⟨rfl, hastray⟩
      exact .astray hdecode hastray
    · intro h
      cases h with
      | unread hfirst =>
        rw [← hdefects, hdecode] at hfirst
        cases hfirst
      | astray hform hastray =>
        rw [hdecode] at hform
        cases hform
        exact ⟨rfl, hastray⟩

/-- **What comes through when a stored form is opened.** Unless the caller is strict, opening a stored
form ends with an error exactly if the first defect of the form is none that a decoder reports, or its
choices go astray; the error is one of three faults. With a strict caller the same errors come
through, and otherwise a form is refused exactly if it would have been opened as an empty draft with
a warning. -/
theorem openRecord_error_iff (v rootId : Value) (e : Error) :
    ((openRecord v rootId false).outcome = .error e ↔ Form.Escapes v e) ∧
    ((openRecord v rootId true).outcome = .error e ↔ Form.Escapes v e ∨
      ∃ cause, e = .malformed cause ∧
        openRecord v rootId false = { outcome := .ok none, warnings := [.openedEmpty cause] }) ∧
    (Form.Escapes v e →
      ∃ cause ∈ [Fault.wrongKind, .badValue, .missingOperation], e = .fault cause) := by
  have hescapes : Form.Escapes v e ↔
      openingOf v rootId = .error e ∧ ∀ cause, e ≠ .malformed cause :=
    ⟨fun h => ⟨(openingOf_error_iff h.ne_malformed rootId).2 h, h.ne_malformed⟩,
      fun h => (openingOf_error_iff h.2 rootId).1 h.1⟩
  simp only [openRecord_eq, openOutcome_error_iff, outcome_openOutcome_strict,
    openOutcome_warned_iff, ← hescapes, true_and]
  refine ⟨⟨?_, ?_⟩, Form.Escapes.exists_fault⟩
  · intro h
    by_cases he : ∃ cause, e = .malformed cause
    · obtain ⟨cause, rfl⟩ := he
      exact .inr ⟨cause, rfl, h⟩
    · exact .inl (hescapes.2 ⟨h, not_exists.1 he⟩)
  · rintro (h | ⟨cause, rfl, h⟩)
    · exact (hescapes.1 h).1
    · exact h

/-- A stored form whose choices are plain texts. -/
def plainChoices : Value :=
  .record [("name", "Showroom"), ("steps", .list [.record [("stepId", "step1"), ("title", "Cars"),
    ("fields", .list [.record [("fieldId", "main_selection"), ("type", "image_select"),
      ("label", "Pick one"), ("options", .list ["Sedan", "Bike"])]])]])]

theorem openRecord_plainChoices :
    (openRecord plainChoices "root-1" false).outcome = .error (.fault .wrongKind) ∧
      (openRecord plainChoices "root-1" true).outcome = .error (.fault .wrongKind) :=
  ⟨rfl, rfl⟩

end BranchForm
