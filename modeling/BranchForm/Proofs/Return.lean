import BranchForm.Proofs.Descent
import BranchForm.Proofs.Log
import BranchForm.Proofs.Paging
import BranchForm.Proofs.Valid

/-!
# Going back and on again

Picking a choice leads along that choice, going on leads along the first choice among the answers
stored. On a step of one choice the two are the same, so going back and on again returns to the step
picked. On a step of several choices the first one that was switched on decides, whatever was picked
last.

* `Form.Asks` says what the steps of a compiled form but the last are like,
  `Form.Arranged.exists_asks` that they are so;
* `Field.answered?` is the choice that answers lead along; `Form.Asks.answeredTarget_eq` and
  `Form.Asks.leadPlace_eq` put the rules of going on in its words;
* `Session.exists_select_picked` : picking stores an answer and follows the choice picked, if there is
  one; `Session.select_inv` : what it has done if it moved;
* `Session.retreat_of_history` and `Session.advance_of_asks` are the two ways back and on;
* `advance_retreat_of_select` : when going back and on again returns to the step picked;
  `advance_retreat_elsewhere` shows a session in which it does not.
-/

namespace BranchForm

/-! ### Texts in compiled steps -/

/-- A step asks one question under a text, and its choices store texts. -/
def Step.Textual (s : Step) : Prop :=
  ∃ q, s.fields = [.mk q []] ∧ (∃ fieldId, q.id = .text fieldId) ∧
    ∀ c ∈ q.choices, ∃ v, c.value = .text v

theorem textual_choices {settings : CompileSettings} {n : Nat} {ts : List OptionTree}
    {out : Compiled (List Choice)} (h : compileChoices settings n ts = .ok out) :
    (∀ c ∈ out.result, ∃ v, c.value = .text v) ∧ ∀ s ∈ out.steps, s.Textual := by
  refine ⟨values_of_offers (offers_of_compileChoices h), fun s hs => ?_⟩
  obtain ⟨u, hu, hstands⟩ := (paired_choices h).exists_node hs
  obtain ⟨number, title, label, choices, rfl, -, -, hoffers⟩ :=
    hstands.2 (OptionTree.mem_branching.1 hu).2
  exact ⟨_, rfl, ⟨_, rfl⟩, values_of_offers hoffers⟩

/-! ### Steps that ask one question -/

/-- The choice of the first answer to a field that picks one. -/
def Field.answered? (f : Field) (answers : Members) : Option Choice :=
  (Form.answersTo answers f).findSome? f.choice?

namespace Form

/-- A choice stores a text and leads to a step of the form behind the first. -/
structure Links (form : Form) (c : Choice) : Prop where
  /-- What the choice stores. -/
  value : ∃ v, c.value = .text v
  /-- Where it leads. -/
  resolve : ∀ source, form.resolve source c.target = .ok c.target
  /-- The place of that step. -/
  place : ∃ j, form.indexOf? c.target = some (j + 1)

/-- The step at a place, which is not the last, asks one question and branches by its choices only.
-/
structure Asks (form : Form) (i : Nat) (step : Step) (f : Field) : Prop where
  /-- The place. -/
  place : form.steps[i]? = some step
  /-- A step stands behind it. -/
  lt : i + 1 < form.steps.length
  /-- The question. -/
  fields : step.fields = [f]
  /-- It has no sub-fields. -/
  flat : f.subFields = []
  /-- It is named by a text. -/
  named : ∃ fieldId, f.id = .text fieldId
  /-- There are no conditions. -/
  conditions : step.conditions = []
  /-- The form does not end there. -/
  isLast : step.isLast = false
  /-- The choices lead to steps. -/
  links : ∀ c ∈ f.choices, form.Links c

variable {form : Form} {c : Choice} {i : Nat} {step : Step} {f : Field}

theorem Links.ne_null (h : form.Links c) : c.target ≠ .null := by
  intro hnull
  obtain ⟨s, -, hs⟩ := has_of_resolve (h.resolve .null)
  rw [hnull] at hs
  cases hs

/-- Where all choices store texts and name targets, going on follows the first answer that picks a
choice. -/
theorem pickedTarget?_eq (hlinks : ∀ c ∈ f.choices, form.Links c) (given : List Value) :
    pickedTarget? f given = (given.findSome? f.choice?).map Choice.target := by
  fun_induction pickedTarget? f given with
  | case1 => rfl
  | case2 answer rest c hchoice hnull ih =>
    exact absurd hnull (hlinks c (List.mem_of_find?_eq_some hchoice)).ne_null
  | case3 answer rest c hchoice hnull => simp [hchoice]
  | case4 answer rest hchoice ih => simp [hchoice, ih]
  | case5 answer rest hanswer ih =>
    -- an answer that is no text picks nothing, since choices store texts
    have hnone : f.choice? answer = none := by
      refine List.find?_eq_none.2 fun c hc hagrees => ?_
      obtain ⟨v, hv⟩ := (hlinks c hc).value
      rw [hv, Value.text_agrees_iff] at hagrees
      exact hanswer v hagrees
    simp [hnone, ih]

namespace Asks

theorem mem (h : form.Asks i step f) : step ∈ form.steps := List.mem_of_getElem? h.place

/-- What the answers on such a step imply. -/
theorem answeredTarget_eq (h : form.Asks i step f) (s : Session) :
    form.answeredTarget s step = .ok ((f.answered? s.answers).map Choice.target) := by
  simp only [answeredTarget, firedCondition?, h.conditions, List.find?_nil, h.fields,
    List.findSome?_cons, List.findSome?_nil, pickedTarget?_eq h.links, Field.answered?]
  cases hfirst : (answersTo s.answers f).findSome? f.choice? with
  | none => rfl
  | some c =>
    obtain ⟨answer, -, hchoice⟩ := List.exists_of_findSome?_eq_some hfirst
    have hlinks := h.links c (List.mem_of_find?_eq_some hchoice)
    simp [hlinks.resolve, Except.map]

/-- The place to which answers lead is that of the first one that picks a choice. -/
theorem leadPlace_eq (h : form.Asks i step f) (answers : Members) :
    form.leadPlace answers i = (f.answered? answers).bind fun c => form.indexOf? c.target := by
  simp only [leadPlace, h.place, h.answeredTarget_eq]
  cases f.answered? answers <;> rfl

theorem findField_inv (h : form.Asks i step f) {fieldId : Value} {found : Field}
    (hfound : Session.findField step fieldId = some found) : found = f ∧ fieldId = f.id := by
  obtain ⟨name, hname⟩ := h.named
  rw [Session.findField, h.fields, List.reverse_singleton, Session.searchFields, h.flat] at hfound
  split at hfound
  · rename_i hagrees
    rw [Field.hasName, hname, Value.text_agrees_iff] at hagrees
    exact ⟨(Option.some.inj hfound).symm, hagrees.trans hname.symm⟩
  · simp [Session.searchFields] at hfound

end Asks

namespace Arranged

variable {settings : CompileSettings} {root : Node} {choices : List Choice} {branches : List Step}

/-- All steps of a compiled form but the last ask one question. -/
theorem exists_asks (h : form.Arranged settings root choices branches) {n : Nat}
    {ts : List OptionTree} {inner : Compiled (List Choice)}
    (hinner : compileChoices settings n ts = .ok inner) (hchoices : inner.result = choices)
    (hbranches : inner.steps = branches) {entryFieldId : String}
    (hentry : settings.entryFieldId = .text entryFieldId) (hi : i + 1 < form.steps.length) :
    ∃ step f, form.Asks i step f := by
  obtain ⟨step, q, hplace, hfields, hconditions, hlast, hinto⟩ := h.step_at hi
  obtain ⟨hvalues, htextual⟩ := textual_choices hinner
  have hkind : step = entryStep settings root choices ∨ step ∈ branches := by
    rcases h.mem_steps_iff.1 (List.mem_of_getElem? hplace) with hstep | hstep | hstep
    · exact .inl hstep
    · exact .inr hstep
    · rw [hstep] at hlast
      cases hlast
  have htext : (∃ fieldId, q.id = .text fieldId) ∧ ∀ c ∈ q.choices, ∃ v, c.value = .text v := by
    rcases hkind with rfl | hbranch
    · cases hfields
      exact ⟨⟨_, hentry⟩, hchoices ▸ hvalues⟩
    · obtain ⟨q', hfields', hid, hall⟩ := htextual step (hbranches ▸ hbranch)
      cases hfields.symm.trans hfields'
      exact ⟨hid, hall⟩
  refine ⟨step, .mk q [], hplace, hi, hfields, rfl, htext.1, hconditions, hlast, fun c hc => ?_⟩
  have hlead : c ∈ step.leadChoices := by
    rw [Step.leadChoices, hfields]
    exact hc
  have hhas := h.has_target hkind hlead
  have hresolve := h.resolve_of_has hhas
  refine ⟨htext.2 c hc, hresolve, ?_⟩
  obtain ⟨j, hj⟩ := exists_indexOf?_of_has hhas
  obtain ⟨k, rfl⟩ : ∃ k, j = k + 1 := by
    apply Nat.exists_eq_succ_of_ne_zero
    rcases h.place_of_leadsInto (hinto c hlead) (hresolve .null) hj with hend | ⟨hpos, -⟩
    · omega
    · exact Nat.ne_of_gt hpos
  exact ⟨k, hj⟩

end Arranged

end Form

/-! ### Picking, going back and going on -/

namespace Session

variable {form : Form} {s : Session} {step : Step} {f : Field} {i : Nat} {fieldId value : Value}

theorem step_of_asks (hd : form.stepIds.Nodup) (h : form.Asks i step f)
    (hcurrent : s.current = .text step.id) : s.step form = .ok step := by
  apply step_of_stepOf?
  rw [hcurrent]
  exact Form.step?_of_mem hd h.mem

theorem indexOf?_of_asks (hd : form.stepIds.Nodup) (h : form.Asks i step f)
    (hcurrent : s.current = .text step.id) : form.indexOf? s.current = some i := by
  rw [hcurrent]
  exact Form.stepIndex?_of_getElem? hd h.place

/-- Going on leads along the first answer that picks a choice. -/
theorem advance_of_asks (hd : form.stepIds.Nodup) (h : form.Asks i step f)
    (hcurrent : s.current = .text step.id) (hpath : s.path = []) {c : Choice}
    (hc : f.answered? s.answers = some c) :
    s.advance form =
      { session := s.moveTo c.target .next .null .null true, outcome := .ok .moved } := by
  have hend : s.endsWith form step = false := by
    have hlt := h.lt
    simp only [endsWith, h.isLast, indexOf?_of_asks hd h hcurrent, Bool.false_or, Option.any_some,
      beq_eq_false_iff_ne]
    omega
  rw [advance_of_path_nil hpath (step_of_asks hd h hcurrent)]
  simp [leave, hend, h.answeredTarget_eq, hc]

/-- Behind the first place, going back leads to the step visited last. -/
theorem retreat_of_history (hpath : s.path = []) (hplace : form.indexOf? s.current = some (i + 1))
    {visited : List Value} {v : Value} (hhistory : s.history = visited ++ [v]) :
    s.retreat form =
      { session := { s with history := visited }.moveTo v .back .null .null false
        outcome := .ok .moved } := by
  simp [retreat, shift_of_path_nil hpath, retrace, hplace, hhistory]

/-- What has been picked in a field before, if it takes several choices. -/
def pickedBefore (s : Session) (fieldId : Value) : List Value :=
  match s.answer fieldId with
  | .list vs => vs
  | _ => []

/-- The answer that picking a value leaves in a field: the value, behind those picked before if the
field takes several. -/
def answerAfter (s : Session) (f : Field) (fieldId value : Value) : Value :=
  if f.question.kind.isMultiple then .list (s.pickedBefore fieldId ++ [value]) else value

theorem switch_on {chosen : List Value} (h : switch (s.answer fieldId) value = (chosen, true)) :
    chosen = s.pickedBefore fieldId ++ [value] := by
  change (if value.within (s.pickedBefore fieldId) then
    (value.removeFrom (s.pickedBefore fieldId), false)
    else (s.pickedBefore fieldId ++ [value], true)) = (chosen, true) at h
  split at h
  · cases h
  · exact (congrArg Prod.fst h).symm

/-- The choice that picking a value follows, unless it switches the value off. -/
def picked? (s : Session) (f : Field) (fieldId value : Value) : Option Choice :=
  if f.question.kind.isMultiple && !(switch (s.answer fieldId) value).2 then none
  else f.choice? value

theorem choice?_of_picked? {c : Choice} (h : s.picked? f fieldId value = some c) :
    f.choice? value = some c := by
  unfold picked? at h
  split at h
  · cases h
  · exact h

/-- Picking a value follows the choice picked, and if there is one, the answer is the value behind
those picked before. -/
theorem exists_select_picked (value : Value) (hstep : s.step form = .ok step)
    (hfield : findField step fieldId = some f) :
    ∃ stored, s.select form fieldId value = (s.withAnswer fieldId stored).follow
        (form.branchTarget (s.withAnswer fieldId stored) step fieldId (s.picked? f fieldId value))
        .select fieldId value ∧
      ∀ c, s.picked? f fieldId value = some c → stored = s.answerAfter f fieldId value := by
  cases hkind : f.question.kind.isMultiple with
  | false =>
    have hpicked : s.picked? f fieldId value = f.choice? value := by simp [picked?, hkind]
    refine ⟨value, ?_, fun c _ => by simp [answerAfter, hkind]⟩
    rw [hpicked]
    exact select_of_single hstep hfield hkind
  | true =>
    obtain ⟨chosen, on, hswitch⟩ : ∃ chosen on, switch (s.answer fieldId) value = (chosen, on) :=
      ⟨_, _, rfl⟩
    have hpicked : s.picked? f fieldId value = if on then f.choice? value else none := by
      cases on <;> simp [picked?, hkind, hswitch]
    refine ⟨.list chosen, ?_, fun c hc => ?_⟩
    · rw [hpicked]
      exact select_of_multiple hstep hfield hkind hswitch
    · cases on with
      | false =>
        rw [hpicked] at hc
        cases hc
      | true => simp [answerAfter, hkind, switch_on hswitch]

theorem branchTarget_inv (hconditions : step.conditions = []) {picked : Option Choice} {v : Value}
    (h : form.branchTarget s step fieldId picked = .ok (some v)) :
    ∃ c, picked = some c ∧ form.resolve s.current c.target = .ok v := by
  simp only [Form.branchTarget, Form.firedCondition?, hconditions, List.find?_nil] at h
  cases picked with
  | none => cases h
  | some c =>
    refine ⟨c, rfl, ?_⟩
    dsimp only at h
    split at h
    · cases h
    · cases hresolve : form.resolve s.current c.target with
      | error cause =>
        rw [hresolve] at h
        cases h
      | ok w =>
        rw [hresolve] at h
        cases h
        rfl

theorem exists_step_of_moved (h : (s.select form fieldId value).outcome = .ok .moved) :
    ∃ step, s.step form = .ok step := by
  cases hstep : s.step form with
  | error e => simp [select, hstep] at h
  | ok step => exact ⟨step, rfl⟩

/-- If picking a choice has moved, the choice was switched on and followed. -/
theorem select_inv (hstep : s.step form = .ok step) (hconditions : step.conditions = [])
    (h : (s.select form fieldId value).outcome = .ok .moved) :
    ∃ f c v, findField step fieldId = some f ∧ f.choice? value = some c ∧
      form.resolve s.current c.target = .ok v ∧ (s.select form fieldId value).session =
        (s.withAnswer fieldId (s.answerAfter f fieldId value)).moveTo v .select fieldId value
          true := by
  cases hfield : findField step fieldId with
  | none => simp [select, hstep, hfield] at h
  | some f =>
    obtain ⟨stored, hselect, hstored⟩ := exists_select_picked value hstep hfield
    rw [hselect] at h ⊢
    rcases follow_cases (s.withAnswer fieldId stored)
      (form.branchTarget (s.withAnswer fieldId stored) step fieldId (s.picked? f fieldId value))
      .select fieldId value with ⟨hstayed, -⟩ | ⟨v, htarget, hmoved⟩
    · rw [hstayed] at h
      cases h
    · obtain ⟨c, hc, hresolve⟩ := branchTarget_inv hconditions htarget
      refine ⟨f, c, v, rfl, choice?_of_picked? hc, hresolve, ?_⟩
      rw [hmoved, hstored c hc]

/-- On a step that asks one question. -/
theorem select_of_asks (hd : form.stepIds.Nodup) (h : form.Asks i step f)
    (hcurrent : s.current = .text step.id)
    (hmoved : (s.select form fieldId value).outcome = .ok .moved) :
    fieldId = f.id ∧ (∃ v, value = .text v) ∧ ∃ c ∈ f.choices, f.choice? value = some c ∧
      (s.select form fieldId value).session =
        (s.withAnswer fieldId (s.answerAfter f fieldId value)).moveTo c.target .select fieldId value
          true := by
  obtain ⟨found, c, v, hfound, hc, hresolve, hsession⟩ :=
    select_inv (step_of_asks hd h hcurrent) h.conditions hmoved
  obtain ⟨rfl, hname⟩ := h.findField_inv hfound
  have hmem : c ∈ found.choices := List.mem_of_find?_eq_some hc
  have hlinks := h.links c hmem
  rw [hlinks.resolve] at hresolve
  cases hresolve
  obtain ⟨slug, hslug⟩ := hlinks.value
  have hagrees : c.value.agrees value = true :=
    List.find?_some (p := fun d : Choice => d.value.agrees value) hc
  rw [hslug, Value.text_agrees_iff] at hagrees
  exact ⟨hname, ⟨slug, hagrees⟩, c, hmem, hc, hsession⟩

/-- The choice to which what was picked before in a field leads, if the field takes several. -/
def earlierChoice? (s : Session) (f : Field) : Option Choice :=
  if f.question.kind.isMultiple then (s.pickedBefore f.id).findSome? f.choice? else none

/-- After a pick, going on follows what was picked before, and the pick itself only if that leads
nowhere. -/
theorem answered?_answerAfter {name v : String} (hname : f.id = .text name) {c : Choice}
    (hc : f.choice? (.text v) = some c) :
    f.answered? (s.withAnswer f.id (s.answerAfter f f.id (.text v))).answers =
      some ((s.earlierChoice? f).getD c) := by
  have hstored : Form.answersTo (s.withAnswer f.id (s.answerAfter f f.id (.text v))).answers f =
      if f.question.kind.isMultiple then s.pickedBefore f.id ++ [.text v] else [.text v] := by
    unfold Form.answersTo
    rw [withAnswer, hname, Members.getOrNull_put_self, answerAfter]
    cases f.question.kind.isMultiple <;> rfl
  rw [Field.answered?, hstored, earlierChoice?]
  -- a pick is stored behind those before it, and the search is from the front
  split
  · rw [List.findSome?_append, List.findSome?_singleton, hc]
    cases (s.pickedBefore f.id).findSome? f.choice? <;> rfl
  · simp [hc]

/-- On a step that asks one question, a pick that has moved is taken back, and going on again moves
along what was picked first. -/
theorem advance_retreat_of_asks (hd : form.stepIds.Nodup) (h : form.Asks i step f)
    (hcurrent : s.current = .text step.id)
    (hmoved : (s.select form fieldId value).outcome = .ok .moved) :
    ∃ c back, (s.select form fieldId value).session.current = c.target ∧
      (s.select form fieldId value).session.retreat form =
        { session := back, outcome := .ok .moved } ∧
      back.standing = s.standing ∧ back.answers = (s.select form fieldId value).session.answers ∧
      back.advance form =
        { session := back.moveTo ((s.earlierChoice? f).getD c).target .next .null .null true
          outcome := .ok .moved } := by
  obtain ⟨rfl, ⟨v, rfl⟩, c, hmem, hc, hsession⟩ := select_of_asks hd h hcurrent hmoved
  obtain ⟨name, hname⟩ := h.named
  obtain ⟨j, hj⟩ := (h.links c hmem).place
  rw [hsession]
  refine ⟨c, _, rfl, retreat_of_history rfl hj rfl, rfl, rfl, ?_⟩
  apply advance_of_asks hd h
  · exact hcurrent
  · rfl
  · exact answered?_answerAfter hname hc

/-! ### The last step -/

/-- Among fields without sub-fields the search finds one of them. -/
theorem mem_of_searchFields {fs : List Field} (hflat : ∀ f ∈ fs, f.subFields = [])
    (h : searchFields fieldId fs = some f) : f ∈ fs := by
  induction fs with
  | nil => simp [searchFields] at h
  | cons g fs ih =>
    rw [searchFields, hflat g List.mem_cons_self] at h
    split at h
    · rw [← Option.some.inj h]
      exact List.mem_cons_self
    · exact List.mem_cons_of_mem _ (ih (fun f hf => hflat f (List.mem_cons_of_mem _ hf)) h)

/-- On a step that offers no choices nothing can be picked. -/
theorem not_moved_of_plain (hstep : s.step form = .ok step) (hconditions : step.conditions = [])
    (hplain : ∀ f ∈ step.fields, f.subFields = [] ∧ f.choices = []) :
    (s.select form fieldId value).outcome ≠ .ok .moved := by
  intro hmoved
  obtain ⟨f, c, v, hfound, hc, -⟩ := select_inv hstep hconditions hmoved
  have hf : f ∈ step.fields := List.mem_reverse.1 <|
    mem_of_searchFields (fun g hg => (hplain g (List.mem_reverse.1 hg)).1) hfound
  have hmem : c ∈ f.choices := List.mem_of_find?_eq_some hc
  rw [(hplain f hf).2] at hmem
  cases hmem

end Session

/-! ### Sessions on compiled forms -/

/-- Only the form of a tree with options has steps. -/
theorem Form.arranged_of_has {settings : CompileSettings} {t : OptionTree} {form : Form} {v : Value}
    (h : compile settings (some t) = .ok form) (hv : form.Has v) :
    ∃ inner, compileChoices settings firstBranchNumber t.children = .ok inner ∧
      form.Arranged settings t.data inner.result inner.steps := by
  obtain ⟨root, cs⟩ := t
  cases cs with
  | nil =>
    cases h
    obtain ⟨step, hstep, -⟩ := hv
    cases hstep
  | cons c cs => exact arranged_of_compile h

/-- A pick that moves is made on a step that asks one question. -/
theorem Form.Arranged.exists_asks_of_moved {settings : CompileSettings} {root : Node}
    {ts : List OptionTree} {n : Nat} {inner : Compiled (List Choice)} {form : Form}
    (h : form.Arranged settings root inner.result inner.steps)
    (hinner : compileChoices settings n ts = .ok inner) {entryFieldId : String}
    (hentry : settings.entryFieldId = .text entryFieldId)
    (hplain : ∀ f ∈ settings.finalFields, f.subFields = [] ∧ f.choices = []) {s : Session}
    {fieldId value : Value} (hmoved : (s.select form fieldId value).outcome = .ok .moved) :
    ∃ i step f, form.Asks i step f ∧ s.current = .text step.id := by
  obtain ⟨step, hstep⟩ := Session.exists_step_of_moved hmoved
  obtain ⟨i, hi⟩ := exists_indexOf?_of_has (Session.has_of_step hstep)
  obtain ⟨shown, hplace, hcurrent⟩ := getElem?_of_indexOf? hi
  have hlt := lt_of_indexOf? hi
  by_cases hlast : i + 1 < form.steps.length
  · obtain ⟨step', f, hasks⟩ := h.exists_asks hinner rfl rfl hentry hlast
    obtain rfl : shown = step' := Option.some.inj (hplace.symm.trans hasks.place)
    exact ⟨i, shown, f, hasks, hcurrent⟩
  · -- the terminal step takes answers, but has nothing to pick from
    have hshown : shown = finalStep settings := by
      have hlength := h.length_steps
      rw [show i = inner.steps.length + 1 by omega, h.getElem?_final] at hplace
      exact (Option.some.inj hplace).symm
    have hfinal : s.step form = .ok (finalStep settings) := by
      apply Session.step_of_stepOf?
      rw [hcurrent, hshown]
      exact step?_of_mem h.nodup_stepIds h.mem_final
    exact absurd hmoved (Session.not_moved_of_plain hfinal rfl hplain)

/-- **Going back and on again.** In every session on the compiled form of a tree, a pick that has
moved can be taken back: going back moves to the step of the pick, with the steps visited before and
the answers after the pick. Going on moves again. It returns to the step picked if and only if that
is where the choices picked before in the same field lead as well, so always if the field takes one
choice or nothing was picked in it before. -/
theorem advance_retreat_of_select {t : OptionTree} {form : Form} {s : Session}
    (h : compile {} (some t) = .ok form) {fieldId value : Value}
    (hmoved : (s.select form fieldId value).outcome = .ok .moved) :
    ∃ step f back on, s.step form = .ok step ∧ Session.findField step fieldId = some f ∧
      (s.select form fieldId value).session.retreat form =
        { session := back, outcome := .ok .moved } ∧
      back.standing = s.standing ∧ back.answers = (s.select form fieldId value).session.answers ∧
      back.advance form = { session := on, outcome := .ok .moved } ∧
      (on.current = (s.select form fieldId value).session.current ↔
        ∀ c, s.earlierChoice? f = some c →
          c.target = (s.select form fieldId value).session.current) := by
  obtain ⟨shown, hshown⟩ := Session.exists_step_of_moved hmoved
  obtain ⟨inner, hinner, harranged⟩ := Form.arranged_of_has h (Session.has_of_step hshown)
  have hd := harranged.nodup_stepIds
  obtain ⟨i, step, f, hasks, hcurrent⟩ :=
    harranged.exists_asks_of_moved hinner rfl (by decide) hmoved
  obtain ⟨c, back, hpicked, hback, hstanding, hanswers, hon⟩ :=
    Session.advance_retreat_of_asks hd hasks hcurrent hmoved
  have hfound : Session.findField step fieldId = some f := by
    obtain ⟨rfl, -⟩ := Session.select_of_asks hd hasks hcurrent hmoved
    obtain ⟨name, hname⟩ := hasks.named
    rw [Session.findField, hasks.fields, List.reverse_singleton, Session.searchFields,
      Field.hasName, hname, if_pos (Value.text_agrees_iff.2 rfl)]
  refine ⟨step, f, back, _, Session.step_of_asks hd hasks hcurrent, hfound, hback, hstanding,
    hanswers, hon, ?_⟩
  rw [hpicked]
  cases hearlier : s.earlierChoice? f with
  | none => simp [Session.moveTo]
  | some earlier => simp [Session.moveTo]

/-- A tree with a branch that takes several choices, one of which leads on and one to the end. -/
def fleet : OptionTree :=
  .node { id := "root", label := "Garage", kind := .root }
    [.node { id := "vehicles", label := "Vehicles", multiple := .bool true }
      [.node { id := "car", label := "Car" } [.node { id := "sedan", label := "Sedan" } []],
        .node { id := "bike", label := "Bike" } []]]

/-- The form of the tree. -/
def fleetForm : Form :=
  { name := "Garage"
    description := "Find the best garage for you"
    steps := [
      entryStep {} fleet.data
        [childChoice { id := "vehicles", label := "Vehicles" } "vehicles" "step2_vehicles"],
      branchStep 3 { id := "car", label := "Car" } "Choose Car Type" "Select Car option"
        [childChoice { id := "sedan", label := "Sedan" } "sedan" "step_final"],
      branchStep 2 { id := "vehicles", label := "Vehicles", multiple := .bool true }
        "Choose Vehicles Type" "Select Vehicles option"
        [childChoice { id := "car", label := "Car" } "car" "step3_car",
          childChoice { id := "bike", label := "Bike" } "bike" "step_final"],
      finalStep {}]
    settings := { successMessage := "Thanks! We'll recommend the best garage for you." } }

theorem compile_fleet : compile {} (some fleet) = .ok fleetForm := by cbv

/-- The respondent has picked the vehicles and the car, and has gone back to the vehicles. -/
def fleetSession : Session :=
  [.select "main_selection" "vehicles", .select "vehicles_selection" "car", .retreat].foldl
    (fun s (r : Request) => r.apply fleetForm s) { current := .text entryStepId }

/-- Then the respondent picks the bike as well. -/
def fleetPicked : Session := (fleetSession.select fleetForm "vehicles_selection" "bike").session

theorem moved_bike :
    (fleetSession.select fleetForm "vehicles_selection" "bike").outcome = .ok .moved :=
  eq_ok_of_toOption (by decide +kernel)

theorem advance_retreat_fleet :
    compile {} (some fleet) = .ok fleetForm ∧
      (fleetSession.select fleetForm "vehicles_selection" "bike").outcome = .ok .moved ∧
      ∃ back, fleetPicked.retreat fleetForm = { session := back, outcome := .ok .moved } ∧
        back.standing = fleetSession.standing := by
  obtain ⟨step, f, back, on, -, -, hback, hstanding, -⟩ :=
    advance_retreat_of_select compile_fleet moved_bike
  exact ⟨compile_fleet, moved_bike, back, hback, hstanding⟩

/-- The bike leads to the end, but the car was picked before. -/
theorem advance_retreat_elsewhere :
    compile {} (some fleet) = .ok fleetForm ∧ fleet.ids.Nodup ∧
      (∀ u ∈ fleet.preorder, u.children ≠ [] → u.id ≠ "main") ∧
      fleetForm.Reached Request.isMove fleetSession ∧
      (fleetSession.select fleetForm "vehicles_selection" "bike").outcome = .ok .moved ∧
      fleetPicked.current = "step_final" ∧
      ((fleetPicked.retreat fleetForm).session.advance fleetForm).session.current = "step3_car" :=
  ⟨compile_fleet, by decide +kernel, by decide +kernel, Form.Reached.run (.fresh rfl) (by decide),
    moved_bike, by decide +kernel, by decide +kernel⟩

end BranchForm
