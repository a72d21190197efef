import BranchForm.Proofs.AnswerKeys
import BranchForm.Proofs.Paging
import BranchForm.Proofs.Resumed
import Mathlib

/-!
# Walking through nested fields

A field with fields inside it can be entered, and so can those inside it in turn. The path of a
session names the fields entered, one below the other. Going on and going back replace the last of
them by the next or the previous field beside it that can be entered; at the end of the row they
leave the nested fields and go from the step. Where fields beside each other have different ids, the
fields on screen, the field the path leads to and the row in which it stands belong together, and
the walk can be taken back.

* `Field.Apart` and `Form.SiblingsApart` : fields beside each other have different ids;
* `Session.Inside` says what a session shows among nested fields, `Reply.Shifts` and
  `Session.Leaves` what a request does to it;
* `Step.nested?_concat` : the field that a path leads to is found in its row;
* `Session.LeadsInto` is the path of a session and its row. `Session.LeadsInto.shift_forth` and
  `Session.LeadsInto.shift_back` compute the next path, `Session.LeadsInto.beside` is the row there;
* `Session.walks_apply` is the step of the invariant that a path leads into a field, if anywhere;
* `Session.LeadsInto.advances` : going on passes through the containers of the row;
* `walks_siblings` is the result.
-/

namespace BranchForm

/-! ### Fields beside each other -/

namespace Field

variable {fs before after : List Field} {f g : Field}

/-- The fields among several that can be entered. -/
def containers (fs : List Field) : List Field := fs.filter fun f => !f.subFields.isEmpty

theorem containers_append (fs gs : List Field) :
    containers (fs ++ gs) = containers fs ++ containers gs :=
  List.filter_append ..

theorem containers_cons (h : f.subFields ≠ []) (fs : List Field) :
    containers (f :: fs) = f :: containers fs := by
  simp [containers, h]

theorem mem_containers : f ∈ containers fs ↔ f ∈ fs ∧ f.subFields ≠ [] := by
  simp [containers]

/-- The first field that can be entered stands behind fields that cannot. -/
theorem exists_of_containers_cons {rest : List Field} (h : containers fs = g :: rest) :
    ∃ skipped after, fs = skipped ++ g :: after ∧ containers skipped = [] ∧
      containers after = rest := by
  obtain ⟨skipped, after, hfs, hskipped, -, hrest⟩ := List.filter_eq_cons_iff.1 h
  exact ⟨skipped, after, hfs, List.filter_eq_nil_iff.2 hskipped, hrest⟩

/-- The last field that can be entered stands before fields that cannot. -/
theorem exists_of_containers_concat {front : List Field} (h : containers fs = front ++ [g]) :
    ∃ before skipped, fs = before ++ g :: skipped ∧ containers skipped = [] := by
  obtain ⟨before, rest, rfl, -, hrest⟩ := List.filter_eq_append_iff.1 h
  obtain ⟨between, skipped, rfl, -, -, hskipped⟩ := List.filter_eq_cons_iff.1 hrest
  exact ⟨before ++ between, skipped, by simp, hskipped⟩

/-- Fields of which those beside each other, at any depth, have different texts for ids. -/
structure Apart (fs : List Field) : Prop where
  /-- The ids are texts. -/
  texts : ∀ f ∈ deepAll fs, ∃ name : String, f.id = .text name
  /-- Those of the fields themselves are different. -/
  row : (fs.map id).Nodup
  /-- So are those of the fields inside any of them. -/
  rows : ∀ f ∈ deepAll fs, (f.subFields.map id).Nodup

namespace Apart

theorem nil : Apart [] := ⟨nofun, .nil, nofun⟩

theorem inside (h : Apart fs) (hf : f ∈ fs) : Apart f.subFields where
  texts := fun g hg => h.texts g (mem_deepAll.2 ⟨f, hf, .inr hg⟩)
  row := h.rows f (mem_deepAll.2 ⟨f, hf, .inl rfl⟩)
  rows := fun g hg => h.rows g (mem_deepAll.2 ⟨f, hf, .inr hg⟩)

theorem hasName_iff (h : Apart fs) (hf : f ∈ fs) {v : Value} : f.hasName v = true ↔ v = f.id := by
  obtain ⟨name, hname⟩ := h.texts f (mem_deepAll.2 ⟨f, hf, .inl rfl⟩)
  rw [hasName, hname]
  exact Value.text_agrees_iff

theorem notMem_before (h : Apart (before ++ f :: after)) : f.id ∉ before.map id := by
  have hrow := h.row
  rw [List.map_append, List.map_cons, List.nodup_append] at hrow
  intro hmem
  exact hrow.2.2 _ hmem _ List.mem_cons_self rfl

/-- A field is found by its id. -/
theorem find?_append (h : Apart (before ++ f :: after)) :
    (before ++ f :: after).find? (·.hasName f.id) = some f := by
  refine List.find?_eq_some_iff_append.2 ⟨(h.hasName_iff (by simp)).2 rfl, before, after, rfl, ?_⟩
  intro g hg
  rw [Bool.not_eq_true', Bool.eq_false_iff]
  intro hname
  have hid := (h.hasName_iff (List.mem_append_left _ hg)).1 hname
  exact h.notMem_before (hid ▸ List.mem_map_of_mem hg)

/-- What is found stands in the row, and by its id. -/
theorem exists_of_find? (h : Apart fs) {v : Value} (hf : fs.find? (·.hasName v) = some f) :
    v = f.id ∧ ∃ before after, fs = before ++ f :: after := by
  obtain ⟨hname, before, after, rfl, -⟩ := List.find?_eq_some_iff_append.1 hf
  exact ⟨(h.hasName_iff (by simp)).1 hname, before, after, rfl⟩

end Apart

end Field

/-- On every step the fields beside each other, at any depth, have different texts for ids. -/
def Form.SiblingsApart (form : Form) : Prop := ∀ step ∈ form.steps, Field.Apart step.fields

/-! ### What a session shows and what a request does -/

/-- A request has shown other fields of the step and done nothing else. -/
def Reply.Shifts (reply : Reply) (s : Session) : Prop :=
  reply.outcome = .ok .moved ∧ reply.session = { s with path := reply.session.path }

namespace Session

/-- A session shows the fields inside a field of its step. One level up, where it leads back from
there, that field stands behind some fields and before others. -/
structure Inside (form : Form) (s : Session) (before : List Field) (f : Field)
    (after : List Field) : Prop where
  /-- The path leads to the field. -/
  found : ∃ step, s.step form = .ok step ∧ step.nested? s.path = some f
  /-- There are fields inside it. -/
  container : f.subFields ≠ []
  /-- They are the fields on screen. -/
  shown : s.fields form = .ok f.subFields
  /-- On the level above, the fields on screen are those beside it. -/
  beside : Session.fields form { s with path := s.path.dropLast } = .ok (before ++ f :: after)

/-- Going on submits the form, or moves to a step of it. -/
def Leaves (form : Form) (s : Session) : Prop :=
  ((s.advance form).outcome = .ok .submit ∧
      (s.advance form).session = { s with path := [], completed := .bool true }) ∨
    ∃ v, form.Has v ∧ (s.advance form).outcome = .ok .moved ∧
      (s.advance form).session = s.moveTo v .next .null .null true

end Session

/-! ### Paths -/

/-- The field that a path leads to is found among those beside it. -/
theorem Step.nested?_concat (step : Step) (above : List Value) (v : Value) :
    step.nested? (above ++ [v]) =
      (Session.siblings step (above ++ [v])).find? (·.hasName v) := by
  rw [Session.siblings, List.dropLast_concat]
  cases above with
  | nil => rfl
  | cons name rest =>
    have hfold : step.nested? (name :: rest ++ [v]) =
        (step.nested? (name :: rest)).bind (·.subField? v) := by
      simp [nested?, List.foldl_append]
    rw [hfold]
    cases hnested : step.nested? (name :: rest) with
    | none => simp [hnested]
    | some f => simp [hnested, Field.subField?]

namespace Session

variable {form : Form} {s : Session} {step : Step} {before after : List Field} {f g : Field}

theorem apart_siblings (h : Field.Apart step.fields) (path : List Value) :
    Field.Apart (siblings step path) := by
  induction path using List.reverseRecOn with
  | nil => exact h
  | append_singleton above v ih =>
    rw [siblings, List.dropLast_concat]
    split
    · exact h
    · split
      · rename_i hne _ f hnested
        -- the fields above stand apart, and so do those inside one of them
        obtain ⟨rest, w, rfl⟩ : ∃ rest w, above = rest ++ [w] :=
          ⟨_, _, (List.dropLast_concat_getLast hne).symm⟩
        rw [Step.nested?_concat] at hnested
        exact ih.inside (List.mem_of_find?_eq_some hnested)
      · exact .nil

/-- Below a field stand the fields inside it. -/
theorem siblings_concat {path : List Value} (h : step.nested? path = some f) (v : Value) :
    siblings step (path ++ [v]) = f.subFields := by
  rw [siblings, List.dropLast_concat]
  cases path with
  | nil => cases h
  | cons name rest => simp [h]

/-- The fields on screen are those beside the field that may be entered next, if there are any. -/
theorem fieldsOn_eq_siblings {v : Value} (h : siblings step (s.path ++ [v]) ≠ []) :
    s.fieldsOn step = siblings step (s.path ++ [v]) := by
  cases hnested : step.nested? s.path with
  | some f =>
    rw [siblings_concat hnested] at h ⊢
    simp [fieldsOn, hnested, h]
  | none =>
    rw [siblings, List.dropLast_concat] at h ⊢
    cases hpath : s.path with
    | nil => simp [fieldsOn, hpath, Step.nested?]
    | cons name rest =>
      rw [hpath] at hnested
      simp [hpath, hnested] at h

/-! ### The walk in a row -/

theorem neighbour?_append {xs ys : List Value} {v : Value} (h : v ∉ xs) (forward : Bool) :
    neighbour? (xs ++ v :: ys) v forward = if forward then ys.head? else xs.getLast? := by
  have hplace : (xs ++ v :: ys).findIdx? (fun w => decide (w = v)) = some xs.length := by
    rw [List.findIdx?_eq_some_iff_getElem]
    refine ⟨by simp, by simp, ?_⟩
    intro j hj
    rw [List.getElem_append_left hj]
    have hne : xs[j] ≠ v := fun heq => h (heq ▸ List.getElem_mem hj)
    simpa using hne
  simp only [neighbour?, hplace]
  cases forward with
  | true => simp [List.getElem?_append_right, List.head?_eq_getElem?]
  | false =>
    rcases List.eq_nil_or_concat xs with rfl | ⟨zs, w, rfl⟩
    · rfl
    · simp [List.append_assoc]

/-- The path of a session leads to a field that can be entered, in its row. -/
structure LeadsInto (s : Session) (step : Step) (before : List Field) (f : Field)
    (after : List Field) : Prop where
  /-- The path ends with the id of the field. -/
  last : s.path.getLast? = some f.id
  /-- The row is the one of the path. -/
  row : siblings step s.path = before ++ f :: after
  /-- The field can be entered. -/
  container : f.subFields ≠ []

namespace LeadsInto

variable (h : s.LeadsInto step before f after)
include h

theorem path_eq : s.path.dropLast ++ [f.id] = s.path :=
  List.dropLast_append_getLast? _ h.last

theorem apart (hapart : Field.Apart step.fields) : Field.Apart (before ++ f :: after) :=
  h.row ▸ apart_siblings hapart s.path

theorem nested? (hapart : Field.Apart step.fields) : step.nested? s.path = some f := by
  rw [← h.path_eq, Step.nested?_concat, h.path_eq, h.row]
  exact (h.apart hapart).find?_append

theorem inside (hstep : s.step form = .ok step) (hapart : Field.Apart step.fields) :
    s.Inside form before f after where
  found := ⟨step, hstep, h.nested? hapart⟩
  container := h.container
  shown := by
    rw [fields_of_step hstep]
    simp [fieldsOn, h.nested? hapart, h.container]
  beside := by
    have hstep' : Session.step form { s with path := s.path.dropLast } = .ok step := hstep
    rw [fields_of_step hstep', fieldsOn_eq_siblings (v := f.id)]
    · rw [h.path_eq, h.row]
    · rw [h.path_eq, h.row]
      simp

/-- The path to another field of the row. -/
theorem beside {before' after' : List Field} (hrow : before ++ f :: after = before' ++ g :: after')
    (hg : g.subFields ≠ []) :
    LeadsInto { s with path := s.path.dropLast ++ [g.id] } step before' g after' where
  last := List.getLast?_concat
  row := by
    rw [siblings, List.dropLast_concat, ← siblings, h.row, hrow]
  container := hg

variable (hstep : s.step form = .ok step) (hapart : Field.Apart step.fields)
include hstep hapart

/-- The path is shifted to the next or the previous field that can be entered. -/
theorem shift_eq (forward : Bool) : s.shift form forward =
    match if forward then (Field.containers after).head? else (Field.containers before).getLast? with
    | some g => .ok ({ s with path := s.path.dropLast ++ [g.id] }, true)
    | none => .ok ({ s with path := [] }, false) := by
  have hrow : enterable (before ++ f :: after) =
      (Field.containers before).map Field.id ++ f.id :: (Field.containers after).map Field.id := by
    rw [enterable, ← Field.containers, Field.containers_append,
      Field.containers_cons h.container, List.map_append, List.map_cons]
  have hnot : f.id ∉ (Field.containers before).map Field.id := by
    intro hmem
    obtain ⟨g, hg, hid⟩ := List.mem_map.1 hmem
    exact (h.apart hapart).notMem_before
      (hid ▸ List.mem_map_of_mem (Field.mem_containers.1 hg).1)
  rw [shift_of_getLast? hstep h.last, h.row, hrow, neighbour?_append hnot]
  cases forward with
  | true => cases hnext : Field.containers after <;> simp
  | false => cases hprevious : (Field.containers before).getLast? <;> simp [hprevious]

theorem advance_eq (hnext : (Field.containers after).head? = some g) : s.advance form =
    { session := { s with path := s.path.dropLast ++ [g.id] }, outcome := .ok .moved } := by
  simp [Session.advance, h.shift_eq hstep hapart, hnext]

theorem retreat_eq (hprevious : (Field.containers before).getLast? = some g) : s.retreat form =
    { session := { s with path := s.path.dropLast ++ [g.id] }, outcome := .ok .moved } := by
  simp [Session.retreat, h.shift_eq hstep hapart, hprevious]

/-- Going on leads into the next field that can be entered, behind which the others stand. -/
theorem advance {rest : List Field} (hnext : Field.containers after = g :: rest) :
    (s.advance form).Shifts s ∧ (s.advance form).session.step form = .ok step ∧
      ∃ before' after', (s.advance form).session.LeadsInto step before' g after' ∧
        Field.containers after' = rest ∧ (Field.containers before').getLast? = some f := by
  have hg : g ∈ Field.containers after := by simp [hnext]
  obtain ⟨skipped, after', hafter, hskipped, hrest⟩ := Field.exists_of_containers_cons hnext
  rw [h.advance_eq (g := g) hstep hapart (by simp [hnext])]
  refine ⟨⟨rfl, rfl⟩, hstep, before ++ f :: skipped, after', ?_, hrest, ?_⟩
  · exact h.beside (by simp [hafter]) (Field.mem_containers.1 hg).2
  -- nothing that was skipped can be entered, so the field left is the last one before
  · rw [Field.containers_append, Field.containers_cons h.container, hskipped]
    simp

/-- Going back leads into the previous field that can be entered. -/
theorem retreat (hprevious : (Field.containers before).getLast? = some g) :
    (s.retreat form).Shifts s ∧ (s.retreat form).session.step form = .ok step ∧
      ∃ before' after', (s.retreat form).session.LeadsInto step before' g after' ∧
        (Field.containers after').head? = some f := by
  have hg : g ∈ Field.containers before := List.mem_of_getLast? hprevious
  obtain ⟨front, hfront⟩ := List.getLast?_eq_some_iff.1 hprevious
  obtain ⟨before', skipped, hbefore, hskipped⟩ := Field.exists_of_containers_concat hfront
  rw [h.retreat_eq hstep hapart hprevious]
  refine ⟨⟨rfl, rfl⟩, hstep, before', skipped ++ f :: after, ?_, ?_⟩
  · exact h.beside (by simp [hbefore]) (Field.mem_containers.1 hg).2
  · rw [Field.containers_append, Field.containers_cons h.container, hskipped]
    simp

/-- Going back takes a step of the walk back. -/
theorem retreat_advance (hnext : (Field.containers after).head? = some g) :
    (s.advance form).session.retreat form = { session := s, outcome := .ok .moved } := by
  obtain ⟨rest, hrest⟩ := List.head?_eq_some_iff.1 hnext
  obtain ⟨-, hstep', before', after', hinto, -, hlast⟩ := h.advance hstep hapart hrest
  rw [hinto.retreat_eq hstep' hapart hlast, h.advance_eq hstep hapart hnext,
    List.dropLast_concat, h.path_eq]

/-- Going on takes a step back of the walk back. -/
theorem advance_retreat (hprevious : (Field.containers before).getLast? = some g) :
    (s.retreat form).session.advance form = { session := s, outcome := .ok .moved } := by
  obtain ⟨-, hstep', before', after', hinto, hfirst⟩ := h.retreat hstep hapart hprevious
  rw [hinto.advance_eq hstep' hapart hfirst, h.retreat_eq hstep hapart hprevious,
    List.dropLast_concat, h.path_eq]

end LeadsInto

theorem Inside.leadsInto (h : s.Inside form before f after) (hstep : s.step form = .ok step)
    (hapart : Field.Apart step.fields) : s.LeadsInto step before f after := by
  obtain ⟨⟨step', hstep', hnested⟩, hcontainer, -, hbeside⟩ := h
  obtain rfl := Except.ok.inj (hstep.symm.trans hstep')
  rcases List.eq_nil_or_concat' s.path with hnil | ⟨above, v, hpath⟩
  · rw [hnil] at hnested
    cases hnested
  · rw [hpath, Step.nested?_concat] at hnested
    obtain ⟨rfl, left, right, hrow⟩ := (apart_siblings hapart _).exists_of_find? hnested
    have habove : Session.step form { s with path := above } = .ok step := hstep
    rw [hpath, List.dropLast_concat, fields_of_step habove,
      fieldsOn_eq_siblings (v := f.id) (by rw [hrow]; simp)] at hbeside
    refine ⟨by rw [hpath, List.getLast?_concat], ?_, hcontainer⟩
    rw [hpath]
    exact Except.ok.inj hbeside

/-! ### The ends of the walk -/

/-- What has logged a move is no shift. -/
theorem not_shifts_of_transitions {reply : Reply} {t : Transition}
    (h : reply.session.transitions = s.transitions ++ [t]) : ¬ reply.Shifts s := by
  rintro ⟨-, hpath⟩
  rw [hpath] at h
  simp at h

theorem leaves_of_shift (hstep : s.step form = .ok step)
    (h : s.shift form true = .ok ({ s with path := [] }, false)) : s.Leaves form := by
  have hstep' : Session.step form { s with path := [] } = .ok step := hstep
  have hadvance : s.advance form = Session.leave form { s with path := [] } step := by
    simp only [advance, h, hstep']
  rw [Leaves, hadvance]
  exact Comes.leave_cases hstep'

theorem Leaves.not_shifts (h : s.Leaves form) : ¬ (s.advance form).Shifts s := by
  rcases h with ⟨hsubmit, -⟩ | ⟨v, -, -, hmoved⟩
  · rintro ⟨hshifted, -⟩
    rw [hsubmit] at hshifted
    cases hshifted
  · exact not_shifts_of_transitions (by rw [hmoved]; rfl)

theorem Leaves.path_eq_nil (h : s.Leaves form) : (s.advance form).session.path = [] := by
  rcases h with ⟨-, hsession⟩ | ⟨v, -, -, hsession⟩
  · rw [hsession]
  · rw [hsession]
    rfl

/-- At the start of a row, going back leaves it. -/
theorem retreat_of_shift (h : s.shift form false = .ok ({ s with path := [] }, false)) :
    (s.retreat form).session.path = [] ∧ ¬ (s.retreat form).Shifts s := by
  simp only [retreat, h, retrace]
  split
  · exact ⟨rfl, fun hshifts => by cases hshifts.1⟩
  · exact ⟨rfl, fun hshifts => by cases hshifts.1⟩
  · split
    · exact ⟨rfl, not_shifts_of_transitions rfl⟩
    · exact ⟨rfl, not_shifts_of_transitions rfl⟩

/-- Going on several times passes through the fields of the row that can be entered. -/
theorem LeadsInto.advances (h : s.LeadsInto step before f after) (hstep : s.step form = .ok step)
    (hapart : Field.Apart step.fields) {k : Nat} (hk : k ≤ (Field.containers after).length) :
    (s.advances form k).step form = .ok step ∧ ∃ before' f' after',
      (s.advances form k).LeadsInto step before' f' after' ∧
        Field.containers after' = (Field.containers after).drop k := by
  -- what lies behind in the row after k steps is what lay behind at the start, without k containers
  induction k with
  | zero => exact ⟨hstep, before, f, after, h, rfl⟩
  | succ k ih =>
    obtain ⟨hstep', before', f', after', hinto, hrest⟩ := ih (by omega)
    rw [List.drop_eq_getElem_cons (by omega)] at hrest
    obtain ⟨-, hstep'', before'', after'', hinto', hrest', -⟩ := hinto.advance hstep' hapart hrest
    exact ⟨hstep'', before'', _, after'', hinto', hrest'⟩

/-! ### Where paths lead -/

/-- The path of a session leads into a field of its step, if anywhere. -/
def Walks (form : Form) (s : Session) : Prop :=
  s.path = [] ∨ ∃ step before f after, s.step form = .ok step ∧ s.LeadsInto step before f after

namespace Walks

variable (hw : s.Walks form)
include hw

theorem congr {s' : Session} (hpath : s'.path = s.path) (hcurrent : s'.current = s.current) :
    s'.Walks form := by
  rcases hw with hnil | ⟨step, before, f, after, hstep, hlast, hrow, hcontainer⟩
  · exact .inl (hpath.trans hnil)
  · refine .inr ⟨step, before, f, after, ?_, hpath ▸ hlast, hpath ▸ hrow, hcontainer⟩
    rw [Session.step, hcurrent]
    exact hstep

/-- The fields on screen are the row of a path that is one longer. -/
theorem fieldsOn_eq (hstep : s.step form = .ok step) (hapart : Field.Apart step.fields)
    (v : Value) : s.fieldsOn step = siblings step (s.path ++ [v]) := by
  rcases hw with hnil | ⟨step', before, f, after, hstep', hinto⟩
  · simp [fieldsOn, hnil, Step.nested?, siblings]
  · obtain rfl := Except.ok.inj (hstep.symm.trans hstep')
    refine fieldsOn_eq_siblings ?_
    rw [siblings_concat (hinto.nested? hapart)]
    exact hinto.container

/-- Going on or back leaves the nested fields, or there is a field to go to. -/
theorem shift_cases (hstep : s.step form = .ok step) (hapart : Field.Apart step.fields)
    (forward : Bool) : s.shift form forward = .ok ({ s with path := [] }, false) ∨
      ∃ before f after g, s.LeadsInto step before f after ∧
        (if forward then (Field.containers after).head?
          else (Field.containers before).getLast?) = some g := by
  rcases hw with hnil | ⟨step', before, f, after, hstep', hinto⟩
  · rw [shift_of_path_nil hnil, ← hnil]
    exact .inl rfl
  · obtain rfl := Except.ok.inj (hstep.symm.trans hstep')
    rw [hinto.shift_eq hstep hapart]
    split
    · rename_i g hg
      exact .inr ⟨before, f, after, g, hinto, hg⟩
    · exact .inl rfl

theorem enter (h : form.SiblingsApart) (v : Value) : (s.enter form v).session.Walks form := by
  cases hstep : s.step form with
  | error e =>
    simp only [Session.enter, fields, hstep]
    exact hw
  | ok step =>
    have hapart := h step (of_step hstep).1
    simp only [Session.enter, fields_of_step hstep]
    split
    · rename_i f hfind
      split
      · exact hw
      · rename_i hcontainer
        rw [hw.fieldsOn_eq hstep hapart v] at hfind
        obtain ⟨rfl, before, after, hrow⟩ := (apart_siblings hapart _).exists_of_find? hfind
        refine .inr ⟨step, before, f, after, hstep, List.getLast?_concat, hrow, ?_⟩
        simpa using hcontainer
    · exact hw

theorem advance (h : form.SiblingsApart) : (s.advance form).session.Walks form := by
  rcases hw with hnil | ⟨step, before, f, after, hstep, hinto⟩
  · exact .inl ((comes_apply form s .advance).path_eq_nil rfl hnil)
  · have hapart := h step (of_step hstep).1
    cases hnext : Field.containers after with
    | nil =>
      refine .inl (leaves_of_shift hstep ?_).path_eq_nil
      simp [hinto.shift_eq hstep hapart, hnext]
    | cons g rest =>
      obtain ⟨-, hstep', before', after', hinto', -⟩ := hinto.advance hstep hapart hnext
      exact .inr ⟨step, before', g, after', hstep', hinto'⟩

theorem retreat (h : form.SiblingsApart) : (s.retreat form).session.Walks form := by
  rcases hw with hnil | ⟨step, before, f, after, hstep, hinto⟩
  · exact .inl ((comes_apply form s .retreat).path_eq_nil rfl hnil)
  · have hapart := h step (of_step hstep).1
    cases hprevious : (Field.containers before).getLast? with
    | none =>
      refine .inl (retreat_of_shift ?_).1
      simp [hinto.shift_eq hstep hapart, hprevious]
    | some g =>
      obtain ⟨-, hstep', before', after', hinto', -⟩ := hinto.retreat hstep hapart hprevious
      exact .inr ⟨step, before', g, after', hstep', hinto'⟩

end Walks

/-- Only entering fields, going on and going back among them change a path that is not left. -/
theorem Comes.path_cases {r : Request} {o : Except Error (Option Outcome)} {s' : Session}
    (h : s.Comes form r o s') (henter : ∀ v, r ≠ .enter v) (hadvance : r ≠ .advance)
    (hretreat : r ≠ .retreat) : s'.path = [] ∨ s'.path = s.path ∧ s'.current = s.current := by
  cases h with
  | fails | stays => exact .inr ⟨rfl, rfl⟩
  | forth | submits | halts | back | restarts => exact .inl rfl
  | enters v => exact absurd rfl (henter v)
  | shifts _ hr => rcases hr with rfl | rfl <;> contradiction

/-- Every request leads from a path that leads into a field to another one, or leaves the fields. -/
theorem walks_apply (h : form.SiblingsApart) (hw : s.Walks form) (r : Request) :
    (r.apply form s).Walks form := by
  have hcomes := comes_apply form s r
  cases r with
  | enter v => exact hw.enter h v
  | advance => exact hw.advance h
  | retreat => exact hw.retreat h
  | select | set | jump | reset =>
    rcases hcomes.path_cases nofun nofun nofun with hnil | ⟨hpath, hcurrent⟩
    · exact .inl hnil
    · exact hw.congr hpath hcurrent

theorem walks_of_reached {allowed : Request → Bool} (h : form.SiblingsApart)
    (hs : form.Reached allowed s) : s.Walks form := by
  induction hs with
  | fresh hbegin =>
    obtain ⟨first, -, -, rfl⟩ := exists_of_begin hbegin
    exact .inl rfl
  | next _ _ ih => exact walks_apply h ih _

end Session

/-- **The walk through nested fields.** Where fields beside each other have different ids, the path
of every session that a respondent can come to is empty or leads to a field of the step with fields
inside it, and these are the fields on screen. Where going on only shows other fields, going back
takes it back, and the other way round. Going on passes through the fields behind in the row that
can be entered, one after the other, and then leaves the step. -/
theorem walks_siblings {form : Form} {allowed : Request → Bool} {s : Session}
    (h : form.SiblingsApart) (hs : form.Reached allowed s) :
    (s.path = [] ∨ ∃ before f after, s.Inside form before f after) ∧
      ((s.advance form).Shifts s →
        (s.advance form).session.retreat form = { session := s, outcome := .ok .moved }) ∧
      ((s.retreat form).Shifts s →
        (s.retreat form).session.advance form = { session := s, outcome := .ok .moved }) ∧
      ∀ before f after, s.Inside form before f after →
        (∀ k (hk : k < (Field.containers after).length),
          ((s.advances form k).advance form).Shifts (s.advances form k) ∧
            ∃ before' after', (s.advances form (k + 1)).Inside form before'
              (Field.containers after)[k] after') ∧
          (s.advances form (Field.containers after).length).Leaves form := by
  obtain ⟨step, hstep⟩ := Session.exists_step_of_has (Session.onForm_of_reached hs).current
  have hapart := h step (Session.of_step hstep).1
  have hw := Session.walks_of_reached h hs
  refine ⟨?_, ?_, ?_, ?_⟩
  · rcases hw with hnil | ⟨step', before, f, after, hstep', hinto⟩
    · exact .inl hnil
    · obtain rfl := Except.ok.inj (hstep.symm.trans hstep')
      exact .inr ⟨before, f, after, hinto.inside hstep hapart⟩
  · intro hshifts
    rcases hw.shift_cases hstep hapart true with hleft | ⟨before, f, after, g, hinto, hg⟩
    · exact absurd hshifts (Session.leaves_of_shift hstep hleft).not_shifts
    · exact hinto.retreat_advance hstep hapart hg
  · intro hshifts
    rcases hw.shift_cases hstep hapart false with hleft | ⟨before, f, after, g, hinto, hg⟩
    · exact absurd hshifts (Session.retreat_of_shift hleft).2
    · exact hinto.advance_retreat hstep hapart hg
  · intro before f after hinside
    have hinto := hinside.leadsInto hstep hapart
    constructor
    · intro k hk
      obtain ⟨hstep', before', f', after', hinto', hrest⟩ :=
        hinto.advances hstep hapart (Nat.le_of_lt hk)
      rw [List.drop_eq_getElem_cons hk] at hrest
      obtain ⟨hshifts, hstep'', before'', after'', hinto'', -⟩ :=
        hinto'.advance hstep' hapart hrest
      exact ⟨hshifts, before'', after'', hinto''.inside hstep'' hapart⟩
    · obtain ⟨hstep', before', f', after', hinto', hrest⟩ :=
        hinto.advances hstep hapart (Nat.le_refl _)
      rw [List.drop_length] at hrest
      refine Session.leaves_of_shift hstep' ?_
      simp [hinto'.shift_eq hstep' hapart, hrest]

/-- A field that only holds others. -/
def room (name : String) (inside : List Field) : Field :=
  .mk { id := name, kind := .text, label := name } inside

/-- A form with rooms in rooms. -/
def museum : Form where
  name := "Museum"
  steps := [
    { id := "step1", title := "Rooms"
      fields := [
        room "hall" [],
        room "east" [room "vases" [room "shards" []], room "guard" [], room "coins" [room "gold" []]],
        room "west" [room "maps" []]] },
    { id := "exit", title := "Exit", isLast := true }]

/-- A visitor among the vases. -/
def museumSession : Session := { current := "step1", path := ["east", "vases"] }

theorem walks_museum :
    museum.SiblingsApart ∧ museum.Reached (fun _ => true) museumSession ∧
      museumSession.Inside museum [] (room "vases" [room "shards" []])
        [room "guard" [], room "coins" [room "gold" []]] ∧
      (museumSession.advance museum).session.path = ["east", "coins"] ∧
      (museumSession.advance museum).session.retreat museum =
        { session := museumSession, outcome := .ok .moved } ∧
      (museumSession.advances museum 1).Leaves museum := by
  have hapart : museum.SiblingsApart := by
    intro step hstep
    simp only [museum, List.mem_cons, List.not_mem_nil, or_false] at hstep
    rcases hstep with rfl | rfl
    · refine ⟨?_, by decide, by decide⟩
      simp [Field.deepAll, Field.deep, room, Field.id, Field.question]
    · exact .nil
  have hfresh : museum.Reached (fun _ => true) { current := "step1" } := .fresh rfl
  have hreached : museum.Reached (fun _ => true) museumSession :=
    hfresh.run fun r (_ : r ∈ [Request.enter "east", .enter "vases"]) => rfl
  have hinside : museumSession.Inside museum [] (room "vases" [room "shards" []])
      [room "guard" [], room "coins" [room "gold" []]] :=
    ⟨⟨_, rfl, rfl⟩, by decide, rfl, rfl⟩
  obtain ⟨-, hback, -, hwalk⟩ := walks_siblings hapart hreached
  obtain ⟨hshifts, hleaves⟩ := hwalk _ _ _ hinside
  exact ⟨hapart, hreached, hinside, rfl, hback (hshifts 0 (by decide)).1, hleaves⟩

end BranchForm
