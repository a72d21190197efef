import BranchForm.Proofs.Compiled
import BranchForm.Proofs.Requests
import BranchForm.Proofs.Trees
import Mathlib

/-!
# Going down a compiled form

A respondent who picks, on each step, the choice of a child goes down the author's tree: the steps
shown are those of the nodes on the way, and a leaf leads to the terminal step.

* `Session.pick` picks the choice of a node on the current step, `Session.descend` those of the
  nodes on a way down, one after the other;
* `Step.StandsFor` says which step belongs to a node; `paired_choices` : the steps put out are those
  of the nodes with children;
* `OptionTree.FirstAmong` holds of a tree that no earlier sibling shares the slug with;
  `exists_choice_of_first` : its slug finds its own choice, and `exists_first_of_choice` : a slug
  finds no other choice;
* `Session.Above` relates a session to the children of a node on the way; `Session.Above.pick_first`
  is the step of the simulation, which `Session.Above.pick` puts in terms of trees whose siblings
  can be told apart, `Session.Above.descend` the run;
* `descend_of_compile` : a fresh session follows every way down the tree.
-/

namespace BranchForm

/-! ### Picking and what is shown -/

namespace Session

/-- Picks, in the field of the current step, the choice with the slug of a node's label. -/
def pick (form : Form) (s : Session) (t : OptionTree) : Reply :=
  match s.step form, labelSlug t.label with
  | .ok step, .ok value => match step.fields with
    | f :: _ => s.select form f.id value
    | [] => { session := s, outcome := .ok .stayed }
  | .error e, _ => { session := s, outcome := .error e }
  | .ok _, .error e => { session := s, outcome := .error e }

/-- The replies to picking the choices of several nodes one after the other. -/
def descend (form : Form) (s : Session) : List OptionTree → List Reply
  | [] => []
  | t :: ts => s.pick form t :: (s.pick form t).session.descend form ts

end Session

/-- A choice offers a node. -/
structure Choice.Offers (c : Choice) (t : OptionTree) : Prop where
  /-- The choice has the node's id. -/
  id : c.id = t.id
  /-- The label is shown. -/
  label : c.label = t.label
  /-- The answer is the slug of the label. -/
  value : labelSlug t.label = .ok c.value
  /-- The image is shown if there is one. -/
  image : c.image = t.data.image.orElse (.text "")

/-- The step shown to a respondent who has come to a node: the terminal step for a leaf, else the
branch step of the node, which offers its children in order. -/
def Step.StandsFor (settings : CompileSettings) (step : Step) (t : OptionTree) : Prop :=
  (t.children = [] → step = finalStep settings) ∧
  (t.children ≠ [] → ∃ number title label choices,
    step = branchStep number t.data title label choices ∧
    fillLabel settings.branchTitle t.label = .ok title ∧
    fillLabel settings.branchFieldLabel t.label = .ok label ∧
    List.Forall₂ Choice.Offers choices t.children)

/-- The step of a node with children asks one question, under the name that the node gives it. -/
theorem Step.StandsFor.fieldIds_eq {settings : CompileSettings} {step : Step} {t : OptionTree}
    (h : step.StandsFor settings t) (hne : t.children ≠ []) :
    step.fields.map Field.id = [.text (branchFieldId t.id)] := by
  obtain ⟨number, title, label, choices, rfl, -⟩ := h.2 hne
  rfl

/-! ### The choice of a node -/

theorem text_of_labelSlug {label value : Value} (h : labelSlug label = .ok value) :
    ∃ slug, value = .text slug := by
  obtain ⟨s, -, hs⟩ := labelSlug_inv h
  exact ⟨Text.slug s, hs⟩

theorem offers_of_compileChoices {settings : CompileSettings} {n : Nat} {ts : List OptionTree}
    {out : Compiled (List Choice)} (h : compileChoices settings n ts = .ok out) :
    List.Forall₂ Choice.Offers out.result ts := by
  induction ts generalizing n out with
  | nil =>
    cases h
    exact .nil
  | cons t ts ih =>
    obtain ⟨value, branch, others, hvalue, -, hothers, rfl⟩ := compileChoices_inv h
    exact .cons ⟨rfl, rfl, hvalue, rfl⟩ (ih hothers)

theorem values_of_offers {cs : List Choice} {ts : List OptionTree}
    (h : List.Forall₂ Choice.Offers cs ts) : ∀ c ∈ cs, ∃ v, c.value = .text v := by
  induction h with
  | nil => exact nofun
  | cons hoffers _ ih => exact List.forall_mem_cons.2 ⟨text_of_labelSlug hoffers.value, ih⟩

/-- A tree stands among others, and none before it has a label of its slug. -/
def OptionTree.FirstAmong (ts : List OptionTree) (t : OptionTree) : Prop :=
  ∃ before after, ts = before ++ t :: after ∧ ∀ u ∈ before, labelSlug u.label ≠ labelSlug t.label

theorem OptionTree.FirstAmong.mem {ts : List OptionTree} {t : OptionTree}
    (h : OptionTree.FirstAmong ts t) : t ∈ ts := by
  obtain ⟨before, after, rfl, -⟩ := h
  exact List.mem_append_right _ List.mem_cons_self

/-- The slug of the first tree that has it finds the choice of this tree. -/
theorem exists_choice_of_first {settings : CompileSettings} {n : Nat} {ts : List OptionTree}
    {out : Compiled (List Choice)} (h : compileChoices settings n ts = .ok out) {t : OptionTree}
    (ht : OptionTree.FirstAmong ts t) :
    ∃ slug m branch, labelSlug t.label = .ok (.text slug) ∧
      compileBranch settings m t = .ok branch ∧ branch.steps ⊆ out.steps ∧
      out.result.find? (fun c => c.value.agrees (.text slug)) =
        some (childChoice t.data (.text slug) branch.result) := by
  obtain ⟨before, after, rfl, hbefore⟩ := ht
  induction before generalizing n out with
  | nil =>
    obtain ⟨value, branch, others, hvalue, hbranch, hothers, rfl⟩ := compileChoices_inv h
    obtain ⟨slug, rfl⟩ := text_of_labelSlug hvalue
    refine ⟨slug, n, branch, hvalue, hbranch, List.subset_append_left _ _, ?_⟩
    simp [childChoice, Value.agrees]
  | cons u before ih =>
    obtain ⟨value, branch, others, hvalue, hbranch, hothers, rfl⟩ := compileChoices_inv h
    obtain ⟨slug, rfl⟩ := text_of_labelSlug hvalue
    obtain ⟨hfirst, hbefore⟩ := List.forall_mem_cons.1 hbefore
    obtain ⟨slug', m, branch', hvalue', hbranch', hsub, hfind⟩ := ih hbefore hothers
    refine ⟨slug', m, branch', hvalue', hbranch',
      List.subset_append_of_subset_right _ hsub, ?_⟩
    -- the choice in front stores the slug of another sibling
    have hne : slug ≠ slug' := by
      rintro rfl
      exact hfirst (hvalue.trans hvalue'.symm)
    have hskip : (childChoice u.data (.text slug) branch.result).value.agrees (.text slug') =
        false := by
      simpa [childChoice, Value.agrees] using hne.symm
    rw [List.find?_cons, hskip]
    exact hfind

/-- An answer finds the choice of the first tree that has it as its slug. -/
theorem exists_first_of_choice {settings : CompileSettings} {n : Nat} {ts : List OptionTree}
    {out : Compiled (List Choice)} (h : compileChoices settings n ts = .ok out) {value : Value}
    {c : Choice} (hc : out.result.find? (fun c => c.value.agrees value) = some c) :
    ∃ t m branch, OptionTree.FirstAmong ts t ∧ labelSlug t.label = .ok value ∧
      compileBranch settings m t = .ok branch ∧ branch.steps ⊆ out.steps ∧
      c = childChoice t.data value branch.result := by
  induction ts generalizing n out with
  | nil =>
    cases h
    cases hc
  | cons u ts ih =>
    obtain ⟨slug, branch, others, hslug, hbranch, hothers, rfl⟩ := compileChoices_inv h
    obtain ⟨name, rfl⟩ := text_of_labelSlug hslug
    rw [List.find?_cons] at hc
    by_cases hagrees : (Value.text name).agrees value = true
    · have hvalue : value = .text name := Value.text_agrees_iff.1 hagrees
      have hfirst : childChoice u.data (.text name) branch.result = c := by
        simpa [childChoice, hagrees] using hc
      exact ⟨u, n, branch, ⟨[], ts, rfl, nofun⟩, hvalue ▸ hslug, hbranch,
        List.subset_append_left _ _, by rw [← hfirst, hvalue]⟩
    · have hrest : others.result.find? (fun c => c.value.agrees value) = some c := by
        simpa [childChoice, hagrees] using hc
      obtain ⟨t, m, branch', ⟨before, after, rfl, hbefore⟩, ht, hbranch', hsub, hchild⟩ :=
        ih hothers hrest
      refine ⟨t, m, branch', ⟨u :: before, after, rfl, ?_⟩, ht, hbranch',
        List.subset_append_of_subset_right _ hsub, hchild⟩
      refine List.forall_mem_cons.2 ⟨fun heq => hagrees ?_, hbefore⟩
      rw [hslug, ht] at heq
      exact Value.text_agrees_iff.2 (Except.ok.inj heq).symm

/-- A branch puts out the step it leads to, unless it leads to the end. -/
theorem compileBranch_cases {settings : CompileSettings} {n : Nat} {t : OptionTree}
    {out : Compiled String} (h : compileBranch settings n t = .ok out) :
    (t.children = [] ∧ out.result = finalStepId) ∨
    ∃ title label inner, t.children ≠ [] ∧ fillLabel settings.branchTitle t.label = .ok title ∧
      fillLabel settings.branchFieldLabel t.label = .ok label ∧
      compileChoices settings (n + 1) t.children = .ok inner ∧ inner.steps ⊆ out.steps ∧
      branchStep n t.data title label inner.result ∈ out.steps ∧
      out.result = branchStepId n t.id := by
  obtain ⟨d, cs⟩ := t
  cases cs with
  | nil =>
    cases h
    exact .inl ⟨rfl, rfl⟩
  | cons c cs =>
    obtain ⟨title, label, inner, htitle, hlabel, -, hinner, rfl⟩ := compileBranch_inv h
    exact .inr ⟨title, label, inner, List.cons_ne_nil c cs, htitle, hlabel, hinner,
      List.subset_append_left _ _, List.mem_append_right _ (List.mem_singleton_self _), rfl⟩

/-! ### The steps of the nodes -/

/-- Steps and nodes go in pairs, each step with the node that it stands for. -/
def Paired (settings : CompileSettings) (steps : List Step) (ts : List OptionTree) : Prop :=
  ∃ pairs : List (Step × OptionTree), pairs.map Prod.fst = steps ∧
    (pairs.map Prod.snd).Perm ts ∧ ∀ p ∈ pairs, p.1.StandsFor settings p.2

namespace Paired

variable {settings : CompileSettings} {steps more : List Step} {ts us : List OptionTree}

theorem append (h : Paired settings steps ts) (h' : Paired settings more us) :
    Paired settings (steps ++ more) (ts ++ us) := by
  obtain ⟨pairs, rfl, hnodes, hstands⟩ := h
  obtain ⟨pairs', rfl, hnodes', hstands'⟩ := h'
  refine ⟨pairs ++ pairs', List.map_append, ?_, List.forall_mem_append.2 ⟨hstands, hstands'⟩⟩
  rw [List.map_append]
  exact hnodes.append hnodes'

theorem singleton {step : Step} {t : OptionTree} (h : step.StandsFor settings t) :
    Paired settings [step] [t] :=
  ⟨[(step, t)], rfl, .refl _, List.forall_mem_singleton.2 h⟩

theorem perm (h : Paired settings steps ts) (hperm : ts.Perm us) : Paired settings steps us := by
  obtain ⟨pairs, hsteps, hnodes, hstands⟩ := h
  exact ⟨pairs, hsteps, hnodes.trans hperm, hstands⟩

theorem exists_node (h : Paired settings steps ts) {step : Step} (hstep : step ∈ steps) :
    ∃ t ∈ ts, step.StandsFor settings t := by
  obtain ⟨pairs, rfl, hnodes, hstands⟩ := h
  obtain ⟨p, hp, rfl⟩ := List.mem_map.1 hstep
  exact ⟨p.2, hnodes.mem_iff.1 (List.mem_map_of_mem hp), hstands p hp⟩

theorem exists_step (h : Paired settings steps ts) {t : OptionTree} (ht : t ∈ ts) :
    ∃ step ∈ steps, step.StandsFor settings t := by
  obtain ⟨pairs, rfl, hnodes, hstands⟩ := h
  obtain ⟨p, hp, rfl⟩ := List.mem_map.1 (hnodes.mem_iff.2 ht)
  exact ⟨p.1, List.mem_map_of_mem hp, hstands p hp⟩

end Paired

open OptionTree (branching branching_append branching_node) in
mutual

theorem paired_branch {settings : CompileSettings} {n : Nat} {t : OptionTree}
    {out : Compiled String} (h : compileBranch settings n t = .ok out) :
    Paired settings out.steps (branching [t]) := by
  match t with
  | .node d [] =>
    cases h
    exact ⟨[], rfl, .nil, nofun⟩
  | .node d (c :: cs) =>
    obtain ⟨title, label, inner, htitle, hlabel, -, hinner, rfl⟩ := compileBranch_inv h
    have hstands : (branchStep n d title label inner.result).StandsFor settings
        (.node d (c :: cs)) :=
      ⟨nofun, fun _ => ⟨n, title, label, _, rfl, htitle, hlabel, offers_of_compileChoices hinner⟩⟩
    rw [branching_node]
    -- the step of a node stands behind those of its descendants, the node before them
    exact ((paired_choices hinner).append (.singleton hstands)).perm
      (List.perm_append_singleton _ _)

/-- The steps put out for some nodes are those of the nodes with children, each of them once. -/
theorem paired_choices {settings : CompileSettings} {n : Nat} {ts : List OptionTree}
    {out : Compiled (List Choice)} (h : compileChoices settings n ts = .ok out) :
    Paired settings out.steps (branching ts) := by
  match ts with
  | [] =>
    cases h
    exact ⟨[], rfl, .nil, nofun⟩
  | t :: ts =>
    obtain ⟨value, branch, others, -, hbranch, hothers, rfl⟩ := compileChoices_inv h
    have hsplit : branching (t :: ts) = branching [t] ++ branching ts := branching_append [t] ts
    rw [hsplit]
    exact (paired_branch hbranch).append (paired_choices hothers)

end

theorem branchFieldId_inj {i j : String} (h : branchFieldId (.text i) = branchFieldId (.text j)) :
    i = j := by
  have hl := congrArg String.toList h
  simp only [branchFieldId, Value.display, String.toList_append] at hl
  exact String.toList_inj.1 (List.append_cancel_right hl)

/-! ### Following a choice -/

namespace Session

variable {form : Form} {s : Session}

theorem findField_of_fields {step : Step} {q : Question} {fieldId : String}
    (hfields : step.fields = [.mk q []]) (hid : q.id = .text fieldId) :
    findField step q.id = some (.mk q []) := by
  rw [findField, hfields, List.reverse_singleton, searchFields]
  simp [Field.hasName, Field.id, Field.question, hid, Value.agrees]

/-- Picking a choice that was not on, on a step with one field and no conditions. -/
theorem select_of_choice? {step : Step} {q : Question} {fieldId : String} {value target : Value}
    {c : Choice} (hstep : s.step form = .ok step) (hfields : step.fields = [.mk q []])
    (hconditions : step.conditions = []) (hid : q.id = .text fieldId)
    (hfresh : q.kind.isMultiple = true → ∀ vs, s.answer q.id ≠ .list vs)
    (hchoice : q.choices.find? (fun c => c.value.agrees value) = some c)
    (hnamed : c.target ≠ .null) (htarget : form.resolve s.current c.target = .ok target) :
    s.select form q.id value =
      { session := (s.withAnswer q.id (if q.kind.isMultiple then .list [value] else value)).moveTo
          target .select q.id value true
        outcome := .ok .moved } := by
  have hbranch : ∀ stored, form.branchTarget (s.withAnswer q.id stored) step q.id (some c) =
      .ok (some target) := by
    intro stored
    simp [Form.branchTarget, Form.firedCondition?, hconditions, hnamed, withAnswer, htarget,
      Except.map]
  have hfield := findField_of_fields hfields hid
  have hpicked : (Field.mk q []).choice? value = some c := hchoice
  cases hkind : q.kind.isMultiple with
  | false =>
    rw [select_of_single hstep hfield hkind, hpicked, hbranch]
    rfl
  | true =>
    have hswitch : switch (s.answer q.id) value = ([value], true) := by
      cases hanswer : s.answer q.id with
      | list vs => exact absurd hanswer (hfresh hkind vs)
      | _ => simp [switch, Value.within]
    rw [select_of_multiple hstep hfield hkind hswitch, if_pos rfl, hpicked, hbranch]
    rfl

end Session

/-! ### Trees that can be told apart -/

/-- Trees whose nodes have distinct texts as ids. -/
structure OptionTree.Identified (ts : List OptionTree) : Prop where
  /-- The ids are texts. -/
  texts : ∀ u ∈ preorderAll ts, ∃ i, u.id = .text i
  /-- The ids are distinct. -/
  ids : ((preorderAll ts).map OptionTree.id).Nodup

namespace OptionTree.Identified

variable {ts : List OptionTree} {t : OptionTree}

theorem nodup_preorder (h : Identified ts) (ht : t ∈ ts) :
    ((preorder t).map OptionTree.id).Nodup := by
  obtain ⟨before, after, rfl⟩ := List.append_of_mem ht
  have hids := h.ids
  rw [preorderAll_append, preorderAll, List.map_append, List.map_append] at hids
  exact hids.of_append_right.of_append_left

/-- No node below a node has its id. -/
theorem id_ne (h : Identified ts) (ht : t ∈ ts) {u : OptionTree} (hu : u ∈ preorderAll t.children) :
    u.id ≠ t.id := by
  have hids := h.nodup_preorder ht
  rw [preorder_eq_cons, List.map_cons, List.nodup_cons] at hids
  intro heq
  apply hids.1
  rw [← heq]
  exact List.mem_map_of_mem hu

/-- The names of questions tell the ids of the nodes. -/
theorem eq_of_branchFieldId (h : Identified ts) {u v : OptionTree} (hu : u ∈ preorderAll ts)
    (hv : v ∈ preorderAll ts) (heq : branchFieldId u.id = branchFieldId v.id) : u.id = v.id := by
  obtain ⟨i, hi⟩ := h.texts u hu
  obtain ⟨j, hj⟩ := h.texts v hv
  rw [hi, hj] at heq ⊢
  exact congrArg Value.text (branchFieldId_inj heq)

theorem children (h : Identified ts) (ht : t ∈ ts) : Identified t.children where
  texts := fun u hu => h.texts u (mem_preorderAll_of_child ht hu)
  ids := by
    have hids := h.nodup_preorder ht
    rw [preorder_eq_cons, List.map_cons, List.nodup_cons] at hids
    exact hids.2

end OptionTree.Identified

/-- Trees whose nodes have distinct texts as ids, and in which no two siblings have labels of one
slug. -/
structure OptionTree.Apart (ts : List OptionTree) : Prop extends OptionTree.Identified ts where
  /-- The slugs at the top are distinct. -/
  slugs : (ts.map fun t => labelSlug t.label).Nodup
  /-- The slugs of siblings below are distinct. -/
  below : ∀ u ∈ preorderAll ts, (u.children.map fun c => labelSlug c.label).Nodup

namespace OptionTree.Apart

variable {ts : List OptionTree} {t : OptionTree}

theorem firstAmong (h : Apart ts) (ht : t ∈ ts) : FirstAmong ts t := by
  obtain ⟨before, after, rfl⟩ := List.append_of_mem ht
  refine ⟨before, after, rfl, fun u hu => ?_⟩
  have hslugs := h.slugs
  rw [List.map_append, List.nodup_append] at hslugs
  exact hslugs.2.2 _ (List.mem_map_of_mem hu) _ (List.mem_map_of_mem List.mem_cons_self)

theorem children (h : Apart ts) (ht : t ∈ ts) : Apart t.children where
  toIdentified := h.toIdentified.children ht
  slugs := h.below t (mem_preorderAll_of_mem ht)
  below := fun u hu => h.below u (mem_preorderAll_of_child ht hu)

end OptionTree.Apart

/-! ### The simulation -/

namespace Session

open OptionTree (preorderAll mem_preorderAll_of_mem mem_preorderAll_of_child)

/-- The session shows a step whose choices are the trees given. -/
structure Shows (settings : CompileSettings) (form : Form) (s : Session) (ts : List OptionTree)
    (step : Step) (q : Question) : Prop where
  /-- The step shown. -/
  shown : s.step form = .ok step
  /-- It has one field. -/
  fields : step.fields = [.mk q []]
  /-- It branches by its choices only. -/
  conditions : step.conditions = []
  /-- The field is named by a text. -/
  named : ∃ fieldId, q.id = .text fieldId
  /-- The choices are compiled from the trees, with all their steps in the form. -/
  compiled : ∃ n inner, compileChoices settings n ts = .ok inner ∧ q.choices = inner.result ∧
    inner.steps ⊆ form.steps

/-- Where a choice leads, a session shows the step of its node. -/
theorem shows_of_branch {form : Form} {s : Session} {settings : CompileSettings} {root : Node}
    {choices : List Choice} {branches : List Step} {t : OptionTree} {n : Nat}
    {branch : Compiled String} (harranged : form.Arranged settings root choices branches)
    (hbranch : compileBranch settings n t = .ok branch) (hsub : branch.steps ⊆ form.steps)
    (hcurrent : s.current = .text branch.result) :
    ∃ step, s.step form = .ok step ∧ step.StandsFor settings t ∧
      (t.children ≠ [] → ∃ q, s.Shows settings form t.children step q ∧
        q.id = .text (branchFieldId t.id)) := by
  have hd := harranged.nodup_stepIds
  rcases compileBranch_cases hbranch with ⟨hleaf, hresult⟩ |
    ⟨title, label, inner, hne, htitle, hlabel, hinner, hisub, hmem, hresult⟩
  · have hshown : s.step form = .ok (finalStep settings) := by
      apply step_of_stepOf?
      rw [hcurrent, hresult]
      exact Form.step?_of_mem hd harranged.mem_final
    exact ⟨_, hshown, ⟨fun _ => rfl, fun hne => absurd hleaf hne⟩, fun hne => absurd hleaf hne⟩
  · have hshown : s.step form = .ok (branchStep n t.data title label inner.result) := by
      apply step_of_stepOf?
      rw [hcurrent, hresult]
      exact Form.step?_of_mem hd (hsub hmem)
    refine ⟨_, hshown, ⟨fun hleaf => absurd hleaf hne, fun _ => ?_⟩, fun _ => ?_⟩
    · exact ⟨n, title, label, _, rfl, htitle, hlabel, offers_of_compileChoices hinner⟩
    · refine ⟨(branchField t.data label inner.result).question, ?_, rfl⟩
      exact ⟨hshown, rfl, rfl, ⟨_, rfl⟩, _, inner, hinner, rfl, List.Subset.trans hisub hsub⟩

/-- The session shows a step whose choices are the trees given, and nothing stored so far stands in
the way of a choice there or below. -/
structure Above (settings : CompileSettings) (form : Form) (s : Session) (ts : List OptionTree)
    (step : Step) (q : Question) : Prop extends Session.Shows settings form s ts step q where
  /-- No list is stored for the field if it takes several choices. -/
  fresh : q.kind.isMultiple = true → ∀ vs, s.answer q.id ≠ .list vs
  /-- A field that takes several choices is none of those below. -/
  apart : q.kind.isMultiple = true → ∀ u ∈ preorderAll ts, q.id ≠ .text (branchFieldId u.id)
  /-- No list is stored for a field below. -/
  below : ∀ u ∈ preorderAll ts, ∀ vs, s.answer (.text (branchFieldId u.id)) ≠ .list vs

namespace Above

variable {form : Form} {s : Session} {settings : CompileSettings} {root : Node}
  {choices : List Choice} {branches : List Step} {ts : List OptionTree} {t : OptionTree}
  {step : Step} {q : Question}

/-- The answer of a pick is no list for a field below. -/
theorem answer_ne_list (h : s.Above settings form ts step q) {stored : Value}
    (hstored : q.kind.isMultiple = false → ∃ slug, stored = .text slug) {u : OptionTree}
    (hu : u ∈ preorderAll ts) (vs : List Value) :
    (s.withAnswer q.id stored).answer (.text (branchFieldId u.id)) ≠ .list vs := by
  obtain ⟨fieldId, hid⟩ := h.named
  have hbelow := h.below u hu vs
  simp only [answer, withAnswer] at hbelow ⊢
  by_cases heq : branchFieldId u.id = fieldId
  · -- the field is that of the step itself, so it takes one choice and stores no list
    have hone : q.kind.isMultiple = false := by
      rw [Bool.eq_false_iff]
      intro hmultiple
      exact h.apart hmultiple u hu (hid.trans (congrArg Value.text heq.symm))
    obtain ⟨slug, rfl⟩ := hstored hone
    rw [heq, hid, Members.getOrNull_put_self]
    nofun
  · rw [hid, Members.getOrNull_put_of_ne _ _ heq]
    exact hbelow

/-- Picking the first choice of its slug moves to the step of its node. -/
theorem pick_first (harranged : form.Arranged settings root choices branches)
    (h : s.Above settings form ts step q) (hids : OptionTree.Identified ts)
    (hfirst : OptionTree.FirstAmong ts t) :
    (s.pick form t).outcome = .ok .moved ∧
    ∃ step', (s.pick form t).session.step form = .ok step' ∧ step'.StandsFor settings t ∧
      (t.children ≠ [] → ∃ q', (s.pick form t).session.Above settings form t.children step' q') := by
  have ht : t ∈ ts := hfirst.mem
  obtain ⟨fieldId, hid⟩ := h.named
  obtain ⟨n, out, hout, hchoices, hsub⟩ := h.compiled
  obtain ⟨slug, m, branch, hslug, hbranch, hbsub, hfind⟩ := exists_choice_of_first hout hfirst
  rw [← hchoices] at hfind
  have hpick : s.pick form t = s.select form q.id (.text slug) := by
    simp only [Session.pick, h.shown, hslug, h.fields]
    rfl
  -- a list is stored only if the field takes several choices
  let stored : Value := if q.kind.isMultiple then .list [.text slug] else .text slug
  have hstored : q.kind.isMultiple = false → ∃ slug, stored = .text slug :=
    fun hone => ⟨slug, by simp [stored, hone]⟩
  let next : Session :=
    (s.withAnswer q.id stored).moveTo (.text branch.result) .select q.id (.text slug) true
  obtain ⟨step', hshown, hstands, hbelow⟩ :=
    shows_of_branch harranged hbranch (List.Subset.trans hbsub hsub)
      (show next.current = .text branch.result from rfl)
  have htarget : form.resolve s.current (.text branch.result) = .ok (.text branch.result) :=
    harranged.resolve_of_has (has_of_step hshown) _
  have hreply : s.pick form t = { session := next, outcome := .ok .moved } := by
    rw [hpick]
    exact select_of_choice? h.shown h.fields h.conditions hid h.fresh hfind nofun
      (by rw [target_childChoice, htarget])
  rw [hreply]
  refine ⟨rfl, step', hshown, hstands, fun hne => ?_⟩
  obtain ⟨q', hshows, hid'⟩ := hbelow hne
  have hanswer : ∀ u ∈ preorderAll ts, ∀ vs,
      next.answer (.text (branchFieldId u.id)) ≠ .list vs :=
    fun u hu vs => h.answer_ne_list hstored hu vs
  refine ⟨q', hshows, fun _ => ?_, fun _ u hu heq => ?_,
    fun u hu => hanswer u (mem_preorderAll_of_child ht hu)⟩
  · rw [hid']
    exact hanswer t (mem_preorderAll_of_mem ht)
  · -- the ids of the step's node and of the nodes below name different fields
    rw [hid'] at heq
    exact hids.id_ne ht hu (hids.eq_of_branchFieldId (mem_preorderAll_of_mem ht)
      (mem_preorderAll_of_child ht hu) (Value.text.inj heq)).symm

/-- Where siblings can be told apart, picking any choice moves to the step of its node. -/
theorem pick (harranged : form.Arranged settings root choices branches)
    (h : s.Above settings form ts step q) (happart : OptionTree.Apart ts) (ht : t ∈ ts) :
    (s.pick form t).outcome = .ok .moved ∧
    ∃ step', (s.pick form t).session.step form = .ok step' ∧ step'.StandsFor settings t ∧
      (t.children ≠ [] → ∃ q', (s.pick form t).session.Above settings form t.children step' q') :=
  h.pick_first harranged happart.toIdentified (happart.firstAmong ht)

/-- Every way down from the trees offered is followed to its end. -/
theorem descend (harranged : form.Arranged settings root choices branches) {ns : List OptionTree}
    (hpath : ns.IsChain fun parent child => child ∈ parent.children)
    (h : s.Above settings form ts step q) (happart : OptionTree.Apart ts)
    (hfirst : ∀ n ∈ ns.head?, n ∈ ts) :
    List.Forall₂ (fun n (reply : Reply) => reply.outcome = .ok .moved ∧
      ∃ step', reply.session.step form = .ok step' ∧ step'.StandsFor settings n)
      ns (s.descend form ns) := by
  induction ns generalizing s ts step q with
  | nil => exact .nil
  | cons n ns ih =>
    have hn : n ∈ ts := hfirst n rfl
    obtain ⟨hmoved, step', hshown, hstands, habove⟩ := h.pick harranged happart hn
    refine .cons ⟨hmoved, step', hshown, hstands⟩ ?_
    cases ns with
    | nil => exact .nil
    | cons n' ns =>
      -- a node with a node below it on the way has children, so its step offers them
      rw [List.isChain_cons_cons] at hpath
      obtain ⟨q', habove⟩ := habove (List.ne_nil_of_mem hpath.1)
      exact ih hpath.2 habove (happart.children hn) (by simpa using hpath.1)

/-- A fresh session shows the entry step and offers the children of the root. -/
theorem of_begin (harranged : form.Arranged settings root choices branches) {entryFieldId : String}
    (hid : settings.entryFieldId = .text entryFieldId) {n : Nat} {inner : Compiled (List Choice)}
    (hinner : compileChoices settings n ts = .ok inner) (hchoices : inner.result = choices)
    (hbranches : inner.steps = branches) :
    ∃ s step q, form.begin none = .ok s ∧ s.current = .text entryStepId ∧
      s.Above settings form ts step q := by
  have hentry := harranged.entry?_eq
  let q : Question :=
    { id := settings.entryFieldId, kind := .imageSelect, label := settings.entryFieldLabel, choices }
  refine ⟨{ current := .text entryStepId }, entryStep settings root choices, q, ?_, rfl, ?_⟩
  · simp [Form.begin, Form.firstStep?, hentry, entryStep]
  · have hone : q.kind.isMultiple ≠ true := Bool.false_ne_true
    refine ⟨⟨step_of_stepOf? hentry, rfl, rfl, ⟨_, hid⟩, n, inner, hinner, hchoices.symm, ?_⟩,
      fun h => absurd h hone, fun h => absurd h hone, ?_⟩
    · intro step hstep
      exact harranged.mem_branch (hbranches ▸ hstep)
    · intro u hu vs hanswer
      cases hanswer

end Above

end Session

/-- **The compiled form follows the tree.** From a fresh session, picking the choices of the nodes
on any way down from the root moves every time and shows the steps of those nodes. -/
theorem descend_of_compile {t : OptionTree} {form : Form}
    (hids : ∀ i ∈ t.idsBelow, ∃ s, i = .text s) (hdistinct : t.idsBelow.Nodup)
    (hslugs : ∀ u ∈ t.preorder, (u.children.map fun c => labelSlug c.label).Nodup)
    (h : compile {} (some t) = .ok form) {n : OptionTree} {ns : List OptionTree}
    (hpath : (t :: n :: ns).IsChain fun parent child => child ∈ parent.children) :
    ∃ s, form.begin none = .ok s ∧
      List.Forall₂ (fun n (reply : Reply) => reply.outcome = .ok .moved ∧
        ∃ step, reply.session.step form = .ok step ∧ step.StandsFor {} n)
        (n :: ns) (s.descend form (n :: ns)) := by
  rw [List.isChain_cons_cons] at hpath
  rw [OptionTree.preorder_eq_cons] at hslugs
  have happart : OptionTree.Apart t.children :=
    { texts := fun u hu => hids u.id (List.mem_map_of_mem hu)
      ids := hdistinct
      slugs := hslugs t List.mem_cons_self
      below := fun u hu => hslugs u (List.mem_cons_of_mem _ hu) }
  obtain ⟨root, cs⟩ := t
  obtain ⟨c, cs, rfl⟩ := List.exists_cons_of_ne_nil (List.ne_nil_of_mem hpath.1)
  obtain ⟨inner, hinner, harranged⟩ := Form.arranged_of_compile h
  obtain ⟨s, step, q, hbegin, -, habove⟩ := Session.Above.of_begin harranged rfl hinner rfl rfl
  refine ⟨s, hbegin, habove.descend harranged hpath.2 happart ?_⟩
  rintro m ⟨⟩
  exact hpath.1

/-- A node that takes several choices. -/
def washing : OptionTree :=
  .node { id := "wash", label := "Washing", multiple := .bool true }
    [.node { id := "pump", label := "Pump" } [], .node { id := "other-1", label := "Other" } []]

/-- A node that takes several choices, above another one. Its field has the name of the entry step's
field. -/
def appliances : OptionTree :=
  .node { id := "main", label := "Home Appliances", multiple := .bool true }
    [washing, .node { id := "other-2", label := "Other" } []]

/-- A tree with a label in two places. -/
def workshop : OptionTree :=
  .node { id := "root", label := "Repair", kind := .root }
    [appliances, .node { id := "phone", label := "Phone" } []]

theorem descend_workshop :
    ∃ form, compile {} (some workshop) = .ok form ∧ ∃ s, form.begin none = .ok s ∧
      List.Forall₂ (fun n (reply : Reply) => reply.outcome = .ok .moved ∧
        ∃ step, reply.session.step form = .ok step ∧ step.StandsFor {} n)
        [appliances, washing, .node { id := "pump", label := "Pump" } []]
        (s.descend form [appliances, washing, .node { id := "pump", label := "Pump" } []]) := by
  obtain ⟨form, hform⟩ : ∃ form, compile {} (some workshop) = .ok form := ⟨_, by cbv⟩
  have hids : ∀ i ∈ workshop.idsBelow, ∃ s, i = .text s := by
    have h : workshop.idsBelow = ["main", "wash", "pump", "other-1", "other-2", "phone"].map .text :=
      rfl
    simp [h]
  have hslugs : ∀ u ∈ workshop.preorder, (u.children.map fun c => labelSlug c.label).Nodup := by
    have hslug : ∀ s : String, labelSlug s = .ok (Text.slug s : Value) := fun _ => rfl
    simp only [workshop, appliances, washing, OptionTree.preorder, OptionTree.preorderAll,
      List.append_nil, List.cons_append, List.nil_append, List.mem_cons, List.not_mem_nil, or_false,
      OptionTree.label, OptionTree.data, OptionTree.children, forall_eq_or_imp, List.map_cons, hslug,
      List.map_nil, List.nodup_cons, Except.ok.injEq, Value.text.injEq, not_false_eq_true,
      List.nodup_nil, and_self, and_true, forall_eq]
    decide +kernel
  exact ⟨form, hform, descend_of_compile hids (by decide) hslugs hform
    (by simp [workshop, appliances, washing, OptionTree.children])⟩

end BranchForm
