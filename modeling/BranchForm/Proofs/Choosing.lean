import BranchForm.Proofs.Retrace

/-!
# What can be chosen

The search for reachable steps follows the targets of choices. A respondent names a choice by the
slug of its label, and of two siblings with one slug the first is found. So a step is reachable
whenever the tree has its node, but picking choices leads there only if every node on the way down
is the first of its slug.

* `OptionTree.Finds` is one move down a tree to a child that is found; `OptionTree.parent_unique` :
  each node of a tree stands in one place;
* `Form.Chosen` holds of the steps that picking choices leads to;
* `Session.Found` is the invariant of picking: the step shown is that of a node that is found.
  `Session.Found.select` is its step, `Session.found_of_reached` holds of whole runs;
* `Session.exists_above` : to every node that is found some picks lead;
* `chosen_iff_firstAmong` : which steps are chosen, and when all of them are; `unchosen_shop` shows
  a form with one that is not.
-/

namespace BranchForm

open Relation (TransGen ReflTransGen)

/-! ### Ways down a tree -/

namespace OptionTree

/-- A node is found below another by the slug of its label. -/
def Finds (parent child : OptionTree) : Prop := FirstAmong parent.children child

variable {t u : OptionTree}

theorem finds_le_parent : Finds ≤ Parent := fun _ _ h => FirstAmong.mem h

/-- No node stands below two. -/
theorem parent_unique (hids : Identified t.children) {u v c : OptionTree} (hu : u ∈ preorder t)
    (hv : v ∈ preorder t) (hc : Parent u c) (hc' : Parent v c) : u = v := by
  have hnodup : ((preorder t).flatMap children).Nodup :=
    (flatMap_children_preorder t).nodup_iff.2 (List.Nodup.of_map _ hids.ids)
  have hsymm : Std.Symm (Function.onFun List.Disjoint children) := ⟨fun _ _ h => h.symm⟩
  by_contra hne
  exact (List.nodup_flatMap.1 hnodup).2.forall hu hv hne hc hc'

/-- The first children of first children end in a leaf. -/
theorem exists_leaf {t : OptionTree} (hne : t.children ≠ []) :
    ∃ u, TransGen Finds t u ∧ u.children = [] := by
  obtain ⟨c, cs, hcs⟩ := List.exists_cons_of_ne_nil hne
  have hfirst : Finds t c := ⟨[], cs, hcs, nofun⟩
  by_cases hleaf : c.children = []
  · exact ⟨c, .single hfirst, hleaf⟩
  · obtain ⟨u, hu, huleaf⟩ := exists_leaf hleaf
    exact ⟨u, .head hfirst hu, huleaf⟩
termination_by sizeOf t
decreasing_by exact sizeOf_lt_of_parent hfirst.mem

/-- Where every child that has children is found, so is every node that has. -/
theorem reflTransGen_finds
    (hall : ∀ p ∈ preorder t, ∀ c ∈ p.children, c.children ≠ [] → Finds p c)
    (h : ReflTransGen Parent t u) (hne : u.children ≠ []) : ReflTransGen Finds t u := by
  induction h with
  | refl => exact .refl
  | tail hp hpc ih =>
    exact .tail (ih (List.ne_nil_of_mem hpc)) (hall _ (mem_preorder_iff.2 hp) _ hpc hne)

end OptionTree

open OptionTree (Finds Identified)

/-! ### Runs of picks -/

/-- Whether a request picks a choice. -/
def Request.isSelect : Request → Bool
  | .select _ _ => true
  | _ => false

/-- Picking choices only, a respondent comes to the step that a value names. -/
def Form.Chosen (form : Form) (v : Value) : Prop :=
  ∃ s, form.Reached Request.isSelect s ∧ s.current = v

namespace Session

variable {settings : CompileSettings} {form : Form} {t u : OptionTree} {s s' : Session}
  {step : Step} {q : Question} {ts : List OptionTree} {fieldId value : Value}

/-- The session shows the entry step of a tree, or the step of a node that picking choices finds. -/
inductive Found (settings : CompileSettings) (form : Form) (t : OptionTree) (s : Session) : Prop
  /-- The entry step offers the children of the root. -/
  | entry {step : Step} {q : Question} : s.current = .text entryStepId →
      s.Shows settings form t.children step q → Found settings form t s
  /-- The step of a node offers the children of the node. -/
  | below {u : OptionTree} {step : Step} : TransGen Finds t u → s.step form = .ok step →
      step.StandsFor settings u →
      (u.children ≠ [] → ∃ q, s.Shows settings form u.children step q) → Found settings form t s

theorem Shows.congr (h : s.Shows settings form ts step q) (hcurrent : s'.current = s.current) :
    s'.Shows settings form ts step q :=
  { h with shown := (step_congr hcurrent).trans h.shown }

theorem Found.congr (h : s.Found settings form t) (hcurrent : s'.current = s.current) :
    s'.Found settings form t := by
  cases h with
  | entry hentry hshows => exact .entry (hcurrent.trans hentry) (hshows.congr hcurrent)
  | below hu hshown hstands hshows =>
    refine .below hu ((step_congr hcurrent).trans hshown) hstands fun hne => ?_
    obtain ⟨q, hq⟩ := hshows hne
    exact ⟨q, hq.congr hcurrent⟩

/-- A pick that does not move leaves the step shown. -/
theorem current_select_of_stayed (h : (s.select form fieldId value).outcome ≠ .ok .moved) :
    (s.select form fieldId value).session.current = s.current := by
  cases hstep : s.step form with
  | error e => simp only [select, hstep]
  | ok step =>
    cases hfield : findField step fieldId with
    | none => simp only [select, hstep, hfield]
    | some f =>
      obtain ⟨stored, picked, hselect⟩ := exists_select_eq value hstep hfield
      rw [hselect] at h ⊢
      rcases follow_cases (s.withAnswer fieldId stored)
        (form.branchTarget (s.withAnswer fieldId stored) step fieldId picked) .select fieldId value
        with ⟨-, hs⟩ | ⟨v, -, hs⟩
      · rw [hs]
        rfl
      · rw [hs] at h
        exact absurd rfl h

theorem reached_pick (h : form.Reached Request.isSelect s) (t : OptionTree) :
    form.Reached Request.isSelect (s.pick form t).session := by
  unfold pick
  split
  · split
    · rename_i f _ _
      exact .next (r := .select f.id _) h rfl
    · exact h
  · exact h
  · exact h

section Compiled

variable {n : Nat} {inner : Compiled (List Choice)} {entryFieldId : String}
  (harranged : form.Arranged settings t.data inner.result inner.steps)
  (hinner : compileChoices settings n t.children = .ok inner)
  (hentry : settings.entryFieldId = .text entryFieldId)
include harranged hinner hentry

/-- A pick that moves leads to the step of a child that is found. -/
theorem Shows.select (hplain : ∀ f ∈ settings.finalFields, f.subFields = [] ∧ f.choices = [])
    (h : s.Shows settings form u.children step q)
    (hmoved : (s.select form fieldId value).outcome = .ok .moved) :
    ∃ c step', Finds u c ∧ (s.select form fieldId value).session.step form = .ok step' ∧
      step'.StandsFor settings c ∧ (c.children ≠ [] →
        ∃ q', (s.select form fieldId value).session.Shows settings form c.children step' q') := by
  have hd := harranged.nodup_stepIds
  obtain ⟨i, shown, f, hasks, hcurrent⟩ :=
    harranged.exists_asks_of_moved hinner hentry hplain hmoved
  obtain ⟨-, -, c, -, hc, hsession⟩ := select_of_asks hd hasks hcurrent hmoved
  obtain rfl : shown = step := Except.ok.inj ((step_of_asks hd hasks hcurrent).symm.trans h.shown)
  obtain rfl : f = .mk q [] := List.singleton_inj.1 (hasks.fields.symm.trans h.fields)
  obtain ⟨m, out, hout, hchoices, hsub⟩ := h.compiled
  have hfound : out.result.find? (fun c => c.value.agrees value) = some c := hchoices ▸ hc
  obtain ⟨child, k, branch, hfirst, -, hbranch, hbsub, rfl⟩ := exists_first_of_choice hout hfound
  obtain ⟨step', hshown, hstands, hbelow⟩ := shows_of_branch harranged hbranch
    (List.Subset.trans hbsub hsub) (s := (s.select form fieldId value).session)
    (by rw [hsession]; rfl)
  refine ⟨child, step', hfirst, hshown, hstands, fun hne => ?_⟩
  obtain ⟨q', hshows, -⟩ := hbelow hne
  exact ⟨q', hshows⟩

theorem Found.select (hplain : ∀ f ∈ settings.finalFields, f.subFields = [] ∧ f.choices = [])
    (h : s.Found settings form t) (fieldId value : Value) :
    (s.select form fieldId value).session.Found settings form t := by
  by_cases hmoved : (s.select form fieldId value).outcome = .ok .moved
  · cases h with
    | entry _ hshows =>
      obtain ⟨c, step', hfirst, hshown, hstands, hbelow⟩ :=
        hshows.select harranged hinner hentry hplain hmoved
      exact .below (.single hfirst) hshown hstands hbelow
    | @below u step hu hshown hstands hshows =>
      by_cases hleaf : u.children = []
      · -- the step of a leaf is the terminal one, which offers nothing
        rw [hstands.1 hleaf] at hshown
        exact absurd hmoved (not_moved_of_plain hshown rfl hplain)
      · obtain ⟨q, hq⟩ := hshows hleaf
        obtain ⟨c, step', hfirst, hshown', hstands', hbelow⟩ :=
          hq.select harranged hinner hentry hplain hmoved
        exact .below (.tail hu hfirst) hshown' hstands' hbelow
  · exact h.congr (current_select_of_stayed hmoved)

theorem found_of_reached (hplain : ∀ f ∈ settings.finalFields, f.subFields = [] ∧ f.choices = [])
    (h : form.Reached Request.isSelect s) : s.Found settings form t := by
  induction h with
  | fresh hbegin =>
    obtain ⟨s', step, q, hbegin', hcurrent, habove⟩ :=
      Above.of_begin harranged hentry hinner rfl rfl
    obtain rfl := Except.ok.inj (hbegin.symm.trans hbegin')
    exact .entry hcurrent habove.toShows
  | @next s r _ hr ih =>
    cases r with
    | select fieldId value => exact ih.select harranged hinner hentry hplain fieldId value
    | set | enter | advance | retreat | jump | reset => cases hr

/-- Some picks lead to the step of any node with children that is found, or to the entry step. -/
theorem exists_above (hids : Identified t.children) (h : ReflTransGen Finds t u)
    (hne : u.children ≠ []) :
    Identified u.children ∧ ∃ s step q, form.Reached Request.isSelect s ∧
      s.Above settings form u.children step q := by
  induction h with
  | refl =>
    obtain ⟨s, step, q, hbegin, -, habove⟩ := Above.of_begin harranged hentry hinner rfl rfl
    exact ⟨hids, s, step, q, .fresh hbegin, habove⟩
  | @tail p c _ hfinds ih =>
    obtain ⟨hpids, s, step, q, hreached, habove⟩ := ih (List.ne_nil_of_mem hfinds.mem)
    obtain ⟨-, step', -, -, hbelow⟩ := habove.pick_first harranged hpids hfinds
    obtain ⟨q', habove'⟩ := hbelow hne
    exact ⟨hpids.children hfinds.mem, _, step', q', reached_pick hreached c, habove'⟩

/-- Some picks lead to the step of any node that is found. -/
theorem exists_reached_of_finds (hids : Identified t.children) (h : TransGen Finds t u) :
    ∃ s step, form.Reached Request.isSelect s ∧ s.step form = .ok step ∧
      step.StandsFor settings u := by
  obtain ⟨p, hp, hfinds⟩ := TransGen.tail'_iff.1 h
  obtain ⟨hpids, s, step, q, hreached, habove⟩ :=
    exists_above harranged hinner hentry hids hp (List.ne_nil_of_mem hfinds.mem)
  obtain ⟨-, step', hshown, hstands, -⟩ := habove.pick_first harranged hpids hfinds
  exact ⟨_, step', reached_pick hreached u, hshown, hstands⟩

end Compiled

end Session

/-! ### Whole forms -/

namespace Form.Arranged

variable {settings : CompileSettings} {form : Form} {t u : OptionTree}
  {inner : Compiled (List Choice)} {n : Nat} {step step' : Step}

/-- The step of a node with children is a branch step. -/
theorem mem_branches_of_standsFor {root : Node} {choices : List Choice} {branches : List Step}
    (h : form.Arranged settings root choices branches) (hstep : step ∈ form.steps)
    (hstands : step.StandsFor settings u) (hne : u.children ≠ []) : step ∈ branches := by
  obtain ⟨number, title, label, cs, hbranch, -⟩ := hstands.2 hne
  have hid : step.id = branchStepId number u.id := congrArg Step.id hbranch
  rcases h.mem_steps_iff.1 hstep with rfl | hmem | rfl
  · exact absurd hid.symm (branchStepId_ne_entry _ _)
  · exact hmem
  · exact absurd hid.symm (branchStepId_ne_final _ _)

section Compiled

variable {entryFieldId : String} (h : form.Arranged settings t.data inner.result inner.steps)
  (hinner : compileChoices settings n t.children = .ok inner) (hids : Identified t.children)
include h hinner hids

/-- A node with children has one step. -/
theorem eq_of_standsFor (hstep : step ∈ form.steps) (hstep' : step' ∈ form.steps)
    (hstands : step.StandsFor settings u) (hstands' : step'.StandsFor settings u)
    (hne : u.children ≠ []) : step = step' := by
  have hnames := nodup_questionIds_choices hinner hids
  apply List.inj_on_of_nodup_map hnames (h.mem_branches_of_standsFor hstep hstands hne)
    (h.mem_branches_of_standsFor hstep' hstands' hne)
  rw [hstands.fieldIds_eq hne, hstands'.fieldIds_eq hne]

variable (hentry : settings.entryFieldId = .text entryFieldId)
  (hplain : ∀ f ∈ settings.finalFields, f.subFields = [] ∧ f.choices = [])
include hentry hplain

/-- Picking leads to the entry step, to the terminal step and to the steps of the nodes that are
found. -/
theorem chosen_iff (hne : t.children ≠ []) (hstep : step ∈ form.steps) :
    form.Chosen (.text step.id) ↔ step.id = entryStepId ∨ step.id = finalStepId ∨
      ∃ u, TransGen Finds t u ∧ u.children ≠ [] ∧ step.StandsFor settings u := by
  have hd := h.nodup_stepIds
  have heq : ∀ {s : Session} {shown}, s.current = .text step.id → s.step form = .ok shown →
      shown = step := by
    intro s shown hcurrent hshown
    have hfound : s.step form = .ok step := by
      apply Session.step_of_stepOf?
      rw [hcurrent]
      exact step?_of_mem hd hstep
    exact Except.ok.inj (hshown.symm.trans hfound)
  constructor
  · rintro ⟨s, hreached, hcurrent⟩
    cases Session.found_of_reached h hinner hentry hplain hreached with
    | entry hentered => exact .inl (Value.text.inj (hcurrent.symm.trans hentered))
    | @below u shown hu hshown hstands =>
      obtain rfl := heq hcurrent hshown
      by_cases hleaf : u.children = []
      · exact .inr (.inl (congrArg Step.id (hstands.1 hleaf)))
      · exact .inr (.inr ⟨u, hu, hleaf, hstands⟩)
  · rintro (hid | hid | ⟨u, hu, hune, hstands⟩)
    · obtain ⟨s, _, _, hbegin, hcurrent, -⟩ := Session.Above.of_begin h hentry hinner rfl rfl
      exact ⟨s, .fresh hbegin, hid ▸ hcurrent⟩
    · obtain ⟨u, hu, hleaf⟩ := OptionTree.exists_leaf hne
      obtain ⟨s, shown, hreached, hshown, hstands⟩ :=
        Session.exists_reached_of_finds h hinner hentry hids hu
      refine ⟨s, hreached, ?_⟩
      rw [(Session.of_step hshown).2, hstands.1 hleaf, hid]
      rfl
    · obtain ⟨s, shown, hreached, hshown, hstands'⟩ :=
        Session.exists_reached_of_finds h hinner hentry hids hu
      have hmem := (Session.of_step hshown).1
      refine ⟨s, hreached, ?_⟩
      rw [(Session.of_step hshown).2, h.eq_of_standsFor hinner hids hmem hstep hstands' hstands
        hune]

/-- Picking leads to all steps if and only if every child that has children is found. -/
theorem forall_chosen_iff (hne : t.children ≠ []) :
    (∀ v, form.Has v → form.Chosen v) ↔
      ∀ p ∈ t.preorder, ∀ c ∈ p.children, c.children ≠ [] → Finds p c := by
  have hpaired := paired_choices hinner
  constructor
  · intro hall p hp c hc hcne
    have hbelow : c ∈ OptionTree.preorderAll t.children :=
      OptionTree.mem_below_iff.2 (.tail' (OptionTree.mem_preorder_iff.1 hp) hc)
    obtain ⟨step, hmem, hstands⟩ :=
      hpaired.exists_step (OptionTree.mem_branching.2 ⟨hbelow, hcne⟩)
    have hstep := h.mem_branch hmem
    rcases (h.chosen_iff hinner hids hentry hplain hne hstep).1 (hall _ ⟨step, hstep, rfl⟩) with
      hid | hid | ⟨u, hu, hune, hstands'⟩
    · exact absurd hid (h.branch_ids hmem).1
    · exact absurd hid (h.branch_ids hmem).2
    · -- the step stands for one node only, and this node has one place in the tree
      have hubelow : u ∈ OptionTree.preorderAll t.children :=
        OptionTree.mem_below_iff.2 (TransGen.mono OptionTree.finds_le_parent _ _ hu)
      have hname := (hstands'.fieldIds_eq hune).symm.trans (hstands.fieldIds_eq hcne)
      obtain rfl : u = c := List.inj_on_of_nodup_map hids.ids hubelow hbelow
        (hids.eq_of_branchFieldId hubelow hbelow (Value.text.inj (List.singleton_inj.1 hname)))
      obtain ⟨p', hp', hfinds⟩ := TransGen.tail'_iff.1 hu
      have hplace : p' ∈ t.preorder := OptionTree.mem_preorder_iff.2
        (ReflTransGen.mono OptionTree.finds_le_parent _ _ hp')
      rwa [OptionTree.parent_unique hids hplace hp hfinds.mem hc] at hfinds
  · rintro hall v ⟨step, hstep, rfl⟩
    rw [h.chosen_iff hinner hids hentry hplain hne hstep]
    rcases h.mem_steps_iff.1 hstep with rfl | hmem | rfl
    · exact .inl rfl
    · obtain ⟨u, hu, hstands⟩ := hpaired.exists_node hmem
      obtain ⟨hbelow, hune⟩ := OptionTree.mem_branching.1 hu
      obtain ⟨p, hp, hchild⟩ := TransGen.tail'_iff.1 (OptionTree.mem_below_iff.1 hbelow)
      have hfound := OptionTree.reflTransGen_finds hall hp (List.ne_nil_of_mem hchild)
      exact .inr (.inr ⟨u, .tail' hfound (hall p (OptionTree.mem_preorder_iff.2 hp) u hchild hune),
        hune, hstands⟩)
    · exact .inr (.inl rfl)

end Compiled

end Form.Arranged

/-- **What picking choices leads to.** In the compiled form of a tree with options, whose ids are
distinct texts, the search from the entry step finds all steps. Picking choices leads to steps only:
to the entry step, to the terminal step, and to the steps of the nodes with children that can be
found from the root, always under the first child of a slug. So it leads to all steps if and only if
no child that has children comes behind a sibling of its slug. -/
theorem chosen_iff_firstAmong {t : OptionTree} {form : Form}
    (hids : ∀ i ∈ t.idsBelow, ∃ s, i = .text s) (hdistinct : t.idsBelow.Nodup)
    (hne : t.children ≠ []) (h : compile {} (some t) = .ok form) :
    (∃ reached, form.reachable (.text entryStepId) = .ok reached ∧
      ∀ v, v ∈ reached ↔ form.Has v) ∧
    (∀ v, form.Chosen v → form.Has v) ∧
    (∀ step ∈ form.steps, form.Chosen (.text step.id) ↔
      step.id = entryStepId ∨ step.id = finalStepId ∨
        ∃ u, TransGen Finds t u ∧ u.children ≠ [] ∧ step.StandsFor {} u) ∧
    ((∀ v, form.Has v → form.Chosen v) ↔ ∀ p ∈ t.preorder, ∀ c ∈ p.children,
      c.children ≠ [] → OptionTree.FirstAmong p.children c) := by
  have hidentified : Identified t.children :=
    ⟨fun u hu => hids u.id (List.mem_map_of_mem hu), hdistinct⟩
  obtain ⟨root, cs⟩ := t
  obtain ⟨c, cs, rfl⟩ := List.exists_cons_of_ne_nil hne
  obtain ⟨inner, hinner, harranged⟩ := Form.arranged_of_compile h
  obtain ⟨reached, hreached, hmem⟩ := harranged.exists_reachable hinner (by decide)
  refine ⟨⟨reached, hreached, fun v => ?_⟩, ?_, fun step hstep => ?_, ?_⟩
  · rw [hmem]
    simp [Form.Has, Form.stepIds, eq_comm]
  · rintro v ⟨s, hs, rfl⟩
    exact (Session.onForm_of_reached hs).current
  · exact harranged.chosen_iff hinner hidentified rfl (by decide) hne hstep
  · exact harranged.forall_chosen_iff hinner hidentified rfl (by decide) hne

/-- An option without options of its own. -/
def sizeTag : OptionTree := .node { id := "a", label := "Size" } []

/-- An option of the same label with one. -/
def sizeGuide : OptionTree :=
  .node { id := "b", label := "Size" } [.node { id := "m", label := "M" } []]

/-- A tree in which the second option comes behind one of its slug. -/
def shop : OptionTree :=
  .node { id := "root", label := "Shop", kind := .root } [sizeTag, sizeGuide]

/-- The form of the tree. -/
def shopForm : Form :=
  { name := "Shop"
    description := "Find the best shop for you"
    steps := [
      entryStep {} shop.data
        [childChoice sizeTag.data "size" "step_final", childChoice sizeGuide.data "size" "step2_b"],
      branchStep 2 sizeGuide.data "Choose Size Type" "Select Size option"
        [childChoice { id := "m", label := "M" } "m" "step_final"],
      finalStep {}]
    settings := { successMessage := "Thanks! We'll recommend the best shop for you." } }

theorem compile_shop : compile {} (some shop) = .ok shopForm := by cbv

theorem identified_shop :
    (∀ i ∈ shop.idsBelow, ∃ s, i = .text s) ∧ shop.idsBelow.Nodup ∧ shop.children ≠ [] := by
  have h : shop.idsBelow = ["a", "b", "m"].map .text := rfl
  exact ⟨by simp [h], by decide, List.cons_ne_nil _ _⟩

theorem eq_of_finds_shop {c : OptionTree} (h : Finds shop c) : c = sizeTag := by
  obtain ⟨before, after, heq, hbefore⟩ := h
  cases before with
  | nil => exact (List.cons.inj heq).1.symm
  | cons first before =>
    -- the guide has the slug of the tag in front of it
    obtain ⟨rfl, hrest⟩ := List.cons.inj heq
    have hc : c ∈ [sizeGuide] := by
      rw [hrest]
      exact List.mem_append_right _ List.mem_cons_self
    rw [List.mem_singleton.1 hc] at hbefore
    exact absurd rfl (hbefore sizeTag List.mem_cons_self)

theorem chosen_shop :
    compile {} (some shop) = .ok shopForm ∧ shopForm.Has "step2_b" ∧
      ¬ ∀ v, shopForm.Has v → shopForm.Chosen v := by
  obtain ⟨hids, hdistinct, hne⟩ := identified_shop
  obtain ⟨-, -, -, hall⟩ := chosen_iff_firstAmong hids hdistinct hne compile_shop
  refine ⟨compile_shop, ⟨_, List.mem_cons_of_mem _ List.mem_cons_self, rfl⟩, fun hchosen => ?_⟩
  have hfirst := hall.1 hchosen shop List.mem_cons_self _
    (List.mem_cons_of_mem _ List.mem_cons_self) (List.cons_ne_nil _ _)
  exact absurd (congrArg OptionTree.id (eq_of_finds_shop hfirst)) (by decide)

/-- The step of the second option is found by the search, but no picks lead there. -/
theorem unchosen_shop :
    compile {} (some shop) = .ok shopForm ∧
      (∃ reached, shopForm.reachable (.text entryStepId) = .ok reached ∧
        .text "step2_b" ∈ reached) ∧
      ¬ shopForm.Chosen "step2_b" := by
  obtain ⟨hids, hdistinct, hne⟩ := identified_shop
  obtain ⟨inner, hinner, harranged⟩ := Form.arranged_of_compile compile_shop
  have hidentified : Identified shop.children :=
    ⟨fun u hu => hids u.id (List.mem_map_of_mem hu), hdistinct⟩
  obtain ⟨reached, hreached, hmem⟩ := harranged.exists_reachable hinner (by decide)
  refine ⟨compile_shop, ⟨reached, hreached, (hmem _).2 (by decide)⟩, fun hchosen => ?_⟩
  have hstep : branchStep 2 sizeGuide.data "Choose Size Type" "Select Size option"
      [childChoice { id := "m", label := "M" } "m" "step_final"] ∈ shopForm.steps :=
    List.mem_cons_of_mem _ List.mem_cons_self
  rcases (harranged.chosen_iff hinner hidentified rfl (by decide) hne hstep).1 hchosen with
    hid | hid | ⟨u, hu, hune, -⟩
  · exact absurd hid (by decide)
  · exact absurd hid (by decide)
  · -- all that is found is the first option, and nothing stands below it
    obtain ⟨c, hc, hcu⟩ := TransGen.head'_iff.1 hu
    rw [eq_of_finds_shop hc] at hcu
    rcases hcu.cases_head with rfl | ⟨w, hw, -⟩
    · exact hune rfl
    · exact absurd hw.mem List.not_mem_nil

end BranchForm
