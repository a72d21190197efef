import BranchForm.Proofs.Lookup
import BranchForm.Proofs.Values
import BranchForm.Compile

/-!
# Compiled forms

What the compiler puts out for a tree, read off from its result.

* `branchStepId_number` : the id of a branch step tells its number, so two branch steps with
  different numbers have different ids, and none has a reserved id;
* `compileBranch_inv`, `compileChoices_inv` and `compile_inv` say what a successful compilation of a
  node, of its children and of a tree is made of;
* `Laid` is what every sequence of steps that is put out satisfies, and `Laid.append` and
  `Laid.concat` are the two ways in which the compiler makes such sequences longer;
* `laid_branch` and `laid_choices` : the compiler puts out such sequences, and what it returns leads
  into them;
* `Form.Arranged` says how a whole form is put together, `Form.arranged_of_compile` that compiled
  forms are; their step ids are distinct (`Form.Arranged.nodup_stepIds`), so a step is found under
  its id.
-/

namespace BranchForm

/-! ### Step ids -/

theorem toList_branchStepId (number : Nat) (nodeId : Value) :
    (branchStepId number nodeId).toList =
      "step".toList ++ (Nat.toDigits 10 number ++ '_' :: nodeId.display.toList) := by
  have h : branchStepId number nodeId =
      "step" ++ (number.repr ++ ("_" ++ nodeId.display)) := by
    simp [branchStepId, String.append_assoc, toString, Nat.repr]
  rw [h]
  simp [Nat.toList_repr]

/-- The characters up to the first one that is no digit. -/
theorem takeWhile_digits (number : Nat) (rest : List Char) :
    (Nat.toDigits 10 number ++ '_' :: rest).takeWhile Char.isDigit = Nat.toDigits 10 number := by
  have hdigits : ∀ c ∈ Nat.toDigits 10 number, c.isDigit = true := fun c hc =>
    Nat.isDigit_of_mem_toDigits (by decide) (by decide) hc
  rw [List.takeWhile_append_of_pos hdigits]
  simp

/-- The number of a branch step stands in its id, between the first word and the first line. -/
theorem branchStepId_number {m n : Nat} {a b : Value} (h : branchStepId m a = branchStepId n b) :
    m = n := by
  have hl := congrArg String.toList h
  rw [toList_branchStepId, toList_branchStepId] at hl
  have hd := congrArg (List.takeWhile Char.isDigit) (List.append_cancel_left hl)
  rw [takeWhile_digits, takeWhile_digits] at hd
  have hn := congrArg (Nat.ofDigitChars 10 · 0) hd
  simpa using hn

theorem branchStepId_ne_entry (n : Nat) (a : Value) : branchStepId n a ≠ entryStepId := by
  intro h
  have hmem : '_' ∈ (branchStepId n a).toList := by
    rw [toList_branchStepId]
    simp
  rw [h] at hmem
  revert hmem
  decide

theorem branchStepId_ne_final (n : Nat) (a : Value) : branchStepId n a ≠ finalStepId := by
  intro h
  have hl := congrArg String.toList h
  rw [toList_branchStepId, show finalStepId.toList = "step".toList ++ "_final".toList by decide] at hl
  have hd := congrArg (List.takeWhile Char.isDigit) (List.append_cancel_left hl)
  rw [takeWhile_digits] at hd
  have hpos : 0 < (Nat.toDigits 10 n).length := Nat.length_toDigits_pos
  rw [hd] at hpos
  revert hpos
  decide

theorem branchStepId_ne_empty (n : Nat) (nodeId : Value) : branchStepId n nodeId ≠ "" := by
  intro h
  have hl := congrArg String.toList h
  rw [toList_branchStepId] at hl
  simp at hl

/-! ### What a successful compilation is made of -/

theorem labelSlug_inv {label value : Value} (h : labelSlug label = .ok value) :
    ∃ s, label = .text s ∧ value = .text (Text.slug s) := by
  simp only [labelSlug, bind_eq_ok_iff] at h
  obtain ⟨s, hs, hvalue⟩ := h
  exact ⟨s, Value.asText_inv hs, (Except.ok.inj hvalue).symm⟩

/-- The step of a node with children. -/
def branchStep (number : Nat) (d : Node) (title label : Value) (choices : List Choice) : Step :=
  { id := branchStepId number d.id, title, fields := [branchField d label choices] }

theorem compileBranch_inv {settings : CompileSettings} {n : Nat} {d : Node} {c : OptionTree}
    {cs : List OptionTree} {out : Compiled String}
    (h : compileBranch settings n (.node d (c :: cs)) = .ok out) :
    ∃ title label inner, fillLabel settings.branchTitle d.label = .ok title ∧
      fillLabel settings.branchFieldLabel d.label = .ok label ∧
      checkLabels d.id (c :: cs) = .ok () ∧
      compileChoices settings (n + 1) (c :: cs) = .ok inner ∧
      out = ⟨branchStepId n d.id, inner.steps ++ [branchStep n d title label inner.result],
        inner.next⟩ := by
  simp only [compileBranch, bind_eq_ok_iff] at h
  obtain ⟨title, htitle, label, hlabel, ⟨⟩, hcheck, inner, hinner, hout⟩ := h
  exact ⟨title, label, inner, htitle, hlabel, hcheck, hinner, (Except.ok.inj hout).symm⟩

theorem compileChoices_inv {settings : CompileSettings} {n : Nat} {t : OptionTree}
    {ts : List OptionTree} {out : Compiled (List Choice)}
    (h : compileChoices settings n (t :: ts) = .ok out) :
    ∃ value branch others, labelSlug t.label = .ok value ∧
      compileBranch settings n t = .ok branch ∧
      compileChoices settings branch.next ts = .ok others ∧
      out = ⟨childChoice t.data value branch.result :: others.result, branch.steps ++ others.steps,
        others.next⟩ := by
  simp only [compileChoices, bind_eq_ok_iff] at h
  obtain ⟨value, hvalue, branch, hbranch, others, hothers, hout⟩ := h
  exact ⟨value, branch, others, hvalue, hbranch, hothers, (Except.ok.inj hout).symm⟩

theorem choices_ne_nil {settings : CompileSettings} {n : Nat} {t : OptionTree}
    {ts : List OptionTree} {out : Compiled (List Choice)}
    (h : compileChoices settings n (t :: ts) = .ok out) : out.result ≠ [] := by
  obtain ⟨value, branch, others, -, -, -, rfl⟩ := compileChoices_inv h
  exact List.cons_ne_nil _ _

theorem compile_inv {settings : CompileSettings} {root : Node} {c : OptionTree}
    {cs : List OptionTree} {form : Form}
    (h : compile settings (some (.node root (c :: cs))) = .ok form) :
    ∃ inner description successMessage, checkLabels root.id (c :: cs) = .ok () ∧
      compileChoices settings firstBranchNumber (c :: cs) = .ok inner ∧
      fillLabel settings.description root.label = .ok description ∧
      fillLabel settings.successMessage root.label = .ok successMessage ∧
      form = {
        name := root.label
        description
        steps := entryStep settings root inner.result :: inner.steps ++ [finalStep settings]
        settings := { successMessage } } := by
  simp only [compile, bind_eq_ok_iff] at h
  obtain ⟨⟨⟩, hcheck, inner, hinner, description, hdescription, message, hmessage, hout⟩ := h
  exact ⟨inner, description, message, hcheck, hinner, hdescription, hmessage,
    (Except.ok.inj hout).symm⟩

/-! ### Sequences of branch steps -/

/-- A choice leads to the end of the form or to one of the steps given. -/
def Choice.LeadsInto (steps : List Step) (c : Choice) : Prop :=
  c.target = .text finalStepId ∨ ∃ s ∈ steps, c.target = .text s.id

theorem Choice.LeadsInto.mono {steps more : List Step} {c : Choice} (h : c.LeadsInto steps)
    (hsub : steps ⊆ more) : c.LeadsInto more :=
  h.imp_right fun ⟨s, hs, ht⟩ => ⟨s, hsub hs, ht⟩

theorem target_childChoice (d : Node) (value : Value) (target : String) :
    (childChoice d value target).target = .text target := rfl

/-- A sequence of branch steps with numbers from `low` up to `high`, as the compiler puts it out. -/
structure Laid (low high : Nat) (steps : List Step) : Prop where
  /-- The numbers do not fall. -/
  le : low ≤ high
  /-- Every step is named by one of the numbers. -/
  numbered : ∀ s ∈ steps, ∃ k nodeId, low ≤ k ∧ k < high ∧ s.id = branchStepId k nodeId
  /-- No two steps have one id. -/
  distinct : (steps.map Step.id).Nodup
  /-- Every step asks one question, has no conditions and does not end the form. -/
  plain : ∀ s ∈ steps, ∃ q, s.fields = [.mk q []] ∧ s.conditions = [] ∧ s.isLast = false
  /-- Every step offers a choice. -/
  filled : ∀ s ∈ steps, s.leadChoices ≠ []
  /-- The choices of a step lead to the end or to steps put out before it. -/
  backward : ∀ (i : Nat) (s : Step), steps[i]? = some s →
    ∀ c ∈ s.leadChoices, c.LeadsInto (steps.take i)

namespace Laid

theorem nil (n : Nat) : Laid n n [] where
  le := Nat.le_refl n
  numbered := nofun
  distinct := .nil
  plain := nofun
  filled := nofun
  backward := nofun

/-- The steps of one subtree before those of the next. -/
theorem append {low mid high : Nat} {ss ts : List Step} (hs : Laid low mid ss)
    (ht : Laid mid high ts) : Laid low high (ss ++ ts) where
  le := Nat.le_trans hs.le ht.le
  numbered := by
    intro s hmem
    rcases List.mem_append.1 hmem with h | h
    · obtain ⟨k, nodeId, hlow, hhigh, hid⟩ := hs.numbered s h
      exact ⟨k, nodeId, hlow, Nat.lt_of_lt_of_le hhigh ht.le, hid⟩
    · obtain ⟨k, nodeId, hlow, hhigh, hid⟩ := ht.numbered s h
      exact ⟨k, nodeId, Nat.le_trans hs.le hlow, hhigh, hid⟩
  distinct := by
    rw [List.map_append, List.nodup_append]
    refine ⟨hs.distinct, ht.distinct, ?_⟩
    -- the numbers on the left are below `mid`, those on the right are not
    intro i hi j hj hij
    obtain ⟨s, hsmem, rfl⟩ := List.mem_map.1 hi
    obtain ⟨t, htmem, rfl⟩ := List.mem_map.1 hj
    obtain ⟨k, a, -, hk, hsid⟩ := hs.numbered s hsmem
    obtain ⟨l, b, hl, -, htid⟩ := ht.numbered t htmem
    have hkl : k = l := branchStepId_number (hsid.symm.trans (hij.trans htid))
    omega
  plain := by
    intro s hmem
    exact (List.mem_append.1 hmem).elim (hs.plain s) (ht.plain s)
  filled := by
    intro s hmem
    exact (List.mem_append.1 hmem).elim (hs.filled s) (ht.filled s)
  backward := by
    intro i s hi c hc
    by_cases hlt : i < ss.length
    · rw [List.getElem?_append_left hlt] at hi
      rw [List.take_append_of_le_length (Nat.le_of_lt hlt)]
      exact hs.backward i s hi c hc
    · have hle : ss.length ≤ i := Nat.le_of_not_lt hlt
      rw [List.getElem?_append_right hle] at hi
      rw [List.take_append, List.take_of_length_le hle]
      exact (ht.backward _ s hi c hc).mono (List.subset_append_right _ _)

/-- The step of a node behind those of its descendants. -/
theorem concat {n high : Nat} {steps : List Step} (h : Laid (n + 1) high steps) {s : Step}
    {nodeId : Value} (hid : s.id = branchStepId n nodeId)
    (hplain : ∃ q, s.fields = [.mk q []] ∧ s.conditions = [] ∧ s.isLast = false)
    (hfilled : s.leadChoices ≠ [])
    (hleads : ∀ c ∈ s.leadChoices, c.LeadsInto steps) : Laid n high (steps ++ [s]) where
  le := Nat.le_of_succ_le h.le
  numbered := by
    intro t hmem
    rcases List.mem_append.1 hmem with ht | ht
    · obtain ⟨k, a, hlow, hhigh, htid⟩ := h.numbered t ht
      exact ⟨k, a, Nat.le_of_succ_le hlow, hhigh, htid⟩
    · rw [List.mem_singleton] at ht
      exact ⟨n, nodeId, Nat.le_refl n, h.le, ht ▸ hid⟩
  distinct := by
    rw [List.map_append, List.nodup_append]
    refine ⟨h.distinct, List.nodup_singleton _, ?_⟩
    intro i hi j hj hij
    obtain ⟨t, ht, rfl⟩ := List.mem_map.1 hi
    obtain ⟨k, a, hk, -, htid⟩ := h.numbered t ht
    rw [List.map_singleton, List.mem_singleton] at hj
    have hkn : k = n := branchStepId_number (htid.symm.trans (hij.trans (hj.trans hid)))
    omega
  plain := by
    intro t hmem
    rcases List.mem_append.1 hmem with ht | ht
    · exact h.plain t ht
    · exact List.mem_singleton.1 ht ▸ hplain
  filled := by
    intro t hmem
    rcases List.mem_append.1 hmem with ht | ht
    · exact h.filled t ht
    · exact List.mem_singleton.1 ht ▸ hfilled
  backward := by
    intro i t hi c hc
    by_cases hlt : i < steps.length
    · rw [List.getElem?_append_left hlt] at hi
      rw [List.take_append_of_le_length (Nat.le_of_lt hlt)]
      exact h.backward i t hi c hc
    · have hle : steps.length ≤ i := Nat.le_of_not_lt hlt
      rw [List.getElem?_append_right hle] at hi
      have hmem : t ∈ [s] := List.mem_of_getElem? hi
      rw [List.take_append, List.take_of_length_le hle]
      rw [List.mem_singleton.1 hmem] at hc
      exact (hleads c hc).mono (List.subset_append_left _ _)

end Laid

mutual

theorem laid_branch {settings : CompileSettings} {n : Nat} {t : OptionTree} {out : Compiled String}
    (h : compileBranch settings n t = .ok out) :
    Laid n out.next out.steps ∧ (out.result = finalStepId ∨ ∃ s ∈ out.steps, out.result = s.id) := by
  match t with
  | .node d [] =>
    cases h
    exact ⟨Laid.nil n, .inl rfl⟩
  | .node d (c :: cs) =>
    obtain ⟨title, label, inner, -, -, -, hinner, rfl⟩ := compileBranch_inv h
    obtain ⟨hlaid, hleads⟩ := laid_choices hinner
    -- the number of the node is given out before those of its descendants, its step is put out after
    refine ⟨hlaid.concat rfl ⟨_, rfl, rfl, rfl⟩ (choices_ne_nil hinner) hleads, .inr ?_⟩
    exact ⟨_, List.mem_append_right _ (List.mem_singleton_self _), rfl⟩

theorem laid_choices {settings : CompileSettings} {n : Nat} {ts : List OptionTree}
    {out : Compiled (List Choice)} (h : compileChoices settings n ts = .ok out) :
    Laid n out.next out.steps ∧ ∀ c ∈ out.result, c.LeadsInto out.steps := by
  match ts with
  | [] =>
    cases h
    exact ⟨Laid.nil n, nofun⟩
  | t :: ts =>
    obtain ⟨value, branch, others, -, hbranch, hothers, rfl⟩ := compileChoices_inv h
    obtain ⟨hlaid, htarget⟩ := laid_branch hbranch
    obtain ⟨hlaid', hleads⟩ := laid_choices hothers
    refine ⟨hlaid.append hlaid', ?_⟩
    intro c hc
    rcases List.mem_cons.1 hc with rfl | hc
    · rw [Choice.LeadsInto, target_childChoice]
      rcases htarget with hfinal | ⟨s, hs, hid⟩
      · exact .inl (congrArg Value.text hfinal)
      · exact .inr ⟨s, List.mem_append_left _ hs, congrArg Value.text hid⟩
    · exact (hleads c hc).mono (List.subset_append_right _ _)

end

/-! ### Whole forms -/

namespace Form

/-- The steps of a compiled form: an entry step with some choices, branch steps, and the terminal
step; the choices lead to the end or to branch steps. -/
structure Arranged (settings : CompileSettings) (root : Node) (choices : List Choice)
    (branches : List Step) (form : Form) : Prop where
  /-- The form is named by the root. -/
  name : form.name = root.label
  /-- The order of the document. -/
  steps : form.steps = entryStep settings root choices :: branches ++ [finalStep settings]
  /-- The branch steps are put out in one sequence. -/
  laid : ∃ high, Laid firstBranchNumber high branches
  /-- Where the choices of the entry step lead. -/
  leads : ∀ c ∈ choices, c.LeadsInto branches

theorem arranged_of_compile {settings : CompileSettings} {root : Node} {c : OptionTree}
    {cs : List OptionTree} {form : Form}
    (h : compile settings (some (.node root (c :: cs))) = .ok form) :
    ∃ inner, compileChoices settings firstBranchNumber (c :: cs) = .ok inner ∧
      form.Arranged settings root inner.result inner.steps := by
  obtain ⟨inner, description, message, -, hinner, -, -, rfl⟩ := compile_inv h
  obtain ⟨hlaid, hleads⟩ := laid_choices hinner
  exact ⟨inner, hinner, rfl, rfl, ⟨_, hlaid⟩, hleads⟩

namespace Arranged

variable {settings : CompileSettings} {root : Node} {choices : List Choice} {branches : List Step}
  {form : Form}

theorem mem_branch (h : form.Arranged settings root choices branches) {s : Step}
    (hs : s ∈ branches) : s ∈ form.steps := by
  rw [h.steps]
  exact List.mem_cons_of_mem _ (List.mem_append_left _ hs)

theorem mem_final (h : form.Arranged settings root choices branches) :
    finalStep settings ∈ form.steps := by
  rw [h.steps]
  exact List.mem_cons_of_mem _ (List.mem_append_right _ (List.mem_singleton_self _))

theorem nodup_stepIds (h : form.Arranged settings root choices branches) :
    form.stepIds.Nodup := by
  obtain ⟨high, hlaid⟩ := h.laid
  -- branch steps are distinct among each other, and none has a reserved id
  have hbranch : ∀ i ∈ branches.map Step.id, i ≠ entryStepId ∧ i ≠ finalStepId := by
    intro i hi
    obtain ⟨s, hs, rfl⟩ := List.mem_map.1 hi
    obtain ⟨k, nodeId, -, -, hid⟩ := hlaid.numbered s hs
    exact ⟨hid ▸ branchStepId_ne_entry k nodeId, hid ▸ branchStepId_ne_final k nodeId⟩
  have hids : form.stepIds = entryStepId :: (branches.map Step.id ++ [finalStepId]) := by
    simp [stepIds, h.steps, entryStep, finalStep]
  rw [hids, List.nodup_cons, List.nodup_append]
  refine ⟨?_, hlaid.distinct, List.nodup_singleton _, ?_⟩
  · intro hmem
    rcases List.mem_append.1 hmem with hi | hi
    · exact (hbranch _ hi).1 rfl
    · exact absurd (List.mem_singleton.1 hi) (by decide)
  · intro i hi j hj
    rw [List.mem_singleton.1 hj]
    exact (hbranch i hi).2

theorem entry?_eq (h : form.Arranged settings root choices branches) :
    form.entry? = some (entryStep settings root choices) := by
  simp [step?, entry?, h.steps, entryStep]

theorem last?_eq (h : form.Arranged settings root choices branches) :
    form.last? = some (finalStep settings) := by
  obtain ⟨high, hlaid⟩ := h.laid
  have hnone : branches.find? (·.isLast) = none := by
    rw [List.find?_eq_none]
    intro s hs
    obtain ⟨q, -, -, hlast⟩ := hlaid.plain s hs
    simp [hlast]
  simp [last?, h.steps, List.find?_append, hnone, entryStep, finalStep]

theorem resolve_final (h : form.Arranged settings root choices branches) (source : Value) :
    form.resolve source (.text finalStepId) = .ok (.text finalStepId) := by
  obtain ⟨found, hfound⟩ := exists_stepOf?_of_has ⟨_, h.mem_final, rfl⟩
  have hid : (finalStep settings).id = finalStepId := rfl
  rw [hid] at hfound
  simp [resolve, h.last?_eq, hid, hfound]

theorem resolve_of_has (h : form.Arranged settings root choices branches) {v : Value}
    (hv : form.Has v) (source : Value) : form.resolve source v = .ok v := by
  obtain ⟨s, hs, rfl⟩ := hv
  by_cases hfinal : s.id = finalStepId
  · rw [hfinal]
    exact h.resolve_final source
  · exact resolve_of_mem hs hfinal source

/-! The places of the steps in the document. -/

theorem length_steps (h : form.Arranged settings root choices branches) :
    form.steps.length = branches.length + 2 := by
  simp [h.steps]

theorem getElem?_entry (h : form.Arranged settings root choices branches) :
    form.steps[0]? = some (entryStep settings root choices) := by
  simp [h.steps]

theorem getElem?_branch (h : form.Arranged settings root choices branches) {i : Nat}
    (hi : i < branches.length) : form.steps[i + 1]? = branches[i]? := by
  simp [h.steps, List.getElem?_append_left hi]

theorem getElem?_final (h : form.Arranged settings root choices branches) :
    form.steps[branches.length + 1]? = some (finalStep settings) := by
  simp [h.steps]

end Arranged

end Form

end BranchForm
