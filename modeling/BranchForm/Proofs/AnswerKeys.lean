import BranchForm.Proofs.Nested
import BranchForm.Proofs.Retrace

/-!
# The keys of answers

A session stores the answers to all steps in one record, under the ids of the fields. Where fields
of two steps have one id, an answer on one of the steps takes the place of that on the other.

* `Form.answerKeys` lists the keys of a form, step by step;
* `Form.KeepsAnswers` says that answers on one step leave those to the fields of the others;
  `Form.keepsAnswers_iff` : they do exactly if no two steps have a key in common;
* `Form.Arranged.answerKeys_perm` lists the keys of a compiled form: that of the entry question,
  those made of the ids of nodes with children, and those of the terminal step;
* `OptionTree.SparesEntryKey` is what keeps the first of them apart from the others, and
  `answerKeys_nodup_iff` is the result; `main_overwritten` shows a form in which they clash.
-/

namespace BranchForm

/-! ### Keys -/

namespace Form

/-- The keys under which the answers to a form are stored, step by step. -/
def answerKeys (form : Form) : List Value := form.steps.flatMap Step.answerKeys

/-- An answer given on one step leaves those to the fields of the others. -/
def KeepsAnswers (form : Form) : Prop :=
  ∀ s : Session, ∀ p ∈ form.steps, s.current = .text p.id → ∀ q ∈ form.steps, p.id ≠ q.id →
    ∀ key ∈ p.answerKeys, ∀ other ∈ q.answerKeys, ∀ value,
      (s.select form key value).session.answer other = s.answer other ∧
        (s.set form key value).session.answer other = s.answer other

end Form

/-! ### One answer -/

namespace Session

variable {form : Form} {s : Session} {key other : String} {value : Value}

theorem answer_follow (s : Session) (target : Except Unresolved (Option Value)) (trigger : Trigger)
    (fieldId value name : Value) :
    (s.follow target trigger fieldId value).session.answer name = s.answer name := by
  rw [answer, answers_follow, answer]

/-- A pick in one field leaves the answers to the others. -/
theorem answer_select_of_ne (hne : other ≠ key) :
    (s.select form (.text key) value).session.answer (.text other) = s.answer (.text other) := by
  cases hstep : s.step form with
  | error e => simp only [select, hstep]
  | ok step =>
    cases hfield : findField step (.text key) with
    | none => simp only [select, hstep, hfield]
    | some f =>
      obtain ⟨stored, picked, hselect⟩ := exists_select_eq value hstep hfield
      rw [hselect, answer_follow]
      exact Members.getOrNull_put_of_ne _ _ hne

theorem answer_set (s : Session) (form : Form) (key : String) (value name : Value) :
    (s.set form (.text key) value).session.answer name =
      (s.withAnswer (.text key) value).answer name := by
  rw [answer, answers_set form s rfl]
  rfl

end Session

/-- **Answers are kept apart exactly if no two steps have a key in common.** -/
theorem Form.keepsAnswers_iff {form : Form} (htexts : ∀ key ∈ form.answerKeys, ∃ s, key = .text s) :
    form.KeepsAnswers ↔ ∀ p ∈ form.steps, ∀ q ∈ form.steps, p.id ≠ q.id →
      ∀ key ∈ p.answerKeys, key ∉ q.answerKeys := by
  have htext : ∀ p ∈ form.steps, ∀ key ∈ p.answerKeys, ∃ s, key = .text s := fun p hp key hkey =>
    htexts key (List.mem_flatMap.2 ⟨p, hp, hkey⟩)
  constructor
  · intro hkeeps p hp q hq hne key hkey hshared
    obtain ⟨name, rfl⟩ := htext p hp key hkey
    -- a first answer on one step is then an answer on the other, where there was none
    have hkept := (hkeeps { current := .text p.id } p hp rfl q hq hne _ hkey _ hshared (.text "")).2
    rw [Session.answer_set] at hkept
    have hstored : Session.answer (Session.withAnswer { current := .text p.id } (.text name)
        (.text "")) (.text name) = .text "" := Members.getOrNull_put_self _ _ _
    rw [hstored] at hkept
    cases hkept
  · intro hapart s p hp _ q hq hne key hkey other hother value
    have hdistinct : other ≠ key := fun heq => hapart p hp q hq hne key hkey (heq ▸ hother)
    obtain ⟨name, rfl⟩ := htext p hp key hkey
    obtain ⟨name', rfl⟩ := htext q hq other hother
    have hnames : name' ≠ name := fun heq => hdistinct (congrArg Value.text heq)
    refine ⟨Session.answer_select_of_ne hnames, ?_⟩
    rw [Session.answer_set]
    exact Members.getOrNull_put_of_ne _ _ hnames

/-! ### Compiled forms -/

open OptionTree (branching mem_branching preorderAll)

theorem Step.answerKeys_of_flat {s : Step} (h : ∀ f ∈ s.fields, f.subFields = []) :
    s.answerKeys = s.fields.map Field.id := by
  rw [answerKeys, Field.deepAll_of_flat h]

theorem Step.Textual.flat {s : Step} (h : s.Textual) : ∀ f ∈ s.fields, f.subFields = [] := by
  obtain ⟨q, hfields, -, -⟩ := h
  rw [hfields, List.forall_mem_singleton]
  rfl

namespace Form.Arranged

variable {settings : CompileSettings} {root : Node} {ts : List OptionTree} {n : Nat}
  {inner : Compiled (List Choice)} {form : Form}

/-- **The keys of a compiled form** are that of the entry question, one for each node with children
below the root, and those of the terminal step. -/
theorem answerKeys_perm (h : form.Arranged settings root inner.result inner.steps)
    (hinner : compileChoices settings n ts = .ok inner)
    (hflat : ∀ f ∈ settings.finalFields, f.subFields = []) :
    form.answerKeys.Perm (settings.entryFieldId ::
      ((branching ts).map fun u => .text (branchFieldId u.id)) ++
        settings.finalFields.map Field.id) := by
  have hbranches : (inner.steps.flatMap Step.answerKeys).Perm
      ((branching ts).map fun u => .text (branchFieldId u.id)) := by
    have hflatten : inner.steps.flatMap Step.answerKeys = (questionIds inner.steps).flatten := by
      rw [questionIds, List.flatMap_def]
      refine congrArg List.flatten (List.map_congr_left fun s hs => ?_)
      exact Step.answerKeys_of_flat ((textual_choices hinner).2 s hs).flat
    rw [hflatten, List.map_eq_flatMap, List.flatMap_def]
    exact (questionIds_choices hinner).flatten
  have hentry : (entryStep settings root inner.result).answerKeys = [settings.entryFieldId] := rfl
  have hfinal : (finalStep settings).answerKeys = settings.finalFields.map Field.id :=
    Step.answerKeys_of_flat hflat
  rw [answerKeys, h.steps, List.cons_append, List.flatMap_cons, hentry, List.flatMap_append,
    List.flatMap_singleton, hfinal]
  exact (hbranches.append_right _).cons _

end Form.Arranged

/-- Keys that stand once keep the answers apart. -/
theorem Form.keepsAnswers_of_nodup {form : Form}
    (htexts : ∀ key ∈ form.answerKeys, ∃ s, key = .text s) (h : form.answerKeys.Nodup) :
    form.KeepsAnswers := by
  have hsymm : Std.Symm (Function.onFun List.Disjoint Step.answerKeys) := ⟨fun _ _ h => h.symm⟩
  rw [keepsAnswers_iff htexts]
  intro p hp q hq hne
  have hsteps : p ≠ q := fun heq => hne (congrArg Step.id heq)
  exact (List.nodup_flatMap.1 h).2.forall hp hq hsteps

/-! ### The keys under the stock settings -/

/-- No node below the root that has children has the id whose question goes by the name of the
entry question. -/
def OptionTree.SparesEntryKey (t : OptionTree) : Prop :=
  ∀ u ∈ preorderAll t.children, u.children ≠ [] → u.id ≠ .text "main"

section Stock

variable {t : OptionTree} {form : Form} {inner : Compiled (List Choice)} {n : Nat}

/-- The keys made of the ids of nodes. -/
def OptionTree.branchKeys (t : OptionTree) : List Value :=
  (branching t.children).map fun u => .text (branchFieldId u.id)

theorem entryKey_mem_iff (hids : OptionTree.Identified t.children) :
    .text "main_selection" ∈ t.branchKeys ↔ ¬ t.SparesEntryKey := by
  constructor
  · intro hmem hspares
    obtain ⟨u, hu, heq⟩ := List.mem_map.1 hmem
    obtain ⟨hbelow, hne⟩ := mem_branching.1 hu
    obtain ⟨i, hi⟩ := hids.texts u hbelow
    have hname : branchFieldId (.text i) = branchFieldId (.text "main") := by
      rw [← hi]
      exact Value.text.inj heq
    exact hspares u hbelow hne (hi.trans (congrArg Value.text (branchFieldId_inj hname)))
  · intro hspares
    simp only [OptionTree.SparesEntryKey, not_forall, not_not] at hspares
    obtain ⟨u, hbelow, hne, hid⟩ := hspares
    refine List.mem_map.2 ⟨u, mem_branching.2 ⟨hbelow, hne⟩, ?_⟩
    rw [hid]
    rfl

theorem stockFinalIds :
    stockFinalFields.map Field.id = ["name", "email", "phone", "message"].map .text := rfl

/-- The key of a node is none of those of the terminal step. -/
theorem disjoint_branchKeys_final (t : OptionTree) :
    List.Disjoint t.branchKeys (stockFinalFields.map Field.id) := by
  intro key hkey hfinal
  obtain ⟨u, -, rfl⟩ := List.mem_map.1 hkey
  rw [stockFinalIds, List.mem_map] at hfinal
  obtain ⟨name, hname, heq⟩ := hfinal
  have hline : '_' ∈ name.toList := by
    rw [Value.text.inj heq]
    simp [branchFieldId]
  have hplain : ∀ s ∈ ["name", "email", "phone", "message"], '_' ∉ s.toList := by decide
  exact hplain name hname hline

section Arranged

variable (harranged : form.Arranged {} t.data inner.result inner.steps)
  (hinner : compileChoices {} n t.children = .ok inner)
include harranged hinner

theorem stockKeys_perm :
    form.answerKeys.Perm
      (.text "main_selection" :: t.branchKeys ++ stockFinalFields.map Field.id) :=
  harranged.answerKeys_perm hinner (by decide)

theorem texts_stockKeys : ∀ key ∈ form.answerKeys, ∃ s, key = .text s := by
  intro key hkey
  rcases List.mem_append.1 ((stockKeys_perm harranged hinner).mem_iff.1 hkey) with hkey | hkey
  · rcases List.mem_cons.1 hkey with rfl | hkey
    · exact ⟨_, rfl⟩
    · obtain ⟨u, -, rfl⟩ := List.mem_map.1 hkey
      exact ⟨_, rfl⟩
  · rw [stockFinalIds] at hkey
    obtain ⟨s, -, rfl⟩ := List.mem_map.1 hkey
    exact ⟨s, rfl⟩

theorem nodup_stockKeys (hids : OptionTree.Identified t.children) (hspares : t.SparesEntryKey) :
    form.answerKeys.Nodup := by
  rw [(stockKeys_perm harranged hinner).nodup_iff, List.cons_append, List.nodup_cons,
    List.nodup_append', List.mem_append, not_or]
  refine ⟨⟨fun hmem => (entryKey_mem_iff hids).1 hmem hspares, by decide⟩,
    nodup_branchFieldIds hids, by decide, disjoint_branchKeys_final t⟩

/-- Where answers are kept apart, no node clashes with the entry question. -/
theorem sparesEntryKey_of_keeps (hkeeps : form.KeepsAnswers) : t.SparesEntryKey := by
  intro u hbelow hne hid
  obtain ⟨step, hstep, hstands⟩ :=
    (paired_choices hinner).exists_step (mem_branching.2 ⟨hbelow, hne⟩)
  have hentry : entryStep {} t.data inner.result ∈ form.steps := by
    rw [harranged.steps]
    exact List.mem_cons_self
  have hapart := (Form.keepsAnswers_iff (texts_stockKeys harranged hinner)).1 hkeeps _ hentry step
    (harranged.mem_branch hstep) (harranged.branch_ids hstep).1.symm
  have hkeys : step.answerKeys = [.text (branchFieldId u.id)] := by
    rw [Step.answerKeys_of_flat ((textual_choices hinner).2 step hstep).flat,
      hstands.fieldIds_eq hne]
  have hclash := hapart (.text "main_selection") List.mem_cons_self
  rw [hkeys, hid] at hclash
  exact hclash List.mem_cons_self

end Arranged

end Stock

/-- **When different questions have different keys.** Under the stock settings the keys of a
compiled form are distinct, and answers on one step leave those on the others, exactly if no node
with children below the root has the id `main`: the key of such a node would be that of the entry
question. -/
theorem answerKeys_nodup_iff {t : OptionTree} {form : Form}
    (hids : ∀ i ∈ t.idsBelow, ∃ s, i = .text s) (hdistinct : t.idsBelow.Nodup)
    (h : compile {} (some t) = .ok form) :
    (form.answerKeys.Nodup ↔ t.SparesEntryKey) ∧ (form.KeepsAnswers ↔ t.SparesEntryKey) := by
  have hidentified : OptionTree.Identified t.children :=
    ⟨fun u hu => hids u.id (List.mem_map_of_mem hu), hdistinct⟩
  obtain ⟨root, cs⟩ := t
  cases cs with
  | nil =>
    -- a form without steps asks nothing
    cases h
    have hspares : (OptionTree.node root []).SparesEntryKey := nofun
    exact ⟨iff_of_true .nil hspares, iff_of_true nofun hspares⟩
  | cons c cs =>
    obtain ⟨inner, hinner, harranged⟩ := Form.arranged_of_compile h
    have hnodup := nodup_stockKeys (t := .node root (c :: cs)) harranged hinner hidentified
    have hkeeps : form.answerKeys.Nodup → form.KeepsAnswers :=
      Form.keepsAnswers_of_nodup (texts_stockKeys (t := .node root (c :: cs)) harranged hinner)
    have hspares := sparesEntryKey_of_keeps (t := .node root (c :: cs)) harranged hinner
    exact ⟨⟨fun hn => hspares (hkeeps hn), hnodup⟩, hspares, fun hs => hkeeps (hnodup hs)⟩

/-- The hall of a house. -/
def hall : OptionTree := .node { id := "hall", label := "Hall" } []

/-- The main part of a house, under the id of a part. -/
def mainPart (id : Value) : OptionTree := .node { id, label := "Main" } [hall]

/-- A house whose main part has an id. -/
def house (id : Value) : OptionTree :=
  .node { id := "root", label := "House", kind := .root } [mainPart id]

/-- The form of a house. -/
def houseForm (id stepId : String) : Form :=
  { name := "House"
    description := "Find the best house for you"
    steps := [
      entryStep {} (house (.text id)).data
        [childChoice (mainPart (.text id)).data "main" stepId],
      branchStep 2 (mainPart (.text id)).data "Choose Main Type" "Select Main option"
        [childChoice hall.data "hall" "step_final"],
      finalStep {}]
    settings := { successMessage := "Thanks! We'll recommend the best house for you." } }

theorem compile_house :
    compile {} (some (house "part")) = .ok (houseForm "part" "step2_part") ∧
      compile {} (some (house "main")) = .ok (houseForm "main" "step2_main") :=
  ⟨by cbv, by cbv⟩

theorem answerKeys_house :
    (houseForm "part" "step2_part").answerKeys.Nodup ∧
      (houseForm "part" "step2_part").KeepsAnswers := by
  have hbelow : (house "part").idsBelow = ["part", "hall"].map .text := rfl
  have hspares : (house "part").SparesEntryKey := by
    simp [OptionTree.SparesEntryKey, house, mainPart, hall, preorderAll, OptionTree.preorder,
      OptionTree.children, OptionTree.id, OptionTree.data]
  obtain ⟨hnodup, hkeeps⟩ := answerKeys_nodup_iff (by simp [hbelow]) (by rw [hbelow]; decide)
    compile_house.1
  exact ⟨hnodup.2 hspares, hkeeps.2 hspares⟩

/-- The session in which the main part was picked on the first step. -/
def houseSession : Session :=
  (Session.select (houseForm "main" "step2_main") { current := .text entryStepId } "main_selection"
    "main").session

/-- A pick on the step of the main part takes the place of the answer that led there. -/
theorem main_overwritten :
    (house "main").ids.Nodup ∧
      compile {} (some (house "main")) = .ok (houseForm "main" "step2_main") ∧
      ¬ (houseForm "main" "step2_main").answerKeys.Nodup ∧
      (houseForm "main" "step2_main").Reached Request.isMove houseSession ∧
      houseSession.current = "step2_main" ∧ houseSession.answer "main_selection" = "main" ∧
      (houseSession.select (houseForm "main" "step2_main") "main_selection" "hall").session.answer
        "main_selection" = "hall" := by
  have hids : (house "main").ids = ["root", "main", "hall"].map Value.text := by cbv
  have hreached : (houseForm "main" "step2_main").Reached Request.isMove houseSession :=
    .next (r := .select "main_selection" "main") (.fresh rfl) rfl
  refine ⟨by rw [hids]; decide, compile_house.2, by decide, hreached, by cbv, by cbv, by cbv⟩

end BranchForm
