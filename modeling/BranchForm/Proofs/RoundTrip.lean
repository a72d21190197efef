import BranchForm.Proofs.Compiled
import BranchForm.Proofs.Following
import BranchForm.Proofs.Trees
import Mathlib

/-!
# Compiling and reopening

Reopening takes back what compiling did, up to what a step graph does not keep, and nothing that
reopening has once made is lost by compiling it again.

* `repeatedIds_cons_texts` : which ids repeat is found out whenever they are texts;
* `reopen_branch` and `reopen_choices` follow the choices that were compiled from a tree. The
  numbers of the branch steps carry the induction: the steps on the way and those already in the
  tree have lower numbers than the steps to come, so none of them is met a second time;
* `Form.Arranged.reopen_eq` and `Form.reopen_eq_of_compile` : reopening a compiled form is looking for
  repeated ids in the normal form of the tree;
* `openForm_of_compile` and `openForm_compile_of_openForm` : the round trip from a tree, and the
  fixed point from any form.
-/

namespace BranchForm

/-! ### Repeated ids -/

theorem foldl_distinct_texts (ss seen : List String) :
    ∃ es : List String, (ss.map Value.text).foldl
        (fun seen i => if i.within seen then seen else seen ++ [i]) (seen.map .text) =
        es.map .text ∧ ∀ s, s ∈ es ↔ s ∈ seen ∨ s ∈ ss := by
  induction ss generalizing seen with
  | nil => exact ⟨seen, rfl, by simp⟩
  | cons s ss ih =>
    simp only [List.map_cons, List.foldl_cons, Value.within_texts_iff]
    by_cases hs : s ∈ seen
    · obtain ⟨es, hes, hmem⟩ := ih seen
      refine ⟨es, by simpa [hs] using hes, fun u => ?_⟩
      rw [hmem, List.mem_cons]
      exact ⟨fun h => h.imp_right .inr, fun h => h.elim .inl (·.elim (fun he => .inl (he ▸ hs)) .inr)⟩
    · obtain ⟨es, hes, hmem⟩ := ih (seen ++ [s])
      refine ⟨es, by simpa [hs] using hes, fun u => ?_⟩
      rw [hmem, List.mem_append, List.mem_singleton, List.mem_cons, or_assoc]

/-- Where every value that agrees with several is a text, the repeated ids are the texts that occur
more than once. -/
theorem repeatedIds_of_texts {ids : List Value}
    (h : ∀ i ∈ ids, 1 < (ids.filter (·.agrees i)).length → ∃ s, i = .text s) :
    ∃ ss, repeatedIds ids = .ok ss ∧ ∀ s, s ∈ ss ↔ 1 < ids.count (.text s) := by
  obtain ⟨fs, hfs⟩ : ∃ fs : List String,
      (ids.filter fun i => decide ((ids.filter (·.agrees i)).length > 1)) = fs.map .text := by
    refine Value.exists_texts fun i hi => ?_
    rw [List.mem_filter, decide_eq_true_eq] at hi
    exact h i hi.1 hi.2
  have hmemfs : ∀ s, s ∈ fs ↔ 1 < ids.count (.text s) := by
    intro s
    have hiff : Value.text s ∈ fs.map Value.text ↔ s ∈ fs := by simp
    rw [← hiff, ← hfs, List.mem_filter, decide_eq_true_eq, Value.length_filter_agrees_text]
    exact ⟨fun hs => hs.2, fun hs => ⟨List.count_pos_iff.1 (Nat.lt_of_succ_lt hs), hs⟩⟩
  obtain ⟨es, hes, hmemes⟩ := foldl_distinct_texts fs []
  obtain ⟨us, hus, hperm⟩ := Value.sort?_texts es
  refine ⟨us, ?_, fun s => ?_⟩
  · have hkeys : (fs.map Value.text).all Value.isKey = true := by simp [Value.isKey]
    rw [List.map_nil] at hes
    simp only [repeatedIds, hfs, hkeys, ↓reduceIte]
    rw [hes, Value.sorted, hus]
    exact Value.asTexts_texts us
  · rw [hperm.mem_iff, hmemes, ← hmemfs]
    simp

/-- Below a root of any id, texts repeat or are all distinct, and it is found out which. -/
theorem repeatedIds_cons_texts (rootId : Value) (ss : List String) :
    ∃ out, repeatedIds (rootId :: ss.map .text) = .ok out ∧
      (out = [] ↔ (rootId :: ss.map Value.text).Nodup) := by
  have hother : (∀ s, rootId ≠ .text s) → ∀ i ∈ ss.map Value.text, i.agrees rootId = false := by
    intro hroot i hi
    obtain ⟨s, -, rfl⟩ := List.mem_map.1 hi
    rw [Bool.eq_false_iff, Ne, Value.text_agrees_iff]
    exact hroot s
  have htext : ∀ i ∈ rootId :: ss.map Value.text,
      1 < ((rootId :: ss.map Value.text).filter (·.agrees i)).length → ∃ s, i = .text s := by
    intro i hi hlen
    rcases List.mem_cons.1 hi with rfl | hi
    · by_contra hroot
      -- a root id that is no text agrees with no other id, so it cannot repeat
      have hnil := List.filter_eq_nil_iff.2 fun j hj =>
        Bool.eq_false_iff.1 (hother (fun s he => hroot ⟨s, he⟩) j hj)
      rw [List.filter_cons, hnil] at hlen
      split at hlen <;> simp at hlen
    · obtain ⟨s, -, rfl⟩ := List.mem_map.1 hi
      exact ⟨s, rfl⟩
  obtain ⟨out, hout, hmem⟩ := repeatedIds_of_texts htext
  refine ⟨out, hout, ?_⟩
  rw [List.eq_nil_iff_forall_not_mem, List.nodup_iff_count_le_one]
  simp only [hmem, Nat.not_lt]
  refine ⟨fun h v => ?_, fun h s => h _⟩
  by_cases hv : ∃ s, v = .text s
  · obtain ⟨s, rfl⟩ := hv
    exact h s
  · have hzero : (ss.map Value.text).count v = 0 := by
      rw [List.count_eq_zero]
      intro hmem
      obtain ⟨s, -, rfl⟩ := List.mem_map.1 hmem
      exact hv ⟨s, rfl⟩
    rw [List.count_cons, hzero]
    split <;> omega

/-! ### Reopening what was compiled -/

variable {form : Form}

/-- No step of a path has a number from `n` on. -/
def Avoids (n : Nat) (path : List String) : Prop :=
  ∀ k nodeId, n ≤ k → branchStepId k nodeId ∉ path

theorem Avoids.mono {m n : Nat} {path : List String} (h : Avoids m path) (hmn : m ≤ n) :
    Avoids n path :=
  fun k nodeId hk => h k nodeId (Nat.le_trans hmn hk)

/-- Once the step with the next number is taken, the numbers behind it are left. -/
theorem Avoids.cons {n : Nat} {path : List String} (h : Avoids n path) (nodeId : Value) :
    Avoids (n + 1) (branchStepId n nodeId :: path) := by
  intro k other hk hmem
  rcases List.mem_cons.1 hmem with heq | hmem
  · have hkn : k = n := branchStepId_number heq
    omega
  · exact h k other (Nat.le_of_succ_le hk) hmem

theorem avoids_nil (n : Nat) : Avoids n [] :=
  fun _ _ _ => List.not_mem_nil

theorem avoids_entry (n : Nat) : Avoids n [entryStepId] := by
  intro k nodeId _ hmem
  exact branchStepId_ne_entry k nodeId (List.mem_singleton.1 hmem)

theorem image_back (image : Value) : (image.orElse (.text "")).orElse .null = image.orElse .null :=
  Value.orElse_orElse_of_absent rfl image .null

mutual

/-- The choice compiled from a node is reopened as the normal form of the node. -/
theorem reopen_branch {settings : CompileSettings} {n : Nat} {t : OptionTree} (value : Value)
    {branch : Compiled String} {path expanded : List String} (hd : form.stepIds.Nodup)
    (h : compileBranch settings n t = .ok branch) (hsub : branch.steps ⊆ form.steps)
    (hpath : Avoids n path) (hexpanded : Avoids n expanded) :
    ∃ after, reopenChoice form path expanded (childChoice t.data value branch.result) =
      .ok (t.normal, after) ∧ Avoids branch.next after := by
  match t with
  | .node d [] =>
    cases h
    refine ⟨expanded, ?_, hexpanded⟩
    rw [reopenChoice_of_stop fun hon => hon.2 (target_childChoice _ _ _)]
    simp [choiceNode, childChoice, OptionTree.normal, OptionTree.normalAll, OptionTree.data,
      image_back]
  | .node d (c :: cs) =>
    obtain ⟨title, label, inner, -, -, -, hinner, rfl⟩ := compileBranch_inv h
    obtain ⟨after, hafter, havoids⟩ := reopen_choices hd hinner
      (fun s hs => hsub (List.mem_append_left _ hs)) (hpath.cons d.id) (hexpanded.cons d.id)
    refine ⟨after, ?_, havoids⟩
    have hmem : branchStep n d title label inner.result ∈ form.steps :=
      hsub (List.mem_append_right _ (List.mem_singleton_self _))
    have htarget := target_childChoice d value (branchStepId n d.id)
    have hon : (childChoice d value (branchStepId n d.id)).LeadsOn := by
      rw [Choice.leadsOn_text htarget, not_or]
      exact ⟨branchStepId_ne_empty n d.id, branchStepId_ne_final n d.id⟩
    have hnext := Form.next?_of_mem hd hmem hon htarget
    have hlead : (branchStep n d title label inner.result).leadChoices.isEmpty = false :=
      List.isEmpty_eq_false_iff.2 (choices_ne_nil hinner)
    -- the number of the step is new, so the step stands neither on the path nor in the tree yet
    have hoff : (branchStep n d title label inner.result).id ∉ path := hpath n d.id (Nat.le_refl n)
    have hnew : (branchStep n d title label inner.result).id ∉ expanded :=
      hexpanded n d.id (Nat.le_refl n)
    rw [OptionTree.data, reopenChoice_of_next? hnext, if_neg hoff, hlead, if_neg Bool.false_ne_true,
      if_neg hnew]
    have hbelow : reopenChoices form ((branchStep n d title label inner.result).id :: path)
        ((branchStep n d title label inner.result).id :: expanded)
        (branchStep n d title label inner.result).leadChoices =
          .ok (OptionTree.normalAll (c :: cs), after) := hafter
    rw [hbelow]
    have hmultiple : (branchStep n d title label inner.result).leadMultiple = d.multiple.truthy := by
      cases hm : d.multiple.truthy <;>
        simp [Step.leadMultiple, branchStep, branchField, Field.question, hm, FieldKind.isMultiple]
    simp [choiceNode, childChoice, OptionTree.normal, image_back, hmultiple]

/-- The choices compiled from the children of a node are reopened as their normal forms. -/
theorem reopen_choices {settings : CompileSettings} {n : Nat} {ts : List OptionTree}
    {out : Compiled (List Choice)} {path expanded : List String} (hd : form.stepIds.Nodup)
    (h : compileChoices settings n ts = .ok out) (hsub : out.steps ⊆ form.steps)
    (hpath : Avoids n path) (hexpanded : Avoids n expanded) :
    ∃ after, reopenChoices form path expanded out.result =
      .ok (OptionTree.normalAll ts, after) ∧ Avoids out.next after := by
  match ts with
  | [] =>
    cases h
    exact ⟨expanded, by rw [reopenChoices, OptionTree.normalAll], hexpanded⟩
  | t :: ts =>
    obtain ⟨value, branch, others, -, hbranch, hothers, rfl⟩ := compileChoices_inv h
    obtain ⟨between, hfirst, hbetween⟩ := reopen_branch value hd hbranch
      (fun s hs => hsub (List.mem_append_left _ hs)) hpath hexpanded
    obtain ⟨after, hrest, hafter⟩ := reopen_choices hd hothers
      (fun s hs => hsub (List.mem_append_right _ hs)) (hpath.mono (laid_branch hbranch).1.le) hbetween
    exact ⟨after, reopenChoices_cons hfirst hrest, hafter⟩

end

/-- Reopening a form arranged around the choices and steps of a tree comes down to looking for
repeated ids: if there are none the tree is back in its normal form, under the root's new id. -/
theorem Form.Arranged.reopen_eq {settings arrangement : CompileSettings} {root : Node}
    {c : OptionTree} {cs : List OptionTree} {inner : Compiled (List Choice)}
    (harranged : form.Arranged arrangement root inner.result inner.steps)
    (hinner : compileChoices settings firstBranchNumber (c :: cs) = .ok inner) (rootId : Value) :
    form.reopen rootId =
      match repeatedIds (rootId :: (OptionTree.node root (c :: cs)).idsBelow) with
      | .error e => .error e
      | .ok [] => .ok (some (.normalRoot rootId (.node root (c :: cs))))
      | .ok ids => .error (.malformed (.repeatedIds ids)) := by
  obtain ⟨after, hafter, -⟩ := reopen_choices harranged.nodup_stepIds hinner
    (fun s => harranged.mem_branch) (avoids_entry _) (avoids_nil _)
  have hids := OptionTree.ids_normalRoot rootId (.node root (c :: cs))
  rw [OptionTree.normalRoot] at hids
  have hlead : (entryStep arrangement root inner.result).leadChoices = inner.result := rfl
  rw [Form.reopen_of_entry harranged.entry?_eq (hlead ▸ choices_ne_nil hinner), hlead, hafter]
  cases hrepeated : repeatedIds (rootId :: (OptionTree.node root (c :: cs)).idsBelow) with
  | error e => simp only [harranged.name, hids, hrepeated]
  | ok ids =>
    cases ids with
    | nil => simp only [harranged.name, hids, hrepeated, OptionTree.normalRoot]
    | cons i is => simp only [harranged.name, hids, hrepeated]

/-- Reopening the form of a tree comes down to looking for repeated ids. -/
theorem Form.reopen_eq_of_compile {settings : CompileSettings} {root : Node} {c : OptionTree}
    {cs : List OptionTree} (h : compile settings (some (.node root (c :: cs))) = .ok form)
    (rootId : Value) :
    form.reopen rootId =
      match repeatedIds (rootId :: (OptionTree.node root (c :: cs)).idsBelow) with
      | .error e => .error e
      | .ok [] => .ok (some (.normalRoot rootId (.node root (c :: cs))))
      | .ok ids => .error (.malformed (.repeatedIds ids)) := by
  obtain ⟨inner, hinner, harranged⟩ := arranged_of_compile h
  exact harranged.reopen_eq hinner rootId

/-! ### Trees that come back are in normal form -/

theorem normal_choiceNode {c : Choice} {multiple : Bool} {children : List OptionTree}
    (hflag : multiple = true → children ≠ []) (hchildren : OptionTree.normalAll children = children) :
    (choiceNode c multiple children).normal = choiceNode c multiple children := by
  have hmultiple : (multiple && !children.isEmpty) = multiple := by
    cases multiple with
    | false => rfl
    | true => simpa using hflag rfl
  simp only [choiceNode, OptionTree.normal, hchildren, Value.orElse_orElse, Value.truthy, hmultiple]

theorem reopenChoices_ne_nil {path expanded after : List String} {cs : List Choice}
    {ts : List OptionTree} (h : reopenChoices form path expanded cs = .ok (ts, after))
    (hcs : cs ≠ []) : ts ≠ [] := by
  obtain ⟨c, cs, rfl⟩ := List.exists_cons_of_ne_nil hcs
  obtain ⟨t, between, us, -, -, rfl⟩ := reopenChoices_inv h
  exact List.cons_ne_nil t us

mutual

/-- Whatever the form, a choice becomes a node in normal form. -/
theorem normal_of_reopenChoice {path expanded after : List String} {c : Choice} {t : OptionTree}
    (h : reopenChoice form path expanded c = .ok (t, after)) : t.normal = t := by
  match t with
  | .node d children =>
    rcases (reopenChoice_inv h).2 with ⟨hleaf, -⟩ | ⟨s, below, -, -, hlead, hbelow, hnode⟩
    · rw [hleaf]
      exact normal_choiceNode nofun rfl
    · have hchildren : children = below := (OptionTree.node.inj hnode).2
      rw [← hchildren] at hbelow hnode
      rw [hnode]
      exact normal_choiceNode (fun _ => reopenChoices_ne_nil hbelow hlead)
        (normalAll_of_reopenChoices hbelow)

theorem normalAll_of_reopenChoices {path expanded after : List String} {cs : List Choice}
    {ts : List OptionTree} (h : reopenChoices form path expanded cs = .ok (ts, after)) :
    OptionTree.normalAll ts = ts := by
  match ts with
  | [] => rfl
  | t :: ts =>
    obtain ⟨c, rest, between, -, ht, hts⟩ := exists_of_reopenChoices_cons h
    rw [OptionTree.normalAll, normal_of_reopenChoice ht, normalAll_of_reopenChoices hts]

end

/-- A form is reopened as a tree by following the choices of its entry step, of which there must be
some, into a tree that repeats no id. -/
theorem Form.exists_entry_of_reopen {rootId : Value} {t : OptionTree}
    (h : form.reopen rootId = .ok (some t)) :
    ∃ entry children after, form.entry? = some entry ∧ entry.leadChoices ≠ [] ∧
      reopenChoices form [entryStepId] [] entry.leadChoices = .ok (children, after) ∧
      t = .node { id := rootId, label := form.name.orElse defaultRootLabel, kind := .root } children ∧
      repeatedIds t.ids = .ok [] := by
  simp only [Form.reopen] at h
  -- of all the ways out only one answers with a tree
  split at h
  · cases h
  · split at h
    · cases h
    · rename_i entry hentry
      split at h
      · cases h
      · rename_i hlead
        split at h
        · cases h
        · rename_i children after hchildren
          split at h
          · cases h
          · rename_i hrepeated
            cases h
            have hne : entry.leadChoices ≠ [] := fun hnil => hlead (by rw [hnil]; rfl)
            exact ⟨entry, children, after, hentry, hne, hchildren, rfl, hrepeated⟩
          · cases h

/-- A tree that a form is reopened as has children, is in normal form, and repeats no id. -/
theorem Form.reopen_inv {rootId : Value} {t : OptionTree} (h : form.reopen rootId = .ok (some t)) :
    ∃ root c cs, t = .node root (c :: cs) ∧ t.normalRoot rootId = t ∧ repeatedIds t.ids = .ok [] := by
  obtain ⟨entry, children, after, -, hlead, hchildren, rfl, hrepeated⟩ :=
    Form.exists_entry_of_reopen h
  obtain ⟨c, cs, rfl⟩ := List.exists_cons_of_ne_nil (reopenChoices_ne_nil hchildren hlead)
  refine ⟨_, c, cs, rfl, ?_, hrepeated⟩
  rw [OptionTree.normalRoot, Value.orElse_orElse, normalAll_of_reopenChoices hchildren]

/-! ### Round trip and fixed point -/

/-- A strict caller is told what came out. -/
theorem outcome_openOutcome_strict (r : Except Error (Option OptionTree)) :
    (openOutcome true r).outcome = r := by
  unfold openOutcome
  split <;> rfl

/-- A strict caller is told what reopening came to. -/
theorem outcome_openForm_strict (form : Form) (rootId : Value) :
    (openForm form rootId true).outcome = form.reopen rootId :=
  outcome_openOutcome_strict _

/-- **Reopening undoes compiling.** If the root's new id and the ids below the root are distinct,
the tree comes back in its normal form; if they are not, the form counts as malformed: a strict
caller is told so, any other gets an empty draft and a warning. -/
theorem openForm_of_compile {settings : CompileSettings} {t : OptionTree}
    (hchildren : t.children ≠ []) (hids : ∀ i ∈ t.idsBelow, ∃ s, i = .text s)
    (h : compile settings (some t) = .ok form) (rootId : Value) :
    ((rootId :: t.idsBelow).Nodup → ∀ strict,
      openForm form rootId strict = { outcome := .ok (some (t.normalRoot rootId)) }) ∧
    (¬ (rootId :: t.idsBelow).Nodup → ∃ ids,
      openForm form rootId true = { outcome := .error (.malformed (.repeatedIds ids)) } ∧
      openForm form rootId false =
        { outcome := .ok none, warnings := [.openedEmpty (.repeatedIds ids)] }) := by
  obtain ⟨root, cs⟩ := t
  obtain ⟨c, cs, rfl⟩ := List.exists_cons_of_ne_nil hchildren
  obtain ⟨ss, hss⟩ := Value.exists_texts hids
  obtain ⟨out, hout, hnil⟩ := repeatedIds_cons_texts rootId ss
  rw [← hss] at hout hnil
  have hreopen := Form.reopen_eq_of_compile h rootId
  rw [hout] at hreopen
  constructor
  · intro hdistinct strict
    rw [hnil.2 hdistinct] at hreopen
    rw [openForm, hreopen]
    rfl
  · intro hrepeated
    obtain ⟨i, is, rfl⟩ := List.exists_cons_of_ne_nil (mt hnil.1 hrepeated)
    refine ⟨i :: is, ?_, ?_⟩
    · rw [openForm, hreopen]
      rfl
    · rw [openForm, hreopen]
      rfl

/-- A tree that says more than a step graph keeps: flags on the root and on a leaf, an image of the
root, an empty image, and a root without a label. -/
def showroom : OptionTree :=
  .node { id := "root", label := "", kind := .root, multiple := .bool true, image := "root.png" }
    [.node { id := "vehicles", label := "Vehicles", multiple := .bool true, image := "" }
      [.node { id := "car", label := "Car", multiple := .bool true, image := "car.png" } [],
        .node { id := "bike", label := "Bike", expanded := .bool false } []]]

theorem openForm_showroom :
    ∃ form, compile {} (some showroom) = .ok form ∧
      openForm form "root-1" true = { outcome := .ok (some
        (.node { id := "root-1", label := "Form", kind := .root }
          [.node { id := "vehicles", label := "Vehicles", multiple := .bool true }
            [.node { id := "car", label := "Car", image := "car.png" } [],
              .node { id := "bike", label := "Bike" } []]])) } ∧
      ∃ ids, openForm form "car" true = { outcome := .error (.malformed (.repeatedIds ids)) } ∧
        openForm form "car" false =
          { outcome := .ok none, warnings := [.openedEmpty (.repeatedIds ids)] } := by
  obtain ⟨form, hform⟩ : ∃ form, compile {} (some showroom) = .ok form := ⟨_, by cbv⟩
  have hchildren : showroom.children ≠ [] := List.cons_ne_nil _ _
  have hids : ∀ i ∈ showroom.idsBelow, ∃ s, i = .text s := by
    simp [showroom, OptionTree.idsBelow, OptionTree.children, OptionTree.preorderAll,
      OptionTree.preorder, OptionTree.id, OptionTree.data]
  refine ⟨form, hform, ?_, ?_⟩
  · exact (openForm_of_compile hchildren hids hform "root-1").1 (by decide) true
  · exact (openForm_of_compile hchildren hids hform "car").2 (by decide)

/-- **Opening reaches a fixed point.** Whatever form a tree was reopened from, the form compiled
from that tree is reopened as the same tree. -/
theorem openForm_compile_of_openForm {form' : Form} {settings : CompileSettings} {rootId : Value}
    {t : OptionTree} (h : (openForm form rootId true).outcome = .ok (some t))
    (hcompile : compile settings (some t) = .ok form') (strict : Bool) :
    openForm form' rootId strict = { outcome := .ok (some t) } := by
  have hopened : form.reopen rootId = .ok (some t) := by
    rw [← h, outcome_openForm_strict]
  obtain ⟨root, c, cs, rfl, hnormal, hrepeated⟩ := Form.reopen_inv hopened
  have hids := OptionTree.ids_normalRoot rootId (.node root (c :: cs))
  rw [hnormal] at hids
  have hreopen := Form.reopen_eq_of_compile hcompile rootId
  rw [← hids, hrepeated, hnormal] at hreopen
  rw [openForm, hreopen]
  rfl

/-- A form made by hand: targets of both kinds, a step without choices that two choices lead to, and
a step that no choice leads to. -/
def handmade : Form :=
  { name := ""
    steps := [
      { id := "step1", title := "Start"
        fields := [.mk { id := "start", kind := .dropdown, label := "Start", choices := [
          { id := "a", label := "A", value := "a", nextField := "lost", nextStep := "many" },
          { id := "b", label := "B", value := "b", nextField := "note", image := "b.png" },
          { id := "c", label := "C", value := "c", nextField := "note" }] } []] },
      { id := "many", title := "Many"
        fields := [.mk { id := "many", kind := .checkboxes, label := "Many", choices := [
          { id := "d", label := "D", value := "d" }] } []] },
      { id := "note", title := "Note" },
      { id := "lost", title := "Lost" }] }

theorem openForm_compile_handmade :
    ∃ t form, (openForm handmade "r" true).outcome = .ok (some t) ∧
      compile {} (some t) = .ok form ∧ openForm form "r" true = { outcome := .ok (some t) } := by
  obtain ⟨t, ht⟩ : ∃ t, (openForm handmade "r" true).outcome = .ok (some t) ∧
      ∃ form, compile {} (some t) = .ok form := ⟨_, by cbv, _, by cbv⟩
  obtain ⟨form, hform⟩ := ht.2
  exact ⟨t, form, ht.1, hform, openForm_compile_of_openForm ht.1 hform true⟩

end BranchForm
