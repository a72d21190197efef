import BranchForm.Proofs.Compiled
import BranchForm.Proofs.FirstError
import BranchForm.Proofs.Trees
import Mathlib

/-!
# Trees that cannot be compiled

With the stock settings a tree whose labels are texts is refused for one reason only: the children of
some node are all without a label. The compiler looks at the children of a node before it compiles
them, so of several such nodes it blames the first one from the top.

* `Text.stripBlanks_eq_nil_iff` : a text of blanks is one of which nothing is left when the blanks at
  its ends are removed;
* `Text.exists_fill` : a template whose slots stand for a label as it is can be filled from every
  label; the stock templates are such;
* `OptionTree.Unlabelled` holds of the nodes that are blamed;
* `stopsAt_compileBranch` and `stopsAt_compileChoices` : compiling a node or its children stops at the
  first of these nodes, and at nothing else;
* `compile_stock` : so does the compilation of a tree, and any other tree becomes a form.
-/

namespace BranchForm

namespace Text

/-! ### Blank texts -/

theorem stripBlanks_eq_nil_iff {cs : List Char} :
    stripBlanks cs = [] ↔ cs.all isBlank = true := by
  have hstrip : stripBlanks cs = (cs.dropWhile isBlank).rdropWhile isBlank := rfl
  rw [hstrip, List.rdropWhile_eq_nil_iff, ← List.all_eq_true]
  constructor
  · intro h
    rw [← List.takeWhile_append_dropWhile (p := isBlank) (l := cs), List.all_append, h,
      List.all_takeWhile]
    rfl
  · intro h
    rw [List.all_eq_true] at h ⊢
    exact fun c hc => h c ((List.dropWhile_suffix isBlank).subset hc)

/-! ### Plain templates -/

/-- A part of a template that is a character or stands for a label as it is. -/
def Piece.isPlain : Piece → Bool
  | .char _ => true
  | .slot s => (s.path == "label".toList || s.path == "label_lower".toList) &&
      s.conversion.isNone && s.spec.isEmpty
  | .broken => false

/-- A name without marks is looked up as it is. -/
theorem item_of_named {names : Names} {name cs : List Char} (hname : name.all isPathName = true)
    (h : named names name = .ok cs) :
    ({ path := name, conversion := none, spec := [] } : Slot).item names = .ok (.text cs) := by
  have htake : name.takeWhile isPathName = name :=
    List.takeWhile_eq_self_iff.2 (List.all_eq_true.1 hname)
  have hdrop : name.dropWhile isPathName = [] :=
    List.dropWhile_eq_nil_iff.2 (List.all_eq_true.1 hname)
  simp only [Slot.item, htake, hdrop, h, pick, ok_bind]
  rfl

theorem named_label (label : String) :
    named (labelNames label) "label".toList = .ok label.toList := by
  have hnumber : numberOf "label".toList = none := by decide
  rw [named, hnumber]
  rfl

theorem named_label_lower (label : String) :
    named (labelNames label) "label_lower".toList = .ok (lower label).toList := by
  have hnumber : numberOf "label_lower".toList = none := by decide
  rw [named, hnumber]
  rfl

/-- A plain slot stands for a text, and asks for no form of it. -/
theorem exists_item {s : Slot} (h : Piece.isPlain (.slot s) = true) (label : String) :
    ∃ cs, s.item (labelNames label) = .ok (.text cs) ∧ s.spec = [] := by
  obtain ⟨path, conversion, spec⟩ := s
  simp only [Piece.isPlain, Bool.and_eq_true, Bool.or_eq_true, beq_iff_eq,
    Option.isNone_iff_eq_none, List.isEmpty_iff] at h
  obtain ⟨⟨rfl | rfl, rfl⟩, rfl⟩ := h
  · exact ⟨_, item_of_named (by decide) (named_label label), rfl⟩
  · exact ⟨_, item_of_named (by decide) (named_label_lower label), rfl⟩

/-- A template of plain parts can be filled from every label. -/
theorem exists_fill {template : String} (h : (pieces template.toList).all Piece.isPlain = true)
    (label : String) : ∃ s, fill template label = .ok s := by
  have hstops : StopsAt (fillWith (labelNames label) 2 template.toList)
      ((pieces template.toList).flatMap fun _ => []) := by
    rw [fillWith]
    refine (stopsAt_mapM fun p hp => ?_).map _
    have hplain := List.all_eq_true.1 h p hp
    cases p with
    | char c => exact stopsAt_ok [c]
    | broken => cases hplain
    | slot s =>
      obtain ⟨cs, hitem, hspec⟩ := exists_item hplain label
      exact ⟨cs, by simp [hitem, hspec, inForm, Item.shown]⟩
  obtain ⟨cs, hcs⟩ := hstops.exists_ok_iff.2 (by simp)
  exact ⟨String.ofList cs, by rw [fill, hcs]⟩

end Text

/-! ### Labels -/

/-- A label that is a text of which nothing is left without the blanks at its ends. -/
def Value.isBlank : Value → Bool
  | .text s => (Text.stripBlanks s.toList).isEmpty
  | _ => false

theorem isBlankLabel_text (s : String) :
    isBlankLabel (.text s) = .ok (Value.text s).isBlank := by
  have hblank : (Value.text s).isBlank = Text.isBlankText s := by
    rw [Bool.eq_iff_iff, Value.isBlank, List.isEmpty_iff, Text.stripBlanks_eq_nil_iff,
      Text.isBlankText]
  by_cases h : s = ""
  · subst h
    rfl
  · have htruthy : (Value.text s).truthy = true := by simpa [Value.truthy] using h
    rw [isBlankLabel, if_pos htruthy, hblank]
    rfl

namespace OptionTree

/-- The label of a node is a text. -/
def HasTextLabel (t : OptionTree) : Prop := ∃ s, t.label = .text s

/-- A node has children, and the labels of all of them are blank. -/
def Unlabelled (t : OptionTree) : Prop :=
  t.children ≠ [] ∧ ∀ c ∈ t.children, c.label.isBlank = true

instance : DecidablePred Unlabelled := fun t =>
  inferInstanceAs (Decidable (t.children ≠ [] ∧ ∀ c ∈ t.children, c.label.isBlank = true))

theorem exists_fillLabel {t : OptionTree} (ht : t.HasTextLabel) {template : String}
    (h : (Text.pieces template.toList).all Text.Piece.isPlain = true) :
    ∃ v, fillLabel (.text template) t.label = .ok v := by
  obtain ⟨label, hlabel⟩ := ht
  obtain ⟨s, hs⟩ := Text.exists_fill h label
  rw [hlabel]
  exact ⟨.text s, by rw [fillLabel, Value.asText, ok_bind, Value.asText, ok_bind, hs]; rfl⟩

/-- What is wrong with the nodes of some trees, from the top. -/
def unlabelledErrors (ts : List OptionTree) : List Error :=
  ((preorderAll ts).filter fun t => t.Unlabelled).map fun t => .unlabelledChildren t.id

theorem unlabelledErrors_cons (t : OptionTree) (ts : List OptionTree) :
    unlabelledErrors (t :: ts) = unlabelledErrors [t] ++ unlabelledErrors ts := by
  simp only [unlabelledErrors, preorderAll, List.filter_append, List.map_append, List.append_nil]

theorem unlabelledErrors_singleton (t : OptionTree) :
    unlabelledErrors [t] =
      (if t.Unlabelled then [.unlabelledChildren t.id] else []) ++ unlabelledErrors t.children := by
  simp only [unlabelledErrors, preorderAll, List.append_nil, preorder_eq_cons, List.filter_cons]
  by_cases h : t.Unlabelled <;> simp [h]

end OptionTree

open OptionTree

/-! ### Compiling -/

theorem allBlank_eq {ts : List OptionTree} (h : ∀ t ∈ ts, t.HasTextLabel) :
    allBlank ts = .ok (ts.all fun t => t.label.isBlank) := by
  induction ts with
  | nil => rfl
  | cons t ts ih =>
    obtain ⟨s, hs⟩ := h t List.mem_cons_self
    rw [allBlank, hs, isBlankLabel_text, ok_bind, ih fun u hu => h u (List.mem_cons_of_mem _ hu),
      List.all_cons, hs]
    cases (Value.text s).isBlank <;> rfl

/-- Children are refused if they are all without a label, and for nothing else. -/
theorem stopsAt_checkLabels {t : OptionTree} (h : ∀ u ∈ preorderAll t.children, u.HasTextLabel) :
    StopsAt (checkLabels t.id t.children)
      (if t.Unlabelled then [.unlabelledChildren t.id] else []) := by
  by_cases hnil : t.children = []
  · rw [if_neg fun hun => hun.1 hnil, checkLabels, hnil]
    exact stopsAt_ok ()
  · have hempty : ¬ t.children.isEmpty = true := fun he => hnil (List.isEmpty_iff.1 he)
    have hunlabelled : t.Unlabelled ↔ (t.children.all fun c => c.label.isBlank) = true := by
      rw [List.all_eq_true]
      exact and_iff_right hnil
    have hblank := allBlank_eq fun c hc => h c (mem_preorderAll_of_mem hc)
    simp only [checkLabels, if_neg hempty, hblank, ok_bind, hunlabelled]
    split
    · exact stopsAt_error _ []
    · exact stopsAt_ok ()

theorem exists_labelSlug {t : OptionTree} (h : t.HasTextLabel) :
    ∃ value, labelSlug t.label = .ok value := by
  obtain ⟨s, hs⟩ := h
  rw [hs]
  exact ⟨.text (Text.slug s), rfl⟩

mutual

theorem stopsAt_compileBranch (n : Nat) (t : OptionTree)
    (h : ∀ u ∈ t.preorder, u.HasTextLabel) :
    StopsAt (compileBranch {} n t) (unlabelledErrors [t]) := by
  match t with
  | .node d [] =>
    rw [unlabelledErrors_singleton, if_neg fun hun => hun.1 rfl]
    exact stopsAt_ok _
  | .node d (c :: cs) =>
    rw [preorder, List.forall_mem_cons] at h
    obtain ⟨htext, hbelow⟩ := h
    rw [compileBranch, unlabelledErrors_singleton]
    -- the titles are filled in before the children are looked at, but that cannot fail
    refine stopsAt_bind_of_ok (exists_fillLabel htext (by decide +kernel)) fun title _ => ?_
    refine stopsAt_bind_of_ok (exists_fillLabel htext (by decide +kernel)) fun label _ => ?_
    refine (stopsAt_checkLabels (t := .node d (c :: cs)) hbelow).bind fun _ _ => ?_
    exact (stopsAt_compileChoices (n + 1) (c :: cs) hbelow).map _

theorem stopsAt_compileChoices (n : Nat) (ts : List OptionTree)
    (h : ∀ u ∈ preorderAll ts, u.HasTextLabel) :
    StopsAt (compileChoices {} n ts) (unlabelledErrors ts) := by
  match ts with
  | [] => exact stopsAt_ok _
  | t :: ts =>
    rw [preorderAll, List.forall_mem_append] at h
    obtain ⟨hfirst, hothers⟩ := h
    have htext : t.HasTextLabel := hfirst t (preorder_eq_cons t ▸ List.mem_cons_self)
    rw [compileChoices, unlabelledErrors_cons]
    refine stopsAt_bind_of_ok (exists_labelSlug htext) fun value _ => ?_
    refine (stopsAt_compileBranch n t hfirst).bind fun branch _ => ?_
    exact (stopsAt_compileChoices branch.next ts hothers).map _

end

theorem stopsAt_compile {t : OptionTree} (h : ∀ u ∈ t.preorder, u.HasTextLabel) :
    StopsAt (compile {} (some t)) (unlabelledErrors [t]) := by
  rw [unlabelledErrors_singleton]
  match t with
  | .node d [] =>
    rw [if_neg fun hun => hun.1 rfl]
    exact stopsAt_ok _
  | .node d (c :: cs) =>
    rw [preorder, List.forall_mem_cons] at h
    obtain ⟨htext, hbelow⟩ := h
    rw [compile]
    refine (stopsAt_checkLabels (t := .node d (c :: cs)) hbelow).bind fun _ _ => ?_
    rw [← List.append_nil (unlabelledErrors _)]
    refine (stopsAt_compileChoices firstBranchNumber (c :: cs) hbelow).bind fun inner _ => ?_
    refine stopsAt_bind_of_ok (exists_fillLabel htext (by decide +kernel)) fun description _ => ?_
    refine stopsAt_bind_of_ok (exists_fillLabel htext (by decide +kernel)) fun message _ => ?_
    exact stopsAt_ok _

/-- With the stock settings a tree whose labels are texts is refused exactly if some node has
children that are all without a label. The error names the first such node from the top, there is no
other error, and every other tree becomes a form. -/
theorem compile_stock {t : OptionTree} (h : ∀ u ∈ t.preorder, u.HasTextLabel) :
    (∀ e, compile {} (some t) = .error e ↔
      ∃ u, t.preorder.find? (fun u => u.Unlabelled) = some u ∧ e = .unlabelledChildren u.id) ∧
    ((∃ form, compile {} (some t) = .ok form) ↔ ∀ u ∈ t.preorder, ¬ u.Unlabelled) := by
  have hstops := stopsAt_compile h
  have herrors : unlabelledErrors [t] = (t.preorder.filter fun u => u.Unlabelled).map fun u =>
      .unlabelledChildren u.id := by
    rw [unlabelledErrors, preorderAll, preorderAll, List.append_nil]
  constructor
  · intro e
    rw [hstops.error_iff, herrors, List.head?_map, List.head?_filter, Option.map_eq_some_iff]
    simp only [eq_comm]
  · rw [hstops.exists_ok_iff, herrors, List.map_eq_nil_iff, List.filter_eq_nil_iff]
    simp only [decide_eq_true_eq]

/-- A house with a chest without a name in its attic, and in the chest a drawer without one. -/
def unnamedFurniture : OptionTree :=
  .node { id := "house", label := "House", kind := .root }
    [.node { id := "hall", label := "Hall" } [],
      .node { id := "attic", label := "" }
        [.node { id := "chest", label := "  " } [.node { id := "drawer", label := "" } []]]]

theorem compile_unnamedFurniture :
    (∀ u ∈ unnamedFurniture.preorder, u.HasTextLabel) ∧
      compile {} (some unnamedFurniture) = .error (.unlabelledChildren "attic") := by
  have hlabels : ∀ u ∈ unnamedFurniture.preorder, u.HasTextLabel := by
    simp [unnamedFurniture, preorder, preorderAll, HasTextLabel, label, data]
  exact ⟨hlabels, ((compile_stock hlabels).1 _).2 ⟨_, by cbv, rfl⟩⟩

end BranchForm
