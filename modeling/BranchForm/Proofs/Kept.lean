import BranchForm.Proofs.RoundTrip

/-!
# What a form keeps of a tree

Two trees are compiled into one form exactly if they differ in nothing but what a form has no place
for: the root's id, image and flag, the roles of nodes, what the editor shows, the flags of leaves,
and which of the values that count as absent stands for no image.

* `OptionTree.Alike` says that two trees differ in nothing else; it is decidable, because on options
  it is equality of normal forms (`OptionTree.alikeOptions_iff`);
* `compileChoices_congr` : options that are alike are compiled alike, from any number on and to the
  same error if they cannot be compiled;
* `alike_of_compile` : the way back. Reopening finds the normal forms of the options in the form
  alone, before it looks for repeated ids, so trees with repeated ids are covered;
* `same_form_iff_alike` puts the two together.
-/

namespace BranchForm

namespace OptionTree

mutual

/-- Two options that differ at most in what a form does not keep. -/
def AlikeOption : OptionTree → OptionTree → Prop
  | .node d cs, .node e ds =>
    d.id = e.id ∧ d.label = e.label ∧ d.image.orElse .null = e.image.orElse .null ∧
      (cs ≠ [] → d.multiple.truthy = e.multiple.truthy) ∧ AlikeOptions cs ds

/-- As many options on both sides, which differ pairwise at most in what a form does not keep. -/
def AlikeOptions : List OptionTree → List OptionTree → Prop
  | [], [] => True
  | t :: ts, u :: us => AlikeOption t u ∧ AlikeOptions ts us
  | [], _ :: _ | _ :: _, [] => False

end

/-- Two trees that differ at most in what a form does not keep; of the root it keeps the label. -/
def Alike (t u : OptionTree) : Prop :=
  t.label = u.label ∧ AlikeOptions t.children u.children

/-! ### Alike options have one normal form -/

theorem isEmpty_normalAll (ts : List OptionTree) : (normalAll ts).isEmpty = ts.isEmpty := by
  cases ts <;> rfl

mutual

theorem alikeOption_iff (t u : OptionTree) : AlikeOption t u ↔ t.normal = u.normal := by
  match t, u with
  | .node d cs, .node e ds =>
    simp only [AlikeOption, normal, alikeOptions_iff cs ds, node.injEq, Node.mk.injEq,
      Value.bool.injEq, true_and, and_true]
    have hempty (h : normalAll cs = normalAll ds) : cs.isEmpty = ds.isEmpty := by
      rw [← isEmpty_normalAll, h, isEmpty_normalAll]
    constructor
    · rintro ⟨hid, hlabel, himage, hmultiple, hbelow⟩
      refine ⟨⟨hid, hlabel, ?_, himage⟩, hbelow⟩
      rw [← hempty hbelow]
      cases cs with
      | nil => simp
      | cons c cs => rw [hmultiple (List.cons_ne_nil c cs)]
    · rintro ⟨⟨hid, hlabel, hmultiple, himage⟩, hbelow⟩
      refine ⟨hid, hlabel, himage, fun hcs => ?_, hbelow⟩
      rw [← hempty hbelow, List.isEmpty_eq_false_iff.2 hcs] at hmultiple
      simpa using hmultiple

theorem alikeOptions_iff (ts us : List OptionTree) :
    AlikeOptions ts us ↔ normalAll ts = normalAll us := by
  match ts, us with
  | [], [] => simp [AlikeOptions]
  | [], u :: us => simp [AlikeOptions, normalAll]
  | t :: ts, [] => simp [AlikeOptions, normalAll]
  | t :: ts, u :: us =>
    rw [AlikeOptions, normalAll, normalAll, List.cons.injEq, alikeOption_iff t u,
      alikeOptions_iff ts us]

end

theorem Alike.symm {t u : OptionTree} (h : t.Alike u) : u.Alike t :=
  ⟨h.1.symm, (alikeOptions_iff _ _).2 ((alikeOptions_iff _ _).1 h.2).symm⟩

instance (t u : OptionTree) : Decidable (t.Alike u) :=
  decidable_of_iff (t.label = u.label ∧ normalAll t.children = normalAll u.children)
    (and_congr_right fun _ => (alikeOptions_iff _ _).symm)

end OptionTree

open OptionTree

/-! ### Alike options are compiled alike -/

theorem map_label_of_alike {ts us : List OptionTree} (h : AlikeOptions ts us) :
    ts.map label = us.map label := by
  match ts, us with
  | [], [] => rfl
  | [], _ :: _ | _ :: _, [] => exact h.elim
  | .node d cs :: ts, .node e ds :: us =>
    rw [List.map_cons, List.map_cons, map_label_of_alike h.2]
    exact congrArg (· :: _) h.1.2.1

/-- Whether labels count as missing depends on the labels only. -/
theorem allBlank_congr {ts us : List OptionTree} (h : ts.map label = us.map label) :
    allBlank ts = allBlank us := by
  induction ts generalizing us with
  | nil => rw [List.map_eq_nil_iff.1 h.symm]
  | cons t ts ih =>
    cases us with
    | nil => cases h
    | cons u us =>
      obtain ⟨hlabel, hlabels⟩ := List.cons.inj h
      rw [allBlank, allBlank, hlabel, ih hlabels]

theorem checkLabels_congr (nodeId : Value) {ts us : List OptionTree} (h : AlikeOptions ts us) :
    checkLabels nodeId ts = checkLabels nodeId us := by
  have hlabels := map_label_of_alike h
  have hempty : ts.isEmpty = us.isEmpty := by
    rw [← List.isEmpty_map, hlabels, List.isEmpty_map]
  rw [checkLabels, checkLabels, hempty, allBlank_congr hlabels]

mutual

theorem compileBranch_congr {t u : OptionTree} (settings : CompileSettings) (n : Nat)
    (h : AlikeOption t u) : compileBranch settings n t = compileBranch settings n u := by
  match t, u with
  | .node d [], .node e [] => rfl
  | .node d [], .node e (_ :: _) => exact h.2.2.2.2.elim
  | .node d (_ :: _), .node e [] => exact h.2.2.2.2.elim
  | .node d (c :: cs), .node e (f :: fs) =>
    obtain ⟨hid, hlabel, -, hmultiple, hbelow⟩ := h
    have hfield (label : Value) (choices : List Choice) :
        branchField d label choices = branchField e label choices := by
      rw [branchField, branchField, hid, hmultiple (List.cons_ne_nil _ _)]
    simp only [compileBranch, hid, hlabel, hfield, checkLabels_congr e.id hbelow,
      compileChoices_congr settings (n + 1) hbelow]

/-- **Alike options are compiled alike**, into the same choices and steps or to the same error. -/
theorem compileChoices_congr {ts us : List OptionTree} (settings : CompileSettings) (n : Nat)
    (h : AlikeOptions ts us) : compileChoices settings n ts = compileChoices settings n us := by
  match ts, us with
  | [], [] => rfl
  | [], _ :: _ | _ :: _, [] => exact h.elim
  | .node d cs :: ts, .node e ds :: us =>
    obtain ⟨hfirst, hothers⟩ := h
    obtain ⟨hid, hlabel, himage, -, -⟩ := id hfirst
    have hempty : d.image.orElse (.text "") = e.image.orElse (.text "") := by
      have habsent : Value.null.truthy = false := rfl
      rw [← Value.orElse_orElse_of_absent habsent, himage, Value.orElse_orElse_of_absent habsent]
    have hchoice (value : Value) (target : String) :
        childChoice d value target = childChoice e value target := by
      rw [childChoice, childChoice, hid, hlabel, hempty]
    simp only [compileChoices, OptionTree.label, data, hlabel, hchoice,
      compileBranch_congr settings n hfirst, compileChoices_congr settings _ hothers]

end

/-- Labels that are refused are refused under any id. -/
theorem checkLabels_ok_iff {nodeId : Value} {ts : List OptionTree} :
    checkLabels nodeId ts = .ok () ↔ ts = [] ∨ allBlank ts = .ok false := by
  cases ts with
  | nil => simp [checkLabels]; rfl
  | cons t ts =>
    have hcheck : checkLabels nodeId (t :: ts) = (do
        if ← allBlank (t :: ts) then .error (.unlabelledChildren nodeId) else pure ()) := rfl
    rw [hcheck, bind_eq_ok_iff]
    constructor
    · rintro ⟨blank, hblank, hout⟩
      cases blank with
      | false => exact .inr hblank
      | true => cases hout
    · rintro (hnil | hblank)
      · cases hnil
      · exact ⟨false, hblank, rfl⟩

/-! ### The same form -/

theorem compile_of_alike {settings : CompileSettings} {t u : OptionTree} {form : Form}
    (ht : t.children ≠ []) (hu : u.children ≠ []) (halike : t.Alike u)
    (h : compile settings (some t) = .ok form) : compile settings (some u) = .ok form := by
  obtain ⟨root, cs⟩ := t
  obtain ⟨top, ds⟩ := u
  obtain ⟨c, cs, rfl⟩ := List.exists_cons_of_ne_nil ht
  obtain ⟨d, ds, rfl⟩ := List.exists_cons_of_ne_nil hu
  have hlabel : top.label = root.label := halike.1.symm
  have hbelow : AlikeOptions (c :: cs) (d :: ds) := halike.2
  obtain ⟨inner, description, message, hcheck, hinner, hdescription, hmessage, rfl⟩ := compile_inv h
  -- the root's id is named in a refusal only
  have hcheck' : checkLabels top.id (d :: ds) = .ok () := by
    rw [← checkLabels_congr top.id hbelow]
    exact checkLabels_ok_iff.2 (checkLabels_ok_iff.1 hcheck)
  have hinner' : compileChoices settings firstBranchNumber (d :: ds) = .ok inner := by
    rw [← hinner]
    exact (compileChoices_congr settings firstBranchNumber hbelow).symm
  simp only [compile, hcheck', hinner', hlabel, hdescription, hmessage, ok_bind, entryStep]
  rfl

theorem alike_of_compile {settings : CompileSettings} {t u : OptionTree} {form : Form}
    (ht : t.children ≠ []) (hu : u.children ≠ []) (h : compile settings (some t) = .ok form)
    (h' : compile settings (some u) = .ok form) : t.Alike u := by
  obtain ⟨root, cs⟩ := t
  obtain ⟨top, ds⟩ := u
  obtain ⟨c, cs, rfl⟩ := List.exists_cons_of_ne_nil ht
  obtain ⟨d, ds, rfl⟩ := List.exists_cons_of_ne_nil hu
  obtain ⟨inner, hinner, harranged⟩ := Form.arranged_of_compile h
  obtain ⟨inner', hinner', harranged'⟩ := Form.arranged_of_compile h'
  have hlabel : root.label = top.label := harranged.name.symm.trans harranged'.name
  -- both trees put their choices on the one entry step
  have hentry : entryStep settings root inner.result = entryStep settings top inner'.result :=
    Option.some.inj (harranged.entry?_eq.symm.trans harranged'.entry?_eq)
  have hchoices : inner.result = inner'.result :=
    congrArg Step.leadChoices hentry
  -- reopening follows these choices to the normal forms of both
  obtain ⟨after, hafter, -⟩ := reopen_choices harranged.nodup_stepIds hinner
    (fun s => harranged.mem_branch) (avoids_entry _) (avoids_nil _)
  obtain ⟨after', hafter', -⟩ := reopen_choices harranged'.nodup_stepIds hinner'
    (fun s => harranged'.mem_branch) (avoids_entry _) (avoids_nil _)
  rw [hchoices, hafter'] at hafter
  have hnormal : normalAll (d :: ds) = normalAll (c :: cs) :=
    congrArg Prod.fst (Except.ok.inj hafter)
  exact ⟨hlabel, (alikeOptions_iff _ _).2 hnormal.symm⟩

/-- **A form forgets exactly what two alike trees may differ in.** Under any settings, alike trees
are compiled into the same form or both not at all, and trees that are compiled into one form are
alike. Ids may repeat in the trees. -/
theorem same_form_iff_alike (settings : CompileSettings) {t u : OptionTree} (ht : t.children ≠ [])
    (hu : u.children ≠ []) :
    (t.Alike u → ∀ form, compile settings (some t) = .ok form ↔ compile settings (some u) = .ok form) ∧
    ∀ form, compile settings (some t) = .ok form → compile settings (some u) = .ok form →
      t.Alike u := by
  refine ⟨fun halike form => ?_, fun form => alike_of_compile ht hu⟩
  exact ⟨compile_of_alike ht hu halike, compile_of_alike hu ht halike.symm⟩

/-- A tree in which one id stands twice. -/
def catalogue : OptionTree :=
  .node { id := "root", label := "Catalogue", kind := .root }
    [.node { id := "boats", label := "Boats", multiple := .bool true, image := "" }
      [.node { id := "new", label := "New" } [], .node { id := "used", label := "Used" } []],
      .node { id := "new", label := "News", image := "news.png" } []]

/-- The catalogue as another editor hands it over. -/
def catalogueCopy : OptionTree :=
  .node { id := "top", label := "Catalogue", multiple := .bool true, image := "top.png" }
    [.node { id := "boats", label := "Boats", multiple := .bool true, expanded := .bool false }
      [.node { id := "new", label := "New", multiple := .bool true, kind := .root } [],
        .node { id := "used", label := "Used", image := "" } []],
      .node { id := "new", label := "News", image := "news.png" } []]

theorem same_form_catalogue :
    catalogue ≠ catalogueCopy ∧
    (∃ form, compile {} (some catalogue) = .ok form ∧ compile {} (some catalogueCopy) = .ok form) ∧
    catalogue.Alike catalogueCopy := by
  have hboth := same_form_iff_alike {} (t := catalogue) (u := catalogueCopy) (List.cons_ne_nil _ _)
    (List.cons_ne_nil _ _)
  obtain ⟨form, hform⟩ : ∃ form, compile {} (some catalogue) = .ok form := ⟨_, by cbv⟩
  have hcopy : compile {} (some catalogueCopy) = .ok form := (hboth.1 (by decide) form).1 hform
  exact ⟨by decide, ⟨form, hform, hcopy⟩, hboth.2 form hform hcopy⟩

end BranchForm
