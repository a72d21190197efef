import BranchForm.Proofs.Compiled
import BranchForm.Proofs.Spots
import Mathlib

/-!
# The layout of compiled forms

The compiler gives out numbers on the way down and puts out steps on the way up. Which step a node
gets can be said without running it: a tree is listed twice, and the number of a node is how many
nodes with children stand before it in one list, the place of its step is its place in the other.

* `spots` lists the nodes of a tree with their places from the top, a node before its children, and
  `spotsUp` from below, a node behind them; `spotsUp_perm` : both lists have the same nodes;
* `OptionTree.number` is the number of a node within its tree;
* `Spot.IsChoice` and `Spot.IsStep` say what the choice and the step of a node are;
* `laid_out_branch` and `laid_out_choices` : where the numbers agree with those given out from the
  top, a node and its children are compiled as described;
* `steps_of_compile` : so is every tree with options.
-/

namespace BranchForm

/-- The nodes of a row of siblings below a place, the first of which has the number given. -/
def row (place : List Nat) (i : Nat) : List OptionTree → List Spot
  | [] => []
  | t :: ts => ⟨place ++ [i], t⟩ :: row place (i + 1) ts

mutual

/-- The nodes of a tree at a place, a node behind its children. -/
def spotsUp (place : List Nat) : OptionTree → List Spot
  | .node d cs => spotsUpAll place 0 cs ++ [⟨place, .node d cs⟩]

/-- The nodes of a row of siblings and below them, a node behind its children. -/
def spotsUpAll (place : List Nat) (i : Nat) : List OptionTree → List Spot
  | [] => []
  | t :: ts => spotsUp (place ++ [i]) t ++ spotsUpAll place (i + 1) ts

end

namespace Spot

/-- The node has children. -/
def isBranch (s : Spot) : Bool := !s.tree.isLeaf

/-- The children, at their places. -/
def children (s : Spot) : List Spot := row s.place 0 s.tree.children

/-- The id of the step that a node leads to, by a numbering of the nodes with children. -/
def stepId (number : Spot → Nat) (s : Spot) : String :=
  if s.isBranch then branchStepId (number s) s.tree.id else finalStepId

/-- What the choice of a node is: it has the node's id and label, the slug of the label and the
image, and leads to the step of the node. -/
def IsChoice (number : Spot → Nat) (s : Spot) (c : Choice) : Prop :=
  ∃ label, s.tree.label = .text label ∧
    c = { id := s.tree.id, label := .text label, value := .text (Text.slug label)
          image := s.tree.data.image.orElse (.text ""), nextField := .text (s.stepId number) }

/-- What the step of a node with children is: it has one field, which offers the children. -/
def IsStep (settings : CompileSettings) (number : Spot → Nat) (s : Spot) (step : Step) : Prop :=
  ∃ title label choices, fillLabel settings.branchTitle s.tree.label = .ok title ∧
    fillLabel settings.branchFieldLabel s.tree.label = .ok label ∧
    List.Forall₂ (IsChoice number) s.children choices ∧
    step = {
      id := branchStepId (number s) s.tree.id
      title
      fields := [.mk {
        id := .text (s.tree.id.display ++ "_selection")
        kind := if s.tree.data.multiple.truthy then .checkbox else .radio
        label, choices } []] }

end Spot

namespace OptionTree

/-- The root of a tree. -/
def top (t : OptionTree) : Spot := ⟨[], t⟩

/-- The nodes with children below the root, a node before its children. -/
def branches (t : OptionTree) : List Spot := (spotsAll [] 0 t.children).filter Spot.isBranch

/-- The nodes with children below the root, a node behind its children. -/
def branchesUp (t : OptionTree) : List Spot := (spotsUpAll [] 0 t.children).filter Spot.isBranch

/-- The number of a node: two more than the nodes with children below the root that stand before
it. -/
def number (t : OptionTree) (s : Spot) : Nat := firstBranchNumber + t.branches.idxOf s

end OptionTree

/-! ### Both lists -/

mutual

/-- Both lists have the same nodes. -/
theorem spotsUp_perm (place : List Nat) (t : OptionTree) : (spotsUp place t).Perm (spots place t) := by
  obtain ⟨d, cs⟩ := t
  rw [spotsUp, spots]
  exact (List.perm_append_singleton _ _).trans ((spotsUpAll_perm place 0 cs).cons _)

theorem spotsUpAll_perm (place : List Nat) (i : Nat) (ts : List OptionTree) :
    (spotsUpAll place i ts).Perm (spotsAll place i ts) := by
  match ts with
  | [] => exact .nil
  | t :: ts =>
    rw [spotsUpAll, spotsAll]
    exact (spotsUp_perm _ t).append (spotsUpAll_perm place (i + 1) ts)

end

/-- Distinct elements are numbered in order by how many stand before them. -/
theorem map_idxOf_eq_range' {α : Type} [DecidableEq α] {as : List α} (h : as.Nodup) (n : Nat) :
    as.map (fun a => n + as.idxOf a) = List.range' n as.length := by
  refine List.ext_getElem (by simp) fun i hi _ => ?_
  have hi' : i < as.length := by simpa using hi
  simp [h.idxOf_getElem i hi']

/-! ### Compiling -/

/-- A numbering gives the nodes of a list the numbers from `n` on, in order. -/
def NumbersFrom (number : Spot → Nat) (n : Nat) (ss : List Spot) : Prop :=
  ss.map number = List.range' n ss.length

namespace NumbersFrom

variable {number : Spot → Nat} {n : Nat} {s : Spot} {ss ts : List Spot}

theorem head (h : NumbersFrom number n (s :: ss)) : number s = n := by
  rw [NumbersFrom, List.map_cons, List.length_cons, List.range'_succ, List.cons.injEq] at h
  exact h.1

theorem tail (h : NumbersFrom number n (s :: ss)) : NumbersFrom number (n + 1) ss := by
  rw [NumbersFrom, List.map_cons, List.length_cons, List.range'_succ, List.cons.injEq] at h
  exact h.2

theorem of_append (h : NumbersFrom number n (ss ++ ts)) :
    NumbersFrom number n ss ∧ NumbersFrom number (n + ss.length) ts := by
  rw [NumbersFrom, List.map_append, List.length_append, ← List.range'_append_1] at h
  exact List.append_inj h (by simp)

end NumbersFrom

theorem filter_spots_branch (place : List Nat) (d : Node) (c : OptionTree) (cs : List OptionTree) :
    (spots place (.node d (c :: cs))).filter Spot.isBranch =
      ⟨place, .node d (c :: cs)⟩ :: (spotsAll place 0 (c :: cs)).filter Spot.isBranch := rfl

theorem filter_spotsUp_branch (place : List Nat) (d : Node) (c : OptionTree)
    (cs : List OptionTree) :
    (spotsUp place (.node d (c :: cs))).filter Spot.isBranch =
      (spotsUpAll place 0 (c :: cs)).filter Spot.isBranch ++ [⟨place, .node d (c :: cs)⟩] := by
  rw [spotsUp, List.filter_append]
  rfl

section

variable {settings : CompileSettings} {number : Spot → Nat}

mutual

theorem laid_out_branch {place : List Nat} {n : Nat} {t : OptionTree} {out : Compiled String}
    (hnumber : NumbersFrom number n ((spots place t).filter Spot.isBranch))
    (h : compileBranch settings n t = .ok out) :
    out.result = (Spot.mk place t).stepId number ∧
      out.next = n + ((spots place t).filter Spot.isBranch).length ∧
      List.Forall₂ (Spot.IsStep settings number) ((spotsUp place t).filter Spot.isBranch)
        out.steps := by
  match t with
  | .node d [] =>
    cases h
    exact ⟨rfl, rfl, .nil⟩
  | .node d (c :: cs) =>
    obtain ⟨title, label, inner, htitle, hlabel, -, hinner, rfl⟩ := compileBranch_inv h
    rw [filter_spots_branch] at hnumber ⊢
    obtain ⟨hchoices, hnext, hsteps⟩ := laid_out_choices hnumber.tail hinner
    -- the node has the number at hand, and its step comes behind those of its descendants
    have hn : number ⟨place, .node d (c :: cs)⟩ = n := hnumber.head
    refine ⟨?_, ?_, ?_⟩
    · simp only [Spot.stepId, hn]
      rfl
    · show inner.next = _
      rw [hnext, List.length_cons]
      omega
    · rw [filter_spotsUp_branch]
      refine List.rel_append hsteps (.cons ?_ .nil)
      exact ⟨title, label, inner.result, htitle, hlabel, hchoices, by rw [hn]; rfl⟩

/-- Where the nodes with children are numbered from the top, the steps of a row of siblings are put
out from below. -/
theorem laid_out_choices {place : List Nat} {i n : Nat} {ts : List OptionTree}
    {out : Compiled (List Choice)}
    (hnumber : NumbersFrom number n ((spotsAll place i ts).filter Spot.isBranch))
    (h : compileChoices settings n ts = .ok out) :
    List.Forall₂ (Spot.IsChoice number) (row place i ts) out.result ∧
      out.next = n + ((spotsAll place i ts).filter Spot.isBranch).length ∧
      List.Forall₂ (Spot.IsStep settings number) ((spotsUpAll place i ts).filter Spot.isBranch)
        out.steps := by
  match ts with
  | [] =>
    cases h
    exact ⟨.nil, rfl, .nil⟩
  | t :: ts =>
    obtain ⟨value, branch, others, hvalue, hbranch, hothers, rfl⟩ := compileChoices_inv h
    obtain ⟨label, hlabel, rfl⟩ := labelSlug_inv hvalue
    rw [spotsAll, List.filter_append] at hnumber ⊢
    -- the numbers go on where the first child and its descendants leave off
    obtain ⟨hfirst, hrest⟩ := hnumber.of_append
    obtain ⟨hresult, hnext, hsteps⟩ := laid_out_branch hfirst hbranch
    rw [← hnext] at hrest
    obtain ⟨hchoices, hnext', hsteps'⟩ := laid_out_choices hrest hothers
    refine ⟨.cons ⟨label, hlabel, ?_⟩ hchoices, ?_, ?_⟩
    · rw [childChoice, hresult, ← hlabel]
      rfl
    · show others.next = _
      rw [hnext', hnext, List.length_append]
      omega
    · rw [spotsUpAll, List.filter_append]
      exact List.rel_append hsteps hsteps'

end

end

/-- The steps of a compiled tree with options are the entry step, one step for every node with
children below the root, a node behind its children, and the terminal step. Each of them has the
number of its node from the top, and its choices are the children in order. -/
theorem steps_of_compile {settings : CompileSettings} {t : OptionTree} {form : Form}
    (hne : t.children ≠ []) (h : compile settings (some t) = .ok form) :
    ∃ choices steps,
      form.steps = entryStep settings t.data choices :: steps ++ [finalStep settings] ∧
      List.Forall₂ (Spot.IsChoice t.number) t.top.children choices ∧
      List.Forall₂ (Spot.IsStep settings t.number) t.branchesUp steps := by
  obtain ⟨d, _ | ⟨c, cs⟩⟩ := t
  · exact absurd rfl hne
  · obtain ⟨inner, description, message, -, hinner, -, -, rfl⟩ := compile_inv h
    have hnodup := (nodup_spotsAll [] 0 (c :: cs)).filter Spot.isBranch
    have hnumber : NumbersFrom (OptionTree.number (.node d (c :: cs))) firstBranchNumber
        ((spotsAll [] 0 (c :: cs)).filter Spot.isBranch) := map_idxOf_eq_range' hnodup _
    obtain ⟨hchoices, -, hsteps⟩ := laid_out_choices hnumber hinner
    exact ⟨inner.result, inner.steps, rfl, hchoices, hsteps⟩

/-- A cabinet with a drawer in its upper part. -/
def cabinet : OptionTree :=
  .node { id := "cabinet", label := "Cabinet", kind := .root }
    [.node { id := "upper", label := "Upper Part" }
        [.node { id := "drawer", label := "Drawer", multiple := .bool true }
            [.node { id := "knives", label := "Knives" } []],
          .node { id := "shelf", label := "Shelf" } []],
      .node { id := "lower", label := "Lower Part" } [.node { id := "pots", label := "Pots" } []]]

theorem compile_cabinet :
    cabinet.children ≠ [] ∧ ∃ form, compile {} (some cabinet) = .ok form ∧
      form.stepIds = ["step1", "step3_drawer", "step2_upper", "step4_lower", "step_final"] ∧
      ∃ choices steps,
        form.steps = entryStep {} cabinet.data choices :: steps ++ [finalStep {}] ∧
        List.Forall₂ (Spot.IsChoice cabinet.number) cabinet.top.children choices ∧
        List.Forall₂ (Spot.IsStep {} cabinet.number) cabinet.branchesUp steps := by
  have hne : cabinet.children ≠ [] := List.cons_ne_nil _ _
  obtain ⟨form, hform, hids⟩ : ∃ form, compile {} (some cabinet) = .ok form ∧
      form.stepIds = ["step1", "step3_drawer", "step2_upper", "step4_lower", "step_final"] :=
    ⟨_, by cbv, by cbv⟩
  exact ⟨hne, form, hform, hids, steps_of_compile hne hform⟩

end BranchForm
