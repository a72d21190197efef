import BranchForm.Form.Basic
import BranchForm.Value.Access
import BranchForm.Value.Agreement

/-!
# Reachable steps

A step leads to the targets of its conditions and of the choices of its own fields.

* `Form.successors` are the places a step leads to; the terminal step's reserved id stands for the
  last step of the form;
* `visit` follows them breadth first, from a queue of places and the places visited so far; of
  places that agree the first is visited. The steps not yet visited become fewer, or the queue
  becomes shorter;
* `Form.reachable` are the places reached from a start, which need not all be steps.
-/

namespace BranchForm

/-- The targets that a step names, conditions before choices. -/
def Step.targets (s : Step) : List Value :=
  s.conditions.map (fun c => .text c.nextStep) ++
    (s.fields.flatMap fun f => (f.choices.map Choice.target).filter Value.truthy)

/-- The id of the step that ends the form. -/
def Form.lastId (form : Form) : String :=
  match form.last? with
  | some s => s.id
  | none => finalStepId

/-- The place a target stands for. -/
def Form.place (form : Form) (target : Value) : Value :=
  if target = .text finalStepId then .text form.lastId else target

/-- The places that the step of a name leads to, none if there is no such step. -/
def Form.successors (form : Form) : Value → List Value
  | .text stepId => match form.latestStep? stepId with
    | some s => s.targets.map form.place
    | none => []
  | _ => []

/-- The step ids that have not been visited. -/
def unvisited (form : Form) (visited : List Value) : List String :=
  form.stepIds.filter fun stepId => !(Value.text stepId).within visited

/-- A visit takes the step ids that agree with the place visited. -/
theorem unvisited_cons (form : Form) (v : Value) (visited : List Value) :
    unvisited form (v :: visited) =
      (unvisited form visited).filter fun stepId => !v.agrees (.text stepId) := by
  simp [unvisited, Value.within_cons, List.filter_filter]

theorem length_unvisited_le (form : Form) (v : Value) (visited : List Value) :
    (unvisited form (v :: visited)).length ≤ (unvisited form visited).length := by
  rw [unvisited_cons]
  exact List.length_filter_le _ _

theorem length_unvisited_lt {form : Form} {stepId : String} {visited : List Value}
    (hmem : stepId ∈ form.stepIds) (hnew : ¬ (Value.text stepId).within visited) :
    (unvisited form (.text stepId :: visited)).length < (unvisited form visited).length := by
  rw [unvisited_cons, List.length_filter_lt_length_iff_exists]
  refine ⟨stepId, ?_, by simp [Value.agrees_text]⟩
  simpa [unvisited, hmem] using hnew

theorem mem_stepIds_of_successors {form : Form} {v : Value} (h : form.successors v ≠ []) :
    ∃ stepId ∈ form.stepIds, v = .text stepId := by
  unfold Form.successors at h
  split at h
  · next stepId =>
    split at h
    · next s hs =>
      have hid := List.find?_some hs
      have hmem := List.mem_of_find?_eq_some hs
      simp only [List.mem_reverse] at hmem
      simp only [beq_iff_eq] at hid
      exact ⟨stepId, List.mem_map.2 ⟨s, hmem, hid⟩, rfl⟩
    · exact absurd rfl h
  · exact absurd rfl h

/-- The places reached from a queue, in the order they are visited, behind those visited before. A
target that is a list or a record cannot be visited. -/
def visit (form : Form) (visited : List Value) (queue : List Value) :
    Except Error (List Value) :=
  match queue with
  | [] => .ok visited
  | v :: rest =>
    if v.within visited then visit form visited rest
    else
      let targets := form.successors v
      if targets.all Value.isKey then
        visit form (v :: visited) (rest ++ targets.filter fun w => !w.within (v :: visited))
      else Value.fail .wrongKind
termination_by ((unvisited form visited).length, queue.length)
decreasing_by
  · apply Prod.Lex.right; simp
  · next hv _ =>
    by_cases hs : form.successors v = []
    · have hle := length_unvisited_le form v visited
      rcases Nat.lt_or_eq_of_le hle with hlt | heq
      · exact Prod.Lex.left _ _ hlt
      · rw [heq]; apply Prod.Lex.right; simp [hs]
    · obtain ⟨stepId, hmem, rfl⟩ := mem_stepIds_of_successors hs
      exact Prod.Lex.left _ _ (length_unvisited_lt hmem hv)

/-- The places reached from a start. -/
def Form.reachable (form : Form) (start : Value) : Except Error (List Value) := do
  let start ← start.asKey
  visit form [] [start]

end BranchForm
