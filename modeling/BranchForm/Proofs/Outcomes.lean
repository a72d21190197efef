import BranchForm.Proofs.AnswerKeys

/-!
# What an outcome allows to change

A request changes the session on the way, before it is known whether it leads anywhere: an answer is
stored, nested fields are left, a visit is taken off the history. Its outcome tells afterwards how
far that went. A respondent who is told to stay has lost no place, and one who is told to have moved
is on another step by one logged move, or on other fields of the same step.

* `Outcome.Permits` is what an outcome allows to change in the place of a session and in its log,
  `Request.Spares` what a request allows to change in the answers;
* `Session.Comes.permits` and `Session.Comes.spares` : requests keep to both;
* `Session.select_of_absent` : a pick in a field that the step does not have changes nothing;
* `change_of_outcome` is the result on all sessions that a respondent can come to.
-/

namespace BranchForm

/-! ### What may change -/

/-- What an outcome allows to change besides the answers. -/
def Outcome.Permits (s s' : Session) : Outcome → Prop
  | .stayed => s'.current = s.current ∧ s'.history = s.history ∧ s'.transitions = s.transitions ∧
      s'.completed = s.completed
  | .moved => (∃ t : Transition, s'.transitions = s.transitions ++ [t] ∧ t.source = s.current ∧
      t.target = s'.current ∧ s'.path = [] ∧ s'.completed = s.completed) ∨
      s' = { s with path := s'.path }
  | .submit => s' = { s with path := [], completed := .bool true }

/-- What a request allows to change in the answers: the one to the field that it answers, if it
answers one. -/
def Request.Spares (s s' : Session) (r : Request) : Prop :=
  match r.field? with
  | some fieldId => Members.erase s'.answers fieldId = Members.erase s.answers fieldId
  | none => s'.answers = s.answers

/-! ### Answers -/

/-- A member that is set is the only one that changes. -/
theorem Members.erase_put (ms : Members) (name : String) (v : Value) :
    erase (put ms name v) name = erase ms name := by
  have hself : (Value.text name).agrees name = true := Value.text_agrees_iff.2 rfl
  induction ms with
  | nil => simp [put, erase, hself]
  | cons m ms ih =>
    obtain ⟨k, w⟩ := m
    by_cases hk : k.agrees name = true
    · simp [put, erase, hk]
    · simp only [put, erase, hk, Bool.false_eq_true, ↓reduceIte, List.filter_cons] at ih ⊢
      rw [ih]

theorem Request.Stores.spares {s s' : Session} {r : Request} (h : r.Stores s.answers s'.answers)
    (htext : ∀ fieldId ∈ r.field?, ∃ name, fieldId = .text name) : r.Spares s s' := by
  rw [Spares]
  rcases h with hsame | ⟨fieldId, hfield, stored, hput⟩
  · rw [hsame]
    split <;> rfl
  · obtain ⟨name, rfl⟩ := htext fieldId hfield
    rw [Option.mem_def.1 hfield, hput]
    exact Members.erase_put s.answers name stored

/-! ### Requests -/

namespace Session

variable {form : Form} {s s' : Session} {r : Request}

/-- Whatever a request comes to, its outcome says what has changed. -/
theorem Comes.permits {o : Outcome} (h : s.Comes form r (.ok (some o)) s') : o.Permits s s' := by
  cases h with
  | stays | halts => exact ⟨rfl, rfl, rfl, rfl⟩
  | forth | back => exact .inl ⟨_, rfl, rfl, rfl, rfl, rfl⟩
  | enters | shifts => exact .inr rfl
  | submits => rfl

/-- Only the field that a request answers gets another answer. -/
theorem Comes.stores {o : Except Error (Option Outcome)} (h : s.Comes form r o s')
    (hr : r ≠ .reset) : r.Stores s.answers s'.answers := by
  cases h with
  | fails _ hstores | stays hstores | forth _ _ hstores => exact hstores
  | enters | shifts | submits | halts | back => exact .inl rfl
  | restarts => exact absurd rfl hr

/-- What a request other than starting again comes to is an outcome. -/
theorem Comes.exists_outcome {o : Option Outcome} (h : s.Comes form r (.ok o) s')
    (hr : r ≠ .reset) : ∃ outcome, o = some outcome := by
  cases h with
  | stays | forth | enters | shifts | submits | halts | back => exact ⟨_, rfl⟩
  | restarts => exact absurd rfl hr

/-- A pick in a field that the step shown does not have, at any depth, changes nothing. -/
theorem select_of_absent {step : Step} {name : String} {value : Value}
    (hstep : s.step form = .ok step) (habsent : .text name ∉ step.answerKeys) :
    (s.select form (.text name) value).session = s := by
  cases hfield : findField step (.text name) with
  | none => simp only [select, hstep, hfield]
  | some f =>
    obtain ⟨hmem, hname⟩ := of_findField hfield
    have hid : f.id = .text name := Value.agrees_text_iff.1 hname
    exact absurd (hid ▸ List.mem_map_of_mem hmem) habsent

end Session

/-- **What each outcome allows to change.** In every session that a respondent can come to, every
request other than starting again has an outcome. To stay leaves the step shown, the steps visited,
the log and the mark of completion, whatever became of the target. To move adds one move from the
old step to the new one to the log and leaves the nested fields, or it changes the way into nested
fields and nothing else. To submit sets the mark of completion and leaves the nested fields. No
answer changes but the one to the field that the request names, and none at all if it picks in a
field that the step does not have. -/
theorem change_of_outcome {form : Form} {allowed : Request → Bool} {s : Session}
    (h : form.Reached allowed s) {r : Request} (hr : r ≠ .reset)
    (htext : ∀ fieldId ∈ r.field?, ∃ name, fieldId = .text name) :
    ∃ o : Outcome, r.outcome form s = .ok (some o) ∧ o.Permits s (r.apply form s) ∧
      r.Spares s (r.apply form s) ∧
      ∀ fieldId value step, r = .select fieldId value → s.step form = .ok step →
        fieldId ∉ step.answerKeys → r.apply form s = s := by
  have hnamed : r.isNamed = true := by
    cases r with
    | set fieldId value =>
      obtain ⟨name, rfl⟩ := htext fieldId rfl
      rfl
    | select | enter | advance | retreat | jump | reset => rfl
  have hcomes := Session.comes_apply form s r
  obtain ⟨answer, hanswer⟩ := hcomes.exists_ok (Session.onForm_of_reached h).current hnamed
  rw [hanswer] at hcomes
  obtain ⟨o, rfl⟩ := hcomes.exists_outcome hr
  refine ⟨o, hanswer, hcomes.permits, (hcomes.stores hr).spares htext, ?_⟩
  rintro fieldId value step rfl hstep habsent
  obtain ⟨name, rfl⟩ := htext fieldId rfl
  exact Session.select_of_absent hstep habsent

/-- A session in the labyrinth that has entered the fields inside the door. -/
def labyrinthInside : Session := { current := "hall", path := ["door"] }

/-- The door that leads nowhere is picked: the answer is there and nothing else has changed, though
a target was looked for. -/
theorem change_of_outcome_labyrinth :
    labyrinth.Reached (fun _ => true) labyrinthInside ∧
      (Request.select "door" "a").outcome labyrinth labyrinthInside = .ok (some .stayed) ∧
      Outcome.Permits labyrinthInside ((Request.select "door" "a").apply labyrinth labyrinthInside)
        .stayed ∧
      ((Request.select "door" "a").apply labyrinth labyrinthInside).answers =
        [(.text "door", .text "a")] ∧
      Members.erase ((Request.select "door" "a").apply labyrinth labyrinthInside).answers "door" =
        [] := by
  have hentered : labyrinthInside = (Request.enter "door").apply labyrinth { current := "hall" } :=
    rfl
  have hreached : labyrinth.Reached (fun _ => true) labyrinthInside :=
    hentered ▸ .next (.fresh rfl) rfl
  obtain ⟨o, houtcome, hpermits, hspares, -⟩ :=
    change_of_outcome hreached (r := .select "door" "a") nofun (by simp [Request.field?])
  have hstayed : (Request.select "door" "a").outcome labyrinth labyrinthInside =
      .ok (some .stayed) := by cbv
  obtain rfl : .stayed = o := Option.some.inj (Except.ok.inj (hstayed.symm.trans houtcome))
  exact ⟨hreached, hstayed, hpermits, by cbv, hspares⟩

end BranchForm
