import BranchForm.Proofs.Lookup

/-!
# Requests and runs

What a respondent can ask of a session, one request after the other, and what a request can do.

* `Request` lists the requests, `Request.apply` is the session after one and `Request.outcome` what
  it came to;
* `Form.Reached` holds of the sessions that a run of allowed requests leads to from a fresh one;
* `Session.select_of_single` and `Session.select_of_multiple` say what picking a choice does,
  `Session.exists_select_eq` what the two have in common;
* `Session.exists_shift` : shifting through nested fields changes the path and nothing else;
* `Session.Comes` lists what a request can come to, with the session after it; `Session.comes_apply`
  says that this is all;
* `Session.Goes` keeps of it what a request does to the place of a session, to the steps visited and
  to the log (`Session.Comes.goes`, `Session.goes_apply`).
-/

namespace BranchForm

/-- What a respondent can ask of a session. -/
inductive Request where
  /-- Picks a choice of a field. -/
  | select (fieldId value : Value)
  /-- Gives an answer. -/
  | set (fieldId value : Value)
  /-- Enters the sub-fields of a field. -/
  | enter (fieldId : Value)
  /-- Goes on. -/
  | advance
  /-- Goes back. -/
  | retreat
  /-- Goes to a step. -/
  | jump (stepId : Value)
  /-- Starts again. -/
  | reset
  deriving DecidableEq, Repr, Inhabited

namespace Request

/-- The session after a request. -/
def apply (form : Form) (s : Session) : Request → Session
  | .select fieldId value => (s.select form fieldId value).session
  | .set fieldId value => (s.set form fieldId value).session
  | .enter fieldId => (s.enter form fieldId).session
  | .advance => (s.advance form).session
  | .retreat => (s.retreat form).session
  | .jump stepId => (s.jump form stepId).session
  | .reset => s.reset form

/-- What a request came to; starting again answers nothing. -/
def outcome (form : Form) (s : Session) : Request → Except Error (Option Outcome)
  | .select fieldId value => (s.select form fieldId value).outcome.map some
  | .set fieldId value => (s.set form fieldId value).outcome.map some
  | .enter fieldId => (s.enter form fieldId).outcome.map some
  | .advance => (s.advance form).outcome.map some
  | .retreat => (s.retreat form).outcome.map some
  | .jump stepId => (s.jump form stepId).outcome.map some
  | .reset => .ok none

/-- The field that a request answers, if it answers one. -/
def field? : Request → Option Value
  | .select fieldId _ | .set fieldId _ => some fieldId
  | .enter _ | .advance | .retreat | .jump _ | .reset => none

/-- What a request can make of the answers: it leaves them, or stores one for the field that it
answers. -/
def Stores (r : Request) (before after : Members) : Prop :=
  after = before ∨ ∃ fieldId ∈ r.field?, ∃ stored, after = Members.put before fieldId stored

/-- Whether a request picks a choice or goes from step to step. -/
def isMove : Request → Bool
  | .select _ _ | .advance | .retreat | .jump _ => true
  | .set _ _ | .enter _ | .reset => false

/-- Whether an answer that a request gives is given under a value that can name a field, as every
text can. -/
def isNamed : Request → Bool
  | .set fieldId _ => fieldId.isKey
  | _ => true

end Request

/-- The sessions that a run of allowed requests leads to from a fresh one. -/
inductive Form.Reached (form : Form) (allowed : Request → Bool) : Session → Prop
  /-- A fresh session. -/
  | fresh {s : Session} : form.begin none = .ok s → Form.Reached form allowed s
  /-- One request more. -/
  | next {s : Session} {r : Request} : Form.Reached form allowed s → allowed r = true →
      Form.Reached form allowed (r.apply form s)

/-- A run of allowed requests leads on from a session that one has led to. -/
theorem Form.Reached.run {form : Form} {allowed : Request → Bool} {s : Session}
    (h : form.Reached allowed s) {rs : List Request} (hrs : ∀ r ∈ rs, allowed r = true) :
    form.Reached allowed (rs.foldl (fun s r => r.apply form s) s) := by
  induction rs generalizing s with
  | nil => exact h
  | cons r rs ih =>
    exact ih (.next h (hrs r List.mem_cons_self)) fun q hq => hrs q (List.mem_cons_of_mem _ hq)

namespace Session

variable {form : Form} {s : Session}

/-! ### What a request can do -/

theorem follow_cases (s : Session) (target : Except Unresolved (Option Value)) (trigger : Trigger)
    (fieldId value : Value) :
    ((s.follow target trigger fieldId value).outcome = .ok .stayed ∧
      (s.follow target trigger fieldId value).session = s) ∨
    ∃ v, target = .ok (some v) ∧ s.follow target trigger fieldId value =
      { session := s.moveTo v trigger fieldId value true, outcome := .ok .moved } := by
  match target with
  | .error cause => exact .inl ⟨rfl, rfl⟩
  | .ok none => exact .inl ⟨rfl, rfl⟩
  | .ok (some v) => exact .inr ⟨v, rfl, rfl⟩

/-- Following a target leaves the answers. -/
theorem answers_follow (s : Session) (target : Except Unresolved (Option Value)) (trigger : Trigger)
    (fieldId value : Value) : (s.follow target trigger fieldId value).session.answers = s.answers := by
  rcases follow_cases s target trigger fieldId value with ⟨-, hs⟩ | ⟨v, -, hs⟩
  · rw [hs]
  · rw [hs]
    rfl

section Select

variable {fieldId value : Value} {step : Step} {f : Field} {chosen : List Value} {on : Bool}

/-- In a field of one choice the value picked is the answer. -/
theorem select_of_single (hstep : s.step form = .ok step) (hfield : findField step fieldId = some f)
    (hkind : f.question.kind.isMultiple = false) :
    s.select form fieldId value = (s.withAnswer fieldId value).follow
      (form.branchTarget (s.withAnswer fieldId value) step fieldId (f.choice? value))
      .select fieldId value := by
  simp only [select, hstep, hfield, hkind, Bool.false_eq_true, ↓reduceIte]

/-- In a field of several choices the value picked is switched, and followed if it is on. -/
theorem select_of_multiple (hstep : s.step form = .ok step) (hfield : findField step fieldId = some f)
    (hkind : f.question.kind.isMultiple = true)
    (hswitch : switch (s.answer fieldId) value = (chosen, on)) :
    s.select form fieldId value = (s.withAnswer fieldId (.list chosen)).follow
      (form.branchTarget (s.withAnswer fieldId (.list chosen)) step fieldId
        (if on then f.choice? value else none)) .select fieldId value := by
  simp only [select, hstep, hfield, hkind, hswitch, ↓reduceIte]

end Select

/-- Picking a choice of a field stores an answer and follows a choice or none. -/
theorem exists_select_eq {step : Step} {f : Field} {fieldId : Value} (value : Value)
    (hstep : s.step form = .ok step) (hfield : findField step fieldId = some f) :
    ∃ stored picked, s.select form fieldId value = (s.withAnswer fieldId stored).follow
      (form.branchTarget (s.withAnswer fieldId stored) step fieldId picked)
      .select fieldId value := by
  cases hkind : f.question.kind.isMultiple with
  | false => exact ⟨value, _, select_of_single hstep hfield hkind⟩
  | true => exact ⟨_, _, select_of_multiple hstep hfield hkind rfl⟩

/-- An answer that is given is stored, wherever it leads. -/
theorem answers_set (form : Form) (s : Session) {fieldId : Value} (hkey : fieldId.isKey = true)
    (value : Value) :
    (s.set form fieldId value).session.answers = Members.put s.answers fieldId value := by
  simp only [set, hkey, ↓reduceIte]
  split
  · rfl
  · rw [answers_follow]
    rfl

/-- On the fields of the step itself nothing can be shifted. -/
theorem shift_of_path_nil (h : s.path = []) (forward : Bool) :
    s.shift form forward = .ok (s, false) := by
  simp [shift, h]

/-- Shifting comes to a path, and where it comes to an end it leaves the nested fields. -/
theorem exists_shift {step : Step} (hstep : s.step form = .ok step) (forward : Bool) :
    ∃ path shifted, s.shift form forward = .ok ({ s with path }, shifted) ∧
      (shifted = false → path = []) := by
  unfold shift
  split
  · rename_i hlast
    exact ⟨s.path, false, rfl, fun _ => List.getLast?_eq_none_iff.1 hlast⟩
  · rename_i last _
    rw [hstep]
    cases hnext : neighbour? (enterable (siblings step s.path)) last forward with
    | some next => exact ⟨_, true, by simp only [bind, Except.bind, hnext]; rfl, nofun⟩
    | none => exact ⟨[], false, by simp only [bind, Except.bind, hnext]; rfl, fun _ => rfl⟩

theorem ne_nil_of_shift {forward : Bool} {s' : Session} (h : s.shift form forward = .ok (s', true)) :
    s.path ≠ [] := by
  intro hnil
  rw [shift_of_path_nil hnil] at h
  cases h

theorem shift_of_error {e : Error} (h : s.step form = .error e) (forward : Bool) :
    s.shift form forward = .error e ∨ s.shift form forward = .ok (s, false) := by
  unfold shift
  split
  · exact .inr rfl
  · exact .inl (by rw [h]; rfl)

theorem advance_of_path_nil {step : Step} (h : s.path = []) (hstep : s.step form = .ok step) :
    s.advance form = s.leave form step := by
  simp [advance, shift_of_path_nil h, hstep]

theorem step_congr {s' : Session} (h : s'.current = s.current) : s'.step form = s.step form := by
  simp only [Session.step, h]

theorem step_of_stepOf? {step : Step} (h : form.stepOf? s.current = some step) :
    s.step form = .ok step := by
  simp [Session.step, h]

theorem fields_of_step {step : Step} (h : s.step form = .ok step) :
    s.fields form = .ok (s.fieldsOn step) := by
  simp only [fields, h]
  rfl

theorem of_step {step : Step} (h : s.step form = .ok step) :
    step ∈ form.steps ∧ s.current = .text step.id := by
  unfold Session.step at h
  split at h
  · rename_i hstep
    cases h
    exact Form.of_stepOf? hstep
  · cases h

theorem has_of_step {step : Step} (h : s.step form = .ok step) : form.Has s.current :=
  ⟨step, of_step h⟩

theorem exists_step_of_has (h : form.Has s.current) : ∃ step, s.step form = .ok step := by
  obtain ⟨step, hstep⟩ := Form.exists_stepOf?_of_has h
  exact ⟨step, step_of_stepOf? hstep⟩

/-- Behind a step that does not end the form there is a next one in the document. -/
theorem succ_lt_of_endsWith {step : Step} {i : Nat} (hindex : form.indexOf? s.current = some i)
    (hend : s.endsWith form step = false) : i + 1 < form.steps.length := by
  have hlt := Form.lt_of_indexOf? hindex
  have hne : i + 1 ≠ form.steps.length := by
    intro heq
    simp [endsWith, hindex, heq] at hend
  omega

/-! ### What a request can come to -/

/-- What a request can come to: its outcome and the session after it. -/
inductive Comes (form : Form) (s : Session) :
    Request → Except Error (Option Outcome) → Session → Prop
  /-- The request is refused. On a step of the form only an answer without a name is. -/
  | fails {r : Request} {answers : Members} (e : Error) : r.Stores s.answers answers →
      (form.Has s.current → r.isNamed = false) → Comes form s r (.error e) { s with answers }
  /-- The request leads nowhere. -/
  | stays {r : Request} {answers : Members} : r.Stores s.answers answers →
      Comes form s r (.ok (some .stayed)) { s with answers }
  /-- The request leads on to a step of the form. -/
  | forth {r : Request} {answers : Members} {v : Value} {trigger : Trigger}
      (fieldId value : Value) : r.Stores s.answers answers → form.Has v →
      trigger ≠ .back → trigger ≠ .restart → Comes form s r (.ok (some .moved))
        (Session.moveTo { s with answers } v trigger fieldId value true)
  /-- The fields inside a field on screen are entered. -/
  | enters (fieldId : Value) : Comes form s (.enter fieldId) (.ok (some .moved))
      { s with path := s.path ++ [fieldId] }
  /-- Other nested fields of the step are shown. -/
  | shifts {r : Request} (path : List Value) : r = .advance ∨ r = .retreat → s.path ≠ [] →
      Comes form s r (.ok (some .moved)) { s with path }
  /-- The form is submitted. -/
  | submits : Comes form s .advance (.ok (some .submit))
      { s with path := [], completed := .bool true }
  /-- Going back leaves the nested fields and stays on the step. -/
  | halts : Comes form s .retreat (.ok (some .stayed)) { s with path := [] }
  /-- Going back leaves a step that is not the first one of the document: for the step visited last,
  or for a step of the form if none is left. -/
  | back (v : Value) : form.indexOf? s.current ≠ some 0 →
      s.history.getLast? = some v ∨ s.history = [] ∧ form.Has v →
      Comes form s .retreat (.ok (some .moved))
        (Session.moveTo { s with history := s.history.dropLast } v .back .null .null false)
  /-- The session starts again. -/
  | restarts : Comes form s .reset (.ok none) (s.reset form)

theorem not_has_of_step_error {e : Error} (h : s.step form = .error e) : ¬ form.Has s.current := by
  intro hhas
  obtain ⟨step, hstep⟩ := exists_step_of_has hhas
  rw [h] at hstep
  cases hstep

namespace Comes

theorem fails_of_step {e : Error} (r : Request) (h : s.step form = .error e) :
    s.Comes form r (.error e) s :=
  .fails e (.inl rfl) fun hhas => absurd hhas (not_has_of_step_error h)

/-- An answer is stored, and followed if it leads anywhere. -/
theorem follow {r : Request} {fieldId : Value} (hfield : r.field? = some fieldId) (step : Step)
    (stored value : Value) (picked : Option Choice) (trigger : Trigger) (hback : trigger ≠ .back)
    (hrestart : trigger ≠ .restart) {reply : Reply}
    (hreply : reply = (s.withAnswer fieldId stored).follow
      (form.branchTarget (s.withAnswer fieldId stored) step fieldId picked)
      trigger fieldId value) :
    s.Comes form r (reply.outcome.map some) reply.session := by
  have hstores : r.Stores s.answers (Members.put s.answers fieldId stored) :=
    .inr ⟨fieldId, hfield, stored, rfl⟩
  subst hreply
  rcases follow_cases (s.withAnswer fieldId stored) (form.branchTarget
    (s.withAnswer fieldId stored) step fieldId picked) trigger fieldId value with
    ⟨houtcome, hsession⟩ | ⟨v, hv, hreply⟩
  · rw [houtcome, hsession]
    exact .stays hstores
  · rw [hreply]
    exact .forth fieldId value hstores (Form.has_of_branchTarget hv) hback hrestart

theorem select (form : Form) (s : Session) (fieldId value : Value) :
    s.Comes form (.select fieldId value) ((s.select form fieldId value).outcome.map some)
      (s.select form fieldId value).session := by
  cases hstep : s.step form with
  | error e =>
    simp only [Session.select, hstep]
    exact fails_of_step _ hstep
  | ok step =>
    cases hfield : findField step fieldId with
    | none =>
      simp only [Session.select, hstep, hfield]
      exact .stays (.inl rfl)
    | some f =>
      obtain ⟨stored, picked, hselect⟩ := exists_select_eq value hstep hfield
      exact follow rfl step stored value picked .select nofun nofun hselect

theorem set (form : Form) (s : Session) (fieldId value : Value) :
    s.Comes form (.set fieldId value) ((s.set form fieldId value).outcome.map some)
      (s.set form fieldId value).session := by
  cases hkey : fieldId.isKey with
  | false =>
    simp only [Session.set, hkey, Bool.false_eq_true, ↓reduceIte]
    exact .fails _ (.inl rfl) fun _ => hkey
  | true =>
    cases hstep : s.step form with
    | error e =>
      have hstep' : (s.withAnswer fieldId value).step form = .error e := hstep
      simp only [Session.set, hkey, hstep', ↓reduceIte]
      exact .fails e (.inr ⟨fieldId, rfl, value, rfl⟩) fun hhas =>
        absurd hhas (not_has_of_step_error hstep)
    | ok step =>
      have hstep' : (s.withAnswer fieldId value).step form = .ok step := hstep
      refine follow rfl step value value none .value nofun nofun ?_
      simp only [Session.set, hkey, hstep', ↓reduceIte]

theorem enter (form : Form) (s : Session) (fieldId : Value) :
    s.Comes form (.enter fieldId) ((s.enter form fieldId).outcome.map some)
      (s.enter form fieldId).session := by
  cases hstep : s.step form with
  | error e =>
    simp only [Session.enter, Session.fields, hstep]
    exact fails_of_step _ hstep
  | ok step =>
    simp only [Session.enter, fields_of_step hstep]
    split
    · split
      · exact .stays (.inl rfl)
      · exact .enters fieldId
    · exact .stays (.inl rfl)

theorem has_onward {step : Step} (hstep : s.step form = .ok step)
    (hend : s.endsWith form step = false) :
    form.Has (stepIdAt form (((form.indexOf? s.current).map (· + 1)).getD 0)) := by
  obtain ⟨i, hindex⟩ := Form.exists_indexOf?_of_has (has_of_step hstep)
  rw [hindex]
  exact Form.has_stepIdAt (succ_lt_of_endsWith hindex hend)

/-- Going on from a step submits or moves to a step of the form. -/
theorem leave_cases {step : Step} (hstep : s.step form = .ok step) :
    (s.leave form step).outcome = .ok .submit ∧
        (s.leave form step).session = { s with completed := .bool true } ∨
      ∃ v, form.Has v ∧ (s.leave form step).outcome = .ok .moved ∧
        (s.leave form step).session = s.moveTo v .next .null .null true := by
  unfold Session.leave
  split
  · exact .inl ⟨rfl, rfl⟩
  · rename_i hend
    have honward := has_onward hstep (Bool.eq_false_iff.2 hend)
    dsimp only
    split
    · rename_i v hv
      exact .inr ⟨v, Form.has_of_answeredTarget hv, rfl, rfl⟩
    · exact .inr ⟨_, honward, rfl, rfl⟩
    · exact .inr ⟨_, honward, rfl, rfl⟩

theorem advance (form : Form) (s : Session) :
    s.Comes form .advance ((s.advance form).outcome.map some) (s.advance form).session := by
  cases hstep : s.step form with
  | error e =>
    rcases shift_of_error hstep true with h | h
    · simp only [Session.advance, h]
      exact fails_of_step _ hstep
    · simp only [Session.advance, h, hstep]
      exact fails_of_step _ hstep
  | ok step =>
    obtain ⟨path, shifted, hshift, hleft⟩ := exists_shift hstep true
    have hstep' : Session.step form { s with path } = .ok step := hstep
    cases shifted with
    | true =>
      simp only [Session.advance, hshift]
      exact .shifts path (.inl rfl) (ne_nil_of_shift hshift)
    | false =>
      obtain rfl := hleft rfl
      simp only [Session.advance, hshift, hstep']
      rcases leave_cases hstep' with ⟨houtcome, hsession⟩ | ⟨v, hv, houtcome, hsession⟩
      · rw [houtcome, hsession]
        exact .submits
      · rw [houtcome, hsession]
        exact .forth .null .null (.inl rfl) hv nofun nofun

/-- Going back from a step does not depend on the nested fields. -/
theorem retrace (form : Form) (s : Session) (path : List Value) :
    s.Comes form .retreat ((Session.retrace form { s with path }).outcome.map some)
      (Session.retrace form { s with path }).session := by
  unfold Session.retrace
  split
  · exact .halts
  · exact .halts
  · rename_i i hindex
    have hlt := Form.lt_of_indexOf? hindex
    have hfirst : form.indexOf? s.current ≠ some 0 := by simp [hindex]
    dsimp only
    split
    · rename_i previous hlast
      exact .back previous hfirst (.inl hlast)
    · rename_i hlast
      have hnil : s.history = [] := List.getLast?_eq_none_iff.1 hlast
      have hback : s.Comes form .retreat (.ok (some .moved)) (Session.moveTo
          { s with history := s.history.dropLast } (stepIdAt form i) .back .null .null false) :=
        .back _ hfirst (.inr ⟨hnil, Form.has_stepIdAt (by omega)⟩)
      rwa [hnil, List.dropLast_nil, ← hnil] at hback

theorem retreat (form : Form) (s : Session) :
    s.Comes form .retreat ((s.retreat form).outcome.map some) (s.retreat form).session := by
  cases hstep : s.step form with
  | error e =>
    rcases shift_of_error hstep false with h | h
    · simp only [Session.retreat, h]
      exact fails_of_step _ hstep
    · simp only [Session.retreat, h]
      exact retrace form s s.path
  | ok step =>
    obtain ⟨path, shifted, hshift, -⟩ := exists_shift hstep false
    cases shifted with
    | true =>
      simp only [Session.retreat, hshift]
      exact .shifts path (.inr rfl) (ne_nil_of_shift hshift)
    | false =>
      simp only [Session.retreat, hshift]
      exact retrace form s path

theorem jump (form : Form) (s : Session) (stepId : Value) :
    s.Comes form (.jump stepId) ((s.jump form stepId).outcome.map some)
      (s.jump form stepId).session := by
  unfold Session.jump
  split
  · exact .stays (.inl rfl)
  · rename_i step hstep
    split
    · exact .stays (.inl rfl)
    · exact .forth .null .null (.inl rfl) (Form.has_of_stepOf? hstep) nofun nofun

end Comes

/-- **Every request comes to one of these**, whatever the session and the form. -/
theorem comes_apply (form : Form) (s : Session) (r : Request) :
    s.Comes form r (r.outcome form s) (r.apply form s) := by
  cases r with
  | select fieldId value => exact .select form s fieldId value
  | set fieldId value => exact .set form s fieldId value
  | enter fieldId => exact .enter form s fieldId
  | advance => exact .advance form s
  | retreat => exact .retreat form s
  | jump stepId => exact .jump form s stepId
  | reset => exact .restarts

/-- On a step of the form every request is answered, if its answers have names. -/
theorem Comes.exists_ok {r : Request} {o : Except Error (Option Outcome)} {s' : Session}
    (h : s.Comes form r o s') (hhas : form.Has s.current) (hr : r.isNamed = true) :
    ∃ outcome, o = .ok outcome := by
  cases h with
  | fails e _ hunnamed =>
    rw [hunnamed hhas] at hr
    cases hr
  | stays | forth | enters | shifts | submits | halts | back | restarts => exact ⟨_, rfl⟩

/-! ### Where a request leads -/

/-- What a request can do to the place of a session, to the steps visited and to the log of moves.
-/
inductive Goes (form : Form) (s s' : Session) : Prop
  /-- The session stays on its step. -/
  | stays : s'.current = s.current → s'.history = s.history → s'.transitions = s.transitions →
      Goes form s s'
  /-- The session moves to a step of the form, and the step left behind is put on the history. -/
  | forth (v : Value) (trigger : Trigger) (fieldId value : Value) : form.Has v →
      trigger ≠ .back → trigger ≠ .restart → s'.current = v →
      s'.history = s.history ++ [s.current] →
      s'.transitions = s.transitions ++
        [{ source := s.current, target := v, trigger := .text trigger.name, fieldId, value }] →
      Goes form s s'
  /-- The session moves back from a step that is not the first one of the document: to the step
  visited last, or to a step of the form if none is left. -/
  | back (v : Value) : form.indexOf? s.current ≠ some 0 →
      s.history.getLast? = some v ∨ s.history = [] ∧ form.Has v →
      s'.current = v → s'.history = s.history.dropLast →
      s'.transitions = s.transitions ++
        [{ source := s.current, target := v, trigger := .text Trigger.back.name }] →
      Goes form s s'
  /-- The session starts again on a step of the form. -/
  | restart (v : Value) : form.Has v → s'.current = v → s'.history = [] →
      s'.transitions = s.transitions ++
        [{ source := s.current, target := v, trigger := .text Trigger.restart.name }] →
      Goes form s s'

theorem exists_firstStep? (h : form.steps ≠ []) :
    ∃ first, form.firstStep? = some first ∧ first ∈ form.steps := by
  unfold Form.firstStep?
  split
  · rename_i entry hentry
    exact ⟨entry, rfl, List.mem_of_find?_eq_some hentry⟩
  · obtain ⟨first, rest, hsteps⟩ := List.exists_cons_of_ne_nil h
    exact ⟨first, by rw [hsteps]; rfl, by rw [hsteps]; exact List.mem_cons_self⟩

/-- A fresh session shows a step of the form, with nothing entered, answered or visited. -/
theorem exists_of_begin (h : form.begin none = .ok s) :
    ∃ first ∈ form.steps, form.firstStep? = some first ∧ s = { current := .text first.id } := by
  simp only [Form.begin] at h
  split at h
  · cases h
  · rename_i first hfirst
    refine ⟨first, ?_, hfirst, (Except.ok.inj h).symm⟩
    simp only [Form.firstStep?] at hfirst
    split at hfirst
    · rename_i entry hentry
      cases hfirst
      exact List.mem_of_find?_eq_some hentry
    · exact List.mem_of_head? hfirst

/-- A fresh session shows the first step. -/
theorem eq_of_begin {first : Step} (hfirst : form.firstStep? = some first)
    (h : form.begin none = .ok s) : s = { current := .text first.id } := by
  simp only [Form.begin, hfirst] at h
  exact (Except.ok.inj h).symm

theorem Goes.reset (h : form.steps ≠ []) (s : Session) : s.Goes form (s.reset form) := by
  obtain ⟨first, hfirst, hmem⟩ := exists_firstStep? h
  have hcurrent : (s.reset form).current = .text first.id := by simp [Session.reset, hfirst]
  refine .restart (.text first.id) ⟨first, hmem, rfl⟩ hcurrent rfl ?_
  simp [Session.reset, hfirst]

theorem Comes.goes {r : Request} {o : Except Error (Option Outcome)} {s' : Session}
    (hsteps : form.steps ≠ []) (h : s.Comes form r o s') : s.Goes form s' := by
  cases h with
  | fails | stays | enters | shifts | submits | halts => exact .stays rfl rfl rfl
  | forth fieldId value _ hv hback hrestart =>
    exact .forth _ _ fieldId value hv hback hrestart rfl rfl rfl
  | back v hfirst hv => exact .back v hfirst hv rfl rfl rfl
  | restarts => exact .reset hsteps s

/-- Every request on a form with steps leads on as said. -/
theorem goes_apply (h : form.steps ≠ []) (s : Session) (r : Request) :
    s.Goes form (r.apply form s) :=
  (comes_apply form s r).goes h

end Session

end BranchForm
