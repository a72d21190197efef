import BranchForm.Proofs.OnForm

/-!
# The log of moves

A session logs its moves and never looks at the log again. The records tell all the same where the
session is: from the step it began on, the step shown and the steps visited can be read off them.

* `Standing` is what the records tell, `Session.standing` what a session says itself;
* `Standing.follow?` reads one record, which must begin where the ones before it ended, and
  `Standing.replay?` a whole log;
* `Session.Goes.exists_replay?` : whatever a request does, it logs that and nothing else;
* `standing_of_log` : after every run the log replays to where the session stands.
-/

namespace BranchForm

/-! ### Reading a log -/

namespace Trigger

/-- All causes of moves. -/
def all : List Trigger := [.select, .value, .next, .back, .jump, .restart]

/-- The cause of a stored name. -/
def ofName? (name : String) : Option Trigger := all.find? fun trigger => trigger.name == name

theorem ofName?_name (trigger : Trigger) : ofName? trigger.name = some trigger := by
  cases trigger <;> rfl

/-- The steps visited after a move: going back takes the latest visit away, starting again all of
them, and every other move adds the step left behind. -/
def visited (source : Value) (history : List Value) : Trigger → List Value
  | .back => history.dropLast
  | .restart => []
  | .select | .value | .next | .jump => history ++ [source]

theorem visited_of_forth {trigger : Trigger} (hback : trigger ≠ .back)
    (hrestart : trigger ≠ .restart) (source : Value) (history : List Value) :
    trigger.visited source history = history ++ [source] := by
  cases trigger with
  | back => exact absurd rfl hback
  | restart => exact absurd rfl hrestart
  | select | value | next | jump => rfl

end Trigger

/-- Where a session stands: the step shown and the steps visited before, the latest at the end. -/
structure Standing where
  /-- The step shown. -/
  current : Value
  /-- The steps visited. -/
  history : List Value
  deriving DecidableEq, Repr

/-- Where a session stands by its own account. -/
def Session.standing (s : Session) : Standing := ⟨s.current, s.history⟩

namespace Standing

/-- Where a session stands after a logged move. The move must begin on the step shown. -/
def follow? (p : Standing) (t : Transition) : Option Standing :=
  if t.source = p.current then
    match t.trigger with
    | .text name => (Trigger.ofName? name).map fun trigger =>
      ⟨t.target, trigger.visited t.source p.history⟩
    | _ => none
  else none

/-- Where a session stands after the moves of a log, the first one first. -/
def replay? (p : Standing) (log : List Transition) : Option Standing := log.foldlM follow? p

theorem follow?_of_trigger {p : Standing} {t : Transition} {trigger : Trigger}
    (hsource : t.source = p.current) (htrigger : t.trigger = .text trigger.name) :
    p.follow? t = some ⟨t.target, trigger.visited t.source p.history⟩ := by
  simp only [follow?, hsource, htrigger, ↓reduceIte, Trigger.ofName?_name, Option.map_some]

theorem replay?_nil (p : Standing) : p.replay? [] = some p := rfl

theorem replay?_singleton (p : Standing) (t : Transition) : p.replay? [t] = p.follow? t := by
  simp [replay?]

theorem replay?_append (p : Standing) (log more : List Transition) :
    p.replay? (log ++ more) = (p.replay? log).bind fun q => q.replay? more := by
  simp [replay?, List.foldlM_append]

end Standing

/-! ### What is logged -/

namespace Session

variable {form : Form} {s s' : Session}

/-- What a request does to the standing of a session is what the records say that it adds to the
log. -/
theorem Goes.exists_replay? (h : s.Goes form s') :
    ∃ log, s'.transitions = s.transitions ++ log ∧ s.standing.replay? log = some s'.standing := by
  cases h with
  | stays hcurrent hhistory htransitions =>
    refine ⟨[], by rw [htransitions, List.append_nil], ?_⟩
    rw [Standing.replay?_nil, standing, standing, hcurrent, hhistory]
  | forth v trigger fieldId value _ hback hrestart hcurrent hhistory htransitions =>
    refine ⟨_, htransitions, ?_⟩
    rw [Standing.replay?_singleton, Standing.follow?_of_trigger rfl rfl,
      Trigger.visited_of_forth hback hrestart, standing, standing, hcurrent, hhistory]
  | back v _ _ hcurrent hhistory htransitions =>
    refine ⟨_, htransitions, ?_⟩
    rw [Standing.replay?_singleton, Standing.follow?_of_trigger rfl rfl, standing, standing,
      hcurrent, hhistory]
    rfl
  | restart v _ hcurrent hhistory htransitions =>
    refine ⟨_, htransitions, ?_⟩
    rw [Standing.replay?_singleton, Standing.follow?_of_trigger rfl rfl, standing, standing,
      hcurrent, hhistory]
    rfl

end Session

/-- **The log accounts for the session.** After every run of requests from a fresh session, the
records of the log follow one another without a gap from the first step on, and reading them off
leads to the step shown and to the steps visited. -/
theorem standing_of_log {form : Form} {first : Step} {allowed : Request → Bool} {s : Session}
    (hfirst : form.firstStep? = some first) (h : form.Reached allowed s) :
    Standing.replay? ⟨.text first.id, []⟩ s.transitions = some s.standing := by
  induction h with
  | fresh hbegin =>
    rw [Session.eq_of_begin hfirst hbegin]
    rfl
  | @next s r hreached _ ih =>
    have hsteps := (Session.onForm_of_reached hreached).steps_ne_nil
    obtain ⟨log, hlog, hreplay⟩ := (Session.goes_apply hsteps s r).exists_replay?
    rw [hlog, Standing.replay?_append, ih]
    exact hreplay

/-- The session in the labyrinth is started again, goes back before its first visit and moves on. -/
def labyrinthReturn : Session :=
  [.reset, .jump "cellar", .retreat, .retreat, .advance, .select "door" "b", .advance].foldl
    (fun s (r : Request) => r.apply labyrinth s) labyrinthSession

theorem standing_of_log_labyrinth :
    ∃ first, labyrinth.firstStep? = some first ∧
      labyrinth.Reached (fun _ => true) labyrinthReturn ∧
      labyrinthReturn.standing = ⟨"hall", ["hall", "cellar"]⟩ ∧
      Standing.replay? ⟨.text first.id, []⟩ labyrinthReturn.transitions =
        some labyrinthReturn.standing := by
  have hreached : labyrinth.Reached (fun _ => true) labyrinthReturn :=
    Form.Reached.run (Form.Reached.run (.fresh rfl) fun _ _ => rfl) fun _ _ => rfl
  exact ⟨_, rfl, hreached, by cbv, standing_of_log rfl hreached⟩

end BranchForm
