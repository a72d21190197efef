import BranchForm.Proofs.Return

/-!
# Retracing a branch

A respondent who only picks choices walks down the tree, and answers every question once. Going back
as often walks up again the same way, and going on as often walks down once more, along the answers.

* `Form.Arranged.nodup_questionIds` : the questions of a compiled form go by different names, if the
  ids of the tree are distinct texts and none gives the name of the entry question. So an answer to
  one of them leaves the others (`Form.Asks.id_ne`, `Form.Asks.answer_withAnswer`);
* `Form.LeadsOn` says that the answers on one step lead to another, `Form.Arranged.rankOf_lt` that
  this goes down, so that a walk comes to no step twice;
* `Session.Trails` is the invariant of picking choices: the answers lead along the steps visited,
  and no question is answered that was not passed. `Session.Trails.select` is its step,
  `Session.Trails.picks` holds of whole runs;
* `Session.StandsAt.retreat` and `Session.StandsAt.advance` move along such a walk one step back or
  on, `Session.StandsAt.retreats` and `Session.StandsAt.advances` several steps;
* `retraces_of_compile` puts them together.
-/

namespace BranchForm

/-! ### The names of questions -/

/-- The names of the questions of some steps. -/
def questionIds (steps : List Step) : List (List Value) := steps.map fun s => s.fields.map Field.id

open OptionTree (branching mem_branching preorderAll)

theorem questionIds_choices {settings : CompileSettings} {n : Nat} {ts : List OptionTree}
    {out : Compiled (List Choice)} (h : compileChoices settings n ts = .ok out) :
    (questionIds out.steps).Perm
      ((branching ts).map fun u => [.text (branchFieldId u.id)]) := by
  obtain ⟨pairs, hsteps, hnodes, hstands⟩ := paired_choices h
  have hids : questionIds out.steps =
      (pairs.map Prod.snd).map fun u => [.text (branchFieldId u.id)] := by
    rw [← hsteps, questionIds, List.map_map, List.map_map]
    refine List.map_congr_left fun p hp => (hstands p hp).fieldIds_eq ?_
    exact (mem_branching.1 (hnodes.mem_iff.1 (List.mem_map_of_mem hp))).2
  rw [hids]
  exact hnodes.map _

/-- Where the ids of the nodes are distinct texts, their questions go by different names. -/
theorem nodup_branchFieldIds {ts : List OptionTree} (hids : OptionTree.Identified ts) :
    ((branching ts).map fun u => Value.text (branchFieldId u.id)).Nodup := by
  refine List.Nodup.map_on (fun u hu v hv heq => ?_) ((List.Nodup.of_map _ hids.ids).filter _)
  obtain ⟨hu, -⟩ := mem_branching.1 hu
  obtain ⟨hv, -⟩ := mem_branching.1 hv
  apply List.inj_on_of_nodup_map hids.ids hu hv
  exact hids.eq_of_branchFieldId hu hv (Value.text.inj heq)

theorem nodup_questionIds_choices {settings : CompileSettings} {n : Nat} {ts : List OptionTree}
    {out : Compiled (List Choice)} (h : compileChoices settings n ts = .ok out)
    (hids : OptionTree.Identified ts) : (questionIds out.steps).Nodup := by
  rw [(questionIds_choices h).nodup_iff]
  simpa only [List.map_map, Function.comp_def] using
    (nodup_branchFieldIds hids).map (List.singleton_injective (α := Value))

namespace Form.Arranged

variable {settings : CompileSettings} {root : Node} {ts : List OptionTree} {n : Nat}
  {inner : Compiled (List Choice)} {form : Form} {entryId : String}

/-- The questions in front of the terminal step go by different names. -/
theorem nodup_questionIds (h : form.Arranged settings root inner.result inner.steps)
    (hinner : compileChoices settings n ts = .ok inner)
    (hentry : settings.entryFieldId = .text (branchFieldId (.text entryId)))
    (hids : OptionTree.Identified ts)
    (hfree : ∀ u ∈ preorderAll ts, u.children ≠ [] → u.id ≠ .text entryId) :
    (questionIds form.steps.dropLast).Nodup := by
  have hsteps : form.steps.dropLast = entryStep settings root inner.result :: inner.steps := by
    rw [h.steps, List.dropLast_concat]
  rw [hsteps, questionIds, List.map_cons, List.nodup_cons]
  refine ⟨fun hentered => ?_, nodup_questionIds_choices hinner hids⟩
  -- a branch step with the name of the entry question would come from a node with its id
  obtain ⟨u, hu, heq⟩ := List.mem_map.1 ((questionIds_choices hinner).mem_iff.1 hentered)
  obtain ⟨hmem, hne⟩ := mem_branching.1 hu
  obtain ⟨i, hi⟩ := hids.texts u hmem
  have hname : branchFieldId (.text i) = branchFieldId (.text entryId) := by
    simpa [entryStep, Field.id, Field.question, hentry, hi] using heq
  exact hfree u hmem hne (by rw [hi, branchFieldId_inj hname])

end Form.Arranged

/-- Different steps ask their questions under different names. -/
theorem Form.Asks.id_ne {form : Form} (hnames : (questionIds form.steps.dropLast).Nodup)
    {i j : Nat} {step step' : Step} {f g : Field} (hi : form.Asks i step f)
    (hj : form.Asks j step' g) (hne : step.id ≠ step'.id) : f.id ≠ g.id := by
  have hname : ∀ {i step f}, form.Asks i step f →
      (questionIds form.steps.dropLast)[i]? = some [f.id] := by
    intro i step f hasks
    have hlt := hasks.lt
    rw [questionIds, List.getElem?_map, List.getElem?_dropLast, if_pos (by omega), hasks.place,
      Option.map_some, hasks.fields]
    rfl
  have hlt : i < (questionIds form.steps.dropLast).length :=
    (List.getElem?_eq_some_iff.1 (hname hi)).1
  intro heq
  obtain rfl : i = j := (List.getElem?_inj hlt hnames).1 (by rw [hname hi, hname hj, heq])
  exact hne (congrArg Step.id (Option.some.inj (hi.place.symm.trans hj.place)))

/-- An answer to one question leaves that to another. -/
theorem Form.Asks.answer_withAnswer {form : Form} {i j : Nat} {step step' : Step} {f g : Field}
    {s : Session} {stored : Value} (hi : form.Asks i step f) (hj : form.Asks j step' g)
    (hne : f.id ≠ g.id) : (s.withAnswer g.id stored).answer f.id = s.answer f.id := by
  obtain ⟨name, hname⟩ := hi.named
  obtain ⟨other, hother⟩ := hj.named
  rw [hname, hother] at hne ⊢
  exact Members.getOrNull_put_of_ne _ _ fun heq => hne (congrArg Value.text heq)

/-! ### Walks down -/

namespace Walk

/-- How far a place is from the end of a walk down: the first place is the farthest, and the last
one is the end. -/
def rank (count i : Nat) : Nat := if i = 0 then count else if i + 1 = count then 0 else i

variable {count i j : Nat} {lead : Nat → Option Nat}

theorem Leads.rank_lt (h : Leads count lead) (hi : i + 1 < count) (hj : lead i = some j) :
    rank count j < rank count i := by
  rcases Nat.eq_zero_or_pos i with rfl | hpos
  · obtain ⟨hj0, hjlt⟩ := h.first j hj
    simp only [rank]
    split_ifs <;> omega
  · simp only [rank]
    rcases h.back i j hpos hi hj with hend | ⟨hj0, hji⟩
    · split_ifs <;> omega
    · split_ifs <;> omega

end Walk

namespace Form

variable {form : Form} {answers : Members} {v w : Value}

/-- The answers on the step of one id lead to the step of another. -/
def LeadsOn (form : Form) (answers : Members) (v w : Value) : Prop :=
  ∃ i step f c, form.Asks i step f ∧ v = .text step.id ∧ f.answered? answers = some c ∧ w = c.target

/-- The rank of the place of a step. -/
def rankOf (form : Form) (v : Value) : Nat :=
  ((form.indexOf? v).map (Walk.rank form.steps.length)).getD 0

theorem LeadsOn.exists_place (h : form.LeadsOn answers v w) :
    ∃ j, form.indexOf? w = some (j + 1) := by
  obtain ⟨i, step, f, c, hasks, -, hc, rfl⟩ := h
  obtain ⟨answer, -, hchoice⟩ := List.exists_of_findSome?_eq_some hc
  exact (hasks.links c (List.mem_of_find?_eq_some hchoice)).place

/-- Answers lead down. -/
theorem Arranged.rankOf_lt {settings : CompileSettings} {root : Node} {choices : List Choice}
    {branches : List Step} (harranged : form.Arranged settings root choices branches)
    (h : form.LeadsOn answers v w) : form.rankOf w < form.rankOf v := by
  obtain ⟨j, hj⟩ := h.exists_place
  obtain ⟨i, step, f, c, hasks, rfl, hc, rfl⟩ := h
  have hi : form.indexOf? (.text step.id) = some i :=
    stepIndex?_of_getElem? harranged.nodup_stepIds hasks.place
  have hlead : form.leadPlace answers i = some (j + 1) := by
    rw [hasks.leadPlace_eq, hc]
    exact hj
  simpa [rankOf, hi, hj] using (harranged.leads_leadPlace answers).rank_lt hasks.lt hlead

end Form

/-! ### Picking choices -/

/-- The steps visited, with the step shown at the end. -/
def Standing.trail (p : Standing) : List Value := p.history ++ [p.current]

theorem Standing.eq_of_trail {p q : Standing} (h : p.trail = q.trail) : p = q := by
  obtain ⟨hhistory, hcurrent⟩ := List.append_inj' h rfl
  obtain ⟨v, visited⟩ := p
  obtain ⟨w, visited'⟩ := q
  rw [Standing.mk.injEq]
  exact ⟨List.singleton_inj.1 hcurrent, hhistory⟩

namespace Session

/-- The session after picking values in fields, one after the other. -/
def picks (form : Form) : Session → List (Value × Value) → Session
  | s, [] => s
  | s, (fieldId, value) :: rest => (s.select form fieldId value).session.picks form rest

/-- Every pick moves. -/
def Moves (form : Form) : Session → List (Value × Value) → Prop
  | _, [] => True
  | s, (fieldId, value) :: rest => (s.select form fieldId value).outcome = .ok .moved ∧
      (s.select form fieldId value).session.Moves form rest

/-- The answers lead along the steps visited to the step shown, and the questions of all other steps
have no answers. -/
structure Trails (form : Form) (s : Session) : Prop where
  /-- No nested fields are entered. -/
  path : s.path = []
  /-- The answers lead from each step to the next. -/
  chain : s.standing.trail.IsChain (form.LeadsOn s.answers)
  /-- There are no other answers. -/
  fresh : ∀ i step f, form.Asks i step f → .text step.id ∉ s.history → s.answer f.id = .null

variable {form : Form} {s : Session}

theorem length_trail (s : Session) : s.standing.trail.length = s.history.length + 1 := by
  simp [Standing.trail, standing]

/-- A longer trail has as many more visits. -/
theorem length_history_of_trail {s' : Session} {more : List Value}
    (h : s'.standing.trail = s.standing.trail ++ more) :
    s'.history.length = s.history.length + more.length := by
  have hlength := congrArg List.length h
  rw [List.length_append, length_trail, length_trail] at hlength
  omega

theorem picks_append (s : Session) (before after : List (Value × Value)) :
    s.picks form (before ++ after) = (s.picks form before).picks form after := by
  induction before generalizing s with
  | nil => rfl
  | cons p before ih => exact ih _

theorem moves_append {before after : List (Value × Value)} (h : s.Moves form (before ++ after)) :
    s.Moves form before ∧ (s.picks form before).Moves form after := by
  induction before generalizing s with
  | nil => exact ⟨trivial, h⟩
  | cons p before ih =>
    obtain ⟨hbefore, hafter⟩ := ih h.2
    exact ⟨⟨h.1, hbefore⟩, hafter⟩

namespace Trails

variable {settings : CompileSettings} {root : Node} {choices : List Choice} {branches : List Step}

/-- The step shown is farther down than the steps visited. -/
theorem rankOf_current_lt (harranged : form.Arranged settings root choices branches)
    (h : s.Trails form) : ∀ v ∈ s.history, form.rankOf s.current < form.rankOf v := by
  intro v hv
  have hdown : (s.history ++ [s.current]).IsChain fun v w => form.rankOf w < form.rankOf v :=
    h.chain.imp fun _ _ => harranged.rankOf_lt
  -- being lower is transitive, so it holds of any two steps of the chain
  exact (List.pairwise_append.1 hdown.pairwise).2.2 v hv _ (List.mem_singleton_self _)

section Pick

variable {i : Nat} {step : Step} {f : Field}

/-- An answer on the step shown leaves the answers of the steps visited. -/
theorem chain_withAnswer (harranged : form.Arranged settings root choices branches)
    (hnames : (questionIds form.steps.dropLast).Nodup) (h : s.Trails form)
    (hasks : form.Asks i step f) (hcurrent : s.current = .text step.id) (stored : Value) :
    (s.history ++ [s.current]).IsChain (form.LeadsOn (s.withAnswer f.id stored).answers) := by
  refine h.chain.imp_of_mem_imp fun v w _ hw hlead => ?_
  -- nothing that the step shown leads to has been visited
  have hne : v ≠ s.current := by
    rintro rfl
    have hlt := harranged.rankOf_lt hlead
    rcases List.mem_append.1 hw with hw | hw
    · exact Nat.lt_asymm hlt (h.rankOf_current_lt harranged w hw)
    · exact Nat.lt_irrefl _ (List.mem_singleton.1 hw ▸ hlt)
  obtain ⟨j, step', g, c, hg, rfl, hc, rfl⟩ := hlead
  have hid : g.id ≠ f.id := hg.id_ne hnames hasks fun heq => hne (by rw [heq, hcurrent])
  refine ⟨j, step', g, c, hg, rfl, ?_, rfl⟩
  have hkept : Members.getOrNull (s.withAnswer f.id stored).answers g.id =
      Members.getOrNull s.answers g.id := hg.answer_withAnswer hasks hid
  rw [Field.answered?, Form.answersTo, hkept]
  exact hc

/-- An answer on the step shown answers no other question. -/
theorem fresh_withAnswer (hnames : (questionIds form.steps.dropLast).Nodup) (h : s.Trails form)
    (hasks : form.Asks i step f) (hcurrent : s.current = .text step.id) (stored : Value) {j : Nat}
    {step' : Step} {g : Field} (hg : form.Asks j step' g)
    (hvisited : .text step'.id ∉ s.history ++ [s.current]) :
    (s.withAnswer f.id stored).answer g.id = .null := by
  rw [List.mem_append, List.mem_singleton, not_or, hcurrent] at hvisited
  have hid : g.id ≠ f.id := hg.id_ne hnames hasks fun heq => hvisited.2 (by rw [heq])
  exact (hg.answer_withAnswer hasks hid).trans (h.fresh j step' g hg hvisited.1)

/-- A pick that moves makes the trail longer. -/
theorem select (harranged : form.Arranged settings root choices branches)
    (hnames : (questionIds form.steps.dropLast).Nodup) (h : s.Trails form)
    (hasks : form.Asks i step f) (hcurrent : s.current = .text step.id)
    {fieldId value : Value} (hmoved : (s.select form fieldId value).outcome = .ok .moved) :
    (s.select form fieldId value).session.Trails form ∧
      (s.select form fieldId value).session.history = s.history ++ [s.current] := by
  obtain ⟨rfl, ⟨v, rfl⟩, c, hmem, hc, hsession⟩ :=
    select_of_asks harranged.nodup_stepIds hasks hcurrent hmoved
  obtain ⟨name, hname⟩ := hasks.named
  -- the step shown was not visited before, so nothing was picked there that could come first
  have hunanswered : s.answer f.id = .null := h.fresh i step f hasks fun hmem =>
    Nat.lt_irrefl _ (h.rankOf_current_lt harranged _ (hcurrent ▸ hmem))
  have hearlier : s.earlierChoice? f = none := by
    simp [earlierChoice?, pickedBefore, hunanswered]
  have hlead : form.LeadsOn (s.withAnswer f.id (s.answerAfter f f.id (.text v))).answers s.current
      c.target := by
    refine ⟨i, step, f, c, hasks, hcurrent, ?_, rfl⟩
    rw [answered?_answerAfter hname hc, hearlier, Option.getD_none]
  have hlast : ∀ u ∈ (s.history ++ [s.current]).getLast?, ∀ w ∈ [c.target].head?,
      form.LeadsOn (s.withAnswer f.id (s.answerAfter f f.id (.text v))).answers u w := by
    simpa using hlead
  rw [hsession]
  refine ⟨⟨rfl, ?_, ?_⟩, rfl⟩
  · have hbefore :=
      h.chain_withAnswer harranged hnames hasks hcurrent (s.answerAfter f f.id (.text v))
    exact List.isChain_append.2 ⟨hbefore, .singleton _, hlast⟩
  · exact fun j step' g hg => h.fresh_withAnswer hnames hasks hcurrent _ hg

end Pick

/-- A run of picks that move makes the trail longer by one step for each. -/
theorem picks {ts : List OptionTree} {n : Nat} {inner : Compiled (List Choice)}
    (harranged : form.Arranged settings root inner.result inner.steps)
    (hinner : compileChoices settings n ts = .ok inner) {entryFieldId : String}
    (hentry : settings.entryFieldId = .text entryFieldId)
    (hplain : ∀ f ∈ settings.finalFields, f.subFields = [] ∧ f.choices = [])
    (hnames : (questionIds form.steps.dropLast).Nodup) (h : s.Trails form)
    {ps : List (Value × Value)} (hmoves : s.Moves form ps) :
    (s.picks form ps).Trails form ∧ ∃ more, more.length = ps.length ∧
      (s.picks form ps).standing.trail = s.standing.trail ++ more := by
  induction ps generalizing s with
  | nil => exact ⟨h, [], rfl, (List.append_nil _).symm⟩
  | cons p ps ih =>
    obtain ⟨hmoved, hrest⟩ := hmoves
    obtain ⟨i, step, f, hasks, hcurrent⟩ :=
      harranged.exists_asks_of_moved hinner hentry hplain hmoved
    obtain ⟨hfirst, hhistory⟩ := h.select harranged hnames hasks hcurrent hmoved
    obtain ⟨htrails, more, hlength, htrail⟩ := ih hfirst hrest
    refine ⟨htrails, (s.select form p.1 p.2).session.current :: more, by simp [hlength], ?_⟩
    exact htrail.trans (by simp [Standing.trail, standing, hhistory])

end Trails

/-! ### Going back and on along a walk -/

/-- The session after going back several times. -/
def retreats (form : Form) (s : Session) : Nat → Session
  | 0 => s
  | k + 1 => ((s.retreats form k).retreat form).session

/-- The session stands at a place of a walk, with the steps before it visited. -/
structure StandsAt (walk : List Value) (answers : Members) (s : Session) (m : Nat) : Prop where
  /-- No nested fields are entered. -/
  path : s.path = []
  /-- The answers given. -/
  answers : s.answers = answers
  /-- The steps visited and the step shown. -/
  trail : s.standing.trail = walk.take (m + 1)

namespace StandsAt

variable {walk : List Value} {answers : Members} {m : Nat}

theorem history_eq (h : s.StandsAt walk answers m) (hm : m < walk.length) :
    s.history = walk.take m ∧ s.current = walk[m] := by
  have htrail := h.trail
  rw [List.take_succ_eq_append_getElem hm] at htrail
  obtain ⟨hhistory, hcurrent⟩ := List.append_inj' htrail rfl
  exact ⟨hhistory, List.singleton_inj.1 hcurrent⟩

/-- Going back from a place behind the first step of the document leads to the place before it. -/
theorem retreat (h : s.StandsAt walk answers (m + 1)) (hm : m + 1 < walk.length)
    (hplace : ∃ j, form.indexOf? walk[m + 1] = some (j + 1)) :
    (s.retreat form).outcome = .ok .moved ∧
      (s.retreat form).session.StandsAt walk answers m := by
  obtain ⟨hhistory, hcurrent⟩ := h.history_eq hm
  obtain ⟨j, hj⟩ := hplace
  have hback := retreat_of_history h.path (hcurrent ▸ hj)
    (hhistory.trans (List.take_succ_eq_append_getElem (by omega)))
  rw [hback]
  refine ⟨rfl, rfl, h.answers, ?_⟩
  exact (List.take_succ_eq_append_getElem (by omega)).symm

theorem retreats (h : s.StandsAt walk answers m) (hm : m < walk.length) {k : Nat} (hk : k ≤ m)
    (hplaces : ∀ i, m - k ≤ i → ∀ hi : i + 1 < walk.length,
      ∃ j, form.indexOf? walk[i + 1] = some (j + 1)) :
    (s.retreats form k).StandsAt walk answers (m - k) := by
  induction k with
  | zero => exact h
  | succ k ih =>
    have hstands := ih (by omega) fun i hi => hplaces i (by omega)
    rw [show m - k = m - (k + 1) + 1 by omega] at hstands
    exact (hstands.retreat (by omega) (hplaces _ (Nat.le_refl _) (by omega))).2

section Walk

variable (hwalk : walk.IsChain (form.LeadsOn answers))
include hwalk

theorem advance (hd : form.stepIds.Nodup) (h : s.StandsAt walk answers m)
    (hm : m + 1 < walk.length) :
    (s.advance form).outcome = .ok .moved ∧
      (s.advance form).session.StandsAt walk answers (m + 1) := by
  obtain ⟨hhistory, hcurrent⟩ := h.history_eq (by omega)
  obtain ⟨i, step, f, c, hasks, hstep, hc, htarget⟩ := List.isChain_iff_getElem.1 hwalk m hm
  have hon := advance_of_asks hd hasks (hcurrent.trans hstep) h.path (h.answers ▸ hc)
  rw [hon]
  refine ⟨rfl, rfl, h.answers, ?_⟩
  rw [List.take_succ_eq_append_getElem hm, htarget, ← h.trail]
  rfl

theorem advances (hd : form.stepIds.Nodup) (h : s.StandsAt walk answers m) {k : Nat}
    (hk : m + k < walk.length) : (s.advances form k).StandsAt walk answers (m + k) := by
  induction k with
  | zero => exact h
  | succ k ih => exact ((ih (by omega)).advance hwalk hd hk).2

end Walk

end StandsAt

/-! Back and on along the walk of a session itself. -/

namespace Trails

variable (h : s.Trails form)
include h

/-- Answers lead behind the first step of the document. -/
theorem exists_place {i : Nat} (hi : i + 1 < s.standing.trail.length) :
    ∃ j, form.indexOf? s.standing.trail[i + 1] = some (j + 1) :=
  (List.isChain_iff_getElem.1 h.chain i hi).exists_place

theorem retreats {j k : Nat} (hk : j + k = s.history.length) :
    (s.retreats form k).StandsAt s.standing.trail s.answers j := by
  have hlength := s.length_trail
  have hend : s.StandsAt s.standing.trail s.answers s.history.length :=
    ⟨h.path, rfl, (List.take_of_length_le (by omega)).symm⟩
  have hstands := hend.retreats (k := k) (by omega) (by omega) fun _ _ => h.exists_place
  rwa [← hk, Nat.add_sub_cancel] at hstands

theorem advances (hd : form.stepIds.Nodup) {j : Nat} (hj : j ≤ s.history.length) :
    ((s.retreats form s.history.length).advances form j).StandsAt s.standing.trail s.answers j := by
  have hlength := s.length_trail
  have hstart := h.retreats (j := 0) (Nat.zero_add _)
  simpa using hstart.advances h.chain hd (by omega)

/-- Behind the first step going back moves, and before the last one going on does. -/
theorem moved (hd : form.stepIds.Nodup) {k : Nat} (hk : k < s.history.length) :
    ((s.retreats form k).retreat form).outcome = .ok .moved ∧
      (((s.retreats form s.history.length).advances form k).advance form).outcome = .ok .moved := by
  have hlength := s.length_trail
  obtain ⟨j, hj⟩ := Nat.exists_eq_add_of_lt hk
  have hback := h.retreats (j := j + 1) (k := k) (by omega)
  exact ⟨(hback.retreat (by omega) (h.exists_place (by omega))).1,
    ((h.advances hd (Nat.le_of_lt hk)).advance h.chain hd (by omega)).1⟩

end Trails

end Session

/-- **A branch is retraced.** In the compiled form of a tree whose ids are distinct texts, none of
which gives a branch the name of the entry question, a respondent only picks choices from a fresh
session on, and every pick moves. Then going back as often moves every time and shows the same steps
the other way round, up to the entry step with nothing visited. Going on as often moves every time
and shows them once more. The answers stay as they are. -/
theorem retraces_of_compile {t : OptionTree} {form : Form} {s₀ s back : Session}
    {ps : List (Value × Value)} (hids : ∀ i ∈ t.idsBelow, ∃ s, i = .text s)
    (hdistinct : t.idsBelow.Nodup)
    (hfree : ∀ u ∈ OptionTree.preorderAll t.children, u.children ≠ [] → u.id ≠ "main")
    (h : compile {} (some t) = .ok form) (hbegin : form.begin none = .ok s₀)
    (hmoves : s₀.Moves form ps) (hs : s = s₀.picks form ps)
    (hback : back = s.retreats form ps.length) :
    s₀.standing = ⟨.text entryStepId, []⟩ ∧
      (∀ k < ps.length, ((s.retreats form k).retreat form).outcome = .ok .moved ∧
        ((back.advances form k).advance form).outcome = .ok .moved) ∧
      ∀ before after, ps = before ++ after →
        (s.retreats form after.length).standing = (s₀.picks form before).standing ∧
        (s.retreats form after.length).answers = s.answers ∧
        (back.advances form before.length).standing = (s₀.picks form before).standing ∧
        (back.advances form before.length).answers = s.answers := by
  obtain ⟨inner, hinner, harranged⟩ :=
    Form.arranged_of_has h (Session.onForm_of_begin hbegin).current
  have hd := harranged.nodup_stepIds
  have hnames := harranged.nodup_questionIds hinner rfl
    ⟨fun u hu => hids u.id (List.mem_map_of_mem hu), hdistinct⟩ hfree
  have hfirst : form.firstStep? = some (entryStep {} t.data inner.result) := by
    rw [Form.firstStep?, harranged.entry?_eq]
  have hstart : s₀ = { current := .text entryStepId } := Session.eq_of_begin hfirst hbegin
  have hfresh : s₀.Trails form := by
    rw [hstart]
    exact ⟨rfl, .singleton _, fun _ _ _ _ _ => rfl⟩
  have hrun : ∀ {s : Session} {ps : List (Value × Value)}, s.Trails form → s.Moves form ps →
      (s.picks form ps).Trails form ∧ ∃ more : List Value, more.length = ps.length ∧
        (s.picks form ps).standing.trail = s.standing.trail ++ more := fun htrails hmoves =>
    htrails.picks harranged hinner rfl (by decide) hnames hmoves
  have hvisited : ∀ {ps : List (Value × Value)}, s₀.Moves form ps →
      (s₀.picks form ps).history.length = ps.length := by
    intro ps hmoves
    obtain ⟨-, more, hmore, htrail⟩ := hrun hfresh hmoves
    rw [Session.length_history_of_trail htrail, hmore, hstart]
    exact Nat.zero_add _
  have hlength : s.history.length = ps.length := hs ▸ hvisited hmoves
  have htrails : s.Trails form := hs ▸ (hrun hfresh hmoves).1
  rw [← hlength] at hback ⊢
  refine ⟨by rw [hstart]; rfl, fun k hk => hback ▸ htrails.moved hd hk, ?_⟩
  rintro before after rfl
  obtain ⟨hbefore, hafter⟩ := Session.moves_append hmoves
  obtain ⟨-, rest, -, hrest⟩ := hrun (hrun hfresh hbefore).1 hafter
  rw [← Session.picks_append, ← hs] at hrest
  -- the trail after the first picks is the front of the whole trail, along which both ways lead
  have hthere : (s₀.picks form before).standing.trail =
      s.standing.trail.take (before.length + 1) := by
    rw [hrest, List.take_left' (by rw [Session.length_trail, hvisited hbefore])]
  rw [List.length_append] at hlength
  have hup := htrails.retreats hlength.symm
  have hdown := htrails.advances hd (show before.length ≤ s.history.length by omega)
  rw [← hback] at hdown
  exact ⟨Standing.eq_of_trail (hup.trail.trans hthere.symm), hup.answers,
    Standing.eq_of_trail (hdown.trail.trans hthere.symm), hdown.answers⟩

/-- Down the tree of the garage, through the branch that takes several choices. -/
def fleetPicks : List (Value × Value) :=
  [("main_selection", "vehicles"), ("vehicles_selection", "car"), ("car_selection", "sedan")]

theorem retraces_fleet :
    ∃ s₀ s back, compile {} (some fleet) = .ok fleetForm ∧ fleetForm.begin none = .ok s₀ ∧
      s₀.Moves fleetForm fleetPicks ∧ s = s₀.picks fleetForm fleetPicks ∧
      back = s.retreats fleetForm 3 ∧ back.standing = ⟨"step1", []⟩ ∧ back.answers = s.answers ∧
      (back.advances fleetForm 3).standing = s.standing := by
  let s₀ : Session := { current := .text entryStepId }
  have hids : ∀ i ∈ fleet.idsBelow, ∃ s, i = .text s := by
    have h : fleet.idsBelow = ["vehicles", "car", "sedan", "bike"].map .text := rfl
    simp [h]
  have hmoves : s₀.Moves fleetForm fleetPicks :=
    ⟨eq_ok_of_toOption (by decide +kernel), eq_ok_of_toOption (by decide +kernel),
      eq_ok_of_toOption (by decide +kernel), trivial⟩
  obtain ⟨hstart, -, hsplit⟩ := retraces_of_compile hids (by decide +kernel) (by decide +kernel)
    compile_fleet rfl hmoves rfl rfl
  obtain ⟨hback, hanswers, -⟩ := hsplit [] fleetPicks rfl
  obtain ⟨-, -, hon, -⟩ := hsplit fleetPicks [] (List.append_nil _).symm
  exact ⟨s₀, _, _, compile_fleet, rfl, hmoves, rfl, rfl, hback.trans hstart, hanswers, hon⟩

end BranchForm
