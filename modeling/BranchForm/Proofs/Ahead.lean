import BranchForm.Proofs.Requests
import BranchForm.Proofs.Settled
import BranchForm.Proofs.TreeShape

/-!
# What an editor shows below a choice and where a respondent gets by it

An editor shows a form as a tree: below the node of a choice stand the nodes of the choices of the
step it leads on to. A respondent who picks the choice lands on a step too. Both look the step up by
its id, but the editor takes the last step with the id and the respondent gets the first.

* `Form.LandsOn` says where a respondent gets by a choice; `Form.landsOn_of_stepOf?` : to the step
  that its target names;
* `Form.eq_or_repeated` : two steps with one id are one step, or the form repeats the id;
  `Form.exists_landing` puts the two views of one choice side by side;
* `openForm_ahead` : below every node of a reopened form stand the nodes of what the last step with
  the target's id offers, and a respondent lands on the first one; only a repeated id keeps the two
  apart, as in `openForm_forked`.
-/

namespace BranchForm

namespace Form

variable {form : Form}

/-- Following a choice from any step whose conditions leave the way open moves a respondent to the
step. -/
def LandsOn (form : Form) (c : Choice) (landing : Step) : Prop :=
  ∀ (s : Session) (step : Step) (fieldId value : Value), firedCondition? step s.answers = none →
    (s.follow (form.branchTarget s step fieldId (some c)) .select fieldId value).outcome =
        .ok .moved ∧
      (s.follow (form.branchTarget s step fieldId (some c)) .select fieldId value).session.step
        form = .ok landing

/-- A choice that leads on lands a respondent on the step that its target names. -/
theorem landsOn_of_stepOf? {c : Choice} {s : Step} (hon : c.LeadsOn)
    (h : form.stepOf? c.target = some s) : form.LandsOn c s := by
  intro session step fieldId value hquiet
  have hnull : c.target ≠ .null := fun hnull => by simp [hnull, Choice.LeadsOn, Value.truthy] at hon
  have hresolve : form.resolve session.current c.target = .ok c.target := by
    simp [resolve, hon.2, h]
  have hbranch : form.branchTarget session step fieldId (some c) = .ok (some c.target) := by
    simp only [branchTarget, hquiet, if_neg hnull, hresolve]
    rfl
  rw [hbranch]
  exact ⟨rfl, Session.step_of_stepOf? h⟩

/-- Two steps with one id are one step, or the form repeats the id. -/
theorem eq_or_repeated {s t : Step} (hs : s ∈ form.steps) (ht : t ∈ form.steps)
    (hid : s.id = t.id) : s = t ∨ 1 < form.stepIds.count s.id := by
  by_cases heq : s = t
  · exact .inl heq
  · have hcount : form.stepIds.count s.id = (form.steps.filter fun u => u.id == s.id).length := by
      rw [stepIds, List.count_eq_countP, List.countP_map, List.countP_eq_length_filter]
      rfl
    have hboth : [s, t] ⊆ form.steps.filter fun u => u.id == s.id := by
      intro u hu
      rw [List.mem_filter]
      rcases List.mem_cons.1 hu with rfl | hu
      · exact ⟨hs, beq_self_eq_true _⟩
      · obtain rfl := List.mem_singleton.1 hu
        exact ⟨ht, beq_iff_eq.2 hid.symm⟩
    have hpair : [s, t].Nodup := by simp [heq]
    have hle := (List.subperm_of_subset hpair hboth).length_le
    rw [hcount]
    exact .inr hle

/-- A choice with offers below it lands a respondent on the first step with the id it targets, while
the offers are those of the last. -/
theorem exists_landing {c : Choice} (hne : form.offersBelow c ≠ []) :
    ∃ first latest, form.stepOf? c.target = some first ∧ form.LandsOn c first ∧
      form.latestStep? first.id = some latest ∧ form.offersBelow c = latest.offers ∧
      (first = latest ∨ 1 < form.stepIds.count first.id) := by
  cases hnext : form.next? c with
  | none => simp [offersBelow, hnext] at hne
  | some latest =>
    obtain ⟨hon, hmem, htarget⟩ := of_next? hnext
    obtain ⟨first, hfirst⟩ := exists_stepOf?_of_has ⟨latest, hmem, htarget⟩
    obtain ⟨hmem', htarget'⟩ := of_stepOf? hfirst
    have hid : first.id = latest.id := Value.text.inj (htarget'.symm.trans htarget)
    have hlatest : form.latestStep? first.id = some latest := by
      rw [hid]
      exact latestStep?_of_next? hnext
    have hbelow : form.offersBelow c = latest.offers := by
      rw [offersBelow, hnext]
    exact ⟨first, latest, hfirst, landsOn_of_stepOf? hon hfirst, hlatest, hbelow,
      eq_or_repeated hmem' hmem hid⟩

/-- The offers of a form that was read have texts for ids. -/
theorem textual_of_offered {v : Value} (h : decode v = .ok form) {o : Offer}
    (ho : form.Offered o) : ∃ i, o.choice.id = .text i :=
  textual_of_decode h o.step ho.1.mem o.choice (Step.of_mem_offers ho.2).2

end Form

/-- **What an editor shows below a choice, and where a respondent gets by it.** Whenever a form that
was read is reopened as a tree, the top of the tree are the choices of the entry step, and every node
below the root is that of one choice. A node with children belongs to a choice that lands a
respondent on the first step with the id it targets; its children are, in order, the nodes of what
the last step with that id offers. The two are one step, or the form repeats the id. -/
theorem openForm_ahead {v : Value} {form : Form} {rootId : Value} {t : OptionTree}
    (hdecode : Form.decode v = .ok form)
    (h : (openForm form rootId true).outcome = .ok (some t)) :
    ∃ (met : List Offer) (node : Offer → OptionTree),
      Set.BijOn node {o | o ∈ met} {u | u ∈ OptionTree.preorderAll t.children} ∧
      (∃ entry, form.entry? = some entry ∧ t.children = entry.offers.map node) ∧
      ∀ o ∈ met, ∃ multiple children, node o = choiceNode o.choice multiple children ∧
        (children ≠ [] → ∃ first latest, form.stepOf? o.choice.target = some first ∧
          form.LandsOn o.choice first ∧ form.latestStep? first.id = some latest ∧
          latest.offers ⊆ met ∧ children = latest.offers.map node ∧
          (first = latest ∨ 1 < form.stepIds.count first.id)) := by
  rw [outcome_openForm_strict] at h
  obtain ⟨entry, children, after, hentry, -, hreopen, rfl, hrepeated⟩ := Form.exists_entry_of_reopen h
  obtain ⟨pairs, hdrawn, -, hnodup, hoffered⟩ := Form.exists_drawn hentry hreopen
  have hids : ((pairs.map Prod.fst).map fun o => o.choice.id).Nodup := by
    obtain ⟨ss, hss⟩ := Value.exists_texts (List.forall_mem_map.2 fun o ho =>
      Form.textual_of_offered hdecode (hoffered o ho))
    obtain ⟨repeated, hout, hnil⟩ := repeatedIds_cons_texts rootId ss
    rw [OptionTree.ids_eq_cons, OptionTree.idsBelow, OptionTree.children, hdrawn.ids, hss,
      OptionTree.id, OptionTree.data, hout] at hrepeated
    rw [hss]
    exact (List.nodup_cons.1 (hnil.1 (Except.ok.inj hrepeated))).2
  have hnodes : (pairs.map Prod.snd).Nodup := by
    refine List.Nodup.of_map OptionTree.id ?_
    rwa [hdrawn.nodes, hdrawn.ids]
  obtain ⟨node, hbij, htops, hnode⟩ := hdrawn.exists_node hnodup hnodes
  refine ⟨pairs.map Prod.fst, node, hbij, ⟨entry, hentry, htops⟩, ?_⟩
  intro o ho
  refine ⟨_, _, hnode o ho, ?_⟩
  intro hne
  obtain ⟨first, latest, hfirst, hlands, hlatest, hbelow, hsame⟩ :=
    Form.exists_landing fun hnil => hne (by rw [hnil, List.map_nil])
  refine ⟨first, latest, hfirst, hlands, hlatest, ?_, ?_, hsame⟩
  · rw [← hbelow]
    exact hdrawn.closed o ho
  · rw [hbelow]

theorem openForm_ahead_handmade :
    Form.decode handmade.encode = .ok handmade ∧
    ∃ t, (openForm handmade "r" true).outcome = .ok (some t) ∧
      ∃ (met : List Offer) (node : Offer → OptionTree),
        Set.BijOn node {o | o ∈ met} {u | u ∈ OptionTree.preorderAll t.children} ∧
        (∃ entry, handmade.entry? = some entry ∧ t.children = entry.offers.map node) ∧
        ∀ o ∈ met, ∃ multiple children, node o = choiceNode o.choice multiple children ∧
          (children ≠ [] → ∃ first latest, handmade.stepOf? o.choice.target = some first ∧
            handmade.LandsOn o.choice first ∧ handmade.latestStep? first.id = some latest ∧
            latest.offers ⊆ met ∧ children = latest.offers.map node ∧
            (first = latest ∨ 1 < handmade.stepIds.count first.id)) := by
  have hdecode : Form.decode handmade.encode = .ok handmade := rfl
  obtain ⟨t, ht⟩ : ∃ t, (openForm handmade "r" true).outcome = .ok (some t) := ⟨_, by cbv⟩
  exact ⟨hdecode, t, ht, openForm_ahead hdecode ht⟩

/-- A form with two steps of one id, as a damaged one may have. -/
def forked : Form where
  name := "Forked"
  steps := [
    { id := "step1", title := "Start"
      fields := [.mk { id := "start", kind := .radio, label := "Start", choices := [
        { id := "a", label := "A", value := "a", nextField := "s2" }] } []] },
    { id := "s2", title := "First"
      fields := [.mk { id := "first", kind := .radio, label := "First", choices := [
        { id := "x", label := "X", value := "x", nextField := "step_final" }] } []] },
    { id := "s2", title := "Second"
      fields := [.mk { id := "second", kind := .radio, label := "Second", choices := [
        { id := "y", label := "Y", value := "y", nextField := "step_final" }] } []] },
    { id := "step_final", title := "End", isLast := true }]

/-- Below the choice that leads to the repeated id, the editor shows what the second step offers; a
respondent who picks the choice lands on the first. -/
theorem openForm_forked :
    Form.decode forked.encode = .ok forked ∧
    ∃ t u c s, (openForm forked "r" true).outcome = .ok (some t) ∧ u ∈ t.children ∧
      (∃ entry, forked.entry? = some entry ∧ c ∈ entry.leadChoices) ∧
      (∃ multiple children, u = choiceNode c multiple children) ∧
      forked.stepOf? c.target = some s ∧ forked.LandsOn c s ∧
      s.leadChoices.map Choice.id = ["x"] ∧ u.children.map OptionTree.id = ["y"] := by
  obtain ⟨t, ht, hchildren⟩ : ∃ t, (openForm forked "r" true).outcome = .ok (some t) ∧
      t.children = [choiceNode { id := "a", label := "A", value := "a", nextField := "s2" } false
        [choiceNode { id := "y", label := "Y", value := "y", nextField := "step_final" } false
          []]] := ⟨_, by cbv, rfl⟩
  have hon : Choice.LeadsOn { id := "a", label := "A", value := "a", nextField := "s2" } := by decide
  obtain ⟨s, hs, hlead⟩ : ∃ s, forked.stepOf? "s2" = some s ∧ s.leadChoices.map Choice.id = ["x"] :=
    ⟨_, rfl, rfl⟩
  exact ⟨rfl, t, _, _, s, ht, hchildren ▸ List.mem_cons_self, ⟨_, rfl, List.mem_cons_self⟩,
    ⟨_, _, rfl⟩, hs, Form.landsOn_of_stepOf? hon hs, hlead, rfl⟩

end BranchForm
