import BranchForm.Proofs.RoundTrip
import Mathlib.Data.Set.Function

/-!
# The forms that are trees

Which forms can be reopened, by their graphs alone. The steps met from the entry step offer choices;
the form is a tree if these choices lead to steps other than the entry step, no two of them unfold
one step, and their ids and that of the root are distinct. Reopening answers with a tree for these
forms and no others, and the nodes of the tree are the choices offered.

* `Offer` is a choice at its place on a step, `Form.Offered` holds of those on steps that are met;
* `Form.TreeShaped` says which forms are trees;
* `Drawn` relates offers to the nodes drawn for them, `Traced` says what drawing them does to the
  steps that stand in the tree; both have a lemma for each way in which drawing goes on;
* `exists_drawn_choices` : whatever is reopened is drawn and traced;
* `Ready` holds of the offers that are still to be drawn while a tree-shaped form is reopened, and
  `reopen_of_ready` says that they can be drawn;
* `openForm_iff_treeShaped` : the forms that are reopened as trees.
-/

namespace BranchForm

/-! ### Offers -/

/-- A choice of the first field of a step, by its place there. -/
structure Offer where
  /-- The step. -/
  step : Step
  /-- The place among the choices. -/
  index : Nat
  /-- The choice. -/
  choice : Choice
  deriving DecidableEq

/-- The target of an offer is set, and it is the step. -/
def Offer.Targets (o : Offer) (s : Step) : Prop :=
  o.choice.target.truthy = true ∧ o.choice.target = .text s.id

/-- The offers of a step, in order. -/
def Step.offers (s : Step) : List Offer := s.leadChoices.zipIdx.map fun p => ⟨s, p.2, p.1⟩

namespace Form

/-- The offers that stand below a choice: those of the step it leads on to. -/
def offersBelow (form : Form) (c : Choice) : List Offer :=
  match form.next? c with
  | some s => s.offers
  | none => []

/-- Whether several of the offers below a choice may be picked together. -/
def multipleBelow (form : Form) (c : Choice) : Bool :=
  match form.next? c with
  | some s => !s.leadChoices.isEmpty && s.leadMultiple
  | none => false

/-- The steps met from the entry step: the least set with the entry step and, for every choice of
the first field of a step in it that leads on, the step it leads to. -/
inductive Met (form : Form) : Step → Prop
  /-- The entry step is met. -/
  | entry {s : Step} (h : form.entry? = some s) : Met form s
  /-- A step that a choice of a met step leads to is met. -/
  | onward {s t : Step} {c : Choice} (hs : Met form s) (hc : c ∈ s.leadChoices) (hon : c.LeadsOn)
      (ht : t ∈ form.steps) (htarget : c.target = .text t.id) : Met form t

/-- A step that is met makes the offer. -/
def Offered (form : Form) (o : Offer) : Prop := form.Met o.step ∧ o ∈ o.step.offers

/-- Two offers have the step as their target. -/
def Shared (form : Form) (s : Step) : Prop :=
  ∃ o o', form.Offered o ∧ form.Offered o' ∧ o ≠ o' ∧ o.Targets s ∧ o'.Targets s

/-- The graph of a form is a tree, below a root with an id. -/
structure TreeShaped (form : Form) (rootId : Value) : Prop where
  /-- Every offer that leads on leads to a step. -/
  known : ∀ o, form.Offered o → o.choice.LeadsOn → form.Has o.choice.target
  /-- No offer leads back to the entry step. -/
  onward : ∀ o, form.Offered o → o.choice.target ≠ .text entryStepId
  /-- No two offers lead on to one step that offers choices. -/
  single : ∀ s ∈ form.steps, s.leadChoices ≠ [] → s.id ≠ finalStepId → ¬ form.Shared s
  /-- No offer has the id of the root. -/
  fresh : ∀ o, form.Offered o → o.choice.id ≠ rootId
  /-- No two offers have one id. -/
  distinct : ∀ o o', form.Offered o → form.Offered o' → o.choice.id = o'.choice.id → o = o'

end Form

theorem Step.map_offers (s : Step) : s.offers.map Offer.choice = s.leadChoices := by
  rw [offers, List.map_map]
  exact List.zipIdx_map_fst 0 _

theorem Step.nodup_offers (s : Step) : s.offers.Nodup := by
  have hindex : s.offers.map Offer.index = s.leadChoices.zipIdx.map Prod.snd := by
    rw [offers, List.map_map]
    rfl
  exact List.Nodup.of_map Offer.index (hindex ▸ List.nodup_zipIdx_map_snd _)

theorem Step.of_mem_offers {s : Step} {o : Offer} (h : o ∈ s.offers) :
    o.step = s ∧ o.choice ∈ s.leadChoices := by
  obtain ⟨p, hp, rfl⟩ := List.mem_map.1 h
  exact ⟨rfl, List.fst_mem_of_mem_zipIdx hp⟩

namespace Form

variable {form : Form}

theorem Met.mem {s : Step} (h : form.Met s) : s ∈ form.steps := by
  cases h with
  | entry h => exact List.mem_of_find?_eq_some h
  | onward _ _ _ ht _ => exact ht

/-- The offers below an offer are offered. -/
theorem Offered.below {o o' : Offer} (h : form.Offered o)
    (hbelow : o' ∈ form.offersBelow o.choice) :
    form.Offered o' := by
  unfold offersBelow at hbelow
  split at hbelow
  · rename_i s hnext
    obtain ⟨hon, hmem, htarget⟩ := of_next? hnext
    obtain ⟨hstep, -⟩ := Step.of_mem_offers hbelow
    have hmet : form.Met s := h.1.onward (Step.of_mem_offers h.2).2 hon hmem htarget
    exact ⟨hstep ▸ hmet, hstep.symm ▸ hbelow⟩
  · exact absurd hbelow List.not_mem_nil

/-- Offers that contain those of the entry step, and with each of them those below it, are all
offers. -/
theorem Offered.mem_of_closed (hd : form.stepIds.Nodup) {os : List Offer}
    (hentry : ∀ s, form.entry? = some s → s.offers ⊆ os)
    (hbelow : ∀ o ∈ os, form.offersBelow o.choice ⊆ os) {o : Offer} (h : form.Offered o) :
    o ∈ os := by
  obtain ⟨hmet, hoffer⟩ := h
  suffices hall : o.step.offers ⊆ os from hall hoffer
  generalize o.step = s at hmet
  induction hmet with
  | entry h => exact hentry _ h
  | @onward s t c hs hc hon ht htarget ih =>
    rw [← Step.map_offers, List.mem_map] at hc
    obtain ⟨o', ho', rfl⟩ := hc
    have hall := hbelow o' (ih ho')
    rwa [offersBelow, next?_of_mem hd ht hon htarget] at hall

end Form

/-! ### What is drawn for offers -/

/-- The nodes drawn for offers. `pairs` are the offers met on the way, each with its node, in the
order of the nodes. -/
structure Drawn (form : Form) (os : List Offer) (ts : List OptionTree)
    (pairs : List (Offer × OptionTree)) : Prop where
  /-- Every node is drawn for one offer. -/
  nodes : pairs.map Prod.snd = OptionTree.preorderAll ts
  /-- The nodes at the top are those of the offers, in order. -/
  tops : List.Forall₂ (fun o t => (o, t) ∈ pairs) os ts
  /-- Below a node stand the nodes of the offers below its offer, in order. -/
  shape : ∀ p ∈ pairs, ∃ us, p.2 = choiceNode p.1.choice (form.multipleBelow p.1.choice) us ∧
    List.Forall₂ (fun o t => (o, t) ∈ pairs) (form.offersBelow p.1.choice) us

namespace Drawn

variable {form : Form}

theorem mono_tops {pairs more : List (Offer × OptionTree)} (hsub : pairs ⊆ more) {os : List Offer}
    {ts : List OptionTree} (h : List.Forall₂ (fun o t => (o, t) ∈ pairs) os ts) :
    List.Forall₂ (fun o t => (o, t) ∈ more) os ts :=
  h.imp fun _ _ hmem => hsub hmem

theorem nil (form : Form) : Drawn form [] [] [] where
  nodes := rfl
  tops := .nil
  shape := nofun

/-- An offer above those below it. -/
theorem node {o : Offer} {us : List OptionTree} {pairs : List (Offer × OptionTree)}
    (h : Drawn form (form.offersBelow o.choice) us pairs) :
    Drawn form [o] [choiceNode o.choice (form.multipleBelow o.choice) us]
      ((o, choiceNode o.choice (form.multipleBelow o.choice) us) :: pairs) where
  nodes := by
    simp [OptionTree.preorderAll, choiceNode, OptionTree.preorder, h.nodes]
  tops := .cons List.mem_cons_self .nil
  shape := by
    intro p hp
    rcases List.mem_cons.1 hp with rfl | hp
    · exact ⟨us, rfl, mono_tops (List.subset_cons_self _ _) h.tops⟩
    · obtain ⟨vs, hnode, hbelow⟩ := h.shape p hp
      exact ⟨vs, hnode, mono_tops (List.subset_cons_self _ _) hbelow⟩

/-- An offer before further ones. -/
theorem cons {o : Offer} {os : List Offer} {t : OptionTree} {ts : List OptionTree}
    {pairs more : List (Offer × OptionTree)} (h : Drawn form [o] [t] pairs)
    (hs : Drawn form os ts more) : Drawn form (o :: os) (t :: ts) (pairs ++ more) where
  nodes := by
    have hfirst := h.nodes
    simp only [OptionTree.preorderAll, List.append_nil] at hfirst
    simp [OptionTree.preorderAll, hfirst, hs.nodes]
  tops := by
    have hfirst := (List.forall₂_cons.1 h.tops).1
    exact .cons (List.mem_append_left _ hfirst) (mono_tops (List.subset_append_right _ _) hs.tops)
  shape := by
    intro p hp
    rcases List.mem_append.1 hp with hp | hp
    · obtain ⟨vs, hnode, hbelow⟩ := h.shape p hp
      exact ⟨vs, hnode, mono_tops (List.subset_append_left _ _) hbelow⟩
    · obtain ⟨vs, hnode, hbelow⟩ := hs.shape p hp
      exact ⟨vs, hnode, mono_tops (List.subset_append_right _ _) hbelow⟩

end Drawn

/-! ### What drawing does to the steps that stand in the tree -/

/-- An offer unfolds the step of an id: it leads on to it, and the step offers choices. -/
def Form.Unfolds (form : Form) (o : Offer) (stepId : String) : Prop :=
  ∃ s, form.next? o.choice = some s ∧ s.leadChoices ≠ [] ∧ s.id = stepId

/-- The steps that stand in a tree before some offers are drawn, the offers met, and the steps that
stand in the tree afterwards. -/
structure Traced (form : Form) (expanded after : List String) (os met : List Offer) : Prop where
  /-- Offers that lead on lead to steps other than the entry step. -/
  known : ∀ o ∈ met, o.choice.LeadsOn → ∃ s, form.next? o.choice = some s ∧ s.id ≠ entryStepId
  /-- Steps stay in the tree. -/
  mono : expanded ⊆ after
  /-- A step that is unfolded is new in the tree. -/
  unfolded : ∀ o ∈ met, ∀ i, form.Unfolds o i → i ∈ after ∧ i ∉ expanded
  /-- No step is unfolded by two offers. -/
  single : ∀ o ∈ met, ∀ o' ∈ met, ∀ i, form.Unfolds o i → form.Unfolds o' i → o = o'
  /-- A step that is new in the tree was unfolded. -/
  unfolder : ∀ i ∈ after, i ∈ expanded ∨ ∃ o ∈ met, form.Unfolds o i
  /-- The offers met are the given ones and those of steps that are new in the tree. -/
  origin : ∀ o ∈ met, o ∈ os ∨ o.step.id ∈ after ∧ o.step.id ∉ entryStepId :: expanded
  /-- No offer is met twice. -/
  distinct : os.Nodup → (∀ o ∈ os, o.step.id ∈ entryStepId :: expanded) → met.Nodup
  /-- Offers that are met are offered if the given ones are. -/
  offered : (∀ o ∈ os, form.Offered o) → ∀ o ∈ met, form.Offered o

namespace Traced

variable {form : Form} {expanded between after : List String} {o : Offer} {os met more : List Offer}

theorem nil (form : Form) (expanded : List String) : Traced form expanded expanded [] [] where
  known := nofun
  mono := List.Subset.refl _
  unfolded := nofun
  single := nofun
  unfolder := fun _ h => .inl h
  origin := nofun
  distinct := fun _ _ => .nil
  offered := nofun

/-- An offer that unfolds nothing. -/
theorem leaf (hknown : o.choice.LeadsOn → ∃ s, form.next? o.choice = some s ∧ s.id ≠ entryStepId)
    (hleaf : ∀ s, form.next? o.choice = some s → s.leadChoices = []) :
    Traced form expanded expanded [o] [o] where
  known := fun _ h => List.mem_singleton.1 h ▸ hknown
  mono := List.Subset.refl _
  unfolded := by
    rintro o' ho' i ⟨s, hnext, hlead, -⟩
    rw [List.mem_singleton.1 ho'] at hnext
    exact absurd (hleaf s hnext) hlead
  single := fun _ h _ h' _ _ _ => (List.mem_singleton.1 h).trans (List.mem_singleton.1 h').symm
  unfolder := fun _ h => .inl h
  origin := fun _ h => .inl h
  distinct := fun h _ => h
  offered := fun h => h

/-- An offer that unfolds a step, before the offers of the step. -/
theorem branch {s : Step} (hnext : form.next? o.choice = some s) (hentry : s.id ≠ entryStepId)
    (hlead : s.leadChoices ≠ []) (hnew : s.id ∉ expanded)
    (h : Traced form (s.id :: expanded) after s.offers met) :
    Traced form expanded after [o] (o :: met) where
  known := by
    intro o' ho'
    rcases List.mem_cons.1 ho' with rfl | ho'
    · exact fun _ => ⟨s, hnext, hentry⟩
    · exact h.known o' ho'
  mono := fun _ hi => h.mono (List.mem_cons_of_mem _ hi)
  unfolded := by
    intro o' ho' i hi
    rcases List.mem_cons.1 ho' with rfl | ho'
    · obtain ⟨u, hu, -, rfl⟩ := hi
      obtain rfl := Option.some.inj (hnext.symm.trans hu)
      exact ⟨h.mono List.mem_cons_self, hnew⟩
    · obtain ⟨hafter, hnot⟩ := h.unfolded o' ho' i hi
      exact ⟨hafter, fun hmem => hnot (List.mem_cons_of_mem _ hmem)⟩
  single := by
    -- the step of `o` stands in the tree before the offers below are drawn
    have hother : ∀ o' ∈ met, ∀ i, form.Unfolds o i → ¬ form.Unfolds o' i := by
      rintro o' ho' i ⟨u, hu, -, hid⟩ hi
      obtain rfl := Option.some.inj (hnext.symm.trans hu)
      exact (h.unfolded o' ho' i hi).2 (hid ▸ List.mem_cons_self)
    intro o₁ hmem₁ o₂ hmem₂ i hi₁ hi₂
    rcases List.mem_cons.1 hmem₁ with rfl | h₁
    · rcases List.mem_cons.1 hmem₂ with rfl | h₂
      · rfl
      · exact absurd hi₂ (hother o₂ h₂ i hi₁)
    · rcases List.mem_cons.1 hmem₂ with rfl | h₂
      · exact absurd hi₁ (hother o₁ h₁ i hi₂)
      · exact h.single o₁ h₁ o₂ h₂ i hi₁ hi₂
  unfolder := by
    intro i hi
    rcases h.unfolder i hi with hi | ⟨o', ho', hunfolds⟩
    · rcases List.mem_cons.1 hi with rfl | hi
      · exact .inr ⟨o, List.mem_cons_self, s, hnext, hlead, rfl⟩
      · exact .inl hi
    · exact .inr ⟨o', List.mem_cons_of_mem _ ho', hunfolds⟩
  origin := by
    intro o' ho'
    rcases List.mem_cons.1 ho' with rfl | ho'
    · exact .inl List.mem_cons_self
    · refine .inr ?_
      rcases h.origin o' ho' with hoffer | ⟨hafter, hnot⟩
      · rw [(Step.of_mem_offers hoffer).1, List.mem_cons, not_or]
        exact ⟨h.mono List.mem_cons_self, hentry, hnew⟩
      · simp only [List.mem_cons, not_or] at hnot ⊢
        exact ⟨hafter, hnot.1, hnot.2.2⟩
  distinct := by
    intro _ hsteps
    have hstep : o.step.id ∈ entryStepId :: expanded := hsteps o List.mem_cons_self
    have hoffers : ∀ o' ∈ s.offers, o'.step.id ∈ entryStepId :: s.id :: expanded := by
      intro o' ho'
      rw [(Step.of_mem_offers ho').1]
      exact List.mem_cons_of_mem _ List.mem_cons_self
    refine List.nodup_cons.2 ⟨fun hmem => ?_, h.distinct s.nodup_offers hoffers⟩
    rcases h.origin o hmem with hoffer | ⟨-, hnot⟩
    · rw [(Step.of_mem_offers hoffer).1, List.mem_cons] at hstep
      exact hstep.elim hentry hnew
    · simp only [List.mem_cons, not_or] at hnot hstep
      exact hstep.elim hnot.1 hnot.2.2
  offered := by
    intro hoffered o' ho'
    have ho := hoffered o List.mem_cons_self
    rcases List.mem_cons.1 ho' with rfl | ho'
    · exact ho
    · refine h.offered (fun u hu => ho.below ?_) o' ho'
      rw [Form.offersBelow, hnext]
      exact hu

/-- An offer before further ones. -/
theorem cons (h : Traced form expanded between [o] met) (hs : Traced form between after os more) :
    Traced form expanded after (o :: os) (met ++ more) where
  known := fun o' ho' => (List.mem_append.1 ho').elim (h.known o') (hs.known o')
  mono := fun _ hi => hs.mono (h.mono hi)
  unfolded := by
    intro o' ho' i hi
    rcases List.mem_append.1 ho' with ho' | ho'
    · obtain ⟨hbetween, hnot⟩ := h.unfolded o' ho' i hi
      exact ⟨hs.mono hbetween, hnot⟩
    · obtain ⟨hafter, hnot⟩ := hs.unfolded o' ho' i hi
      exact ⟨hafter, fun hmem => hnot (h.mono hmem)⟩
  single := by
    -- what is unfolded on the left stands in the tree before the right is drawn
    have hother : ∀ o₁ ∈ met, ∀ o₂ ∈ more, ∀ i, form.Unfolds o₁ i → ¬ form.Unfolds o₂ i :=
      fun o₁ h₁ o₂ h₂ i hi₁ hi₂ => (hs.unfolded o₂ h₂ i hi₂).2 (h.unfolded o₁ h₁ i hi₁).1
    intro o₁ h₁ o₂ h₂ i hi₁ hi₂
    rcases List.mem_append.1 h₁ with h₁ | h₁
    · rcases List.mem_append.1 h₂ with h₂ | h₂
      · exact h.single o₁ h₁ o₂ h₂ i hi₁ hi₂
      · exact absurd hi₂ (hother o₁ h₁ o₂ h₂ i hi₁)
    · rcases List.mem_append.1 h₂ with h₂ | h₂
      · exact absurd hi₁ (hother o₂ h₂ o₁ h₁ i hi₂)
      · exact hs.single o₁ h₁ o₂ h₂ i hi₁ hi₂
  unfolder := by
    intro i hi
    rcases hs.unfolder i hi with hi | ⟨o', ho', hunfolds⟩
    · exact (h.unfolder i hi).imp_right fun ⟨o', ho', hunfolds⟩ =>
        ⟨o', List.mem_append_left _ ho', hunfolds⟩
    · exact .inr ⟨o', List.mem_append_right _ ho', hunfolds⟩
  origin := by
    intro o' ho'
    rcases List.mem_append.1 ho' with ho' | ho'
    · rcases h.origin o' ho' with hoffer | ⟨hbetween, hnot⟩
      · exact .inl (List.mem_singleton.1 hoffer ▸ List.mem_cons_self)
      · exact .inr ⟨hs.mono hbetween, hnot⟩
    · rcases hs.origin o' ho' with hoffer | ⟨hafter, hnot⟩
      · exact .inl (List.mem_cons_of_mem _ hoffer)
      · exact .inr ⟨hafter, fun hmem => hnot (List.cons_subset_cons _ h.mono hmem)⟩
  distinct := by
    intro hnodup hsteps
    rw [List.nodup_cons] at hnodup
    have hrest : ∀ o' ∈ os, o'.step.id ∈ entryStepId :: expanded := fun o' ho' =>
      hsteps o' (List.mem_cons_of_mem _ ho')
    have hfirst : ∀ o' ∈ [o], o'.step.id ∈ entryStepId :: expanded := fun o' ho' =>
      List.mem_singleton.1 ho' ▸ hsteps o List.mem_cons_self
    rw [List.nodup_append']
    refine ⟨h.distinct (List.nodup_singleton o) hfirst, hs.distinct hnodup.2 fun o' ho' =>
      List.cons_subset_cons _ h.mono (hrest o' ho'), fun o' hmet hmore => ?_⟩
    -- the offers on the left are `o` and those of steps that are new before the right is drawn
    rcases hs.origin o' hmore with hos | ⟨-, hnot⟩
    · rcases h.origin o' hmet with ho | ⟨-, hnew⟩
      · exact hnodup.1 (List.mem_singleton.1 ho ▸ hos)
      · exact hnew (hrest o' hos)
    · rcases h.origin o' hmet with ho | ⟨hbetween, -⟩
      · exact hnot (List.cons_subset_cons _ h.mono (hfirst o' ho))
      · exact hnot (List.mem_cons_of_mem _ hbetween)
  offered := by
    intro hoffered o' ho'
    rcases List.mem_append.1 ho' with ho' | ho'
    · exact h.offered (fun u hu => List.mem_singleton.1 hu ▸ hoffered o List.mem_cons_self) o' ho'
    · exact hs.offered (fun u hu => hoffered u (List.mem_cons_of_mem _ hu)) o' ho'

end Traced

/-! ### Reopening draws and traces -/

section Reopened

variable {form : Form} {path expanded between : List String}

theorem Form.below_of_leaf {c : Choice} (h : ∀ s, form.next? c = some s → s.leadChoices = []) :
    form.offersBelow c = [] ∧ form.multipleBelow c = false := by
  unfold offersBelow multipleBelow
  split
  · rename_i s hnext
    simp [Step.offers, h s hnext]
  · exact ⟨rfl, rfl⟩

theorem Form.below_of_branch {c : Choice} {s : Step} (hnext : form.next? c = some s)
    (hlead : s.leadChoices ≠ []) :
    form.offersBelow c = s.offers ∧ form.multipleBelow c = s.leadMultiple := by
  simp [offersBelow, multipleBelow, hnext, hlead]

mutual

theorem exists_drawn_choice {path expanded after : List String} {o : Offer} {t : OptionTree}
    (hentry : entryStepId ∈ path)
    (h : reopenChoice form path expanded o.choice = .ok (t, after)) :
    ∃ pairs, Drawn form [o] [t] pairs ∧ Traced form expanded after [o] (pairs.map Prod.fst) := by
  match t with
  | .node d children =>
    obtain ⟨hon, hcases⟩ := reopenChoice_inv h
    have hknown : o.choice.LeadsOn → ∃ s, form.next? o.choice = some s ∧ s.id ≠ entryStepId := by
      intro hlead
      obtain ⟨s, hnext, hpath⟩ := hon hlead
      exact ⟨s, hnext, fun heq => hpath (heq ▸ hentry)⟩
    rcases hcases with ⟨hnode, rfl, hleaf⟩ | ⟨s, below, hnext, hnew, hlead, hbelow, hnode⟩
    · obtain ⟨hoffers, hmultiple⟩ := Form.below_of_leaf hleaf
      have hdrawn : Drawn form (form.offersBelow o.choice) [] [] := hoffers ▸ Drawn.nil form
      rw [hnode, ← hmultiple]
      exact ⟨_, hdrawn.node, Traced.leaf hknown hleaf⟩
    · obtain rfl : children = below := (OptionTree.node.inj hnode).2
      rw [← Step.map_offers] at hbelow
      obtain ⟨pairs, hdrawn, htraced⟩ := exists_drawn_choices (List.mem_cons_of_mem _ hentry) hbelow
      obtain ⟨hoffers, hmultiple⟩ := Form.below_of_branch hnext hlead
      obtain ⟨u, hu, hstart⟩ := hknown (Form.of_next? hnext).1
      obtain rfl := Option.some.inj (hnext.symm.trans hu)
      rw [← hoffers] at hdrawn
      rw [hnode, ← hmultiple]
      exact ⟨_, hdrawn.node, htraced.branch hnext hstart hlead hnew⟩

/-- Choices that are reopened are drawn with all offers below them. -/
theorem exists_drawn_choices {path expanded after : List String} {os : List Offer}
    {ts : List OptionTree} (hentry : entryStepId ∈ path)
    (h : reopenChoices form path expanded (os.map Offer.choice) = .ok (ts, after)) :
    ∃ pairs, Drawn form os ts pairs ∧ Traced form expanded after os (pairs.map Prod.fst) := by
  match ts with
  | [] =>
    cases os with
    | nil =>
      obtain ⟨-, rfl⟩ := reopenChoices_nil_inv h
      exact ⟨[], .nil form, .nil form after⟩
    | cons o os =>
      obtain ⟨t, between, us, -, -, hcons⟩ := reopenChoices_inv h
      cases hcons
  | t :: ts =>
    obtain ⟨c, rest, between, hcs, ht, hts⟩ := exists_of_reopenChoices_cons h
    obtain ⟨o, os, rfl, rfl, rfl⟩ := List.map_eq_cons_iff.1 hcs
    obtain ⟨pairs, hdrawn, htraced⟩ := exists_drawn_choice hentry ht
    obtain ⟨more, hdrawn', htraced'⟩ := exists_drawn_choices hentry hts
    refine ⟨pairs ++ more, hdrawn.cons hdrawn', ?_⟩
    rw [List.map_append]
    exact htraced.cons htraced'

end

/-! ### Tree-shaped forms can be reopened -/

/-- Offers that are still to be drawn while a form is reopened. -/
structure Ready (form : Form) (path expanded : List String) (os : List Offer) : Prop where
  /-- No offer is to be drawn twice. -/
  distinct : os.Nodup
  /-- They are offered. -/
  offered : ∀ o ∈ os, form.Offered o
  /-- Their steps stand in the tree, or at its top. -/
  steps : ∀ o ∈ os, o.step.id ∈ entryStepId :: expanded
  /-- So do the steps of the path. -/
  path : path ⊆ entryStepId :: expanded
  /-- The steps that stand in the tree were unfolded by other offers, of such steps. -/
  unfolder : ∀ i ∈ expanded, ∃ o, o ∉ os ∧ form.Offered o ∧ form.Unfolds o i ∧
    o.step.id ∈ entryStepId :: expanded

namespace Ready

variable {o : Offer} {os : List Offer} {s : Step} {rootId : Value}

/-- At the start the offers of the entry step are to be drawn. -/
theorem entry (h : form.entry? = some s) : Ready form [entryStepId] [] s.offers where
  distinct := s.nodup_offers
  offered := by
    intro o ho
    have hstep := (Step.of_mem_offers ho).1
    exact ⟨hstep ▸ .entry h, hstep.symm ▸ ho⟩
  steps := by
    intro o ho
    have hid : s.id = entryStepId := by simpa using List.find?_some h
    rw [(Step.of_mem_offers ho).1, hid]
    exact List.mem_cons_self
  path := List.Subset.refl _
  unfolder := nofun

/-- When the first offer has been drawn, the others are to be drawn. -/
theorem next {t : OptionTree} (h : Ready form path expanded (o :: os)) (hentry : entryStepId ∈ path)
    (ht : reopenChoice form path expanded o.choice = .ok (t, between)) :
    Ready form path between os := by
  obtain ⟨pairs, -, htraced⟩ := exists_drawn_choice hentry ht
  obtain ⟨hfirst, hrest⟩ := List.nodup_cons.1 h.distinct
  have hsub : entryStepId :: expanded ⊆ entryStepId :: between :=
    List.cons_subset_cons _ htraced.mono
  refine ⟨hrest, fun u hu => h.offered u (List.mem_cons_of_mem _ hu),
    fun u hu => hsub (h.steps u (List.mem_cons_of_mem _ hu)), fun p hp => hsub (h.path hp), ?_⟩
  intro i hi
  rcases htraced.unfolder i hi with hi | ⟨u, hu, hunfolds⟩
  · obtain ⟨u, hu, hoffered, hunfolds, hstep⟩ := h.unfolder i hi
    exact ⟨u, fun hmem => hu (List.mem_cons_of_mem _ hmem), hoffered, hunfolds, hsub hstep⟩
  · have hoffered : form.Offered u := by
      refine htraced.offered (fun v hv => ?_) u hu
      exact List.mem_singleton.1 hv ▸ h.offered o List.mem_cons_self
    rcases htraced.origin u hu with hfirst' | ⟨hnew, hnot⟩
    · obtain rfl := List.mem_singleton.1 hfirst'
      exact ⟨u, hfirst, hoffered, hunfolds, hsub (h.steps u List.mem_cons_self)⟩
    · exact ⟨u, fun hmem => hnot (h.steps u (List.mem_cons_of_mem _ hmem)), hoffered, hunfolds,
        List.mem_cons_of_mem _ hnew⟩

/-- While the first offer is drawn, those of the step it unfolds are to be drawn. -/
theorem below (h : Ready form path expanded (o :: os)) (hnext : form.next? o.choice = some s)
    (hlead : s.leadChoices ≠ []) (hentry : s.id ≠ entryStepId) (hnew : s.id ∉ expanded) :
    Ready form (s.id :: path) (s.id :: expanded) s.offers := by
  have hsub : entryStepId :: expanded ⊆ entryStepId :: s.id :: expanded :=
    List.cons_subset_cons _ (List.subset_cons_self _ _)
  -- the offers of the new step are no offers of steps in the tree
  have hother : ∀ u : Offer, u.step.id ∈ entryStepId :: expanded → u ∉ s.offers := by
    intro u hstep hmem
    rw [(Step.of_mem_offers hmem).1, List.mem_cons] at hstep
    exact hstep.elim hentry hnew
  have ho := h.steps o List.mem_cons_self
  refine ⟨s.nodup_offers, fun u hu => ?_, fun u hu => ?_, ?_, ?_⟩
  · refine (h.offered o List.mem_cons_self).below ?_
    rwa [(Form.below_of_branch hnext hlead).1]
  · rw [(Step.of_mem_offers hu).1]
    exact List.mem_cons_of_mem _ List.mem_cons_self
  · exact List.cons_subset.2 ⟨List.mem_cons_of_mem _ List.mem_cons_self, fun p hp => hsub (h.path hp)⟩
  · intro i hi
    rcases List.mem_cons.1 hi with rfl | hi
    · exact ⟨o, hother o ho, h.offered o List.mem_cons_self, ⟨s, hnext, hlead, rfl⟩, hsub ho⟩
    · obtain ⟨u, -, hoffered, hunfolds, hstep⟩ := h.unfolder i hi
      exact ⟨u, hother u hstep, hoffered, hunfolds, hsub hstep⟩

/-- In a tree-shaped form, the first offer leads to a step that is neither the entry step nor in the
tree. -/
theorem fresh (hd : form.stepIds.Nodup) (hshape : form.TreeShaped rootId)
    (h : Ready form path expanded (o :: os)) (hnext : form.next? o.choice = some s) :
    s.id ≠ entryStepId ∧ s.id ∉ expanded := by
  obtain ⟨hon, hmem, htarget⟩ := Form.of_next? hnext
  have hoffered := h.offered o List.mem_cons_self
  refine ⟨fun hid => hshape.onward o hoffered (hid ▸ htarget), fun hexpanded => ?_⟩
  obtain ⟨u, hu, huoffered, ⟨v, hv, hlead, hid⟩, -⟩ := h.unfolder s.id hexpanded
  obtain ⟨huon, hvmem, hutarget⟩ := Form.of_next? hv
  obtain rfl := Form.eq_of_id_eq hd hvmem hmem hid
  have hfinal : v.id ≠ finalStepId := fun hid => hon.2 (hid ▸ htarget)
  have hne : o ≠ u := fun heq => hu (heq ▸ List.mem_cons_self)
  exact hshape.single v hmem hlead hfinal
    ⟨o, u, hoffered, huoffered, hne, ⟨hon.1, htarget⟩, ⟨huon.1, hutarget⟩⟩

end Ready

/-- In a tree-shaped form, all offers that are still to be drawn can be reopened. -/
theorem reopen_of_ready {rootId : Value} (hd : form.stepIds.Nodup) (hshape : form.TreeShaped rootId)
    (path expanded : List String) (os : List Offer) (hentry : entryStepId ∈ path)
    (h : Ready form path expanded os) :
    ∃ ts after, reopenChoices form path expanded (os.map Offer.choice) = .ok (ts, after) := by
  match os with
  | [] => exact ⟨[], expanded, by rw [List.map_nil, reopenChoices]⟩
  | o :: os =>
    obtain ⟨t, between, ht⟩ : ∃ t between,
        reopenChoice form path expanded o.choice = .ok (t, between) := by
      by_cases hon : o.choice.LeadsOn
      · obtain ⟨s, hmem, htarget⟩ := hshape.known o (h.offered o List.mem_cons_self) hon
        have hnext := Form.next?_of_mem hd hmem hon htarget
        obtain ⟨hstart, hnew⟩ := h.fresh hd hshape hnext
        have hpath : s.id ∉ path := fun hp =>
          (List.mem_cons.1 (h.path hp)).elim hstart hnew
        rw [reopenChoice_of_next? hnext, if_neg hpath]
        by_cases hlead : s.leadChoices = []
        · rw [if_pos (List.isEmpty_iff.2 hlead)]
          exact ⟨_, _, rfl⟩
        · obtain ⟨ts, after, hbelow⟩ := reopen_of_ready hd hshape (s.id :: path) (s.id :: expanded)
            s.offers (List.mem_cons_of_mem _ hentry) (h.below hnext hlead hstart hnew)
          rw [Step.map_offers] at hbelow
          rw [if_neg (mt List.isEmpty_iff.1 hlead), if_neg hnew, hbelow]
          exact ⟨_, _, rfl⟩
      · exact ⟨_, _, reopenChoice_of_stop hon⟩
    obtain ⟨ts, after, hts⟩ := reopen_of_ready hd hshape path between os hentry (h.next hentry ht)
    exact ⟨t :: ts, after, reopenChoices_cons ht hts⟩
termination_by ((offPath form path).length, os.length)
decreasing_by
  · exact Prod.Lex.left _ _ (length_offPath_lt (List.mem_map_of_mem hmem) hpath)
  · exact Prod.Lex.right _ (by simp)

end Reopened

/-! ### The offers of a form and the nodes of its tree -/

/-- A list of pairs without repeated first parts is the graph of a function. -/
theorem exists_of_nodup_fst {pairs : List (Offer × OptionTree)} (h : (pairs.map Prod.fst).Nodup) :
    ∃ node : Offer → OptionTree, ∀ p ∈ pairs, node p.1 = p.2 := by
  induction pairs with
  | nil => exact ⟨default, nofun⟩
  | cons p ps ih =>
    rw [List.map_cons, List.nodup_cons] at h
    obtain ⟨node, hnode⟩ := ih h.2
    refine ⟨Function.update node p.1 p.2, fun q hq => ?_⟩
    rcases List.mem_cons.1 hq with rfl | hq
    · exact Function.update_self ..
    · have hne : q.1 ≠ p.1 := fun heq => h.1 (heq ▸ List.mem_map_of_mem hq)
      rw [Function.update_of_ne hne, hnode q hq]

namespace Drawn

variable {form : Form} {os : List Offer} {ts : List OptionTree} {pairs : List (Offer × OptionTree)}

/-- A node has the id of its offer. -/
theorem ids (h : Drawn form os ts pairs) :
    (OptionTree.preorderAll ts).map OptionTree.id =
      (pairs.map Prod.fst).map fun o => o.choice.id := by
  rw [← h.nodes, List.map_map, List.map_map]
  refine List.map_congr_left fun p hp => ?_
  obtain ⟨us, hnode, -⟩ := h.shape p hp
  simp [hnode, choiceNode, OptionTree.id, OptionTree.data]

/-- If no offer and no node is drawn twice, offers and nodes correspond one to one. -/
theorem exists_node (h : Drawn form os ts pairs) (hoffers : (pairs.map Prod.fst).Nodup)
    (hnodes : (pairs.map Prod.snd).Nodup) :
    ∃ node : Offer → OptionTree,
      Set.BijOn node {o | o ∈ pairs.map Prod.fst} {t | t ∈ OptionTree.preorderAll ts} ∧
      ts = os.map node ∧
      ∀ o ∈ pairs.map Prod.fst, node o = choiceNode o.choice (form.multipleBelow o.choice)
        ((form.offersBelow o.choice).map node) := by
  obtain ⟨node, hnode⟩ := exists_of_nodup_fst hoffers
  have hmap : ∀ {us : List OptionTree} {below : List Offer},
      List.Forall₂ (fun o t => (o, t) ∈ pairs) below us → us = below.map node := by
    intro us below hforall
    have heq : List.Forall₂ (· = ·) (below.map node) us :=
      List.forall₂_map_left_iff.2 (hforall.imp fun o t hmem => hnode (o, t) hmem)
    rw [List.forall₂_eq_eq_eq] at heq
    exact heq.symm
  refine ⟨node, ⟨?_, ?_, ?_⟩, hmap h.tops, ?_⟩
  · intro o ho
    obtain ⟨p, hp, rfl⟩ := List.mem_map.1 ho
    rw [Set.mem_ofPred_eq, hnode p hp, ← h.nodes]
    exact List.mem_map_of_mem hp
  · intro o ho o' ho' heq
    obtain ⟨p, hp, rfl⟩ := List.mem_map.1 ho
    obtain ⟨q, hq, rfl⟩ := List.mem_map.1 ho'
    rw [hnode p hp, hnode q hq] at heq
    rw [List.inj_on_of_nodup_map hnodes hp hq heq]
  · intro t ht
    rw [Set.mem_ofPred_eq, ← h.nodes] at ht
    obtain ⟨p, hp, rfl⟩ := List.mem_map.1 ht
    exact ⟨p.1, List.mem_map_of_mem hp, hnode p hp⟩
  · intro o ho
    obtain ⟨p, hp, rfl⟩ := List.mem_map.1 ho
    obtain ⟨us, hshape, hbelow⟩ := h.shape p hp
    rw [hnode p hp, hshape, hmap hbelow]

/-- With an offer, the offers below it are met. -/
theorem closed (h : Drawn form os ts pairs) :
    ∀ o ∈ pairs.map Prod.fst, form.offersBelow o.choice ⊆ pairs.map Prod.fst := by
  intro o ho u hu
  obtain ⟨p, hp, rfl⟩ := List.mem_map.1 ho
  obtain ⟨us, -, hbelow⟩ := h.shape p hp
  obtain ⟨i, hi, rfl⟩ := List.getElem_of_mem hu
  exact List.mem_map_of_mem (hbelow.get hi (hbelow.length_eq ▸ hi))

end Drawn

namespace Form

variable {form : Form} {entry : Step} {rootId : Value} {after : List String} {met : List Offer}

/-- If all offers have been met and their ids are distinct, the form is a tree. -/
theorem treeShaped_of_traced (hd : form.stepIds.Nodup) (h : Traced form [] after entry.offers met)
    (hall : ∀ o, form.Offered o ↔ o ∈ met)
    (hids : (rootId :: met.map fun o => o.choice.id).Nodup) : form.TreeShaped rootId where
  known := by
    intro o ho hon
    obtain ⟨s, hnext, -⟩ := h.known o ((hall o).1 ho) hon
    exact ⟨s, (of_next? hnext).2⟩
  onward := by
    intro o ho htarget
    have hon : o.choice.LeadsOn := by
      rw [Choice.leadsOn_text htarget]
      decide
    obtain ⟨s, hnext, hne⟩ := h.known o ((hall o).1 ho) hon
    have hid := htarget.symm.trans (of_next? hnext).2.2
    exact hne (Value.text.inj hid).symm
  single := by
    rintro s hs hlead hfinal ⟨o, o', ho, ho', hne, ⟨hset, htarget⟩, ⟨hset', htarget'⟩⟩
    have hend : Value.text s.id ≠ .text finalStepId := fun heq => hfinal (Value.text.inj heq)
    have hnext := next?_of_mem hd hs ⟨hset, htarget ▸ hend⟩ htarget
    have hnext' := next?_of_mem hd hs ⟨hset', htarget' ▸ hend⟩ htarget'
    exact hne (h.single o ((hall o).1 ho) o' ((hall o').1 ho') s.id ⟨s, hnext, hlead, rfl⟩
      ⟨s, hnext', hlead, rfl⟩)
  fresh := by
    intro o ho heq
    exact (List.nodup_cons.1 hids).1 (heq ▸ List.mem_map_of_mem ((hall o).1 ho))
  distinct := by
    intro o o' ho ho' heq
    exact List.inj_on_of_nodup_map (List.nodup_cons.1 hids).2 ((hall o).1 ho) ((hall o').1 ho') heq

theorem TreeShaped.nodup_ids (h : form.TreeShaped rootId) (hmet : met.Nodup)
    (hoffered : ∀ o ∈ met, form.Offered o) : (rootId :: met.map fun o => o.choice.id).Nodup := by
  refine List.nodup_cons.2 ⟨fun hmem => ?_, hmet.map_on fun o ho o' ho' heq => ?_⟩
  · obtain ⟨o, ho, hid⟩ := List.mem_map.1 hmem
    exact h.fresh o (hoffered o ho) hid
  · exact h.distinct o o' (hoffered o ho) (hoffered o' ho') heq

/-- Reopening meets offers only, each once. -/
theorem exists_drawn (hentry : form.entry? = some entry) {ts : List OptionTree}
    (h : reopenChoices form [entryStepId] [] entry.leadChoices = .ok (ts, after)) :
    ∃ pairs, Drawn form entry.offers ts pairs ∧
      Traced form [] after entry.offers (pairs.map Prod.fst) ∧ (pairs.map Prod.fst).Nodup ∧
      ∀ o ∈ pairs.map Prod.fst, form.Offered o := by
  rw [← Step.map_offers] at h
  obtain ⟨pairs, hdrawn, htraced⟩ := exists_drawn_choices List.mem_cons_self h
  have hready := Ready.entry hentry
  exact ⟨pairs, hdrawn, htraced, htraced.distinct hready.distinct hready.steps,
    htraced.offered hready.offered⟩

/-- If the steps have distinct ids, reopening meets all offers. -/
theorem exists_drawn_of_entry (hd : form.stepIds.Nodup) (hentry : form.entry? = some entry)
    {ts : List OptionTree}
    (h : reopenChoices form [entryStepId] [] entry.leadChoices = .ok (ts, after)) :
    ∃ pairs, Drawn form entry.offers ts pairs ∧
      Traced form [] after entry.offers (pairs.map Prod.fst) ∧ (pairs.map Prod.fst).Nodup ∧
      ∀ o, form.Offered o ↔ o ∈ pairs.map Prod.fst := by
  obtain ⟨pairs, hdrawn, htraced, hnodup, hoffered⟩ := exists_drawn hentry h
  refine ⟨pairs, hdrawn, htraced, hnodup, fun o =>
    ⟨Offered.mem_of_closed hd (fun s hs o ho => ?_) hdrawn.closed, hoffered o⟩⟩
  obtain rfl := Option.some.inj (hentry.symm.trans hs)
  obtain ⟨i, hi, rfl⟩ := List.getElem_of_mem ho
  exact List.mem_map_of_mem (hdrawn.tops.get hi (hdrawn.tops.length_eq ▸ hi))

end Form

/-! ### The forms that are reopened as trees -/

/-- **The forms that are reopened as trees are those with the graph of a tree.** The steps have
distinct ids, and the first field of the entry step offers choices; the ids of choices are texts,
and targets may name something. The form is reopened as a tree if and only if its graph is one; if
it is not, the form counts as malformed. The nodes below the root correspond to the offers one to
one, and below a node stand the nodes of the offers below its offer, in order. -/
theorem openForm_iff_treeShaped {form : Form} {entry : Step} {rootId : Value}
    (hd : form.stepIds.Nodup) (hentry : form.entry? = some entry) (hlead : entry.leadChoices ≠ [])
    (hids : ∀ s ∈ form.steps, ∀ c ∈ s.leadChoices, ∃ i, c.id = .text i)
    (hkeys : ∀ s ∈ form.steps, ∀ c ∈ s.leadChoices, c.target.isKey = true) :
    ((∃ t, (openForm form rootId true).outcome = .ok (some t)) ↔ form.TreeShaped rootId) ∧
    (¬ form.TreeShaped rootId →
      ∃ cause, (openForm form rootId true).outcome = .error (.malformed cause)) ∧
    ∀ t, (openForm form rootId true).outcome = .ok (some t) →
      t.ids.Nodup ∧ ∃ node : Offer → OptionTree,
        Set.BijOn node {o | form.Offered o} {u | u ∈ OptionTree.preorderAll t.children} ∧
        t.children = entry.offers.map node ∧
        ∀ o, form.Offered o → node o = choiceNode o.choice (form.multipleBelow o.choice)
          ((form.offersBelow o.choice).map node) := by
  simp only [outcome_openForm_strict, Form.reopen_of_entry hentry hlead]
  have hmem : entry ∈ form.steps := List.mem_of_find?_eq_some hentry
  cases hreopen : reopenChoices form [entryStepId] [] entry.leadChoices with
  | error e =>
    have hnot : ¬ form.TreeShaped rootId := by
      intro hshape
      obtain ⟨ts, after, hts⟩ := reopen_of_ready hd hshape [entryStepId] [] entry.offers
        List.mem_cons_self (.entry hentry)
      rw [Step.map_offers, hreopen] at hts
      cases hts
    obtain ⟨cause, rfl⟩ := malformed_of_reopenChoices hkeys _ _ _ (hkeys entry hmem) hreopen
    refine ⟨⟨?_, fun hshape => absurd hshape hnot⟩, fun _ => ⟨cause, rfl⟩, ?_⟩
    · rintro ⟨t, ht⟩
      cases ht
    · intro t ht
      cases ht
  | ok out =>
    obtain ⟨ts, after⟩ := out
    obtain ⟨pairs, hdrawn, htraced, hnodup, hall⟩ := Form.exists_drawn_of_entry hd hentry hreopen
    obtain ⟨ss, hss⟩ : ∃ ss : List String,
        ((pairs.map Prod.fst).map fun o => o.choice.id) = ss.map .text := by
      refine Value.exists_texts fun v hv => ?_
      obtain ⟨o, ho, rfl⟩ := List.mem_map.1 hv
      obtain ⟨hmet, hoffer⟩ := (hall o).2 ho
      exact hids o.step hmet.mem o.choice (Step.of_mem_offers hoffer).2
    obtain ⟨repeated, hrepeated, hnil⟩ := repeatedIds_cons_texts rootId ss
    have hroot : ∀ d : Node, (OptionTree.node d ts).ids = d.id :: ss.map .text := by
      intro d
      rw [OptionTree.ids_eq_cons, ← hss, ← hdrawn.ids]
      rfl
    simp only [hroot, hrepeated]
    rw [← hss] at hnil
    cases repeated with
    | nil =>
      have hdistinct := hnil.1 rfl
      have hshape := Form.treeShaped_of_traced hd htraced hall hdistinct
      refine ⟨⟨fun _ => hshape, fun _ => ⟨_, rfl⟩⟩, fun hnot => absurd hshape hnot, fun t ht => ?_⟩
      cases ht
      have hnodes : (pairs.map Prod.snd).Nodup := by
        refine List.Nodup.of_map OptionTree.id ?_
        rw [hdrawn.nodes, hdrawn.ids]
        exact (List.nodup_cons.1 hdistinct).2
      obtain ⟨node, hbij, htops, hnode⟩ := hdrawn.exists_node hnodup hnodes
      refine ⟨?_, node, ?_, htops, fun o ho => hnode o ((hall o).1 ho)⟩
      · rw [hroot, ← hss]
        exact hdistinct
      · have hoffers : {o | form.Offered o} = {o | o ∈ pairs.map Prod.fst} := Set.ext hall
        rw [hoffers]
        exact hbij
    | cons i is =>
      have hnot : ¬ form.TreeShaped rootId := fun hshape =>
        absurd (hnil.2 (hshape.nodup_ids hnodup fun o ho => (hall o).2 ho)) (List.cons_ne_nil i is)
      refine ⟨⟨?_, fun hshape => absurd hshape hnot⟩, fun _ => ⟨_, rfl⟩, ?_⟩
      · rintro ⟨t, ht⟩
        cases ht
      · intro t ht
        cases ht

/-- The form made by hand is a tree below most roots, but not below one with the id of a choice. -/
theorem handmade_treeShaped : handmade.TreeShaped "r" ∧ ¬ handmade.TreeShaped "a" ∧
    ∃ cause, (openForm handmade "a" true).outcome = .error (.malformed cause) := by
  have hd : handmade.stepIds.Nodup := by decide
  obtain ⟨entry, hentry, hlead⟩ : ∃ entry, handmade.entry? = some entry ∧ entry.leadChoices ≠ [] :=
    ⟨_, rfl, by decide⟩
  have hids : ∀ s ∈ handmade.steps, ∀ c ∈ s.leadChoices, ∃ i, c.id = .text i := by
    simp [handmade, Step.leadChoices, Field.choices, Field.question]
  have hkeys : ∀ s ∈ handmade.steps, ∀ c ∈ s.leadChoices, c.target.isKey = true := by decide
  obtain ⟨hiff, -, -⟩ := openForm_iff_treeShaped hd hentry hlead hids hkeys
  obtain ⟨hiff', hmalformed, -⟩ := openForm_iff_treeShaped hd hentry hlead hids hkeys
  have hnot : ¬ handmade.TreeShaped "a" := by
    intro hshape
    obtain ⟨t, ht⟩ := hiff'.2 hshape
    have herror :
        (openForm handmade "a" true).outcome = .error (.malformed (.repeatedIds ["a"])) := by
      cbv
    rw [herror] at ht
    cases ht
  exact ⟨hiff.1 ⟨_, by cbv⟩, hnot, hmalformed hnot⟩

/-- A form whose terminal step offers a choice, with two ways to it. -/
def signpost : Form :=
  { name := "Ways"
    steps := [
      { id := "step1", title := "Ways"
        fields := [.mk { id := "way", kind := .radio, label := "Way", choices := [
          { id := "left", label := "Left", value := "left", nextField := "step_final" },
          { id := "right", label := "Right", value := "right", nextField := "step_final" }] } []] },
      { id := "step_final", title := "End", isLast := true
        fields := [.mk { id := "end", kind := .radio, label := "End", choices := [
          { id := "done", label := "Done", value := "done" }] } []] }] }

/-- A terminal step may offer choices and be the target of two others. Its choices are not followed,
so the form is reopened as a tree all the same. -/
theorem signpost_shared :
    ¬ ((∃ t, (openForm signpost "r" true).outcome = .ok (some t)) ↔
      signpost.TreeShaped "r" ∧ ∀ s ∈ signpost.steps, s.leadChoices ≠ [] → ¬ signpost.Shared s) := by
  intro hiff
  obtain ⟨-, hsingle⟩ := hiff.1 ⟨_, by cbv⟩
  refine hsingle _ (List.mem_cons_of_mem _ List.mem_cons_self) (List.cons_ne_nil _ _)
    ⟨⟨_, 0, _⟩, ⟨_, 1, _⟩, ⟨.entry rfl, List.mem_cons_self⟩,
      ⟨.entry rfl, List.mem_cons_of_mem _ List.mem_cons_self⟩, fun heq => ?_, ⟨rfl, rfl⟩, ⟨rfl, rfl⟩⟩
  cases congrArg Offer.index heq

end BranchForm
