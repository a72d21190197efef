import BranchForm.Proofs.Following
import BranchForm.Proofs.Values
import Mathlib

/-!
# What reopening a form costs

The steps of a stored form may lead anywhere: around in a circle, to one step from several, to a step
of a name that others have too. Reopening the form ends all the same, since a choice is only followed
to a step that is not in the tree yet.

To say so, the recursion is written down once more, with a bound on how deep it goes and with a list
of the steps whose choices it follows.

* `Run` is a run with that list, `followWithin` follows a choice and `Form.reopenWithin` reopens a
  form, each to the depth given; they answer nothing if the depth is not enough;
* `Accounts` is what the runs of choices satisfy: the choices of no step are followed twice, and what
  is returned has one node for every choice followed;
* `exists_followAll` and `follows_followWithin` : the depth is enough if it makes up for the step
  names that do not stand on the path;
* `exists_reopenWithin` : the number of distinct step names is enough for a whole form, and a tree has
  at most one node for every choice of the form, besides the root (`Bounded`).
-/

namespace BranchForm

/-- The run of a recursion over the steps of a form. -/
structure Run (α : Type) where
  /-- The steps whose choices were followed, in order. -/
  followed : List Step
  /-- The answer. -/
  answer : Except Error α

namespace Run

variable {α β : Type}

/-- A run that goes nowhere. -/
def still (answer : Except Error α) : Run α := { followed := [], answer }

/-- A run with something made of its result. -/
def map (f : α → β) (r : Run α) : Run β := { followed := r.followed, answer := r.answer.map f }

/-- A run behind one that has followed some steps. -/
def behind (steps : List Step) (r : Run α) : Run α := { r with followed := steps ++ r.followed }

end Run

/-- Follows choices from the first to the last, by a way to follow one of them. -/
def followAll (follow : List String → Choice → Option (Run (OptionTree × List String)))
    (expanded : List String) : List Choice → Option (Run (List OptionTree × List String))
  | [] => some (.still (.ok ([], expanded)))
  | c :: cs => do
    let first ← follow expanded c
    match first.answer with
    | .error e => some { first with answer := .error e }
    | .ok (t, expanded) =>
      (followAll follow expanded cs).map fun others =>
        (others.map fun (ts, expanded) => (t :: ts, expanded)).behind first.followed

/-- Follows a choice to the depth given, as `reopenChoice` does without a bound. -/
def followWithin (form : Form) : (depth : Nat) → (path expanded : List String) → Choice →
    Option (Run (OptionTree × List String))
  | 0, _, _, _ => none
  | depth + 1, path, expanded, c =>
    match c.target with
    | .text target =>
      if target = "" ∨ target = finalStepId then some (.still (.ok (choiceNode c false [], expanded)))
      else if target ∈ path then some (.still (.error (.malformed (.leadsBack c.id (.text target)))))
      else match form.latestStep? target with
        | none => some (.still (.error (.malformed (.unknownTarget c.id (.text target)))))
        | some s =>
          if s.leadChoices.isEmpty then some (.still (.ok (choiceNode c false [], expanded)))
          else if target ∈ expanded then
            some (.still (.error (.malformed (.alreadyExpanded c.id (.text target)))))
          else
            (followAll (followWithin form depth (target :: path)) (target :: expanded)
                s.leadChoices).map fun below =>
              (below.map fun (children, expanded) =>
                (choiceNode c s.leadMultiple children, expanded)).behind [s]
    | target =>
      if target.truthy then some (.still (.error (strayTarget c.id target)))
      else some (.still (.ok (choiceNode c false [], expanded)))

/-- Reopens a form to the depth given, as `Form.reopen` does without a bound. -/
def Form.reopenWithin (form : Form) (depth : Nat) (rootId : Value) :
    Option (Run (Option OptionTree)) :=
  if form.steps.isEmpty then some (.still (.ok none))
  else match form.entry? with
    | none => some (.still (.error (.malformed .noEntry)))
    | some entry =>
      if entry.leadChoices.isEmpty then some (.still (.ok none))
      else
        (followAll (followWithin form depth [entryStepId]) [] entry.leadChoices).map fun below => {
          followed := entry :: below.followed
          answer := below.answer >>= fun (children, _) => form.rooted rootId children }

variable {form : Form} {depth : Nat} {path expanded after : List String} {c : Choice}

/-! ### One choice -/

/-- A choice that leads to no step is answered on the spot. -/
theorem followWithin_of_no_next (h : form.next? c = none) :
    followWithin form (depth + 1) path expanded c =
      some (.still (reopenChoice form path expanded c)) := by
  rw [followWithin, reopenChoice]
  cases htarget : c.target with
  | text stepId =>
    by_cases hstop : stepId = "" ∨ stepId = finalStepId
    · simp only [if_pos hstop]
    · have hon : c.LeadsOn := (Choice.leadsOn_text htarget).2 hstop
      have hnone : form.latestStep? stepId = none := by
        simpa only [Form.next?, htarget, hon, ↓reduceIte] using h
      simp only [if_neg hstop, dite_eq_ite]
      split
      · rfl
      · split
        · split
          · rfl
          · rename_i s hs
            rw [hnone] at hs
            cases hs
        · rename_i s hs
          rw [hnone] at hs
          cases hs
  | _ =>
    simp only
    split <;> rfl

/-- A choice that leads to a step is answered on the spot if it is damaged or the step offers
nothing, else the choices of the step are followed. -/
theorem followWithin_of_next {s : Step} (h : form.next? c = some s) :
    followWithin form (depth + 1) path expanded c =
      if s.id ∈ path ∨ s.leadChoices = [] ∨ s.id ∈ expanded then
        some (.still (reopenChoice form path expanded c))
      else
        (followAll (followWithin form depth (s.id :: path)) (s.id :: expanded) s.leadChoices).map
          fun below => (below.map fun (children, expanded) =>
            (choiceNode c s.leadMultiple children, expanded)).behind [s] := by
  obtain ⟨hon, -, htarget⟩ := Form.of_next? h
  have hstop := (Choice.leadsOn_text htarget).1 hon
  rw [reopenChoice_of_next? h, followWithin, htarget]
  simp only [if_neg hstop, Form.latestStep?_of_next? h, List.isEmpty_iff]
  by_cases hpath : s.id ∈ path
  · simp only [hpath, true_or, ↓reduceIte]
  · by_cases hlead : s.leadChoices = []
    · simp only [hpath, hlead, true_or, or_true, ↓reduceIte]
    · by_cases hexpanded : s.id ∈ expanded
      · simp only [hpath, hlead, hexpanded, or_true, ↓reduceIte]
      · simp only [hpath, hlead, hexpanded, or_self, ↓reduceIte]

/-! ### What a run follows and returns -/

/-- The number of choices in the first fields of steps. -/
def leadCount (steps : List Step) : Nat := (steps.map fun s => s.leadChoices.length).sum

theorem leadCount_cons (s : Step) (steps : List Step) :
    leadCount (s :: steps) = s.leadChoices.length + leadCount steps := by
  rw [leadCount, List.map_cons, List.sum_cons, leadCount]

theorem leadCount_append (ss ts : List Step) :
    leadCount (ss ++ ts) = leadCount ss + leadCount ts := by
  rw [leadCount, List.map_append, List.sum_append, leadCount, leadCount]

/-- The steps whose choices a run has followed are distinct steps of the form that were neither on
the path nor in the tree before. If the run returns something, they are in the tree now, and what is
returned has one node for each of their choices, besides some of its own. -/
structure Accounts {α : Type} (form : Form) (path expanded : List String) (size : α → Nat)
    (own : Nat) (r : Run (α × List String)) : Prop where
  /-- The form has the steps. -/
  mem : ∀ s ∈ r.followed, s ∈ form.steps
  /-- No two of the steps have one id. -/
  distinct : (r.followed.map Step.id).Nodup
  /-- The steps do not stand on the path. -/
  offPath : ∀ s ∈ r.followed, s.id ∉ path
  /-- The steps were not in the tree before. -/
  fresh : ∀ s ∈ r.followed, s.id ∉ expanded
  /-- What is in the tree afterwards. -/
  grown : ∀ a after, r.answer = .ok (a, after) →
    expanded ⊆ after ∧ ∀ s ∈ r.followed, s.id ∈ after
  /-- The number of nodes returned. -/
  counted : ∀ a after, r.answer = .ok (a, after) → size a = own + leadCount r.followed

namespace Accounts

/-- A run that goes nowhere returns nothing but its own, and adds no step. -/
theorem still {α : Type} {size : α → Nat} {own : Nat} {answer : Except Error (α × List String)}
    (h : ∀ a after, answer = .ok (a, after) → after = expanded ∧ size a = own) :
    Accounts form path expanded size own (.still answer) where
  mem := nofun
  distinct := .nil
  offPath := nofun
  fresh := nofun
  grown := by
    intro a after ha
    obtain ⟨rfl, -⟩ := h a after ha
    exact ⟨List.Subset.refl _, nofun⟩
  counted := by
    intro a after ha
    exact (h a after ha).2

/-- A choice is followed to a step that is neither on the path nor in the tree. -/
theorem above {s : Step} (hs : s ∈ form.steps) (hpath : s.id ∉ path) (hexpanded : s.id ∉ expanded)
    {below : Run (List OptionTree × List String)}
    (h : Accounts form (s.id :: path) (s.id :: expanded) OptionTree.sizeAll s.leadChoices.length
      below) :
    Accounts form path expanded OptionTree.size 1
      ((below.map fun (children, expanded) =>
        (choiceNode c s.leadMultiple children, expanded)).behind [s]) where
  mem := List.forall_mem_cons.2 ⟨hs, h.mem⟩
  distinct := by
    refine List.nodup_cons.2 ⟨?_, h.distinct⟩
    intro hmem
    obtain ⟨u, hu, hid⟩ := List.mem_map.1 hmem
    exact h.fresh u hu (hid ▸ List.mem_cons_self)
  offPath := List.forall_mem_cons.2
    ⟨hpath, fun u hu hmem => h.offPath u hu (List.mem_cons_of_mem _ hmem)⟩
  fresh := List.forall_mem_cons.2
    ⟨hexpanded, fun u hu hmem => h.fresh u hu (List.mem_cons_of_mem _ hmem)⟩
  grown := by
    intro t after ht
    obtain ⟨⟨children, after⟩, hchildren, heq⟩ := map_eq_ok_iff.1 ht
    cases heq
    obtain ⟨hsub, hfollowed⟩ := h.grown children after hchildren
    exact ⟨fun i hi => hsub (List.mem_cons_of_mem _ hi),
      List.forall_mem_cons.2 ⟨hsub List.mem_cons_self, hfollowed⟩⟩
  counted := by
    intro t after ht
    obtain ⟨⟨children, after⟩, hchildren, heq⟩ := map_eq_ok_iff.1 ht
    cases heq
    have hcount := h.counted children after hchildren
    show 1 + OptionTree.sizeAll children = 1 + leadCount (s :: below.followed)
    rw [hcount, leadCount_cons]

/-- The first error ends a run. -/
theorem stop {α β : Type} {size : α → Nat} {size' : β → Nat} {m n : Nat}
    {r : Run (α × List String)} (h : Accounts form path expanded size m r) (e : Error) :
    Accounts form path expanded size' n { followed := r.followed, answer := .error e } where
  mem := h.mem
  distinct := h.distinct
  offPath := h.offPath
  fresh := h.fresh
  grown := nofun
  counted := nofun

/-- Choices are followed one after the other, each with the steps in the tree that those before it
have left there. -/
theorem cons {first : Run (OptionTree × List String)} {t : OptionTree} {between : List String}
    (hfirst : Accounts form path expanded OptionTree.size 1 first)
    (ht : first.answer = .ok (t, between)) {n : Nat} {others : Run (List OptionTree × List String)}
    (h : Accounts form path between OptionTree.sizeAll n others) :
    Accounts form path expanded OptionTree.sizeAll (n + 1)
      ((others.map fun (ts, expanded) => (t :: ts, expanded)).behind first.followed) where
  mem := List.forall_mem_append.2 ⟨hfirst.mem, h.mem⟩
  distinct := by
    show ((first.followed ++ others.followed).map Step.id).Nodup
    rw [List.map_append, List.nodup_append]
    refine ⟨hfirst.distinct, h.distinct, ?_⟩
    -- what the first choice was expanded with is in the tree when the others are followed
    intro i hi j hj hij
    obtain ⟨s, hs, rfl⟩ := List.mem_map.1 hi
    obtain ⟨u, hu, rfl⟩ := List.mem_map.1 hj
    exact h.fresh u hu (hij ▸ (hfirst.grown t between ht).2 s hs)
  offPath := List.forall_mem_append.2 ⟨hfirst.offPath, h.offPath⟩
  fresh := List.forall_mem_append.2
    ⟨hfirst.fresh, fun u hu hmem => h.fresh u hu ((hfirst.grown t between ht).1 hmem)⟩
  grown := by
    intro ts after hts
    obtain ⟨⟨us, after⟩, hus, heq⟩ := map_eq_ok_iff.1 hts
    cases heq
    obtain ⟨hsub, hfollowed⟩ := hfirst.grown t between ht
    obtain ⟨hsub', hfollowed'⟩ := h.grown us after hus
    exact ⟨List.Subset.trans hsub hsub',
      List.forall_mem_append.2 ⟨fun s hs => hsub' (hfollowed s hs), hfollowed'⟩⟩
  counted := by
    intro ts after hts
    obtain ⟨⟨us, after⟩, hus, heq⟩ := map_eq_ok_iff.1 hts
    cases heq
    have hcount := hfirst.counted t between ht
    have hcount' := h.counted us after hus
    show OptionTree.sizeAll (t :: us) = n + 1 + leadCount (first.followed ++ others.followed)
    rw [OptionTree.sizeAll, hcount, hcount', leadCount_append]
    omega

end Accounts

/-! ### The depth is enough -/

/-- A run to the depth given answers as the recursion without a bound does. -/
def Follows (form : Form) (path : List String)
    (follow : List String → Choice → Option (Run (OptionTree × List String))) : Prop :=
  ∀ expanded c, ∃ run, follow expanded c = some run ∧
    run.answer = reopenChoice form path expanded c ∧
    Accounts form path expanded OptionTree.size 1 run

theorem exists_followAll {follow : List String → Choice → Option (Run (OptionTree × List String))}
    (h : Follows form path follow) (expanded : List String) (cs : List Choice) :
    ∃ run, followAll follow expanded cs = some run ∧
      run.answer = reopenChoices form path expanded cs ∧
      Accounts form path expanded OptionTree.sizeAll cs.length run := by
  induction cs generalizing expanded with
  | nil =>
    refine ⟨_, rfl, by rw [reopenChoices]; rfl, .still ?_⟩
    intro ts after hts
    cases hts
    exact ⟨rfl, rfl⟩
  | cons c cs ih =>
    obtain ⟨first, hfirst, hanswer, haccounts⟩ := h expanded c
    simp only [followAll, hfirst, Option.bind_eq_bind, Option.bind_some]
    rw [reopenChoices, ← hanswer]
    cases hc : first.answer with
    | error e => exact ⟨_, rfl, rfl, haccounts.stop e⟩
    | ok result =>
      obtain ⟨t, between⟩ := result
      obtain ⟨others, hothers, hanswer', haccounts'⟩ := ih between
      simp only [hothers]
      refine ⟨_, rfl, ?_, haccounts.cons hc haccounts'⟩
      rw [← hanswer']
      show others.answer.map _ = _
      cases others.answer <;> rfl

/-- While the path and the depth together exceed the number of step names, the depth is enough: the
names on a path are distinct, so it cannot become longer than that. -/
theorem follows_followWithin (depth : Nat) {path : List String} (hpath : path.Nodup)
    (hsub : path ⊆ form.stepIds) (hdepth : form.stepIds.dedup.length < path.length + depth) :
    Follows form path (followWithin form depth path) := by
  induction depth generalizing path with
  | zero =>
    -- such a path would have more names than there are
    have hsub' : path ⊆ form.stepIds.dedup := fun i hi => List.mem_dedup.2 (hsub hi)
    have hlength := (List.subperm_of_subset hpath hsub').length_le
    omega
  | succ depth ih =>
    intro expanded c
    cases hnext : form.next? c with
    | none =>
      refine ⟨_, followWithin_of_no_next hnext, rfl, .still ?_⟩
      intro t after ht
      obtain ⟨-, ⟨rfl, rfl, -⟩ | ⟨s, -, hs, -⟩⟩ := reopenChoice_inv ht
      · exact ⟨rfl, rfl⟩
      · rw [hnext] at hs
        cases hs
    | some s =>
      rw [followWithin_of_next hnext]
      split
      · rename_i hstay
        refine ⟨_, rfl, rfl, .still ?_⟩
        intro t after ht
        obtain ⟨hoff, ⟨rfl, rfl, -⟩ | ⟨u, children, hu, hexpanded, hlead, -⟩⟩ := reopenChoice_inv ht
        · exact ⟨rfl, rfl⟩
        · obtain ⟨v, hv, hpath⟩ := hoff (Form.of_next? hnext).1
          rw [hnext, Option.some.injEq] at hu hv
          subst hu hv
          exact absurd hstay (by simp [hpath, hlead, hexpanded])
      · rename_i hgo
        push Not at hgo
        obtain ⟨hoff, hlead, hexpanded⟩ := hgo
        obtain ⟨-, hmem, -⟩ := Form.of_next? hnext
        -- one level less is left below, but the path has one name more
        have hbelow : Follows form (s.id :: path) (followWithin form depth (s.id :: path)) := by
          refine ih (List.nodup_cons.2 ⟨hoff, hpath⟩)
            (List.cons_subset.2 ⟨List.mem_map_of_mem hmem, hsub⟩) ?_
          rw [List.length_cons]
          omega
        obtain ⟨below, hbelow, hanswer, haccounts⟩ :=
          exists_followAll hbelow (s.id :: expanded) s.leadChoices
        rw [hbelow]
        refine ⟨_, rfl, ?_, haccounts.above hmem hoff hexpanded⟩
        rw [reopenChoice_of_next? hnext, if_neg hoff, if_neg (mt List.isEmpty_iff.1 hlead),
          if_neg hexpanded, ← hanswer]
        show below.answer.map _ = _
        cases below.answer <;> rfl

/-! ### Whole forms -/

/-- The choices of distinct steps are choices of the form. -/
theorem leadCount_le {steps : List Step} (hsub : steps ⊆ form.steps)
    (hd : (steps.map Step.id).Nodup) : leadCount steps ≤ leadCount form.steps := by
  -- up to their order, distinct steps are a part of the list of all steps
  obtain ⟨ss, hperm, hsublist⟩ := List.subperm_of_subset hd.of_map hsub
  have hsum := (hperm.map fun s => s.leadChoices.length).sum_eq
  rw [leadCount, ← hsum]
  exact (hsublist.map _).sum_le_sum fun _ _ => Nat.zero_le _

/-- A run that keeps to the bounds of a form: it answers as the recursion without a bound does, the
choices of no step are followed twice, and a tree has at most one node for every choice in the first
field of a step, besides the root. -/
structure Bounded (form : Form) (rootId : Value) (run : Run (Option OptionTree)) : Prop where
  /-- The answer is that of the recursion without a bound. -/
  answer : run.answer = form.reopen rootId
  /-- The steps followed are steps of the form. -/
  mem : ∀ s ∈ run.followed, s ∈ form.steps
  /-- No two of them have one id. -/
  distinct : (run.followed.map Step.id).Nodup
  /-- A tree is not larger than the form. -/
  size_le : ∀ t, form.reopen rootId = .ok (some t) → t.size ≤ 1 + leadCount form.steps

theorem Bounded.still {rootId : Value} {answer : Except Error (Option OptionTree)}
    (h : form.reopen rootId = answer) (hnone : ∀ t, answer ≠ .ok (some t)) :
    Bounded form rootId (.still answer) where
  answer := h.symm
  mem := nofun
  distinct := .nil
  size_le := fun t ht => absurd (h.symm.trans ht) (hnone t)

/-- The entry step stands on every path, so its choices are not followed again. -/
theorem exists_reopenWithin_of_entry {entry : Step} (hentry : form.entry? = some entry)
    (hlead : entry.leadChoices ≠ []) (rootId : Value) :
    ∃ run, form.reopenWithin form.stepIds.dedup.length rootId = some run ∧
      Bounded form rootId run := by
  have hmem : entry ∈ form.steps := List.mem_of_find?_eq_some hentry
  have hid : entry.id = entryStepId := by simpa using List.find?_some hentry
  have hsub : [entryStepId] ⊆ form.stepIds := by
    rw [← hid]
    exact List.cons_subset.2 ⟨List.mem_map_of_mem hmem, List.nil_subset _⟩
  have hfollows : Follows form [entryStepId]
      (followWithin form form.stepIds.dedup.length [entryStepId]) := by
    refine follows_followWithin _ (List.nodup_singleton _) hsub ?_
    rw [List.length_singleton]
    omega
  obtain ⟨below, hbelow, hanswer, haccounts⟩ := exists_followAll hfollows [] entry.leadChoices
  have hrun : form.reopenWithin form.stepIds.dedup.length rootId = some {
      followed := entry :: below.followed
      answer := below.answer >>= fun (children, _) => form.rooted rootId children } := by
    have hsteps : form.steps ≠ [] := List.ne_nil_of_mem hmem
    rw [Form.reopenWithin, if_neg (mt List.isEmpty_iff.1 hsteps), hentry]
    simp only [if_neg (mt List.isEmpty_iff.1 hlead), hbelow, Option.map_some]
  have hfollowed : ∀ s ∈ entry :: below.followed, s ∈ form.steps :=
    List.forall_mem_cons.2 ⟨hmem, haccounts.mem⟩
  have hdistinct : ((entry :: below.followed).map Step.id).Nodup := by
    refine List.nodup_cons.2 ⟨?_, haccounts.distinct⟩
    intro hin
    obtain ⟨s, hs, hsid⟩ := List.mem_map.1 hin
    exact haccounts.offPath s hs (by rw [hsid, hid]; exact List.mem_singleton_self _)
  refine ⟨_, hrun, ⟨?_, hfollowed, hdistinct, ?_⟩⟩
  · rw [Form.reopen_eq_rooted hentry hlead, ← hanswer]
  · intro t ht
    rw [Form.reopen_eq_rooted hentry hlead, ← hanswer, bind_eq_ok_iff] at ht
    obtain ⟨⟨children, after⟩, hchildren, hroot⟩ := ht
    have hcount := haccounts.counted children after hchildren
    have hle := leadCount_le hfollowed hdistinct
    obtain ⟨d, cs⟩ := t
    obtain rfl : cs = children := Form.children_of_rooted hroot
    rw [leadCount_cons] at hle
    rw [OptionTree.size]
    omega

/-- Reopening a form ends, wherever its steps lead. A depth of the number of distinct step names is
enough, and the run keeps to the bounds of the form. -/
theorem exists_reopenWithin (form : Form) (rootId : Value) :
    ∃ run, form.reopenWithin form.stepIds.dedup.length rootId = some run ∧
      Bounded form rootId run := by
  by_cases hsteps : form.steps = []
  · have hanswer : form.reopen rootId = .ok none := by simp [Form.reopen, hsteps]
    exact ⟨.still (.ok none), by simp [Form.reopenWithin, hsteps], .still hanswer (by simp)⟩
  · cases hentry : form.entry? with
    | none =>
      have hanswer : form.reopen rootId = .error (.malformed .noEntry) := by
        simp [Form.reopen, hsteps, hentry]
      exact ⟨.still (.error (.malformed .noEntry)),
        by simp [Form.reopenWithin, hsteps, hentry], .still hanswer (by simp)⟩
    | some entry =>
      by_cases hlead : entry.leadChoices = []
      · have hanswer : form.reopen rootId = .ok none := by
          simp [Form.reopen, hsteps, hentry, hlead]
        exact ⟨.still (.ok none), by simp [Form.reopenWithin, hsteps, hentry, hlead],
          .still hanswer (by simp)⟩
      · exact exists_reopenWithin_of_entry hentry hlead rootId

end BranchForm
