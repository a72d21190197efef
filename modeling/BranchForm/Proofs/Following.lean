import BranchForm.Proofs.Lookup
import BranchForm.Reopen

/-!
# Following choices

How one choice is followed when a form is reopened, and how several are.

* `Choice.LeadsOn` holds of the choices that are followed at all, and `Form.next?` is the step that
  such a choice leads to;
* `reopenChoice_of_stop`, `reopenChoice_of_lost` and `reopenChoice_of_next?` say what becomes of a
  choice that is not followed, of one that leads to no step, and of one that leads to a step;
* `reopenChoice_inv` and `reopenChoices_inv` : what choices that can be followed are made of;
* `Strays` says that a choice is come to whose target is a list or a record; what stops the reopening
  is damage, or that choices stray (`error_of_reopenChoices`, `reopenChoices_of_strays`);
* `malformed_of_reopenChoices` : where targets may name something, nothing but damage stops the
  reopening;
* `Form.reopen_of_entry` and `Form.reopen_eq_rooted` : a form is reopened by following the choices of
  its entry step.
-/

namespace BranchForm

/-- A choice has a target, and it is not the end of the form. -/
def Choice.LeadsOn (c : Choice) : Prop := c.target.truthy = true ∧ c.target ≠ .text finalStepId

instance (c : Choice) : Decidable c.LeadsOn :=
  inferInstanceAs (Decidable (c.target.truthy = true ∧ c.target ≠ .text finalStepId))

/-- The step that a choice leads on to. -/
def Form.next? (form : Form) (c : Choice) : Option Step :=
  match c.target with
  | .text stepId => if c.LeadsOn then form.latestStep? stepId else none
  | _ => none

variable {form : Form} {c : Choice} {path expanded after : List String} {t : OptionTree}

theorem Form.of_next? {s : Step} (h : form.next? c = some s) :
    c.LeadsOn ∧ s ∈ form.steps ∧ c.target = .text s.id := by
  unfold next? at h
  split at h
  · rename_i stepId htarget
    split at h
    · rename_i hon
      obtain ⟨hmem, rfl⟩ := of_latestStep? h
      exact ⟨hon, hmem, htarget⟩
    · cases h
  · cases h

theorem Form.latestStep?_of_next? {s : Step} (h : form.next? c = some s) :
    form.latestStep? s.id = some s := by
  obtain ⟨hon, -, htarget⟩ := of_next? h
  simpa only [next?, htarget, hon, ↓reduceIte] using h

theorem Form.next?_of_mem (hd : form.stepIds.Nodup) {s : Step} (hs : s ∈ form.steps)
    (hon : c.LeadsOn) (htarget : c.target = .text s.id) : form.next? c = some s := by
  rw [next?, htarget]
  simp only [hon, ↓reduceIte, latestStep?_of_mem hd hs]

/-! ### One choice -/

theorem Choice.leadsOn_text {stepId : String} (h : c.target = .text stepId) :
    c.LeadsOn ↔ ¬ (stepId = "" ∨ stepId = finalStepId) := by
  simp [LeadsOn, h, Value.truthy]

/-- A choice that is not followed becomes a leaf. -/
theorem reopenChoice_of_stop (h : ¬ c.LeadsOn) :
    reopenChoice form path expanded c = .ok (choiceNode c false [], expanded) := by
  rw [reopenChoice]
  split
  · rename_i stepId htarget
    rw [Choice.leadsOn_text htarget, not_not] at h
    rw [if_pos h]
  · rename_i htext
    have hfalsy : ¬ c.target.truthy = true := fun htruthy => h ⟨htruthy, htext finalStepId⟩
    rw [if_neg hfalsy]

/-- A choice that leads to no step is damage, unless its target can name nothing at all. -/
theorem reopenChoice_of_lost (path expanded : List String) (hon : c.LeadsOn)
    (hnone : form.next? c = none) :
    c.target.isKey = true ∧
        (∃ cause, reopenChoice form path expanded c = .error (.malformed cause)) ∨
      c.target.isKey = false ∧ reopenChoice form path expanded c = .error (.fault .wrongKind) := by
  rw [reopenChoice]
  unfold Form.next? at hnone
  split
  · rename_i stepId htarget
    simp only [htarget, hon, ↓reduceIte] at hnone
    rw [if_neg ((Choice.leadsOn_text htarget).1 hon)]
    have hkey : c.target.isKey = true := htarget ▸ rfl
    split
    · exact .inl ⟨hkey, _, rfl⟩
    · split
      · exact .inl ⟨hkey, _, rfl⟩
      · rename_i s hs
        rw [hnone] at hs
        cases hs
  · rename_i target htext
    rw [if_pos hon.1, strayTarget]
    by_cases hkey : c.target.isKey = true
    · rw [if_pos hkey]
      exact .inl ⟨hkey, _, rfl⟩
    · rw [if_neg hkey]
      exact .inr ⟨Bool.eq_false_iff.2 hkey, rfl⟩

/-- A choice that leads to a step becomes a leaf if the step offers nothing, else a node above the
choices of the step. It is damage to lead to a step of the path, or to one that offers choices and
stands in the tree. -/
theorem reopenChoice_of_next? {s : Step} (h : form.next? c = some s) :
    reopenChoice form path expanded c =
      if s.id ∈ path then .error (.malformed (.leadsBack c.id (.text s.id)))
      else if s.leadChoices.isEmpty then .ok (choiceNode c false [], expanded)
      else if s.id ∈ expanded then .error (.malformed (.alreadyExpanded c.id (.text s.id)))
      else
        match reopenChoices form (s.id :: path) (s.id :: expanded) s.leadChoices with
        | .error e => .error e
        | .ok (children, after) => .ok (choiceNode c s.leadMultiple children, after) := by
  obtain ⟨hon, -, htarget⟩ := Form.of_next? h
  have hstep : form.latestStep? s.id = some s := by
    simpa only [Form.next?, htarget, hon, ↓reduceIte] using h
  rw [reopenChoice, htarget]
  simp only [if_neg ((Choice.leadsOn_text htarget).1 hon), dite_eq_ite]
  split
  · rfl
  · split
    · rename_i hnone
      rw [hstep] at hnone
      cases hnone
    · rename_i u hu
      rw [hstep] at hu
      cases hu
      rfl

/-- A choice that can be followed leads to a step off the path if it leads on at all. It becomes a
leaf, or the choices of the step become its children; then the step was not in the tree yet. -/
theorem reopenChoice_inv (h : reopenChoice form path expanded c = .ok (t, after)) :
    (c.LeadsOn → ∃ s, form.next? c = some s ∧ s.id ∉ path) ∧
      ((t = choiceNode c false [] ∧ after = expanded ∧
          ∀ s, form.next? c = some s → s.leadChoices = []) ∨
        ∃ s children, form.next? c = some s ∧ s.id ∉ expanded ∧ s.leadChoices ≠ [] ∧
          reopenChoices form (s.id :: path) (s.id :: expanded) s.leadChoices = .ok (children, after) ∧
          t = choiceNode c s.leadMultiple children) := by
  cases hnext : form.next? c with
  | none =>
    by_cases hon : c.LeadsOn
    · obtain ⟨-, cause, he⟩ | ⟨-, he⟩ := reopenChoice_of_lost path expanded hon hnext
      · rw [he] at h
        cases h
      · rw [he] at h
        cases h
    · rw [reopenChoice_of_stop hon] at h
      cases h
      exact ⟨fun h => absurd h hon, .inl ⟨rfl, rfl, nofun⟩⟩
  | some s =>
    rw [reopenChoice_of_next? hnext] at h
    split at h
    · cases h
    · rename_i hpath
      refine ⟨fun _ => ⟨s, rfl, hpath⟩, ?_⟩
      split at h
      · rename_i hempty
        cases h
        exact .inl ⟨rfl, rfl, fun u hu => Option.some.inj hu ▸ List.isEmpty_iff.1 hempty⟩
      · rename_i hlead
        split at h
        · cases h
        · rename_i hexpanded
          split at h
          · cases h
          · rename_i children after' hchildren
            cases h
            exact .inr ⟨s, children, rfl, hexpanded, fun hnil => hlead (List.isEmpty_iff.2 hnil),
              hchildren, rfl⟩

/-! ### Several choices -/

theorem reopenChoices_nil_inv {ts : List OptionTree}
    (h : reopenChoices form path expanded [] = .ok (ts, after)) : ts = [] ∧ after = expanded := by
  rw [reopenChoices] at h
  cases h
  exact ⟨rfl, rfl⟩

theorem reopenChoices_inv {cs : List Choice} {ts : List OptionTree}
    (h : reopenChoices form path expanded (c :: cs) = .ok (ts, after)) :
    ∃ t between us, reopenChoice form path expanded c = .ok (t, between) ∧
      reopenChoices form path between cs = .ok (us, after) ∧ ts = t :: us := by
  rw [reopenChoices] at h
  split at h
  · cases h
  · rename_i t between ht
    split at h
    · cases h
    · rename_i us after' hus
      cases h
      exact ⟨t, between, us, ht, hus, rfl⟩

/-- Nodes come from choices, one from each. -/
theorem exists_of_reopenChoices_cons {cs : List Choice} {ts : List OptionTree}
    (h : reopenChoices form path expanded cs = .ok (t :: ts, after)) :
    ∃ c rest between, cs = c :: rest ∧ reopenChoice form path expanded c = .ok (t, between) ∧
      reopenChoices form path between rest = .ok (ts, after) := by
  cases cs with
  | nil => exact absurd (reopenChoices_nil_inv h).1 (List.cons_ne_nil t ts)
  | cons c rest =>
    obtain ⟨u, between, us, hu, hus, hcons⟩ := reopenChoices_inv h
    obtain ⟨rfl, rfl⟩ := List.cons.inj hcons
    exact ⟨c, rest, between, rfl, hu, hus⟩

theorem reopenChoices_cons {between : List String} {cs : List Choice} {ts : List OptionTree}
    (ht : reopenChoice form path expanded c = .ok (t, between))
    (hts : reopenChoices form path between cs = .ok (ts, after)) :
    reopenChoices form path expanded (c :: cs) = .ok (t :: ts, after) := by
  rw [reopenChoices, ht]
  simp only [hts]

/-! ### Damage -/

/-- Following choices comes to one whose target is a list or a record, before it comes to any damage:
a choice itself, one below it, or one beside it. -/
inductive Strays (form : Form) : (path expanded : List String) → List Choice → Prop
  /-- The target of the first choice can name nothing. -/
  | here {path expanded : List String} {c : Choice} {cs : List Choice} : c.LeadsOn →
      c.target.isKey = false → Strays form path expanded (c :: cs)
  /-- The first choice is followed to a step whose choices stray. -/
  | under {path expanded : List String} {c : Choice} {cs : List Choice} {s : Step} :
      form.next? c = some s → s.id ∉ path → s.id ∉ expanded →
      Strays form (s.id :: path) (s.id :: expanded) s.leadChoices → Strays form path expanded (c :: cs)
  /-- The first choice becomes a tree, and the others stray. -/
  | beside {path expanded between : List String} {c : Choice} {cs : List Choice} {t : OptionTree} :
      reopenChoice form path expanded c = .ok (t, between) → Strays form path between cs →
      Strays form path expanded (c :: cs)

theorem reopenChoices_of_strays {cs : List Choice} (h : Strays form path expanded cs) :
    reopenChoices form path expanded cs = .error (.fault .wrongKind) := by
  induction h with
  | here hon hkey =>
    rename_i path expanded c cs
    have hnone : form.next? c = none := by
      rw [Option.eq_none_iff_forall_ne_some]
      intro s hs
      rw [(Form.of_next? hs).2.2] at hkey
      cases hkey
    obtain ⟨hkey', -⟩ | ⟨-, he⟩ := reopenChoice_of_lost path expanded hon hnone
    · rw [hkey] at hkey'
      cases hkey'
    · rw [reopenChoices, he]
  | under hnext hpath hexpanded hstrays ih =>
    rename_i path expanded c cs s
    have hlead : ¬ s.leadChoices.isEmpty = true := by
      intro hempty
      rw [List.isEmpty_iff.1 hempty] at hstrays
      cases hstrays
    rw [reopenChoices, reopenChoice_of_next? hnext, if_neg hpath, if_neg hlead, if_neg hexpanded, ih]
  | beside ht _ ih =>
    rw [reopenChoices, ht]
    simp only [ih]

mutual

theorem error_of_reopenChoice (path expanded : List String) (c : Choice) {e : Error}
    (h : reopenChoice form path expanded c = .error e) :
    (∃ cause, e = .malformed cause) ∨
      e = .fault .wrongKind ∧ ∀ cs, Strays form path expanded (c :: cs) := by
  cases hnext : form.next? c with
  | none =>
    by_cases hon : c.LeadsOn
    · obtain ⟨-, cause, he⟩ | ⟨hkey, he⟩ := reopenChoice_of_lost path expanded hon hnext
      · rw [he] at h
        cases h
        exact .inl ⟨cause, rfl⟩
      · rw [he] at h
        cases h
        exact .inr ⟨rfl, fun cs => .here hon hkey⟩
    · rw [reopenChoice_of_stop hon] at h
      cases h
  | some s =>
    obtain ⟨-, hmem, -⟩ := Form.of_next? hnext
    rw [reopenChoice_of_next? hnext] at h
    split at h
    · cases h
      exact .inl ⟨_, rfl⟩
    · split at h
      · cases h
      · split at h
        · cases h
          exact .inl ⟨_, rfl⟩
        · rename_i hpath _ hexpanded
          split at h
          · rename_i e' he
            cases h
            obtain hcause | ⟨hfault, hstrays⟩ := error_of_reopenChoices _ _ _ he
            · exact .inl hcause
            · exact .inr ⟨hfault, fun cs => .under hnext hpath hexpanded hstrays⟩
          · cases h
termination_by ((offPath form path).length, 0)
decreasing_by
  exact Prod.Lex.left _ _ (length_offPath_lt (List.mem_map_of_mem hmem) ‹_›)

/-- Choices that cannot be followed are damage to the form, or stray. -/
theorem error_of_reopenChoices (path expanded : List String) (cs : List Choice) {e : Error}
    (h : reopenChoices form path expanded cs = .error e) :
    (∃ cause, e = .malformed cause) ∨ e = .fault .wrongKind ∧ Strays form path expanded cs := by
  match cs with
  | [] =>
    rw [reopenChoices] at h
    cases h
  | c :: cs =>
    rw [reopenChoices] at h
    split at h
    · rename_i e' he
      cases h
      obtain hcause | ⟨hfault, hstrays⟩ := error_of_reopenChoice path expanded c he
      · exact .inl hcause
      · exact .inr ⟨hfault, hstrays cs⟩
    · rename_i t between ht
      split at h
      · rename_i e' he
        cases h
        obtain hcause | ⟨hfault, hstrays⟩ := error_of_reopenChoices path between cs he
        · exact .inl hcause
        · exact .inr ⟨hfault, .beside ht hstrays⟩
      · cases h
termination_by ((offPath form path).length, cs.length + 1)
decreasing_by
  · apply Prod.Lex.right; omega
  · apply Prod.Lex.right; simp only [List.length_cons]; omega

end

/-- Where targets may name something, no choice strays. -/
theorem not_strays (hkeys : ∀ s ∈ form.steps, ∀ c ∈ s.leadChoices, c.target.isKey = true)
    {cs : List Choice} (hcs : ∀ c ∈ cs, c.target.isKey = true) : ¬ Strays form path expanded cs := by
  intro h
  induction h with
  | here _ hkey => exact absurd (hcs _ List.mem_cons_self) (Bool.eq_false_iff.1 hkey)
  | under hnext _ _ _ ih => exact ih (hkeys _ (Form.of_next? hnext).2.1)
  | beside _ _ ih => exact ih fun d hd => hcs d (List.mem_cons_of_mem _ hd)

/-- Where targets may name something, choices that cannot be followed are damage to the form. -/
theorem malformed_of_reopenChoices
    (hkeys : ∀ s ∈ form.steps, ∀ c ∈ s.leadChoices, c.target.isKey = true)
    (path expanded : List String) (cs : List Choice) (hcs : ∀ c ∈ cs, c.target.isKey = true)
    {e : Error} (h : reopenChoices form path expanded cs = .error e) : ∃ cause, e = .malformed cause :=
  (error_of_reopenChoices path expanded cs h).resolve_right fun hstrays =>
    not_strays hkeys hcs hstrays.2

/-! ### Whole forms -/

/-- A form without steps, or whose entry step offers nothing, is an empty draft, and one without an
entry step is malformed. -/
theorem Form.reopen_cases (form : Form) (rootId : Value) :
    form.reopen rootId = .ok none ∨ form.reopen rootId = .error (.malformed .noEntry) ∨
      ∃ entry, form.entry? = some entry ∧ entry.leadChoices ≠ [] := by
  by_cases hsteps : form.steps.isEmpty = true
  · exact .inl (by rw [reopen, if_pos hsteps])
  · cases hentry : form.entry? with
    | none => exact .inr (.inl (by rw [reopen, if_neg hsteps, hentry]))
    | some entry =>
      by_cases hlead : entry.leadChoices = []
      · exact .inl (by simp [reopen, hentry, hlead])
      · exact .inr (.inr ⟨entry, rfl, hlead⟩)

/-- A form whose entry step offers choices is reopened by following them. -/
theorem Form.reopen_of_entry {entry : Step} (hentry : form.entry? = some entry)
    (hlead : entry.leadChoices ≠ []) (rootId : Value) :
    form.reopen rootId =
      match reopenChoices form [entryStepId] [] entry.leadChoices with
      | .error e => .error e
      | .ok (children, _) =>
        let root := OptionTree.node
          { id := rootId, label := form.name.orElse defaultRootLabel, kind := .root } children
        match repeatedIds root.ids with
        | .error e => .error e
        | .ok [] => .ok (some root)
        | .ok ids => .error (.malformed (.repeatedIds ids)) := by
  have hsteps : form.steps.isEmpty = false :=
    List.isEmpty_eq_false_iff.2 (List.ne_nil_of_mem (List.mem_of_find?_eq_some hentry))
  have hempty : entry.leadChoices.isEmpty = false := List.isEmpty_eq_false_iff.2 hlead
  rw [reopen, if_neg (Bool.eq_false_iff.1 hsteps), hentry]
  exact if_neg (Bool.eq_false_iff.1 hempty)

/-- The tree of a form whose entry step offers choices, from the nodes of these choices. -/
def Form.rooted (form : Form) (rootId : Value) (children : List OptionTree) :
    Except Error (Option OptionTree) :=
  let root := OptionTree.node
    { id := rootId, label := form.name.orElse defaultRootLabel, kind := .root } children
  match repeatedIds root.ids with
  | .error e => .error e
  | .ok [] => .ok (some root)
  | .ok ids => .error (.malformed (.repeatedIds ids))

theorem Form.children_of_rooted {rootId : Value} {children : List OptionTree} {t : OptionTree}
    (h : form.rooted rootId children = .ok (some t)) : t.children = children := by
  simp only [rooted] at h
  split at h
  · cases h
  · cases h
    rfl
  · cases h

theorem Form.reopen_eq_rooted {entry : Step} (hentry : form.entry? = some entry)
    (hlead : entry.leadChoices ≠ []) (rootId : Value) :
    form.reopen rootId = reopenChoices form [entryStepId] [] entry.leadChoices >>=
      fun (children, _) => form.rooted rootId children := by
  rw [reopen_of_entry hentry hlead]
  cases reopenChoices form [entryStepId] [] entry.leadChoices <;> rfl

end BranchForm
