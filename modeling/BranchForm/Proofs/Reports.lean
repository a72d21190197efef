import BranchForm.Check.Structure
import BranchForm.Proofs.Values

/-!
# Reports put together

A check of several things puts the reports on the single ones behind each other.

* `Report.concat_ok`, `concatReports_ok` and `concatWithSeen_ok` : nothing is reported on several
  things if nothing is on the single ones;
* `Report.Decides` says what a report being valid comes to, with a lemma for each way to put one
  together; `Report.valid_concat_errors` : reports of errors are valid only if there are none;
* `Judges` says so of a check that may fail, and when it does not: `judges_concatReports` and
  `judges_concatWithSeen` are those of several things;
* `Report.warnings_concat`, `warning_of_concatReports` and `warning_of_concatWithSeen` : a flaw that
  is reported on several things is reported on one of them.
-/

namespace BranchForm

namespace Report

theorem concat_ok {rs : List Report} (h : ∀ r ∈ rs, r = .ok) : Report.concat rs = .ok := by
  rw [List.eq_replicate_of_mem h, Report.concat]
  generalize rs.length = n
  induction n with
  | zero => rfl
  | succ n ih => rw [List.replicate_succ, List.foldl_cons]; exact ih

/-- A report decides a property: it is valid exactly if the property holds, and exactly if it lists
no errors. -/
structure Decides (r : Report) (P : Prop) : Prop where
  /-- What makes a form invalid is listed. -/
  errors : r.valid = true ↔ r.errors = []
  /-- A valid report says that the property holds. -/
  holds : r.valid = true ↔ P

section Decides

variable {r s : Report} {P Q : Prop}

theorem decides_ok : Report.ok.Decides True := ⟨by simp [ok], by simp [ok]⟩

theorem decides_flaw (text : Value) : (flaw text).Decides True := ⟨by simp [flaw], by simp [flaw]⟩

theorem decides_error (text : Value) : (error text).Decides False :=
  ⟨by simp [error], by simp [error]⟩

theorem Decides.congr (h : r.Decides P) (hiff : P ↔ Q) : r.Decides Q :=
  ⟨h.errors, h.holds.trans hiff⟩

theorem Decides.ite {c : Prop} [Decidable c] (hr : c → r.Decides P) (hs : ¬ c → s.Decides P) :
    (if c then r else s).Decides P := by
  split
  · rename_i h
    exact hr h
  · rename_i h
    exact hs h

/-- An error on a condition decides that it does not hold. -/
theorem decides_error_if (c : Prop) [Decidable c] (text : Value) :
    (if c then error text else .ok).Decides (¬ c) :=
  .ite (fun h => (decides_error text).congr (iff_of_false id (not_not_intro h)))
    (fun h => decides_ok.congr (iff_of_true trivial h))

/-- A flaw decides nothing. -/
theorem decides_flaw_if (c : Prop) [Decidable c] (text : Value) :
    (if c then flaw text else .ok).Decides True :=
  .ite (fun _ => decides_flaw text) (fun _ => decides_ok)

/-- A report and another one behind it decide both properties. -/
theorem Decides.merge (hr : r.Decides P) (hs : s.Decides Q) : (r.merge s).Decides (P ∧ Q) where
  errors := by simp [Report.merge, hr.errors, hs.errors]
  holds := by simp [Report.merge, hr.holds, hs.holds]

theorem Decides.foldl_merge {α : Type} {report : α → Report} {R : α → Prop} {as : List α}
    (hr : r.Decides P) (h : ∀ a ∈ as, (report a).Decides (R a)) :
    ((as.map report).foldl Report.merge r).Decides (P ∧ ∀ a ∈ as, R a) := by
  induction as generalizing r P with
  | nil => exact hr.congr (by simp)
  | cons a as ih =>
    obtain ⟨hfirst, hrest⟩ := List.forall_mem_cons.1 h
    rw [List.map_cons, List.foldl_cons]
    exact (ih (hr.merge hfirst) hrest).congr (by rw [List.forall_mem_cons, and_assoc])

/-- Reports one behind the other decide all properties. -/
theorem decides_concat {α : Type} {report : α → Report} {R : α → Prop} {as : List α}
    (h : ∀ a ∈ as, (report a).Decides (R a)) :
    (Report.concat (as.map report)).Decides (∀ a ∈ as, R a) :=
  (decides_ok.foldl_merge h).congr (by rw [true_and])

/-- Reports of errors are valid together only if there are none. -/
theorem valid_concat_errors {α : Type} {text : α → Value} {as : List α} :
    (Report.concat (as.map fun a => .error (text a))).valid = true ↔ as = [] :=
  (decides_concat fun a _ => decides_error (text a)).holds.trans List.eq_nil_iff_forall_not_mem.symm

end Decides

@[simp]
theorem warnings_merge (r s : Report) : (r.merge s).warnings = r.warnings ++ s.warnings := rfl

theorem warnings_foldl_merge (r : Report) (rs : List Report) :
    (rs.foldl Report.merge r).warnings = r.warnings ++ rs.flatMap Report.warnings := by
  induction rs generalizing r with
  | nil => simp
  | cons s rs ih => rw [List.foldl_cons, ih, warnings_merge, List.flatMap_cons, List.append_assoc]

theorem warnings_concat (rs : List Report) :
    (Report.concat rs).warnings = rs.flatMap Report.warnings :=
  warnings_foldl_merge ok rs

end Report

/-! ### Checks that may fail -/

/-- A check judges a property: it fails unless a condition holds, and what it reports decides the
property. -/
structure Judges (check : Except Error Report) (K P : Prop) : Prop where
  /-- There is a report exactly on the condition. -/
  ends : (∃ r, check = .ok r) ↔ K
  /-- Every report decides the property. -/
  decides : ∀ r, check = .ok r → r.Decides P

section Judges

variable {check check' : Except Error Report} {K L P Q : Prop}

theorem judges_ok {r : Report} (h : r.Decides P) : Judges (.ok r) True P :=
  ⟨by simp, fun _ hr => Except.ok.inj hr ▸ h⟩

theorem judges_error (e : Error) : Judges (.error e) False P := ⟨by simp, nofun⟩

theorem Judges.congr (h : Judges check K P) (hK : K ↔ L) (hP : P ↔ Q) : Judges check L Q :=
  ⟨h.ends.trans hK, fun r hr => (h.decides r hr).congr hP⟩

/-- What is made of a report judges what it decides. -/
theorem Judges.map {f : Report → Report} (h : Judges check K P)
    (hf : ∀ r, r.Decides P → (f r).Decides Q) : Judges (do let r ← check; pure (f r)) K Q := by
  constructor
  · rw [← h.ends]
    constructor
    · rintro ⟨r, hr⟩
      obtain ⟨q, hq, -⟩ := bind_eq_ok_iff.1 hr
      exact ⟨q, hq⟩
    · rintro ⟨q, hq⟩
      exact ⟨f q, bind_eq_ok_iff.2 ⟨q, hq, rfl⟩⟩
  · intro r hr
    obtain ⟨q, hq, hout⟩ := bind_eq_ok_iff.1 hr
    cases hout
    exact hf q (h.decides q hq)

/-- A check and another one behind it judge both properties. -/
theorem Judges.merge (h : Judges check K P) (h' : Judges check' L Q) :
    Judges (do let r ← check; let s ← check'; pure (r.merge s)) (K ∧ L) (P ∧ Q) := by
  constructor
  · rw [← h.ends, ← h'.ends]
    constructor
    · rintro ⟨t, ht⟩
      obtain ⟨r, hr, ht⟩ := bind_eq_ok_iff.1 ht
      obtain ⟨s, hs, -⟩ := bind_eq_ok_iff.1 ht
      exact ⟨⟨r, hr⟩, s, hs⟩
    · rintro ⟨⟨r, hr⟩, s, hs⟩
      exact ⟨r.merge s, bind_eq_ok_iff.2 ⟨r, hr, bind_eq_ok_iff.2 ⟨s, hs, rfl⟩⟩⟩
  · intro t ht
    obtain ⟨r, hr, ht⟩ := bind_eq_ok_iff.1 ht
    obtain ⟨s, hs, hout⟩ := bind_eq_ok_iff.1 ht
    cases hout
    exact (h.decides r hr).merge (h'.decides s hs)

end Judges

/-! ### Checks of several things -/

variable {α : Type} {seen as : List α} {r : Report}

section Plain

variable {report : α → Except Error Report}

theorem concatReports_ok (h : ∀ a ∈ as, report a = .ok .ok) :
    concatReports report as = .ok .ok := by
  induction as with
  | nil => rfl
  | cons a as ih =>
    rw [concatReports, h a List.mem_cons_self, ih fun b hb => h b (List.mem_cons_of_mem _ hb)]
    rfl

theorem judges_concatReports {K P : α → Prop} (h : ∀ a ∈ as, Judges (report a) (K a) (P a)) :
    Judges (concatReports report as) (∀ a ∈ as, K a) (∀ a ∈ as, P a) := by
  induction as with
  | nil => exact (judges_ok Report.decides_ok).congr (by simp) (by simp)
  | cons a as ih =>
    obtain ⟨hfirst, hrest⟩ := List.forall_mem_cons.1 h
    exact (hfirst.merge (ih hrest)).congr List.forall_mem_cons.symm List.forall_mem_cons.symm

/-- A flaw reported on several things is reported on one of them. -/
theorem warning_of_concatReports {w : Value} (h : concatReports report as = .ok r)
    (hw : w ∈ r.warnings) : ∃ a ∈ as, ∃ q, report a = .ok q ∧ w ∈ q.warnings := by
  induction as generalizing r with
  | nil =>
    cases h
    cases hw
  | cons a as ih =>
    simp only [concatReports, bind_eq_ok_iff] at h
    obtain ⟨first, hfirst, rest, hrest, hout⟩ := h
    cases hout
    rw [Report.warnings_merge, List.mem_append] at hw
    rcases hw with hw | hw
    · exact ⟨a, List.mem_cons_self, first, hfirst, hw⟩
    · obtain ⟨b, hb, hreport⟩ := ih hrest hw
      exact ⟨b, List.mem_cons_of_mem _ hb, hreport⟩

end Plain

section Seen

variable {report : List α → α → Except Error Report}

theorem concatWithSeen_ok
    (h : ∀ before a after, as = before ++ a :: after → report (seen ++ before) a = .ok .ok) :
    concatWithSeen report seen as = .ok .ok := by
  induction as generalizing seen with
  | nil => rfl
  | cons a as ih =>
    have hfirst : report seen a = .ok .ok := by simpa using h [] a as rfl
    have hrest : concatWithSeen report (seen ++ [a]) as = .ok .ok := by
      refine ih fun before b after heq => ?_
      simpa using h (a :: before) b after (by rw [heq, List.cons_append])
    rw [concatWithSeen, hfirst, hrest]
    rfl

/-- A check of each thing against those before it judges them pair by pair. -/
theorem judges_concatWithSeen {K P : α → Prop} {R : α → α → Prop}
    (h : ∀ before, ∀ a ∈ as, Judges (report before a) (K a) ((∀ b ∈ before, R b a) ∧ P a)) :
    Judges (concatWithSeen report seen as) (∀ a ∈ as, K a)
      ((∀ b ∈ seen, ∀ a ∈ as, R b a) ∧ as.Pairwise R ∧ ∀ a ∈ as, P a) := by
  induction as generalizing seen with
  | nil => exact (judges_ok Report.decides_ok).congr (by simp) (by simp)
  | cons a as ih =>
    have hfirst := h seen a List.mem_cons_self
    have hrest (before : List α) (b : α) (hb : b ∈ as) := h before b (List.mem_cons_of_mem a hb)
    refine (hfirst.merge (ih hrest)).congr List.forall_mem_cons.symm ?_
    simp only [List.forall_mem_cons, List.forall_mem_append, List.pairwise_cons, List.not_mem_nil]
    grind

theorem warning_of_concatWithSeen {w : Value} (h : concatWithSeen report seen as = .ok r)
    (hw : w ∈ r.warnings) : ∃ before, ∃ a ∈ as, ∃ q, report before a = .ok q ∧ w ∈ q.warnings := by
  induction as generalizing seen r with
  | nil =>
    cases h
    cases hw
  | cons a as ih =>
    simp only [concatWithSeen, bind_eq_ok_iff] at h
    obtain ⟨first, hfirst, rest, hrest, hout⟩ := h
    cases hout
    rw [Report.warnings_merge, List.mem_append] at hw
    rcases hw with hw | hw
    · exact ⟨seen, a, List.mem_cons_self, first, hfirst, hw⟩
    · obtain ⟨before, b, hb, hreport⟩ := ih hrest hw
      exact ⟨before, b, List.mem_cons_of_mem _ hb, hreport⟩

end Seen

end BranchForm
