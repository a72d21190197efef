import BranchForm.Proofs.Values

/-!
# The first error decides

What reads or checks data part by part stops at the first thing that is wrong. If the things that are
wrong with a part can be listed without running anything, the first of the list is the error that
the run ends with, and an empty list means a result.

* `StopsAt` says this of a computation and a list of errors;
* `StopsAt.bind`, `StopsAt.map` and `stopsAt_mapM` put such statements together in the order of the
  computation;
* `StopsAt.error_iff` and `StopsAt.exists_ok_iff` read the outcome off the list.
-/

namespace BranchForm

/-- A computation ends with the first of some errors, and has a result if there is none. -/
def StopsAt {ε α : Type} (r : Except ε α) : List ε → Prop
  | [] => ∃ a, r = .ok a
  | e :: _ => r = .error e

variable {ε α β : Type} {r : Except ε α} {es fs : List ε}

theorem stopsAt_ok (a : α) : StopsAt (.ok a : Except ε α) [] := ⟨a, rfl⟩

theorem stopsAt_error (e : ε) (es : List ε) : StopsAt (.error e : Except ε α) (e :: es) := rfl

theorem StopsAt.error_iff (h : StopsAt r es) {e : ε} : r = .error e ↔ es.head? = some e := by
  cases es with
  | nil =>
    obtain ⟨a, rfl⟩ := h
    exact ⟨nofun, nofun⟩
  | cons f es =>
    obtain rfl : r = .error f := h
    rw [List.head?_cons, Except.error.injEq, Option.some.injEq]

theorem StopsAt.exists_ok_iff (h : StopsAt r es) : (∃ a, r = .ok a) ↔ es = [] := by
  cases es with
  | nil => exact iff_of_true h rfl
  | cons f es =>
    obtain rfl : r = .error f := h
    exact ⟨nofun, nofun⟩

/-- A second part is only run once nothing is wrong with the first. -/
theorem StopsAt.bind (h : StopsAt r es) {f : α → Except ε β}
    (hf : ∀ a, r = .ok a → StopsAt (f a) fs) : StopsAt (r >>= f) (es ++ fs) := by
  cases es with
  | nil =>
    obtain ⟨a, rfl⟩ := h
    exact hf a rfl
  | cons e es =>
    obtain rfl : r = .error e := h
    exact stopsAt_error e _

/-- A first part with which nothing is wrong adds no error. -/
theorem stopsAt_bind_of_ok (h : ∃ a, r = .ok a) {f : α → Except ε β}
    (hf : ∀ a, r = .ok a → StopsAt (f a) es) : StopsAt (r >>= f) es := by
  have hnone : StopsAt r [] := h
  exact hnone.bind hf

/-- What is put together from a result adds no error. -/
theorem StopsAt.map (h : StopsAt r es) (f : α → β) : StopsAt (r >>= fun a => pure (f a)) es := by
  rw [← List.append_nil es]
  exact h.bind fun a _ => stopsAt_ok (f a)

/-- Several things are gone through in order. -/
theorem stopsAt_mapM {f : α → Except ε β} {g : α → List ε} {as : List α}
    (h : ∀ a ∈ as, StopsAt (f a) (g a)) : StopsAt (as.mapM f) (as.flatMap g) := by
  induction as with
  | nil => exact stopsAt_ok []
  | cons a as ih =>
    rw [List.mapM_cons, List.flatMap_cons]
    refine (h a List.mem_cons_self).bind fun b _ => ?_
    exact (ih fun c hc => h c (List.mem_cons_of_mem _ hc)).map _

end BranchForm
