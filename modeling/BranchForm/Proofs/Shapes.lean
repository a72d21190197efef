import BranchForm.Check.Shape
import BranchForm.Proofs.Codec
import BranchForm.Proofs.JsonText

/-!
# Values of a shape

Whether something is amiss with a stored value can be told part by part.

* `Shape.Fits` holds of the values with which nothing is amiss: `Shape.fits_record` and
  `Shape.fits_list` come down to their parts, on whatever way these are reached;
* `Shape.Stores` holds of the values that JSON text keeps as well: `Shape.stores_list` and
  `Shape.stores_record` build them up;
* `Form.named_of_fits` : where a form fits, its ids are texts at every depth, so it can be read
  back.
-/

namespace BranchForm

/-! ### Values that fit -/

/-- Nothing is amiss with a value in a place. -/
def Shape.Fits (shape : Shape) (v : Value) : Prop := violations shape [] v = []

instance (shape : Shape) (v : Value) : Decidable (shape.Fits v) :=
  inferInstanceAs (Decidable (violations shape [] v = []))

/-- A value is of a kind that may stand in a place, and has the members that a record there must
have. -/
def Shape.Admits (shape : Shape) (v : Value) : Prop :=
  (shape.kinds.any fun k => k.has v) = true ∧
    ∀ ms, v = .record ms → ∀ name ∈ shape.required, Members.has ms (.text name) = true

theorem localViolations_eq_nil_iff {shape : Shape} {path : List Place} {v : Value} :
    localViolations shape path v = [] ↔ shape.Admits v := by
  unfold localViolations Shape.Admits
  cases v <;> simp

mutual

/-- Whether something is amiss with a value does not depend on the way to it. -/
theorem violations_move {shape : Shape} {path : List Place} (path' : List Place) (v : Value)
    (h : violations shape path v = []) : violations shape path' v = [] := by
  match v with
  | .record ms =>
    rw [violations, List.append_eq_nil_iff, localViolations_eq_nil_iff] at h ⊢
    exact ⟨h.1, memberViolations_move path' ms h.2⟩
  | .list vs =>
    rw [violations, List.append_eq_nil_iff, localViolations_eq_nil_iff] at h ⊢
    refine ⟨h.1, ?_⟩
    cases hitem : shape.item? with
    | none => rfl
    | some item =>
      rw [hitem] at h
      exact itemViolations_move path' 0 vs h.2
  | .null | .bool _ | .int _ | .float _ | .text _ | .moment _ =>
    simp only [violations, localViolations_eq_nil_iff] at h ⊢
    exact h

theorem memberViolations_move {shape : Shape} {path : List Place} (path' : List Place)
    (ms : List (Value × Value)) (h : memberViolations shape path ms = []) :
    memberViolations shape path' ms = [] := by
  match ms with
  | [] => rfl
  | (name, v) :: ms =>
    rw [memberViolations, List.append_eq_nil_iff] at h ⊢
    refine ⟨?_, memberViolations_move path' ms h.2⟩
    cases hinner : shape.memberOf? name with
    | none => rfl
    | some found =>
      rw [hinner] at h
      exact violations_move _ v h.1

theorem itemViolations_move {item : Shape} {path : List Place} {index : Nat} (path' : List Place)
    (index' : Nat) (vs : List Value) (h : itemViolations item path index vs = []) :
    itemViolations item path' index' vs = [] := by
  match vs with
  | [] => rfl
  | v :: vs =>
    rw [itemViolations, List.append_eq_nil_iff] at h ⊢
    exact ⟨violations_move _ v h.1, itemViolations_move path' (index' + 1) vs h.2⟩

end

theorem violations_eq_nil_iff {shape : Shape} {path : List Place} {v : Value} :
    violations shape path v = [] ↔ shape.Fits v :=
  ⟨violations_move [] v, violations_move path v⟩

theorem memberViolations_cons_eq_nil_iff {shape : Shape} {path : List Place} {k w : Value}
    {ms : Members} : memberViolations shape path ((k, w) :: ms) = [] ↔
      (∀ name, k = .text name → ∀ inner, shape.member? name = some inner → inner.Fits w) ∧
        memberViolations shape path ms = [] := by
  rw [memberViolations, List.append_eq_nil_iff]
  refine and_congr ?_ Iff.rfl
  cases k with
  | text name =>
    cases hinner : shape.member? name with
    | none => simp [Shape.memberOf?, hinner]
    | some inner => simp [Shape.memberOf?, hinner, violations_eq_nil_iff]
  | _ => simp [Shape.memberOf?]

theorem memberViolations_eq_nil_iff {shape : Shape} {path : List Place} {ms : Members} :
    memberViolations shape path ms = [] ↔
      ∀ name v, (.text name, v) ∈ ms → ∀ inner, shape.member? name = some inner → inner.Fits v := by
  induction ms with
  | nil => simp [memberViolations]
  | cons m ms ih =>
    obtain ⟨k, w⟩ := m
    rw [memberViolations_cons_eq_nil_iff, ih]
    constructor
    · rintro ⟨hw, hms⟩ name v hmem inner hinner
      rcases List.mem_cons.1 hmem with heq | hmem
      · cases heq
        exact hw name rfl inner hinner
      · exact hms name v hmem inner hinner
    · intro h
      exact ⟨fun name hk => h name w (hk ▸ List.mem_cons_self),
        fun name v hmem => h name v (List.mem_cons_of_mem _ hmem)⟩

theorem itemViolations_eq_nil_iff {item : Shape} {path : List Place} {index : Nat}
    {vs : List Value} : itemViolations item path index vs = [] ↔ ∀ v ∈ vs, item.Fits v := by
  induction vs generalizing index with
  | nil => simp [itemViolations]
  | cons v vs ih => simp [itemViolations, violations_eq_nil_iff, ih]

/-- A record fits if it is admitted and its members fit. -/
theorem Shape.fits_record {shape : Shape} {ms : Members} :
    shape.Fits (.record ms) ↔ shape.Admits (.record ms) ∧
      ∀ name v, (.text name, v) ∈ ms → ∀ inner, shape.member? name = some inner → inner.Fits v := by
  rw [Fits, violations, List.append_eq_nil_iff, localViolations_eq_nil_iff,
    memberViolations_eq_nil_iff]

/-- A list fits if it is admitted and its elements fit. -/
theorem Shape.fits_list {shape : Shape} {vs : List Value} :
    shape.Fits (.list vs) ↔ shape.Admits (.list vs) ∧
      ∀ item, shape.item? = some item → ∀ v ∈ vs, item.Fits v := by
  rw [Fits, violations, List.append_eq_nil_iff, localViolations_eq_nil_iff]
  cases hitem : shape.item? with
  | none => simp
  | some item => simp [itemViolations_eq_nil_iff]

/-! ### Records that can be stored -/

/-- What can be stored in a place: it fits, and JSON text keeps it. -/
structure Shape.Stores (shape : Shape) (v : Value) : Prop where
  /-- Nothing is amiss. -/
  fits : shape.Fits v
  /-- It is made of what JSON text keeps. -/
  plain : Json.Plain v

namespace Shape

variable {shape : Shape} {v : Value}

theorem stores_text {s : String} : text.Stores (.text s) := ⟨rfl, trivial⟩

theorem stores_optionalText {s : String} : optionalText.Stores (.text s) := ⟨rfl, trivial⟩

theorem stores_mark {b : Bool} : mark.Stores (.bool b) := ⟨rfl, trivial⟩

/-- A list can be stored if its elements can. -/
theorem stores_list {item : Shape} {vs : List Value} (hkind : ShapeKind.array ∈ shape.kinds)
    (hitem : shape.item? = some item) (h : ∀ v ∈ vs, item.Stores v) : shape.Stores (.list vs) where
  fits := by
    refine fits_list.2 ⟨⟨List.any_eq_true.2 ⟨_, hkind, rfl⟩, nofun⟩, fun other hother v hv => ?_⟩
    cases hitem.symm.trans hother
    exact (h v hv).fits
  plain := Json.plainItems_iff.2 fun v hv => (h v hv).plain

/-- A member under a text that can be stored there. -/
def StoresMember (shape : Shape) (m : Value × Value) : Prop :=
  ∃ name inner, m.1 = .text name ∧ shape.member? name = some inner ∧ inner.Stores m.2

/-- A record can be stored if it has the members it must have, and all its members can. -/
theorem stores_record {ms : Members} (hkind : ShapeKind.object ∈ shape.kinds)
    (hrequired : ∀ name ∈ shape.required, Members.has ms (.text name) = true)
    (hd : (Members.names ms).Nodup) (h : ∀ m ∈ ms, shape.StoresMember m) :
    shape.Stores (.record ms) where
  fits := by
    refine fits_record.2 ⟨⟨List.any_eq_true.2 ⟨_, hkind, rfl⟩, ?_⟩, ?_⟩
    · intro ns hns
      cases hns
      exact hrequired
    · intro name v hmem inner hinner
      obtain ⟨other, found, hname, hfound, hstores⟩ := h _ hmem
      cases hname
      cases hfound.symm.trans hinner
      exact hstores.fits
  plain := by
    refine ⟨hd, Json.plainMembers_iff.2 fun m hm => ?_⟩
    obtain ⟨name, inner, hname, -, hstores⟩ := h m hm
    exact ⟨⟨name, hname⟩, hstores.plain⟩

end Shape

/-! ### The ids of what can be stored -/

/-- Where texts stand, there are texts. -/
theorem Shape.exists_text_of_fits {v : Value} (h : Shape.text.Fits v) : ∃ s, v = .text s := by
  cases v with
  | text s => exact ⟨s, rfl⟩
  | _ => exact absurd h (by simp [Fits, violations, localViolations, kinds, ShapeKind.has])

theorem Choice.named_of_fits {c : Choice} (h : Shape.choice.Fits c.encode) : ∃ s, c.id = .text s :=
  Shape.exists_text_of_fits ((Shape.fits_record.1 h).2 "optionId" c.id List.mem_cons_self _ rfl)

theorem Question.named_of_fits {q : Question} {ms : Members}
    (h : Shape.field.Fits (.record (q.encode ++ ms))) :
    (∃ s, q.id = .text s) ∧ ∀ c ∈ q.choices, ∃ s, c.id = .text s := by
  have hmembers := (Shape.fits_record.1 h).2
  refine ⟨Shape.exists_text_of_fits (hmembers "fieldId" q.id List.mem_cons_self _ rfl), ?_⟩
  intro c hc
  have hmem :
      (Value.text "options", Value.list (q.choices.map Choice.encode)) ∈ q.encode ++ ms := by
    simp [Question.encode, List.ne_nil_of_mem hc]
  have hlist := Shape.fits_list.1 (hmembers "options" _ hmem _ rfl)
  exact Choice.named_of_fits (hlist.2 _ rfl _ (List.mem_map_of_mem hc))

mutual

/-- The ids of a field that can be stored are texts. -/
theorem Field.named_of_fits (f : Field) (h : Shape.field.Fits f.encode) : f.Named := by
  match f with
  | .mk q fs =>
    rw [encode_mk] at h
    obtain ⟨hid, hchoices⟩ := Question.named_of_fits h
    refine ⟨hid, hchoices, namedAll_of_fits fs fun v hv => ?_⟩
    have hmem : (Value.text "subFields", Value.list (encodeAll fs)) ∈
        q.encode ++ (subMembers fs ++ optional "imageUrl" q.image) := by
      have hne : fs ≠ [] := by
        rintro rfl
        exact absurd hv List.not_mem_nil
      simp [subMembers, hne]
    have hlist := Shape.fits_list.1 ((Shape.fits_record.1 h).2 "subFields" _ hmem _ rfl)
    exact hlist.2 _ rfl v hv

theorem Field.namedAll_of_fits (fs : List Field) (h : ∀ v ∈ encodeAll fs, Shape.field.Fits v) :
    NamedAll fs := by
  match fs with
  | [] => trivial
  | f :: fs =>
    exact ⟨named_of_fits f (h _ List.mem_cons_self),
      namedAll_of_fits fs fun v hv => h v (List.mem_cons_of_mem _ hv)⟩

end

theorem Form.named_of_fits {form : Form} (h : Shape.form.Fits form.encode) :
    ∀ s ∈ form.steps, ∀ f ∈ s.fields, f.Named := by
  intro s hs f hf
  have hsteps := Shape.fits_list.1 ((Shape.fits_record.1 h).2 "steps"
    (.list (form.steps.map Step.encode)) (by simp [members]) _ rfl)
  have hfields := Shape.fits_list.1 ((Shape.fits_record.1 (hsteps.2 _ rfl _
    (List.mem_map_of_mem hs))).2 "fields" (.list (s.fields.map Field.encode)) (by simp) _ rfl)
  exact Field.named_of_fits f (hfields.2 _ rfl _ (List.mem_map_of_mem hf))

end BranchForm
