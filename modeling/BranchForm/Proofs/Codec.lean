import BranchForm.Form.Codec
import BranchForm.Proofs.Values

/-!
# Forms read back

A form is read back from its record. What is read is settled: where an author left an empty value,
the form that comes back has the empty text for an image and no value for a target. The ids of
fields and choices must be texts, since others are read as texts.

* `Choice.settle`, `Field.settle`, `Step.settle` and `Form.settle` are what comes back, part by
  part;
* `Field.Named` holds of the fields whose ids are texts, at every depth;
* `Choice.decode_encode`, `Question.decode_encode`, `Field.decode_encode`, `Step.decode_encode` and
  `FormSettings.decode_encode` read the parts back, `Form.decode_encode` the whole.
-/

namespace BranchForm

namespace Members

@[simp]
theorem get?_optional (k name : String) (v : Value) :
    get? (optional k v) name = if k = name ∧ v ≠ .null then some v else none := by
  by_cases hv : v = .null
  · simp [optional, hv, get?_nil]
  · simp [optional, hv, get?_cons, get?_nil]

end Members

/-- An absent member stands for the empty value. -/
@[simp]
theorem getD_optional (v : Value) : (if v = .null then none else some v).getD .null = v := by
  by_cases hv : v = .null <;> simp [hv]

namespace Choice

/-- A choice with an empty text for an empty image, and no value for an empty target. -/
def settle (c : Choice) : Choice :=
  { c with image := c.image.orElse (.text ""), nextField := c.nextField.orElse .null
           nextStep := c.nextStep.orElse .null }

theorem decode_encode {c : Choice} (hid : ∃ s, c.id = .text s) :
    decode c.encode = .ok c.settle := by
  obtain ⟨s, hid⟩ := hid
  simp [decode, encode, Value.require, Value.get, Value.getOrNull, Members.getD, hid, settle]

end Choice

@[simp]
theorem FieldKind.ofValue?_name (k : FieldKind) : ofValue? (.text k.name) = some k := by
  cases k <;> rfl

namespace Question

/-- A question with settled choices. -/
def settle (q : Question) : Question :=
  { q with choices := q.choices.map Choice.settle }

/-- The members of a field in front of its sub-fields are read back, whatever stands behind them. -/
theorem decode_encode {q : Question} (hid : ∃ s, q.id = .text s)
    (hchoices : ∀ c ∈ q.choices, ∃ s, c.id = .text s) {ms : Members}
    (hoptions : Members.get? ms "options" = none)
    (himage : (Members.get? ms "imageUrl").getD .null = q.image) :
    decode (.record (q.encode ++ ms)) = .ok q.settle := by
  obtain ⟨s, hid⟩ := hid
  have hall : (q.choices.map Choice.encode).mapM Choice.decode =
      .ok (q.choices.map Choice.settle) :=
    mapM_map_ok fun c hc => Choice.decode_encode (hchoices c hc)
  have hrequired : (Value.bool q.required).truthy = q.required := rfl
  have hnone : Value.null.elementsOrNone = .ok [] := rfl
  by_cases hq : q.choices ≠ [] ∨ q.kind.isChoice = true
  · simp [decode, encode, Value.require, Value.get, Value.getOrNull, Members.getD, hid, hq,
      hrequired, hall, himage, settle]
  · obtain ⟨hempty, hkind⟩ := not_or.1 hq
    rw [Ne, Decidable.not_not] at hempty
    simp [decode, encode, Value.require, Value.get, Value.getOrNull, Members.getD, hid, hempty,
      hkind, hrequired, hnone, hoptions, himage, settle]

end Question

namespace Field

mutual

/-- A field with settled choices, and so for the fields inside it. -/
def settle : Field → Field
  | .mk q fs => .mk q.settle (settleAll fs)

/-- Several settled fields. -/
def settleAll : List Field → List Field
  | [] => []
  | f :: fs => settle f :: settleAll fs

end

mutual

/-- The ids of a field and its choices, and of all fields inside it, are texts. -/
def Named : Field → Prop
  | .mk q fs => (∃ s, q.id = .text s) ∧ (∀ c ∈ q.choices, ∃ s, c.id = .text s) ∧ NamedAll fs

/-- The ids of several fields are texts. -/
def NamedAll : List Field → Prop
  | [] => True
  | f :: fs => Named f ∧ NamedAll fs

end

theorem decodeSubFields_append {ms ns : Members} (h : ∀ m ∈ ms, m.1 ≠ .text "subFields") :
    decodeSubFields (ms ++ ns) = decodeSubFields ns := by
  induction ms with
  | nil => rfl
  | cons m ms ih =>
    obtain ⟨name, v⟩ := m
    rw [List.cons_append, decodeSubFields, if_neg (h (name, v) List.mem_cons_self),
      ih fun n hn => h n (List.mem_cons_of_mem _ hn)]

theorem encode_names {q : Question} : ∀ m ∈ q.encode, m.1 ≠ .text "subFields" := by
  unfold Question.encode
  split <;> simp

/-- The member of the sub-fields, left out when there are none. -/
def subMembers (fs : List Field) : Members :=
  if fs = [] then [] else [("subFields", .list (encodeAll fs))]

theorem encode_mk (q : Question) (fs : List Field) :
    encode (.mk q fs) = .record (q.encode ++ (subMembers fs ++ optional "imageUrl" q.image)) := by
  cases fs with
  | nil => simp [encode, encodeAll, subMembers]
  | cons f fs => simp [encode, encodeAll, subMembers]

mutual

/-- A field is read back from its record. -/
theorem decode_encode (f : Field) (h : f.Named) : decode f.encode = .ok f.settle := by
  match f with
  | .mk q fs =>
    obtain ⟨hid, hchoices, hfs⟩ := h
    have hsub : decodeSubFields (subMembers fs ++ optional "imageUrl" q.image) =
        .ok (settleAll fs) := by
      by_cases hnil : fs = []
      · have himage : ∀ m ∈ optional "imageUrl" q.image, m.1 ≠ .text "subFields" := by
          unfold optional
          split <;> simp
        have hnone : decodeSubFields (optional "imageUrl" q.image ++ []) = decodeSubFields [] :=
          decodeSubFields_append himage
        simpa [hnil, subMembers, decodeSubFields, settleAll] using hnone
      · simp only [subMembers, hnil, ↓reduceIte, List.cons_append, decodeSubFields, decodeElements]
        exact decodeAll_encodeAll fs hfs
    have hoptions :
        Members.get? (subMembers fs ++ optional "imageUrl" q.image) "options" = none := by
      by_cases hnil : fs = [] <;> simp [subMembers, hnil]
    have himage : (Members.get? (subMembers fs ++ optional "imageUrl" q.image) "imageUrl").getD
        .null = q.image := by
      by_cases hnil : fs = [] <;> simp [subMembers, hnil]
    rw [encode_mk, decode, Question.decode_encode hid hchoices hoptions himage, ok_bind,
      decodeSubFields_append encode_names, hsub]
    rfl

theorem decodeAll_encodeAll (fs : List Field) (h : NamedAll fs) :
    decodeAll (encodeAll fs) = .ok (settleAll fs) := by
  match fs with
  | [] => rfl
  | f :: fs =>
    rw [encodeAll, decodeAll, decode_encode f h.1, ok_bind, decodeAll_encodeAll fs h.2]
    rfl

end

theorem encodeAll_eq_map (fs : List Field) : encodeAll fs = fs.map encode := by
  induction fs with
  | nil => rfl
  | cons f fs ih => rw [encodeAll, ih, List.map_cons]

theorem settleAll_eq_map (fs : List Field) : settleAll fs = fs.map settle := by
  induction fs with
  | nil => rfl
  | cons f fs ih => rw [settleAll, ih, List.map_cons]

theorem namedAll_iff {fs : List Field} : NamedAll fs ↔ ∀ f ∈ fs, f.Named := by
  induction fs with
  | nil => simp [NamedAll]
  | cons f fs ih => simp [NamedAll, ih]

end Field

theorem Condition.decode_encode (c : Condition) : decode c.encode = .ok c := by
  simp [decode, encode, Value.require, Value.get, Members.getD]

namespace Step

/-- A step with settled fields. -/
def settle (s : Step) : Step := { s with fields := s.fields.map Field.settle }

/-- A step is read back from its record. -/
theorem decode_encode {s : Step} (h : ∀ f ∈ s.fields, f.Named) :
    decode s.encode = .ok s.settle := by
  have hfields : Field.decodeElements (.list (s.fields.map Field.encode)) =
      .ok (s.fields.map Field.settle) := by
    rw [← Field.encodeAll_eq_map, ← Field.settleAll_eq_map]
    exact Field.decodeAll_encodeAll s.fields (Field.namedAll_iff.2 h)
  have hconditions :
      (s.conditions.map Condition.encode).mapM Condition.decode = .ok s.conditions := by
    have hall := mapM_map_ok fun c (_ : c ∈ s.conditions) => Condition.decode_encode c
    rwa [List.map_id'] at hall
  have hnone : Value.null.elementsOrNone = .ok [] := rfl
  have htrue : (Value.bool true).truthy = true := rfl
  have hfalse : (Value.bool false).truthy = false := rfl
  by_cases hlast : s.isLast = true <;> by_cases hnil : s.conditions = [] <;>
    simp [decode, encode, Value.require, Value.get, Value.getOrNull, Members.getD, hlast, hnil,
      hfields, hconditions, hnone, htrue, hfalse, settle]

end Step

namespace FormSettings

theorem decode_encode (s : FormSettings) : decode s.encode = .ok s := by
  simp [decode, encode, Value.orElse, Value.truthy, Value.get, Value.getOrNull, Members.getD]

end FormSettings

namespace Form

/-- A form with settled steps. -/
def settle (form : Form) : Form := { form with steps := form.steps.map Step.settle }

/-- A form is read back from its record. -/
theorem decode_encode {form : Form} (h : ∀ s ∈ form.steps, ∀ f ∈ s.fields, f.Named) :
    decode form.encode = .ok form.settle := by
  have hsteps : (form.steps.map Step.encode).mapM Step.decode = .ok (form.steps.map Step.settle) :=
    mapM_map_ok fun s hs => Step.decode_encode (h s hs)
  simp [decode, encode, members, Members.getOrNull, Members.getD, hsteps,
    FormSettings.decode_encode, settle]

end Form

end BranchForm
