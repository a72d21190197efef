import BranchForm.Proofs.Reports
import BranchForm.Proofs.RoundTrip
import BranchForm.Proofs.Shapes
import BranchForm.Store.Envelope

/-!
# Decoding whatever is stored

Decoding checks little itself. That it never stumbles rests on the shape that stored forms must have
before they are decoded.

* `Shape.Fits.required` and `Shape.Fits.elements` take a value that fits apart: a member that must
  be there, and the elements of a member that is a list or absent;
* `Field.Inside`, `Step.FieldIn` and `Form.FieldIn` are the records of the fields in a stored field,
  step and form, at any depth;
* `DecodesTo` is what becomes of a value that fits: it is read, if the types of all its fields are
  known, or else a field of unknown type is reported. `DecodesTo.bind` and `DecodesTo.mapM` put it
  together; `Field.decodesTo`, `Step.decodesTo` and `Form.decodesTo` hold of the decoders;
* `Form.reopen_of_sound` : what was read is reopened as a tree or a draft, or is malformed;
* `stored_contained` : whatever is stored, decoding and loading answer properly.
-/

namespace BranchForm

/-! ### Values that fit, taken apart -/

namespace Members

variable {ms : Members} {name : String} {v : Value}

/-- The elements of a member, none if it is no list. -/
def items (ms : Members) (name : String) : List Value :=
  match getOrNull ms name with
  | .list vs => vs
  | _ => []

theorem sizeOf_lt_of_mem_items {u : Value} (h : u ∈ items ms name) :
    sizeOf u < sizeOf (Value.record ms) := by
  unfold items at h
  split at h
  · rename_i vs hvs
    cases hget : get? ms name with
    | none => simp [getOrNull, getD, hget] at hvs
    | some w =>
      rw [getOrNull_of_get? hget] at hvs
      have helement := List.sizeOf_lt_of_mem h
      have hmember := List.sizeOf_lt_of_mem (mem_of_get? hget)
      rw [hvs] at hmember
      simp only [Prod.mk.sizeOf_spec, Value.list.sizeOf_spec] at hmember
      simp only [Value.record.sizeOf_spec]
      omega
  · cases h

end Members

namespace Shape

variable {shape inner item : Shape} {v : Value} {ms : Members} {name : String}

theorem Fits.admits (h : shape.Fits v) : shape.Admits v := by
  cases v with
  | record ms => exact (fits_record.1 h).1
  | list vs => exact (fits_list.1 h).1
  | _ => exact localViolations_eq_nil_iff.1 h

theorem Fits.member (h : shape.Fits (.record ms)) (hinner : shape.member? name = some inner)
    (hv : Members.get? ms name = some v) : inner.Fits v :=
  (fits_record.1 h).2 name v (Members.mem_of_get? hv) inner hinner

/-- A member that must be there is there, and fits. -/
theorem Fits.required (h : shape.Fits (.record ms)) (hname : name ∈ shape.required)
    (hinner : shape.member? name = some inner) :
    ∃ v, Members.get? ms name = some v ∧ inner.Fits v := by
  obtain ⟨v, hv⟩ := Option.isSome_iff_exists.1 (h.admits.2 ms rfl name hname)
  exact ⟨v, hv, h.member hinner hv⟩

/-- A text that must be there is there. -/
theorem Fits.required_text (h : shape.Fits (.record ms)) (name : String)
    (hname : name ∈ shape.required) (hinner : shape.member? name = some .text) :
    ∃ s : String, Members.get? ms name = some (.text s) := by
  obtain ⟨v, hv, hfits⟩ := h.required hname hinner
  obtain ⟨s, rfl⟩ := exists_text_of_fits hfits
  exact ⟨s, hv⟩

theorem Fits.exists_record (h : shape.Fits v) (hkinds : shape.kinds = [.object]) :
    ∃ ms, v = .record ms := by
  have hkind := h.admits.1
  rw [hkinds] at hkind
  cases v with
  | record ms => exact ⟨ms, rfl⟩
  | _ => cases hkind

/-- A member of lists is a list, or absent. -/
theorem Fits.list_or_null (h : shape.Fits (.record ms)) (hinner : shape.member? name = some inner)
    (hkinds : inner.kinds ⊆ [.array, .null]) :
    Members.getOrNull ms name = .null ∨
      ∃ vs, Members.getOrNull ms name = .list vs ∧ inner.Fits (.list vs) := by
  cases hget : Members.get? ms name with
  | none => exact .inl (Members.getOrNull_of_none hget)
  | some v =>
    have hfits := h.member hinner hget
    rw [Members.getOrNull_of_get? hget]
    obtain ⟨kind, hkind, hhas⟩ := List.any_eq_true.1 hfits.admits.1
    cases v with
    | null => exact .inl rfl
    | list vs => exact .inr ⟨vs, rfl, hfits⟩
    | _ =>
      rcases List.mem_cons.1 (hkinds hkind) with rfl | hkind
      · cases hhas
      · rw [List.mem_singleton.1 hkind] at hhas
        cases hhas

/-- The elements of a member of lists are read, and they fit. -/
theorem Fits.elements (h : shape.Fits (.record ms)) (name : String)
    (hinner : shape.member? name = some inner) (hkinds : inner.kinds ⊆ [.array, .null])
    (hitem : inner.item? = some item) :
    (Members.getOrNull ms name).elementsOrNone = .ok (Members.items ms name) ∧
      Field.decodeElements (Members.getOrNull ms name) = Field.decodeAll (Members.items ms name) ∧
      ∀ v ∈ Members.items ms name, item.Fits v := by
  unfold Members.items
  rcases h.list_or_null hinner hkinds with hnull | ⟨vs, hlist, hfits⟩
  · rw [hnull]
    exact ⟨rfl, rfl, nofun⟩
  · rw [hlist]
    exact ⟨Value.elementsOrNone_list vs, rfl, (fits_list.1 hfits).2 item hitem⟩

end Shape

theorem valid_checkShape_iff {v : Value} : (checkShape v).valid = true ↔ Shape.form.Fits v := by
  have hsorted := List.mergeSort_perm (violations .form [] v)
    fun a b => Violation.pathLe a.path b.path
  have hvalid : (checkShape v).valid = true ↔
      (violations .form [] v).mergeSort (fun a b => Violation.pathLe a.path b.path) = [] :=
    Report.valid_concat_errors
  rw [hvalid, ← List.isEmpty_iff, hsorted.isEmpty_eq, List.isEmpty_iff]
  rfl

/-! ### Reading with the types of fields -/

/-- The record of a field has a type that is known. -/
def Known (ms : Members) : Prop := (FieldKind.ofValue? (Members.getOrNull ms "type")).isSome = true

instance (ms : Members) : Decidable (Known ms) :=
  inferInstanceAs (Decidable ((FieldKind.ofValue? (Members.getOrNull ms "type")).isSome = true))

/-- What reading a value comes to in which some records of fields stand. -/
inductive DecodesTo {α : Type} (IsField : Members → Prop) (Good : α → Prop) : Except Error α → Prop
  /-- The types of all fields are known, and the value is read. -/
  | read {a : α} : Good a → (∀ ms, IsField ms → Known ms) → DecodesTo IsField Good (.ok a)
  /-- A field of unknown type is reported. -/
  | unknown {ms : Members} : IsField ms → ¬ Known ms → DecodesTo IsField Good
      (.error (.unknownFieldType (Members.getOrNull ms "fieldId") (Members.getOrNull ms "type")))

namespace DecodesTo

variable {α β : Type} {F G H : Members → Prop} {Good : α → Prop} {Good' : β → Prop}

theorem of_ok {a : α} (ha : Good a) (hnone : ∀ ms, ¬ F ms) : DecodesTo F Good (.ok a) :=
  .read ha fun ms hms => absurd hms (hnone ms)

/-- One part after the other. -/
theorem bind {x : Except Error α} {f : α → Except Error β} (hx : DecodesTo F Good x)
    (hf : ∀ a, Good a → DecodesTo G Good' (f a)) (hparts : ∀ ms, H ms ↔ F ms ∨ G ms) :
    DecodesTo H Good' (x >>= f) := by
  cases hx with
  -- a report on the first part ends the reading
  | unknown hms hunknown => exact .unknown ((hparts _).2 (.inl hms)) hunknown
  | read ha hknown =>
    rename_i a
    have hrest := hf a ha
    rw [ok_bind]
    cases hrest' : f a with
    | ok b =>
      rw [hrest'] at hrest
      cases hrest with
      | read hb hknown' =>
        exact .read hb fun ms hms => ((hparts ms).1 hms).elim (hknown ms) (hknown' ms)
    | error e =>
      rw [hrest'] at hrest
      cases hrest with
      | unknown hms hunknown => exact .unknown ((hparts _).2 (.inr hms)) hunknown

/-- What is made of one part. -/
theorem map {x : Except Error α} {f : α → β} (hx : DecodesTo F Good x)
    (hf : ∀ a, Good a → Good' (f a)) (hpart : ∀ ms, G ms ↔ F ms) :
    DecodesTo G Good' (x >>= fun a => .ok (f a)) :=
  hx.bind (fun a ha => of_ok (hf a ha) fun _ => not_false)
    fun ms => (hpart ms).trans (or_false _).symm.to_iff

/-- Several parts, from the first to the last. -/
theorem mapM {f : Value → Except Error α} {IsField : Value → Members → Prop} {vs : List Value}
    (h : ∀ v ∈ vs, DecodesTo (IsField v) Good (f v)) :
    DecodesTo (fun ms => ∃ v ∈ vs, IsField v ms) (fun as => ∀ a ∈ as, Good a) (vs.mapM f) := by
  induction vs with
  | nil => exact of_ok nofun nofun
  | cons v vs ih =>
    rw [List.mapM_cons]
    refine (h v List.mem_cons_self).bind (fun a ha => ?_) fun ms => List.exists_mem_cons_iff ..
    exact (ih fun w hw => h w (List.mem_cons_of_mem _ hw)).map
      (fun as has => List.forall_mem_cons.2 ⟨ha, has⟩) fun ms => Iff.rfl

end DecodesTo

/-! ### The fields in stored records -/

/-- The records of the fields in the record of a field: its own, and those inside it. -/
inductive Field.Inside : Value → Members → Prop
  /-- The field itself. -/
  | self {ms : Members} : Field.Inside (.record ms) ms
  /-- A field inside a sub-field. -/
  | sub {ms ns : Members} {v : Value} : v ∈ Members.items ms "subFields" → Field.Inside v ns →
      Field.Inside (.record ms) ns

/-- The records of the fields in the record of a step, at any depth. -/
def Step.FieldIn (v : Value) (ns : Members) : Prop :=
  ∃ ms, v = .record ms ∧ ∃ u ∈ Members.items ms "fields", Field.Inside u ns

/-- The records of the fields in the record of a form, at any depth. -/
def Form.FieldIn (v : Value) (ns : Members) : Prop :=
  ∃ ms, v = .record ms ∧ ∃ u ∈ Members.items ms "steps", Step.FieldIn u ns

theorem Field.inside_record {ms ns : Members} :
    Inside (.record ms) ns ↔ ns = ms ∨ ∃ v ∈ Members.items ms "subFields", Inside v ns := by
  constructor
  · intro h
    cases h with
    | self => exact .inl rfl
    | sub hv hns => exact .inr ⟨_, hv, hns⟩
  · rintro (rfl | ⟨v, hv, hns⟩)
    · exact .self
    · exact .sub hv hns

/-! ### The decoders -/

/-- A choice that can be followed or is left alone: it is named by a text, and its target may name a
step. -/
structure Choice.Sound (c : Choice) : Prop where
  /-- Its name. -/
  id : ∃ s, c.id = .text s
  /-- Its target. -/
  target : c.target.isKey = true

/-- The choices of a step are sound. -/
def Step.Sound (s : Step) : Prop := ∀ c ∈ s.leadChoices, c.Sound

/-- The choices of a form are sound. -/
def Form.Sound (form : Form) : Prop := ∀ s ∈ form.steps, s.Sound

theorem Value.isKey_orElse {v w : Value} (hv : v.isKey = true) (hw : w.isKey = true) :
    (v.orElse w).isKey = true := by
  unfold orElse
  split
  · exact hv
  · exact hw

/-- A target that may be absent may name a step. -/
theorem Shape.Fits.isKey_target {ms : Members} (h : Shape.choice.Fits (.record ms)) {name : String}
    (hname : Shape.choice.member? name = some .optionalText) :
    (Members.getOrNull ms name).isKey = true := by
  cases hget : Members.get? ms name with
  | none =>
    rw [Members.getOrNull_of_none hget]
    rfl
  | some v =>
    have hkind := (h.member hname hget).admits.1
    rw [Members.getOrNull_of_get? hget]
    cases v with
    | list vs => cases hkind
    | record ms => cases hkind
    | _ => rfl

theorem Choice.exists_decode {v : Value} (h : Shape.choice.Fits v) :
    ∃ c, decode v = .ok c ∧ c.Sound := by
  obtain ⟨ms, rfl⟩ := h.exists_record rfl
  obtain ⟨s, hid⟩ := h.required_text "optionId" List.mem_cons_self rfl
  simp only [decode, Value.require, hid, ok_bind, Value.asLabel_text, Value.get, Value.getOrNull]
  refine ⟨_, rfl, ⟨s, rfl⟩, ?_⟩
  have hnull : Value.null.isKey = true := rfl
  exact Value.isKey_orElse (Value.isKey_orElse (h.isKey_target rfl) hnull)
    (Value.isKey_orElse (h.isKey_target rfl) hnull)

theorem Condition.exists_decode {v : Value} (h : Shape.condition.Fits v) :
    ∃ c, decode v = .ok c := by
  obtain ⟨ms, rfl⟩ := h.exists_record rfl
  obtain ⟨fieldId, hfield⟩ := h.required_text "fieldId" List.mem_cons_self rfl
  obtain ⟨nextStep, hnext⟩ := h.required_text "nextStepId"
    (List.mem_cons_of_mem _ (List.mem_cons_of_mem _ List.mem_cons_self)) rfl
  simp only [decode, Value.require, hfield, hnext, ok_bind, Value.asLabel_text, Value.get]
  exact ⟨_, rfl⟩

/-- What a field asks is read if its own type is known. -/
theorem Question.decodesTo {ms : Members} (h : Shape.field.Fits (.record ms)) :
    DecodesTo (· = ms) (fun q => ∀ c ∈ q.choices, c.Sound) (decode (.record ms)) := by
  obtain ⟨type, htype⟩ := h.required_text "type"
    (List.mem_cons_of_mem _ List.mem_cons_self) rfl
  obtain ⟨fieldId, hid⟩ := h.required_text "fieldId" List.mem_cons_self rfl
  have hget := Members.getOrNull_of_get? htype
  simp only [decode, Value.require, htype, ok_bind]
  -- the type is looked at first, and the name asked for in the report
  cases hkind : FieldKind.ofValue? (.text type) with
  | none =>
    have hunknown : ¬ Known ms := by simp [Known, hget, hkind]
    simp only [Value.asLabel_text, ok_bind, Value.getOrNull, Value.get]
    rw [← hget]
    exact .unknown rfl hunknown
  | some kind =>
    have hknown : Known ms := by simp [Known, hget, hkind]
    obtain ⟨helements, -, hchoices⟩ := h.elements "options" rfl (List.Subset.refl _) rfl
    obtain ⟨cs, hcs, hsound⟩ := exists_mapM_ok fun v hv => Choice.exists_decode (hchoices v hv)
    simp only [hid, ok_bind, Value.asLabel_text, Value.get, Value.getOrNull]
    rw [← Members.getOrNull, helements, ok_bind, hcs, ok_bind]
    exact .read hsound fun ns hns => hns ▸ hknown

namespace Field

theorem decodeAll_eq_mapM (vs : List Value) : decodeAll vs = vs.mapM decode := by
  induction vs with
  | nil => rfl
  | cons v vs ih => rw [decodeAll, List.mapM_cons, ih]

/-- The sub-fields are those of the first member of their name. -/
theorem decodeSubFields_eq (ms : Members) :
    decodeSubFields ms = decodeElements (Members.getOrNull ms "subFields") := by
  induction ms with
  | nil => rfl
  | cons m ms ih =>
    obtain ⟨name, v⟩ := m
    by_cases hname : name = .text "subFields"
    · simp [decodeSubFields, Members.getOrNull, Members.getD, hname]
    · have hskip : Members.getOrNull ((name, v) :: ms) "subFields" =
          Members.getOrNull ms "subFields" := by
        simp [Members.getOrNull, Members.getD, Members.get?, Value.agrees_text_iff, hname]
      rw [decodeSubFields, if_neg hname, ih, hskip]

/-- A field is read with all fields inside it. -/
theorem decodesTo (v : Value) (h : Shape.field.Fits v) :
    DecodesTo (Inside v) (fun f => ∀ c ∈ f.choices, c.Sound) (decode v) := by
  obtain ⟨ms, hms⟩ := h.exists_record rfl
  rw [hms] at h ⊢
  obtain ⟨-, hdecode, hfits⟩ := h.elements "subFields" rfl (List.Subset.refl _) rfl
  have hsub : DecodesTo (fun ns => ∃ u ∈ Members.items ms "subFields", Inside u ns)
      (fun fs => ∀ f ∈ fs, ∀ c ∈ f.choices, c.Sound) (decodeSubFields ms) := by
    rw [decodeSubFields_eq, hdecode, decodeAll_eq_mapM]
    exact .mapM fun u hu => decodesTo u (hfits u hu)
  rw [decode]
  -- the type of the field itself is looked at before those inside
  refine (Question.decodesTo h).bind (fun q hq => ?_) fun ns => inside_record
  exact hsub.map (fun fs _ => hq) fun ns => Iff.rfl
termination_by sizeOf v
decreasing_by exact hms ▸ Members.sizeOf_lt_of_mem_items hu

end Field

/-- A step is read with all fields in it. -/
theorem Step.decodesTo {v : Value} (h : Shape.step.Fits v) :
    DecodesTo (FieldIn v) Sound (decode v) := by
  obtain ⟨ms, rfl⟩ := h.exists_record rfl
  obtain ⟨stepId, hid⟩ := h.required_text "stepId" List.mem_cons_self rfl
  obtain ⟨-, hdecode, hfits⟩ := h.elements "fields" rfl (by simp [Shape.kinds]) rfl
  obtain ⟨helements, -, hconditions⟩ :=
    h.elements "nextStepCondition" rfl (List.Subset.refl _) rfl
  obtain ⟨cs, hcs, -⟩ := exists_mapM_ok (P := fun _ => True) fun w hw =>
    (Condition.exists_decode (hconditions w hw)).imp fun _ hc => ⟨hc, trivial⟩
  have hfields : DecodesTo (fun ns => ∃ u ∈ Members.items ms "fields", Field.Inside u ns)
      (fun fs => ∀ f ∈ fs, ∀ c ∈ f.choices, c.Sound)
      (Field.decodeElements (Members.getOrNull ms "fields")) := by
    rw [hdecode, Field.decodeAll_eq_mapM]
    exact .mapM fun u hu => Field.decodesTo u (hfits u hu)
  simp only [decode, Value.require, hid, ok_bind, Value.asLabel_text, Value.get, Value.getOrNull]
  rw [← Members.getOrNull, ← Members.getOrNull, ← Members.getOrNull, helements]
  simp only [ok_bind, hcs]
  refine hfields.map (fun fs hfs => ?_) fun ns => by simp [FieldIn]
  unfold Sound leadChoices
  cases fs with
  | nil => exact List.forall_mem_nil _
  | cons f fs => exact hfs f List.mem_cons_self

theorem FormSettings.exists_decode {ms : Members} (h : Shape.form.Fits (.record ms)) :
    ∃ s, decode (Members.getOrNull ms "settings") = .ok s := by
  have hrecord : ∃ ns, (Members.getOrNull ms "settings").orElse (.record []) = .record ns := by
    cases hget : Members.get? ms "settings" with
    | none => exact ⟨[], by rw [Members.getOrNull_of_none hget]; rfl⟩
    | some v =>
      obtain ⟨ns, rfl⟩ := (h.member rfl hget).exists_record rfl
      rw [Members.getOrNull_of_get? hget, Value.orElse]
      split
      · exact ⟨ns, rfl⟩
      · exact ⟨[], rfl⟩
  obtain ⟨ns, hns⟩ := hrecord
  simp only [decode, hns, Value.get, Value.getOrNull, ok_bind]
  exact ⟨_, rfl⟩

/-- A form is read with all fields in it. What an envelope lends to it does not matter: steps and
settings are not lent. -/
theorem Form.decodesTo {ms ms' : Members} (h : Shape.form.Fits (.record ms))
    (hsteps : Members.getOrNull ms' "steps" = Members.getOrNull ms "steps")
    (hsettings : Members.getOrNull ms' "settings" = Members.getOrNull ms "settings") :
    DecodesTo (FieldIn (.record ms)) Sound (decode (.record ms')) := by
  obtain ⟨helements, -, hfits⟩ := h.elements "steps" rfl (by simp [Shape.kinds]) rfl
  obtain ⟨settings, hdecode⟩ := FormSettings.exists_decode h
  have hall : DecodesTo (fun ns => ∃ u ∈ Members.items ms "steps", Step.FieldIn u ns)
      (fun ss => ∀ s ∈ ss, s.Sound) ((Members.items ms "steps").mapM Step.decode) :=
    .mapM fun u hu => Step.decodesTo (hfits u hu)
  simp only [decode, hsteps, hsettings, helements, hdecode, ok_bind]
  exact hall.map (fun ss hss => hss) fun ns => by simp [FieldIn]

/-! ### Reopening what was read -/

mutual

/-- The nodes of a choice are named by texts if the choices they come from are. -/
theorem texts_of_reopenChoice {form : Form}
    (hids : ∀ s ∈ form.steps, ∀ c ∈ s.leadChoices, ∃ i, c.id = .text i)
    {path expanded after : List String} {c : Choice} {t : OptionTree} (hc : ∃ i, c.id = .text i)
    (h : reopenChoice form path expanded c = .ok (t, after)) :
    ∀ u ∈ OptionTree.preorder t, ∃ i, u.id = .text i := by
  match t with
  | .node d children =>
    rw [OptionTree.preorder, List.forall_mem_cons]
    rcases (reopenChoice_inv h).2 with ⟨hleaf, -⟩ | ⟨s, below, hnext, -, -, hbelow, hnode⟩
    · obtain ⟨rfl, rfl⟩ := OptionTree.node.inj hleaf
      exact ⟨hc, nofun⟩
    · obtain ⟨rfl, rfl⟩ := OptionTree.node.inj hnode
      exact ⟨hc, texts_of_reopenChoices hids (hids s (Form.of_next? hnext).2.1) hbelow⟩

theorem texts_of_reopenChoices {form : Form}
    (hids : ∀ s ∈ form.steps, ∀ c ∈ s.leadChoices, ∃ i, c.id = .text i)
    {path expanded after : List String} {cs : List Choice} {ts : List OptionTree}
    (hcs : ∀ c ∈ cs, ∃ i, c.id = .text i)
    (h : reopenChoices form path expanded cs = .ok (ts, after)) :
    ∀ u ∈ OptionTree.preorderAll ts, ∃ i, u.id = .text i := by
  match ts with
  | [] => exact nofun
  | t :: ts =>
    obtain ⟨c, rest, between, rfl, ht, hts⟩ := exists_of_reopenChoices_cons h
    obtain ⟨hfirst, hrest⟩ := List.forall_mem_cons.1 hcs
    exact List.forall_mem_append.2
      ⟨texts_of_reopenChoice hids hfirst ht, texts_of_reopenChoices hids hrest hts⟩

end

/-- Among texts it can be found out which ids repeat. -/
theorem Form.rooted_of_texts (form : Form) {children : List OptionTree}
    (h : ∀ u ∈ OptionTree.preorderAll children, ∃ i, u.id = .text i) (rootId : Value) :
    (∃ t, form.rooted rootId children = .ok (some t) ∧ t.ids.Nodup) ∨
      ∃ cause, form.rooted rootId children = .error (.malformed cause) := by
  have hids : ∀ v ∈ (OptionTree.preorderAll children).map OptionTree.id, ∃ s, v = .text s :=
    List.forall_mem_map.2 h
  obtain ⟨ss, hss⟩ := Value.exists_texts hids
  obtain ⟨repeated, hrepeated, hnil⟩ := repeatedIds_cons_texts rootId ss
  have hroot : ∀ d : Node, (OptionTree.node d children).ids = d.id :: ss.map .text := by
    intro d
    rw [OptionTree.ids_eq_cons, ← hss]
    rfl
  simp only [rooted, hroot, hrepeated]
  cases repeated with
  | nil => exact .inl ⟨_, rfl, (hroot _).symm ▸ hnil.1 rfl⟩
  | cons i is => exact .inr ⟨_, rfl⟩

/-- A form of sound choices is reopened as a draft without repeated ids, or is malformed. -/
theorem Form.reopen_of_sound {form : Form} (h : form.Sound) (rootId : Value) :
    form.reopen rootId = .ok none ∨
      (∃ t, form.reopen rootId = .ok (some t) ∧ t.ids.Nodup) ∨
      ∃ cause, form.reopen rootId = .error (.malformed cause) := by
  obtain hnone | hnoEntry | ⟨entry, hentry, hlead⟩ := form.reopen_cases rootId
  · exact .inl hnone
  · exact .inr (.inr ⟨_, hnoEntry⟩)
  · have hmem : entry ∈ form.steps := List.mem_of_find?_eq_some hentry
    rw [reopen_eq_rooted hentry hlead]
    cases hreopen : reopenChoices form [entryStepId] [] entry.leadChoices with
    | error e =>
      obtain ⟨cause, rfl⟩ := malformed_of_reopenChoices (fun s hs c hc => (h s hs c hc).target)
        _ _ _ (fun c hc => (h entry hmem c hc).target) hreopen
      exact .inr (.inr ⟨cause, rfl⟩)
    | ok out =>
      have htexts := texts_of_reopenChoices (fun s hs c hc => (h s hs c hc).id)
        (fun c hc => (h entry hmem c hc).id) hreopen
      exact .inr (form.rooted_of_texts htexts rootId)

/-! ### Sources -/

/-- What the storage hands over: a text, or a record under texts. -/
inductive IsSource : Value → Prop
  /-- A payload that stands alone. -/
  | text (s : String) : IsSource (.text s)
  /-- A storage body. -/
  | body {ms : Members} : (∀ m ∈ ms, ∃ name, m.1 = .text name) → IsSource (.record ms)

/-- The text of a payload is refused for its syntax only: no whole number in it has more digits than a
number may have, for which reading ends with another error. -/
def Readable (payload : Value) : Prop :=
  ∀ s, payload = .text s → Json.read s ≠ .error .longNumber

/-- The text in which a source holds a form is readable. -/
def ReadableSource : Value → Prop
  | .record ms => ∀ payload, Members.get? ms "formPayload" = some payload →
    Readable (Envelope.payloadText payload)
  | payload => Readable payload

/-- A record embedded in a body is readable, if JSON text keeps it. -/
theorem readable_record {ms : Members} (h : Json.Plain (.record ms)) :
    Readable (Envelope.payloadText (.record ms)) := by
  rintro s hs
  have htext : Json.write {} (.record ms) = s := Value.text.inj hs
  rw [← htext, Json.read_write (fun _ hindent => by cases hindent) h]
  exact nofun

/-- A proper answer of decoding: a form of sound choices, or word that the source cannot be decoded.
-/
def Answers (r : Except Error Form) : Prop :=
  (∃ form, r = .ok form ∧ form.Sound) ∨ ∃ e, r = .error e ∧ e.isDecoding = true

theorem DecodesTo.answers {IsField : Members → Prop} {r : Except Error Form}
    (h : DecodesTo IsField Form.Sound r) : Answers r := by
  cases h with
  | read hsound hknown => exact .inl ⟨_, rfl, hsound⟩
  | unknown hms hunknown => exact .inr ⟨_, rfl, rfl⟩

/-- A readable payload has a value, or is refused as no JSON. -/
theorem readPayload_cases {s : String} (h : Readable (.text s)) :
    (∃ v, readPayload (.text s) = .ok v) ∨
      ∃ reason, readPayload (.text s) = .error (.payloadNotJson reason) := by
  simp only [readPayload]
  cases hread : Json.read s with
  | ok v => exact .inl ⟨v, rfl⟩
  | error refusal =>
    cases refusal with
    | syntaxError reason => exact .inr ⟨reason, rfl⟩
    | longNumber => exact absurd hread (h s rfl)

/-- A readable payload is answered properly, whatever an envelope lends to it but steps and
settings. -/
theorem answers_decodePayload {s : String} (hreadable : Readable (.text s))
    {complete : Members → Members}
    (hcomplete : ∀ ms, Members.getOrNull (complete ms) "steps" = Members.getOrNull ms "steps" ∧
      Members.getOrNull (complete ms) "settings" = Members.getOrNull ms "settings") :
    Answers (decodePayload (.text s) complete) := by
  unfold decodePayload
  rcases readPayload_cases hreadable with ⟨v, hread⟩ | ⟨reason, hread⟩
  · rw [hread, ok_bind]
    by_cases hvalid : (checkShape v).valid = true
    · have hfits := valid_checkShape_iff.1 hvalid
      obtain ⟨ms, rfl⟩ := hfits.exists_record rfl
      simp only [hvalid, ↓reduceIte]
      exact (Form.decodesTo hfits (hcomplete ms).1 (hcomplete ms).2).answers
    · simp only [hvalid]
      exact .inr ⟨_, rfl, rfl⟩
  · rw [hread]
    exact .inr ⟨_, rfl, rfl⟩

theorem getOrNull_withDefault {ms : Members} {name other : String} (v : Value)
    (hne : name ≠ other) :
    Members.getOrNull (withDefault name v ms) other = Members.getOrNull ms other := by
  unfold withDefault
  split
  · rfl
  · simp [Members.getOrNull, Members.getD, hne]

/-- A body is read as an envelope if it has a payload, which then becomes a text. -/
theorem Envelope.decode_cases {ms : Members} (hnames : ∀ m ∈ ms, ∃ name, m.1 = .text name) :
    (∃ payload e, Members.get? ms "formPayload" = some payload ∧ decode (.record ms) = .ok e ∧
      e.payload = payloadText payload) ∨
    ∃ keys, decode (.record ms) = .error (.bodyWithoutPayload keys) := by
  cases hget : Members.get? ms "formPayload" with
  | some payload =>
    refine .inl ⟨payload, ?_⟩
    simp only [decode, Value.contains, Members.has, hget, Option.isSome_some, ok_bind, ↓reduceIte,
      Value.need, Value.get, Value.getOrNull, true_and]
    exact ⟨_, rfl, rfl⟩
  | none =>
    have hkeys : ∀ v ∈ Members.names ms, ∃ s, v = .text s := List.forall_mem_map.2 hnames
    obtain ⟨ss, hss⟩ := Value.exists_texts hkeys
    -- the names are told in order, which they have as texts
    obtain ⟨us, hus, -⟩ := Value.sort?_texts ss
    refine .inr ⟨us.map .text, ?_⟩
    simp only [decode, Value.contains, Members.has, hget, Option.isSome_none, ok_bind,
      Bool.false_eq_true, ↓reduceIte, Value.elements, hss, Value.sorted, hus]

theorem answers_decodeSource {source : Value} (hsource : IsSource source)
    (hreadable : ReadableSource source) : Answers (decodeSource source) := by
  cases hsource with
  | text s => exact answers_decodePayload hreadable fun ms => ⟨rfl, rfl⟩
  | body hnames =>
    rename_i ms
    have hbody : decodeSource (.record ms) = Envelope.decode (.record ms) >>= Envelope.open := rfl
    rw [hbody]
    rcases Envelope.decode_cases hnames with ⟨payload, e, hget, hdecode, hpayload⟩ | ⟨keys, hdecode⟩
    · rw [hdecode, ok_bind, Envelope.open, hpayload]
      obtain ⟨s, hs⟩ : ∃ s, Envelope.payloadText payload = .text s := by
        cases payload <;> exact ⟨_, rfl⟩
      rw [hs]
      refine answers_decodePayload (hs ▸ hreadable payload hget) fun ms => ⟨?_, ?_⟩
      · rw [getOrNull_withDefault _ (by decide), getOrNull_withDefault _ (by decide)]
      · rw [getOrNull_withDefault _ (by decide), getOrNull_withDefault _ (by decide)]
    · rw [hdecode]
      exact .inr ⟨_, rfl, rfl⟩

/-- What was answered properly is opened as a draft, empty or without repeated ids. -/
theorem outcome_openStored {stored : Except Error Form} (h : Answers stored) :
    (openStored stored).outcome = .ok none ∨
      ∃ t, (openStored stored).outcome = .ok (some t) ∧ t.ids.Nodup := by
  rcases h with ⟨form, rfl, hsound⟩ | ⟨e, rfl, he⟩
  · simp only [openStored, openForm]
    rcases form.reopen_of_sound hsound defaultRootId with h | ⟨t, h, hd⟩ | ⟨cause, h⟩
    · exact .inl (by rw [h]; rfl)
    · exact .inr ⟨t, by rw [h]; rfl, hd⟩
    · exact .inl (by rw [h]; rfl)
  · exact .inl (by rw [openStored, if_pos he])

/-- **What is stored does no harm.** Whatever text or record is decoded, it comes to a form or to
word that it cannot be decoded; and it is loaded as a draft without repeated ids, or as none. Assumed
is `ReadableSource`: the text that holds the form has no whole number of too many digits, the one
thing for which reading a text ends with another error than that it is no JSON. Only the types of fields are left to the decoder: any value of the shape of a form is decoded if the
types of all its fields are known, at every depth, and else a field of unknown type is reported. -/
theorem stored_contained {source : Value} (hsource : IsSource source)
    (hreadable : ReadableSource source) :
    ((∃ form, decodeSource source = .ok form) ∨
      ∃ e, decodeSource source = .error e ∧ e.isDecoding = true) ∧
    ((loadTree source).outcome = .ok none ∨
      ∃ t, (loadTree source).outcome = .ok (some t) ∧ t.ids.Nodup) ∧
    ∀ v, (checkShape v).valid = true →
      (∃ form, Form.decode v = .ok form ∧ ∀ ms, Form.FieldIn v ms → Known ms) ∨
      ∃ ms, Form.FieldIn v ms ∧ ¬ Known ms ∧ Form.decode v =
        .error (.unknownFieldType (Members.getOrNull ms "fieldId") (Members.getOrNull ms "type")) := by
  have hanswers := answers_decodeSource hsource hreadable
  refine ⟨hanswers.imp_left fun ⟨form, hform, _⟩ => ⟨form, hform⟩, outcome_openStored hanswers, ?_⟩
  intro v hvalid
  have hfits := valid_checkShape_iff.1 hvalid
  obtain ⟨ms, rfl⟩ := hfits.exists_record rfl
  have hdecodes := Form.decodesTo hfits rfl rfl
  generalize hresult : Form.decode (.record ms) = result at hdecodes
  cases hdecodes with
  | read hsound hknown => exact .inl ⟨_, rfl, hknown⟩
  | unknown hms hunknown => exact .inr ⟨_, hms, hunknown, rfl⟩

/-- The record of a field of a type that is not known. -/
def slider : Members := [("fieldId", "stars"), ("type", "slider"), ("label", "Stars")]

/-- A form of the right shape, with that field inside another. -/
def survey : Value :=
  .record [("steps", .list [.record [("stepId", "step1"), ("title", "Survey"),
    ("fields", .list [.record [("fieldId", "rate"), ("type", "text"), ("label", "Rate"),
      ("subFields", .list [.record slider])]])]])]

theorem stored_contained_survey :
    IsSource (.record [("formPayload", survey)]) ∧ ReadableSource (.record [("formPayload", survey)]) ∧
      ((loadTree (.record [("formPayload", survey)])).outcome = .ok none ∨
        ∃ t, (loadTree (.record [("formPayload", survey)])).outcome = .ok (some t) ∧ t.ids.Nodup) ∧
      (checkShape survey).valid = true ∧
      ∃ fieldId type, Form.decode survey = .error (.unknownFieldType fieldId type) := by
  have hsource : IsSource (.record [("formPayload", survey)]) := .body (by simp)
  have hreadable : ReadableSource (.record [("formPayload", survey)]) := by
    intro payload hpayload
    obtain rfl : survey = payload := by simpa using hpayload
    refine readable_record ?_
    simp [slider, Json.Plain, Json.PlainMembers, Json.PlainItems, Members.names]
  have hvalid : (checkShape survey).valid = true := by
    rw [valid_checkShape_iff]
    decide +kernel
  have hslider : Form.FieldIn survey slider :=
    ⟨_, rfl, _, List.mem_cons_self, _, rfl, _, List.mem_cons_self, .sub List.mem_cons_self .self⟩
  obtain ⟨-, hload, hdecode⟩ := stored_contained hsource hreadable
  refine ⟨hsource, hreadable, hload, hvalid, ?_⟩
  rcases hdecode survey hvalid with ⟨form, -, hknown⟩ | ⟨ms, -, -, hreport⟩
  · exact absurd (hknown slider hslider) (by decide +kernel)
  · exact ⟨_, _, hreport⟩

end BranchForm
