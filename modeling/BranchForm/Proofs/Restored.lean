import BranchForm.Proofs.JsonValues
import BranchForm.Proofs.Settled
import BranchForm.Proofs.Stored

/-!
# Loaded forms stored again

A form that was read is written as another record than the one it was read from: members nobody knows
are dropped, and defaults are filled in. That record can be kept wherever the first one could: each
of its members is one that was there, or a default that may stand in its place.

* `Shape.Keeps` values can be kept in a place: JSON text keeps them and, where shapes are checked,
  they fit; `Shape.KeepsAt` says so of the value of a member;
* `Shape.Keeps.getD` and `Shape.Keeps.orElse` : a member that is looked up can be kept if what stands
  in its stead can; `Shape.keeps_record` puts members together;
* `Choice.keeps_encode`, `Question.keeps_encode`, `Field.keeps_encode`, `Condition.keeps_encode`,
  `Step.keeps_encode`, `FormSettings.keeps_encode` and `Form.keeps_encode` follow the parts of a form
  from the inside out;
* `decodeSource_seal` : a form that was loaded is stored without loss.
-/

namespace BranchForm

/-! ### What can be kept -/

/-- A value can be kept in a place: JSON text keeps it, and where shapes are checked it fits. -/
structure Shape.Keeps (checked : Prop) (shape : Shape) (v : Value) : Prop where
  /-- JSON text keeps it. -/
  plain : Json.Plain v
  /-- Nothing is amiss with it. -/
  fits : checked → shape.Fits v

/-- A value can be kept as the member of a record that stands in a place. -/
structure Shape.KeepsAt (checked : Prop) (shape : Shape) (name : String) (v : Value) : Prop where
  /-- JSON text keeps it. -/
  plain : Json.Plain v
  /-- Nothing is amiss with it, if the shape knows the member. -/
  fits : checked → ∀ inner, shape.member? name = some inner → inner.Fits v

/-- The name of a member is a text, and its value can be kept under it. -/
def Shape.KeepsMember (checked : Prop) (shape : Shape) (m : Value × Value) : Prop :=
  ∃ name, m.1 = .text name ∧ shape.KeepsAt checked name m.2

namespace Members

theorem names_append (ms ns : Members) : names (ms ++ ns) = names ms ++ names ns :=
  List.map_append

theorem names_optional (name : String) (v : Value) :
    (names (optional name v)).Sublist [.text name] := by
  by_cases hv : v = .null
  · rw [optional, if_pos hv]
    exact List.nil_sublist _
  · rw [optional, if_neg hv]
    exact List.Sublist.refl _

/-- A member that is left out at times. -/
theorem names_ite (c : Prop) [Decidable c] (m : Value × Value) :
    (names (if c then [m] else [])).Sublist [m.1] := by
  split
  · exact List.Sublist.refl _
  · exact List.nil_sublist _

end Members

/-- Of a value that JSON text keeps, only the elements of a list are records. -/
theorem Value.list_of_elementsOrNone {v : Value} {us : List Value} {ms : Members}
    (hplain : Json.Plain v) (h : v.elementsOrNone = .ok us) (hmem : .record ms ∈ us) :
    v = .list us := by
  unfold elementsOrNone at h
  split at h
  · cases v with
    | list vs =>
      cases h
      rfl
    | text s =>
      cases h
      obtain ⟨c, -, hc⟩ := List.mem_map.1 hmem
      cases hc
    | record ns =>
      cases h
      obtain ⟨m, hm, hname⟩ := List.mem_map.1 hmem
      obtain ⟨s, hs⟩ := (Json.plainMembers_iff.1 hplain.2 m hm).1
      rw [hname] at hs
      cases hs
    | null | bool | int | float | moment => cases h
  · cases h
    cases hmem

namespace Shape

variable {checked : Prop} {shape inner item : Shape} {name : String} {v d : Value} {ms : Members}

/-- A value that is neither a list nor a record can be kept where its kind may stand. -/
theorem keepsAt_atom (hplain : Json.Plain v) (hkey : v.isKey = true)
    (h : ((shape.member? name).all fun inner => inner.kinds.any fun k => k.has v) = true) :
    shape.KeepsAt checked name v where
  plain := hplain
  fits _ inner hinner := by
    rw [hinner, Option.all_some] at h
    cases v with
    | list vs => cases hkey
    | record ms => cases hkey
    | null | bool | int | float | text | moment => exact localViolations_eq_nil_iff.2 ⟨h, nofun⟩

theorem keepsAt_list {vs : List Value} (hinner : shape.member? name = some inner)
    (hkind : ShapeKind.array ∈ inner.kinds) (hitem : inner.item? = some item)
    (h : ∀ v ∈ vs, item.Keeps checked v) : shape.KeepsAt checked name (.list vs) where
  plain := Json.plainItems_iff.2 fun v hv => (h v hv).plain
  fits hchecked other hother := by
    cases hinner.symm.trans hother
    refine fits_list.2 ⟨⟨List.any_eq_true.2 ⟨_, hkind, rfl⟩, nofun⟩, fun other hother v hv => ?_⟩
    cases hitem.symm.trans hother
    exact (h v hv).fits hchecked

theorem Keeps.at (h : inner.Keeps checked v) (hinner : shape.member? name = some inner) :
    shape.KeepsAt checked name v where
  plain := h.plain
  fits hchecked other hother := by
    cases hinner.symm.trans hother
    exact h.fits hchecked

theorem KeepsAt.keeps (h : shape.KeepsAt checked name v) (hinner : shape.member? name = some inner) :
    inner.Keeps checked v where
  plain := h.plain
  fits hchecked := h.fits hchecked inner hinner

/-- The elements of a list that is kept can be kept. -/
theorem KeepsAt.element {vs : List Value} (h : shape.KeepsAt checked name (.list vs))
    (hinner : shape.member? name = some inner) (hitem : inner.item? = some item) :
    ∀ v ∈ vs, item.Keeps checked v := by
  intro v hv
  refine ⟨Json.plainItems_iff.1 h.plain v hv, fun hchecked => ?_⟩
  exact (fits_list.1 (h.fits hchecked inner hinner)).2 item hitem v hv

/-- The members of a record that is kept can be kept. -/
theorem Keeps.get (h : shape.Keeps checked (.record ms)) (hv : Members.get? ms name = some v) :
    shape.KeepsAt checked name v where
  plain := (Json.plainMembers_iff.1 h.plain.2 _ (Members.mem_of_get? hv)).2
  fits hchecked _ hinner := (h.fits hchecked).member hinner hv

/-- A member that may be absent can be kept if what stands in its stead can. -/
theorem Keeps.getD (h : shape.Keeps checked (.record ms)) (hd : shape.KeepsAt checked name d) :
    shape.KeepsAt checked name (Members.getD ms name d) := by
  cases hv : Members.get? ms name with
  | none => rwa [Members.getD, hv]
  | some v =>
    rw [Members.getD, hv]
    exact h.get hv

/-- A member that may be empty can be kept if what stands in its stead can. -/
theorem Keeps.orElse (h : shape.Keeps checked (.record ms)) (hd : shape.KeepsAt checked name d) :
    shape.KeepsAt checked name ((Members.getOrNull ms name).orElse d) := by
  by_cases htruthy : (Members.getOrNull ms name).truthy = true
  · rw [Value.orElse, if_pos htruthy]
    cases hv : Members.get? ms name with
    | none =>
      rw [Members.getOrNull_of_none hv] at htruthy
      cases htruthy
    | some v =>
      rw [Members.getOrNull_of_get? hv]
      exact h.get hv
  · rwa [Value.orElse, if_neg htruthy]

/-- The elements of a member of lists can be kept. -/
theorem Keeps.elements {us : List Value} (h : shape.Keeps checked (.record ms))
    (hlist : Members.getOrNull ms name = .list us) (hinner : shape.member? name = some inner)
    (hitem : inner.item? = some item) : ∀ u ∈ us, item.Keeps checked u := by
  have hget : Members.get? ms name = some (.list us) := by
    cases hv : Members.get? ms name with
    | none =>
      rw [Members.getOrNull_of_none hv] at hlist
      cases hlist
    | some v => rw [← hlist, Members.getOrNull_of_get? hv]
  exact (h.get hget).element hinner hitem

/-- An element of a member that is a record can be kept as an element of a list. -/
theorem Keeps.elementsOrNone {us : List Value} {ns : Members}
    (h : shape.Keeps checked (.record ms))
    (hus : (Members.getOrNull ms name).elementsOrNone = .ok us) (hmem : .record ns ∈ us)
    (hinner : shape.member? name = some inner) (hitem : inner.item? = some item) :
    item.Keeps checked (.record ns) := by
  have hplain : Json.Plain (Members.getOrNull ms name) := by
    cases hv : Members.get? ms name with
    | none =>
      rw [Members.getOrNull_of_none hv]
      trivial
    | some v =>
      rw [Members.getOrNull_of_get? hv]
      exact (h.get hv).plain
  exact h.elements (Value.list_of_elementsOrNone hplain hus hmem) hinner hitem _ hmem

/-- A record can be kept if it has the members it must have, and all its members can. -/
theorem keeps_record (hkind : ShapeKind.object ∈ shape.kinds)
    (hrequired : ∀ name ∈ shape.required, Members.has ms (.text name) = true)
    (hd : (Members.names ms).Nodup) (h : ∀ m ∈ ms, shape.KeepsMember checked m) :
    shape.Keeps checked (.record ms) where
  plain := by
    refine ⟨hd, Json.plainMembers_iff.2 fun m hm => ?_⟩
    obtain ⟨name, hname, hkeeps⟩ := h m hm
    exact ⟨⟨name, hname⟩, hkeeps.plain⟩
  fits hchecked := by
    refine fits_record.2 ⟨⟨List.any_eq_true.2 ⟨_, hkind, rfl⟩, ?_⟩, ?_⟩
    · intro ns hns
      cases hns
      exact hrequired
    · intro name v hmem inner hinner
      obtain ⟨other, hname, hkeeps⟩ := h _ hmem
      cases hname
      exact hkeeps.fits hchecked inner hinner

theorem KeepsAt.member (h : shape.KeepsAt checked name v) :
    shape.KeepsMember checked (.text name, v) :=
  ⟨name, rfl, h⟩

theorem KeepsAt.optional (h : shape.KeepsAt checked name v) :
    ∀ m ∈ BranchForm.optional name v, shape.KeepsMember checked m := by
  by_cases hv : v = .null
  · rw [BranchForm.optional, if_pos hv]
    exact List.forall_mem_nil _
  · rw [BranchForm.optional, if_neg hv]
    exact List.forall_mem_singleton.2 h.member

end Shape

/-! ### The parts of a form -/

section Parts

variable {checked : Prop} {v : Value}

theorem Choice.keeps_encode {c : Choice} (h : Shape.choice.Keeps checked v)
    (hdecode : decode v = .ok c) : Shape.choice.Keeps checked c.encode := by
  obtain ⟨ms, raw, rfl, -, rfl⟩ := decode_inv hdecode
  have hid : Shape.choice.KeepsAt checked "optionId" (.text raw.display) :=
    Shape.keepsAt_atom trivial rfl rfl
  have hlabel : Shape.choice.KeepsAt checked "label" (Members.getD ms "label" (.text "")) :=
    h.getD (Shape.keepsAt_atom trivial rfl rfl)
  have hvalue : Shape.choice.KeepsAt checked "value" (Members.getD ms "value" (.text "")) :=
    h.getD (Shape.keepsAt_atom trivial rfl rfl)
  have himage : Shape.choice.KeepsAt checked "imageUrl"
      ((Members.getOrNull ms "imageUrl").orElse (.text "")) :=
    h.orElse (Shape.keepsAt_atom trivial rfl rfl)
  have hfield : Shape.choice.KeepsAt checked "nextFieldId"
      ((Members.getOrNull ms "nextFieldId").orElse .null) :=
    h.orElse (Shape.keepsAt_atom trivial rfl rfl)
  have hstep : Shape.choice.KeepsAt checked "nextStepId"
      ((Members.getOrNull ms "nextStepId").orElse .null) :=
    h.orElse (Shape.keepsAt_atom trivial rfl rfl)
  refine Shape.keeps_record (by decide) ?_ ?_ ?_
  · simp [Shape.required, Members.has]
  · simp only [Members.names_append]
    exact (((List.Sublist.refl _).append (Members.names_optional _ _)).append
      (Members.names_optional _ _)).nodup (by simp [Members.names])
  · simp only [List.forall_mem_append, List.forall_mem_cons]
    exact ⟨⟨⟨hid.member, hlabel.member, hvalue.member, himage.member, List.forall_mem_nil _⟩,
      hfield.optional⟩, hstep.optional⟩

theorem Condition.keeps_encode {c : Condition} (h : Shape.condition.Keeps checked v)
    (hdecode : decode v = .ok c) : Shape.condition.Keeps checked c.encode := by
  obtain ⟨ms, rfl, hvalue⟩ := decode_inv hdecode
  have hfieldId : Shape.condition.KeepsAt checked "fieldId" (.text c.fieldId) :=
    Shape.keepsAt_atom trivial rfl rfl
  have hnextStep : Shape.condition.KeepsAt checked "nextStepId" (.text c.nextStep) :=
    Shape.keepsAt_atom trivial rfl rfl
  have hvalue : Shape.condition.KeepsAt checked "value" c.value := by
    rw [hvalue]
    exact h.getD (Shape.keepsAt_atom trivial rfl rfl)
  refine Shape.keeps_record (by decide) ?_ ?_ ?_
  · simp [Shape.required, Members.has]
  · simp [Members.names]
  · simp only [List.forall_mem_cons]
    exact ⟨hfieldId.member, hvalue.member, hnextStep.member, List.forall_mem_nil _⟩

/-- The members of a field in front of its sub-fields, and its image. -/
theorem Question.keeps_encode {q : Question} {ms : Members}
    (h : Shape.field.Keeps checked (.record ms)) (hdecode : decode (.record ms) = .ok q) :
    (∀ m ∈ q.encode, Shape.field.KeepsMember checked m) ∧
      Shape.field.KeepsAt checked "imageUrl" q.image := by
  obtain ⟨ns, type, raw, us, hms, -, -, -, hus, hread, hid, hlabel, himage⟩ := decode_inv hdecode
  cases hms
  have hid : Shape.field.KeepsAt checked "fieldId" q.id := by
    rw [hid]
    exact Shape.keepsAt_atom trivial rfl rfl
  have htype : Shape.field.KeepsAt checked "type" (.text q.kind.name) :=
    Shape.keepsAt_atom trivial rfl rfl
  have hlabel : Shape.field.KeepsAt checked "label" q.label := by
    rw [hlabel]
    exact h.getD (Shape.keepsAt_atom trivial rfl rfl)
  have hrequired : Shape.field.KeepsAt checked "required" (.bool q.required) :=
    Shape.keepsAt_atom trivial rfl rfl
  have hoptions :
      Shape.field.KeepsAt checked "options" (.list (q.choices.map Choice.encode)) := by
    have hinner : Shape.field.member? "options" = some .choices := rfl
    refine Shape.keepsAt_list hinner (by decide) rfl (List.forall_mem_map.2 fun c hc => ?_)
    obtain ⟨u, hu, hread⟩ := exists_of_mapM_ok hread c hc
    obtain ⟨ns, -, rfl, -⟩ := Choice.decode_inv hread
    exact Choice.keeps_encode (h.elementsOrNone hus hu rfl rfl) hread
  refine ⟨?_, ?_⟩
  · unfold encode
    refine List.forall_mem_append.2 ⟨?_, ?_⟩
    · simp only [List.forall_mem_cons]
      exact ⟨hid.member, htype.member, hlabel.member, hrequired.member, List.forall_mem_nil _⟩
    · split
      · exact List.forall_mem_singleton.2 hoptions.member
      · exact List.forall_mem_nil _
  · rw [himage]
    exact h.getD (Shape.keepsAt_atom trivial rfl rfl)

/-- The names in the record of a field are distinct. -/
theorem Field.nodup_names_encode (q : Question) (fs : List Field) :
    (Members.names (q.encode ++ (subMembers fs ++ optional "imageUrl" q.image))).Nodup := by
  have hsub : (Members.names (subMembers fs)).Sublist [.text "subFields"] := by
    unfold subMembers
    split
    · exact List.nil_sublist _
    · exact List.Sublist.refl _
  simp only [Question.encode, Members.names_append]
  exact (((List.Sublist.refl _).append (Members.names_ite _ _)).append
    (hsub.append (Members.names_optional _ _))).nodup (by simp [Members.names])

theorem Field.keeps_encode {f : Field} (h : Shape.field.Keeps checked v)
    (hdecode : decode v = .ok f) : Shape.field.Keeps checked f.encode := by
  refine forall_of_decode (P := fun f => Shape.field.Keeps checked f.encode)
    (fun ms us hms hlist => hms.elements hlist rfl rfl) ?_ f v h hdecode
  intro ms q fs hms hq hfs
  obtain ⟨hmembers, himage⟩ := Question.keeps_encode hms hq
  have hinner : Shape.field.member? "subFields" = some .subFields := rfl
  have hsub : Shape.field.KeepsAt checked "subFields" (.list (fs.map encode)) :=
    Shape.keepsAt_list hinner (by decide) rfl (List.forall_mem_map.2 hfs)
  rw [encode_mk]
  refine Shape.keeps_record (by decide) ?_ (nodup_names_encode q fs) ?_
  · simp [Shape.required, Members.has, Question.encode]
  · refine List.forall_mem_append.2 ⟨hmembers, List.forall_mem_append.2 ⟨?_, himage.optional⟩⟩
    rw [subMembers, encodeAll_eq_map]
    split
    · exact List.forall_mem_nil _
    · exact List.forall_mem_singleton.2 hsub.member

theorem Step.keeps_encode {s : Step} (h : Shape.step.Keeps checked v)
    (hdecode : decode v = .ok s) : Shape.step.Keeps checked s.encode := by
  obtain ⟨ms, us, rfl, htitle, hfields, hdescription, hus, hconditions⟩ := decode_inv hdecode
  have hid : Shape.step.KeepsAt checked "stepId" (.text s.id) :=
    Shape.keepsAt_atom trivial rfl rfl
  have htitle : Shape.step.KeepsAt checked "title" s.title := by
    rw [htitle]
    exact h.getD (Shape.keepsAt_atom trivial rfl rfl)
  have hfields : Shape.step.KeepsAt checked "fields" (.list (s.fields.map Field.encode)) := by
    have hinner : Shape.step.member? "fields" = some .fields := rfl
    refine Shape.keepsAt_list hinner (by decide) rfl (List.forall_mem_map.2 fun f hf => ?_)
    obtain ⟨ws, hlist, w, hw, hread⟩ := Field.decodeElements_inv hfields f hf
    exact Field.keeps_encode (h.elements hlist rfl rfl w hw) hread
  have hdescription : Shape.step.KeepsAt checked "description" s.description := by
    rw [hdescription]
    exact h.getD (Shape.keepsAt_atom trivial rfl rfl)
  have hlast : Shape.step.KeepsAt checked "isLastStep" (.bool true) :=
    Shape.keepsAt_atom trivial rfl rfl
  have hconditions : Shape.step.KeepsAt checked "nextStepCondition"
      (.list (s.conditions.map Condition.encode)) := by
    have hinner : Shape.step.member? "nextStepCondition" = some .conditions := rfl
    refine Shape.keepsAt_list hinner (by decide) rfl (List.forall_mem_map.2 fun c hc => ?_)
    obtain ⟨u, hu, hread⟩ := exists_of_mapM_ok hconditions c hc
    obtain ⟨ns, rfl, -⟩ := Condition.decode_inv hread
    exact Condition.keeps_encode (h.elementsOrNone hus hu rfl rfl) hread
  have hnames : (Members.names (if s.conditions = [] then []
      else [("nextStepCondition", .list (s.conditions.map Condition.encode))])).Sublist
        [.text "nextStepCondition"] := by
    split
    · exact List.nil_sublist _
    · exact List.Sublist.refl _
  refine Shape.keeps_record (by decide) ?_ ?_ ?_
  · simp [Shape.required, Members.has]
  · simp only [Members.names_append]
    exact ((((List.Sublist.refl _).append (Members.names_optional _ _)).append
      (Members.names_ite _ _)).append hnames).nodup (by simp [Members.names])
  · simp only [List.forall_mem_append, List.forall_mem_cons]
    refine ⟨⟨⟨⟨hid.member, htitle.member, hfields.member, List.forall_mem_nil _⟩,
      hdescription.optional⟩, ?_⟩, ?_⟩
    · split
      · exact List.forall_mem_singleton.2 hlast.member
      · exact List.forall_mem_nil _
    · split
      · exact List.forall_mem_nil _
      · exact List.forall_mem_singleton.2 hconditions.member

theorem FormSettings.keeps_encode {s : FormSettings}
    (h : Shape.settings.Keeps checked (v.orElse (.record []))) (hdecode : decode v = .ok s) :
    Shape.settings.Keeps checked s.encode := by
  obtain ⟨ms, hms, rfl⟩ := decode_inv hdecode
  rw [hms] at h
  have hmessage : Shape.settings.KeepsAt checked "successMessage"
      (Members.getD ms "successMessage" (.text "")) :=
    h.getD (Shape.keepsAt_atom trivial rfl rfl)
  have hother : ∀ name, Shape.settings.member? name = none →
      Shape.settings.KeepsAt checked name (Members.getOrNull ms name) := fun name hname =>
    h.getD (Shape.keepsAt_atom trivial rfl (by rw [hname]; rfl))
  refine Shape.keeps_record (by decide) (List.forall_mem_nil _) ?_ ?_
  · simp only [Members.names_append]
    exact (((((List.Sublist.refl _).append (Members.names_optional _ _)).append
      (Members.names_optional _ _)).append (Members.names_optional _ _)).append
      (Members.names_optional _ _)).nodup (by simp [Members.names])
  · simp only [List.forall_mem_append, List.forall_mem_singleton]
    exact ⟨⟨⟨⟨hmessage.member, (hother _ rfl).optional⟩, (hother _ rfl).optional⟩,
      (hother _ rfl).optional⟩, (hother _ rfl).optional⟩

/-- The record of a form that was read can be kept wherever the record could that it was read from.
-/
theorem Form.keeps_encode {form : Form} (h : Shape.form.Keeps checked v)
    (hdecode : decode v = .ok form) : Shape.form.Keeps checked form.encode := by
  obtain ⟨ms, us, rfl, hus, hsteps, hsettings, hname, hdescription⟩ := decode_inv hdecode
  have hname : Shape.form.KeepsAt checked "name" form.name := by
    rw [hname]
    exact h.getD (Shape.keepsAt_atom trivial rfl rfl)
  have hdescription : Shape.form.KeepsAt checked "description" form.description := by
    rw [hdescription]
    exact h.getD (Shape.keepsAt_atom trivial rfl rfl)
  have hsteps : Shape.form.KeepsAt checked "steps" (.list (form.steps.map Step.encode)) := by
    have hinner : Shape.form.member? "steps" = some .steps := rfl
    refine Shape.keepsAt_list hinner (by decide) rfl (List.forall_mem_map.2 fun s hs => ?_)
    obtain ⟨u, hu, hread⟩ := exists_of_mapM_ok hsteps s hs
    obtain ⟨ns, -, rfl, -⟩ := Step.decode_inv hread
    exact Step.keeps_encode (h.elementsOrNone hus hu rfl rfl) hread
  have hempty : Shape.settings.Keeps checked (.record []) :=
    Shape.keeps_record (by decide) (List.forall_mem_nil _) List.nodup_nil (List.forall_mem_nil _)
  have hsettings : Shape.form.KeepsAt checked "settings" form.settings.encode :=
    (FormSettings.keeps_encode ((h.orElse (hempty.at rfl)).keeps rfl) hsettings).at rfl
  refine Shape.keeps_record (by decide) ?_ ?_ ?_
  · simp [Shape.required, Members.has, members]
  · simp [Members.names, members]
  · simp only [members, List.forall_mem_cons]
    exact ⟨hname.member, hdescription.member, hsteps.member, hsettings.member,
      List.forall_mem_nil _⟩

end Parts

/-! ### Stored again -/

/-- The payloads that are accepted are JSON texts of the shape of a form that can be decoded. -/
theorem decodeSource_text_iff {s : String} {form : Form} :
    decodeSource (.text s) = .ok form ↔
      ∃ v, Json.read s = .ok v ∧ Shape.form.Fits v ∧ Form.decode v = .ok form := by
  have hread : ∀ v, readPayload (.text s) = .ok v ↔ Json.read s = .ok v := by
    intro v
    rw [readPayload]
    split
    · rename_i w hw
      rw [hw, Except.ok.injEq, Except.ok.injEq]
    · rename_i reason hreason
      rw [hreason]
      constructor <;> intro hok <;> cases hok
    · rename_i hlong
      rw [hlong]
      constructor <;> intro hok <;> cases hok
  change decodePayload (.text s) id = .ok form ↔ _
  rw [decodePayload, bind_eq_ok_iff]
  refine exists_congr fun v => and_congr (hread v) ?_
  rw [← valid_checkShape_iff]
  by_cases hvalid : (checkShape v).valid = true
  · cases v <;> simp [hvalid]
  · simp [hvalid]

/-- **Storing a form that was loaded loses nothing.** Whatever a payload says that a form has no place
for is gone when the form is read; sealed again, under any category, published or not, with an id or
without, the form is taken out of the envelope and out of its body as it was. -/
theorem decodeSource_seal {s : String} {form : Form} (h : decodeSource (.text s) = .ok form)
    (category isActive id : Value) :
    (form.seal category isActive id).open = .ok form ∧
      decodeSource (form.seal category isActive id).encode = .ok form := by
  obtain ⟨v, hread, hfits, hdecode⟩ := decodeSource_text_iff.1 h
  have hkeeps : Shape.form.Keeps True form.encode :=
    Form.keeps_encode ⟨Json.plain_of_read hread, fun _ => hfits⟩ hdecode
  have hstores : Shape.form.Stores form.encode := ⟨hkeeps.fits trivial, hkeeps.plain⟩
  have hsettled : form.settle = form := (Form.settled_of_decode hdecode).2
  have hopen : (form.seal category isActive id).open = .ok form.settle :=
    Envelope.open_toJson hstores rfl
  have hsource : decodeSource (form.seal category isActive id).encode = .ok form.settle :=
    decodeSource_encode hstores rfl
  rw [hsettled] at hopen hsource
  exact ⟨hopen, hsource⟩

/-- The record of a form as an author might write it by hand: with a member that nobody knows, with
empty members and without a description. -/
def enrolmentRecord : Value :=
  .record [("version", .int 2), ("name", "Enrolment"), ("settings", .record []), ("steps", .list [
    .record [("stepId", "step1"), ("title", "Course"), ("nextStepCondition", .null), ("fields", .list [
      .record [("type", "radio"), ("fieldId", "course"), ("label", "Course"), ("options", .list [
          .record [("optionId", "art"), ("label", "Art"), ("value", "art"), ("imageUrl", .null),
            ("nextStepId", "step_final")]]),
        ("subFields", .list [
          .record [("fieldId", "level"), ("type", "text"), ("label", "Level"), ("options", .null),
            ("subFields", .null), ("required", .bool false)]])]])]])]

/-- The form that is read from it. -/
def enrolment : Form where
  name := "Enrolment"
  steps := [{ id := "step1", title := "Course", fields := [
    .mk { id := "course", kind := .radio, label := "Course", choices := [
        { id := "art", label := "Art", value := "art", nextStep := "step_final" }] }
      [.mk { id := "level", kind := .text, label := "Level", required := false } []]] }]

theorem decodeSource_seal_enrolment :
    decodeSource (.text (Json.write {} enrolmentRecord)) = .ok enrolment ∧
      (enrolment.seal "events" (.bool false) (.int 7)).open = .ok enrolment ∧
      decodeSource (enrolment.seal "events" (.bool false) (.int 7)).encode = .ok enrolment := by
  have hplain : Json.Plain enrolmentRecord := by
    simp [enrolmentRecord, Json.Plain, Json.PlainMembers, Json.PlainItems, Members.names]
    decide
  have hread : Json.read (Json.write {} enrolmentRecord) = .ok enrolmentRecord :=
    Json.read_write Json.Layout.blank_line hplain
  have hfits : Shape.form.Fits enrolmentRecord := by decide +kernel
  have hdecode : Form.decode enrolmentRecord = .ok enrolment := by rfl
  have h : decodeSource (.text (Json.write {} enrolmentRecord)) = .ok enrolment :=
    decodeSource_text_iff.2 ⟨_, hread, hfits, hdecode⟩
  exact ⟨h, decodeSource_seal h "events" (.bool false) (.int 7)⟩

end BranchForm
