import BranchForm.Proofs.RoundTrip
import BranchForm.Proofs.Shapes
import BranchForm.Store.Envelope

/-!
# Compiling, storing and loading

A compiled form is stored as text and loaded as the tree it was compiled from.

* `Node.Storable` and `CompileSettings.Storable` are what the storage asks of a tree and of
  settings;
* `stores_childChoice`, `stores_choiceField`, `stores_step` and `stores_form` : the parts of a
  compiled form can be stored;
* `kept_branch` and `kept_choices` : so can the steps of a whole tree, and they come back as they
  are;
* `decodePayload_toJson` and `Envelope.decode_encode` : payloads and envelopes are read back;
* `loadTree_seal_of_compile` : what was stored is loaded, from wherever the payload stands.
-/

namespace BranchForm

/-! ### The parts of a compiled form -/

theorem fillLabel_inv {template label filled : Value} (h : fillLabel template label = .ok filled) :
    (∃ s, label = .text s) ∧ ∃ s, filled = .text s := by
  simp only [fillLabel, bind_eq_ok_iff] at h
  obtain ⟨_, -, s, hs, _, -, hfilled⟩ := h
  exact ⟨⟨s, Value.asText_inv hs⟩, _, (Except.ok.inj hfilled).symm⟩

/-- A node as it can be stored: its id is a text, and so is its image if it has one. -/
structure Node.Storable (d : Node) : Prop where
  /-- The id is a text. -/
  id : ∃ s, d.id = .text s
  /-- The image is a text, if there is one. -/
  image : d.image.truthy = true → ∃ s, d.image = .text s

theorem stores_childChoice {d : Node} (hd : d.Storable) {label value : String}
    (hlabel : d.label = .text label) (target : String) :
    Shape.choice.Stores (childChoice d (.text value) target).encode := by
  obtain ⟨id, hid⟩ := hd.id
  obtain ⟨image, himage⟩ : ∃ image, d.image.orElse (.text "") = .text image := by
    by_cases htruthy : d.image.truthy = true
    · rw [Value.orElse, if_pos htruthy]
      exact hd.image htruthy
    · rw [Value.orElse, if_neg htruthy]
      exact ⟨"", rfl⟩
  have hencode : (childChoice d (.text value) target).encode = .record [("optionId", .text id),
      ("label", .text label), ("value", .text value), ("imageUrl", .text image),
      ("nextFieldId", .text target)] := by
    simp [childChoice, Choice.encode, hid, hlabel, himage, optional]
  rw [hencode]
  refine Shape.stores_record (by decide) ?_ ?_ ?_
  · simp [Shape.required, Members.has]
  · simp [Members.names]
  · simp only [List.forall_mem_cons]
    exact ⟨⟨_, _, rfl, rfl, Shape.stores_text⟩, ⟨_, _, rfl, rfl, Shape.stores_text⟩,
      ⟨_, _, rfl, rfl, Shape.stores_text⟩, ⟨_, _, rfl, rfl, Shape.stores_optionalText⟩,
      ⟨_, _, rfl, rfl, Shape.stores_optionalText⟩, List.forall_mem_nil _⟩

/-- A field of choices without sub-fields. -/
theorem stores_choiceField {q : Question} {id label : String} (hid : q.id = .text id)
    (hlabel : q.label = .text label) (hkind : q.kind.isChoice = true) (himage : q.image = .null)
    (hchoices : ∀ c ∈ q.choices, Shape.choice.Stores c.encode) :
    Shape.field.Stores (Field.mk q []).encode := by
  have hencode : (Field.mk q []).encode = .record [("fieldId", .text id),
      ("type", .text q.kind.name), ("label", .text label), ("required", .bool q.required),
      ("options", .list (q.choices.map Choice.encode))] := by
    simp [Field.encode, Field.encodeAll, Question.encode, hid, hlabel, hkind, himage, optional]
  rw [hencode]
  refine Shape.stores_record (by decide) ?_ ?_ ?_
  · simp [Shape.required, Members.has]
  · simp [Members.names]
  · simp only [List.forall_mem_cons]
    exact ⟨⟨_, _, rfl, rfl, Shape.stores_text⟩, ⟨_, _, rfl, rfl, Shape.stores_text⟩,
      ⟨_, _, rfl, rfl, Shape.stores_text⟩, ⟨_, _, rfl, rfl, Shape.stores_mark⟩,
      ⟨_, _, rfl, rfl, Shape.stores_list (by decide) rfl (List.forall_mem_map.2 hchoices)⟩,
      List.forall_mem_nil _⟩

/-- A step without a description and without conditions. -/
theorem stores_step {s : Step} {title : String} (htitle : s.title = .text title)
    (hdescription : s.description = .null) (hconditions : s.conditions = [])
    (hfields : ∀ f ∈ s.fields, Shape.field.Stores f.encode) : Shape.step.Stores s.encode := by
  have htext : s.encode = .record (([("stepId", .text s.id), ("title", .text title),
      ("fields", .list (s.fields.map Field.encode))] : Members) ++
      (if s.isLast then [("isLastStep", .bool true)] else [] : Members)) := by
    simp [Step.encode, htitle, hdescription, hconditions, optional]
  have hlast : ∀ m ∈ (if s.isLast then [("isLastStep", .bool true)] else [] : Members),
      Shape.step.StoresMember m := by
    split
    · exact List.forall_mem_singleton.2 ⟨_, _, rfl, rfl, Shape.stores_mark⟩
    · exact List.forall_mem_nil _
  rw [htext]
  refine Shape.stores_record (by decide) ?_ ?_ ?_
  · simp [Shape.required, Members.has]
  · split <;> simp [Members.names]
  · simp only [List.cons_append, List.nil_append, List.forall_mem_cons]
    exact ⟨⟨_, _, rfl, rfl, Shape.stores_text⟩, ⟨_, _, rfl, rfl, Shape.stores_text⟩,
      ⟨_, _, rfl, rfl, Shape.stores_list (by decide) rfl (List.forall_mem_map.2 hfields)⟩, hlast⟩

/-- A form that says nothing but its message in its settings. -/
theorem stores_form {form : Form} {name description message : String}
    (hname : form.name = .text name) (hdescription : form.description = .text description)
    (hsettings : form.settings = { successMessage := .text message })
    (hsteps : ∀ s ∈ form.steps, Shape.step.Stores s.encode) : Shape.form.Stores form.encode := by
  have hmessage : Shape.settings.Stores form.settings.encode := by
    rw [hsettings]
    refine Shape.stores_record (by decide) (List.forall_mem_nil _) (List.pairwise_singleton _ _) ?_
    exact List.forall_mem_singleton.2 ⟨_, _, rfl, rfl, Shape.stores_text⟩
  rw [Form.encode, Form.members, hname, hdescription]
  refine Shape.stores_record (by decide) ?_ ?_ ?_
  · simp [Shape.required, Members.has]
  · simp [Members.names]
  · simp only [List.forall_mem_cons]
    exact ⟨⟨_, _, rfl, rfl, Shape.stores_text⟩, ⟨_, _, rfl, rfl, Shape.stores_text⟩,
      ⟨_, _, rfl, rfl, Shape.stores_list (by decide) rfl (List.forall_mem_map.2 hsteps)⟩,
      ⟨_, _, rfl, rfl, hmessage⟩, List.forall_mem_nil _⟩

/-! ### The steps of a tree -/

theorem settle_childChoice (d : Node) (value : Value) {target : String} (h : target ≠ "") :
    (childChoice d value target).settle = childChoice d value target := by
  have htarget : (Value.text target).orElse .null = .text target := by
    simp [Value.orElse, Value.truthy, h]
  have hnone : Value.null.orElse .null = .null := rfl
  simp [Choice.settle, childChoice, Value.orElse_orElse, hnone, htarget]

/-- A field without sub-fields is settled if its choices are. -/
theorem settle_field {q : Question} (h : ∀ c ∈ q.choices, c.settle = c) :
    (Field.mk q []).settle = Field.mk q [] := by
  have hchoices : q.choices.map Choice.settle = q.choices :=
    (List.map_congr_left h).trans q.choices.map_id'
  simp [Field.settle, Field.settleAll, Question.settle, hchoices]

/-- A choice that can be stored and comes back as it is. -/
structure Choice.Kept (c : Choice) : Prop where
  /-- The choice can be stored. -/
  stores : Shape.choice.Stores c.encode
  /-- It is settled. -/
  settle_eq : c.settle = c

/-- A step that can be stored and comes back as it is. -/
structure Step.Kept (s : Step) : Prop where
  /-- The step can be stored. -/
  stores : Shape.step.Stores s.encode
  /-- It is settled. -/
  settle_eq : s.settle = s

/-- A step that asks for one of several choices is kept if they are. -/
theorem Step.kept_of_choices {s : Step} {q : Question} {title id label : String}
    (hfields : s.fields = [.mk q []]) (htitle : s.title = .text title)
    (hdescription : s.description = .null) (hconditions : s.conditions = [])
    (hid : q.id = .text id) (hlabel : q.label = .text label) (hkind : q.kind.isChoice = true)
    (himage : q.image = .null) (hchoices : ∀ c ∈ q.choices, c.Kept) : s.Kept where
  stores := by
    refine stores_step htitle hdescription hconditions ?_
    rw [hfields, List.forall_mem_singleton]
    exact stores_choiceField hid hlabel hkind himage fun c hc => (hchoices c hc).stores
  settle_eq := by
    rw [Step.settle, hfields, List.map_singleton,
      settle_field fun c hc => (hchoices c hc).settle_eq, ← hfields]

theorem isChoice_branchKind (multiple : Value) :
    (if multiple.truthy then FieldKind.checkbox else .radio).isChoice = true := by
  split <;> rfl

mutual

theorem kept_branch {settings : CompileSettings} {n : Nat} {t : OptionTree} {out : Compiled String}
    (hnodes : ∀ u ∈ t.preorder, u.data.Storable) (h : compileBranch settings n t = .ok out) :
    out.result ≠ "" ∧ ∀ s ∈ out.steps, s.Kept := by
  match t with
  | .node d [] =>
    cases h
    exact ⟨show finalStepId ≠ "" by decide, List.forall_mem_nil _⟩
  | .node d (c :: cs) =>
    obtain ⟨title, label, inner, htitle, hlabel, -, hinner, rfl⟩ := compileBranch_inv h
    obtain ⟨title, rfl⟩ := (fillLabel_inv htitle).2
    obtain ⟨label, rfl⟩ := (fillLabel_inv hlabel).2
    obtain ⟨hchoices, hsteps⟩ := kept_choices
      (fun u hu => hnodes u (List.mem_cons_of_mem _ hu)) hinner
    refine ⟨branchStepId_ne_empty n d.id, fun s hs => ?_⟩
    rcases List.mem_append.1 hs with hs | hs
    · exact hsteps s hs
    · rw [List.mem_singleton.1 hs]
      exact Step.kept_of_choices rfl rfl rfl rfl rfl rfl (isChoice_branchKind _) rfl hchoices

theorem kept_choices {settings : CompileSettings} {n : Nat} {ts : List OptionTree}
    {out : Compiled (List Choice)} (hnodes : ∀ u ∈ OptionTree.preorderAll ts, u.data.Storable)
    (h : compileChoices settings n ts = .ok out) :
    (∀ c ∈ out.result, c.Kept) ∧ ∀ s ∈ out.steps, s.Kept := by
  match ts with
  | [] =>
    cases h
    exact ⟨List.forall_mem_nil _, List.forall_mem_nil _⟩
  | t :: ts =>
    obtain ⟨value, branch, others, hvalue, hbranch, hothers, rfl⟩ := compileChoices_inv h
    obtain ⟨label, hlabel, rfl⟩ := labelSlug_inv hvalue
    obtain ⟨hresult, hfirst⟩ := kept_branch
      (fun u hu => hnodes u (List.mem_append_left _ hu)) hbranch
    obtain ⟨hchoices, hrest⟩ := kept_choices
      (fun u hu => hnodes u (List.mem_append_right _ hu)) hothers
    have hd : t.data.Storable :=
      hnodes t (List.mem_append_left _ (t.preorder_eq_cons ▸ List.mem_cons_self))
    exact ⟨List.forall_mem_cons.2 ⟨⟨stores_childChoice hd hlabel _, settle_childChoice _ _ hresult⟩,
      hchoices⟩, List.forall_mem_append.2 ⟨hfirst, hrest⟩⟩

end

/-! ### Whole forms -/

/-- Settings as their texts can be stored. What is made from a label is a text anyway. -/
structure CompileSettings.Storable (settings : CompileSettings) : Prop where
  /-- The id of the entry step's field is a text. -/
  entryFieldId : ∃ s, settings.entryFieldId = .text s
  /-- The label of the entry step's field is a text. -/
  entryFieldLabel : ∃ s, settings.entryFieldLabel = .text s
  /-- The title of the terminal step is a text. -/
  finalTitle : ∃ s, settings.finalTitle = .text s
  /-- The fields of the terminal step have the shape of fields, and JSON text keeps them. -/
  finalFields : ∀ f ∈ settings.finalFields, Shape.field.Stores f.encode

/-- The stock settings can be stored. -/
theorem storable_stock : CompileSettings.Storable {} where
  entryFieldId := ⟨_, rfl⟩
  entryFieldLabel := ⟨_, rfl⟩
  finalTitle := ⟨_, rfl⟩
  finalFields f hf := by
    refine ⟨?_, ?_⟩
    · revert f
      decide
    · have hfields : ∀ f ∈ stockFinalFields, Json.Plain f.encode := by
        simp [stockFinalFields, Field.encode, Field.encodeAll, Question.encode, FieldKind.isChoice,
          optional, Json.Plain, Json.PlainMembers, Members.names]
      exact hfields f hf

/-- The settings with settled fields on the terminal step. -/
def CompileSettings.settle (settings : CompileSettings) : CompileSettings :=
  { settings with finalFields := settings.finalFields.map Field.settle }

/-- The form of a tree can be stored, and what comes back is arranged in the same way: only the
fields of the terminal step are settled. -/
theorem Form.stores_of_compile {settings : CompileSettings} {root : Node} {c : OptionTree}
    {cs : List OptionTree} {form : Form} (hsettings : settings.Storable)
    (hnodes : ∀ u ∈ OptionTree.preorderAll (c :: cs), u.data.Storable)
    (h : compile settings (some (.node root (c :: cs))) = .ok form) :
    Shape.form.Stores form.encode ∧
      ∃ inner, compileChoices settings firstBranchNumber (c :: cs) = .ok inner ∧
        form.settle.Arranged settings.settle root inner.result inner.steps := by
  obtain ⟨inner, description, message, -, hinner, hdescription, hmessage, rfl⟩ := compile_inv h
  obtain ⟨⟨name, hname⟩, description, rfl⟩ := fillLabel_inv hdescription
  obtain ⟨message, rfl⟩ := (fillLabel_inv hmessage).2
  obtain ⟨fieldId, hfieldId⟩ := hsettings.entryFieldId
  obtain ⟨fieldLabel, hfieldLabel⟩ := hsettings.entryFieldLabel
  obtain ⟨title, htitle⟩ := hsettings.finalTitle
  obtain ⟨hchoices, hsteps⟩ := kept_choices hnodes hinner
  have hentry : (entryStep settings root inner.result).Kept :=
    Step.kept_of_choices rfl hname rfl rfl hfieldId hfieldLabel rfl rfl hchoices
  constructor
  · refine stores_form hname rfl rfl ?_
    rw [List.cons_append, List.forall_mem_cons, List.forall_mem_append, List.forall_mem_singleton]
    exact ⟨hentry.stores, fun s hs => (hsteps s hs).stores,
      stores_step htitle rfl rfl hsettings.finalFields⟩
  · obtain ⟨hlaid, hleads⟩ := laid_choices hinner
    refine ⟨inner, hinner, rfl, ?_, ⟨_, hlaid⟩, hleads⟩
    have hbranches : inner.steps.map Step.settle = inner.steps :=
      (List.map_congr_left fun s hs => (hsteps s hs).settle_eq).trans inner.steps.map_id'
    simp only [Form.settle, List.cons_append, List.map_cons, List.map_append, hbranches,
      hentry.settle_eq]
    rfl

/-! ### Payloads and envelopes -/

/-- The text of a form that can be stored is read back, whatever an envelope fills in, if nothing is
missing. -/
theorem decodePayload_toJson {form : Form} (h : Shape.form.Stores form.encode)
    {complete : Members → Members} (hcomplete : complete form.members = form.members) :
    decodePayload (.text (form.toJson {})) complete = .ok form.settle := by
  have hread : Json.read (Json.write {} form.encode) = .ok (.record form.members) :=
    Json.read_write Json.Layout.blank_line h.plain
  have hvalid : (checkShape (.record form.members)).valid = true := by
    have hnone : violations .form [] (.record form.members) = [] := h.fits
    simp [checkShape, hnone, Report.concat, Report.ok]
  have hpayload : readPayload (.text (form.toJson {})) = .ok (.record form.members) := by
    simp only [readPayload, Form.toJson, hread]
  rw [decodePayload, hpayload, ok_bind, if_pos hvalid]
  dsimp only
  rw [hcomplete]
  exact Form.decode_encode (Form.named_of_fits h.fits)

theorem Category.coerce_number (c : Category) : coerce (.int c.number) = c := by
  cases c <;> rfl

/-- An envelope is read back from its body; what it said of being published becomes a truth value,
and an embedded payload a text. -/
theorem Envelope.decode_encode (e : Envelope) :
    decode e.encode =
      .ok { e with payload := payloadText e.payload, isActive := .bool e.isActive.truthy } := by
  simp [decode, encode, Value.contains, Value.need, Value.get, Value.getOrNull, Members.has,
    Members.getD, Category.coerce_number]

/-- An envelope with the text of a form lends nothing to it: the form has a name and a description.
-/
theorem Envelope.open_toJson {form : Form} (h : Shape.form.Stores form.encode) {e : Envelope}
    (hpayload : e.payload = .text (form.toJson {})) : e.open = .ok form.settle := by
  rw [Envelope.open, hpayload]
  exact decodePayload_toJson h (by simp [withDefault, Form.members, Members.has])

/-- A body is opened through its envelope. -/
theorem decodeSource_encode {form : Form} (h : Shape.form.Stores form.encode) {e : Envelope}
    (hpayload : Envelope.payloadText e.payload = .text (form.toJson {})) :
    decodeSource e.encode = .ok form.settle := by
  have hdecode := Envelope.decode_encode e
  rw [Envelope.encode] at hdecode ⊢
  rw [decodeSource, hdecode, ok_bind]
  exact Envelope.open_toJson h hpayload

/-- **Storing loses nothing but what compiling loses.** The tree that was compiled is loaded in its
normal form, under the root's stock id; and whether the form is taken out of the envelope, its body,
its payload alone or a body that embeds the payload, it is the same form. -/
theorem loadTree_seal_of_compile {settings : CompileSettings} {t : OptionTree} {form : Form}
    (hchildren : t.children ≠ [])
    (hnodes : ∀ u ∈ OptionTree.preorderAll t.children, u.data.Storable)
    (hd : (defaultRootId :: t.idsBelow).Nodup) (hsettings : settings.Storable)
    (h : compile settings (some t) = .ok form) (category isActive id : Value) :
    loadTree (form.seal category isActive id).encode =
        { outcome := .ok (some (t.normalRoot defaultRootId)) } ∧
      (form.seal category isActive id).open = .ok form.settle ∧
      decodeSource (form.seal category isActive id).encode = .ok form.settle ∧
      decodeSource (form.seal category isActive id).payload = .ok form.settle ∧
      decodeSource
        ({ form.seal category isActive id with payload := form.encode } : Envelope).encode =
          .ok form.settle := by
  obtain ⟨root, cs⟩ := t
  obtain ⟨c, cs, rfl⟩ := List.exists_cons_of_ne_nil hchildren
  obtain ⟨hstores, inner, hinner, harranged⟩ := Form.stores_of_compile hsettings hnodes h
  have hbody : decodeSource (form.seal category isActive id).encode = .ok form.settle :=
    decodeSource_encode hstores rfl
  refine ⟨?_, Envelope.open_toJson hstores rfl, hbody, decodePayload_toJson hstores rfl,
    decodeSource_encode hstores rfl⟩
  have hids : ∀ i ∈ (OptionTree.node root (c :: cs)).idsBelow, ∃ s, i = .text s := by
    intro i hi
    obtain ⟨u, hu, rfl⟩ := List.mem_map.1 hi
    exact (hnodes u hu).id
  obtain ⟨ss, hss⟩ := Value.exists_texts hids
  obtain ⟨out, hout, hnil⟩ := repeatedIds_cons_texts defaultRootId ss
  rw [← hss] at hout hnil
  have hreopen := harranged.reopen_eq hinner defaultRootId
  rw [hout, hnil.2 hd] at hreopen
  rw [loadTree, hbody, openStored, openForm, hreopen]
  rfl

theorem loadTree_showroom :
    ∃ form, compile {} (some showroom) = .ok form ∧
      loadTree (form.seal "finance" (.bool false) (.int 7)).encode = { outcome := .ok (some
        (.node { id := "root-1", label := "Form", kind := .root }
          [.node { id := "vehicles", label := "Vehicles", multiple := .bool true }
            [.node { id := "car", label := "Car", image := "car.png" } [],
              .node { id := "bike", label := "Bike" } []]])) } ∧
      (form.seal "finance" (.bool false) (.int 7)).open = .ok form.settle ∧
      decodeSource (form.seal "finance" (.bool false) (.int 7)).payload = .ok form.settle := by
  obtain ⟨form, hform⟩ : ∃ form, compile {} (some showroom) = .ok form := ⟨_, by cbv⟩
  have hchildren : showroom.children ≠ [] := List.cons_ne_nil _ _
  have hnodes : ∀ u ∈ OptionTree.preorderAll showroom.children, u.data.Storable := by
    simp only [showroom, OptionTree.children, OptionTree.preorderAll, OptionTree.preorder,
      List.append_nil, List.cons_append, List.nil_append, List.forall_mem_cons, OptionTree.data]
    have hnone : ¬ Value.null.truthy = true := Bool.false_ne_true
    have hempty : ¬ (Value.text "").truthy = true := Bool.false_ne_true
    exact ⟨⟨⟨_, rfl⟩, fun h => absurd h hempty⟩, ⟨⟨_, rfl⟩, fun _ => ⟨_, rfl⟩⟩,
      ⟨⟨_, rfl⟩, fun h => absurd h hnone⟩, List.forall_mem_nil _⟩
  obtain ⟨hload, hopen, -, hpayload, -⟩ := loadTree_seal_of_compile hchildren hnodes (by decide)
    storable_stock hform "finance" (.bool false) (.int 7)
  exact ⟨form, hform, hload, hopen, hpayload⟩

end BranchForm
