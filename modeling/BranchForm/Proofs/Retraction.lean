import BranchForm.Proofs.Restored
import BranchForm.Session.State
import BranchForm.Tree.Codec

/-!
# Decoders undo encoders

Whatever a decoder makes of a value is written as a record from which the decoder makes it again.
Reading is forgiving and writing leaves members out, so this rests on each member being left out
exactly where its absence is read as the value it had.

* `OptionTree.Settled` trees are those a decoder makes: ids are texts, flags are truth values, and an
  empty image is none; `OptionTree.decode_encode` reads them back, `OptionTree.settled_of_decode` says
  that a decoder makes no others;
* `CompileSettings.decode_encode` and `CompileSettings.settled_of_decode` do the same for settings,
  whose fields are settled as those of forms are;
* `Session.decode_encode` holds of every session, since a decoder only takes its parts over;
* `Form.ofJson_toJson` goes by JSON text;
* `decoders_retract` puts them together.
-/

namespace BranchForm

/-! ### Option trees -/

/-- A node as a decoder makes it. -/
structure Node.Settled (d : Node) : Prop where
  /-- The id is a text. -/
  id : ∃ s, d.id = .text s
  /-- The flag of several choices is a truth value. -/
  multiple : ∃ b, d.multiple = .bool b
  /-- An empty image is none. -/
  image : d.image.orElse .null = d.image
  /-- The flag of what the editor shows is a truth value. -/
  expanded : ∃ b, d.expanded = .bool b

@[simp]
theorem NodeKind.ofValue?_name (k : NodeKind) : ofValue? (.text k.name) = some k := by
  cases k <;> rfl

namespace Node

/-- The members of a node in front of its children are read back. -/
theorem decode_encode {d : Node} (h : d.Settled) (children : Value) :
    decode (d.encode ++ ([("children", children)] : Members)) = .ok d := by
  obtain ⟨s, hid⟩ := h.id
  obtain ⟨b, hmultiple⟩ := h.multiple
  obtain ⟨b', hexpanded⟩ := h.expanded
  have himage := h.image
  have htruthy : ∀ b : Bool, (Value.bool b).truthy = b := fun _ => rfl
  obtain ⟨id, label, kind, multiple, image, expanded⟩ := d
  simp only at hid hmultiple hexpanded himage
  subst hid hmultiple hexpanded
  by_cases hnull : image = .null
  · have hnone : Value.null.orElse .null = .null := rfl
    simp [decode, encode, Members.getD, Members.getOrNull, Value.display, htruthy, hnull, hnone]
    rfl
  · simp [decode, encode, Members.getD, Members.getOrNull, Value.display, htruthy, hnull, himage]
    rfl

/-- A decoder makes settled nodes only. -/
theorem settled_of_decode {ms : Members} {d : Node} (h : decode ms = .ok d) : d.Settled := by
  unfold decode at h
  split at h
  · obtain ⟨names, -, herror⟩ := bind_eq_ok_iff.1 h
    cases herror
  · dsimp only at h
    split at h
    · cases h
    · cases h
      exact ⟨⟨_, rfl⟩, ⟨_, rfl⟩, Value.orElse_orElse _ _, ⟨_, rfl⟩⟩

theorem encode_names (d : Node) : ∀ m ∈ d.encode, m.1 ≠ .text "children" := by
  unfold encode
  split <;> simp

end Node

namespace OptionTree

mutual

/-- A tree of settled nodes. -/
def Settled : OptionTree → Prop
  | .node d cs => d.Settled ∧ SettledAll cs

/-- Several trees of settled nodes. -/
def SettledAll : List OptionTree → Prop
  | [] => True
  | t :: ts => Settled t ∧ SettledAll ts

end

theorem decodeChildren_append {ms ns : Members} (h : ∀ m ∈ ms, m.1 ≠ .text "children") :
    decodeChildren (ms ++ ns) = decodeChildren ns := by
  induction ms with
  | nil => rfl
  | cons m ms ih =>
    obtain ⟨name, v⟩ := m
    rw [List.cons_append, decodeChildren, if_neg (h (name, v) List.mem_cons_self),
      ih fun n hn => h n (List.mem_cons_of_mem _ hn)]

mutual

/-- A settled tree is read back from its record. -/
theorem decode_encode (t : OptionTree) (h : t.Settled) : decode t.encode = .ok t := by
  match t with
  | .node d cs =>
    have hchildren : decodeChildren (d.encode ++ ([("children", .list (encodeAll cs))] : Members)) =
        .ok cs := by
      rw [decodeChildren_append d.encode_names, decodeChildren, if_pos rfl, decodeElements]
      exact decodeAll_encodeAll cs h.2
    rw [encode, decode, Node.decode_encode h.1, ok_bind, hchildren]
    rfl

theorem decodeAll_encodeAll (ts : List OptionTree) (h : SettledAll ts) :
    decodeAll (encodeAll ts) = .ok ts := by
  match ts with
  | [] => rfl
  | t :: ts =>
    rw [encodeAll, decodeAll, decode_encode t h.1, ok_bind, decodeAll_encodeAll ts h.2]
    rfl

end

mutual

/-- A decoder makes settled trees only. -/
theorem settled_of_decode (v : Value) {t : OptionTree} (h : decode v = .ok t) : t.Settled := by
  match v with
  | .record ms =>
    rw [decode] at h
    obtain ⟨d, hd, h⟩ := bind_eq_ok_iff.1 h
    obtain ⟨cs, hcs, h⟩ := bind_eq_ok_iff.1 h
    cases h
    exact ⟨Node.settled_of_decode hd, settled_of_decodeChildren ms hcs⟩
  | .null | .bool _ | .int _ | .float _ | .text _ | .moment _ | .list _ => cases h

theorem settled_of_decodeChildren (ms : List (Value × Value)) {ts : List OptionTree}
    (h : decodeChildren ms = .ok ts) : SettledAll ts := by
  match ms with
  | [] =>
    cases h
    trivial
  | (name, v) :: ms =>
    rw [decodeChildren] at h
    split at h
    · exact settled_of_decodeElements v h
    · exact settled_of_decodeChildren ms h

theorem settled_of_decodeElements (v : Value) {ts : List OptionTree}
    (h : decodeElements v = .ok ts) : SettledAll ts := by
  match v with
  | .list vs => exact settled_of_decodeAll vs h
  | .text s =>
    rw [decodeElements] at h
    split at h
    · cases h
      trivial
    · cases h
  | .record [] =>
    cases h
    trivial
  | .record ((_, _) :: _) => cases h
  | .null | .bool _ | .int _ | .float _ | .moment _ =>
    rw [decodeElements] at h
    · split at h
      · cases h
      · cases h
        trivial
    all_goals simp

theorem settled_of_decodeAll (vs : List Value) {ts : List OptionTree}
    (h : decodeAll vs = .ok ts) : SettledAll ts := by
  match vs with
  | [] =>
    cases h
    trivial
  | v :: vs =>
    rw [decodeAll] at h
    obtain ⟨t, ht, h⟩ := bind_eq_ok_iff.1 h
    obtain ⟨us, hus, h⟩ := bind_eq_ok_iff.1 h
    cases h
    exact ⟨settled_of_decode v ht, settled_of_decodeAll vs hus⟩

end

end OptionTree

/-! ### Settings of the compiler -/

namespace CompileSettings

/-- Settings as a decoder makes them: there is a terminal field, and all are settled. -/
structure Settled (settings : CompileSettings) : Prop where
  /-- There is a terminal field. -/
  ne_nil : settings.finalFields ≠ []
  /-- The terminal fields are settled. -/
  fields : ∀ f ∈ settings.finalFields, f.Named ∧ f.settle = f

theorem settled_stock : Settled {} where
  ne_nil := List.cons_ne_nil _ _
  fields := by
    have hsettled : ∀ (name label : String) (kind : FieldKind) (required : Bool),
        (Field.mk { id := name, kind, label, required } []).Named ∧
          (Field.mk { id := name, kind, label, required } []).settle =
            Field.mk { id := name, kind, label, required } [] := fun name _ _ _ =>
      ⟨⟨⟨name, rfl⟩, List.forall_mem_nil _, trivial⟩, rfl⟩
    simp only [stockFinalFields, List.forall_mem_cons]
    exact ⟨hsettled _ _ _ _, hsettled _ _ _ _, hsettled _ _ _ _, hsettled _ _ _ _,
      List.forall_mem_nil _⟩

/-- Terminal fields that are settled are read back. -/
theorem decodeFinalFields_encode {fs : List Field} (hne : fs ≠ [])
    (hfs : ∀ f ∈ fs, f.Named ∧ f.settle = f) :
    decodeFinalFields (.list (fs.map Field.encode)) = .ok fs := by
  have hmap : fs.map Field.settle = fs.map fun f => f :=
    List.map_congr_left fun f hf => (hfs f hf).2
  have hall : Field.decodeAll (fs.map Field.encode) = .ok fs := by
    rw [← Field.encodeAll_eq_map, Field.decodeAll_encodeAll fs
      (Field.namedAll_iff.2 fun f hf => (hfs f hf).1), Field.settleAll_eq_map, hmap, List.map_id']
  rw [decodeFinalFields, Value.elementsOrNone_list, ok_bind, hall]
  cases fs with
  | nil => exact absurd rfl hne
  | cons f fs => rfl

/-- Settled settings are read back from their record. -/
theorem decode_encode {settings : CompileSettings} (h : settings.Settled) :
    decode settings.encode = .ok settings := by
  have hfields := decodeFinalFields_encode h.ne_nil h.fields
  have htruthy : settings.encode.truthy = true := rfl
  have hmembers : decode settings.encode = ofMembers [("entry_field_id", settings.entryFieldId),
      ("entry_field_label", settings.entryFieldLabel),
      ("branch_title_template", settings.branchTitle),
      ("branch_field_label_template", settings.branchFieldLabel),
      ("final_step_title", settings.finalTitle),
      ("final_fields", .list (settings.finalFields.map Field.encode)),
      ("description_template", settings.description),
      ("success_message_template", settings.successMessage),
      ("untitled_name", settings.untitledName),
      ("empty_description", settings.emptyDescription),
      ("empty_success_message", settings.emptySuccessMessage)] := by
    unfold decode
    rw [if_pos htruthy]
    rfl
  rw [hmembers]
  simp [ofMembers, Members.names, settingNames, Members.getD, hfields]

theorem settled_of_decodeFinalFields {v : Value} {fs : List Field}
    (h : decodeFinalFields v = .ok fs) : fs ≠ [] ∧ ∀ f ∈ fs, f.Named ∧ f.settle = f := by
  unfold decodeFinalFields at h
  dsimp only at h
  split at h
  · cases h
  · rename_i gs hne hread
    cases h
    obtain ⟨vs, -, hread⟩ := bind_eq_ok_iff.1 hread
    rw [Field.decodeAll_eq_mapM] at hread
    refine ⟨fun hnil => hne hnil, fun f hf => ?_⟩
    obtain ⟨u, -, hread⟩ := exists_of_mapM_ok hread f hf
    exact Field.settled_of_decode hread
  · cases h

/-- A decoder makes settled settings only. -/
theorem settled_of_decode {v : Value} {settings : CompileSettings} (h : decode v = .ok settings) :
    settings.Settled := by
  unfold decode at h
  split at h
  · cases v with
    | record ms =>
      change ofMembers ms = .ok settings at h
      unfold ofMembers at h
      dsimp only at h
      split at h
      · split at h
        · cases h
          exact ⟨settled_stock.ne_nil, settled_stock.fields⟩
        · obtain ⟨fs, hfs, h⟩ := bind_eq_ok_iff.1 h
          cases h
          obtain ⟨hne, hall⟩ := settled_of_decodeFinalFields hfs
          exact ⟨hne, hall⟩
      · obtain ⟨keys, -, h⟩ := bind_eq_ok_iff.1 h
        obtain ⟨sorted, -, h⟩ := bind_eq_ok_iff.1 h
        obtain ⟨names, -, h⟩ := bind_eq_ok_iff.1 h
        obtain ⟨available, -, h⟩ := bind_eq_ok_iff.1 h
        cases h
    | _ => cases h
  · cases h
    exact settled_stock

end CompileSettings

/-! ### Sessions -/

theorem Transition.decode_encode (t : Transition) : decode t.encode = .ok t := by
  simp [decode, encode, memberNames, Members.names, Members.has, Members.getOrNull, Members.getD]

/-- A session is read back from its record. -/
theorem Session.decode_encode {s : Session} (h : ∃ b, s.completed = .bool b) :
    decode s.encode = .ok s := by
  obtain ⟨b, hcompleted⟩ := h
  have htransitions :
      (s.transitions.map Transition.encode).mapM Transition.decode = .ok s.transitions := by
    have hall := mapM_map_ok fun t (_ : t ∈ s.transitions) => Transition.decode_encode t
    rwa [List.map_id'] at hall
  have htruthy : (Value.bool b).truthy = b := rfl
  obtain ⟨current, path, answers, history, completed, transitions⟩ := s
  obtain rfl : completed = .bool b := hcompleted
  simp [decode, encode, Value.need, Value.get, Members.getD, Value.elements, Value.asMembers,
    htransitions, htruthy]

theorem Session.completed_of_decode {v : Value} {s : Session} (h : decode v = .ok s) :
    ∃ b, s.completed = .bool b := by
  obtain ⟨current, -, h⟩ := bind_eq_ok_iff.1 h
  obtain ⟨rawPath, -, h⟩ := bind_eq_ok_iff.1 h
  obtain ⟨path, -, h⟩ := bind_eq_ok_iff.1 h
  obtain ⟨rawAnswers, -, h⟩ := bind_eq_ok_iff.1 h
  obtain ⟨answers, -, h⟩ := bind_eq_ok_iff.1 h
  obtain ⟨rawHistory, -, h⟩ := bind_eq_ok_iff.1 h
  obtain ⟨history, -, h⟩ := bind_eq_ok_iff.1 h
  obtain ⟨completed, -, h⟩ := bind_eq_ok_iff.1 h
  obtain ⟨rawTransitions, -, h⟩ := bind_eq_ok_iff.1 h
  obtain ⟨us, -, h⟩ := bind_eq_ok_iff.1 h
  obtain ⟨transitions, -, h⟩ := bind_eq_ok_iff.1 h
  cases h
  exact ⟨_, rfl⟩

/-! ### JSON text -/

/-- The layouts that a caller can ask for by a number, or by asking for none, set the parts of a text
apart by blanks only. -/
theorem Json.Layout.exists_of_count {indent : Value}
    (h : indent = .null ∨ ∃ n, indent.asNumber = .int n) :
    ∃ layout, ofIndent indent = .ok layout ∧ layout.Blank := by
  obtain rfl | ⟨n, hn⟩ := h
  · exact ⟨{}, rfl, blank_line⟩
  · have hlayout : ofIndent indent =
        .ok { indent := some (String.ofList (List.replicate n.toNat ' ')) } := by
      cases indent with
      | null | text => cases hn
      | _ =>
        simp only [ofIndent, Value.asCount, hn]
        rfl
    refine ⟨_, hlayout, fun blanks hblanks c hc => ?_⟩
    obtain rfl : String.ofList (List.replicate n.toNat ' ') = blanks := Option.some.inj hblanks
    rw [String.toList_ofList] at hc
    obtain rfl : c = ' ' := List.eq_of_mem_replicate hc
    rfl

/-- A form that was read from a plain value is read back from its own text. -/
theorem Form.ofJson_toJson {v : Value} {form : Form} (hv : Json.Plain v)
    (h : decode v = .ok form) {layout : Json.Layout} (hlayout : layout.Blank) :
    ofJson (form.toJson layout) = .ok form := by
  have hplain : Json.Plain form.encode :=
    (Form.keeps_encode ⟨hv, False.elim⟩ h).plain
  have hread : Json.read (form.toJson layout) = .ok form.encode := Json.read_write hlayout hplain
  obtain ⟨hnamed, hsettle⟩ := Form.settled_of_decode h
  rw [ofJson, hread]
  dsimp only
  rw [Form.decode_encode hnamed, hsettle]

/-! ### All of them -/

/-- **Reading undoes writing on whatever was read.** A decoder accepts the record of every value it
has made and makes the same value of it again: for option trees, for forms, for settings of the
compiler and for sessions. Forms are also read back from JSON text, in whatever layout a number of
blanks or none asks for, when the value they were read from is one that JSON text can say. -/
theorem decoders_retract :
    (∀ v t, OptionTree.decode v = .ok t → OptionTree.decode t.encode = .ok t) ∧
    (∀ v form, Form.decode v = .ok form → Form.decode form.encode = .ok form) ∧
    (∀ v form, Json.Plain v → Form.decode v = .ok form →
      ∀ indent, (indent = .null ∨ ∃ n, indent.asNumber = .int n) →
        ∃ layout, Json.Layout.ofIndent indent = .ok layout ∧
          Form.ofJson (form.toJson layout) = .ok form) ∧
    (∀ v settings, CompileSettings.decode v = .ok settings →
      CompileSettings.decode settings.encode = .ok settings) ∧
    (∀ v s, Session.decode v = .ok s → Session.decode s.encode = .ok s) := by
  refine ⟨?tree, ?form, ?json, ?settings, ?session⟩
  case tree =>
    intro v t h
    exact t.decode_encode (OptionTree.settled_of_decode v h)
  case form =>
    intro v form h
    obtain ⟨hnamed, hsettle⟩ := Form.settled_of_decode h
    rw [Form.decode_encode hnamed, hsettle]
  case json =>
    intro v form hv h indent hindent
    obtain ⟨layout, hlayout, hblank⟩ := Json.Layout.exists_of_count hindent
    exact ⟨layout, hlayout, Form.ofJson_toJson hv h hblank⟩
  case settings =>
    intro v settings h
    exact CompileSettings.decode_encode (CompileSettings.settled_of_decode h)
  case session =>
    intro v s h
    exact Session.decode_encode (Session.completed_of_decode h)

/-- A tree in the older form, with a number for an id, an empty image and a flag that is none. -/
def olderTree : Value :=
  .record [("id", .int 7), ("type", "root"), ("children", .list [
    .record [("id", "a"), ("imageUrl", ""), ("isExpanded", .null), ("label", .bool true)]])]

/-- A form with blank targets, lists that are null and a member that nobody knows. -/
def blankForm : Value :=
  .record [("name", "Blank"), ("colour", "red"), ("settings", .null), ("steps", .list [
    .record [("stepId", .bool true), ("nextStepCondition", .null), ("fields", .list [
      .record [("fieldId", "f"), ("type", "radio"), ("label", "F"), ("subFields", .null),
        ("imageUrl", ""), ("required", .int 0), ("options", .list [
          .record [("optionId", "x"), ("nextStepId", "")]])]])]])]

/-- Settings with a terminal field of their own. -/
def ownFields : Value :=
  .record [("final_step_title", .int 3), ("final_fields", .list [
    .record [("fieldId", "mail"), ("type", "email"), ("label", "Mail"), ("options", .list [])]])]

/-- A session that has hardly begun. -/
def earlySession : Value :=
  .record [("current_step_id", "step1"), ("values", .record [("f", "x")]), ("history", "ab"),
    ("completed", .int 1)]

theorem decoders_retract_by_hand :
    (∃ t, OptionTree.decode olderTree = .ok t ∧ OptionTree.decode t.encode = .ok t) ∧
    (∃ form, Form.decode blankForm = .ok form ∧ Form.decode form.encode = .ok form ∧
      ∃ layout, Json.Layout.ofIndent (.int 2) = .ok layout ∧
        Form.ofJson (form.toJson layout) = .ok form) ∧
    (∃ settings, CompileSettings.decode ownFields = .ok settings ∧
      CompileSettings.decode settings.encode = .ok settings) ∧
    (∃ s, Session.decode earlySession = .ok s ∧ Session.decode s.encode = .ok s) := by
  obtain ⟨htree, hform, hjson, hsettings, hsession⟩ := decoders_retract
  have hplain : Json.Plain blankForm := by
    simp [blankForm, Json.Plain, Json.PlainMembers, Json.PlainItems, Members.names]
    decide
  have holder : ∃ t, OptionTree.decode olderTree = .ok t := ⟨_, rfl⟩
  have hblank : ∃ form, Form.decode blankForm = .ok form := ⟨_, rfl⟩
  have hown : ∃ settings, CompileSettings.decode ownFields = .ok settings := ⟨_, rfl⟩
  have hearly : ∃ s, Session.decode earlySession = .ok s := ⟨_, rfl⟩
  obtain ⟨t, ht⟩ := holder
  obtain ⟨form, hread⟩ := hblank
  obtain ⟨settings, hs⟩ := hown
  obtain ⟨s, hs'⟩ := hearly
  exact ⟨⟨t, ht, htree _ t ht⟩,
    ⟨form, hread, hform _ form hread, hjson _ form hplain hread (.int 2) (.inr ⟨2, rfl⟩)⟩,
    ⟨settings, hs, hsettings _ settings hs⟩, ⟨s, hs', hsession _ s hs'⟩⟩

end BranchForm
