import BranchForm.Proofs.Codec
import BranchForm.Proofs.Decoding

/-!
# What decoders make

A decoder looks a few members of a record up and makes a part of a form of them. What it makes is
settled: ids are texts, an empty image is the empty text, and a target that is empty is no value. So
it is read back from its record as it is.

* `Choice.decode_inv`, `Question.decode_inv`, `Field.decode_inv`, `Condition.decode_inv`,
  `Step.decode_inv`, `FormSettings.decode_inv` and `Form.decode_inv` say all that a decoder can make,
  and of what;
* `Field.forall_of_decode` carries a property from what stands in the record of a field to the field
  that is read, at every depth;
* `Choice.settled_of_decode`, `Field.settled_of_decode`, `Step.settled_of_decode` and
  `Form.settled_of_decode` : what is read is settled.
-/

namespace BranchForm

/-! ### Members that are looked up -/

namespace Value

variable {v w : Value}

theorem require_inv {key part : String} (h : v.require key part = .ok w) :
    ∃ ms, v = .record ms ∧ Members.get? ms key = some w := by
  cases v with
  | record ms =>
    refine ⟨ms, rfl, ?_⟩
    simp only [require] at h
    split at h
    · rename_i u hu
      exact hu.trans (congrArg some (Except.ok.inj h))
    · obtain ⟨names, -, herror⟩ := bind_eq_ok_iff.1 h
      cases herror
  | _ => cases h

theorem asLabel_inv {s : String} (h : v.asLabel = .ok s) : s = v.display := by
  unfold asLabel at h
  split at h
  · exact (Except.ok.inj h).symm
  · cases h

theorem get_inv {name : String} {alternative : Value} (h : v.get name alternative = .ok w) :
    ∃ ms, v = .record ms ∧ w = Members.getD ms name alternative := by
  cases v with
  | record ms => exact ⟨ms, rfl, (Except.ok.inj h).symm⟩
  | _ => cases h

end Value

/-! ### The parts of a form -/

section Parts

variable {v : Value}

theorem Choice.decode_inv {c : Choice} (h : decode v = .ok c) :
    ∃ ms raw, v = .record ms ∧ Members.get? ms "optionId" = some raw ∧
      c = { id := .text raw.display, label := Members.getD ms "label" (.text "")
            value := Members.getD ms "value" (.text "")
            image := (Members.getOrNull ms "imageUrl").orElse (.text "")
            nextField := (Members.getOrNull ms "nextFieldId").orElse .null
            nextStep := (Members.getOrNull ms "nextStepId").orElse .null } := by
  obtain ⟨raw, hraw, h⟩ := bind_eq_ok_iff.1 h
  obtain ⟨id, hid, h⟩ := bind_eq_ok_iff.1 h
  obtain ⟨ms, rfl, hget⟩ := Value.require_inv hraw
  obtain rfl := Value.asLabel_inv hid
  exact ⟨ms, raw, rfl, hget, (Except.ok.inj h).symm⟩

theorem Question.decode_inv {q : Question} (h : decode v = .ok q) :
    ∃ ms type raw us, v = .record ms ∧ Members.get? ms "type" = some type ∧
      FieldKind.ofValue? type = some q.kind ∧ Members.get? ms "fieldId" = some raw ∧
      (Members.getOrNull ms "options").elementsOrNone = .ok us ∧
      us.mapM Choice.decode = .ok q.choices ∧ q.id = .text raw.display ∧
      q.label = Members.getD ms "label" (.text "") ∧ q.image = Members.getOrNull ms "imageUrl" := by
  obtain ⟨type, htype, h⟩ := bind_eq_ok_iff.1 h
  obtain ⟨ms, rfl, hget⟩ := Value.require_inv htype
  cases hkind : FieldKind.ofValue? type with
  | none =>
    simp only [hkind] at h
    obtain ⟨label, -, h⟩ := bind_eq_ok_iff.1 h
    obtain ⟨id, -, h⟩ := bind_eq_ok_iff.1 h
    cases h
  | some kind =>
    simp only [hkind] at h
    obtain ⟨raw, hraw, h⟩ := bind_eq_ok_iff.1 h
    obtain ⟨ms', hms, hid⟩ := Value.require_inv hraw
    cases hms
    obtain ⟨id, hlabel, h⟩ := bind_eq_ok_iff.1 h
    obtain rfl := Value.asLabel_inv hlabel
    -- members that may be absent are looked up in any case
    obtain ⟨label, hlabel, h⟩ := bind_eq_ok_iff.1 h
    cases hlabel
    obtain ⟨required, hrequired, h⟩ := bind_eq_ok_iff.1 h
    cases hrequired
    obtain ⟨options, hoptions, h⟩ := bind_eq_ok_iff.1 h
    cases hoptions
    obtain ⟨us, hus, h⟩ := bind_eq_ok_iff.1 h
    obtain ⟨cs, hcs, h⟩ := bind_eq_ok_iff.1 h
    obtain ⟨image, himage, h⟩ := bind_eq_ok_iff.1 h
    cases himage
    cases h
    exact ⟨ms, type, raw, us, rfl, hget, hkind, hid, hus, hcs, rfl, rfl, rfl⟩

/-- Every field read from a value is read from an element of a list. -/
theorem Field.decodeElements_inv {w : Value} {fs : List Field} (h : decodeElements w = .ok fs) :
    ∀ f ∈ fs, ∃ us, w = .list us ∧ ∃ u ∈ us, decode u = .ok f := by
  cases w with
  | list us =>
    rw [decodeElements, decodeAll_eq_mapM] at h
    exact fun f hf => ⟨us, rfl, exists_of_mapM_ok h f hf⟩
  | _ =>
    simp only [decodeElements] at h
    split at h
    · cases h
    · cases h
      exact nofun

theorem Field.decode_inv {f : Field} (h : decode v = .ok f) :
    ∃ ms, v = .record ms ∧ Question.decode (.record ms) = .ok f.question ∧
      decodeElements (Members.getOrNull ms "subFields") = .ok f.subFields := by
  cases v with
  | record ms =>
    rw [decode] at h
    obtain ⟨q, hq, h⟩ := bind_eq_ok_iff.1 h
    obtain ⟨fs, hfs, h⟩ := bind_eq_ok_iff.1 h
    cases h
    rw [decodeSubFields_eq] at hfs
    exact ⟨ms, rfl, hq, hfs⟩
  | _ => cases h

theorem Condition.decode_inv {c : Condition} (h : decode v = .ok c) :
    ∃ ms, v = .record ms ∧ c.value = Members.getD ms "value" (.text "") := by
  obtain ⟨raw, hraw, h⟩ := bind_eq_ok_iff.1 h
  obtain ⟨ms, rfl, -⟩ := Value.require_inv hraw
  obtain ⟨fieldId, -, h⟩ := bind_eq_ok_iff.1 h
  obtain ⟨value, hvalue, h⟩ := bind_eq_ok_iff.1 h
  obtain ⟨target, -, h⟩ := bind_eq_ok_iff.1 h
  obtain ⟨nextStep, -, h⟩ := bind_eq_ok_iff.1 h
  cases h
  exact ⟨ms, rfl, (Except.ok.inj hvalue).symm⟩

theorem Step.decode_inv {s : Step} (h : decode v = .ok s) :
    ∃ ms us, v = .record ms ∧ s.title = Members.getD ms "title" (.text "") ∧
      Field.decodeElements (Members.getOrNull ms "fields") = .ok s.fields ∧
      s.description = Members.getOrNull ms "description" ∧
      (Members.getOrNull ms "nextStepCondition").elementsOrNone = .ok us ∧
      us.mapM Condition.decode = .ok s.conditions := by
  obtain ⟨raw, hraw, h⟩ := bind_eq_ok_iff.1 h
  obtain ⟨ms, rfl, -⟩ := Value.require_inv hraw
  obtain ⟨id, -, h⟩ := bind_eq_ok_iff.1 h
  obtain ⟨title, htitle, h⟩ := bind_eq_ok_iff.1 h
  cases htitle
  obtain ⟨rawFields, hraw, h⟩ := bind_eq_ok_iff.1 h
  cases hraw
  obtain ⟨fields, hfields, h⟩ := bind_eq_ok_iff.1 h
  obtain ⟨description, hdescription, h⟩ := bind_eq_ok_iff.1 h
  cases hdescription
  obtain ⟨isLast, hlast, h⟩ := bind_eq_ok_iff.1 h
  cases hlast
  obtain ⟨rawConditions, hraw, h⟩ := bind_eq_ok_iff.1 h
  cases hraw
  obtain ⟨us, hus, h⟩ := bind_eq_ok_iff.1 h
  obtain ⟨conditions, hconditions, h⟩ := bind_eq_ok_iff.1 h
  cases h
  exact ⟨ms, us, rfl, rfl, hfields, rfl, hus, hconditions⟩

theorem FormSettings.decode_inv {s : FormSettings} (h : decode v = .ok s) :
    ∃ ms, v.orElse (.record []) = .record ms ∧
      s = { successMessage := Members.getD ms "successMessage" (.text "")
            submitButtonText := Members.getOrNull ms "submitButtonText"
            redirectUrl := Members.getOrNull ms "redirectUrl"
            showProgressBar := Members.getOrNull ms "showProgressBar"
            allowMultipleSubmissions := Members.getOrNull ms "allowMultipleSubmissions" } := by
  unfold decode at h
  generalize v.orElse (.record []) = w at h
  obtain ⟨message, hmessage, h⟩ := bind_eq_ok_iff.1 h
  obtain ⟨ms, rfl, rfl⟩ := Value.get_inv hmessage
  exact ⟨ms, rfl, (Except.ok.inj h).symm⟩

theorem Form.decode_inv {form : Form} (h : decode v = .ok form) :
    ∃ ms us, v = .record ms ∧ (Members.getOrNull ms "steps").elementsOrNone = .ok us ∧
      us.mapM Step.decode = .ok form.steps ∧
      FormSettings.decode (Members.getOrNull ms "settings") = .ok form.settings ∧
      form.name = Members.getD ms "name" (.text "") ∧
      form.description = Members.getD ms "description" (.text "") := by
  cases v with
  | record ms =>
    obtain ⟨us, hus, h⟩ := bind_eq_ok_iff.1 h
    obtain ⟨steps, hsteps, h⟩ := bind_eq_ok_iff.1 h
    obtain ⟨settings, hsettings, h⟩ := bind_eq_ok_iff.1 h
    cases h
    exact ⟨ms, us, rfl, hus, hsteps, hsettings, rfl, rfl⟩
  | _ => cases h

/-- What holds of the values that stand for sub-fields, and is handed down by a record of a field,
makes a field that is read have every property its sub-fields hand up. -/
theorem Field.forall_of_decode {G : Value → Prop} {P : Field → Prop}
    (hdown : ∀ ms us, G (.record ms) → Members.getOrNull ms "subFields" = .list us → ∀ u ∈ us, G u)
    (hup : ∀ ms q fs, G (.record ms) → Question.decode (.record ms) = .ok q → (∀ f ∈ fs, P f) →
      P (.mk q fs)) :
    ∀ (f : Field) (v : Value), G v → decode v = .ok f → P f
  | .mk q fs, v, hv, h => by
    obtain ⟨ms, rfl, hq, hfs⟩ := decode_inv h
    refine hup ms q fs hv hq fun f hf => ?_
    obtain ⟨us, hlist, u, hu, hread⟩ := decodeElements_inv hfs f hf
    exact forall_of_decode hdown hup f u (hdown ms us hv hlist u hu) hread
termination_by f => sizeOf f

end Parts

/-! ### What is read is settled -/

section Settled

variable {v : Value}

theorem Choice.settled_of_decode {c : Choice} (h : decode v = .ok c) :
    (∃ s, c.id = .text s) ∧ c.settle = c := by
  obtain ⟨ms, raw, -, -, rfl⟩ := decode_inv h
  simp [settle, Value.orElse_orElse]

theorem Question.settled_of_decode {q : Question} (h : decode v = .ok q) :
    (∃ s, q.id = .text s) ∧ (∀ c ∈ q.choices, ∃ s, c.id = .text s) ∧ q.settle = q := by
  obtain ⟨ms, type, raw, us, -, -, -, -, -, hcs, hid, -⟩ := decode_inv h
  have hchoices : ∀ c ∈ q.choices, (∃ s, c.id = .text s) ∧ c.settle = c := by
    intro c hc
    obtain ⟨u, -, hread⟩ := exists_of_mapM_ok hcs c hc
    exact Choice.settled_of_decode hread
  refine ⟨⟨raw.display, hid⟩, fun c hc => (hchoices c hc).1, ?_⟩
  have hmap : q.choices.map Choice.settle = q.choices.map fun c => c :=
    List.map_congr_left fun c hc => (hchoices c hc).2
  rw [settle, hmap, List.map_id']

theorem Field.settled_of_decode {f : Field} (h : decode v = .ok f) : f.Named ∧ f.settle = f := by
  refine forall_of_decode (G := fun _ => True) (P := fun f => f.Named ∧ f.settle = f)
    (fun _ _ _ _ _ _ => trivial) ?_ f v trivial h
  intro ms q fs _ hq hfs
  obtain ⟨hid, hchoices, hsettle⟩ := Question.settled_of_decode hq
  have hmap : fs.map settle = fs.map fun f => f := List.map_congr_left fun f hf => (hfs f hf).2
  refine ⟨⟨hid, hchoices, namedAll_iff.2 fun f hf => (hfs f hf).1⟩, ?_⟩
  rw [settle, hsettle, settleAll_eq_map, hmap, List.map_id']

/-- The fields read from a value are settled, one by one. -/
theorem Field.settled_of_decodeElements {fs : List Field} (h : decodeElements v = .ok fs) :
    ∀ f ∈ fs, f.Named ∧ f.settle = f := by
  intro f hf
  obtain ⟨us, -, u, -, hread⟩ := decodeElements_inv h f hf
  exact settled_of_decode hread

theorem Step.settled_of_decode {s : Step} (h : decode v = .ok s) :
    (∀ f ∈ s.fields, f.Named) ∧ s.settle = s := by
  obtain ⟨ms, us, -, -, hfields, -⟩ := decode_inv h
  have hfs := Field.settled_of_decodeElements hfields
  have hmap : s.fields.map Field.settle = s.fields.map fun f => f :=
    List.map_congr_left fun f hf => (hfs f hf).2
  refine ⟨fun f hf => (hfs f hf).1, ?_⟩
  rw [settle, hmap, List.map_id']

/-- A form that is read has texts for ids and is as it comes back from its record. -/
theorem Form.settled_of_decode {form : Form} (h : decode v = .ok form) :
    (∀ s ∈ form.steps, ∀ f ∈ s.fields, f.Named) ∧ form.settle = form := by
  obtain ⟨ms, us, -, -, hsteps, -⟩ := decode_inv h
  have hall : ∀ s ∈ form.steps, (∀ f ∈ s.fields, f.Named) ∧ s.settle = s := by
    intro s hs
    obtain ⟨u, -, hread⟩ := exists_of_mapM_ok hsteps s hs
    exact Step.settled_of_decode hread
  have hmap : form.steps.map Step.settle = form.steps.map fun s => s :=
    List.map_congr_left fun s hs => (hall s hs).2
  refine ⟨fun s hs => (hall s hs).1, ?_⟩
  rw [settle, hmap, List.map_id']

/-- The choices of a form that was read, as far as it is reopened by them, have texts for ids. -/
theorem Form.textual_of_decode {form : Form} (h : decode v = .ok form) :
    ∀ s ∈ form.steps, ∀ c ∈ s.leadChoices, ∃ i, c.id = .text i := by
  intro s hs c hc
  have hnamed := (settled_of_decode h).1 s hs
  unfold Step.leadChoices at hc
  split at hc
  · cases hc
  · rename_i f fs hfields
    have hlead : f.Named := hnamed f (hfields ▸ List.mem_cons_self)
    obtain ⟨q, gs⟩ := f
    exact hlead.2.1 c hc

end Settled

end BranchForm
