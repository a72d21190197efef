import BranchForm.Proofs.Edits
import BranchForm.Tree.Builder

/-!
# What a builder makes

A builder takes call after call. A call that is made brings in one tree, an option or a whole
subtree, and the tree has the nodes of all that was brought in, next to those it had at the start.
An insertion compares the ids brought in with those that are there, not with one another, and looks
at no role. So a built tree is as sound as the subtrees that were grafted on it.

* `Builder.Call` is one call, `Builder.call_eq` says all that it does; `Builder.after` is the
  builder after a run of calls, refused ones included;
* `Builder.made` are the calls of a run that are made, `Builder.brought` the trees they bring in,
  `Builder.grafts` those that were built elsewhere, `Builder.named` the ids that they name;
* `Builder.data_after` accounts for all nodes of a built tree, `Builder.nodup_ids_after` says when
  their ids are distinct and `Builder.rootOnTop_after` when its root is the only one;
* `sound_built_iff` is the result on fresh builders.
-/

namespace BranchForm

open OptionTree

namespace OptionTree

theorem ids_newRoot (id label : Value) : (newRoot id label).ids = [id] := by
  rw [newRoot, ids_eq_idsAll, idsAll_node, idsAll_nil]

theorem ids_newOption (id : Value) (o : NewOption) : (newOption id o).ids = [id] := by
  rw [newOption, ids_eq_idsAll, idsAll_node, idsAll_nil]

end OptionTree

/-! ### Calls -/

namespace Builder

/-- One call on a builder. -/
inductive Call where
  /-- An option is added. -/
  | add (o : NewOption) (parent optionId position : Value)
  /-- A whole tree is added. -/
  | graft (new : OptionTree) (parent : Value)

namespace Call

/-- The parent that the caller gives. -/
def parent : Call → Value
  | .add _ parent _ _ | .graft _ parent => parent

/-- The position that the caller gives. -/
def position : Call → Value
  | .add _ _ _ position => position
  | .graft _ _ => .null

/-- The ids that the caller names. -/
def named : Call → List Value
  | .add _ _ optionId _ => if optionId.truthy then [optionId] else []
  | .graft new _ => new.ids

/-- Whether an id is drawn for the call. -/
def draws : Call → Bool
  | .add _ _ optionId _ => !optionId.truthy
  | .graft _ _ => false

/-- The tree that the call brings in. -/
def brings (ids : IdSource) : Call → OptionTree
  | .add o _ optionId _ => .newOption (optionId.orElse ids.draw.1) o
  | .graft new _ => new

/-- The source of ids after the call. -/
def source (ids : IdSource) (c : Call) : IdSource := if c.draws then ids.draw.2 else ids

/-- The tree that was built elsewhere, if the call brings in such a one. -/
def graft? : Call → Option OptionTree
  | .add _ _ _ _ => none
  | .graft new _ => some new

/-- The ids that the caller names are texts. -/
def Textual (c : Call) : Prop := ∀ i ∈ c.named, ∃ s, i = .text s

end Call

/-- The builder after a call, with the error if the call is refused. -/
def call (b : Builder) : Call → Builder × Except Error Unit
  | .add o parent optionId position => b.add o parent optionId position
  | .graft new parent => b.graft (some new) parent

/-- The builder after a run of calls. -/
def after (b : Builder) (cs : List Call) : Builder := cs.foldl (fun b c => (b.call c).1) b

/-- The calls of a run that are made, each with the builder that makes it. -/
def made (b : Builder) : List Call → List (Builder × Call)
  | [] => []
  | c :: cs => match (b.call c).2 with
    | .ok _ => (b, c) :: made (b.call c).1 cs
    | .error _ => made (b.call c).1 cs

/-- The trees that a run of calls brings in. -/
def brought (b : Builder) (cs : List Call) : List OptionTree :=
  (b.made cs).map fun m => m.2.brings m.1.ids

/-- The trees among them that were built elsewhere. -/
def grafts (b : Builder) (cs : List Call) : List OptionTree :=
  (b.made cs).filterMap fun m => m.2.graft?

/-- The ids that the callers of a run name. -/
def named (b : Builder) (cs : List Call) : List Value := (b.made cs).flatMap fun m => m.2.named

/-! ### One call -/

variable {b : Builder} {c : Call} {cs : List Call}

/-- What a call puts into the tree, or why it is refused. -/
def inserted (b : Builder) (c : Call) : Except Error OptionTree :=
  Draft.insert (some b.tree) (c.parent.orElse b.tree.id) (some (c.brings b.ids)) c.position

theorem settle_attach (b : Builder) (new : OptionTree) (parent position : Value) :
    b.settle (b.attach (some new) parent position) =
      match Draft.insert (some b.tree) (parent.orElse b.tree.id) (some new) position with
      | .ok tree => ({ b with tree, lastId := new.id }, .ok ())
      | .error e => (b, .error e) := by
  rw [attach]
  cases Draft.insert (some b.tree) (parent.orElse b.tree.id) (some new) position <;> rfl

/-- **What a call does.** If the insertion succeeds, the tree takes in what the call brings, and its
id is the last one; if not, the tree stays. Either way an id that was drawn is used up. -/
theorem call_eq (b : Builder) (c : Call) :
    b.call c = match b.inserted c with
      | .ok tree => ({ tree, ids := c.source b.ids, lastId := (c.brings b.ids).id }, .ok ())
      | .error e => ({ b with ids := c.source b.ids }, .error e) := by
  cases c with
  | add o parent optionId position =>
    by_cases hid : optionId.truthy = true
    · have hgiven : optionId.orElse (.text b.ids.draw.1) = optionId := by simp [Value.orElse, hid]
      simp only [inserted, Call.brings, hgiven, Call.source, Call.draws, hid, Bool.not_true,
        Bool.false_eq_true, ↓reduceIte]
      rw [call, add, if_pos hid, settle_attach]
      rfl
    · have hdrawn : optionId.orElse (.text b.ids.draw.1) = .text b.ids.draw.1 := by
        simp [Value.orElse, hid]
      simp only [inserted, Call.brings, hdrawn, Call.source, Call.draws, hid, Bool.not_false,
        ↓reduceIte]
      rw [call, add, if_neg hid]
      exact settle_attach { b with ids := b.ids.draw.2 } (newOption b.ids.draw.1 o) parent position
  | graft new parent => exact settle_attach b new parent .null

/-- A call is made or refused. -/
theorem call_cases (b : Builder) (c : Call) :
    (∃ tree, b.inserted c = .ok tree ∧ (b.call c).2 = .ok () ∧ (b.call c).1.tree = tree ∧
      (b.call c).1.ids = c.source b.ids) ∨
    (∃ e, (b.call c).2 = .error e ∧ (b.call c).1.tree = b.tree ∧
      (b.call c).1.ids = c.source b.ids) := by
  have hcall := call_eq b c
  cases hinserted : b.inserted c with
  | ok tree =>
    rw [hinserted] at hcall
    exact .inl ⟨tree, rfl, by rw [hcall], by rw [hcall], by rw [hcall]⟩
  | error e =>
    rw [hinserted] at hcall
    exact .inr ⟨e, by rw [hcall], by rw [hcall], by rw [hcall]⟩

theorem Call.mem_ids_brings {ids : IdSource} {i : Value} :
    i ∈ (c.brings ids).ids ↔ i ∈ c.named ∨ c.draws = true ∧ i = .text ids.draw.1 := by
  cases c with
  | add o parent optionId position =>
    rw [brings, ids_newOption, List.mem_singleton]
    by_cases hid : optionId.truthy = true <;> simp [named, draws, Value.orElse, hid]
  | graft new parent => simp [brings, named, draws]

theorem Call.Textual.brings (h : c.Textual) (ids : IdSource) :
    ∀ i ∈ (c.brings ids).ids, ∃ s, i = .text s := by
  intro i hi
  rcases mem_ids_brings.1 hi with hi | ⟨-, hi⟩
  · exact h i hi
  · exact ⟨_, hi⟩

/-- The parent of a call is there if it is one of the nodes, or if none is given. -/
theorem parent_mem_iff {t : OptionTree} {parent : Value} :
    parent.orElse t.id ∈ t.ids ↔ parent.truthy = false ∨ parent ∈ t.ids := by
  cases htruthy : parent.truthy with
  | true => simp [Value.orElse, htruthy]
  | false => simp [Value.orElse, htruthy, id_mem_ids t]

/-- A call with texts for ids is made exactly if its parent is there and no id that it brings is. -/
theorem call_ok_iff (hb : ∀ i ∈ b.tree.ids, ∃ s, i = .text s) (hc : c.Textual)
    (hposition : c.position.IsPosition) :
    (b.call c).2 = .ok () ↔ (c.parent.truthy = false ∨ c.parent ∈ b.tree.ids) ∧
      ∀ i ∈ (c.brings b.ids).ids, i ∉ b.tree.ids := by
  rw [← parent_mem_iff, ← Draft.insert_ok_iff hb (hc.brings b.ids) hposition]
  constructor
  · intro hok
    rcases call_cases b c with ⟨tree, hinserted, -⟩ | ⟨e, herror, -⟩
    · exact ⟨tree, hinserted⟩
    · rw [herror] at hok
      cases hok
  · rintro ⟨tree, hinsert⟩
    rw [call_eq, inserted, hinsert]

/-! ### Whole runs -/

@[simp]
theorem after_nil (b : Builder) : b.after [] = b := rfl

@[simp]
theorem after_cons (b : Builder) (c : Call) (cs : List Call) :
    b.after (c :: cs) = (b.call c).1.after cs := rfl

theorem made_cons_of_ok (h : (b.call c).2 = .ok ()) :
    b.made (c :: cs) = (b, c) :: (b.call c).1.made cs := by
  rw [made, h]

theorem made_cons_of_error {e : Error} (h : (b.call c).2 = .error e) :
    b.made (c :: cs) = (b.call c).1.made cs := by
  rw [made, h]

theorem brought_cons_of_ok (h : (b.call c).2 = .ok ()) :
    b.brought (c :: cs) = c.brings b.ids :: (b.call c).1.brought cs := by
  rw [brought, made_cons_of_ok h, List.map_cons, brought]

theorem brought_cons_of_error {e : Error} (h : (b.call c).2 = .error e) :
    b.brought (c :: cs) = (b.call c).1.brought cs := by
  rw [brought, made_cons_of_error h, brought]

theorem named_cons_of_ok (h : (b.call c).2 = .ok ()) :
    b.named (c :: cs) = c.named ++ (b.call c).1.named cs := by
  rw [named, made_cons_of_ok h, List.flatMap_cons, named]

theorem named_cons_of_error {e : Error} (h : (b.call c).2 = .error e) :
    b.named (c :: cs) = (b.call c).1.named cs := by
  rw [named, made_cons_of_error h, named]

/-- **A built tree has the nodes it had and those of all trees brought in**, and its top stays. -/
theorem data_after (b : Builder) (cs : List Call) :
    (dataAll [(b.after cs).tree]).Perm (dataAll [b.tree] ++ dataAll (b.brought cs)) ∧
      (b.after cs).tree.data = b.tree.data := by
  induction cs generalizing b with
  | nil => simp [brought, made]
  | cons c cs ih =>
    obtain ⟨hperm, htop⟩ := ih (b.call c).1
    rcases call_cases b c with ⟨tree, hinserted, hok, htree, -⟩ | ⟨e, herror, htree, -⟩
    · obtain ⟨t, ht, -, hattach⟩ := Draft.insert_inv hinserted
      obtain rfl := Option.some.inj ht
      obtain ⟨hnodes, htop'⟩ := Draft.data_attach hattach
      rw [htree] at hperm htop
      refine ⟨?_, htop.trans htop'⟩
      rw [after_cons, brought_cons_of_ok hok, dataAll_cons (c.brings b.ids),
        ← List.append_assoc]
      exact hperm.trans (hnodes.append_right _)
    · rw [htree] at hperm htop
      rw [after_cons, brought_cons_of_error herror]
      exact ⟨hperm, htop⟩

theorem ids_after (b : Builder) (cs : List Call) :
    (b.after cs).tree.ids.Perm (b.tree.ids ++ idsAll (b.brought cs)) := by
  simpa only [ids_eq_idsAll, idsAll_eq_map, List.map_append] using (data_after b cs).1.map Node.id

theorem data_children_after (b : Builder) (cs : List Call) :
    (dataAll (b.after cs).tree.children).Perm
      (dataAll b.tree.children ++ dataAll (b.brought cs)) := by
  obtain ⟨hperm, htop⟩ := data_after b cs
  rw [dataAll_eq_cons, dataAll_eq_cons, htop, List.cons_append, List.perm_cons] at hperm
  exact hperm

theorem texts_call (hb : ∀ i ∈ b.tree.ids, ∃ s, i = .text s) (hc : c.Textual) :
    ∀ i ∈ (b.call c).1.tree.ids, ∃ s, i = .text s := by
  rcases call_cases b c with ⟨tree, hinserted, -, htree, -⟩ | ⟨e, -, htree, -⟩
  · intro i hi
    rw [htree] at hi
    rcases List.mem_append.1 ((Draft.ids_insert hinserted).mem_iff.1 hi) with hi | hi
    · exact hb i hi
    · exact hc.brings b.ids i hi
  · rwa [htree]

theorem texts_after (hb : ∀ i ∈ b.tree.ids, ∃ s, i = .text s) (hcs : ∀ c ∈ cs, c.Textual) :
    ∀ i ∈ (b.after cs).tree.ids, ∃ s, i = .text s := by
  induction cs generalizing b with
  | nil => exact hb
  | cons c cs ih =>
    obtain ⟨hc, hcs⟩ := List.forall_mem_cons.1 hcs
    exact ih (texts_call hb hc) hcs

/-- **The ids of a built tree are distinct exactly if they were at the start and are in each tree
brought in.** -/
theorem nodup_ids_after (hb : ∀ i ∈ b.tree.ids, ∃ s, i = .text s) (hcs : ∀ c ∈ cs, c.Textual) :
    (b.after cs).tree.ids.Nodup ↔ b.tree.ids.Nodup ∧ ∀ t ∈ b.brought cs, t.ids.Nodup := by
  induction cs generalizing b with
  | nil => simp [brought, made]
  | cons c cs ih =>
    obtain ⟨hc, hcs⟩ := List.forall_mem_cons.1 hcs
    have hrest := ih (texts_call hb hc) hcs
    rcases call_cases b c with ⟨tree, hinserted, hok, htree, -⟩ | ⟨e, herror, htree, -⟩
    · have hstep : tree.ids.Nodup ↔ b.tree.ids.Nodup ∧ (c.brings b.ids).ids.Nodup :=
        Draft.nodup_insert_iff (hc.brings b.ids) hinserted
      rw [htree, hstep] at hrest
      rw [after_cons, hrest, brought_cons_of_ok hok, List.forall_mem_cons, and_assoc]
    · rw [htree] at hrest
      rw [after_cons, hrest, brought_cons_of_error herror]

/-- What holds of every option just made holds of all trees brought in if it does of the grafts. -/
theorem forall_brought_iff {P : OptionTree → Prop} (hoption : ∀ id o, P (newOption id o)) :
    (∀ t ∈ b.brought cs, P t) ↔ ∀ t ∈ b.grafts cs, P t := by
  simp only [brought, grafts, List.forall_mem_map, List.mem_filterMap]
  constructor
  · rintro h t ⟨m, hm, ht⟩
    have hbrings := h m hm
    cases hcall : m.2 with
    | add o parent optionId position =>
      rw [hcall] at ht
      cases ht
    | graft new parent =>
      rw [hcall] at ht hbrings
      cases ht
      exact hbrings
  · intro h m hm
    cases hcall : m.2 with
    | add o parent optionId position => exact hoption _ o
    | graft new parent => exact h new ⟨m, hm, by rw [hcall]; rfl⟩

end Builder

/-! ### Sound trees -/

namespace OptionTree

/-- Every node of a tree is an option. -/
def OfOptions (t : OptionTree) : Prop := ∀ u ∈ preorder t, u.data.kind = .option

/-- The top of a tree is a root, and every node below it is an option. -/
def RootOnTop (t : OptionTree) : Prop := t.data.kind = .root ∧ ∀ c ∈ t.children, c.OfOptions

instance (t : OptionTree) : Decidable t.OfOptions :=
  inferInstanceAs (Decidable (∀ u ∈ preorder t, u.data.kind = .option))

instance (t : OptionTree) : Decidable t.RootOnTop :=
  inferInstanceAs (Decidable (t.data.kind = .root ∧ ∀ c ∈ t.children, c.OfOptions))

theorem forall_ofOptions_iff {ts : List OptionTree} :
    (∀ t ∈ ts, t.OfOptions) ↔ ∀ d ∈ dataAll ts, d.kind = .option := by
  simp only [dataAll, List.forall_mem_map, mem_preorderAll, OfOptions]
  constructor
  · rintro h u ⟨t, ht, hu⟩
    exact h t ht u hu
  · intro h t ht u hu
    exact h u ⟨t, ht, hu⟩

end OptionTree

namespace Builder

variable {b : Builder} {cs : List Call}

/-- **The root of a built tree stays the only one exactly if it was the only one and each tree
brought in has options only.** -/
theorem rootOnTop_after :
    (b.after cs).tree.RootOnTop ↔ b.tree.RootOnTop ∧ ∀ t ∈ b.brought cs, t.OfOptions := by
  have htop : (b.after cs).tree.data = b.tree.data := (data_after b cs).2
  have hbelow : ∀ d, d ∈ dataAll (b.after cs).tree.children ↔
      d ∈ dataAll b.tree.children ∨ d ∈ dataAll (b.brought cs) := fun d => by
    rw [(data_children_after b cs).mem_iff, List.mem_append]
  simp only [RootOnTop, forall_ofOptions_iff, htop, hbelow, or_imp, forall_and, and_assoc]

/-- A fresh builder: it has any label and source of ids, and the id of its root is a text or is
drawn. -/
def Fresh (b : Builder) : Prop :=
  ∃ label ids rootId, (rootId = .null ∨ ∃ s, rootId = .text s) ∧ b = .start label ids rootId

/-- A fresh builder has a root and nothing else. -/
theorem Fresh.exists_tree (h : b.Fresh) : ∃ s label, b.tree = newRoot (.text s) label := by
  obtain ⟨label, ids, rootId, rfl | ⟨s, rfl⟩, rfl⟩ := h
  · exact ⟨_, label, rfl⟩
  · exact ⟨s, label, rfl⟩

end Builder

/-- **A built tree is as sound as what was grafted on it.** After any run of calls on a fresh
builder, refused ones included, the ids are distinct exactly if they are in each subtree that was
grafted, and the root is the only one exactly if no grafted subtree has a root. Nothing of this is
asked of the next call: it is made exactly if its parent is there and no id that it brings is. -/
theorem sound_built_iff {b : Builder} (hb : b.Fresh) {cs : List Builder.Call}
    (hcs : ∀ c ∈ cs, c.Textual) :
    ((b.after cs).tree.ids.Nodup ↔ ∀ t ∈ b.grafts cs, t.ids.Nodup) ∧
    ((b.after cs).tree.RootOnTop ↔ ∀ t ∈ b.grafts cs, t.OfOptions) ∧
    ∀ c : Builder.Call, c.Textual → c.position.IsPosition →
      (((b.after cs).call c).2 = .ok () ↔
        (c.parent.truthy = false ∨ c.parent ∈ (b.after cs).tree.ids) ∧
        ∀ i ∈ (c.brings (b.after cs).ids).ids, i ∉ (b.after cs).tree.ids) := by
  obtain ⟨s, label, htree⟩ := hb.exists_tree
  have hids : b.tree.ids = [.text s] := by
    rw [htree, ids_newRoot]
  have htexts : ∀ i ∈ b.tree.ids, ∃ s, i = .text s := by
    rw [hids, List.forall_mem_singleton]
    exact ⟨s, rfl⟩
  refine ⟨?_, ?_, fun c hc => Builder.call_ok_iff (Builder.texts_after htexts hcs) hc⟩
  · have hstart : b.tree.ids.Nodup := by
      rw [hids]
      exact List.nodup_singleton _
    have hoption : ∀ id o, (newOption id o).ids.Nodup := fun id o => by
      rw [ids_newOption]
      exact List.nodup_singleton id
    rw [Builder.nodup_ids_after htexts hcs, and_iff_right hstart,
      Builder.forall_brought_iff hoption]
  · have hstart : b.tree.RootOnTop := by
      rw [htree]
      exact ⟨rfl, List.forall_mem_nil _⟩
    have hoption : ∀ id o, (newOption id o).OfOptions := fun id o =>
      List.forall_mem_singleton.2 rfl
    rw [Builder.rootOnTop_after, and_iff_right hstart, Builder.forall_brought_iff hoption]

/-- A builder of a garage. -/
def garageBuilder : Builder := .start "Garage" {} "garage"

/-- Lorries with a trailer, all of them options. -/
def lorries : OptionTree :=
  .node { id := "lorries", label := "Lorries" } [newOption "trailer" { label := "Trailer" }]

/-- A run of calls: vans without an id, the lorries, the lorries once more, which is refused, and a
spare lorry. -/
def fitting : List Builder.Call :=
  [.add { label := "Vans" } .null .null .null, .graft lorries .null, .graft lorries "node-1",
    .add { label := "Spare" } "lorries" "spare" (.int 0)]

/-- The lorries are refused a third time, and another trailer is not, for it has an id of its own. -/
theorem sound_built_garage :
    (garageBuilder.after fitting).tree.ids =
      ["garage", "node-1", "lorries", "spare", "trailer"].map Value.text ∧
    (garageBuilder.after fitting).tree.ids.Nodup ∧
    (garageBuilder.after fitting).tree.RootOnTop ∧
    ((garageBuilder.after fitting).call (.graft lorries .null)).2 ≠ .ok () ∧
    ((garageBuilder.after fitting).call
      (.add { label := "Trailer" } "node-1" "trailer-2" .null)).2 = .ok () := by
  have hids : (garageBuilder.after fitting).tree.ids =
      ["garage", "node-1", "lorries", "spare", "trailer"].map Value.text := by cbv
  have hgrafts : garageBuilder.grafts fitting = [lorries] := by cbv
  have hlorries : lorries.ids = ["lorries", "trailer"].map Value.text := by cbv
  have htextual : ∀ c ∈ fitting, c.Textual := by
    simp [fitting, Builder.Call.Textual, Builder.Call.named, hlorries, Value.truthy]
  have hfresh : garageBuilder.Fresh := ⟨"Garage", {}, "garage", .inr ⟨"garage", rfl⟩, rfl⟩
  obtain ⟨hdistinct, hroot, hnext⟩ := sound_built_iff hfresh htextual
  refine ⟨hids, hdistinct.2 ?_, hroot.2 ?_, fun hmade => ?_, ?_⟩
  · rw [hgrafts, List.forall_mem_singleton, hlorries]
    decide
  · rw [hgrafts, List.forall_mem_singleton]
    decide
  · have hgraft : (Builder.Call.graft lorries .null).Textual := by
      simp [Builder.Call.Textual, Builder.Call.named, hlorries]
    have hlorry : .text "lorries" ∈ lorries.ids := by
      rw [hlorries]
      decide
    have hother := ((hnext _ hgraft (.inl rfl)).1 hmade).2 _ hlorry
    rw [hids] at hother
    exact hother (by decide)
  · have hadd : (Builder.Call.add { label := "Trailer" } "node-1" "trailer-2" .null).Textual := by
      simp [Builder.Call.Textual, Builder.Call.named, Value.truthy]
    have hbrings : ∀ drawn, ((Builder.Call.add { label := "Trailer" } "node-1" "trailer-2"
        .null).brings drawn).ids = [.text "trailer-2"] := fun drawn => ids_newOption _ _
    refine (hnext _ hadd (.inl rfl)).2 ⟨.inr ?_, ?_⟩
    · rw [hids]
      decide
    · rw [hbrings, hids, List.forall_mem_singleton]
      decide

/-- Cars as another builder makes them: at their top stands a root. -/
def cars : OptionTree :=
  ((Builder.start "Cars" {} "cars").after [.add { label := "Sedan" } .null "sedan" .null]).tree

/-- Two bikes with one id. -/
def bikes : OptionTree :=
  .node { id := "bikes", label := "Bikes" }
    [newOption "racer" { label := "Racer" }, newOption "racer" { label := "Tourer" }]

/-- Both are grafted without an error, and the tree has two roots, or an id that stands twice. -/
theorem unsound_built_garage :
    ((garageBuilder.graft (some cars) .null).2 = .ok () ∧
      ¬ (garageBuilder.graft (some cars) .null).1.tree.RootOnTop) ∧
    (garageBuilder.graft (some bikes) .null).2 = .ok () ∧
      ¬ (garageBuilder.graft (some bikes) .null).1.tree.ids.Nodup := by
  have hcars : (garageBuilder.graft (some cars) .null).1.tree =
      .node { id := "garage", label := "Garage", kind := .root } [cars] := by cbv
  have hbikes : (garageBuilder.graft (some bikes) .null).1.tree.ids =
      ["garage", "bikes", "racer", "racer"].map Value.text := by cbv
  refine ⟨⟨by cbv, ?_⟩, by cbv, ?_⟩
  · rw [hcars]
    intro hroot
    have hoption : cars.data.kind = .option :=
      hroot.2 cars (List.mem_singleton_self _) cars (by rw [preorder_eq_cons]; exact .head _)
    have hkind : cars.data.kind = .root := by cbv
    rw [hkind] at hoption
    cases hoption
  · rw [hbikes]
    decide

end BranchForm
