import BranchForm.Proofs.Gap
import Mathlib

/-!
# What edits do to the ids of a draft

An author edits a draft step by step. No edit loses track of a node: the ids after it are those
before it, with the ids of what was brought in or without the ids of what was taken out. So ids that
were distinct at the start stay distinct, however long the author works.

* `Edit` is one edit with what the author says for it, `Edit.apply` what comes of it; a refused edit
  leaves the draft as it was (`Draft.edited`);
* `Draft.ids_update`, `Draft.exists_ids_remove`, `Draft.ids_insert` and `Draft.ids_move` say what
  each edit does to the ids; all but the last come down to one fact, that around the gap that an
  edit fills the nodes stay (`Gap.exists_data`), and a move is a removal and an insertion;
* `Edit.Accounts` collects them for any edit, `Edit.accounts_of_apply` proves it;
* `Value.indexAmong` is the index among children that a position names, and `exists_place` : there a
  child is put;
* `Draft.insert_ok_iff` and `Draft.insert_of_repeated` say how an insertion ends among ids that are
  texts;
* `Draft.WellNamed` is what every run of edits preserves, and `Draft.exists_insert_iff` says when an
  insertion succeeds in a well-named draft;
* `edits_account` is the result on whole runs.
-/

namespace BranchForm

open OptionTree

/-! ### Edits as data -/

/-- One edit of a draft. -/
inductive Edit where
  /-- A tree is added to the children of a node. -/
  | insert (parentId : Value) (new : OptionTree) (position : Value)
  /-- A node is given new values: those of a patch, and over them some changes. -/
  | update (nodeId : Value) (patch changes : Members)
  /-- A node is taken out with all that is below it. -/
  | remove (nodeId : Value)
  /-- The display of a node is turned over. -/
  | toggle (nodeId : Value)
  /-- A node is put under another one with all that is below it. -/
  | move (nodeId parentId position : Value)

/-- The draft after an edit, or why the edit is refused. -/
def Edit.apply (draft : Draft) : Edit → Except Error Draft
  | .insert parentId new position => do
    let after ← draft.insert parentId (some new) position
    pure (some after)
  | .update nodeId patch changes => do
    let p ← Patch.ofMembers nodeId patch changes
    draft.update nodeId p
  | .remove nodeId => .ok (draft.remove nodeId)
  | .toggle nodeId => draft.toggle nodeId
  | .move nodeId parentId position => do
    let after ← draft.move nodeId parentId position
    pure (some after)

namespace Draft

/-- The draft that an author goes on with after an edit. -/
def edited (draft : Draft) (e : Edit) : Draft :=
  match e.apply draft with
  | .ok after => after
  | .error _ => draft

/-- The draft after a run of edits. -/
def editedBy (draft : Draft) (es : List Edit) : Draft := es.foldl edited draft

/-- The ids of all nodes, from the top. -/
def ids : Draft → List Value
  | none => []
  | some t => t.ids

/-- The ids are texts, and no two nodes have the same one. -/
structure WellNamed (draft : Draft) : Prop where
  /-- Every id is a text. -/
  texts : ∀ i ∈ draft.ids, ∃ s, i = .text s
  /-- No id stands twice. -/
  distinct : draft.ids.Nodup

end Draft

/-- A patch that leaves the ids alone: no member of its records is an id or children. -/
def Members.SparesIds (ms : Members) : Prop :=
  Value.text "id" ∉ Members.names ms ∧ Value.text "children" ∉ Members.names ms

/-- An edit that an author may make: what is brought in is well named, and an update leaves the ids
alone. -/
def Edit.Admissible : Edit → Prop
  | .insert _ new _ => Draft.WellNamed (some new)
  | .update _ patch changes => Members.SparesIds patch ∧ Members.SparesIds changes
  | .remove _ | .toggle _ | .move _ _ _ => True

/-- What an edit must do to the ids of a draft. -/
def Edit.Accounts (before after : Draft) : Edit → Prop
  | .insert _ new _ => after.ids.Perm (before.ids ++ new.ids)
  | .update _ _ _ | .toggle _ => after.ids = before.ids
  | .remove nodeId => match before.find? nodeId with
    | none => after = before
    | some s => before.ids.Perm (after.ids ++ s.ids)
  | .move _ _ _ => after.ids.Perm before.ids

/-! ### Patches that spare the ids -/

namespace Members

theorem names_put_subset (ms : Members) (name v : Value) :
    names (put ms name v) ⊆ names ms ++ [name] := by
  induction ms with
  | nil => simp [put, names]
  | cons m ms ih =>
    obtain ⟨k, w⟩ := m
    by_cases hk : k.agrees name = true
    · simp [put, hk, names]
    · simp only [put, hk, names, List.map_cons, List.cons_append] at ih ⊢
      exact List.cons_subset_cons k ih

theorem names_putAll_subset (ms extra : Members) :
    names (putAll ms extra) ⊆ names ms ++ names extra := by
  induction extra generalizing ms with
  | nil => simp [putAll, names]
  | cons m extra ih =>
    obtain ⟨name, v⟩ := m
    intro i hi
    have hput := ih (put ms name v) hi
    rcases List.mem_append.1 hput with h | h
    · have hbefore := names_put_subset ms name v h
      simp only [names, List.map_cons, List.mem_append, List.mem_cons, List.not_mem_nil,
        or_false] at hbefore ⊢
      exact hbefore.imp_right .inl
    · exact List.mem_append_right _ (List.mem_cons_of_mem _ h)

end Members

theorem Patch.childrenOf_of_spares {ms : Members} (h : Members.SparesIds ms) :
    Patch.childrenOf ms = .ok none := by
  rw [Patch.childrenOf, Members.get?_eq_none_iff.2 h.2]

/-- A patch is read from two records if their children are, the second has no reserved names, and
the names in both are those of fields. -/
theorem Patch.ofMembers_ok_iff {nodeId : Value} {first second : Members} {p : Patch} :
    ofMembers nodeId first second = .ok p ↔ ∃ children children',
      childrenOf first = .ok children ∧ childrenOf second = .ok children' ∧
      (∀ name ∈ reservedNames, Members.has second name = false) ∧
      (∀ name ∈ Members.names (Members.putAll first second), name ∈ fieldNames.map Value.text) ∧
      p = {
        id := Members.get? (Members.putAll first second) "id"
        label := Members.get? (Members.putAll first second) "label"
        kind := Members.get? (Members.putAll first second) "kind"
        multiple := Members.get? (Members.putAll first second) "allow_multiple"
        image := Members.get? (Members.putAll first second) "image_url"
        expanded := Members.get? (Members.putAll first second) "is_expanded"
        children := children' <|> children } := by
  simp only [ofMembers, bind_eq_ok_iff]
  refine exists_congr fun children => ?_
  constructor
  · rintro ⟨hchildren, children', hchildren', h⟩
    refine ⟨children', hchildren, hchildren', ?_⟩
    split at h
    · cases h
    · rename_i hreserved
      split at h
      · rename_i hknown
        refine ⟨by simpa using hreserved, by simpa using hknown, (Except.ok.inj h).symm⟩
      · simp only [bind_eq_ok_iff] at h
        obtain ⟨sorted, -, names, -, hout⟩ := h
        cases hout
  · rintro ⟨children', hchildren, hchildren', hreserved, hknown, rfl⟩
    have hfree : (reservedNames.any fun name => Members.has second name) = false := by
      simpa using hreserved
    have hnone : ((Members.names (Members.putAll first second)).filter fun name =>
        !(fieldNames.map Value.text).contains name) = [] := by
      simpa using hknown
    refine ⟨hchildren, children', hchildren', ?_⟩
    rw [hfree, hnone]
    rfl

/-- A patch read from records without ids and children sets neither. -/
theorem Patch.ofMembers_spares {nodeId : Value} {patch changes : Members} {p : Patch}
    (hpatch : Members.SparesIds patch) (hchanges : Members.SparesIds changes)
    (h : Patch.ofMembers nodeId patch changes = .ok p) : p.id = none ∧ p.children = none := by
  have hid : Members.get? (Members.putAll patch changes) "id" = none := by
    rw [Members.get?_eq_none_iff]
    intro hmem
    rcases List.mem_append.1 (Members.names_putAll_subset patch changes hmem) with h | h
    · exact hpatch.1 h
    · exact hchanges.1 h
  obtain ⟨children, children', hchildren, hchildren', -, -, rfl⟩ := ofMembers_ok_iff.1 h
  rw [childrenOf_of_spares hpatch, Except.ok.injEq] at hchildren
  rw [childrenOf_of_spares hchanges, Except.ok.injEq] at hchildren'
  subst hchildren hchildren'
  exact ⟨hid, rfl⟩

theorem Patch.idsAll_apply {p : Patch} (hid : p.id = none) (hchildren : p.children = none)
    (kind : Option NodeKind) (s : OptionTree) : idsAll [p.apply kind s] = idsAll [s] := by
  obtain ⟨d, cs⟩ := s
  rw [Patch.apply, idsAll_node, idsAll_node, hid, hchildren]
  rfl

/-! ### What each edit does to the ids -/

namespace Draft

variable {draft : Draft}

theorem ids_some (t : OptionTree) : ids (some t) = idsAll [t] := ids_eq_idsAll t

theorem ids_head?_fill (g : Gap) (u : OptionTree) :
    ids (g.fill [u]).head? = idsAll (g.fill [u]) := by
  obtain ⟨t, ht⟩ := g.exists_fill u
  rw [ht, List.head?_cons, ids_some]

theorem ids_head?_fill_nil (g : Gap) : ids (g.fill []).head? = idsAll (g.fill []) := by
  cases g with
  | here => rfl
  | under d left right g => exact ids_some _

/-- An update that sets neither an id nor children leaves every id in its place. -/
theorem ids_update {after : Draft} {nodeId : Value} {p : Patch} (hid : p.id = none)
    (hchildren : p.children = none) (h : draft.update nodeId p = .ok after) :
    after.ids = draft.ids := by
  cases draft with
  | none =>
    cases h
    rfl
  | some t =>
    rw [update] at h
    split at h
    · cases h
      rfl
    · split at h
      · cases h
        rfl
      · rename_i s hs
        obtain ⟨kind, -, hout⟩ := bind_eq_ok_iff.1 h
        obtain ⟨g, hfill, hreplace⟩ := exists_gap_of_find? hs
        obtain ⟨pre, post, hids⟩ := g.exists_ids
        rw [← Except.ok.inj hout, hreplace, Option.getD_some, ids_head?_fill, ids_some, ← hfill,
          hids, hids, Patch.idsAll_apply hid hchildren]

theorem remove_of_absent {nodeId : Value} (h : draft.find? nodeId = none) :
    draft.remove nodeId = draft := by
  cases draft with
  | none => rfl
  | some t =>
    have hnone : t.find? nodeId = none := h
    rw [remove, Option.bind_some, replaceFirst_of_find?_none hnone]
    rfl

/-- A removal takes the ids of one subtree out and leaves the others in their order. -/
theorem exists_ids_remove {nodeId : Value} {s : OptionTree} (h : draft.find? nodeId = some s) :
    ∃ pre post, draft.ids = pre ++ s.ids ++ post ∧ (draft.remove nodeId).ids = pre ++ post := by
  obtain ⟨t, rfl, hs⟩ := Option.bind_eq_some_iff.1 h
  obtain ⟨g, hfill, hreplace⟩ := exists_gap_of_find? hs
  obtain ⟨pre, post, hids⟩ := g.exists_ids
  refine ⟨pre, post, ?_, ?_⟩
  · rw [ids_some, ← hfill, hids, ids_eq_idsAll]
  · rw [remove, Option.bind_some, hreplace, Option.getD_some, ids_head?_fill_nil, hids, idsAll_nil,
      List.append_nil]

theorem place_perm (at? : Option Nat) (new : OptionTree) (cs : List OptionTree) :
    (place at? new cs).Perm (new :: cs) := by
  cases at? with
  | none => exact List.perm_append_singleton new cs
  | some k =>
    have hmiddle : (cs.take k ++ new :: cs.drop k).Perm (new :: (cs.take k ++ cs.drop k)) :=
      List.perm_middle
    rwa [List.take_append_drop] at hmiddle

/-- A tree that takes another one in has the nodes of both. -/
theorem data_attach {t new after : OptionTree} {parentId position : Value}
    (h : attach t parentId new position = .ok after) :
    (dataAll [after]).Perm (dataAll [t] ++ dataAll [new]) ∧ after.data = t.data := by
  rw [attach] at h
  split at h
  · cases h
  · rename_i parent hparent
    obtain ⟨at?, -, hout⟩ := bind_eq_ok_iff.1 h
    obtain ⟨g, hfill, hreplace⟩ := exists_gap_of_find? hparent
    obtain ⟨u, hu⟩ := g.exists_fill (parent.withChildren (place at? new parent.children))
    obtain ⟨pre, post, hdata⟩ := g.exists_data
    simp only [hreplace, hu] at hout
    obtain rfl : u = after := Except.ok.inj hout
    have htop : (parent.withChildren (place at? new parent.children)).data = parent.data := rfl
    refine ⟨?_, Gap.data_fill htop hfill hu⟩
    -- the new tree is one more child, so its nodes are met somewhere among those below the parent
    have hparent : (dataAll [parent.withChildren (place at? new parent.children)]).Perm
        (dataAll [parent] ++ dataAll [new]) := by
      obtain ⟨d, cs⟩ := parent
      have hchildren : (dataAll (place at? new cs)).Perm (dataAll cs ++ dataAll [new]) := by
        have hcons := dataAll_perm (place_perm at? new cs)
        rw [dataAll_cons] at hcons
        exact hcons.trans List.perm_append_comm
      simpa [withChildren, data, children, dataAll_node] using hchildren
    rw [← hu, ← hfill, hdata, hdata, List.perm_iff_count]
    intro d
    have hcount := hparent.count_eq d
    simp only [List.count_append] at hcount ⊢
    omega

/-- A tree that takes another one in has the ids of both. -/
theorem ids_attach {t new after : OptionTree} {parentId position : Value}
    (h : attach t parentId new position = .ok after) : after.ids.Perm (t.ids ++ new.ids) := by
  simpa only [ids_eq_idsAll, idsAll_eq_map, List.map_append] using (data_attach h).1.map Node.id

theorem insert_inv {new after : OptionTree} {parentId position : Value}
    (h : draft.insert parentId (some new) position = .ok after) :
    ∃ t, draft = some t ∧ (∀ i ∈ new.ids, i.within t.ids = false) ∧
      attach t parentId new position = .ok after := by
  cases draft with
  | none => cases h
  | some t =>
    simp only [insert, bind_eq_ok_iff] at h
    obtain ⟨-, -, -, -, h⟩ := h
    split at h
    · rename_i hnone
      refine ⟨t, rfl, fun i hi => ?_, h⟩
      simpa using List.filter_eq_nil_iff.1 hnone i hi
    · obtain ⟨names, -, hout⟩ := bind_eq_ok_iff.1 h
      cases hout

theorem ids_insert {new after : OptionTree} {parentId position : Value}
    (h : draft.insert parentId (some new) position = .ok after) :
    after.ids.Perm (draft.ids ++ new.ids) := by
  obtain ⟨t, rfl, -, hattach⟩ := insert_inv h
  exact ids_attach hattach

/-- A move is a removal and an insertion of what was removed. -/
theorem move_inv {after : OptionTree} {nodeId parentId position : Value}
    (h : draft.move nodeId parentId position = .ok after) :
    ∃ s, draft.find? nodeId = some s ∧
      (draft.remove nodeId).insert parentId (some s) position = .ok after := by
  unfold move at h
  split at h
  · rename_i t s hs
    split at h
    · cases h
    · split at h
      · cases h
      · split at h
        · cases h
        · exact ⟨s, hs, h⟩
  · cases h

theorem ids_move {after : OptionTree} {nodeId parentId position : Value}
    (h : draft.move nodeId parentId position = .ok after) : after.ids.Perm draft.ids := by
  obtain ⟨s, hs, hinsert⟩ := move_inv h
  obtain ⟨pre, post, hbefore, hremoved⟩ := exists_ids_remove hs
  refine (ids_insert hinsert).trans ?_
  rw [hremoved, hbefore, List.append_assoc, List.append_assoc]
  exact (List.perm_append_comm).append_left pre

theorem ids_toggle {after : Draft} {nodeId : Value} (h : draft.toggle nodeId = .ok after) :
    after.ids = draft.ids := by
  rw [toggle] at h
  split at h
  · cases h
    rfl
  · exact ids_update rfl rfl h

end Draft

/-- **Every edit accounts for the ids**, whatever the draft and whatever ids repeat in it. -/
theorem Edit.accounts_of_apply {draft after : Draft} {e : Edit} (he : e.Admissible)
    (h : e.apply draft = .ok after) : e.Accounts draft after := by
  cases e with
  | insert parentId new position =>
    obtain ⟨t, ht, hout⟩ := bind_eq_ok_iff.1 h
    cases hout
    exact Draft.ids_insert ht
  | update nodeId patch changes =>
    obtain ⟨p, hp, hout⟩ := bind_eq_ok_iff.1 h
    obtain ⟨hid, hchildren⟩ := Patch.ofMembers_spares he.1 he.2 hp
    exact Draft.ids_update hid hchildren hout
  | remove nodeId =>
    cases h
    cases hs : draft.find? nodeId with
    | none => simpa only [Accounts, hs] using Draft.remove_of_absent hs
    | some s =>
      obtain ⟨pre, post, hbefore, hremoved⟩ := Draft.exists_ids_remove hs
      simp only [Accounts, hs]
      rw [hbefore, hremoved, List.append_assoc, List.append_assoc]
      exact (List.perm_append_comm).append_left pre
  | toggle nodeId => exact Draft.ids_toggle h
  | move nodeId parentId position =>
    obtain ⟨t, ht, hout⟩ := bind_eq_ok_iff.1 h
    cases hout
    exact Draft.ids_move ht

/-! ### Well-named drafts -/

namespace Draft

variable {draft : Draft}

theorem WellNamed.of_texts {ss : List String} (hids : draft.ids = ss.map .text) (hd : ss.Nodup) :
    draft.WellNamed where
  texts i hi := by
    rw [hids] at hi
    obtain ⟨s, -, rfl⟩ := List.mem_map.1 hi
    exact ⟨s, rfl⟩
  distinct := by
    rw [hids]
    exact List.Pairwise.map Value.text (fun _ _ hne heq => hne (Value.text.inj heq)) hd

theorem WellNamed.of_perm {after : Draft} (h : draft.WellNamed) (hperm : after.ids.Perm draft.ids) :
    after.WellNamed where
  texts i hi := h.texts i (hperm.mem_iff.1 hi)
  distinct := hperm.nodup_iff.2 h.distinct

theorem WellNamed.remove (h : draft.WellNamed) (nodeId : Value) :
    (draft.remove nodeId).WellNamed := by
  cases hs : draft.find? nodeId with
  | none => rwa [remove_of_absent hs]
  | some s =>
    obtain ⟨pre, post, hbefore, hremoved⟩ := exists_ids_remove hs
    have hsub : (draft.remove nodeId).ids.Sublist draft.ids := by
      rw [hbefore, hremoved]
      exact (List.sublist_append_left pre s.ids).append_right post
    exact ⟨fun i hi => h.texts i (hsub.subset hi), h.distinct.sublist hsub⟩

/-- What an insertion brings in has other ids. -/
theorem not_mem_of_insert {new after : OptionTree} {parentId position : Value}
    (hnew : ∀ i ∈ new.ids, ∃ s, i = .text s)
    (h : draft.insert parentId (some new) position = .ok after) : ∀ i ∈ new.ids, i ∉ draft.ids := by
  obtain ⟨t, rfl, hother, -⟩ := insert_inv h
  intro i hi hmem
  obtain ⟨s, rfl⟩ := hnew i hi
  have hwithin : (Value.text s).within t.ids = true := Value.within_texts_iff.2 hmem
  rw [hother _ hi] at hwithin
  cases hwithin

/-- So the ids after an insertion are distinct exactly if they are on both sides. -/
theorem nodup_insert_iff {new after : OptionTree} {parentId position : Value}
    (hnew : ∀ i ∈ new.ids, ∃ s, i = .text s)
    (h : draft.insert parentId (some new) position = .ok after) :
    after.ids.Nodup ↔ draft.ids.Nodup ∧ new.ids.Nodup := by
  have hdisjoint : List.Disjoint draft.ids new.ids := fun i hi hmem =>
    not_mem_of_insert hnew h i hmem hi
  rw [(ids_insert h).nodup_iff, List.nodup_append']
  exact ⟨fun hd => ⟨hd.1, hd.2.1⟩, fun hd => ⟨hd.1, hd.2, hdisjoint⟩⟩

/-- What is brought into a well-named draft has other ids, so the draft stays well named. -/
theorem WellNamed.insert {new after : OptionTree} {parentId position : Value} (h : draft.WellNamed)
    (hnew : WellNamed (some new))
    (hinsert : draft.insert parentId (some new) position = .ok after) : WellNamed (some after) := by
  refine ⟨fun i hi => ?_, (nodup_insert_iff hnew.texts hinsert).2 ⟨h.distinct, hnew.distinct⟩⟩
  rcases List.mem_append.1 ((ids_insert hinsert).mem_iff.1 hi) with hi | hi
  · exact h.texts i hi
  · exact hnew.texts i hi

/-- **An edit leaves a draft well named**, whether it is made or refused. -/
theorem WellNamed.edited (h : draft.WellNamed) {e : Edit} (he : e.Admissible) :
    (draft.edited e).WellNamed := by
  rw [Draft.edited]
  split
  · rename_i after hafter
    have haccounts := Edit.accounts_of_apply he hafter
    cases e with
    | insert parentId new position =>
      obtain ⟨t, ht, hout⟩ := bind_eq_ok_iff.1 hafter
      cases hout
      exact h.insert he ht
    | update nodeId patch changes => exact h.of_perm (.of_eq haccounts)
    | remove nodeId =>
      cases hafter
      exact h.remove nodeId
    | toggle nodeId => exact h.of_perm (.of_eq haccounts)
    | move nodeId parentId position => exact h.of_perm haccounts
  · exact h

theorem WellNamed.editedBy (h : draft.WellNamed) {es : List Edit} (hes : ∀ e ∈ es, e.Admissible) :
    (draft.editedBy es).WellNamed := by
  induction es generalizing draft with
  | nil => exact h
  | cons e es ih =>
    obtain ⟨he, hes⟩ := List.forall_mem_cons.1 hes
    exact ih (h.edited he) hes

/-! ### When an insertion succeeds -/

/-- Among texts an id is found exactly if it is one of the draft's. -/
theorem find?_iff (htexts : ∀ i ∈ draft.ids, ∃ s, i = .text s) {nodeId : Value} :
    (∃ s, draft.find? nodeId = some s) ↔ nodeId ∈ draft.ids := by
  cases draft with
  | none => simp [find?, ids]
  | some t =>
    have hfind : t.find? nodeId = (preorder t).find? fun u => decide (u.id = nodeId) :=
      find?_eq_of_texts htexts nodeId
    rw [find?, Option.bind_some, hfind, ← Option.isSome_iff_exists, List.find?_isSome, ids,
      ids_eq_map, List.mem_map]
    simp

theorem checkIds_of_texts {is : List Value} (htexts : ∀ i ∈ is, ∃ s, i = .text s) :
    checkIds is = .ok () := by
  have hkeys : is.all Value.isKey = true := by
    rw [List.all_eq_true]
    intro i hi
    obtain ⟨s, rfl⟩ := htexts i hi
    rfl
  rw [checkIds, hkeys]
  rfl

end Draft

/-- A position among children that an author may give: none, or a whole number of any size. -/
def Value.IsPosition (v : Value) : Prop := v.asNumber = .null ∨ ∃ n, v.asNumber = .int n

/-- The index among children that a position names: past the last if it is none or out of range. -/
def Value.indexAmong (position : Value) (count : Nat) : Nat :=
  match position.asNumber with
  | .int n => if 0 ≤ n ∧ n < count then n.toNat else count
  | _ => count

theorem Value.indexAmong_le (position : Value) (count : Nat) :
    position.indexAmong count ≤ count := by
  unfold indexAmong
  split
  · split <;> omega
  · exact le_rfl

theorem insertIdx_eq_take_drop {α : Type} (a : α) {as : List α} {k : Nat}
    (h : k ≤ as.length) : as.insertIdx k a = as.take k ++ a :: as.drop k := by
  induction as generalizing k with
  | nil =>
    obtain rfl : k = 0 := Nat.le_zero.1 h
    rfl
  | cons b as ih =>
    cases k with
    | zero => rfl
    | succ k => simpa using ih (Nat.le_of_succ_le_succ h)

/-- The place that is found for a position is the index it names. -/
theorem exists_place {position : Value} (h : position.IsPosition) (new : OptionTree)
    (cs : List OptionTree) : ∃ at?, placeAmong position cs.length = .ok at? ∧
      place at? new cs = cs.insertIdx (position.indexAmong cs.length) new := by
  rcases h with h | ⟨n, h⟩
  · exact ⟨none, by rw [placeAmong, h], by simp [Value.indexAmong, h, place]⟩
  · refine ⟨_, by rw [placeAmong, h], ?_⟩
    simp only [Value.indexAmong, h]
    split
    · rename_i hn
      rw [insertIdx_eq_take_drop new (by omega)]
      rfl
    · simp [place]

theorem placeAmong_error {position : Value} {count : Nat} {e : Error}
    (h : placeAmong position count = .error e) : e = .fault .wrongKind := by
  rw [placeAmong] at h
  split at h
  · cases h
  · cases h
  · split at h
    · cases h
      rfl
    · cases h
  · cases h
    rfl

theorem exists_attach {t parent : OptionTree} (new : OptionTree) {parentId position : Value}
    (hparent : t.find? parentId = some parent) (hposition : position.IsPosition) :
    ∃ after, Draft.attach t parentId new position = .ok after := by
  obtain ⟨at?, hat, -⟩ := exists_place hposition new parent.children
  obtain ⟨g, -, hreplace⟩ := exists_gap_of_find? hparent
  obtain ⟨u, hu⟩ := g.exists_fill (parent.withChildren (place at? new parent.children))
  refine ⟨u, ?_⟩
  simp only [Draft.attach, hparent, hat, ok_bind, hreplace, hu]
  rfl

/-- A tree that cannot take another one in is short of a parent or given no position. -/
theorem attach_ne_duplicateIds {t new : OptionTree} {parentId position : Value}
    {names : List String} {under : Value} :
    Draft.attach t parentId new position ≠ .error (.duplicateIds names under) := by
  intro h
  rw [Draft.attach] at h
  split at h
  · cases h
  · rename_i parent hparent
    cases hplace : placeAmong position parent.children.length with
    | error e =>
      have he : e = .fault .wrongKind := placeAmong_error hplace
      rw [hplace, he] at h
      cases h
    | ok at? =>
      rw [hplace, ok_bind] at h
      split at h <;> cases h

namespace Draft

section Texts

variable {t new : OptionTree} {parentId position : Value}
  (htexts : ∀ i ∈ t.ids, ∃ s, i = .text s) (hnew : ∀ i ∈ new.ids, ∃ s, i = .text s)
include htexts hnew

/-- What brings other ids only is attached. -/
theorem insert_eq_attach (hother : ∀ i ∈ new.ids, i ∉ t.ids) :
    insert (some t) parentId (some new) position = attach t parentId new position := by
  have hnone : (new.ids.filter fun i => i.within t.ids) = [] := by
    rw [List.filter_eq_nil_iff]
    intro i hi hwithin
    obtain ⟨s, rfl⟩ := hnew i hi
    exact hother _ hi (Value.within_texts_iff.1 hwithin)
  simp only [insert, checkIds_of_texts htexts, checkIds_of_texts hnew, hnone, ok_bind]

/-- Among texts an insertion succeeds exactly if the parent is there and none of the ids brought in
is. -/
theorem insert_ok_iff (hposition : position.IsPosition) :
    (∃ after, insert (some t) parentId (some new) position = .ok after) ↔
      parentId ∈ t.ids ∧ ∀ i ∈ new.ids, i ∉ t.ids := by
  have hids : ∀ i ∈ ids (some t), ∃ s, i = .text s := htexts
  have hfind : (∃ s, t.find? parentId = some s) ↔ parentId ∈ t.ids := find?_iff hids
  constructor
  · rintro ⟨after, hinsert⟩
    refine ⟨hfind.1 ?_, not_mem_of_insert hnew hinsert⟩
    obtain ⟨u, hu, -, hattach⟩ := insert_inv hinsert
    obtain rfl := Option.some.inj hu
    cases hparent : t.find? parentId with
    | some parent => exact ⟨parent, rfl⟩
    | none =>
      rw [attach, hparent] at hattach
      cases hattach
  · rintro ⟨hparent, hother⟩
    obtain ⟨parent, hparent⟩ := hfind.2 hparent
    rw [insert_eq_attach htexts hnew hother]
    exact exists_attach new hparent hposition

/-- An insertion that brings an id which is there is refused for this cause. -/
theorem insert_of_repeated (parentId position : Value) {i : Value} (hi : i ∈ new.ids)
    (hmem : i ∈ t.ids) :
    ∃ names : List String, (new.ids.filter fun j => j.within t.ids) = names.map .text ∧
      insert (some t) parentId (some new) position = .error (.duplicateIds names parentId) := by
  obtain ⟨name, rfl⟩ := hnew i hi
  have hrepeated : .text name ∈ new.ids.filter fun j => j.within t.ids :=
    List.mem_filter.2 ⟨hi, Value.within_texts_iff.2 hmem⟩
  have htextual : ∀ j ∈ new.ids.filter fun j => j.within t.ids, ∃ s, j = .text s :=
    fun j hj => hnew j (List.mem_filter.1 hj).1
  obtain ⟨names, hnames⟩ := Value.exists_texts htextual
  refine ⟨names, hnames, ?_⟩
  simp only [insert, checkIds_of_texts htexts, checkIds_of_texts hnew, ok_bind]
  split
  · rename_i hnone
    rw [hnone] at hrepeated
    cases hrepeated
  · rw [hnames, Value.asTexts_texts, ok_bind]

/-- An insertion is refused for repeated ids only if it brings one that is there. -/
theorem exists_repeated {names : List String} {under : Value}
    (h : insert (some t) parentId (some new) position = .error (.duplicateIds names under)) :
    ∃ i ∈ new.ids, i ∈ t.ids := by
  by_contra hother
  push Not at hother
  rw [insert_eq_attach htexts hnew hother] at h
  exact attach_ne_duplicateIds h

end Texts

/-- An insertion into a well-named draft succeeds exactly if the parent is there and none of the ids
brought in is. -/
theorem exists_insert_iff {draft : Draft} {new : OptionTree} {parentId position : Value}
    (h : draft.WellNamed) (hnew : WellNamed (some new)) (hposition : position.IsPosition) :
    (∃ after, draft.insert parentId (some new) position = .ok after) ↔
      parentId ∈ draft.ids ∧ ∀ i ∈ new.ids, i ∉ draft.ids := by
  cases draft with
  | none =>
    refine iff_of_false ?_ (fun hthere => List.not_mem_nil hthere.1)
    rintro ⟨after, hinsert⟩
    cases hinsert
  | some t => exact insert_ok_iff h.texts hnew.texts hposition

end Draft

/-! ### Whole runs -/

/-- **Editing keeps ids distinct and accounts for every node.** After a run of edits of any length,
refused ones included, a well-named draft is well named. Whatever edit comes next accounts for the
ids, and if it is an insertion, it is made exactly if the parent is there and none of the ids
brought in is. -/
theorem edits_account {draft : Draft} (h : draft.WellNamed) {es : List Edit}
    (hes : ∀ e ∈ es, e.Admissible) :
    (draft.editedBy es).WellNamed ∧
    (∀ e : Edit, e.Admissible → ∀ after, e.apply (draft.editedBy es) = .ok after →
      e.Accounts (draft.editedBy es) after) ∧
    ∀ parentId new position, Draft.WellNamed (some new) → position.IsPosition →
      ((∃ after, (Edit.insert parentId new position).apply (draft.editedBy es) = .ok after) ↔
        parentId ∈ (draft.editedBy es).ids ∧ ∀ i ∈ new.ids, i ∉ (draft.editedBy es).ids) := by
  have hrun := h.editedBy hes
  refine ⟨hrun, fun e he after => Edit.accounts_of_apply he, ?_⟩
  intro parentId new position hnew hposition
  rw [← Draft.exists_insert_iff hrun hnew hposition]
  constructor
  · rintro ⟨after, hafter⟩
    obtain ⟨t, ht, -⟩ := bind_eq_ok_iff.1 hafter
    exact ⟨t, ht⟩
  · rintro ⟨t, ht⟩
    exact ⟨some t, bind_eq_ok_iff.2 ⟨t, ht, rfl⟩⟩

/-- A depot with a box on its shelf. -/
def depot : OptionTree :=
  .node { id := "depot", label := "Depot", kind := .root }
    [.node { id := "shelf", label := "Shelf" } [.node { id := "box", label := "Box" } []],
      .node { id := "rack", label := "Rack" } []]

/-- A box on its own. -/
def box : OptionTree := .node { id := "box", label := "Box" } []

/-- A crate with a lid. -/
def crate : OptionTree :=
  .node { id := "crate", label := "Crate" } [.node { id := "lid", label := "Lid" } []]

/-- A run of edits: the box goes to the rack, a crate comes onto the shelf and, refused, once more,
the crate gets another label, and the rack goes. -/
def tidying : List Edit :=
  [.move "box" "rack" .null, .insert "shelf" crate (.int 0), .insert "rack" crate .null,
    .update "crate" [("label", "Chest")] [], .toggle "shelf", .remove "rack"]

theorem edits_account_depot :
    Draft.ids (Draft.editedBy (some depot) tidying) =
      ["depot", "shelf", "crate", "lid"].map Value.text ∧
    Draft.WellNamed (Draft.editedBy (some depot) tidying) ∧
    ¬ (∃ after, (Edit.insert "depot" crate .null).apply (Draft.editedBy (some depot) tidying) =
      .ok after) ∧
    ∃ after, (Edit.insert "lid" box (.int (-1))).apply (Draft.editedBy (some depot) tidying) =
      .ok after := by
  have hids : Draft.ids (Draft.editedBy (some depot) tidying) =
      ["depot", "shelf", "crate", "lid"].map Value.text := by cbv
  have hcrateIds : crate.ids = ["crate", "lid"].map Value.text := by cbv
  have hboxIds : box.ids = ["box"].map Value.text := by cbv
  have hdepotIds : Draft.ids (some depot) = ["depot", "shelf", "box", "rack"].map Value.text := by
    cbv
  have hdepot : Draft.WellNamed (some depot) := .of_texts hdepotIds (by decide)
  have hcrate : Draft.WellNamed (some crate) := .of_texts hcrateIds (by decide)
  have htidying : ∀ e ∈ tidying, e.Admissible := by
    simp [tidying, Edit.Admissible, hcrate, Members.SparesIds, Members.names]
  obtain ⟨hrun, -, hinsert⟩ := edits_account hdepot htidying
  refine ⟨hids, hrun, fun hmade => ?_, ?_⟩
  · have hother := ((hinsert "depot" crate .null hcrate (.inl rfl)).1 hmade).2
    rw [hids, hcrateIds] at hother
    exact hother "crate" (by decide) (by decide)
  · refine (hinsert "lid" box (.int (-1)) (.of_texts hboxIds (by decide)) (.inr ⟨-1, rfl⟩)).2 ?_
    rw [hids, hboxIds]
    exact ⟨by decide, by decide⟩

end BranchForm
