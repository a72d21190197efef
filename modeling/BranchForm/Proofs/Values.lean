import BranchForm.Value.Access

/-!
# Texts among values

Ids, slugs and step names are texts. Among texts the agreement of values is equality, so the members
of a record and the order of a list behave as they do in a language with one kind of name.

* `bind_eq_ok_iff` and `map_eq_ok_iff` : a computation succeeds if its parts do, one after the other;
* `Value.agrees_text_iff` : only a text agrees with a text, and then it is the same text;
* `Members.get?_put` : a member set under a text is found under that text, and no other look-up
  changes; `Members.get?_putAll` : the same for the members of a whole record;
* `Members.ofPairs_of_nodup` : a record under distinct texts is written as it is;
* `Value.sort?_texts` : texts can always be sorted, and none is lost or gained.
-/

namespace BranchForm

theorem bind_eq_ok_iff {ε α β : Type} {x : Except ε α} {f : α → Except ε β} {b : β} :
    (x >>= f) = .ok b ↔ ∃ a, x = .ok a ∧ f a = .ok b := by
  cases x with
  | error e => exact ⟨nofun, nofun⟩
  | ok a => exact ⟨fun h => ⟨a, rfl, h⟩, fun ⟨_, ha, h⟩ => Except.ok.inj ha ▸ h⟩

theorem map_eq_ok_iff {ε α β : Type} {x : Except ε α} {f : α → β} {b : β} :
    x.map f = .ok b ↔ ∃ a, x = .ok a ∧ f a = b := by
  cases x with
  | error e => exact ⟨nofun, nofun⟩
  | ok a => simp [Except.map]

@[simp]
theorem ok_bind {ε α β : Type} (a : α) (f : α → Except ε β) : (Except.ok a >>= f) = f a := rfl

@[simp]
theorem map_ok {ε α β : Type} (a : α) (f : α → β) :
    f <$> (Except.ok a : Except ε α) = .ok (f a) := rfl

theorem eq_ok_of_toOption {ε α : Type} {x : Except ε α} {a : α} (h : x.toOption = some a) :
    x = .ok a := by
  cases x with
  | error e => cases h
  | ok b => rw [Option.some.inj h]

/-- Elements that are read one by one are read together. -/
theorem mapM_map_ok {α β γ ε : Type} {f : α → Except ε β} {g : γ → α} {h : γ → β} {cs : List γ}
    (hcs : ∀ c ∈ cs, f (g c) = .ok (h c)) : (cs.map g).mapM f = .ok (cs.map h) := by
  induction cs with
  | nil => rfl
  | cons c cs ih =>
    rw [List.map_cons, List.mapM_cons, hcs c List.mem_cons_self, ok_bind,
      ih fun d hd => hcs d (List.mem_cons_of_mem _ hd)]
    rfl

/-- Elements that can all be read are read together, and what holds of each holds of all. -/
theorem exists_mapM_ok {α β ε : Type} {f : α → Except ε β} {P : β → Prop} {vs : List α}
    (h : ∀ v ∈ vs, ∃ a, f v = .ok a ∧ P a) : ∃ as, vs.mapM f = .ok as ∧ ∀ a ∈ as, P a := by
  induction vs with
  | nil => exact ⟨[], rfl, nofun⟩
  | cons v vs ih =>
    obtain ⟨a, hread, ha⟩ := h v List.mem_cons_self
    obtain ⟨as, hrest, has⟩ := ih fun w hw => h w (List.mem_cons_of_mem _ hw)
    refine ⟨a :: as, ?_, List.forall_mem_cons.2 ⟨ha, has⟩⟩
    rw [List.mapM_cons, hread, ok_bind, hrest]
    rfl

/-- What is read together is read from the elements one by one. -/
theorem exists_of_mapM_ok {α β ε : Type} {f : α → Except ε β} {vs : List α} {as : List β}
    (h : vs.mapM f = .ok as) : ∀ a ∈ as, ∃ v ∈ vs, f v = .ok a := by
  induction vs generalizing as with
  | nil =>
    cases h
    exact nofun
  | cons v vs ih =>
    rw [List.mapM_cons] at h
    obtain ⟨b, hb, h⟩ := bind_eq_ok_iff.1 h
    obtain ⟨bs, hbs, h⟩ := bind_eq_ok_iff.1 h
    cases h
    intro a ha
    rcases List.mem_cons.1 ha with rfl | ha
    · exact ⟨v, List.mem_cons_self, hb⟩
    · obtain ⟨w, hw, hread⟩ := ih hbs a ha
      exact ⟨w, List.mem_cons_of_mem _ hw, hread⟩

namespace Value

theorem orElse_orElse (v w : Value) : (v.orElse w).orElse w = v.orElse w := by
  by_cases h : v.truthy = true
  · simp [orElse, h]
  · simp [orElse, h]

/-- A replacement that does not count as present is replaced in turn. -/
theorem orElse_orElse_of_absent {w : Value} (hw : w.truthy = false) (v other : Value) :
    (v.orElse w).orElse other = v.orElse other := by
  by_cases h : v.truthy = true
  · simp [orElse, h]
  · simp [orElse, h, hw]

theorem agrees_text_iff {v : Value} {s : String} : v.agrees (.text s) = true ↔ v = .text s := by
  cases v <;> simp [agrees, asNumber, numberAgrees, eq_comm]

theorem text_agrees_iff {s : String} {v : Value} : (Value.text s).agrees v = true ↔ v = .text s := by
  simp [agrees]

theorem agrees_iff_of_text {v w : Value} (h : ∃ s, v = .text s) : v.agrees w = true ↔ v = w := by
  obtain ⟨s, rfl⟩ := h
  rw [text_agrees_iff, eq_comm]

theorem within_texts_iff {s : String} {vs : List Value} :
    (Value.text s).within vs = true ↔ Value.text s ∈ vs := by
  simp only [within, List.any_eq_true, agrees_text_iff]
  exact ⟨fun ⟨_, hmem, he⟩ => he ▸ hmem, fun hmem => ⟨_, hmem, rfl⟩⟩

/-- How often a text stands in a list is how many of its values agree with it. -/
theorem length_filter_agrees_text (s : String) (vs : List Value) :
    (vs.filter (·.agrees (.text s))).length = vs.count (.text s) := by
  induction vs with
  | nil => rfl
  | cons v vs ih =>
    by_cases h : v = .text s
    · simp [agrees_text_iff, h, ih]
    · simp [agrees_text_iff, h, ih]

theorem exists_texts {vs : List Value} (h : ∀ v ∈ vs, ∃ s, v = .text s) :
    ∃ ss : List String, vs = ss.map .text := by
  induction vs with
  | nil => exact ⟨[], rfl⟩
  | cons v vs ih =>
    obtain ⟨s, rfl⟩ := h v List.mem_cons_self
    obtain ⟨ss, rfl⟩ := ih fun w hw => h w (List.mem_cons_of_mem _ hw)
    exact ⟨s :: ss, rfl⟩

/-! ### Sorting texts -/

theorem insert?_texts (s : String) (ss : List String) :
    ∃ us : List String, insert? (.text s) (ss.map .text) = some (us.map .text) ∧
      us.Perm (s :: ss) := by
  induction ss with
  | nil => exact ⟨[s], rfl, .refl _⟩
  | cons t ss ih =>
    obtain ⟨us, hus, hperm⟩ := ih
    by_cases hlt : s < t
    · exact ⟨s :: t :: ss, by simp [insert?, less?, hlt], .refl _⟩
    · exact ⟨t :: us, by simp [insert?, less?, hlt, hus], (hperm.cons t).trans (.swap s t ss)⟩

theorem foldlM_insert?_texts (ss sorted : List String) :
    ∃ us : List String, (ss.map Value.text).foldlM (fun sorted v => insert? v sorted)
      (sorted.map .text) = some (us.map .text) ∧ us.Perm (ss ++ sorted) := by
  induction ss generalizing sorted with
  | nil => exact ⟨sorted, rfl, .refl _⟩
  | cons s ss ih =>
    obtain ⟨us, hus, hperm⟩ := insert?_texts s sorted
    obtain ⟨ws, hws, hperm'⟩ := ih us
    refine ⟨ws, by simp [hus, hws], hperm'.trans ?_⟩
    exact (hperm.append_left ss).trans List.perm_middle

/-- Texts have an order with each other, so sorting them succeeds and only rearranges them. -/
theorem sort?_texts (ss : List String) :
    ∃ us : List String, sort? (ss.map .text) = some (us.map .text) ∧ us.Perm ss := by
  obtain ⟨us, hus, hperm⟩ := foldlM_insert?_texts ss []
  exact ⟨us, hus, by simpa using hperm⟩

theorem asTexts_texts (ss : List String) : asTexts (ss.map .text) = .ok ss := by
  induction ss with
  | nil => rfl
  | cons s ss ih =>
    simp only [asTexts, List.map_cons, List.mapM_cons] at ih ⊢
    rw [ih]
    rfl

/-! ### Reading texts and lists -/

theorem asText_inv {v : Value} {s : String} (h : v.asText = .ok s) : v = .text s := by
  cases v with
  | text t => exact congrArg Value.text (Except.ok.inj h)
  | _ => cases h

@[simp]
theorem asLabel_text (s : String) : (text s).asLabel = .ok s := by
  have htext : (text s).hasText = true := rfl
  rw [asLabel, if_pos htext]
  rfl

@[simp]
theorem elementsOrNone_list (vs : List Value) : (list vs).elementsOrNone = .ok vs := by
  cases vs <;> rfl

end Value

namespace Members

@[simp]
theorem get?_nil (name : Value) : get? [] name = none := rfl

@[simp]
theorem get?_cons (k name : String) (v : Value) (ms : Members) :
    get? ((.text k, v) :: ms) name = if k = name then some v else get? ms name := by
  by_cases h : k = name
  · simp [get?, Value.agrees_text_iff, h]
  · simp [get?, Value.agrees_text_iff, h]

@[simp]
theorem get?_append (ms ns : Members) (name : Value) :
    get? (ms ++ ns) name = (get? ms name).or (get? ns name) := by
  simp only [get?, List.find?_append]
  cases List.find? (fun x => x.1.agrees name) ms <;> rfl

theorem get?_eq_none_iff {ms : Members} {name : String} :
    get? ms name = none ↔ Value.text name ∉ names ms := by
  rw [get?, Option.map_eq_none_iff, List.find?_eq_none, names, List.mem_map]
  constructor
  · rintro h ⟨m, hm, hname⟩
    exact h m hm (Value.agrees_text_iff.2 hname)
  · intro h m hm hagrees
    exact h ⟨m, hm, Value.agrees_text_iff.1 hagrees⟩

theorem mem_of_get? {ms : Members} {name : String} {v : Value}
    (h : get? ms name = some v) : (.text name, v) ∈ ms := by
  obtain ⟨⟨k, w⟩, hfind, rfl⟩ := Option.map_eq_some_iff.1 h
  have hk : k.agrees (.text name) = true :=
    List.find?_some (p := fun m : Value × Value => m.1.agrees (.text name)) hfind
  rw [Value.agrees_text_iff] at hk
  exact hk ▸ List.mem_of_find?_eq_some hfind

theorem getOrNull_of_get? {ms : Members} {name : String} {v : Value}
    (h : get? ms name = some v) : getOrNull ms name = v := by
  simp [getOrNull, getD, h]

theorem getOrNull_of_none {ms : Members} {name : String} (h : get? ms name = none) :
    getOrNull ms name = .null := by
  simp [getOrNull, getD, h]

/-- A member set under a text is found under that text, and no other look-up changes. -/
theorem get?_put (ms : Members) (name other : String) (v : Value) :
    get? (put ms name v) other = if name = other then some v else get? ms other := by
  induction ms with
  | nil => simp [put]
  | cons m ms ih =>
    obtain ⟨k, w⟩ := m
    by_cases hk : k.agrees name = true
    -- the member that is set again is passed over by other look-ups, as it was before
    · rw [Value.agrees_text_iff] at hk
      subst hk
      by_cases h : name = other <;> simp [put, Value.agrees_text_iff, h]
    · by_cases ho : k.agrees other = true
      · have hne : name ≠ other := by
          rintro rfl
          exact hk ho
        simp [put, hk, ho, get?, hne]
      · simp only [get?, put, hk, ho, Bool.false_eq_true, ↓reduceIte, List.find?_cons] at ih ⊢
        exact ih

/-- A member set under one name leaves the one under another, if nothing agrees with both. -/
theorem get?_put_of_apart {name other : Value} (hname : name.agrees other = false)
    (hapart : ∀ k : Value, k.agrees name = true → k.agrees other = false) (ms : Members)
    (v : Value) : get? (put ms name v) other = get? ms other := by
  induction ms with
  | nil => simp [put, get?, hname]
  | cons m ms ih =>
    obtain ⟨k, w⟩ := m
    by_cases hk : k.agrees name = true
    · simp [put, hk, get?, hapart k hk]
    · simp only [get?, put, hk, Bool.false_eq_true, ↓reduceIte, List.find?_cons] at ih ⊢
      split
      · rfl
      · exact ih

/-- A member set under another name leaves the one under a text. -/
theorem get?_put_of_ne {name : Value} {other : String} (hne : name ≠ .text other)
    (ms : Members) (v : Value) : get? (put ms name v) other = get? ms other := by
  have hname : name.agrees (.text other) = false :=
    Bool.eq_false_iff.2 fun h => hne (Value.agrees_text_iff.1 h)
  refine get?_put_of_apart hname (fun k hk => Bool.eq_false_iff.2 fun h => ?_) ms v
  obtain rfl := Value.agrees_text_iff.1 h
  exact hne (Value.text_agrees_iff.1 hk)

/-- A member set under a text leaves those under other names. -/
theorem get?_put_text_of_ne {name : String} {other : Value} (hne : other ≠ .text name)
    (ms : Members) (v : Value) : get? (put ms name v) other = get? ms other := by
  have hname : (Value.text name).agrees other = false :=
    Bool.eq_false_iff.2 fun h => hne (Value.text_agrees_iff.1 h)
  refine get?_put_of_apart hname (fun k hk => ?_) ms v
  rwa [Value.agrees_text_iff.1 hk]

theorem getOrNull_put_self (ms : Members) (name : String) (v : Value) :
    getOrNull (put ms name v) name = v := by
  simp [getOrNull, getD, get?_put]

theorem getOrNull_put_of_ne (ms : Members) {name other : String} (v : Value) (h : other ≠ name) :
    getOrNull (put ms name v) other = getOrNull ms other := by
  simp [getOrNull, getD, get?_put, Ne.symm h]

/-- Of members set over others those that were set are found first. -/
theorem get?_putAll {extra : Members} (hd : (names extra).Nodup)
    (htexts : ∀ m ∈ extra, ∃ s, m.1 = .text s) (ms : Members) (name : String) :
    get? (putAll ms extra) name = (get? extra name).or (get? ms name) := by
  induction extra generalizing ms with
  | nil => rfl
  | cons m extra ih =>
    obtain ⟨k, v⟩ := m
    obtain ⟨key, hkey⟩ := htexts (k, v) List.mem_cons_self
    obtain rfl : k = .text key := hkey
    rw [names, List.map_cons, List.nodup_cons] at hd
    have hrest : get? (putAll (put ms key v) extra) name =
        (get? extra name).or (get? (put ms key v) name) :=
      ih hd.2 (fun n hn => htexts n (List.mem_cons_of_mem _ hn)) _
    rw [putAll, List.foldl_cons, ← putAll, hrest, get?_put, get?_cons]
    by_cases h : key = name
    · subst h
      have hnone : get? extra key = none := get?_eq_none_iff.2 hd.1
      simp [hnone]
    · simp [h]

theorem put_of_new {acc : Members} {name v : Value} (h : ∀ m ∈ acc, m.1.agrees name = false) :
    put acc name v = acc ++ [(name, v)] := by
  induction acc with
  | nil => rfl
  | cons m acc ih =>
    rw [put, h m List.mem_cons_self, ih fun n hn => h n (List.mem_cons_of_mem _ hn)]
    rfl

theorem putAll_of_nodup {acc ms : Members} (hd : (names (acc ++ ms)).Nodup)
    (hnames : ∀ m ∈ ms, ∃ s, m.1 = .text s) : putAll acc ms = acc ++ ms := by
  induction ms generalizing acc with
  | nil => simp [putAll]
  | cons m ms ih =>
    obtain ⟨name, v⟩ := m
    obtain ⟨s, hs⟩ := hnames (name, v) List.mem_cons_self
    have hnew : ∀ n ∈ acc, n.1.agrees name = false := by
      intro n hn
      obtain rfl : name = .text s := hs
      rw [Bool.eq_false_iff, Ne, Value.agrees_text_iff]
      rw [names, List.map_append, List.nodup_append] at hd
      exact hd.2.2 n.1 (List.mem_map_of_mem hn) _ (List.mem_map_of_mem List.mem_cons_self)
    have hrest : putAll (acc ++ [(name, v)]) ms = acc ++ [(name, v)] ++ ms :=
      ih (by simpa using hd) fun n hn => hnames n (List.mem_cons_of_mem _ hn)
    rw [← put_of_new hnew] at hrest
    rw [List.append_cons, ← put_of_new hnew]
    exact hrest

/-- Nothing is lost from a record whose names are distinct texts. -/
theorem ofPairs_of_nodup {ms : Members} (hd : (names ms).Nodup)
    (hnames : ∀ m ∈ ms, ∃ s, m.1 = .text s) : ofPairs ms = ms :=
  putAll_of_nodup hd hnames

end Members

end BranchForm
