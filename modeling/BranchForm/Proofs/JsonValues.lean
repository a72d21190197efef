import BranchForm.Proofs.NumberText

/-!
# What is read from JSON text

A value that is read from a text is one that a text keeps: its whole numbers have no more digits than
were written, its other numbers were rounded when they were read, and of members under one name the
last one was kept.

* `Members.nodup_names_put` : a record in which a member is put has each name once if it had before;
* `plain_of_readAtom` : words and numbers are plain;
* `readItems_inv`, `readMembers_inv` and `readValue_inv` say what a text was read from, and of what
  parts;
* `plain_of_readValue`, `plain_of_readItems` and `plain_of_readMembers` follow the reader;
  `plain_of_read` is the result, and `plain_iff` : no other values can be read.
-/

namespace BranchForm

namespace Members

/-- Setting a member under a text adds the name if it is new. -/
theorem names_put (ms : Members) (name : String) (v : Value) :
    names (put ms name v) = if .text name ∈ names ms then names ms else names ms ++ [.text name] := by
  induction ms with
  | nil => rfl
  | cons m ms ih =>
    obtain ⟨k, w⟩ := m
    by_cases hk : k = .text name
    · rw [put, if_pos (Value.agrees_text_iff.2 hk)]
      simp [names, hk]
    · have hne : ¬ k.agrees (.text name) = true := fun h => hk (Value.agrees_text_iff.1 h)
      have hmem : .text name ∈ names ((k, w) :: ms) ↔ .text name ∈ names ms := by
        simp [names, Ne.symm hk]
      rw [put, if_neg hne]
      simp only [hmem]
      change k :: names (put ms name v) = _
      rw [ih]
      split_ifs <;> rfl

theorem nodup_names_put {ms : Members} (h : (names ms).Nodup) (name : String) (v : Value) :
    (names (put ms name v)).Nodup := by
  rw [names_put]
  by_cases hmem : .text name ∈ names ms
  · rwa [if_pos hmem]
  · rw [if_neg hmem]
    exact List.nodup_append.2 ⟨h, List.nodup_singleton _, fun k hk l hl heq =>
      hmem (List.mem_singleton.1 hl ▸ heq ▸ hk)⟩

/-- A member of a record in which one is set is that one, under the name it had, or an old one. -/
theorem mem_put {ms : Members} {name v : Value} {m : Value × Value} (h : m ∈ put ms name v) :
    m ∈ ms ∨ m.2 = v ∧ (m.1 = name ∨ m.1 ∈ names ms) := by
  induction ms with
  | nil =>
    obtain rfl := List.mem_singleton.1 h
    exact .inr ⟨rfl, .inl rfl⟩
  | cons n ms ih =>
    obtain ⟨k, w⟩ := n
    rw [put] at h
    split at h
    · rcases List.mem_cons.1 h with rfl | h
      · exact .inr ⟨rfl, .inr List.mem_cons_self⟩
      · exact .inl (List.mem_cons_of_mem _ h)
    · rcases List.mem_cons.1 h with rfl | h
      · exact .inl List.mem_cons_self
      · rcases ih h with hmem | ⟨hv, hname | hmem⟩
        · exact .inl (List.mem_cons_of_mem _ hmem)
        · exact .inr ⟨hv, .inl hname⟩
        · exact .inr ⟨hv, .inr (List.mem_cons_of_mem _ hmem)⟩

end Members

namespace Json

/-! ### Records from pairs -/

theorem plainMembers_put {ms : Members} (hms : PlainMembers ms) (name : String) {v : Value}
    (hv : Plain v) : PlainMembers (Members.put ms name v) := by
  rw [plainMembers_iff] at hms ⊢
  intro m hm
  rcases Members.mem_put hm with hmem | ⟨rfl, hname | hmem⟩
  · exact hms m hmem
  · exact ⟨⟨name, hname⟩, hv⟩
  · obtain ⟨n, hn, hname⟩ := List.mem_map.1 hmem
    exact ⟨hname ▸ (hms n hn).1, hv⟩

theorem plain_putAll {ms extra : Members} (hms : Plain (.record ms)) (hextra : PlainMembers extra) :
    Plain (.record (Members.putAll ms extra)) := by
  induction extra generalizing ms with
  | nil => exact hms
  | cons m extra ih =>
    obtain ⟨name, v⟩ := m
    obtain ⟨⟨s, rfl⟩, hv, hextra⟩ := hextra
    have hput : Plain (.record (Members.put ms (.text s) v)) :=
      ⟨Members.nodup_names_put hms.1 s v, plainMembers_put hms.2 s hv⟩
    exact ih hput hextra

/-- A record written from plain values under texts is plain. -/
theorem plain_ofPairs {ms : Members} (h : PlainMembers ms) :
    Plain (.record (Members.ofPairs ms)) :=
  plain_putAll ⟨List.nodup_nil, trivial⟩ h

/-! ### Words and numbers -/

theorem digitValue_lt {c : Char} (h : c.isDigit = true) : digitValue c < 10 := by
  simp only [Char.isDigit, ge_iff_le, Bool.and_eq_true, decide_eq_true_eq] at h
  have hle : c.val.toNat ≤ '9'.val.toNat := h.2
  have hnine : '9'.val.toNat = '0'.toNat + 9 := rfl
  unfold digitValue
  change c.val.toNat - _ < 10
  omega

theorem decimal_lt {ds : List Char} (h : ∀ d ∈ ds, d.isDigit = true) :
    decimal ds < 10 ^ ds.length := by
  induction ds using List.reverseRecOn with
  | nil => decide
  | append_singleton ds d ih =>
    have hds := ih fun e he => h e (List.mem_append_left _ he)
    have hd := digitValue_lt (h d (List.mem_append_right _ List.mem_cons_self))
    have hsplit : decimal (ds ++ [d]) = 10 * decimal ds + digitValue d := decimal_append ds [d]
    rw [hsplit, List.length_append, List.length_singleton, Nat.pow_succ]
    omega

/-- A number that is read is plain: a whole one has no more digits than were written. -/
theorem plain_of_numberFrom {negative : Bool} {whole cs rest : List Char} {v : Value}
    (hwhole : ∀ d ∈ whole, d.isDigit = true) (hne : whole ≠ [])
    (h : numberFrom negative whole cs = (some v, rest)) : Plain v := by
  unfold numberFrom at h
  dsimp only at h
  split at h
  · split at h
    · rename_i hlength
      obtain rfl := Option.some.inj (Prod.mk.inj h).1
      have habs : (if negative = true then -(decimal whole : Int) else decimal whole).natAbs =
          decimal whole := by
        cases negative <;> simp
      unfold Plain
      rw [habs]
      refine Nat.le_trans ?_ hlength
      exact (Nat.length_toDigits_le_iff (by decide) (List.length_pos_of_ne_nil hne)).2
        (decimal_lt hwhole)
    · cases (Prod.mk.inj h).1
  · obtain rfl := Option.some.inj (Prod.mk.inj h).1
    exact legible_of_regular (Binary64.regular_ofDecimal _ _ _)

theorem isDigit_of_mem_digits {cs : List Char} {d : Char} (h : d ∈ (digits cs).1) :
    d.isDigit = true :=
  List.mem_takeWhile_imp h

theorem plain_of_readUnsigned {negative : Bool} {left : Nat} {cs : List Char} {v : Value}
    {rest : Rest cs} (h : readUnsigned negative left cs = .ok (v, rest)) : Plain v := by
  have hfinish : ∀ {cs : List Char} {w : Option Value} {r : Rest cs} {v : Value} {rest : Rest cs},
      finishNumber left w r = .ok (v, rest) → w = some v := by
    intro cs w r v rest h
    cases w with
    | none => cases h
    | some w => rw [(Prod.mk.inj (Except.ok.inj h)).1]
  cases cs with
  | nil => cases h
  | cons c cs =>
    unfold readUnsigned at h
    dsimp only at h
    split at h
    · have hv := hfinish h
      have hzero : ∀ d ∈ ['0'], d.isDigit = true := by simp
      exact plain_of_numberFrom hzero (List.cons_ne_nil _ _) (Prod.ext hv rfl)
    · split at h
      · rename_i hc
        have hv := hfinish h
        have hwhole : ∀ d ∈ c :: (digits cs).1, d.isDigit = true :=
          List.forall_mem_cons.2 ⟨hc, fun d hd => isDigit_of_mem_digits hd⟩
        exact plain_of_numberFrom hwhole (List.cons_ne_nil _ _) (Prod.ext hv rfl)
      · cases h

theorem plain_of_readAtom {cs : List Char} {v : Value} {rest : Rest cs}
    (h : readAtom cs = .ok (v, rest)) : Plain v := by
  unfold readAtom at h
  split at h
  · cases h
    trivial
  · cases h
    trivial
  · cases h
    trivial
  · cases h
    exact legible_of_regular (x := .nan) trivial
  · cases h
    exact legible_of_regular (x := .infinite false) trivial
  · cases h
    exact legible_of_regular (x := .infinite true) trivial
  · split at h
    · cases h
    · rename_i hread
      cases h
      exact plain_of_readUnsigned hread
  · exact plain_of_readUnsigned h

/-! ### What a text was read from -/

/-- A list was read element by element. -/
theorem readItems_inv {cs : List Char} {vs : List Value} {rest : Rest cs}
    (h : readItems cs = .ok (vs, rest)) :
    ∃ v r, readValue cs = .ok (v, r) ∧ (vs = [v] ∨ ∃ t us u, (skip t).length < cs.length ∧
      readItems (skip t) = .ok (us, u) ∧ vs = v :: us) := by
  unfold readItems at h
  cases hv : readValue cs with
  | error f =>
    rw [hv] at h
    cases h
  | ok result =>
    obtain ⟨v, r, hr⟩ := result
    rw [hv] at h
    dsimp only at h
    refine ⟨v, ⟨r, hr⟩, rfl, ?_⟩
    split at h
    · cases h
      exact .inl rfl
    · rename_i t ht
      have hlt := length_of_skip ht
      have hle := length_skip_le t
      cases hus : readItems (skip t) with
      | error f =>
        rw [hus] at h
        cases h
      | ok result =>
        obtain ⟨us, u, hu⟩ := result
        rw [hus] at h
        cases h
        exact .inr ⟨t, us, ⟨u, hu⟩, by omega, hus, rfl⟩
    · cases h

/-- A record was read member by member, each under a text. -/
theorem readMembers_inv {cs : List Char} {ms : List (Value × Value)} {rest : Rest cs}
    (h : readMembers cs = .ok (ms, rest)) :
    ∃ name t v u, (skip t).length < cs.length ∧ readValue (skip t) = .ok (v, u) ∧
      (ms = [(.text name, v)] ∨ ∃ w ns x, (skip w).length < cs.length ∧
        readMembers (skip w) = .ok (ns, x) ∧ ms = (.text name, v) :: ns) := by
  unfold readMembers at h
  split at h
  · rename_i q
    cases hname : readText q with
    | error f =>
      rw [hname] at h
      cases h
    | ok result =>
      obtain ⟨name, r, hr⟩ := result
      rw [hname] at h
      dsimp only at h
      split at h
      · rename_i t ht
        have hlt := length_of_skip ht
        have hle := length_skip_le t
        cases hv : readValue (skip t) with
        | error f =>
          rw [hv] at h
          cases h
        | ok result =>
          obtain ⟨v, u, hu⟩ := result
          rw [hv] at h
          dsimp only at h
          refine ⟨name, t, v, ⟨u, hu⟩, by simp only [List.length_cons]; omega, hv, ?_⟩
          split at h
          · cases h
            exact .inl rfl
          · rename_i w hw
            have hlt' := length_of_skip hw
            have hle' := length_skip_le w
            cases hns : readMembers (skip w) with
            | error f =>
              rw [hns] at h
              cases h
            | ok result =>
              obtain ⟨ns, x, hx⟩ := result
              rw [hns] at h
              cases h
              exact .inr ⟨w, ns, ⟨x, hx⟩, by simp only [List.length_cons]; omega, hns, rfl⟩
          · cases h
      · cases h
  · cases h

/-- A value is a text, a list, a record, a word or a number. -/
theorem readValue_inv {cs : List Char} {v : Value} {rest : Rest cs}
    (h : readValue cs = .ok (v, rest)) :
    (∃ s, v = .text s) ∨ v = .list [] ∨ v = .record [] ∨
      (∃ t vs r, (skip t).length < cs.length ∧ readItems (skip t) = .ok (vs, r) ∧ v = .list vs) ∨
      (∃ t ms r, (skip t).length < cs.length ∧ readMembers (skip t) = .ok (ms, r) ∧
        v = .record (Members.ofPairs ms)) ∨
      readAtom cs = .ok (v, rest) := by
  unfold readValue at h
  split at h
  · split at h
    · cases h
    · cases h
      exact .inl ⟨_, rfl⟩
  · rename_i r
    have hle := length_skip_le r
    split at h
    · cases h
      exact .inr (.inr (.inl rfl))
    · cases hms : readMembers (skip r) with
      | error f =>
        rw [hms] at h
        cases h
      | ok result =>
        obtain ⟨ms, t, ht⟩ := result
        rw [hms] at h
        cases h
        exact .inr (.inr (.inr (.inr (.inl
          ⟨r, ms, ⟨t, ht⟩, by simp only [List.length_cons]; omega, hms, rfl⟩))))
  · rename_i r
    have hle := length_skip_le r
    split at h
    · cases h
      exact .inr (.inl rfl)
    · cases hvs : readItems (skip r) with
      | error f =>
        rw [hvs] at h
        cases h
      | ok result =>
        obtain ⟨vs, t, ht⟩ := result
        rw [hvs] at h
        cases h
        exact .inr (.inr (.inr (.inl
          ⟨r, vs, ⟨t, ht⟩, by simp only [List.length_cons]; omega, hvs, rfl⟩)))
  · exact .inr (.inr (.inr (.inr (.inr h))))

/-! ### What is read is plain -/

mutual

/-- A value that is read is plain. -/
theorem plain_of_readValue {cs : List Char} {v : Value} {rest : Rest cs}
    (h : readValue cs = .ok (v, rest)) : Plain v := by
  rcases readValue_inv h with ⟨s, rfl⟩ | rfl | rfl | ⟨t, vs, r, hlt, hvs, rfl⟩ |
    ⟨t, ms, r, hlt, hms, rfl⟩ | hatom
  · trivial
  · trivial
  · exact ⟨List.nodup_nil, trivial⟩
  · exact plain_of_readItems hvs
  · exact plain_ofPairs (plain_of_readMembers hms)
  · exact plain_of_readAtom hatom
termination_by (cs.length, 0)

/-- The elements of a list that is read are plain. -/
theorem plain_of_readItems {cs : List Char} {vs : List Value} {rest : Rest cs}
    (h : readItems cs = .ok (vs, rest)) : PlainItems vs := by
  obtain ⟨v, r, hv, rfl | ⟨t, us, u, hlt, hus, rfl⟩⟩ := readItems_inv h
  · exact ⟨plain_of_readValue hv, trivial⟩
  · exact ⟨plain_of_readValue hv, plain_of_readItems hus⟩
termination_by (cs.length, 1)

/-- The members of a record that is read are plain values under texts. -/
theorem plain_of_readMembers {cs : List Char} {ms : List (Value × Value)} {rest : Rest cs}
    (h : readMembers cs = .ok (ms, rest)) : PlainMembers ms := by
  obtain ⟨name, t, v, u, hlt, hv, rfl | ⟨w, ns, x, hlt', hns, rfl⟩⟩ := readMembers_inv h
  · exact ⟨⟨name, rfl⟩, plain_of_readValue hv, trivial⟩
  · exact ⟨⟨name, rfl⟩, plain_of_readValue hv, plain_of_readMembers hns⟩
termination_by (cs.length, 1)

end

/-- What is read from a text is plain. -/
theorem plain_of_read {s : String} {v : Value} (h : read s = .ok v) : Plain v := by
  unfold read at h
  cases hall : readAll s.toList with
  | error f =>
    rw [hall] at h
    cases h
  | ok w =>
    rw [hall] at h
    cases h
    unfold readAll at hall
    split at hall
    · cases hall
    · split at hall
      · cases hall
      · rename_i hread
        split at hall
        · cases hall
          exact plain_of_readValue hread
        · cases hall

/-- The plain values are those that a text can be read as. -/
theorem plain_iff {v : Value} : Plain v ↔ ∃ text, read text = .ok v :=
  ⟨fun hv => ⟨write {} v, read_write Layout.blank_line hv⟩, fun ⟨_, h⟩ => plain_of_read h⟩

end Json

end BranchForm
