import BranchForm.Json.Reader
import BranchForm.Json.Writer
import BranchForm.Proofs.Values

/-!
# JSON text read back

What the writer puts out for a value is read as that value again.

* `readString_escapeChar` and `readString_quote` : an escaped character, and so a quoted text, is
  read back, whether it is written as it is, by a letter, by one code unit or by two;
* `Reads` says what reading the front of a text comes to; `readItems_eq` and `readMembers_eq` are
  one step of the two loops;
* `EndsNumber` holds of what may stand behind a number; `reads_int` : a whole number is read back in
  front of it;
* `Plain` values are those the round trip is about, and `Layout.Blank` layouts set their parts apart
  by blanks only;
* `reads_value`, `reads_items` and `reads_members` follow the shape of a value; `read_write` is the
  round trip.
-/

namespace BranchForm.Json

open BranchForm.Text (hexDigit hexDigits hexValue)

/-! ### Code units -/

theorem hexValue_hexDigit : ∀ n < 16, hexValue (hexDigit n) = some n := by decide

theorem escapeUnit_eq (n : Nat) : escapeUnit n =
    ['\\', 'u', hexDigit (n / 16 / 16 / 16 % 16), hexDigit (n / 16 / 16 % 16),
      hexDigit (n / 16 % 16), hexDigit (n % 16)] := rfl

/-- The four digits of a code unit are read back as the unit. -/
theorem hexUnit_hexDigits {n : Nat} (h : n < 0x10000) :
    hexUnit (hexDigit (n / 16 / 16 / 16 % 16)) (hexDigit (n / 16 / 16 % 16))
      (hexDigit (n / 16 % 16)) (hexDigit (n % 16)) = some n := by
  have hvalue : ∀ m, hexValue (hexDigit (m % 16)) = some (m % 16) := fun m =>
    hexValue_hexDigit (m % 16) (Nat.mod_lt m (by decide))
  have hsum : ((n / 16 / 16 / 16 % 16 * 16 + n / 16 / 16 % 16) * 16 + n / 16 % 16) * 16 + n % 16 =
      n := by
    omega
  simp only [hexUnit, hvalue, Option.bind_eq_bind, Option.bind_some, hsum]
  rfl

/-- An escaped unit is read as such, if the text goes on behind it. -/
theorem readString_escapeUnit {n : Nat} (h : n < 0x10000) {rest left : List Char}
    (hrest : rest ≠ [])
    {c : Char} (hread : ∃ hle, unitWith n rest = .ok (c, ⟨left, hle⟩)) (start : Nat)
    (seen : List Char) :
    readString start seen (escapeUnit n ++ rest) = readString start (c :: seen) left := by
  obtain ⟨hle, hread⟩ := hread
  obtain ⟨r, rest, rfl⟩ := List.exists_cons_of_ne_nil hrest
  rw [escapeUnit_eq]
  simp only [List.cons_append, List.nil_append]
  rw [readString]
  simp only [hexUnit_hexDigits h, hread]

/-- A unit outside the range of halves is a character. -/
theorem exists_unitWith {n : Nat} (h : n < 0xD800 ∨ 0xE000 ≤ n) (rest : List Char) :
    ∃ hle, unitWith n rest = .ok (Char.ofNat n, ⟨rest, hle⟩) := by
  have hlead : ¬ (0xD800 ≤ n ∧ n < 0xDC00) := by omega
  have hunit : ¬ (0xD800 ≤ n ∧ n < 0xE000) := by omega
  exact ⟨Nat.le_refl _, by rw [unitWith, if_neg hlead, unitChar, if_neg hunit]⟩

theorem lowSurrogate_escapeUnit {n : Nat} (h : 0xDC00 ≤ n ∧ n < 0xE000) {rest : List Char}
    (hrest : rest ≠ []) : lowSurrogate (escapeUnit n ++ rest) = .ok (some (n, rest)) := by
  obtain ⟨r, rest, rfl⟩ := List.exists_cons_of_ne_nil hrest
  have hunit := hexUnit_hexDigits (show n < 0x10000 by omega)
  simp only [escapeUnit_eq, List.cons_append, List.nil_append, lowSurrogate, hunit, h, and_self,
    ↓reduceIte]

/-- A leading and a trailing half are a character. -/
theorem exists_unitWith_pair {m n : Nat} (hm : 0xD800 ≤ m ∧ m < 0xDC00)
    (hn : 0xDC00 ≤ n ∧ n < 0xE000) {rest : List Char} (hrest : rest ≠ []) :
    ∃ hle, unitWith m (escapeUnit n ++ rest) =
      .ok (Char.ofNat (0x10000 + (m - 0xD800) * 0x400 + (n - 0xDC00)), ⟨rest, hle⟩) := by
  have hback := lowSurrogate_escapeUnit hn hrest
  rw [unitWith, if_pos hm]
  split
  · rename_i f hf
    rw [hback] at hf
    cases hf
  · rename_i hnone
    rw [hback] at hnone
    cases hnone
  · rename_i k left hk
    rw [hback] at hk
    cases hk
    exact ⟨Nat.le_of_lt (length_of_lowSurrogate hback), rfl⟩

/-! ### Strings -/

theorem readString_plain {c : Char} (hquote : c ≠ '"') (hslash : c ≠ '\\') (hprint : 32 ≤ c.toNat)
    (start : Nat) (seen rest : List Char) :
    readString start seen (c :: rest) = readString start (c :: seen) rest := by
  have hcontrol : ¬ c.toNat < 32 := by omega
  rw [readString]
  · simp only [hcontrol, ↓reduceIte]
  all_goals simp_all

/-- An escaped character is read back, if the text goes on behind it. -/
theorem readString_escapeChar (c : Char) {rest : List Char} (hrest : rest ≠ []) (start : Nat)
    (seen : List Char) :
    readString start seen (escapeChar c ++ rest) = readString start (c :: seen) rest := by
  have hback : Char.ofNat c.toNat = c := Char.ofNat_toNat c
  have hvalid : c.toNat < 0xD800 ∨ 0xE000 ≤ c.toNat ∧ c.toNat < 0x110000 := by
    rcases c.valid with hlow | ⟨hlow, hhigh⟩
    · exact .inl hlow
    · exact .inr ⟨hlow, hhigh⟩
  by_cases hshort : c = '"' ∨ c = '\\' ∨ c = '\n' ∨ c = '\r' ∨ c = '\t' ∨ c = Char.ofNat 8 ∨
      c = Char.ofNat 12
  · rcases hshort with rfl | rfl | rfl | rfl | rfl | rfl | rfl <;>
      simp [escapeChar, readString, escapedChar]
  · simp only [not_or] at hshort
    obtain ⟨hquote, hslash, hn, hr, ht, hb, hf⟩ := hshort
    simp only [escapeChar, hquote, hslash, hn, hr, ht, hb, hf, ↓reduceIte]
    split
    · rename_i hprint
      exact readString_plain hquote hslash hprint.1 start seen rest
    · split
      · rename_i hunit
        have hread := exists_unitWith (hvalid.imp_right And.left) rest
        rw [readString_escapeUnit hunit hrest hread, hback]
      · rename_i hunit
        generalize hm : 0xD800 + (c.toNat - 0x10000) / 0x400 = m
        generalize hn : 0xDC00 + (c.toNat - 0x10000) % 0x400 = n
        have hlead : 0xD800 ≤ m ∧ m < 0xDC00 := by omega
        have htrail : 0xDC00 ≤ n ∧ n < 0xE000 := by omega
        have hsum : 0x10000 + (m - 0xD800) * 0x400 + (n - 0xDC00) = c.toNat := by omega
        have hread := exists_unitWith_pair hlead htrail hrest
        rw [List.append_assoc, readString_escapeUnit (show m < 0x10000 by omega)
          (List.append_ne_nil_of_right_ne_nil _ hrest) hread, hsum, hback]

/-- A quoted text is read back. -/
theorem readString_quote (cs rest : List Char) (start : Nat) (seen : List Char) :
    readString start seen (cs.flatMap escapeChar ++ '"' :: rest) =
      .ok (seen.reverse ++ cs, rest) := by
  induction cs generalizing seen with
  | nil => simp [readString]
  | cons c cs ih =>
    rw [List.flatMap_cons, List.append_assoc, readString_escapeChar c (by simp), ih]
    simp

/-! ### Parts of a text -/

/-- Reading the front of a text comes to a result and leaves a rest. -/
def Reads {α : Type} {cs : List Char} (outcome : Except Failure (α × Rest cs)) (a : α)
    (rest : List Char) : Prop :=
  ∃ h, outcome = .ok (a, ⟨rest, h⟩)

theorem reads_text (s : String) (rest : List Char) :
    Reads (readText (s.toList.flatMap escapeChar ++ '"' :: rest)) s rest := by
  unfold Reads readText
  split
  · rename_i f hf
    rw [readString_quote] at hf
    cases hf
  · rename_i t left ht
    have hback := ht
    rw [readString_quote] at hback
    cases hback
    exact ⟨length_of_readString ht, by simp⟩

theorem skip_of_blank {blanks : List Char} (h : ∀ c ∈ blanks, isSpace c = true) (rest : List Char) :
    skip (blanks ++ rest) = skip rest :=
  List.dropWhile_append_of_pos h

theorem skip_cons {c : Char} (h : isSpace c = false) (rest : List Char) :
    skip (c :: rest) = c :: rest :=
  List.dropWhile_cons_of_neg (by simp [h])

theorem length_of_skip {c : Char} {cs rest : List Char} (h : skip cs = c :: rest) :
    rest.length < cs.length := by
  have hle := length_skip_le cs
  rw [h] at hle
  exact hle

section Elements

variable {cs r t u w : List Char} {v : Value} {vs : List Value} {name : String} {ms : Members}

/-- Behind an element stands the end of the list, or a comma and the other elements. -/
theorem readItems_eq (hv : Reads (readValue cs) v r) :
    (∀ t, skip r = ']' :: t → Reads (readItems cs) [v] t) ∧
      ∀ t vs u, skip r = ',' :: t → Reads (readItems (skip t)) vs u →
        Reads (readItems cs) (v :: vs) u := by
  obtain ⟨hr, hv⟩ := hv
  unfold Reads
  rw [readItems, hv]
  dsimp only
  constructor
  · intro t hend
    have hlt := length_of_skip hend
    split
    · rename_i rest hrest
      cases hend.symm.trans hrest
      exact ⟨by omega, rfl⟩
    · rename_i rest hrest
      cases hend.symm.trans hrest
    · rename_i hnot _
      exact absurd hend (hnot t)
  · rintro t vs u hcomma ⟨hu, hvs⟩
    have hlt := length_of_skip hcomma
    have hlt' := length_skip_le t
    split
    · rename_i rest hrest
      cases hcomma.symm.trans hrest
    · rename_i rest hrest
      cases hcomma.symm.trans hrest
      rw [hvs]
      exact ⟨by omega, rfl⟩
    · rename_i hnot
      exact absurd hcomma (hnot t)

/-- Behind the name of a member and its colon stands its value. -/
theorem readMembers_eq (hname : Reads (readText cs) name r) (hcolon : skip r = ':' :: t)
    (hv : Reads (readValue (skip t)) v u) :
    (∀ w, skip u = '\x7d' :: w → Reads (readMembers ('"' :: cs)) [(.text name, v)] w) ∧
      ∀ w ms x, skip u = ',' :: w → Reads (readMembers (skip w)) ms x →
        Reads (readMembers ('"' :: cs)) ((.text name, v) :: ms) x := by
  obtain ⟨hr, hname⟩ := hname
  obtain ⟨hu, hv⟩ := hv
  have hlt := length_skip_le t
  have hlt' := length_of_skip hcolon
  unfold Reads
  rw [readMembers, hname]
  dsimp only
  split
  · rename_i rest hrest
    cases hcolon.symm.trans hrest
    rw [hv]
    dsimp only
    constructor
    · intro w hend
      have hlt'' := length_of_skip hend
      split
      · rename_i rest' hrest'
        cases hend.symm.trans hrest'
        exact ⟨by simp only [List.length_cons]; omega, rfl⟩
      · rename_i rest' hrest'
        cases hend.symm.trans hrest'
      · rename_i hnot _
        exact absurd hend (hnot w)
    · rintro w ms x hcomma ⟨hx, hms⟩
      have hlt'' := length_of_skip hcomma
      have hltw := length_skip_le w
      split
      · rename_i rest' hrest'
        cases hcomma.symm.trans hrest'
      · rename_i rest' hrest'
        cases hcomma.symm.trans hrest'
        rw [hms]
        exact ⟨by simp only [List.length_cons]; omega, rfl⟩
      · rename_i hnot
        exact absurd hcomma (hnot w)
  · rename_i hnot
    exact absurd hcolon (hnot t)

theorem reads_list (hopen : ∀ u, skip cs ≠ ']' :: u) (hvs : Reads (readItems (skip cs)) vs t) :
    Reads (readValue ('[' :: cs)) (.list vs) t := by
  obtain ⟨ht, hvs⟩ := hvs
  have hlt := length_skip_le cs
  unfold Reads
  rw [readValue]
  split
  · rename_i u hu
    exact absurd hu (hopen u)
  · rw [hvs]
    exact ⟨by simp only [List.length_cons]; omega, rfl⟩

theorem reads_record (hopen : ∀ u, skip cs ≠ '\x7d' :: u)
    (hms : Reads (readMembers (skip cs)) ms t) :
    Reads (readValue ('\x7b' :: cs)) (.record (Members.ofPairs ms)) t := by
  obtain ⟨ht, hms⟩ := hms
  have hlt := length_skip_le cs
  unfold Reads
  rw [readValue]
  split
  · rename_i u hu
    exact absurd hu (hopen u)
  · rw [hms]
    exact ⟨by simp only [List.length_cons]; omega, rfl⟩

end Elements

/-! ### Numbers -/

/-- Behind a number stands nothing that would be read as a part of it. -/
def EndsNumber (rest : List Char) : Prop :=
  ∀ c, rest.head? = some c → c.isDigit = false ∧ c ≠ '.' ∧ c ≠ 'e' ∧ c ≠ 'E'

theorem endsNumber_nil : EndsNumber [] := by
  intro c hc
  cases hc

theorem endsNumber_cons {c : Char} (h : c.isDigit = false ∧ c ≠ '.' ∧ c ≠ 'e' ∧ c ≠ 'E')
    (rest : List Char) : EndsNumber (c :: rest) := by
  intro d hd
  cases hd
  exact h

theorem endsNumber_blanks {blanks rest : List Char} (hblanks : ∀ c ∈ blanks, isSpace c = true)
    (hrest : EndsNumber rest) : EndsNumber (blanks ++ rest) := by
  cases blanks with
  | nil => exact hrest
  | cons c cs =>
    refine endsNumber_cons ?_ (cs ++ rest)
    have hc : isSpace c = true := hblanks c List.mem_cons_self
    simp only [isSpace, Bool.or_eq_true, beq_iff_eq] at hc
    rcases hc with ((rfl | rfl) | rfl) | rfl <;> decide

theorem digits_append {ds rest : List Char} (hds : ∀ d ∈ ds, d.isDigit = true)
    (hrest : ∀ c, rest.head? = some c → c.isDigit = false) : digits (ds ++ rest) = (ds, rest) := by
  rw [digits, List.takeWhile_append_of_pos hds, List.dropWhile_append_of_pos hds]
  cases rest with
  | nil => simp
  | cons c cs =>
    have hc : ¬ c.isDigit = true := by simp [hrest c rfl]
    rw [List.takeWhile_cons_of_neg hc, List.dropWhile_cons_of_neg hc, List.append_nil]

theorem fractionDigits_of_ne {rest : List Char} (h : ∀ c, rest.head? = some c → c ≠ '.') :
    fractionDigits rest = ([], rest) := by
  unfold fractionDigits
  split
  · exact absurd rfl (h _ rfl)
  · rfl

theorem exponentPart_of_ends {rest : List Char} (h : EndsNumber rest) :
    exponentPart rest = (none, rest) := by
  cases rest with
  | nil => rfl
  | cons c cs =>
    obtain ⟨-, -, he, hE⟩ := h c rfl
    simp [exponentPart, he, hE]

/-- Digits without a point and without an exponent are a whole number. -/
theorem numberFrom_eq {whole rest : List Char} (hwhole : whole.length ≤ Value.mostDigits)
    (hrest : EndsNumber rest) (negative : Bool) :
    numberFrom negative whole rest =
      (some (.int (if negative then -(decimal whole : Int) else decimal whole)), rest) := by
  have hfraction := fractionDigits_of_ne fun c hc => (hrest c hc).2.1
  have hexponent := exponentPart_of_ends hrest
  simp [numberFrom, hfraction, hexponent, hwhole]

/-- The digits at the front of a number are read up to their end, unless they begin with a zero that
is not the only one. -/
theorem reads_unsigned {c : Char} {ds tail rest : List Char} {v : Value} {negative : Bool}
    (hdigits : ∀ d ∈ c :: ds, d.isDigit = true) (hlead : c = '0' → ds = [])
    (htail : ∀ d, tail.head? = some d → d.isDigit = false)
    (hnumber : numberFrom negative (c :: ds) tail = (some v, rest)) (left : Nat) :
    Reads (readUnsigned negative left (c :: ds ++ tail)) v rest := by
  have hle : rest.length ≤ tail.length := by
    have hle := length_numberFrom_le negative (c :: ds) tail
    rwa [hnumber] at hle
  refine ⟨by simp only [List.cons_append, List.length_cons, List.length_append]; omega, ?_⟩
  by_cases hc : c = '0'
  · obtain rfl : ds = [] := hlead hc
    rw [hc] at hnumber
    simp [readUnsigned, hc, hnumber, finishNumber]
  · have hds : ∀ d ∈ ds, d.isDigit = true := fun d hd => hdigits d (List.mem_cons_of_mem _ hd)
    simp [readUnsigned, hc, hdigits c List.mem_cons_self, digits_append hds htail, hnumber,
      finishNumber]

theorem isDigit_of_mem {n : Nat} {c : Char} (h : c ∈ Nat.toDigits 10 n) : c.isDigit = true :=
  Nat.isDigit_of_mem_toDigits (by decide) (by decide) h

/-- Only zero is written with a zero in front. -/
theorem eq_zero_of_toDigits {n : Nat} {ds : List Char} (h : Nat.toDigits 10 n = '0' :: ds) :
    n = 0 := by
  induction n using Nat.strongRecOn generalizing ds with
  | ind n ih =>
    by_cases hn : n < 10
    · rw [Nat.toDigits_of_lt_base hn] at h
      have hdigit : ∀ m < 10, Nat.digitChar m = '0' → m = 0 := by decide
      exact hdigit n hn (List.cons.inj h).1
    · rw [Nat.toDigits_of_base_le (by decide) (Nat.le_of_not_lt hn)] at h
      cases hfront : Nat.toDigits 10 (n / 10) with
      | nil => exact absurd hfront (List.ne_nil_of_length_pos Nat.length_toDigits_pos)
      | cons c cs =>
        rw [hfront] at h
        have hzero := ih (n / 10) (by omega) (hfront.trans (congrArg (· :: cs) (List.cons.inj h).1))
        omega

theorem decimal_toDigits (n : Nat) : decimal (Nat.toDigits 10 n) = n := by
  have hback : decimal (Nat.toDigits 10 n) = Nat.ofDigitChars 10 (Nat.toDigits 10 n) 0 := rfl
  simpa using hback

/-- The digits of a number are read back. -/
theorem reads_digits {n : Nat} (hn : (Nat.toDigits 10 n).length ≤ Value.mostDigits)
    {rest : List Char} (hrest : EndsNumber rest) (negative : Bool) (left : Nat) :
    Reads (readUnsigned negative left (Nat.toDigits 10 n ++ rest))
      (.int (if negative then -(n : Int) else n)) rest := by
  have hback := decimal_toDigits n
  have hdigits : ∀ d ∈ Nat.toDigits 10 n, d.isDigit = true := fun d hd => isDigit_of_mem hd
  cases htext : Nat.toDigits 10 n with
  | nil => exact absurd htext (List.ne_nil_of_length_pos Nat.length_toDigits_pos)
  | cons c ds =>
    rw [htext] at hn hback hdigits
    have hlead : c = '0' → ds = [] := by
      rintro rfl
      obtain rfl : n = 0 := eq_zero_of_toDigits htext
      exact (List.cons.inj htext).2.symm
    have hnumber := numberFrom_eq hn hrest negative
    rw [hback] at hnumber
    exact reads_unsigned hdigits hlead (fun d hd => (hrest d hd).1) hnumber left

/-- A value that begins with a digit is a number. -/
theorem readValue_digit {c : Char} (h : c.isDigit = true) (cs : List Char) :
    readValue (c :: cs) = readUnsigned false (c :: cs).length (c :: cs) := by
  have hne : ∀ d : Char, d.isDigit = false → c ≠ d := by
    rintro d hd rfl
    rw [h] at hd
    cases hd
  rw [readValue, readAtom]
  all_goals
    intros
    rename_i heq
    exact hne _ (by decide) (List.cons.inj heq).1

/-- A value that begins with a sign and a digit is a number below zero. -/
theorem reads_minus {c : Char} (h : c.isDigit = true) {cs rest : List Char} {v : Value}
    (hread : Reads (readUnsigned true ((c :: cs).length + 1) (c :: cs)) v rest) :
    Reads (readValue ('-' :: c :: cs)) v rest := by
  have hne : c ≠ 'I' := by
    rintro rfl
    cases h
  obtain ⟨hrest, hread⟩ := hread
  refine ⟨Nat.lt_succ_of_lt hrest, ?_⟩
  rw [readValue, readAtom, hread]
  all_goals
    intros
    rename_i heq
  · exact hne (List.cons.inj heq).1
  all_goals cases (List.cons.inj heq).1

/-- What a number is read from begins with a digit. -/
theorem exists_digit_of_reads {negative : Bool} {left : Nat} {cs rest : List Char} {v : Value}
    (h : Reads (readUnsigned negative left cs) v rest) :
    ∃ c t, cs = c :: t ∧ c.isDigit = true := by
  obtain ⟨_, h⟩ := h
  cases cs with
  | nil => cases h
  | cons c t =>
    refine ⟨c, t, rfl, ?_⟩
    by_cases hc : c = '0'
    · rw [hc]
      rfl
    · cases hdigit : c.isDigit with
      | true => rfl
      | false => simp [readUnsigned, hc, hdigit] at h

/-- A number is read with its sign. -/
theorem reads_signed {negative : Bool} {cs rest : List Char} {v : Value}
    (hread : ∀ left, Reads (readUnsigned negative left cs) v rest) :
    Reads (readValue ((if negative then ['-'] else []) ++ cs)) v rest := by
  obtain ⟨c, t, rfl, hc⟩ := exists_digit_of_reads (hread 0)
  cases negative with
  | true => exact reads_minus hc (hread _)
  | false =>
    rw [if_neg Bool.false_ne_true, List.nil_append, readValue_digit hc]
    exact hread _

theorem toList_toString (n : Int) :
    (toString n).toList = (if decide (n < 0) then ['-'] else []) ++ Nat.toDigits 10 n.natAbs := by
  cases n with
  | ofNat m => simp [toString, Int.repr, Nat.toList_repr]
  | negSucc m => simp [toString, Int.repr, Nat.toList_repr, Int.negSucc_lt_zero]

/-- A whole number is read back. -/
theorem reads_int {n : Int} (hn : (Nat.toDigits 10 n.natAbs).length ≤ Value.mostDigits)
    {rest : List Char} (hrest : EndsNumber rest) :
    Reads (readValue ((toString n).toList ++ rest)) (.int n) rest := by
  have hread := fun left => reads_digits hn hrest (decide (n < 0)) left
  have hsign : (if decide (n < 0) = true then -(n.natAbs : Int) else n.natAbs) = n := by
    by_cases hneg : n < 0
    · simp only [hneg, decide_true, ↓reduceIte]
      omega
    · simp only [hneg, decide_false, Bool.false_eq_true, ↓reduceIte]
      omega
  rw [hsign] at hread
  rw [toList_toString, List.append_assoc]
  exact reads_signed hread

/-! ### Plain values -/

/-- A number with a decimal point is read back from its text, wherever a number may end. -/
def Legible (x : Binary64) : Prop :=
  ∀ rest, EndsNumber rest → Reads (readValue (writeFloat x ++ rest)) (.float x) rest

mutual

/-- A value that JSON text keeps: its whole numbers have no more digits than a number may have, its
other numbers are legible, and its records have distinct texts for names. -/
def Plain : Value → Prop
  | .null | .bool _ | .text _ => True
  | .int n => (Nat.toDigits 10 n.natAbs).length ≤ Value.mostDigits
  | .float x => Legible x
  | .list vs => PlainItems vs
  | .record ms => (Members.names ms).Nodup ∧ PlainMembers ms
  | .moment _ => False

/-- Several plain values. -/
def PlainItems : List Value → Prop
  | [] => True
  | v :: vs => Plain v ∧ PlainItems vs

/-- Plain values under texts. -/
def PlainMembers : List (Value × Value) → Prop
  | [] => True
  | (name, v) :: ms => (∃ s, name = .text s) ∧ Plain v ∧ PlainMembers ms

end

theorem plainItems_iff {vs : List Value} : PlainItems vs ↔ ∀ v ∈ vs, Plain v := by
  induction vs with
  | nil => simp [PlainItems]
  | cons v vs ih => simp [PlainItems, ih]

theorem plainMembers_iff {ms : Members} :
    PlainMembers ms ↔ ∀ m ∈ ms, (∃ s, m.1 = .text s) ∧ Plain m.2 := by
  induction ms with
  | nil => simp [PlainMembers]
  | cons m ms ih => simp [PlainMembers, ih, and_assoc]

/-! ### Layouts -/

/-- A layout sets elements apart by blanks only. -/
def Layout.Blank (layout : Layout) : Prop :=
  ∀ indent, layout.indent = some indent → ∀ c ∈ indent.toList, isSpace c = true

theorem Layout.blank_line : Layout.Blank {} := by
  intro indent hindent
  cases hindent

theorem Layout.Blank.lineBreak {layout : Layout} (h : layout.Blank) (level : Nat) :
    ∀ c ∈ layout.lineBreak level, isSpace c = true := by
  unfold Layout.lineBreak
  split
  · nofun
  · rename_i indent hindent
    intro c hc
    rcases List.mem_cons.1 hc with rfl | hc
    · rfl
    · obtain ⟨cs, hcs, hmem⟩ := List.mem_flatten.1 hc
      exact h indent hindent c (List.eq_of_mem_replicate hcs ▸ hmem)

theorem Layout.Blank.comma {layout : Layout} (h : layout.Blank) (level : Nat) :
    ∃ blanks, layout.comma level = ',' :: blanks ∧ ∀ c ∈ blanks, isSpace c = true := by
  unfold Layout.comma
  split
  · exact ⟨[' '], rfl, by simp [isSpace]⟩
  · exact ⟨_, rfl, h.lineBreak level⟩

/-- A character that a value may begin with: neither a blank nor the end of a list or a record, and
no mark in front of a text. -/
structure Opens (c : Char) : Prop where
  /-- It is not skipped. -/
  notSpace : isSpace c = false
  /-- It does not end a list. -/
  ne_listEnd : c ≠ ']'
  /-- It is not a byte order mark. -/
  ne_mark : c ≠ '\uFEFF'

/-- What a value is read from begins with a character that may begin one. -/
theorem exists_cons_of_reads {cs rest : List Char} {v : Value} (h : Reads (readValue cs) v rest) :
    ∃ c t, cs = c :: t ∧ Opens c := by
  obtain ⟨_, h⟩ := h
  cases cs with
  | nil => simp [readValue, readAtom, readUnsigned] at h
  | cons c t =>
    refine ⟨c, t, rfl, Bool.eq_false_iff.2 fun hspace => ?_, ?_, ?_⟩
    · simp only [isSpace, Bool.or_eq_true, beq_iff_eq] at hspace
      rcases hspace with ((rfl | rfl) | rfl) | rfl <;>
        simp [readValue, readAtom, readUnsigned] at h
    · rintro rfl
      simp [readValue, readAtom, readUnsigned] at h
    · rintro rfl
      simp [readValue, readAtom, readUnsigned] at h

theorem exists_writeAt_cons {v : Value} (h : Plain v) (layout : Layout) (level : Nat) :
    ∃ c cs, writeAt layout level v = c :: cs ∧ Opens c := by
  cases v with
  | null => exact ⟨'n', _, rfl, rfl, by decide, by decide⟩
  | bool b => cases b <;> exact ⟨_, _, rfl, rfl, by decide, by decide⟩
  | int n =>
    have hread := reads_int h endsNumber_nil
    rw [List.append_nil] at hread
    exact exists_cons_of_reads hread
  | float x =>
    have hread := h [] endsNumber_nil
    rw [List.append_nil] at hread
    exact exists_cons_of_reads hread
  | text s => exact ⟨'"', _, rfl, rfl, by decide, by decide⟩
  | list vs => cases vs <;> exact ⟨'[', _, rfl, rfl, by decide, by decide⟩
  | record ms => cases ms <;> exact ⟨'\x7b', _, rfl, rfl, by decide, by decide⟩
  | moment m => exact h.elim

/-- Blanks before a plain value are skipped, and nothing of it. -/
theorem skip_writeAt {v : Value} (h : Plain v) (layout : Layout) (level : Nat) {blanks : List Char}
    (hblanks : ∀ c ∈ blanks, isSpace c = true) (rest : List Char) :
    skip (blanks ++ (writeAt layout level v ++ rest)) = writeAt layout level v ++ rest := by
  obtain ⟨c, cs, hcs, hc⟩ := exists_writeAt_cons h layout level
  rw [skip_of_blank hblanks, hcs, List.cons_append, skip_cons hc.notSpace]

/-! ### Single values -/

theorem reads_null (layout : Layout) (level : Nat) (rest : List Char) :
    Reads (readValue (writeAt layout level .null ++ rest)) .null rest := by
  refine ⟨by simp [writeAt]; omega, ?_⟩
  simp [writeAt, readValue, readAtom]

theorem reads_bool (layout : Layout) (level : Nat) (b : Bool) (rest : List Char) :
    Reads (readValue (writeAt layout level (.bool b) ++ rest)) (.bool b) rest := by
  cases b
  · refine ⟨by simp [writeAt]; omega, ?_⟩
    simp [writeAt, readValue, readAtom]
  · refine ⟨by simp [writeAt]; omega, ?_⟩
    simp [writeAt, readValue, readAtom]

theorem reads_string {cs t : List Char} {s : String} (h : Reads (readText cs) s t) :
    Reads (readValue ('"' :: cs)) (.text s) t := by
  obtain ⟨ht, h⟩ := h
  unfold Reads
  rw [readValue, h]
  exact ⟨_, rfl⟩

theorem reads_empty_list (rest : List Char) :
    Reads (readValue ('[' :: ']' :: rest)) (.list []) rest := by
  unfold Reads
  rw [readValue]
  split
  · rename_i t ht
    cases (skip_cons rfl rest).symm.trans ht
    exact ⟨by simp only [List.length_cons]; omega, rfl⟩
  · rename_i hnot
    exact absurd (skip_cons rfl rest) (hnot rest)

theorem reads_empty_record (rest : List Char) :
    Reads (readValue ('\x7b' :: '\x7d' :: rest)) (.record []) rest := by
  unfold Reads
  rw [readValue]
  split
  · rename_i t ht
    cases (skip_cons rfl rest).symm.trans ht
    exact ⟨by simp only [List.length_cons]; omega, rfl⟩
  · rename_i hnot
    exact absurd (skip_cons rfl rest) (hnot rest)

theorem writeAt_append_ne_listEnd {v : Value} (h : Plain v) (layout : Layout) (level : Nat)
    (rest u : List Char) : writeAt layout level v ++ rest ≠ ']' :: u := by
  obtain ⟨c, cs, hcs, hc⟩ := exists_writeAt_cons h layout level
  rw [hcs, List.cons_append]
  intro heq
  exact hc.ne_listEnd (List.cons.inj heq).1

theorem quote_append (s : String) (rest : List Char) :
    quote s ++ rest = '"' :: (s.toList.flatMap escapeChar ++ '"' :: rest) := by
  simp [quote]

/-! ### Reading what was written -/

section Written

variable {layout : Layout}

/-- A member is read back if its value is. -/
theorem readMembers_quote {level : Nat} {v : Value} (hv : Plain v) {rest : List Char}
    (hread : Reads (readValue (writeAt layout level v ++ rest)) v rest) (s : String) :
    (∀ w, skip rest = '\x7d' :: w →
      Reads (readMembers (quote s ++ (':' :: ' ' :: (writeAt layout level v ++ rest))))
        [(.text s, v)] w) ∧
      ∀ w ms x, skip rest = ',' :: w → Reads (readMembers (skip w)) ms x →
        Reads (readMembers (quote s ++ (':' :: ' ' :: (writeAt layout level v ++ rest))))
          ((.text s, v) :: ms) x := by
  have hspace : ∀ c ∈ [' '], isSpace c = true := by simp [isSpace]
  have hskip : skip (' ' :: (writeAt layout level v ++ rest)) = writeAt layout level v ++ rest :=
    skip_writeAt hv layout level hspace rest
  rw [quote_append]
  rw [← hskip] at hread
  exact readMembers_eq (reads_text s _) (skip_cons rfl _) hread

mutual

/-- A plain value is read back from its text. -/
theorem reads_value (hblank : layout.Blank) (level : Nat) (v : Value) (hv : Plain v)
    {rest : List Char} (hrest : EndsNumber rest) :
    Reads (readValue (writeAt layout level v ++ rest)) v rest := by
  match v with
  | .int n => exact reads_int hv hrest
  | .float x => exact hv rest hrest
  | .null => exact reads_null layout level rest
  | .bool b => exact reads_bool layout level b rest
  | .text s =>
    rw [writeAt, quote_append]
    exact reads_string (reads_text s rest)
  | .list [] => exact reads_empty_list rest
  | .list (v :: vs) =>
    have htext : writeAt layout level (.list (v :: vs)) ++ rest =
        '[' :: (layout.lineBreak (level + 1) ++ (writeAt layout (level + 1) v ++
          (writeItems layout (level + 1) vs ++ (layout.lineBreak level ++ ']' :: rest)))) := by
      simp [writeAt]
    have hskip := skip_writeAt hv.1 layout (level + 1) (hblank.lineBreak (level + 1))
      (writeItems layout (level + 1) vs ++ (layout.lineBreak level ++ ']' :: rest))
    rw [htext]
    refine reads_list (fun u hu => ?_) ?_
    · rw [hskip] at hu
      exact writeAt_append_ne_listEnd hv.1 layout (level + 1) _ u hu
    · rw [hskip]
      exact reads_items hblank (level + 1) (v :: vs) hv (hblank.lineBreak level) rest v vs rfl
  | .record [] => exact reads_empty_record rest
  | .record ((name, v) :: ms) =>
    obtain ⟨hd, ⟨s, rfl⟩, hv, hms⟩ := hv
    have hplain : PlainMembers ((.text s, v) :: ms) := ⟨⟨s, rfl⟩, hv, hms⟩
    have htext : writeAt layout level (.record ((.text s, v) :: ms)) ++ rest =
        '\x7b' :: (layout.lineBreak (level + 1) ++ (quote s ++ (':' :: ' ' ::
          (writeAt layout (level + 1) v ++ (writeMembers layout (level + 1) ms ++
            (layout.lineBreak level ++ '\x7d' :: rest)))))) := by
      simp [writeAt, memberName]
    have hmembers := reads_members hblank (level + 1) ((.text s, v) :: ms) hplain
      (hblank.lineBreak level) rest s v ms rfl
    rw [htext, ← Members.ofPairs_of_nodup hd fun m hm => (plainMembers_iff.1 hplain m hm).1]
    rw [quote_append] at hmembers ⊢
    refine reads_record (fun u hu => ?_) ?_
    · rw [skip_of_blank (hblank.lineBreak (level + 1)), skip_cons rfl] at hu
      cases hu
    · rwa [skip_of_blank (hblank.lineBreak (level + 1)), skip_cons rfl]

/-- The elements of a list are read back up to its end. -/
theorem reads_items (hblank : layout.Blank) (level : Nat) (vs : List Value) (hvs : PlainItems vs)
    {blanks : List Char} (hblanks : ∀ c ∈ blanks, isSpace c = true) (rest : List Char) (v : Value)
    (ws : List Value) (hne : vs = v :: ws) :
    Reads (readItems (writeAt layout level v ++
      (writeItems layout level ws ++ (blanks ++ ']' :: rest)))) vs rest := by
  match vs with
  | [] => cases hne
  | [v] =>
    cases hne
    have hend : EndsNumber (blanks ++ ']' :: rest) :=
      endsNumber_blanks hblanks (endsNumber_cons (by decide) rest)
    refine (readItems_eq (reads_value hblank level v hvs.1 hend)).1 rest ?_
    rw [skip_of_blank hblanks, skip_cons rfl]
  | v :: w :: ws =>
    cases hne
    obtain ⟨gap, hgap, hspaces⟩ := hblank.comma level
    have htext : writeItems layout level (w :: ws) ++ (blanks ++ ']' :: rest) =
        ',' :: (gap ++ (writeAt layout level w ++
          (writeItems layout level ws ++ (blanks ++ ']' :: rest)))) := by
      simp [writeItems, hgap]
    rw [htext]
    refine (readItems_eq (reads_value hblank level v hvs.1 (endsNumber_cons (by decide) _))).2 _
      (w :: ws) rest (skip_cons rfl _) ?_
    rw [skip_writeAt hvs.2.1 layout level hspaces]
    exact reads_items hblank level (w :: ws) hvs.2 hblanks rest w ws rfl

/-- The members of a record are read back up to its end. -/
theorem reads_members (hblank : layout.Blank) (level : Nat) (ms : List (Value × Value))
    (hms : PlainMembers ms) {blanks : List Char} (hblanks : ∀ c ∈ blanks, isSpace c = true)
    (rest : List Char) (s : String) (v : Value) (ns : List (Value × Value))
    (hne : ms = (.text s, v) :: ns) :
    Reads (readMembers (quote s ++ (':' :: ' ' :: (writeAt layout level v ++
      (writeMembers layout level ns ++ (blanks ++ '\x7d' :: rest)))))) ms rest := by
  match ms with
  | [] => cases hne
  | [(name, v)] =>
    cases hne
    have hend : EndsNumber (blanks ++ '\x7d' :: rest) :=
      endsNumber_blanks hblanks (endsNumber_cons (by decide) rest)
    refine (readMembers_quote hms.2.1 (reads_value hblank level v hms.2.1 hend) s).1 rest ?_
    rw [skip_of_blank hblanks, skip_cons rfl]
  | (name, v) :: (name', w) :: ns =>
    cases hne
    obtain ⟨s', rfl⟩ := hms.2.2.1
    obtain ⟨gap, hgap, hspaces⟩ := hblank.comma level
    have htext : writeMembers layout level ((.text s', w) :: ns) ++ (blanks ++ '\x7d' :: rest) =
        ',' :: (gap ++ (quote s' ++ (':' :: ' ' :: (writeAt layout level w ++
          (writeMembers layout level ns ++ (blanks ++ '\x7d' :: rest)))))) := by
      simp [writeMembers, memberName, hgap]
    have hends := endsNumber_cons (c := ',') (by decide)
    rw [htext]
    refine (readMembers_quote hms.2.1 (reads_value hblank level v hms.2.1 (hends _)) s).2 _ _ rest
      (skip_cons rfl _) ?_
    rw [skip_of_blank hspaces, quote_append, skip_cons rfl, ← quote_append]
    exact reads_members hblank level ((.text s', w) :: ns) hms.2.2 hblanks rest s' w ns rfl

end

/-- A text reads as what it was written from. -/
theorem read_write (hblank : layout.Blank) {v : Value} (hv : Plain v) :
    read (write layout v) = .ok v := by
  obtain ⟨c, cs, hcs, hc⟩ := exists_writeAt_cons hv layout 0
  have hreads : Reads (readValue (skip (c :: cs))) v [] := by
    rw [skip_cons hc.notSpace, ← hcs, ← List.append_nil (writeAt layout 0 v)]
    exact reads_value hblank 0 v hv endsNumber_nil
  obtain ⟨h, hread⟩ := hreads
  rw [read, write, String.toList_ofList, hcs, readAll]
  · rw [hread]
    rfl
  · exact fun _ heq => hc.ne_mark (List.cons.inj heq).1

end Written

end BranchForm.Json
