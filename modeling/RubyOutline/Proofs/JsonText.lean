import Mathlib
import RubyOutline.Json.Reader
import RubyOutline.Json.Writer

namespace RubyOutline

theorem hexDigitValue?_digitChar {d : Nat} (h : d < 16) :
    hexDigitValue? (Nat.digitChar d) = some d := by
  have hall : ∀ d < 16, hexDigitValue? (Nat.digitChar d) = some d := by decide
  exact hall d h

theorem hexValue?_append (n : Nat) (ds es : List Char) :
    hexValue? n (ds ++ es) = (hexValue? n ds).bind fun m => hexValue? m es := by
  induction ds generalizing n with
  | nil => rfl
  | cons d ds ih =>
    rw [List.cons_append, hexValue?, hexValue?]
    cases hexDigitValue? d with
    | none => rfl
    | some v => exact ih _

theorem hexValue?_hexDigits (width start : Nat) {n : Nat} (h : n < 16 ^ width) :
    hexValue? start (hexDigits width n) = some (start * 16 ^ width + n) := by
  induction width generalizing n with
  | zero =>
    obtain rfl : n = 0 := by simpa using h
    simp [hexDigits, hexValue?]
  | succ width ih =>
    rw [Nat.pow_succ] at h
    have hinit : n / 16 < 16 ^ width := by omega
    have hlast : n % 16 < 16 := Nat.mod_lt _ (by decide)
    rw [hexDigits, hexValue?_append, ih hinit, Option.bind_some, hexValue?,
      hexDigitValue?_digitChar hlast, Option.bind_some, hexValue?, Nat.pow_succ, ← Nat.mul_assoc]
    congr 1
    omega

namespace Json

section Strings

theorem readUnit?_hexDigits {n : Nat} (h : n < 0x10000) (rest : List Char) :
    readUnit? (hexDigits 4 n ++ rest) = some (n, rest) := by
  have hvalue := @hexValue?_hexDigits 4 0 n (by omega)
  rw [Nat.zero_mul, Nat.zero_add] at hvalue
  obtain ⟨a, b, c, d, hdigits⟩ : ∃ a b c d, hexDigits 4 n = [a, b, c, d] := ⟨_, _, _, _, rfl⟩
  rw [hdigits] at hvalue ⊢
  simp only [List.cons_append, List.nil_append, readUnit?, hvalue, Option.map_some]

/-- A character is no surrogate. -/
theorem toNat_cases (c : Char) : c.toNat < 0xD800 ∨ 0xE000 ≤ c.toNat ∧ c.toNat < 0x110000 :=
  c.valid

theorem readCode?_hexDigits {c : Char} (h : c.toNat < 0x10000) (rest : List Char) :
    readCode? (hexDigits 4 c.toNat ++ rest) = some (c, rest) := by
  have hrange : c.toNat < 0xD800 ∨ 0xE000 ≤ c.toNat := (toNat_cases c).imp_right And.left
  simp only [readCode?, readUnit?_hexDigits h, bind, Option.bind, if_pos hrange, pure,
    Char.ofNat_toNat]

theorem readCode?_surrogates {high low : Nat} (hhigh : 0xD800 ≤ high ∧ high < 0xDC00)
    (hlow : 0xDC00 ≤ low ∧ low < 0xE000) (rest : List Char) :
    readCode? (hexDigits 4 high ++ (writeUnit low ++ rest)) =
      some (Char.ofNat (0x10000 + (high - 0xD800) * 0x400 + (low - 0xDC00)), rest) := by
  have hsurrogate : ¬(high < 0xD800 ∨ 0xE000 ≤ high) := by omega
  have hpair : high < 0xDC00 ∧ 0xDC00 ≤ low ∧ low < 0xE000 := ⟨hhigh.2, hlow⟩
  rw [readCode?, readUnit?_hexDigits (by omega)]
  simp only [bind, Option.bind, if_neg hsurrogate, writeUnit, List.cons_append,
    readUnit?_hexDigits (show low < 0x10000 by omega), if_pos hpair, pure]

/-- A character above U+FFFF is read from its two halves. -/
theorem readCode?_halves {c : Char} (h : 0x10000 ≤ c.toNat) (rest : List Char) :
    readCode? (hexDigits 4 (0xD800 + (c.toNat - 0x10000) / 0x400) ++
      (writeUnit (0xDC00 + (c.toNat - 0x10000) % 0x400) ++ rest)) = some (c, rest) := by
  have hlimit : c.toNat < 0x110000 := by
    have hcases := toNat_cases c
    omega
  rw [readCode?_surrogates (by omega) (by omega)]
  have hcode : 0x10000 + (0xD800 + (c.toNat - 0x10000) / 0x400 - 0xD800) * 0x400 +
      (0xDC00 + (c.toNat - 0x10000) % 0x400 - 0xDC00) = c.toNat := by omega
  rw [hcode, Char.ofNat_toNat]

theorem readChars?_unit {fuel : Nat} {code more : List Char} {c : Char}
    (h : readCode? code = some (c, more)) :
    readChars? (fuel + 1) ('\\' :: 'u' :: code) =
      (readChars? fuel more).map fun (cs, rest) => (c :: cs, rest) := by
  simp only [readChars?, Char.reduceEq, if_false, if_true, h, bind, Option.bind, pure]
  cases readChars? fuel more <;> rfl

theorem readChars?_escape {fuel : Nat} {e c : Char} {more : List Char} (hne : e ≠ 'u')
    (h : simpleEscape? e = some c) :
    readChars? (fuel + 1) ('\\' :: e :: more) =
      (readChars? fuel more).map fun (cs, rest) => (c :: cs, rest) := by
  simp only [readChars?, Char.reduceEq, if_false, if_true, h, bind, Option.bind, pure]
  cases readChars? fuel more <;> rfl

theorem readChars?_plain {fuel : Nat} {c : Char} {more : List Char} (hquote : c ≠ '\x22')
    (hslash : c ≠ '\\') (hcontrol : 0x20 ≤ c.toNat) :
    readChars? (fuel + 1) (c :: more) =
      (readChars? fuel more).map fun (cs, rest) => (c :: cs, rest) := by
  simp only [readChars?, if_neg hquote, if_neg hslash, if_neg (Nat.not_lt.mpr hcontrol), bind,
    Option.bind, pure]
  cases readChars? fuel more <;> rfl

/-- One written character is read in one step. -/
theorem readChars?_writeChar (fuel : Nat) (c : Char) (more : List Char) :
    readChars? (fuel + 1) (writeChar c ++ more) =
      (readChars? fuel more).map fun (cs, rest) => (c :: cs, rest) := by
  unfold writeChar
  simp only
  split_ifs with hquote hslash hfeed hreturn htab hback hform hprint hunit
  · exact readChars?_escape (by decide) (by rw [hquote]; rfl)
  · exact readChars?_escape (by decide) (by rw [hslash]; rfl)
  · exact readChars?_escape (by decide) (by rw [hfeed]; rfl)
  · exact readChars?_escape (by decide) (by rw [hreturn]; rfl)
  · exact readChars?_escape (by decide) (by rw [htab]; rfl)
  · obtain rfl : c = '\x08' := Char.toNat_inj.mp hback
    exact readChars?_escape (by decide) rfl
  · obtain rfl : c = '\x0c' := Char.toNat_inj.mp hform
    exact readChars?_escape (by decide) rfl
  · exact readChars?_plain hquote hslash hprint.1
  · exact readChars?_unit (readCode?_hexDigits hunit more)
  · rw [List.append_assoc]
    exact readChars?_unit (readCode?_halves (Nat.not_lt.mp hunit) more)

theorem readChars?_flatMap {fuel : Nat} {cs : List Char} (h : cs.length < fuel)
    (rest : List Char) :
    readChars? fuel (cs.flatMap writeChar ++ '\x22' :: rest) = some (cs, rest) := by
  induction cs generalizing fuel with
  | nil =>
    obtain ⟨fuel, rfl⟩ := Nat.exists_eq_succ_of_ne_zero (Nat.ne_of_gt h)
    rfl
  | cons c cs ih =>
    obtain ⟨fuel, rfl⟩ := Nat.exists_eq_succ_of_ne_zero (Nat.ne_of_gt (Nat.zero_lt_of_lt h))
    rw [List.flatMap_cons, List.append_assoc, readChars?_writeChar, ih (Nat.lt_of_succ_lt_succ h)]
    rfl

theorem length_le_flatMap_writeChar (cs : List Char) :
    cs.length ≤ (cs.flatMap writeChar).length := by
  induction cs with
  | nil => exact Nat.le_refl 0
  | cons c cs ih =>
    have hne : 0 < (writeChar c).length := by
      unfold writeChar
      simp only
      split_ifs <;> simp [writeUnit]
    rw [List.flatMap_cons, List.length_append, List.length_cons]
    omega

theorem readString?_writeString (text : String) (rest : List Char) :
    readString? (writeString text ++ rest) = some (text, rest) := by
  have hshape : writeString text ++ rest =
      '\x22' :: (text.toList.flatMap writeChar ++ '\x22' :: rest) := by
    simp [writeString]
  have hlength := length_le_flatMap_writeChar text.toList
  rw [hshape, readString?, readChars?_flatMap (by rw [List.length_append]; omega), Option.map_some]
  simp only [String.ofList_toList]

end Strings

section Numbers

/-- No text that starts like this continues a number. -/
def EndsNumber (rest : List Char) : Prop :=
  ∀ c ∈ rest.head?, c.isDigit = false ∧ c ≠ '.' ∧ c ≠ 'e' ∧ c ≠ 'E'

theorem readDigits?_append {digits rest : List Char} (hne : digits ≠ [])
    (hdigits : ∀ c ∈ digits, c.isDigit = true) (hrest : ∀ c ∈ rest.head?, c.isDigit = false) :
    readDigits? (digits ++ rest) = some (digits, rest) := by
  have hnone : rest.takeWhile Char.isDigit = [] ∧ rest.dropWhile Char.isDigit = rest := by
    cases rest with
    | nil => exact ⟨rfl, rfl⟩
    | cons c rest =>
      have hc : ¬c.isDigit = true := by simp [hrest c rfl]
      exact ⟨List.takeWhile_cons_of_neg hc, List.dropWhile_cons_of_neg hc⟩
  rw [readDigits?, List.takeWhile_append_of_pos hdigits, List.dropWhile_append_of_pos hdigits,
    hnone.1, hnone.2, List.append_nil]
  cases digits with
  | nil => exact absurd rfl hne
  | cons d ds => rfl

theorem readExponent?_of_ends {rest : List Char} (h : EndsNumber rest) :
    readExponent? rest = some (0, rest) := by
  cases rest with
  | nil => rfl
  | cons c rest =>
    obtain ⟨-, -, he, hE⟩ := h c rfl
    have hneither : ¬(c = 'e' ∨ c = 'E') := not_or.mpr ⟨he, hE⟩
    exact if_neg hneither

/-- A number other than zero starts with another digit. -/
theorem head?_toDigits_ne_zero {n : Nat} (h : n ≠ 0) : (Nat.toDigits 10 n).head? ≠ some '0' := by
  induction n using Nat.strongRecOn with
  | _ n ih =>
    rw [Nat.toDigits_eq_if (by decide)]
    split_ifs with hsmall
    · have hall : ∀ d < 10, d ≠ 0 → [Nat.digitChar d].head? ≠ some '0' := by decide
      exact hall n hsmall h
    · have hhead := ih (n / 10) (by omega) (by omega)
      obtain ⟨d, ds, hds⟩ := List.exists_cons_of_ne_nil (@Nat.toDigits_ne_nil (n / 10) 10)
      rwa [hds] at hhead ⊢

theorem digitsValue_replicate_append (count : Nat) (digits : List Char) :
    digitsValue (List.replicate count '0' ++ digits) = digitsValue digits := by
  induction count with
  | zero => rfl
  | succ count ih => exact ih

theorem digitsValue_toDigits (n : Nat) : digitsValue (Nat.toDigits 10 n) = n :=
  Nat.ofDigitChars_toDigits (by decide) (by decide)

/-- The digits before and after the point of a written number. -/
theorem writeNumber_parts (mantissa : Int) (places : Nat) :
    ∃ whole fraction : List Char,
      writeNumber mantissa places = (if mantissa < 0 then ['-'] else []) ++ whole ++
        (if places = 0 then [] else '.' :: fraction) ∧
      whole ≠ [] ∧ fraction.length = places ∧
      (∀ c ∈ whole ++ fraction, c.isDigit = true) ∧
      digitsValue (whole ++ fraction) = mantissa.natAbs ∧
      ¬(whole.length > 1 ∧ whole.head? = some '0') := by
  generalize hdigits : Nat.toDigits 10 mantissa.natAbs = digits
  generalize hpadded : List.replicate (places + 1 - digits.length) '0' ++ digits = padded
  have hlength : padded.length = max (places + 1) digits.length := by
    rw [← hpadded, List.length_append, List.length_replicate]
    omega
  refine ⟨padded.take (padded.length - places), padded.drop (padded.length - places), ?_, ?_, ?_,
    ?_, ?_, ?_⟩
  · rw [writeNumber, hdigits, hpadded]
  · rw [← List.length_pos_iff, List.length_take]
    omega
  · rw [List.length_drop]
    omega
  · intro c hc
    rw [List.take_append_drop, ← hpadded, List.mem_append] at hc
    rcases hc with hzero | hdigit
    · rw [List.eq_of_mem_replicate hzero]
      rfl
    · rw [← hdigits] at hdigit
      exact Nat.isDigit_of_mem_toDigits (by decide) (by decide) hdigit
  · rw [List.take_append_drop, ← hpadded, digitsValue_replicate_append, ← hdigits,
      digitsValue_toDigits]
  · -- more than one digit before the point means that nothing was padded
    rintro ⟨hlong, hzero⟩
    rw [List.length_take] at hlong
    have hpad : places + 1 - digits.length = 0 := by omega
    rw [hpad, List.replicate_zero, List.nil_append] at hpadded
    have hhead : (padded.take (padded.length - places)).head? = digits.head? := by
      rw [← hpadded]
      cases digits with
      | nil => simp
      | cons d ds =>
        obtain ⟨k, hk⟩ := Nat.exists_eq_succ_of_ne_zero
          (show (d :: ds).length - places ≠ 0 by rw [hpadded]; omega)
        rw [hk]
        rfl
    have hnonzero : mantissa.natAbs ≠ 0 := by
      intro hn
      rw [hn] at hdigits
      rw [← hpadded, ← hdigits] at hlong
      simp at hlong
      omega
    rw [hhead, ← hdigits] at hzero
    exact head?_toDigits_ne_zero hnonzero hzero

theorem readFraction?_of_ends {rest : List Char} (h : EndsNumber rest) :
    readFraction? rest = some ([], rest) := by
  unfold readFraction?
  split
  · exact absurd rfl (h '.' rfl).2.1
  · rfl

/-- A number without an exponent, from its digits before and after the point. -/
theorem readNumber?_of_parts {negative : Bool} {body whole tail fraction rest : List Char}
    (hbody : body.head? ≠ some '-') (hwhole : readDigits? body = some (whole, tail))
    (hzero : ¬(whole.length > 1 ∧ whole.head? = some '0'))
    (hfraction : readFraction? tail = some (fraction, rest)) (hrest : EndsNumber rest) :
    readNumber? ((if negative then ['-'] else []) ++ body) =
      some (.number (if negative then -(digitsValue (whole ++ fraction) : Int)
        else digitsValue (whole ++ fraction)) fraction.length, rest) := by
  have hpower : Nat.pow 10 (-((fraction.length : Int) - 0)).toNat = 1 := by
    rw [show (-((fraction.length : Int) - 0)).toNat = 0 by omega, Nat.pow_eq, Nat.pow_zero]
  have hplaces : ((fraction.length : Int) - 0).toNat = fraction.length := by omega
  unfold readNumber?
  cases negative with
  | true =>
    simp only [if_true, List.cons_append, List.nil_append, hwhole, bind, Option.bind, if_neg hzero,
      hfraction, readExponent?_of_ends hrest, hpower, hplaces, Nat.mul_one, pure]
  | false =>
    simp only [Bool.false_eq_true, if_false, List.nil_append]
    split
    · exact absurd rfl hbody
    · simp only [hwhole, bind, Option.bind, if_neg hzero, hfraction, readExponent?_of_ends hrest,
        hpower, hplaces, Nat.mul_one, pure, Bool.false_eq_true, if_false]

theorem readNumber?_writeNumber (mantissa : Int) (places : Nat) {rest : List Char}
    (h : EndsNumber rest) :
    readNumber? (writeNumber mantissa places ++ rest) = some (.number mantissa places, rest) := by
  obtain ⟨whole, fraction, hwritten, hne, hlength, hdigits, hvalue, hzero⟩ :=
    writeNumber_parts mantissa places
  rw [List.forall_mem_append] at hdigits
  generalize htail : (if places = 0 then [] else '.' :: fraction) ++ rest = tail
  have hfraction : readFraction? tail = some (fraction, rest) := by
    rw [← htail]
    split_ifs with hplaces
    · rw [List.eq_nil_of_length_eq_zero (hlength.trans hplaces)]
      exact readFraction?_of_ends h
    · have hsome : fraction ≠ [] := by
        rintro rfl
        exact hplaces hlength.symm
      exact readDigits?_append hsome hdigits.2 fun c hc => (h c hc).1
  have hwhole : readDigits? (whole ++ tail) = some (whole, tail) := by
    refine readDigits?_append hne hdigits.1 fun c hc => ?_
    rw [← htail] at hc
    split_ifs at hc
    · exact (h c hc).1
    · cases hc
      rfl
  have hhead : (whole ++ tail).head? ≠ some '-' := by
    obtain ⟨d, ds, rfl⟩ := List.exists_cons_of_ne_nil hne
    rintro heq
    cases heq
    cases hdigits.1 '-' (by simp)
  have hnumber := @readNumber?_of_parts (decide (mantissa < 0)) _ _ _ _ _ hhead hwhole hzero
    hfraction h
  rw [hvalue, hlength] at hnumber
  rw [hwritten, List.append_assoc, List.append_assoc, htail]
  simp only [decide_eq_true_eq] at hnumber
  rw [hnumber]
  congr 3
  split_ifs <;> omega

theorem writeNumber_head (mantissa : Int) (places : Nat) :
    ∃ c more, writeNumber mantissa places = c :: more ∧ (c = '-' ∨ c.isDigit = true) := by
  obtain ⟨whole, fraction, hwritten, hne, -, hdigits, -, -⟩ := writeNumber_parts mantissa places
  obtain ⟨d, ds, rfl⟩ := List.exists_cons_of_ne_nil hne
  rw [hwritten]
  split_ifs
  · exact ⟨'-', _, rfl, .inl rfl⟩
  · exact ⟨'-', _, rfl, .inl rfl⟩
  · exact ⟨d, _, rfl, .inr (hdigits d (by simp))⟩
  · exact ⟨d, _, rfl, .inr (hdigits d (by simp))⟩

end Numbers

section Values

theorem skipBlanks_newline (depth : Nat) (text : List Char) :
    skipBlanks (newline depth ++ text) = skipBlanks text := by
  refine List.dropWhile_append_of_pos fun c hc => ?_
  rcases List.mem_cons.mp hc with rfl | hc
  · rfl
  · rw [List.eq_of_mem_replicate hc]
    rfl

theorem skipBlanks_cons {c : Char} (h : isBlank c = false) (text : List Char) :
    skipBlanks (c :: text) = c :: text :=
  List.dropWhile_cons_of_neg (by rw [h]; decide)

theorem isBlank_of_isDigit {c : Char} (h : c.isDigit = true) : isBlank c = false := by
  rw [← Bool.not_eq_true]
  intro hblank
  simp only [isBlank, Bool.or_eq_true, beq_iff_eq] at hblank
  rcases hblank with ((rfl | rfl) | rfl) | rfl <;> cases h

/-- A written value starts with a character that is neither a blank nor a closing bracket. -/
theorem write_head (depth : Nat) (v : Json) :
    ∃ c more, write depth v = c :: more ∧ isBlank c = false ∧ c ≠ ']' := by
  cases v with
  | null => exact ⟨'n', "ull".toList, by simp [write], rfl, by decide⟩
  | bool value =>
    cases value with
    | true => exact ⟨'t', "rue".toList, by simp [write], rfl, by decide⟩
    | false => exact ⟨'f', "alse".toList, by simp [write], rfl, by decide⟩
  | number mantissa places =>
    obtain ⟨c, more, hwrite, hc⟩ := writeNumber_head mantissa places
    refine ⟨c, more, hwrite, ?_⟩
    rcases hc with rfl | hdigit
    · exact ⟨rfl, by decide⟩
    · exact ⟨isBlank_of_isDigit hdigit, fun h => by rw [h] at hdigit; cases hdigit⟩
  | string text => exact ⟨'\x22', _, rfl, rfl, by decide⟩
  | array items =>
    cases items with
    | nil => exact ⟨'[', _, rfl, rfl, by decide⟩
    | cons item items => exact ⟨'[', _, rfl, rfl, by decide⟩
  | object members =>
    cases members with
    | nil => exact ⟨'\x7b', _, rfl, rfl, by decide⟩
    | cons member members => exact ⟨'\x7b', _, rfl, rfl, by decide⟩

theorem skipBlanks_write (depth : Nat) (v : Json) (rest : List Char) :
    skipBlanks (write depth v ++ rest) = write depth v ++ rest := by
  obtain ⟨c, more, hwrite, hblank, -⟩ := write_head depth v
  rw [hwrite, List.cons_append, skipBlanks_cons hblank]

theorem endsNumber_newline (depth : Nat) (rest : List Char) :
    EndsNumber (newline depth ++ rest) := by
  rintro c hc
  cases hc
  decide

theorem endsNumber_comma (rest : List Char) : EndsNumber (',' :: rest) := by
  rintro c hc
  cases hc
  decide

theorem endsNumber_writeItems (depth : Nat) (items : List Json) (rest : List Char) :
    EndsNumber (writeItems (depth + 1) items ++ (newline depth ++ rest)) := by
  cases items with
  | nil => exact endsNumber_newline depth rest
  | cons item items => exact endsNumber_comma _

theorem endsNumber_writeMembers (depth : Nat) (members : List (String × Json)) (rest : List Char) :
    EndsNumber (writeMembers (depth + 1) members ++ (newline depth ++ rest)) := by
  cases members with
  | nil => exact endsNumber_newline depth rest
  | cons member members => exact endsNumber_comma _

theorem read?_number {fuel : Nat} {c : Char} {more : List Char} (h : c = '-' ∨ c.isDigit = true) :
    read? (fuel + 1) (c :: more) = readNumber? (c :: more) := by
  have hblank : isBlank c = false := by
    rcases h with rfl | hdigit
    · rfl
    · exact isBlank_of_isDigit hdigit
  rw [read?, skipBlanks_cons hblank]
  split
  case h_8 => rfl
  all_goals
    rename_i heq
    cases heq <;> exact absurd h (by decide)

theorem read?_congr (fuel : Nat) {text text' : List Char} (h : skipBlanks text = skipBlanks text') :
    read? fuel text = read? fuel text' := by
  cases fuel with
  | zero => rw [read?, read?]
  | succ fuel => rw [read?, read?, h]

theorem read?_newline (fuel depth : Nat) (text : List Char) :
    read? fuel (newline depth ++ text) = read? fuel text :=
  read?_congr fuel (skipBlanks_newline depth text)

/-- An opening bracket, an item and what follows it. -/
theorem read?_array {fuel depth depth' : Nat} {item : Json} {items : List Json}
    {more rest : List Char}
    (hitem : read? fuel (write depth item ++ more) = some (item, more))
    (hitems : readItems? fuel more = some (items, rest)) :
    read? (fuel + 1) ('[' :: (newline depth' ++ (write depth item ++ more))) =
      some (.array (item :: items), rest) := by
  obtain ⟨c, text, hwrite, hblank, hc⟩ := write_head depth item
  rw [read?, skipBlanks_cons rfl]
  simp only [skipBlanks_newline, skipBlanks_write]
  rw [hwrite, List.cons_append] at hitem ⊢
  split
  · rename_i heq
    exact absurd (List.cons.inj heq).1 hc
  · simp only [hitem, hitems, bind, Option.bind, pure]

theorem readItems?_comma {fuel depth depth' : Nat} {item : Json} {items : List Json}
    {more rest : List Char}
    (hitem : read? fuel (write depth item ++ more) = some (item, more))
    (hitems : readItems? fuel more = some (items, rest)) :
    readItems? (fuel + 1) (',' :: (newline depth' ++ (write depth item ++ more))) =
      some (item :: items, rest) := by
  rw [readItems?, skipBlanks_cons rfl]
  simp only [read?_newline, hitem, hitems, bind, Option.bind, pure]

theorem skipBlanks_writeString (name : String) (text : List Char) :
    skipBlanks (writeString name ++ text) = writeString name ++ text :=
  skipBlanks_cons rfl _

theorem readMember?_newline (fuel depth : Nat) (text : List Char) :
    readMember? fuel (newline depth ++ text) = readMember? fuel text := by
  cases fuel with
  | zero => rw [readMember?, readMember?]
  | succ fuel => rw [readMember?, readMember?, skipBlanks_newline]

theorem readMember?_writeString {fuel depth : Nat} {name : String} {value : Json}
    {rest : List Char} (hvalue : read? fuel (write depth value ++ rest) = some (value, rest)) :
    readMember? (fuel + 1) (writeString name ++ (':' :: ' ' :: (write depth value ++ rest))) =
      some ((name, value), rest) := by
  have hspace : read? fuel (' ' :: (write depth value ++ rest)) = some (value, rest) := by
    rw [← hvalue]
    exact read?_congr fuel rfl
  rw [readMember?, skipBlanks_writeString, readString?_writeString]
  simp only [bind, Option.bind, skipBlanks_cons (show isBlank ':' = false from rfl), hspace, pure]

/-- An opening brace, a member and what follows it. -/
theorem read?_object {fuel depth depth' : Nat} {name : String} {value : Json}
    {members : List (String × Json)} {more rest : List Char}
    (hvalue : read? fuel (write depth value ++ more) = some (value, more))
    (hmembers : readMembers? (fuel + 1) more = some (members, rest)) :
    read? (fuel + 2) ('\x7b' :: (newline depth' ++
      (writeString name ++ (':' :: ' ' :: (write depth value ++ more))))) =
        some (.object ((name, value) :: members), rest) := by
  have hmember := @readMember?_writeString _ _ name _ _ hvalue
  rw [read?, skipBlanks_cons rfl]
  simp only [skipBlanks_newline, skipBlanks_writeString]
  split
  · rename_i heq
    exact absurd (List.cons.inj heq).1 (by decide)
  · simp only [hmember, hmembers, bind, Option.bind, pure]

theorem readMembers?_comma {fuel depth depth' : Nat} {name : String} {value : Json}
    {members : List (String × Json)} {more rest : List Char}
    (hvalue : read? fuel (write depth value ++ more) = some (value, more))
    (hmembers : readMembers? (fuel + 1) more = some (members, rest)) :
    readMembers? (fuel + 2) (',' :: (newline depth' ++
      (writeString name ++ (':' :: ' ' :: (write depth value ++ more))))) =
        some ((name, value) :: members, rest) := by
  rw [readMembers?, skipBlanks_cons rfl]
  simp only [readMember?_newline, readMember?_writeString hvalue, hmembers, bind, Option.bind, pure]

mutual

theorem read?_write (depth : Nat) : ∀ (v : Json) {fuel : Nat} {rest : List Char},
    2 * (write depth v).length ≤ fuel → EndsNumber rest →
      read? fuel (write depth v ++ rest) = some (v, rest)
  | v, 0, _, h, _ => by
    obtain ⟨c, more, hwrite, -⟩ := write_head depth v
    rw [hwrite] at h
    simp at h
  | .null, fuel + 1, rest, _, _ => by
    rw [write]
    rfl
  | .bool true, fuel + 1, rest, _, _ => by
    rw [write]
    rfl
  | .bool false, fuel + 1, rest, _, _ => by
    rw [write]
    rfl
  | .number mantissa places, fuel + 1, rest, _, hrest => by
    obtain ⟨c, more, hwrite, hc⟩ := writeNumber_head mantissa places
    have hnumber := readNumber?_writeNumber mantissa places hrest
    rw [write, hwrite, List.cons_append, read?_number hc]
    rwa [hwrite, List.cons_append] at hnumber
  | .string text, fuel + 1, rest, _, _ => by
    have hread := readString?_writeString text rest
    rw [write, read?, skipBlanks_writeString]
    simp only [writeString, List.cons_append] at hread ⊢
    rw [hread, Option.map_some]
  | .array [], fuel + 1, rest, _, _ => by
    rw [write]
    rfl
  | .array (item :: items), fuel + 1, rest, h, hrest => by
    have hitem := @read?_write (depth + 1) item fuel
    have hitems := @readItems?_writeItems depth items fuel
    rw [write] at h ⊢
    simp only [List.length_append, List.length_cons] at h
    simp only [List.cons_append, List.append_assoc, List.nil_append]
    exact read?_array (hitem (by omega) (endsNumber_writeItems depth items _))
      (hitems (by omega))
  | .object [], fuel + 1, rest, _, _ => by
    rw [write]
    rfl
  | .object ((name, value) :: members), fuel + 1, rest, h, hrest => by
    have hvalue := @read?_write (depth + 1) value (fuel - 1)
    have hmembers := @readMembers?_writeMembers depth members fuel
    rw [write] at h ⊢
    simp only [List.length_append, List.length_cons] at h
    obtain ⟨fuel, rfl⟩ := Nat.exists_eq_succ_of_ne_zero (show fuel ≠ 0 by omega)
    simp only [List.cons_append, List.append_assoc, List.nil_append]
    exact read?_object (hvalue (by omega) (endsNumber_writeMembers depth members _))
      (hmembers (by omega))

/-- The items after the first, and the closing bracket. -/
theorem readItems?_writeItems (depth : Nat) : ∀ (items : List Json) {fuel : Nat} {rest : List Char},
    2 * (writeItems (depth + 1) items).length < fuel →
      readItems? fuel (writeItems (depth + 1) items ++ (newline depth ++ ']' :: rest)) =
        some (items, rest)
  | _, 0, _, h => absurd h (Nat.not_lt_zero _)
  | [], fuel + 1, rest, _ => by
    rw [writeItems, List.nil_append, readItems?, skipBlanks_newline]
    rfl
  | item :: items, fuel + 1, rest, h => by
    have hitem := @read?_write (depth + 1) item fuel
    have hitems := @readItems?_writeItems depth items fuel
    rw [writeItems] at h ⊢
    simp only [List.length_append, List.length_cons] at h
    simp only [List.cons_append, List.append_assoc]
    exact readItems?_comma (hitem (by omega) (endsNumber_writeItems depth items _))
      (hitems (by omega))

/-- The members after the first, and the closing brace. -/
theorem readMembers?_writeMembers (depth : Nat) :
    ∀ (members : List (String × Json)) {fuel : Nat} {rest : List Char},
    2 * (writeMembers (depth + 1) members).length < fuel →
      readMembers? fuel (writeMembers (depth + 1) members ++ (newline depth ++ '\x7d' :: rest)) =
        some (members, rest)
  | _, 0, _, h => absurd h (Nat.not_lt_zero _)
  | [], fuel + 1, rest, _ => by
    rw [writeMembers, List.nil_append, readMembers?, skipBlanks_newline]
    rfl
  | (name, value) :: members, fuel + 1, rest, h => by
    have hvalue := @read?_write (depth + 1) value (fuel - 1)
    have hmembers := @readMembers?_writeMembers depth members fuel
    rw [writeMembers] at h ⊢
    simp only [List.length_append, List.length_cons] at h
    obtain ⟨fuel, rfl⟩ := Nat.exists_eq_succ_of_ne_zero (show fuel ≠ 0 by omega)
    simp only [List.cons_append, List.append_assoc, List.nil_append]
    exact readMembers?_comma (hvalue (by omega) (endsNumber_writeMembers depth members _))
      (hmembers (by omega))

end

/-- Reading gives back what was written, also when blanks follow it. -/
theorem parse?_write (v : Json) {blanks : List Char} (h : ∀ c ∈ blanks, isBlank c = true) :
    parse? (String.ofList (write 0 v ++ blanks)) = some v := by
  have hends : EndsNumber blanks := by
    intro c hc
    have hblank := h c (List.mem_of_mem_head? hc)
    simp only [isBlank, Bool.or_eq_true, beq_iff_eq] at hblank
    rcases hblank with ((rfl | rfl) | rfl) | rfl <;> decide
  have hread : read? (2 * (String.ofList (write 0 v ++ blanks)).length + 2) (write 0 v ++ blanks) =
      some (v, blanks) := by
    refine read?_write 0 v ?_ hends
    rw [String.length_ofList, List.length_append]
    omega
  have hskip : skipBlanks blanks = [] := by
    rw [skipBlanks, ← List.append_nil blanks, List.dropWhile_append_of_pos h]
    rfl
  rw [parse?, String.toList_ofList, hread]
  simp only [bind, Option.bind, hskip, List.isEmpty_nil, if_true]

end Values

end Json

end RubyOutline
