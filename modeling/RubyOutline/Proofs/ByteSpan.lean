import RubyOutline.Proofs.Utf8Scan
import RubyOutline.Text.Span

namespace RubyOutline

namespace Utf8

/-- A character of a text and the offset of its first byte. -/
structure Placed where
  char : Char
  start : Nat

def Placed.stop (p : Placed) : Nat := p.start + p.char.utf8Size

theorem Placed.start_lt_stop (p : Placed) : p.start < p.stop :=
  Nat.lt_add_of_pos_right p.char.utf8Size_pos

def placed (offset : Nat) : List Char → List Placed
  | [] => []
  | c :: chars => ⟨c, offset⟩ :: placed (offset + c.utf8Size) chars

/-- How many bytes of a range continue a character that began before it. -/
def continued (chars : List Placed) (a b : Nat) : Nat :=
  (List.range' a (b - a)).countP fun i => ∃ p ∈ chars, p.start < a ∧ i < p.stop

/-- The characters whose bytes all lie in a range. -/
def within (chars : List Placed) (a b : Nat) : List Char :=
  (chars.filter fun p => a ≤ p.start ∧ p.stop ≤ b).map Placed.char

/-- A replacement character where a range ends inside a character that began in it. -/
def cutShort (chars : List Placed) (a b : Nat) : List Char :=
  if ∃ p ∈ chars, a ≤ p.start ∧ p.start < b ∧ b < p.stop then [replacement] else []

variable {a b offset : Nat} {chars : List Char}

theorem le_start_of_mem_placed {p : Placed} (h : p ∈ placed offset chars) : offset ≤ p.start := by
  induction chars generalizing offset with
  | nil => simp [placed] at h
  | cons c chars ih =>
    rcases List.mem_cons.1 h with rfl | h
    · exact Nat.le_refl _
    · exact Nat.le_trans (Nat.le_add_right _ _) (ih h)

/-- Characters that all begin in a range or after it leave no byte before it. -/
theorem continued_eq_zero (h : a ≤ offset) : continued (placed offset chars) a b = 0 := by
  refine List.countP_eq_zero.2 fun i _ => ?_
  simp only [decide_eq_true_eq, not_exists, not_and]
  intro p hp hstart
  have := le_start_of_mem_placed hp
  omega

theorem continued_cons_of_stop_le {p : Placed} {rest : List Placed} (h : p.stop ≤ a) :
    continued (p :: rest) a b = continued rest a b := by
  refine List.countP_congr fun i hi => ?_
  have := (List.mem_range'_1.1 hi).1
  simp only [List.mem_cons, exists_eq_or_imp, decide_eq_true_eq]
  constructor
  · rintro (⟨-, hstop⟩ | hrest)
    · omega
    · exact hrest
  · exact .inr

theorem countP_range'_lt (a count stop : Nat) :
    (List.range' a count).countP (fun i => i < stop) = min count (stop - a) := by
  induction count with
  | zero => simp
  | succ count ih =>
    rw [List.range'_concat, List.countP_append, ih]
    by_cases h : a + count < stop
    · simp [h]
      omega
    · simp [h]
      omega

theorem continued_cons_of_lt {c : Char} (hstart : offset < a) (hstop : a < offset + c.utf8Size) :
    continued (⟨c, offset⟩ :: placed (offset + c.utf8Size) chars) a b =
      min (b - a) (offset + c.utf8Size - a) := by
  rw [← countP_range'_lt]
  refine List.countP_congr fun i _ => ?_
  simp only [List.mem_cons, exists_eq_or_imp, decide_eq_true_eq]
  constructor
  · rintro (⟨-, h⟩ | ⟨q, hq, hqstart, -⟩)
    · exact h
    · have := le_start_of_mem_placed hq
      omega
  · exact fun h => .inl ⟨hstart, h⟩

theorem within_eq_nil (h : b ≤ offset) : within (placed offset chars) a b = [] := by
  rw [within, List.map_eq_nil_iff, List.filter_eq_nil_iff]
  intro p hp hin
  obtain ⟨-, hstop⟩ := of_decide_eq_true hin
  have := le_start_of_mem_placed hp
  have := p.start_lt_stop
  omega

theorem cutShort_eq_nil (h : b ≤ offset) : cutShort (placed offset chars) a b = [] := by
  refine if_neg ?_
  rintro ⟨p, hp, -, hlt, -⟩
  have := le_start_of_mem_placed hp
  omega

theorem within_cons (p : Placed) (rest : List Placed) :
    within (p :: rest) a b =
      (if a ≤ p.start ∧ p.stop ≤ b then [p.char] else []) ++ within rest a b := by
  unfold within
  by_cases h : a ≤ p.start ∧ p.stop ≤ b
  · rw [List.filter_cons_of_pos (by simpa using h), if_pos h]
    rfl
  · rw [List.filter_cons_of_neg (by simpa using h), if_neg h]
    rfl

theorem cutShort_cons {p : Placed} {rest : List Placed}
    (h : ¬ (a ≤ p.start ∧ p.start < b ∧ b < p.stop)) :
    cutShort (p :: rest) a b = cutShort rest a b := by
  simp only [cutShort, List.mem_cons, exists_eq_or_imp, h, false_or]

/-- A span that begins with a character shows characters until it cuts one short. -/
theorem replaced_scan_take (h : a ≤ offset) :
    (scan none ((chars.flatMap String.utf8EncodeChar).take (b - offset))).map Piece.replaced =
      within (placed offset chars) a b ++ cutShort (placed offset chars) a b := by
  induction chars generalizing offset with
  | nil => simp [placed, within, cutShort, scan]
  | cons c chars ih =>
    by_cases hb : b ≤ offset
    · rw [Nat.sub_eq_zero_of_le hb, within_eq_nil hb, cutShort_eq_nil hb]
      rfl
    rw [List.flatMap_cons, List.take_append, String.length_utf8EncodeChar, Nat.sub_sub, placed,
      within_cons]
    by_cases hcut : b < offset + c.utf8Size
    · have hpast := Nat.le_of_lt hcut
      obtain ⟨bytes, hscan⟩ :=
        @scan_take_utf8EncodeChar c (b - offset) (by omega) (by omega)
      rw [Nat.sub_eq_zero_of_le hpast, List.take_zero, List.append_nil, hscan,
        if_neg (by simp [Placed.stop]; omega), within_eq_nil hpast, cutShort,
        if_pos ⟨_, List.mem_cons_self, h, by simpa using hb, hcut⟩]
      rfl
    · rw [List.take_of_length_le (by rw [String.length_utf8EncodeChar]; omega),
        scan_utf8EncodeChar_append, List.map_cons, ih (by omega),
        if_pos ⟨h, by simp [Placed.stop]; omega⟩, cutShort_cons (by simp [Placed.stop]; omega)]
      rfl

theorem replaced_scan_followers {bytes : List UInt8} (h : ∀ x ∈ bytes, IsFollower x)
    (rest : List UInt8) :
    (scan none (bytes ++ rest)).map Piece.replaced =
      List.replicate bytes.length replacement ++ (scan none rest).map Piece.replaced := by
  rw [scan_followers_append h, List.map_append, List.map_map, ← List.map_const']
  rfl

/-- Characters before a span show nothing, and each byte left of one that the span enters shows as
a replacement character. -/
theorem replaced_scan_drop_take (h : offset ≤ a) :
    (scan none (((chars.flatMap String.utf8EncodeChar).drop (a - offset)).take (b - a))).map
        Piece.replaced =
      List.replicate (continued (placed offset chars) a b) replacement ++
        (within (placed offset chars) a b ++ cutShort (placed offset chars) a b) := by
  induction chars generalizing offset with
  | nil => simp [placed, continued, within, cutShort, scan]
  | cons c chars ih =>
    by_cases hstart : a = offset
    · rw [hstart, Nat.sub_self, List.drop_zero, replaced_scan_take (Nat.le_refl _),
        continued_eq_zero (Nat.le_refl _)]
      rfl
    have hnot : ¬ a ≤ offset := by omega
    rw [List.flatMap_cons, List.drop_append, String.length_utf8EncodeChar, Nat.sub_sub, placed,
      within_cons, if_neg (fun h => hnot h.1), cutShort_cons (fun h => hnot h.1), List.nil_append]
    by_cases hstop : offset + c.utf8Size ≤ a
    · rw [List.drop_of_length_le (by rw [String.length_utf8EncodeChar]; omega),
        List.nil_append, ih hstop, continued_cons_of_stop_le hstop]
    · -- the span begins inside `c`, and ends inside it too where `b` is below its last byte
      have hleft : ∀ x ∈ ((String.utf8EncodeChar c).drop (a - offset)).take (b - a),
          IsFollower x := fun x hx =>
        isFollower_of_mem_drop (by omega) (List.mem_of_mem_take hx)
      have hcount : ((String.utf8EncodeChar c).drop (a - offset)).length =
          offset + c.utf8Size - a := by
        rw [List.length_drop, String.length_utf8EncodeChar]
        omega
      rw [show a - (offset + c.utf8Size) = 0 by omega, List.drop_zero, List.take_append, hcount,
        show b - a - (offset + c.utf8Size - a) = b - (offset + c.utf8Size) by omega,
        replaced_scan_followers hleft, List.length_take, hcount,
        replaced_scan_take (Nat.le_of_not_le hstop),
        continued_cons_of_lt (Nat.lt_of_not_le hnot) (Nat.lt_of_not_le hstop)]

/-- The pieces of an encoded text are its characters. -/
theorem pieces_encode (text : String) : pieces (encode text) = text.toList.map Piece.char := by
  unfold pieces encode
  induction text.toList with
  | nil => rfl
  | cons c chars ih => rw [List.flatMap_cons, scan_utf8EncodeChar_append, ih, List.map_cons]

theorem decodeLossy_encode (text : String) : decodeLossy (encode text) = text := by
  rw [decodeLossy, pieces_encode, List.map_map, show Piece.replaced ∘ Piece.char = id from rfl,
    List.map_id, String.ofList_toList]

theorem encode_append (left right : String) :
    encode (left ++ right) = encode left ++ encode right := by
  rw [encode, String.toList_append, List.flatMap_append]
  rfl

/-- Only the empty text has no bytes. -/
theorem eq_empty_of_encode {text : String} (h : (encode text).length = 0) : text = "" := by
  cases hchars : text.toList with
  | nil => exact String.toList_eq_nil_iff.1 hchars
  | cons c chars =>
    have := c.utf8Size_pos
    rw [encode, hchars, List.flatMap_cons, List.length_append, String.length_utf8EncodeChar] at h
    omega

/-- Of two texts that begin the same text, the one with fewer bytes begins the other. -/
theorem exists_between {before after upto rest : String} (h : before ++ after = upto ++ rest)
    (hle : (encode before).length ≤ (encode upto).length) : ∃ middle, upto = before ++ middle := by
  have hsame : before.toList ++ after.toList = upto.toList ++ rest.toList := by
    rw [← String.toList_append, h, String.toList_append]
  obtain ⟨middle, hmiddle⟩ | ⟨middle, hmiddle⟩ :=
    List.prefix_or_prefix_of_prefix ⟨_, hsame⟩ ⟨_, rfl⟩
  · refine ⟨String.ofList middle, ?_⟩
    rw [← String.toList_inj, String.toList_append, String.toList_ofList, hmiddle]
  · have hbefore : before = upto ++ String.ofList middle := by
      rw [← String.toList_inj, String.toList_append, String.toList_ofList, hmiddle]
    rw [hbefore, encode_append, List.length_append] at hle
    have hempty := @eq_empty_of_encode (String.ofList middle) (by omega)
    rw [hbefore, hempty]
    exact ⟨"", by simp⟩

end Utf8

open Utf8

theorem indexPlace_eq (length : Nat) (index : Int) :
    (indexPlace length index : Int) =
      max 0 (min (length : Int) (if index < 0 then length + index else index)) := by
  unfold indexPlace
  split <;> omega

/-- Where a span begins and ends between characters, its bytes are those of the text between. -/
theorem span_encode_between {before middle after : String} {start stop : Int}
    (hstart : indexPlace (encode (before ++ middle ++ after)).length start =
      (encode before).length)
    (hstop : indexPlace (encode (before ++ middle ++ after)).length stop =
      (encode (before ++ middle)).length) :
    span (encode (before ++ middle ++ after)) start stop = encode middle := by
  rw [span, hstart, hstop]
  simp [encode_append]

/-- A span of a text shows one replacement character for each byte that continues a character from
before it, then every character wholly in it, then one replacement character for a character that
its end cuts; between characters it shows the text as it is. -/
theorem span_text_shows_whole_characters (text : String) (start stop : Int) :
    let bytes := encode text
    let size : Int := bytes.length
    let a := indexPlace bytes.length start
    let b := indexPlace bytes.length stop
    let chars := placed 0 text.toList
    (a = max 0 (min size (if start < 0 then size + start else start)) ∧
      b = max 0 (min size (if stop < 0 then size + stop else stop))) ∧
    textAt bytes start stop = String.ofList
      (List.replicate (continued chars a b) replacement ++
        (within chars a b ++ cutShort chars a b)) ∧
    ∀ before after upto rest, before ++ after = text → upto ++ rest = text →
      (encode before).length = a → (encode upto).length = b → a ≤ b →
      before ++ textAt bytes start stop = upto := by
  intro bytes size a b chars
  refine ⟨⟨indexPlace_eq _ _, indexPlace_eq _ _⟩, ?_, ?_⟩
  · have hspan : span bytes start stop = (bytes.drop (a - 0)).take (b - a) := rfl
    rw [textAt, decodeLossy, pieces, hspan]
    exact congrArg String.ofList (replaced_scan_drop_take (Nat.zero_le a))
  · rintro before after upto rest hbefore rfl ha hb hab
    obtain ⟨middle, rfl⟩ := exists_between hbefore (by omega)
    rw [textAt, span_encode_between ha.symm hb.symm, decodeLossy_encode]

/-- The same text cut inside its first and last character, and cut between characters. -/
theorem span_text_shows_whole_characters_accented :
    textAt (encode "éa😀") 1 (-2) = "\uFFFDa\uFFFD" ∧
      "é" ++ textAt (encode "éa😀") (-5) 100 = "éa😀" :=
  ⟨(span_text_shows_whole_characters "éa😀" 1 (-2)).2.1.trans (by decide +kernel),
    (span_text_shows_whole_characters "éa😀" (-5) 100).2.2 "é" "a😀" "éa😀" "" rfl rfl
      (by decide +kernel) (by decide +kernel) (by decide +kernel)⟩

end RubyOutline
