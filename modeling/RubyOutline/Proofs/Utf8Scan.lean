import Mathlib.Algebra.Group.Nat.Defs
import Mathlib.Tactic.SplitIfs
import RubyOutline.Text.Utf8

namespace RubyOutline.Utf8

/-- The byte that carries six bits of a code point, with `later` more bytes to come. -/
def follower (code later : Nat) : UInt8 := UInt8.ofNat (code / 64 ^ later % 64 + 128)

def followers (code : Nat) : Nat → List UInt8
  | 0 => []
  | count + 1 => follower code count :: followers code count

theorem length_followers (code count : Nat) : (followers code count).length = count := by
  induction count with
  | zero => rfl
  | succ count ih => rw [followers, List.length_cons, ih]

theorem toNat_ofNat {code : Nat} (h : code < 256) : (UInt8.ofNat code).toNat = code := by
  rw [UInt8.toNat_ofNat', Nat.mod_eq_of_lt h]

theorem toNat_follower (code later : Nat) :
    (follower code later).toNat = code / 64 ^ later % 64 + 128 :=
  toNat_ofNat (by omega)

def IsFollower (b : UInt8) : Prop := 0x80 ≤ b.toNat ∧ b.toNat < 0xC0

theorem isFollower_of_mem {code count : Nat} {b : UInt8} (h : b ∈ followers code count) :
    IsFollower b := by
  induction count with
  | zero => simp [followers] at h
  | succ count ih =>
    rcases List.mem_cons.1 h with rfl | h
    · rw [IsFollower, toNat_follower]
      omega
    · exact ih h

theorem step_none_of_isFollower {b : UInt8} (h : IsFollower b) :
    step none b = ([.illFormed [b] .startByte], none) := by
  obtain ⟨hlow, hhigh⟩ := h
  have hstart : start b = .inl (.illFormed [b] .startByte) := by
    unfold start
    rw [if_neg (by omega), if_pos (by omega)]
  simp only [step, first, hstart]

/-- Each follower without a first byte is an ill-formed part of its own. -/
theorem scan_followers_append {bytes : List UInt8} (h : ∀ b ∈ bytes, IsFollower b)
    (rest : List UInt8) :
    scan none (bytes ++ rest) =
      bytes.map (fun b => .illFormed [b] .startByte) ++ scan none rest := by
  induction bytes with
  | nil => rfl
  | cons b bytes ih =>
    rw [List.forall_mem_cons] at h
    simp only [List.cons_append, scan, step_none_of_isFollower h.1, ih h.2]
    rfl

/-- An open character that is `c`, with `later` followers to come after the next one. -/
structure Pending.Holds (p : Pending) (c : Char) (later : Nat) : Prop where
  missing : p.missing = later + 1
  value : p.value = c.toNat / 64 ^ (later + 1)
  low : p.low.toNat ≤ c.toNat / 64 ^ later % 64 + 128
  high : c.toNat / 64 ^ later % 64 + 128 ≤ p.high.toNat

theorem toNat_valid (c : Char) : c.toNat < 0xD800 ∨ 0xDFFF < c.toNat ∧ c.toNat < 0x110000 :=
  c.valid

/-- One byte for ASCII, else a first byte that tells how many followers there are. -/
theorem utf8EncodeChar_cases (c : Char) : ∃ b : UInt8,
    b.toNat = c.toNat ∧ c.toNat < 0x80 ∧ String.utf8EncodeChar c = [b] ∨
    b.toNat = c.toNat / 64 + 0xC0 ∧ 0x80 ≤ c.toNat ∧ c.toNat < 0x800 ∧
      String.utf8EncodeChar c = b :: followers c.toNat 1 ∨
    b.toNat = c.toNat / 4096 + 0xE0 ∧ 0x800 ≤ c.toNat ∧ c.toNat < 0x10000 ∧
      String.utf8EncodeChar c = b :: followers c.toNat 2 ∨
    b.toNat = c.toNat / 262144 + 0xF0 ∧ 0x10000 ≤ c.toNat ∧
      String.utf8EncodeChar c = b :: followers c.toNat 3 := by
  have hvalid := toNat_valid c
  simp only [String.utf8EncodeChar, Char.toNat_val]
  split_ifs with h1 h2 h3
  · exact ⟨_, .inl ⟨toNat_ofNat (by omega), by omega, rfl⟩⟩
  · rw [show c.toNat / 64 % 32 = c.toNat / 64 by omega]
    exact ⟨_, .inr (.inl ⟨toNat_ofNat (by omega), by omega, by omega,
      by simp [followers, follower]⟩)⟩
  · rw [show c.toNat / 4096 % 16 = c.toNat / 4096 by omega]
    exact ⟨_, .inr (.inr (.inl ⟨toNat_ofNat (by omega), by omega, by omega,
      by simp [followers, follower]⟩))⟩
  · rw [show c.toNat / 262144 % 8 = c.toNat / 262144 by omega]
    exact ⟨_, .inr (.inr (.inr ⟨toNat_ofNat (by omega), by omega, by simp [followers, follower]⟩))⟩

theorem start_two {b : UInt8} (hlow : 0xC2 ≤ b.toNat) (hhigh : b.toNat < 0xE0) :
    start b = .inr ⟨[b], b.toNat - 0xC0, 1, 0x80, 0xBF⟩ := by
  unfold start
  rw [if_neg (by omega), if_neg (by omega), if_pos hhigh]

theorem start_three {b : UInt8} (hlow : 0xE0 ≤ b.toNat) (hhigh : b.toNat < 0xF0) :
    start b = .inr ⟨[b], b.toNat - 0xE0, 2, if b.toNat = 0xE0 then 0xA0 else 0x80,
      if b.toNat = 0xED then 0x9F else 0xBF⟩ := by
  unfold start
  rw [if_neg (by omega), if_neg (by omega), if_neg (by omega)]
  by_cases h : b.toNat = 0xE0
  · simp [h]
  by_cases h' : b.toNat = 0xED
  · simp [h']
  simp [h, h', hhigh]

theorem start_four {b : UInt8} (hlow : 0xF0 ≤ b.toNat) (hhigh : b.toNat ≤ 0xF4) :
    start b = .inr ⟨[b], b.toNat - 0xF0, 3, if b.toNat = 0xF0 then 0x90 else 0x80,
      if b.toNat = 0xF4 then 0x8F else 0xBF⟩ := by
  unfold start
  rw [if_neg (by omega), if_neg (by omega), if_neg (by omega), if_neg (by omega),
    if_neg (by omega), if_neg (by omega)]
  by_cases h : b.toNat = 0xF0
  · simp [h]
  by_cases h' : b.toNat = 0xF4
  · simp [h']
  simp [h, h', show b.toNat < 0xF4 by omega]

/-- A first byte is an ASCII character, or announces a character with followers. -/
theorem first_byte (c : Char) :
    (∃ b, String.utf8EncodeChar c = [b] ∧ start b = .inl (.char c)) ∨
    ∃ b p later, String.utf8EncodeChar c = b :: followers c.toNat (later + 1) ∧
      start b = .inr p ∧ p.Holds c later := by
  have hvalid := toNat_valid c
  obtain ⟨b, ⟨hb, hc, henc⟩ | ⟨hb, hlow, hc, henc⟩ | ⟨hb, hlow, hc, henc⟩ | ⟨hb, hlow, henc⟩⟩ :=
    utf8EncodeChar_cases c
  · exact .inl ⟨b, henc, by rw [start, hb, if_pos hc, Char.ofNat_toNat]⟩
  · refine .inr ⟨b, _, 0, henc, start_two (by omega) (by omega), ⟨rfl, ?_, ?_, ?_⟩⟩
    · simp [hb]
    · simp
    · simp
      omega
  -- E0 and ED narrow the second byte just where a code point below 0x800 or a surrogate would be
  · refine .inr ⟨b, _, 1, henc, start_three (by omega) (by omega), ⟨rfl, ?_, ?_, ?_⟩⟩
    · simp [hb]
    · simp only [hb, pow_one]
      split <;> simp
      omega
    · simp only [hb, pow_one]
      split <;> simp <;> omega
  -- likewise F0 and F4, for a code point below 0x10000 or above 0x10FFFF
  · refine .inr ⟨b, _, 2, henc, start_four (by omega) (by omega), ⟨rfl, ?_, ?_, ?_⟩⟩
    · simp [hb]
    · simp only [hb, Nat.reducePow]
      split <;> simp
      omega
    · simp only [hb, Nat.reducePow]
      split <;> simp <;> omega

namespace Pending.Holds

variable {p : Pending} {c : Char} {later : Nat}

theorem admits (h : p.Holds c later) :
    p.low ≤ follower c.toNat later ∧ follower c.toNat later ≤ p.high := by
  rw [UInt8.le_iff_toNat_le, UInt8.le_iff_toNat_le, toNat_follower]
  exact ⟨h.low, h.high⟩

/-- A follower adds its six bits to those already read. -/
theorem value_follower (h : p.Holds c later) :
    p.value * 64 + (follower c.toNat later).toNat % 64 = c.toNat / 64 ^ later := by
  rw [h.value, toNat_follower, Nat.pow_succ, ← Nat.div_div_eq_div_mul]
  omega

theorem step_last (h : p.Holds c 0) :
    step (some p) (follower c.toNat 0) = ([.char c], none) := by
  have hextend : p.extend (follower c.toNat 0) = .inl (.char c) := by
    simp only [Pending.extend, h.missing, h.value_follower]
    simp
  simp only [step, if_pos h.admits, hextend]

theorem step_next (h : p.Holds c (later + 1)) :
    ∃ q : Pending, q.Holds c later ∧
      step (some p) (follower c.toNat (later + 1)) = ([], some q) := by
  let q : Pending := ⟨p.bytes ++ [follower c.toNat (later + 1)], c.toNat / 64 ^ (later + 1),
    later + 1, 0x80, 0xBF⟩
  have hextend : p.extend (follower c.toNat (later + 1)) = .inr q := by
    simp only [Pending.extend, h.missing, h.value_follower]
    simp [q]
  refine ⟨q, ⟨rfl, rfl, ?_, ?_⟩, by simp only [step, if_pos h.admits, hextend]⟩
  · simp [q]
  · simp [q]
    omega

/-- The followers complete the character. -/
theorem scan_followers (h : p.Holds c later) (rest : List UInt8) :
    scan (some p) (followers c.toNat (later + 1) ++ rest) = .char c :: scan none rest := by
  induction later generalizing p with
  | zero =>
    simp only [followers, List.cons_append, List.nil_append, scan, h.step_last]
  | succ later ih =>
    obtain ⟨q, hq, hstep⟩ := h.step_next
    rw [followers, List.cons_append]
    simp only [scan, hstep, List.nil_append]
    exact ih hq

/-- Too few followers leave one truncated part. -/
theorem scan_take (h : p.Holds c later) {count : Nat} (hcount : count ≤ later) :
    ∃ bytes, scan (some p) ((followers c.toNat (later + 1)).take count) =
      [.illFormed bytes .truncated] := by
  induction later generalizing p count with
  | zero =>
    obtain rfl : count = 0 := by omega
    exact ⟨p.bytes, rfl⟩
  | succ later ih =>
    cases count with
    | zero => exact ⟨p.bytes, rfl⟩
    | succ count =>
      obtain ⟨q, hq, hstep⟩ := h.step_next
      rw [followers, List.take_succ_cons]
      simp only [scan, hstep, List.nil_append]
      exact ih hq (by omega)

end Pending.Holds

/-- A character's bytes are read as that character, whatever follows them. -/
theorem scan_utf8EncodeChar_append (c : Char) (rest : List UInt8) :
    scan none (String.utf8EncodeChar c ++ rest) = .char c :: scan none rest := by
  obtain ⟨b, henc, hstart⟩ | ⟨b, p, later, henc, hstart, hp⟩ := first_byte c
  · rw [henc]
    simp only [List.cons_append, List.nil_append, scan, step, first, hstart]
  · rw [henc, List.cons_append]
    simp only [scan, step, first, hstart, List.nil_append]
    exact hp.scan_followers rest

/-- A character cut short leaves one truncated part. -/
theorem scan_take_utf8EncodeChar {c : Char} {count : Nat} (hpos : 0 < count)
    (hcount : count < c.utf8Size) :
    ∃ bytes, scan none ((String.utf8EncodeChar c).take count) = [.illFormed bytes .truncated] := by
  obtain ⟨count, rfl⟩ := Nat.exists_eq_succ_of_ne_zero (Nat.ne_of_gt hpos)
  rw [← String.length_utf8EncodeChar] at hcount
  obtain ⟨b, henc, -⟩ | ⟨b, p, later, henc, hstart, hp⟩ := first_byte c
  · simp [henc] at hcount
  · rw [henc, List.length_cons, length_followers] at hcount
    rw [henc, List.take_succ_cons]
    simp only [scan, step, first, hstart, List.nil_append]
    exact hp.scan_take (by omega)

theorem isFollower_of_mem_drop {c : Char} {count : Nat} (hpos : 0 < count) {b : UInt8}
    (h : b ∈ (String.utf8EncodeChar c).drop count) : IsFollower b := by
  obtain ⟨count, rfl⟩ := Nat.exists_eq_succ_of_ne_zero (Nat.ne_of_gt hpos)
  obtain ⟨a, henc, -⟩ | ⟨a, p, later, henc, -⟩ := first_byte c
  · simp [henc] at h
  · rw [henc, List.drop_succ_cons] at h
    exact isFollower_of_mem (List.mem_of_mem_drop h)

end RubyOutline.Utf8
