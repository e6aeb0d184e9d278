import Ketone.Library.Bytes
import Ketone.Library.Numerals
import Ketone.Library.Outbox
import Mathlib.Logic.Function.Basic

/-! The serial line: what the driver does to its ports, and the texts that it prints. -/

namespace Ketone.Io.Serial
open Library Library.Numerals

def code (literal : List Char) : Str := literal.map fun c => BitVec.ofNat 8 c.toNat

def COM1 : BitVec 16 := 0x3F8

/-- A write to a port, or the loop that polls the line status until it is ready. -/
inductive Op where
  | outb (port : BitVec 16) (val : BitVec 8)
  | untilReady
deriving DecidableEq

def serialInit : List Op :=
  [.outb (COM1 + 1) 0x00, .outb (COM1 + 3) 0x80, .outb (COM1 + 0) 0x03, .outb (COM1 + 1) 0x00,
    .outb (COM1 + 3) 0x03, .outb (COM1 + 2) 0xC7, .outb (COM1 + 4) 0x0B]

/-- What `serial_ready` makes of the line status. -/
def serialReady (status : BitVec 8) : Bool := status &&& 0x20 != 0

def serialWrite (c : BitVec 8) : List Op := [.untilReady, .outb COM1 c]

def serialPrint : Str → List Op
  | [] => []
  | c :: rest => if c = 0 then [] else serialWrite c ++ serialPrint rest

def serialPrintLN (s : Str) : List Op := serialPrint s ++ serialPrint (code ['\n'])

def HEX : Str := code ['0', '1', '2', '3', '4', '5', '6', '7', '8', '9', 'A', 'B', 'C', 'D', 'E', 'F']

/-- The loop counts the shift down in steps of 4. -/
def serialPrintHex (val : BitVec 32) : List Op :=
  serialPrint (code ['0', 'x']) ++
    [28, 24, 20, 16, 12, 8, 4, 0].flatMap fun i => serialWrite (HEX.getD (val >>> i &&& 0xF).toNat 0)

def serialPrintHex64 (val : BitVec 64) : List Op :=
  serialPrint (code ['0', 'x']) ++
    [60, 56, 52, 48, 44, 40, 36, 32, 28, 24, 20, 16, 12, 8, 4, 0].flatMap fun i =>
      serialWrite (HEX.getD (val >>> i &&& 0xF).toNat 0)

/-- A number on its way into the buffer, with the places stored to. -/
structure Spelling where
  value : BitVec 32
  i : Int
  buf : Int → BitVec 8
  stored : List Int

def Spelling.turn (s : Spelling) : Spelling :=
  let i := s.i - 1
  ⟨s.value / 10, i, Function.update s.buf i (0x30 + (s.value % 10).setWidth 8), s.stored ++ [i]⟩

def spell : Nat → Spelling → Spelling
  | 0, s => s
  | turns + 1, s => if s.value > 0 then spell turns s.turn else s

/-- The buffer has 21 bytes, and a number of 32 bits no more than ten digits. -/
def spelled (value : BitVec 32) (stale : Int → BitVec 8) : Spelling :=
  spell 10 ⟨value, 20, Function.update stale 20 0, [20]⟩

/-- The string at `&buf[i]`, up to the end of the buffer. -/
def Spelling.string (s : Spelling) : Str := (List.range (21 - s.i).toNat).map fun k : Nat => s.buf (s.i + k)

def serialPrintDec (value : BitVec 32) (stale : Int → BitVec 8) : List Op :=
  if value = 0 then serialPrint (code ['0']) else serialPrint (spelled value stale).string

def serialPrintHexLN (val : BitVec 32) : List Op := serialPrintHex val ++ serialPrint (code ['\n'])

def serialPrintDecLN (val : BitVec 32) (stale : Int → BitVec 8) : List Op :=
  serialPrintDec val stale ++ serialPrint (code ['\n'])

def serialPrintHex64LN (val : BitVec 64) : List Op := serialPrintHex64 val ++ serialPrint (code ['\n'])

def text : List Op → Str
  | [] => []
  | .outb port val :: rest => if port = COM1 then val :: text rest else text rest
  | .untilReady :: rest => text rest

/-- Every byte is written when the line has been found ready. -/
def pairs (str : Str) : List Op := str.flatMap serialWrite

theorem text_append (first second : List Op) : text (first ++ second) = text first ++ text second := by
  induction first with
  | nil => rfl
  | cons op rest ih =>
    cases op with
    | outb port val =>
      by_cases data : port = COM1
      · simp [text, ih, data]
      · simp [text, ih, data]
    | untilReady => simp [text, ih]

theorem text_pairs (str : Str) : text (pairs str) = str := by
  induction str with
  | nil => rfl
  | cons c rest ih =>
    unfold pairs at ih ⊢
    rw [List.flatMap_cons, text_append, ih]
    simp [serialWrite, text]

theorem pairs_append (first second : Str) : pairs (first ++ second) = pairs first ++ pairs second :=
  List.flatMap_append

theorem serialPrint_eq (s : Str) : serialPrint s = pairs (s.takeWhile (· ≠ 0)) := by
  induction s with
  | nil => rfl
  | cons c rest ih =>
    unfold serialPrint
    by_cases zero : c = 0
    · simp [zero, pairs]
    · rw [if_neg zero, ih, List.takeWhile_cons_of_pos (by simpa using zero)]
      rfl

def digitOf (c : BitVec 8) : Nat := if c ≤ 0x39 then c.toNat - 0x30 else c.toNat - 0x41 + 10

def reads (base : Nat) (numeral : Str) : Nat := value base (numeral.map digitOf)

def decimal (digit : Nat) : BitVec 8 := 0x30 + BitVec.ofNat 8 digit

def hexNumeral (count n : Nat) : Str := code ['0', 'x'] ++ (lowDigits 16 count n).map (HEX.getD · 0)

def decNumeral (n : Nat) : Str := if n = 0 then code ['0'] else (Nat.digits 10 n).reverse.map decimal

def cString (s : Str) : Str := s.takeWhile (· ≠ 0)

theorem hex_digit {digit : Nat} (below : digit < 16) : digitOf (HEX.getD digit 0) = digit ∧ HEX.getD digit 0 ∈ HEX := by
  have all : ∀ digit < 16, digitOf (HEX.getD digit 0) = digit ∧ HEX.getD digit 0 ∈ HEX := by decide
  exact all digit below

theorem decimal_digit {digit : Nat} (below : digit < 10) :
    digitOf (decimal digit) = digit ∧ decimal digit ∈ HEX.take 10 ∧ (decimal digit = 0x30 → digit = 0) := by
  have all : ∀ digit < 10,
      digitOf (decimal digit) = digit ∧ decimal digit ∈ HEX.take 10 ∧ (decimal digit = 0x30 → digit = 0) := by decide
  exact all digit below

theorem decimal_nonzero {c : BitVec 8} (member : c ∈ HEX.take 10) : c ≠ 0 := by
  have all : ∀ c ∈ HEX.take 10, c ≠ 0 := by decide
  exact all c member

theorem toNat_nibble {w : Nat} (wide : 4 ≤ w) (val : BitVec w) (count : Nat) :
    (val >>> (4 * count) &&& BitVec.ofNat w 0xF).toNat = val.toNat / 16 ^ count % 16 := by
  have large : 2 ^ 4 ≤ 2 ^ w := Nat.pow_le_pow_right (by decide) wide
  rw [BitVec.toNat_and, BitVec.toNat_ushiftRight, BitVec.toNat_ofNat, Nat.mod_eq_of_lt (by omega),
    Nat.shiftRight_eq_div_pow, Nat.pow_mul]
  exact Nat.and_two_pow_sub_one_eq_mod _ 4

theorem text_flatMap {α : Type} (items : List α) (c : α → BitVec 8) :
    text (items.flatMap fun item => serialWrite (c item)) = items.map c := by
  induction items with
  | nil => rfl
  | cons item rest ih =>
    rw [List.flatMap_cons, text_append, ih]
    simp [serialWrite, text]

theorem text_prefix : text (serialPrint (code ['0', 'x'])) = code ['0', 'x'] := by decide

theorem hex_read_back {count n : Nat} (enough : n < 16 ^ count) {digits : Str}
    (same : digits = (lowDigits 16 count n).map (HEX.getD · 0)) :
    digits.length = count ∧ (∀ c ∈ digits, c ∈ HEX) ∧ reads 16 digits = n := by
  subst same
  have below := lowDigits_below (show 0 < 16 by decide) count n
  refine ⟨by simp [lowDigits_length], ?_, ?_⟩
  · intro c member
    obtain ⟨digit, inside, rfl⟩ := List.mem_map.mp member
    exact (hex_digit (below digit inside)).2
  · have digits : ((lowDigits 16 count n).map (HEX.getD · 0)).map digitOf = lowDigits 16 count n := by
      rw [List.map_map]
      exact (List.map_congr_left fun digit inside => (hex_digit (below digit inside)).1).trans (List.map_id _)
    unfold reads
    rw [digits, value_lowDigits enough]

theorem text_hex (val : BitVec 32) :
    text (serialPrintHex val) = code ['0', 'x'] ++ (lowDigits 16 8 val.toNat).map (HEX.getD · 0) := by
  unfold serialPrintHex
  rw [text_append, text_prefix, text_flatMap]
  have nibble := toNat_nibble (show 4 ≤ 32 by decide) val
  simp only [lowDigits, List.map_cons, List.map_nil, ← nibble]
  rfl

theorem text_hex64 (val : BitVec 64) :
    text (serialPrintHex64 val) = code ['0', 'x'] ++ (lowDigits 16 16 val.toNat).map (HEX.getD · 0) := by
  unfold serialPrintHex64
  rw [text_append, text_prefix, text_flatMap]
  have nibble := toNat_nibble (show 4 ≤ 64 by decide) val
  simp only [lowDigits, List.map_cons, List.map_nil, ← nibble]
  rfl

theorem string_turn (s : Spelling) (low : 1 ≤ s.i) (high : s.i ≤ 20) :
    s.turn.string = (0x30 + (s.value % 10).setWidth 8) :: s.string := by
  have count : (21 - s.turn.i).toNat = (21 - s.i).toNat + 1 := by
    change (21 - (s.i - 1)).toNat = _
    omega
  have first : s.turn.buf s.turn.i = 0x30 + (s.value % 10).setWidth 8 := Function.update_self ..
  have others : ∀ k : Nat, s.turn.buf (s.turn.i + ((k + 1 : Nat) : Int)) = s.buf (s.i + k) := by
    intro k
    have place : s.turn.i + ((k + 1 : Nat) : Int) = s.i + k := by
      change s.i - 1 + ((k + 1 : Nat) : Int) = _
      omega
    rw [place]
    exact Function.update_of_ne (by omega) ..
  unfold Spelling.string
  rw [count, List.range_succ_eq_map, List.map_cons, List.map_map]
  congr 1
  · simpa using first
  · exact List.map_congr_left fun k _ => others k

theorem spell_string (turns : Nat) (s : Spelling) (fits : s.value.toNat < 10 ^ turns) (low : turns ≤ s.i)
    (high : s.i ≤ 20) :
    (spell turns s).value = 0 ∧
    (spell turns s).string = ((Nat.digits 10 s.value.toNat).reverse.map decimal) ++ s.string ∧
      ∀ place ∈ (spell turns s).stored, place ∈ s.stored ∨ (s.i - turns ≤ place ∧ place < s.i) := by
  induction turns generalizing s with
  | zero =>
    have zero : s.value = 0 := BitVec.eq_of_toNat_eq (by simpa using fits)
    exact ⟨zero, by simp [spell, zero], fun place member => Or.inl member⟩
  | succ turns ih =>
    unfold spell
    by_cases positive : s.value > 0
    · rw [if_pos positive]
      have nonzero : 0 < s.value.toNat := positive
      have quotient : (s.value / 10).toNat = s.value.toNat / 10 := BitVec.toNat_udiv
      have digit : (0x30 : BitVec 8) + (s.value % 10).setWidth 8 = decimal (s.value.toNat % 10) := by
        apply BitVec.eq_of_toNat_eq
        rw [decimal, BitVec.toNat_add, BitVec.toNat_add, BitVec.toNat_setWidth, BitVec.toNat_umod, BitVec.toNat_ofNat]
        rfl
      have fewer : s.turn.value.toNat < 10 ^ turns := by
        change (s.value / 10).toNat < _
        rw [quotient]
        exact Nat.div_lt_of_lt_mul (by rw [Nat.pow_succ] at fits; omega)
      have place : s.turn.i = s.i - 1 := rfl
      obtain ⟨done, string, stored⟩ := ih s.turn fewer (by omega) (by omega)
      refine ⟨done, ?_, ?_⟩
      · have value : s.turn.value.toNat = s.value.toNat / 10 := quotient
        rw [string, string_turn s (by omega) high, value, digit, Nat.digits_def' (by decide) nonzero]
        simp
      · intro p member
        rcases stored p member with old | inside
        · rcases List.mem_append.mp old with older | new
          · exact Or.inl older
          · rw [List.mem_singleton] at new
            exact Or.inr (by omega)
        · exact Or.inr (by omega)
    · rw [if_neg positive]
      have zero : s.value = 0 := BitVec.eq_of_toNat_eq (by simpa [BitVec.lt_def] using positive)
      exact ⟨zero, by simp [zero], fun place member => Or.inl member⟩

theorem spelled_string (value : BitVec 32) (stale : Int → BitVec 8) :
    (spelled value stale).string = (Nat.digits 10 value.toNat).reverse.map decimal ++ [0] ∧
      ∀ place ∈ (spelled value stale).stored, 0 ≤ place ∧ place < 21 := by
  have small := value.isLt
  have room : ((10 : Nat) : Int) ≤ 20 := by decide
  obtain ⟨_, string, stored⟩ := spell_string 10 ⟨value, 20, Function.update stale 20 0, [20]⟩
    (show value.toNat < 10 ^ 10 by omega) room (Int.le_refl 20)
  refine ⟨string.trans ?_, ?_⟩
  · simp [Spelling.string, List.range_succ]
  · intro place member
    rcases stored place member with first | inside
    · rw [List.mem_singleton.mp first]
      decide
    · dsimp only at inside
      omega

theorem text_dec (value : BitVec 32) (stale : Int → BitVec 8) : text (serialPrintDec value stale) =
    if value = 0 then code ['0'] else (Nat.digits 10 value.toNat).reverse.map decimal := by
  unfold serialPrintDec
  split
  · decide
  · have digits : ∀ c ∈ (Nat.digits 10 value.toNat).reverse.map decimal, c ≠ 0 := by
      intro c member
      obtain ⟨digit, inside, rfl⟩ := List.mem_map.mp member
      exact decimal_nonzero (decimal_digit (Nat.digits_lt_base (by decide) (List.mem_reverse.mp inside))).2.1
    rw [serialPrint_eq, text_pairs, (spelled_string value stale).1, List.takeWhile_append_of_pos (by simpa using digits)]
    simp

/-- For every number, whatever the buffer held before: the numerals that are printed are made of digits alone and
read back as the number; those in base 16 have one digit for every four bits, those in base 10 no zero in front, and
nothing is stored outside of their buffer. -/
theorem numbers_read_back (val : BitVec 32) (val64 : BitVec 64) (stale : Int → BitVec 8) :
    (∃ digits, text (serialPrintHex val) = code ['0', 'x'] ++ digits ∧
      digits.length = 8 ∧ (∀ c ∈ digits, c ∈ HEX) ∧ reads 16 digits = val.toNat) ∧
    (∃ digits, text (serialPrintHex64 val64) = code ['0', 'x'] ++ digits ∧
      digits.length = 16 ∧ (∀ c ∈ digits, c ∈ HEX) ∧ reads 16 digits = val64.toNat) ∧
    (∃ first rest, text (serialPrintDec val stale) = first :: rest ∧ (first = 0x30 → val = 0 ∧ rest = []) ∧
      (∀ c ∈ first :: rest, c ∈ HEX.take 10) ∧ reads 10 (first :: rest) = val.toNat) ∧
    ∀ place ∈ (spelled val stale).stored, 0 ≤ place ∧ place < 21 := by
  refine ⟨⟨_, text_hex val, hex_read_back val.isLt rfl⟩, ⟨_, text_hex64 val64, hex_read_back val64.isLt rfl⟩, ?_,
    (spelled_string val stale).2⟩
  rw [text_dec]
  split
  next zero =>
    rw [zero]
    exact ⟨0x30, [], rfl, fun _ => ⟨rfl, rfl⟩, by decide, by decide⟩
  next nonzero =>
    have digits := fun digit member => decimal_digit (Nat.digits_lt_base (m := val.toNat) (d := digit) (by decide) member)
    have value_ : reads 10 ((Nat.digits 10 val.toNat).reverse.map decimal) = val.toNat := by
      have back : ((Nat.digits 10 val.toNat).reverse.map decimal).map digitOf = (Nat.digits 10 val.toNat).reverse := by
        rw [List.map_map]
        apply (List.map_congr_left fun digit inside => ?_).trans (List.map_id _)
        exact (digits digit (List.mem_reverse.mp inside)).1
      unfold reads
      rw [back, value_reverse_digits]
    have all : ∀ c ∈ (Nat.digits 10 val.toNat).reverse.map decimal, c ∈ HEX.take 10 := by
      intro c member
      obtain ⟨digit, inside, rfl⟩ := List.mem_map.mp member
      exact (digits digit (List.mem_reverse.mp inside)).2.1
    have some_digit : Nat.digits 10 val.toNat ≠ [] := by
      rw [Nat.digits_ne_nil_iff_ne_zero]
      exact fun zero => nonzero (BitVec.eq_of_toNat_eq zero)
    have last := Nat.getLast_digit_ne_zero 10 (fun zero => nonzero (BitVec.eq_of_toNat_eq zero) : val.toNat ≠ 0)
    obtain ⟨front, top, split⟩ := List.eq_nil_or_concat' (Nat.digits 10 val.toNat) |>.resolve_left some_digit
    simp only [split, List.getLast_append_singleton] at last
    rw [split, List.reverse_append] at value_ all ⊢
    refine ⟨decimal top, front.reverse.map decimal, rfl, ?_, all, value_⟩
    intro zero
    exact absurd ((digits top (by simp [split])).2.2 zero) last

end Ketone.Io.Serial
