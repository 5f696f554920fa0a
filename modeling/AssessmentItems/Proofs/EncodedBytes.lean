import AssessmentItems.Base64
import Mathlib.Data.List.Basic

/-!
Bytes read back from base-64 text. A letter stands for six bits: capital letters come first, then
small ones, digits and two signs. Four letters make three bytes. At the end of the text padding
stands for letters that would add none, and the bits that are left over there have to be zero.
What is read from an encoding are the bytes that were encoded, for every number of them.
-/
namespace AssessmentItems.EncodedBytes

open Base64

def value? (c : Char) : Option ℕ :=
  if 'A' ≤ c ∧ c ≤ 'Z' then some (c.toNat - 'A'.toNat)
  else if 'a' ≤ c ∧ c ≤ 'z' then some (26 + (c.toNat - 'a'.toNat))
  else if '0' ≤ c ∧ c ≤ '9' then some (52 + (c.toNat - '0'.toNat))
  else if c = '+' then some 62
  else if c = '/' then some 63
  else none

def firstByte (a b : ℕ) : UInt8 := UInt8.ofNat (a * 4 + b / 16)

def secondByte (b c : ℕ) : UInt8 := UInt8.ofNat (b % 16 * 16 + c / 4)

def thirdByte (c d : ℕ) : UInt8 := UInt8.ofNat (c % 4 * 64 + d)

/-- The bytes of three characters before the last padding. -/
def padded? (a b c : Char) : Option (List UInt8) := do
  let a ← value? a
  let b ← value? b
  if c = '=' then
    if b % 16 = 0 then some [firstByte a b] else none
  else
    let c ← value? c
    if c % 4 = 0 then some [firstByte a b, secondByte b c] else none

def decode? : Text → Option (List UInt8)
  | [] => some []
  | a :: b :: c :: d :: rest =>
    if d = '=' ∧ rest = [] then padded? a b c
    else do
      let a ← value? a
      let b ← value? b
      let c ← value? c
      let d ← value? d
      let bytes ← decode? rest
      some (firstByte a b :: secondByte b c :: thirdByte c d :: bytes)
  | _ => none

theorem value?_letter {n : ℕ} (h : n < 64) : value? (letter n) = some n := by
  have hall : ∀ n ∈ List.range 64, value? (letter n) = some n := by decide
  exact hall n (List.mem_range.2 h)

theorem letter_ne_padding {n : ℕ} (h : n < 64) : letter n ≠ '=' := by
  intro heq
  have hnone : value? '=' = none := by decide
  rw [← heq, value?_letter h] at hnone
  exact Option.some_ne_none n hnone

theorem decode?_group {a b c d : ℕ} (ha : a < 64) (hb : b < 64) (hc : c < 64) (hd : d < 64)
    (rest : Text) :
    decode? (letter a :: letter b :: letter c :: letter d :: rest) =
      (decode? rest).map fun bytes =>
        firstByte a b :: secondByte b c :: thirdByte c d :: bytes := by
  have hfull : ¬ (letter d = '=' ∧ rest = []) := fun h => letter_ne_padding hd h.1
  rw [decode?, if_neg hfull, value?_letter ha, value?_letter hb, value?_letter hc, value?_letter hd]
  cases decode? rest <;> rfl

theorem decode?_pair {a b c : ℕ} (ha : a < 64) (hb : b < 64) (hc : c < 64) (h : c % 4 = 0) :
    decode? [letter a, letter b, letter c, '='] = some [firstByte a b, secondByte b c] := by
  rw [decode?, if_pos ⟨rfl, rfl⟩, padded?, value?_letter ha, value?_letter hb, value?_letter hc]
  simp [letter_ne_padding hc, h]

theorem decode?_single {a b : ℕ} (ha : a < 64) (hb : b < 64) (h : b % 16 = 0) :
    decode? [letter a, letter b, '=', '='] = some [firstByte a b] := by
  rw [decode?, if_pos ⟨rfl, rfl⟩, padded?, value?_letter ha, value?_letter hb]
  simp [h]

theorem ofNat_eq {n : ℕ} {byte : UInt8} (h : n = byte.toNat) : UInt8.ofNat n = byte :=
  h ▸ UInt8.ofNat_toNat

/-- What is read from an encoding are the bytes that were encoded. -/
theorem decode?_encode (bytes : List UInt8) : decode? (encode bytes) = some bytes := by
  induction bytes using encode.induct with
  | case1 a b c rest ih =>
    have ha := a.toNat_lt
    have hb := b.toNat_lt
    have hc := c.toNat_lt
    simp only [encode]
    rw [decode?_group (by omega) (by omega) (by omega) (by omega), ih]
    refine congrArg some (List.cons_eq_cons.2 ⟨ofNat_eq ?_, List.cons_eq_cons.2 ⟨ofNat_eq ?_,
      List.cons_eq_cons.2 ⟨ofNat_eq ?_, rfl⟩⟩⟩)
    · omega
    · omega
    · omega
  | case2 a b =>
    have ha := a.toNat_lt
    have hb := b.toNat_lt
    simp only [encode]
    rw [decode?_pair (by omega) (by omega) (by omega) (by omega)]
    refine congrArg some (List.cons_eq_cons.2 ⟨ofNat_eq ?_, List.cons_eq_cons.2 ⟨ofNat_eq ?_,
      rfl⟩⟩)
    · omega
    · omega
  | case3 a =>
    have ha := a.toNat_lt
    simp only [encode]
    rw [decode?_single (by omega) (by omega) (by omega)]
    refine congrArg some (List.cons_eq_cons.2 ⟨ofNat_eq ?_, rfl⟩)
    omega
  | case4 => rfl

end AssessmentItems.EncodedBytes
