import AssessmentItems.Text
import Mathlib.Data.Nat.Basic
import Mathlib.Tactic.SplitIfs

/-!
The order of texts is the order of their encodings as bytes. Where two characters differ, the
encoding of the smaller one has the smaller byte at the first place where the encodings differ,
whatever their lengths are and whatever follows.
-/
namespace AssessmentItems.ByteOrder

theorem byte_lt_iff {a b : ℕ} (ha : a < 256) (hb : b < 256) :
    UInt8.ofNat a < UInt8.ofNat b ↔ a < b := by
  rw [UInt8.lt_iff_toNat_lt, UInt8.toNat_ofNat_of_lt' ha, UInt8.toNat_ofNat_of_lt' hb]

theorem byte_eq_iff {a b : ℕ} (ha : a < 256) (hb : b < 256) :
    UInt8.ofNat a = UInt8.ofNat b ↔ a = b := by
  rw [← UInt8.toNat_inj, UInt8.toNat_ofNat_of_lt' ha, UInt8.toNat_ofNat_of_lt' hb]

theorem toNat_lt (c : Char) : c.val.toNat < 1114112 := by
  rcases c.valid with h | h
  · exact lt_trans h (by decide)
  · exact h.2

/-- Each pair of lengths is a case: a shorter encoding begins with a smaller byte, and one of the
same length has the digits of the code point in base 64, the highest first. -/
theorem encoded_lt {c d : Char} (h : c < d) (s t : List UInt8) :
    String.utf8EncodeChar c ++ s < String.utf8EncodeChar d ++ t := by
  have hlt : c.val.toNat < d.val.toNat := h
  have hbound := toNat_lt d
  have htwice (n : ℕ) : n / 4096 = n / 64 / 64 := (Nat.div_div_eq_div_mul n 64 64).symm
  have hthrice (n : ℕ) : n / 262144 = n / 64 / 64 / 64 := by
    rw [Nat.div_div_eq_div_mul, Nat.div_div_eq_div_mul]
  unfold String.utf8EncodeChar
  generalize c.val.toNat = m at *
  generalize d.val.toNat = n at *
  dsimp only
  split_ifs
  all_goals
    simp (disch := omega) only [List.cons_append, List.nil_append, List.cons_lt_cons_iff,
      byte_lt_iff, byte_eq_iff, htwice, hthrice]
    omega

theorem bytes_lt {s t : Text} (h : s < t) : s.bytes < t.bytes := by
  change List.Lex (· < ·) s t at h
  induction h with
  | @nil c t =>
    rw [Text.bytes, Text.bytes, List.flatMap_cons]
    cases hencoded : String.utf8EncodeChar c with
    | nil => exact absurd hencoded String.utf8EncodeChar_ne_nil
    | cons b bs => exact List.nil_lt_cons b _
  | rel hlt => exact encoded_lt hlt _ _
  | cons _ ih => exact List.append_left_lt ih

/-- Texts ascend exactly if their encodings do. -/
theorem bytes_lt_iff {s t : Text} : s.bytes < t.bytes ↔ s < t := by
  refine ⟨fun h => ?_, bytes_lt⟩
  by_contra hnot
  rcases List.le_iff_lt_or_eq.1 (List.not_lt.1 hnot) with hlt | rfl
  · exact List.lt_asymm h (bytes_lt hlt)
  · exact List.lt_irrefl _ h

end AssessmentItems.ByteOrder
