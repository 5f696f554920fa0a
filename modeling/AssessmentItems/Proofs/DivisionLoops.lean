import AssessmentItems.Ratio
import Mathlib.Tactic.Ring

/-!
The loops of the arithmetic on fractions, round by round. A round gives the next state or ends the
loop. Euclid's loop ends because the second number falls, and the loop that takes a factor out of
a number because the number falls. The numbers never grow on the way, and a factor is counted
fewer times than the number has bits, so that no state is too large.
-/
namespace AssessmentItems.DivisionLoops

variable {σ : Type}

/-- From a state the loop ends in another one, and the states on the way have the property. -/
inductive Ends (round? : σ → Option σ) (Fits : σ → Prop) : σ → σ → Prop
  | here {s : σ} : Fits s → round? s = none → Ends round? Fits s s
  | after {s s' t : σ} : Fits s → round? s = some s' → Ends round? Fits s' t →
      Ends round? Fits s t

def euclidRound? (s : ℕ × ℕ) : Option (ℕ × ℕ) :=
  if s.2 = 0 then none else some (s.2, s.1 % s.2)

def PairFits (s : ℕ × ℕ) : Prop := s.1 < 2 ^ 128 ∧ s.2 < 2 ^ 128

/-- Euclid's loop ends with the greatest common divisor. -/
theorem ends_gcd {a b : ℕ} (ha : a < 2 ^ 128) (hb : b < 2 ^ 128) :
    Ends euclidRound? PairFits (a, b) (Nat.gcd a b, 0) := by
  induction b using Nat.strong_induction_on generalizing a with
  | _ b ih =>
    by_cases hzero : b = 0
    · subst hzero
      rw [Nat.gcd_zero_right]
      exact .here ⟨ha, hb⟩ rfl
    · have hlt : a % b < b := Nat.mod_lt a (Nat.pos_of_ne_zero hzero)
      rw [Nat.gcd_comm, Nat.gcd_rec, Nat.gcd_comm]
      exact .after ⟨ha, hb⟩ (if_neg hzero) (ih (a % b) hlt hb (hlt.trans hb))

def divisionRound? (p : ℕ) (s : ℕ × ℕ) : Option (ℕ × ℕ) :=
  if s.1 % p = 0 then some (s.1 / p, s.2 + 1) else none

def CountFits (s : ℕ × ℕ) : Prop := s.1 < 2 ^ 128 ∧ s.2 < 2 ^ 32

/-- What is left of a number and what was counted never make more than the number itself. -/
theorem countFits {n count : ℕ} (hn : n ≠ 0) (h : n * 2 ^ count < 2 ^ 128) :
    CountFits (n, count) := by
  have hcount : 2 ^ count < 2 ^ 128 :=
    (Nat.le_mul_of_pos_left (2 ^ count) (Nat.pos_of_ne_zero hn)).trans_lt h
  have hlt : count < 128 := (Nat.pow_lt_pow_iff_right (by decide)).1 hcount
  exact ⟨(Nat.le_mul_of_pos_right n (Nat.two_pow_pos count)).trans_lt h, by omega⟩

theorem ends_counting {p n : ℕ} (hp : 1 < p) (hn : n ≠ 0) (count : ℕ)
    (h : n * 2 ^ count < 2 ^ 128) :
    Ends (divisionRound? p) CountFits (n, count)
      ((Ratio.withoutFactor p n).1, count + (Ratio.withoutFactor p n).2) := by
  fun_induction Ratio.withoutFactor p n generalizing count with
  | case1 n hfactor rest more heq ih =>
    have hle : n / p * p ≤ n := Nat.div_mul_le_self n p
    have hne : n / p ≠ 0 := by
      rintro hzero
      have hmul := Nat.div_mul_cancel (Nat.dvd_of_mod_eq_zero hfactor.2.2)
      rw [hzero, Nat.zero_mul] at hmul
      exact hn hmul.symm
    have hhalf : n / p * 2 ^ (count + 1) < 2 ^ 128 := by
      calc n / p * 2 ^ (count + 1) = n / p * 2 * 2 ^ count := by ring
        _ ≤ n / p * p * 2 ^ count :=
          Nat.mul_le_mul_right _ (Nat.mul_le_mul_left _ hp)
        _ ≤ n * 2 ^ count := Nat.mul_le_mul_right _ hle
        _ < 2 ^ 128 := h
    have hrest := ih hne (count + 1) hhalf
    rw [heq] at hrest
    have hcount : count + (more + 1) = count + 1 + more := by omega
    rw [hcount]
    exact .after (countFits hn h) (if_pos hfactor.2.2) hrest
  | case2 n hfactor =>
    have hrest : n % p ≠ 0 := fun hzero => hfactor ⟨hp, Nat.pos_of_ne_zero hn, hzero⟩
    exact .here (countFits hn h) (if_neg hrest)

/-- Taking a factor out of a number ends with the rest and the number of times. -/
theorem ends_withoutFactor {p n : ℕ} (hp : 1 < p) (hn : n ≠ 0) (h : n < 2 ^ 128) :
    Ends (divisionRound? p) CountFits (n, 0) (Ratio.withoutFactor p n) := by
  have hends := ends_counting hp hn 0 (by simpa using h)
  rwa [Nat.zero_add] at hends

end AssessmentItems.DivisionLoops
