import AssessmentItems.Text

/-!
Base-64 text of a list of bytes: four letters for every three bytes, and padding
with `=` for one or two bytes left over.
-/
namespace AssessmentItems.Base64

/-- The letter of a value below 64. -/
def letter (n : Nat) : Char :=
  if n < 26 then Char.ofNat (65 + n)
  else if n < 52 then Char.ofNat (71 + n)
  else if n < 62 then Char.ofNat (n - 4)
  else if n = 62 then '+'
  else '/'

def encode : List UInt8 → Text
  | a :: b :: c :: rest =>
    let n := a.toNat * 65536 + b.toNat * 256 + c.toNat
    letter (n / 262144) :: letter (n / 4096 % 64) :: letter (n / 64 % 64) :: letter (n % 64) ::
      encode rest
  | [a, b] =>
    let n := a.toNat * 1024 + b.toNat * 4
    [letter (n / 4096), letter (n / 64 % 64), letter (n % 64), '=']
  | [a] =>
    let n := a.toNat * 16
    [letter (n / 64), letter (n % 64), '=', '=']
  | [] => []

/-- What all letters and the padding have, all characters of an encoding have. -/
theorem forall_mem_encode {p : Char → Prop} (hletter : ∀ n < 64, p (letter n)) (hpadding : p '=')
    (bytes : List UInt8) : ∀ c ∈ encode bytes, p c := by
  have hall : ∀ n, p (letter n) := by
    intro n
    by_cases hn : n < 64
    · exact hletter n hn
    · have hlast : letter n = letter 63 := by
        unfold letter
        rw [if_neg (by omega), if_neg (by omega), if_neg (by omega), if_neg (by omega)]
        rfl
      rw [hlast]
      exact hletter 63 (by omega)
  induction bytes using encode.induct with
  | case1 a b c rest ih => simpa [encode, hall] using ih
  | case2 a b => simp [encode, hall, hpadding]
  | case3 a => simp [encode, hall, hpadding]
  | case4 => simp [encode]

end AssessmentItems.Base64
