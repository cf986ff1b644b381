import Mathlib.Data.Nat.Digits.Lemmas
import Jack.Proofs.Token.Lexemes

/-!
Runs of digits and their values. The value of a run is the number that it denotes in base ten,
however many zeros are in front. Sixteen bits are enough to read a run digit by digit exactly when
they are enough for the value, so an integer constant that the lexer lets pass can be read again.
-/

namespace Jack

/-- The number that one digit denotes. -/
def digitValue (d : Char) : Nat := d.toNat - '0'.toNat

theorem decimalValue_concat (digits : List Char) (d : Char) :
    decimalValue (digits ++ [d]) = 10 * decimalValue digits + digitValue d := by
  simp [decimalValue, digitValue]

/-- The last digit counts ones, the one before it tens, and so on. -/
theorem decimalValue_eq_ofDigits (digits : List Char) :
    decimalValue digits = Nat.ofDigits 10 (digits.map digitValue).reverse := by
  induction digits using List.reverseRecOn with
  | nil => rfl
  | append_singleton digits d ih =>
    rw [decimalValue_concat, ih, List.map_append, List.reverse_append, List.map_singleton,
      List.reverse_singleton, List.singleton_append, Nat.ofDigits_cons]
    simp [Nat.add_comm]

theorem decimalValue_zeros (zeros : Nat) (digits : List Char) :
    decimalValue (List.replicate zeros '0' ++ digits) = decimalValue digits := by
  induction zeros with
  | zero => rfl
  | succ zeros ih => simpa [decimalValue, List.replicate_succ] using ih

/-- Zeros in front of an integer constant leave it one. -/
theorem spells_integer_zeros (zeros : Nat) {digits : List Char} (h : Kind.integer.Spells digits) :
    Kind.integer.Spells (List.replicate zeros '0' ++ digits) := by
  obtain ⟨hne, hdigits, hle⟩ := h
  refine ⟨by simp [hne], fun d hd => ?_, by rwa [decimalValue_zeros]⟩
  rcases List.mem_append.1 hd with hd | hd
  · rw [List.eq_of_mem_replicate hd]
    decide
  · exact hdigits d hd

/-! ### Reading with sixteen bits -/

/-- The number, if sixteen bits are enough for it. -/
def word? (n : Nat) : Option Nat := if n < 2 ^ 16 then some n else none

/-- One more digit behind a number: ten times the number, and then the digit more. -/
def pushDigit? (n : Nat) (d : Char) : Option Nat := do
  let tens ← word? (10 * n)
  word? (tens + digitValue d)

/-- The number that a run of digits denotes, if none of the steps to it is too large. -/
def wordOfDigits? (digits : List Char) : Option Nat := digits.foldlM pushDigit? 0

theorem word?_of_lt {n : Nat} (h : n < 2 ^ 16) : word? n = some n := if_pos h

theorem word?_of_le {n : Nat} (h : 2 ^ 16 ≤ n) : word? n = none := if_neg (Nat.not_lt.2 h)

theorem pushDigit?_eq (n : Nat) (d : Char) : pushDigit? n d = word? (10 * n + digitValue d) := by
  rcases Nat.lt_or_ge (10 * n) (2 ^ 16) with h | h
  · rw [pushDigit?, word?_of_lt h]
    rfl
  · rw [pushDigit?, word?_of_le h, word?_of_le (Nat.le_add_right_of_le h)]
    rfl

theorem le_foldl_digits (digits : List Char) (n : Nat) :
    n ≤ digits.foldl (fun n d => 10 * n + digitValue d) n := by
  induction digits generalizing n with
  | nil => exact Nat.le_refl n
  | cons d digits ih =>
    have hrest := ih (10 * n + digitValue d)
    rw [List.foldl_cons]
    omega

/-- What is too large in a step stays so, since no digit makes a number smaller. -/
theorem foldlM_pushDigit? (digits : List Char) {n : Nat} (hn : n < 2 ^ 16) :
    digits.foldlM pushDigit? n = word? (digits.foldl (fun n d => 10 * n + digitValue d) n) := by
  induction digits generalizing n with
  | nil => exact (word?_of_lt hn).symm
  | cons d digits ih =>
    rw [List.foldlM_cons, pushDigit?_eq, List.foldl_cons]
    rcases Nat.lt_or_ge (10 * n + digitValue d) (2 ^ 16) with h | h
    · rw [word?_of_lt h]
      exact ih h
    · rw [word?_of_le h, word?_of_le (h.trans (le_foldl_digits digits _))]
      rfl

theorem wordOfDigits?_eq (digits : List Char) :
    wordOfDigits? digits = word? (decimalValue digits) :=
  foldlM_pushDigit? digits (by decide)

end Jack
