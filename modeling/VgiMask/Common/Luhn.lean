import Mathlib.Algebra.GroupWithZero.Nat
import Mathlib.Data.List.Basic

/-!
# The Luhn checksum

Digits are weighted from the right: every second one is doubled, with nine subtracted from
a two-digit result. A number is valid when the weighted sum is divisible by ten. Appending
a digit shifts the weights of all digits before it, so the check digit of a payload is
computed with the opposite weights.
-/

namespace Common

/-- The weight of a doubled digit. -/
def luhnDouble (d : ℕ) : ℕ := if 2 * d > 9 then 2 * d - 9 else 2 * d

/-- The weighted sum of digits listed from the right, the first doubled on demand. -/
def luhnSum : Bool → List ℕ → ℕ
  | _, [] => 0
  | double, d :: ds => (if double then luhnDouble d else d) + luhnSum (!double) ds

/-- The weighted sum, with the last digit not doubled, is divisible by ten. -/
def LuhnValid (digits : List ℕ) : Prop := luhnSum false digits.reverse % 10 = 0

instance (digits : List ℕ) : Decidable (LuhnValid digits) :=
  inferInstanceAs (Decidable (_ = _))

/-- The weighted sum by index: of `n` digits, that at `i` is doubled when `n - 1 - i` is odd. -/
def luhnIndexSum (digits : List ℕ) : ℕ :=
  (digits.zipIdx.map fun entry =>
    if (digits.length - 1 - entry.2) % 2 = 1 then luhnDouble entry.1 else entry.1).sum

/-- The digit that completes a payload. -/
def luhnCheck (payload : List ℕ) : ℕ := (10 - luhnSum true payload.reverse % 10) % 10

/-- The check digit is a digit. -/
theorem luhnCheck_lt (payload : List ℕ) : luhnCheck payload < 10 :=
  Nat.mod_lt _ (by decide)

/-- One weighted digit is at most nine. -/
theorem luhnDouble_le {d : ℕ} (hd : d ≤ 9) : luhnDouble d ≤ 9 := by
  unfold luhnDouble
  split <;> omega

/-- Validity with one more digit is a condition on the payload's opposite weights. -/
theorem luhnValid_append_iff (payload : List ℕ) (c : ℕ) :
    LuhnValid (payload ++ [c]) ↔ (c + luhnSum true payload.reverse) % 10 = 0 := by
  simp [LuhnValid, luhnSum]

/-- The check digit is the only digit that makes the completed number valid. -/
theorem luhnValid_append_iff_eq_check (payload : List ℕ) {c : ℕ} (hc : c < 10) :
    LuhnValid (payload ++ [c]) ↔ c = luhnCheck payload := by
  rw [luhnValid_append_iff, luhnCheck]
  omega

/-- Behind a run of digits the doubling has changed as often as the run is long. -/
theorem luhnSum_append (double : Bool) (xs ys : List ℕ) :
    luhnSum double (xs ++ ys) =
      luhnSum double xs + luhnSum (double ^^ decide (xs.length % 2 = 1)) ys := by
  induction xs generalizing double with
  | nil => simp [luhnSum]
  | cons x xs ih =>
    have hparity : (!double ^^ decide (xs.length % 2 = 1)) =
        (double ^^ decide ((xs.length + 1) % 2 = 1)) := by
      rcases Nat.mod_two_eq_zero_or_one xs.length with h | h
      · have h' : (xs.length + 1) % 2 = 1 := by omega
        simp [h, h']
      · have h' : (xs.length + 1) % 2 = 0 := by omega
        simp [h, h']
    rw [List.cons_append, luhnSum, luhnSum, ih, hparity, List.length_cons, Nat.add_assoc]

/-- From the right, the doubling toggle is the parity of the index distance to the end. -/
theorem luhnSum_reverse (digits : List ℕ) :
    luhnSum false digits.reverse = luhnIndexSum digits := by
  have hfrom (start : ℕ) : ((digits.zipIdx start).map fun entry =>
      if (start + digits.length - 1 - entry.2) % 2 = 1 then luhnDouble entry.1 else entry.1).sum =
        luhnSum false digits.reverse := by
    induction digits generalizing start with
    | nil => rfl
    | cons d ds ih =>
      have htail := ih (start + 1)
      have hlength : start + (d :: ds).length = start + 1 + ds.length := by
        rw [List.length_cons]
        omega
      have hdistance : start + 1 + ds.length - 1 - start = ds.length := by omega
      rw [List.reverse_cons, luhnSum_append, List.length_reverse, List.zipIdx_cons, List.map_cons,
        List.sum_cons, hlength, htail, hdistance, Nat.add_comm]
      simp [luhnSum]
  rw [← hfrom 0, luhnIndexSum, Nat.zero_add]

/-- Validity by the toggle from the right is validity by index. -/
theorem luhnValid_iff_indexSum (digits : List ℕ) :
    LuhnValid digits ↔ luhnIndexSum digits % 10 = 0 := by
  rw [LuhnValid, luhnSum_reverse]

section Errors

variable {xs ys : List ℕ} {a b : ℕ}

/-- Doubling permutes the ten digits. -/
theorem luhnDouble_injOn : ∀ a < 10, ∀ b < 10, luhnDouble a = luhnDouble b → a = b := by decide

/-- Doubling one of two digits or the other differs, except for zero and nine. -/
theorem luhnDouble_add_iff : ∀ a < 10, ∀ b < 10, (luhnDouble a + b) % 10 = (luhnDouble b + a) % 10 ↔
    a = b ∨ (a = 0 ∧ b = 9) ∨ (a = 9 ∧ b = 0) := by decide

/-- The sum with the digits from some place on split off. -/
theorem luhnSum_reverse_append (xs ys : List ℕ) : luhnSum false (xs ++ ys).reverse =
    luhnSum false ys.reverse + luhnSum (decide (ys.length % 2 = 1)) xs.reverse := by
  rw [List.reverse_append, luhnSum_append, List.length_reverse, Bool.false_xor]

/-- Of the numbers that differ in one digit, one is valid at most. -/
theorem luhnValid_replace_iff (ha : a < 10) (hb : b < 10) (h : LuhnValid (xs ++ a :: ys)) :
    LuhnValid (xs ++ b :: ys) ↔ b = a := by
  refine ⟨fun h' => ?_, fun hab => hab ▸ h⟩
  simp only [LuhnValid, luhnSum_reverse_append xs, List.reverse_cons, luhnSum_append, luhnSum,
    List.length_cons, List.length_reverse, Bool.false_xor] at h h'
  cases hdouble : decide (ys.length % 2 = 1) with
  | true =>
    have hda := luhnDouble_le (Nat.le_of_lt_succ ha)
    have hdb := luhnDouble_le (Nat.le_of_lt_succ hb)
    simp only [hdouble, if_true] at h h'
    exact luhnDouble_injOn b hb a ha (by omega)
  | false =>
    simp only [hdouble, Bool.false_eq_true, if_false] at h h'
    omega

/-- Swapping two neighbours keeps a number valid only if they are equal or zero and nine. -/
theorem luhnValid_swap_iff (ha : a < 10) (hb : b < 10) (h : LuhnValid (xs ++ a :: b :: ys)) :
    LuhnValid (xs ++ b :: a :: ys) ↔ a = b ∨ (a = 0 ∧ b = 9) ∨ (a = 9 ∧ b = 0) := by
  rw [← luhnDouble_add_iff a ha b hb]
  simp only [LuhnValid, luhnSum_reverse_append xs, List.reverse_cons, luhnSum_append, luhnSum,
    List.length_cons, List.length_append, List.length_reverse, List.length_nil, Bool.false_xor] at h ⊢
  -- one of the two places is doubled, the other is not
  rcases Nat.mod_two_eq_zero_or_one ys.length with hys | hys
  · have hnext : (ys.length + (0 + 1)) % 2 = 1 := by omega
    simp only [hys, hnext, decide_true, decide_false, Nat.zero_ne_one, if_true, Bool.false_eq_true,
      if_false] at h ⊢
    omega
  · have hnext : (ys.length + (0 + 1)) % 2 = 0 := by omega
    simp only [hys, hnext, decide_true, decide_false, Nat.zero_ne_one, if_true, Bool.false_eq_true,
      if_false] at h ⊢
    omega

end Errors

end Common
