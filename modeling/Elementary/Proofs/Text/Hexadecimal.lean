import Elementary.Format.Hexadecimal
import Mathlib.Data.List.Induction
import Mathlib.Tactic.Ring

/-!
# Hexadecimal text

A natural number is written with hexadecimal digits, the highest first, as many as it needs. Read
as digits they denote the number again, and leading zeros do not change what they denote.

## Main results

* `hexDigits_hex`: hexadecimal text denotes the number that it is written for.
* `length_hex_le`: a number has no more digits than it needs.
* `hexDigits_append`: what digits next to each other denote.
-/

namespace Elementary.Text

variable {n fuel k : Nat} {c : Char}

/-- Whether a character is a hexadecimal digit. -/
def isHexDigit (c : Char) : Bool := c.isDigit || ('a' ≤ c && c ≤ 'f') || ('A' ≤ c && c ≤ 'F')

/-- The digits that are written are hexadecimal digits, and denote what they are written for. -/
theorem hexDigit_spec : ∀ d < 16,
    isHexDigit (hexDigit d) = true ∧ Datum.hexDigits [hexDigit d] = d := by
  decide

/-- The last of the digits that are written stands for the remainder. -/
theorem go_eq_append (n fuel : Nat) (tail : List Char) :
    hex.go n fuel tail = hex.go n fuel [] ++ tail := by
  induction fuel generalizing n tail with
  | zero => rfl
  | succ fuel ih =>
    rw [hex.go, hex.go, ih (n >>> 4) (_ :: tail), ih (n >>> 4) [_], List.append_assoc]
    rfl

theorem go_succ (n fuel : Nat) :
    hex.go n (fuel + 1) [] = hex.go (n / 16) fuel [] ++ [hexDigit (n % 16)] := by
  rw [hex.go, go_eq_append, Nat.shiftRight_eq_div_pow]

@[simp] theorem length_go (n fuel : Nat) : (hex.go n fuel []).length = fuel := by
  induction fuel generalizing n with
  | zero => rfl
  | succ fuel ih => rw [go_succ, List.length_append, ih, List.length_singleton]

theorem exists_of_mem_go (hc : c ∈ hex.go n fuel []) : ∃ d < 16, c = hexDigit d := by
  induction fuel generalizing n with
  | zero => cases hc
  | succ fuel ih =>
    rw [go_succ, List.mem_append, List.mem_singleton] at hc
    rcases hc with hc | rfl
    · exact ih hc
    · exact ⟨_, Nat.mod_lt _ (by omega), rfl⟩

/-- One more digit multiplies what the others denote by sixteen. -/
theorem hexDigits_concat (cs : List Char) (c : Char) :
    Datum.hexDigits (cs ++ [c]) = 16 * Datum.hexDigits cs + Datum.hexDigits [c] := by
  simp [Datum.hexDigits]

/-- So many digits denote the remainder of as many powers of sixteen. -/
theorem hexDigits_go (n fuel : Nat) : Datum.hexDigits (hex.go n fuel []) = n % 16 ^ fuel := by
  induction fuel generalizing n with
  | zero => simp [hex.go, Datum.hexDigits, Nat.mod_one]
  | succ fuel ih =>
    rw [go_succ, hexDigits_concat, ih, (hexDigit_spec _ (Nat.mod_lt _ (by omega))).2, Nat.pow_succ',
      Nat.mod_mul, Nat.add_comm]

/-- There are enough digits for the number. -/
theorem lt_pow_digits (n : Nat) : n < 16 ^ (n.log2 / 4 + 1) := by
  calc n < 2 ^ (n.log2 + 1) := Nat.lt_log2_self
    _ ≤ 2 ^ (4 * (n.log2 / 4 + 1)) := Nat.pow_le_pow_right two_pos (by omega)
    _ = 16 ^ (n.log2 / 4 + 1) := by rw [Nat.pow_mul]

theorem toList_hex (hn : n ≠ 0) : (hex n).toList = hex.go n (n.log2 / 4 + 1) [] := by
  rw [hex, if_neg hn, String.toList_ofList]

/-- **Hexadecimal text** denotes the number that it is written for. -/
theorem hexDigits_hex (n : Nat) : Datum.hexDigits (hex n).toList = n := by
  by_cases hn : n = 0
  · subst hn
    rfl
  · rw [toList_hex hn, hexDigits_go, Nat.mod_eq_of_lt (lt_pow_digits n)]

/-- Hexadecimal text consists of digits. -/
theorem exists_of_mem_hex (hc : c ∈ (hex n).toList) : ∃ d < 16, c = hexDigit d := by
  by_cases hn : n = 0
  · subst hn
    exact ⟨0, by omega, List.mem_singleton.mp hc⟩
  · rw [toList_hex hn] at hc
    exact exists_of_mem_go hc

theorem isHexDigit_of_mem_hex (hc : c ∈ (hex n).toList) : isHexDigit c = true := by
  obtain ⟨d, hd, rfl⟩ := exists_of_mem_hex hc
  exact (hexDigit_spec d hd).1

/-- A number has no more hexadecimal digits than it needs. -/
theorem length_hex_le (hk : 0 < k) (hn : n < 16 ^ k) : (hex n).length ≤ k := by
  by_cases h0 : n = 0
  · subst h0
    exact hk
  · have hlog : n.log2 < 4 * k := by
      rw [Nat.log2_lt h0, Nat.pow_mul]
      exact hn
    rw [← String.length_toList, toList_hex h0, length_go]
    omega

/-- Digits next to each other denote the sum of what they denote in their places. -/
theorem hexDigits_append (cs ds : List Char) :
    Datum.hexDigits (cs ++ ds) = 16 ^ ds.length * Datum.hexDigits cs + Datum.hexDigits ds := by
  induction ds using List.reverseRecOn with
  | nil => simp [Datum.hexDigits]
  | append_singleton ds c ih =>
    rw [← List.append_assoc, hexDigits_concat, ih, hexDigits_concat ds, List.length_append,
      List.length_singleton, Nat.pow_succ']
    ring

/-- Zeros in front of digits change nothing. -/
theorem hexDigits_replicate_append (k : Nat) (cs : List Char) :
    Datum.hexDigits (List.replicate k '0' ++ cs) = Datum.hexDigits cs := by
  induction k with
  | zero => rfl
  | succ k ih =>
    rw [List.replicate_succ, List.cons_append, ← ih]
    rfl

end Elementary.Text
