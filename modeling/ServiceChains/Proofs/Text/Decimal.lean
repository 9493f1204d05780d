import Mathlib.Data.List.Basic
import ServiceChains.Text.Decimal

/-!
# Decimal numbers can be read back

The digits of a number denote that number. They begin with a zero only if it is the only digit, so
that no number has two texts.
-/
namespace ServiceChains.Text

theorem digitValue_digitChar : ∀ d < 10, digitValue (digitChar d) = d := by
  decide

theorem isDigit_digitChar : ∀ d < 10, (digitChar d).isDigit = true := by
  decide

theorem isDigit_of_mem_digits {n : Nat} {c : Char} (h : c ∈ digits n) : c.isDigit = true := by
  fun_induction digits n with
  | case1 n hn =>
    rw [List.mem_singleton.mp h]
    exact isDigit_digitChar n hn
  | case2 n _ ih =>
    rcases List.mem_append.mp h with h | h
    · exact ih h
    · rw [List.mem_singleton.mp h]
      exact isDigit_digitChar _ (Nat.mod_lt _ (by omega))

theorem digits_ne_nil (n : Nat) : digits n ≠ [] := by
  rw [digits]
  split_ifs <;> simp

theorem exists_digits_eq_cons (n : Nat) : ∃ d ds, digits n = d :: ds ∧ d.isDigit = true := by
  cases hds : digits n with
  | nil => exact absurd hds (digits_ne_nil n)
  | cons d ds => exact ⟨d, ds, rfl, isDigit_of_mem_digits (n := n) (by simp [hds])⟩

theorem ofDigits_digits (n : Nat) : ofDigits 10 digitValue (digits n) = n := by
  fun_induction digits n with
  | case1 n hn => simp [ofDigits, digitValue_digitChar n hn]
  | case2 n _ ih =>
    have hlast := digitValue_digitChar (n % 10) (Nat.mod_lt _ (by omega))
    simp only [ofDigits, List.foldl_append, List.foldl_cons, List.foldl_nil] at ih ⊢
    rw [ih, hlast]
    omega

/-- A number whose digits begin with a zero is zero. -/
theorem digits_head_zero {n : Nat} {cs : List Char} (h : digits n = '0' :: cs) : cs = [] := by
  have hzero : ∀ d < 10, digitChar d = '0' → d = 0 := by decide
  have hn : n = 0 := by
    fun_induction digits n generalizing cs with
    | case1 n hn => exact hzero n hn (List.cons.inj h).1
    | case2 n hn ih =>
      have hne := digits_ne_nil (n / 10)
      obtain ⟨c, cs', hcs⟩ := List.exists_cons_of_ne_nil hne
      rw [hcs, List.cons_append] at h
      rw [(List.cons.inj h).1] at hcs
      have hq := ih hcs
      omega
  rw [hn, digits, if_pos (by omega)] at h
  exact (List.cons.inj h).2.symm

/-- A word is read back from its digits. -/
theorem readDigits?_digits (n : UInt64) : readDigits? (digits n.toNat) = some n := by
  have hempty : (digits n.toNat).isEmpty = false := by
    simpa using digits_ne_nil n.toNat
  have hall : (digits n.toNat).all Char.isDigit = true :=
    List.all_eq_true.mpr fun c hc => isDigit_of_mem_digits hc
  have hlt : n.toNat < UInt64.size := n.toNat_lt
  simp [readDigits?, hempty, hall, ofDigits_digits, hlt]

end ServiceChains.Text
