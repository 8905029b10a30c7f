import CompactOid.Text.Decimal

namespace CompactOid.Decimal

structure Spells (numeral : List Char) (number : Nat) : Prop where
  nonempty : numeral ≠ []
  digits : ∀ char ∈ numeral, char.isDigit = true
  unpadded : numeral.head? = some '0' → numeral = ['0']
  stands : Nat.ofDigitChars 10 numeral 0 = number

variable {numeral : List Char} {number : Nat}

theorem digitChar_of_isDigit {char : Char} (digit : char.isDigit = true) :
    Nat.digitChar (char.toNat - '0'.toNat) = char ∧ char.toNat - '0'.toNat < 10 := by
  obtain ⟨low, high⟩ := Char.isDigit_iff_toNat.mp digit
  have zero : '0'.toNat = 48 := rfl
  have nine : '9'.toNat = 57 := rfl
  have small : char.toNat - '0'.toNat < 10 := by omega
  refine ⟨Char.toNat_inj.mp ?_, small⟩
  rw [Nat.toNat_digitChar_of_lt_ten small]
  omega

/-- Behind a number that is not zero, any digit may follow. -/
theorem toDigits_ofDigitChars {run : List Char} {high : Nat} (positive : 0 < high)
    (digits : ∀ char ∈ run, char.isDigit = true) :
    Nat.toDigits 10 (Nat.ofDigitChars 10 run high) = Nat.toDigits 10 high ++ run := by
  induction run generalizing high with
  | nil => simp
  | cons char run ih =>
      obtain ⟨spelled, small⟩ := digitChar_of_isDigit (digits char List.mem_cons_self)
      rw [Nat.ofDigitChars_cons, ih (by omega) (fun next member =>
          digits next (List.mem_cons_of_mem _ member)),
        ← Nat.toDigits_append_toDigits (by decide) positive small,
        Nat.toDigits_of_lt_base small, spelled, List.append_assoc]
      rfl

theorem digits_of_spells (spelled : Spells numeral number) : digits number = numeral := by
  rw [← spelled.stands, digits]
  match numeral with
  | [] => exact absurd rfl spelled.nonempty
  | first :: run =>
      obtain ⟨digit, later⟩ := List.forall_mem_cons.mp spelled.digits
      obtain ⟨same, small⟩ := digitChar_of_isDigit digit
      rw [Nat.ofDigitChars_cons, Nat.mul_zero, Nat.zero_add]
      by_cases zero : first = '0'
      · subst zero
        cases spelled.unpadded rfl
        rfl
      · have positive : 0 < first.toNat - '0'.toNat := by
          apply Nat.pos_of_ne_zero
          intro absent
          rw [absent] at same
          exact zero same.symm
        rw [toDigits_ofDigitChars positive later, Nat.toDigits_of_lt_base small, same]
        rfl

/-- The first digit of a number that is not zero is the first digit of what is left of it without
its last one. -/
theorem head?_digits (positive : 0 < number) : (digits number).head? ≠ some '0' := by
  induction number using Nat.strongRecOn with
  | ind number ih =>
      simp only [digits] at ih ⊢
      by_cases small : number < 10
      · rw [Nat.toDigits_of_lt_base small, List.head?_cons, ne_eq, Option.some.injEq]
        intro zero
        have same := congrArg Char.toNat zero
        rw [Nat.toNat_digitChar_of_lt_ten small, show '0'.toNat = 48 from rfl] at same
        omega
      · have shorter := ih (number / 10) (by omega) (by omega)
        rw [Nat.toDigits_of_base_le (by decide) (by omega), List.head?_append]
        cases leading : (Nat.toDigits 10 (number / 10)).head? with
        | none => exact absurd (List.head?_eq_none_iff.mp leading) Nat.toDigits_ne_nil
        | some first =>
            rw [leading] at shorter
            rwa [Option.some_or]

theorem spells_digits (number : Nat) : Spells (digits number) number where
  nonempty := Nat.toDigits_ne_nil
  digits _ member := Nat.isDigit_of_mem_toDigits (by decide) (by decide) member
  unpadded padded := by
    cases number with
    | zero => rfl
    | succ lower => exact absurd padded (head?_digits (Nat.succ_pos lower))
  stands := Nat.ofDigitChars_ten_toDigits

theorem spells_iff : Spells numeral number ↔ digits number = numeral :=
  ⟨digits_of_spells, fun written => written ▸ spells_digits number⟩

theorem isNumeral_iff : isNumeral numeral = true ↔ numeral ≠ [] ∧
    (∀ char ∈ numeral, char.isDigit = true) ∧ (numeral.head? = some '0' → numeral = ['0']) := by
  simp only [isNumeral, Bool.and_eq_true, List.all_eq_true]
  split <;> simp_all

theorem value?_eq_some_iff : value? numeral = some number ↔ Spells numeral number := by
  rw [value?]
  split
  · rename_i canonical
    obtain ⟨nonempty, digits, unpadded⟩ := isNumeral_iff.mp canonical
    rw [Option.some.injEq]
    exact ⟨fun stands => ⟨nonempty, digits, unpadded, stands⟩, fun spelled => spelled.stands⟩
  · rename_i other
    refine ⟨fun found => by contradiction, fun spelled => ?_⟩
    exact absurd (isNumeral_iff.mpr ⟨spelled.nonempty, spelled.digits, spelled.unpadded⟩) other

theorem value?_eq_none_iff : value? numeral = none ↔ ∀ number, ¬ Spells numeral number := by
  rw [Option.eq_none_iff_forall_ne_some]
  exact forall_congr' fun number => not_congr value?_eq_some_iff

end CompactOid.Decimal
