import CompactOid.Text.Fields

namespace CompactOid.Fields

/-- The fields, put together with a separator between any two of them, are the text. -/
structure Cut (separator : Char) (fields : List (List Char)) (text : List Char) : Prop where
  nonempty : fields ≠ []
  unbroken : ∀ field ∈ fields, separator ∉ field
  joined : join separator fields = text

variable {separator : Char} {fields : List (List Char)} {text : List Char}

theorem split_cons (separator char : Char) (text : List Char) :
    split separator (char :: text) = extend separator char (split separator text) := rfl

theorem split_eq_splitOn (separator : Char) (text : List Char) :
    split separator text = text.splitOn separator := by
  induction text with
  | nil => rfl
  | cons char text ih =>
      rw [split_cons, ih, List.splitOn_cons_eq_if_modifyHead]
      unfold extend
      by_cases same : char = separator
      · rw [if_pos same, if_pos (beq_iff_eq.mpr same)]
      · rw [if_neg same, if_neg (mt beq_iff_eq.mp same)]
        cases divided : text.splitOn separator with
        | nil => exact absurd divided (List.splitOn_ne_nil _ _)
        | cons field later => rfl

theorem join_split (separator : Char) (text : List Char) :
    join separator (split separator text) = text := by
  rw [split_eq_splitOn, join, List.intercalate_splitOn]

theorem unbroken_extend {char : Char} (unbroken : ∀ field ∈ fields, separator ∉ field) :
    ∀ field ∈ extend separator char fields, separator ∉ field := by
  unfold extend
  split
  · exact List.forall_mem_cons.mpr ⟨List.not_mem_nil, unbroken⟩
  · rename_i other
    have apart : separator ≠ char := fun same => other same.symm
    split
    · exact List.forall_mem_singleton.mpr (by simpa using apart)
    · obtain ⟨first, rest⟩ := List.forall_mem_cons.mp unbroken
      exact List.forall_mem_cons.mpr ⟨by simp [apart, first], rest⟩

theorem cut_split (separator : Char) (text : List Char) :
    Cut separator (split separator text) text where
  nonempty := by
    rw [split_eq_splitOn]
    exact List.splitOn_ne_nil _ _
  unbroken := by
    induction text with
    | nil => exact List.forall_mem_singleton.mpr List.not_mem_nil
    | cons char text ih => exact unbroken_extend ih
  joined := join_split separator text

theorem split_eq_iff : split separator text = fields ↔ Cut separator fields text := by
  refine ⟨fun same => same ▸ cut_split separator text, fun cut => ?_⟩
  rw [split_eq_splitOn, ← cut.joined]
  exact List.splitOn_intercalate separator cut.unbroken cut.nonempty

end CompactOid.Fields
