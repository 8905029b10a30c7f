import CompactOid.Oid.Dotted
import CompactOid.Proofs.Outcome
import CompactOid.Proofs.Text.Decimal
import CompactOid.Proofs.Text.Fields

namespace CompactOid.Oid

/-- Each component is the numeral of the arc at its place. -/
def Spelled (components : List (List Char)) (arcs : List Arc) : Prop :=
  List.Forall₂ (fun component arc => Decimal.Spells component arc.toNat) components arcs

/-- The text is two or more components joined by dots, and they spell the arcs. -/
def Dotted (text : String) (oid : Oid) : Prop :=
  ∃ components, text.toList = Fields.join '.' components ∧ 2 ≤ components.length ∧
    Spelled components oid.arcs

/-- The component spells no arc, and this is the fault of a text with it. -/
inductive Offends (text : String) (component : List Char) : Fault → Prop where
  | malformed (misspelt : ∀ value, ¬ Decimal.Spells component value) :
      Offends text component (.invalidDotted text)
  | wide {value : Nat} (spelled : Decimal.Spells component value) (large : UInt32.size ≤ value) :
      Offends text component (.arcOutOfRange (min value (UInt64.size - 1)))

/-- The leftmost component at fault decides.  Where none is at fault there are too few. -/
inductive Refused (text : String) : Fault → Prop where
  | offended {before later : List (List Char)} {component : List Char} {arcs : List Arc}
      {fault : Fault} (cut : Fields.Cut '.' (before ++ component :: later) text.toList)
      (sound : Spelled before arcs) (offends : Offends text component fault) : Refused text fault
  | tooFew {components : List (List Char)} {arcs : List Arc}
      (cut : Fields.Cut '.' components text.toList) (sound : Spelled components arcs)
      (few : components.length < 2) : Refused text (.invalidDotted text)

variable {text : String} {component : List Char} {components : List (List Char)} {arc : Arc}
  {arcs : List Arc} {oid : Oid} {fault : Fault}

/-- The two bounds are one bound of the number, and what the fault tells is cut off at a word. -/
theorem parseArc_eq (text : String) (component : List Char) :
    parseArc text component = match Decimal.value? component with
      | none => .error (.invalidDotted text)
      | some value =>
          if value < UInt32.size then .ok (UInt32.ofNat value)
          else .error (.arcOutOfRange (min value (UInt64.size - 1))) := by
  rw [parseArc, Decimal.value?, Decimal.word?]
  split
  · by_cases word : Decimal.value component < UInt64.size
    · have number := UInt64.toNat_ofNat_of_lt' word
      have whole : min (Decimal.value component) (UInt64.size - 1) = Decimal.value component :=
        Nat.min_eq_left (Nat.le_sub_one_of_lt word)
      simp only [if_pos word, number, whole, UInt64.toUInt32_ofNat']
    · have large : ¬ Decimal.value component < UInt32.size := by
        simp only [UInt32.size, UInt64.size] at word ⊢
        omega
      have cutOff : min (Decimal.value component) (UInt64.size - 1) = UInt64.size - 1 :=
        Nat.min_eq_right (by omega)
      simp only [if_neg word, if_neg large, cutOff]
  · rfl

theorem parseArc_eq_ok_iff :
    parseArc text component = .ok arc ↔ Decimal.Spells component arc.toNat := by
  rw [← Decimal.value?_eq_some_iff, parseArc_eq]
  cases found : Decimal.value? component with
  | none => simp
  | some value =>
      by_cases small : value < UInt32.size
      · simp only [if_pos small, Except.ok.injEq, Option.some.injEq]
        refine ⟨fun same => ?_, fun same => ?_⟩
        · rw [← same, UInt32.toNat_ofNat_of_lt' small]
        · rw [same, UInt32.ofNat_toNat]
      · have other : value ≠ arc.toNat := by
          rintro rfl
          exact small arc.toNat_lt
        simp [small, other]

theorem parseArc_eq_error_iff :
    parseArc text component = .error fault ↔ Offends text component fault := by
  refine ⟨fun refused => ?_, fun offends => ?_⟩
  · rw [parseArc_eq] at refused
    split at refused
    · rename_i unread
      cases refused
      exact .malformed (Decimal.value?_eq_none_iff.mp unread)
    · rename_i value found
      split at refused
      · contradiction
      · rename_i large
        cases refused
        exact .wide (Decimal.value?_eq_some_iff.mp found) (Nat.le_of_not_lt large)
  · cases offends with
    | malformed misspelt => rw [parseArc_eq, Decimal.value?_eq_none_iff.mpr misspelt]
    | wide spelled large =>
        simp only [parseArc_eq, Decimal.value?_eq_some_iff.mpr spelled, if_neg (Nat.not_lt.mpr large)]

theorem parseArcs_eq_ok_iff :
    components.mapM (parseArc text) = .ok arcs ↔ Spelled components arcs := by
  simp only [mapM_eq_ok_iff, parseArc_eq_ok_iff, Spelled]

theorem spelled_iff :
    Spelled components arcs ↔ components = arcs.map fun arc => Decimal.digits arc.toNat := by
  rw [← List.forall₂_eq_eq_eq, List.forall₂_map_right_iff, Spelled]
  simp only [Decimal.spells_iff, eq_comm]

/-- No dot is a digit, so the components that spell arcs are the fields between the dots. -/
theorem cut_of_spelled (spelled : Spelled components arcs) (some : components ≠ []) :
    Fields.Cut '.' components (Fields.join '.' components) where
  nonempty := some
  unbroken component member dot := by
    rw [spelled_iff.mp spelled] at member
    obtain ⟨arc, _, rfl⟩ := List.mem_map.mp member
    exact absurd ((Decimal.spells_digits arc.toNat).digits '.' dot) (by decide)
  joined := rfl

theorem parse_eq_ok_iff : parse text = .ok oid ↔ Dotted text oid := by
  obtain ⟨arcs⟩ := oid
  rw [parse, bind_eq_ok_iff]
  simp only [parseArcs_eq_ok_iff]
  refine ⟨fun read => ?_, fun dotted => ?_⟩
  · obtain ⟨found, spelled, read⟩ := read
    split at read
    · contradiction
    · rename_i enough
      cases read
      refine ⟨_, (Fields.join_split '.' text.toList).symm, ?_, spelled⟩
      rw [spelled.length_eq]
      exact Nat.le_of_not_lt enough
  · obtain ⟨components, joined, enough, spelled⟩ := dotted
    have some : components ≠ [] := List.ne_nil_of_length_pos (by omega)
    rw [joined, Fields.split_eq_iff.mpr (cut_of_spelled spelled some)]
    rw [spelled.length_eq] at enough
    exact ⟨arcs, spelled, if_neg (Nat.not_lt.mpr enough)⟩

theorem parse_eq_error_iff : parse text = .error fault ↔ Refused text fault := by
  rw [parse, bind_eq_error_iff]
  simp only [mapM_eq_error_iff, parseArc_eq_ok_iff, parseArc_eq_error_iff, mapM_eq_ok_iff]
  have cut := Fields.cut_split '.' text.toList
  refine ⟨fun failed => ?_, fun refused => ?_⟩
  · rcases failed with ⟨before, bad, later, arcs, divided, sound, offends⟩ | ⟨arcs, sound, failed⟩
    · rw [divided] at cut
      exact .offended cut sound offends
    · split at failed
      · rename_i few
        cases failed
        exact .tooFew cut sound (by rw [sound.length_eq]; exact few)
      · contradiction
  · cases refused with
    | offended cut sound offends =>
        exact .inl ⟨_, _, _, _, Fields.split_eq_iff.mpr cut, sound, offends⟩
    | tooFew cut sound few =>
        rw [sound.length_eq] at few
        rw [Fields.split_eq_iff.mpr cut]
        exact .inr ⟨_, sound, if_pos few⟩

theorem toList_text (oid : Oid) :
    oid.text.toList = Fields.join '.' (oid.arcs.map fun arc => Decimal.digits arc.toNat) :=
  String.toList_ofList

/-- A number has one numeral, so the components are those of the identifier's own text. -/
theorem dotted_iff : Dotted text oid ↔ 2 ≤ oid.arcs.length ∧ oid.text = text := by
  refine ⟨fun dotted => ?_, fun written => ?_⟩
  · obtain ⟨components, joined, enough, spelled⟩ := dotted
    rw [← spelled.length_eq]
    refine ⟨enough, ?_⟩
    rw [← String.toList_inj, toList_text, joined, ← spelled_iff.mp spelled]
  · obtain ⟨enough, rfl⟩ := written
    exact ⟨_, toList_text oid, by rwa [List.length_map], spelled_iff.mpr rfl⟩

theorem text_of_parse (read : parse text = .ok oid) : oid.text = text :=
  (dotted_iff.mp (parse_eq_ok_iff.mp read)).2

/-- The empty sequence has the empty text, whose one component is no numeral. -/
theorem parse_text_of_few (few : oid.arcs.length < 2) :
    parse oid.text = .error (.invalidDotted oid.text) := by
  obtain ⟨arcs⟩ := oid
  match arcs with
  | [] => rfl
  | [arc] =>
      have spelled : Spelled [Decimal.digits arc.toNat] [arc] := spelled_iff.mpr rfl
      have cut := cut_of_spelled spelled (List.cons_ne_nil _ _)
      rw [parse_eq_error_iff]
      exact .tooFew (toList_text ⟨[arc]⟩ ▸ cut) spelled few
  | _ :: _ :: _ =>
      rw [List.length_cons, List.length_cons] at few
      omega

/-- A text is read if and only if two or more components joined by dots spell the arcs, which is to
say that it is the text of an identifier with two or more arcs.  Any other text is refused with the
fault of its leftmost component at fault. -/
theorem canonical_texts_are_read (text : String) (oid : Oid) (fault : Fault) :
    (parse text = .ok oid ↔ Dotted text oid) ∧
    (parse text = .ok oid ↔ 2 ≤ oid.arcs.length ∧ oid.text = text) ∧
    (parse oid.text =
      if 2 ≤ oid.arcs.length then .ok oid else .error (.invalidDotted oid.text)) ∧
    (parse text = .error fault ↔ Refused text fault) := by
  refine ⟨parse_eq_ok_iff, parse_eq_ok_iff.trans dotted_iff, ?_, parse_eq_error_iff⟩
  split
  · rename_i enough
    exact parse_eq_ok_iff.mpr (dotted_iff.mpr ⟨enough, rfl⟩)
  · rename_i few
    exact parse_text_of_few (Nat.lt_of_not_le few)

/-- Three components are at fault, and the leftmost of them is not the one that is malformed. -/
example : parse "1.18446744073709551616.05.x" = .error (.arcOutOfRange 18446744073709551615) := by
  cbv

end CompactOid.Oid
