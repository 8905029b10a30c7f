import CompactOid.Proofs.Outcome
import CompactOid.Proofs.Text.Decimal
import CompactOid.Schema.Column

namespace CompactOid.Schema

namespace ValueSyntax

variable {kind : ValueSyntax} {index : Nat} {char : Char}

theorem all_nodup : all.Nodup := by decide

theorem mem_all (kind : ValueSyntax) : kind ∈ all := by
  cases kind <;> decide

theorem ofIndex?_eq_some_iff : ofIndex? index = some kind ↔ index = kind.index := by
  rw [ofIndex?, ValueSyntax.index, List.getElem?_eq_some_iff]
  refine ⟨fun found => ?_, fun same => ?_⟩
  · obtain ⟨bound, rfl⟩ := found
    exact (all_nodup.idxOf_getElem index bound).symm
  · subst same
    have bound := List.idxOf_lt_length_of_mem kind.mem_all
    exact ⟨bound, List.getElem_idxOf bound⟩

theorem toNat_letter (kind : ValueSyntax) : kind.letter.toNat = 'a'.toNat + kind.index := by
  cases kind <;> rfl

theorem letter_le (kind : ValueSyntax) : kind.letter ≤ 'r' := by
  cases kind <;> decide

theorem index_lt (kind : ValueSyntax) : kind.index < UInt16.size := by
  cases kind <;> decide

theorem eq_letter_iff : char = kind.letter ↔ char.toNat = 'a'.toNat + kind.index := by
  rw [← toNat_letter, Char.toNat_inj]

theorem ofLetter?_eq_some_iff : ofLetter? char = some kind ↔ char = kind.letter := by
  rw [eq_letter_iff, ofLetter?]
  have order : 'a' ≤ char ↔ 'a'.toNat ≤ char.toNat := Iff.rfl
  have narrow := kind.index_lt
  split
  · rename_i low
    rw [order] at low
    simp only [Option.ite_none_right_eq_some, ofIndex?_eq_some_iff]
    omega
  · rename_i high
    rw [order] at high
    simp only [reduceCtorEq, false_iff]
    omega

end ValueSyntax

namespace Column

/-- A numeral with a minus sign before it or without one.  There is no sign before zero. -/
inductive SignedNumeral : List Char → Int → Prop where
  | plain {digits : List Char} {number : Nat} (spelled : Decimal.Spells digits number) :
      SignedNumeral digits number
  | negative {digits : List Char} {number : Nat} (spelled : Decimal.Spells digits number)
      (positive : 0 < number) : SignedNumeral ('-' :: digits) (-number)

/-- The signed number that has the same 32 bits as the value. -/
structure Signed (value : UInt32) (number : Int) : Prop where
  lower : -half ≤ number
  upper : number < half
  congruent : (value.toNat : Int) = number % UInt32.size

variable {numeral digits : List Char} {value : UInt32} {number : Int} {size : Nat}

theorem whole_eq : UInt32.size = half + half := rfl

/-- The values below the half are their own signed numbers. -/
theorem signed_natCast_iff :
    Signed value (size : Int) ↔ size < half ∧ value = UInt32.ofNat size := by
  have whole := whole_eq
  refine ⟨fun signed => ?_, fun stored => ?_⟩
  · have small : size < half := by
      have upper := signed.upper
      omega
    have below : size < UInt32.size := by omega
    have congruent := signed.congruent
    rw [Int.emod_eq_of_lt (by omega) (by omega)] at congruent
    refine ⟨small, UInt32.toNat_inj.mp ?_⟩
    rw [UInt32.toNat_ofNat_of_lt' below]
    omega
  · obtain ⟨small, rfl⟩ := stored
    refine ⟨by omega, by omega, ?_⟩
    rw [UInt32.toNat_ofNat_of_lt' (by omega), Int.emod_eq_of_lt (by omega) (by omega)]

/-- The values from the half on are negative, and the half itself has no positive counterpart. -/
theorem signed_neg_iff (positive : 0 < size) :
    Signed value (-size) ↔ size ≤ half ∧ value = UInt32.ofNat (UInt32.size - size) := by
  have whole := whole_eq
  have wrapped (small : size ≤ half) :
      (-size : Int) % UInt32.size = (UInt32.size - size : Nat) := by
    rw [← Int.add_emod_left, Int.emod_eq_of_lt (by omega) (by omega)]
    omega
  refine ⟨fun signed => ?_, fun stored => ?_⟩
  · have small : size ≤ half := by
      have lower := signed.lower
      omega
    refine ⟨small, UInt32.toNat_inj.mp ?_⟩
    rw [UInt32.toNat_ofNat_of_lt' (by omega)]
    exact Int.ofNat_inj.mp (signed.congruent.trans (wrapped small))
  · obtain ⟨small, rfl⟩ := stored
    refine ⟨by omega, by omega, ?_⟩
    rw [UInt32.toNat_ofNat_of_lt' (by omega), wrapped small]

theorem ofSignedDigits?_eq_some_iff :
    ofSignedDigits? numeral = some value ↔
      ∃ number, SignedNumeral numeral number ∧ Signed value number := by
  refine ⟨fun read => ?_, fun written => ?_⟩
  · unfold ofSignedDigits? at read
    split at read <;> split at read
    · rename_i size found
      have spelled := Decimal.value?_eq_some_iff.mp found
      split at read
      · rename_i stored
        cases read
        exact ⟨-size, .negative spelled stored.1, (signed_neg_iff stored.1).mpr ⟨stored.2, rfl⟩⟩
      · contradiction
    · contradiction
    · rename_i size found
      have spelled := Decimal.value?_eq_some_iff.mp found
      split at read
      · rename_i stored
        cases read
        exact ⟨size, .plain spelled, signed_natCast_iff.mpr ⟨stored, rfl⟩⟩
      · contradiction
    · contradiction
  · obtain ⟨number, numbered, signed⟩ := written
    cases numbered with
    | plain spelled =>
        obtain ⟨small, rfl⟩ := signed_natCast_iff.mp signed
        unfold ofSignedDigits?
        split
        · exact absurd (spelled.digits '-' List.mem_cons_self) (by decide)
        · rw [Decimal.value?_eq_some_iff.mpr spelled]
          exact if_pos small
    | negative spelled positive =>
        obtain ⟨small, rfl⟩ := (signed_neg_iff positive).mp signed
        rw [ofSignedDigits?, Decimal.value?_eq_some_iff.mpr spelled]
        exact if_pos ⟨positive, small⟩

theorem signedDigits_eq_iff :
    signedDigits value = numeral ↔
      ∃ number, SignedNumeral numeral number ∧ Signed value number := by
  have whole := whole_eq
  have bound : value.toNat < UInt32.size := value.toNat_lt
  refine ⟨fun written => ?_, fun written => ?_⟩
  · subst written
    unfold signedDigits
    split
    · rename_i small
      exact ⟨_, .plain (Decimal.spells_digits _),
        signed_natCast_iff.mpr ⟨small, UInt32.ofNat_toNat.symm⟩⟩
    · rename_i large
      have positive : 0 < UInt32.size - value.toNat := by omega
      refine ⟨_, .negative (Decimal.spells_digits _) positive,
        (signed_neg_iff positive).mpr ⟨by omega, ?_⟩⟩
      rw [Nat.sub_sub_self (by omega), UInt32.ofNat_toNat]
  · obtain ⟨number, numbered, signed⟩ := written
    cases numbered with
    | plain spelled =>
        obtain ⟨small, rfl⟩ := signed_natCast_iff.mp signed
        rw [signedDigits, UInt32.toNat_ofNat_of_lt' (by omega), if_pos small]
        exact Decimal.digits_of_spells spelled
    | negative spelled positive =>
        obtain ⟨small, rfl⟩ := (signed_neg_iff positive).mp signed
        rw [signedDigits, UInt32.toNat_ofNat_of_lt' (by omega), if_neg (by omega),
          Nat.sub_sub_self (by omega), Decimal.digits_of_spells spelled]

theorem ofSignedDigits?_signedDigits_iff :
    ofSignedDigits? numeral = some value ↔ signedDigits value = numeral :=
  ofSignedDigits?_eq_some_iff.trans signedDigits_eq_iff.symm

/-- `ATT`, a letter for the syntax and a numeral for the signed value of the reference. -/
def Denotes (text : String) (kind : ValueSyntax) (subject : Reference) : Prop :=
  ∃ letter numeral number, text.toList = 'A' :: 'T' :: 'T' :: letter :: numeral ∧
    letter ≤ 'r' ∧ letter.toNat = 'a'.toNat + kind.index ∧ SignedNumeral numeral number ∧
    Signed subject.value number

variable {text : String} {chars : List Char} {kind : ValueSyntax} {subject : Reference}
  {fault : Fault}

theorem ofChars?_eq_some_iff :
    ofChars? chars = some (kind, subject) ↔
      chars = 'A' :: 'T' :: 'T' :: kind.letter :: signedDigits subject.value := by
  refine ⟨fun read => ?_, fun written => ?_⟩
  · unfold ofChars? at read
    split at read
    · rename_i letter numeral
      obtain ⟨known, first, read⟩ := Option.bind_eq_some_iff.mp read
      obtain ⟨value, second, read⟩ := Option.bind_eq_some_iff.mp read
      cases read
      rw [ValueSyntax.ofLetter?_eq_some_iff.mp first, ofSignedDigits?_signedDigits_iff.mp second]
    · contradiction
  · subst written
    simp only [ofChars?, ValueSyntax.ofLetter?_eq_some_iff.mpr rfl,
      ofSignedDigits?_signedDigits_iff.mpr rfl]
    rfl

theorem toList_name (subject : Reference) (kind : ValueSyntax) :
    (name subject kind).toList = 'A' :: 'T' :: 'T' :: kind.letter :: signedDigits subject.value :=
  String.toList_ofList

theorem parse_eq_ok_iff : parse text = .ok (kind, subject) ↔ text = name subject kind := by
  rw [← String.toList_inj, toList_name, ← ofChars?_eq_some_iff, parse]
  cases ofChars? text.toList <;> simp

theorem parse_eq_error_iff :
    parse text = .error fault ↔
      fault = .invalidColumnName text ∧ ∀ kind subject, text ≠ name subject kind := by
  cases read : parse text with
  | ok column =>
      have written := parse_eq_ok_iff.mp read
      simp only [reduceCtorEq, false_iff, not_and, not_forall, not_not]
      exact fun _ => ⟨_, _, written⟩
  | error other =>
      have unwritten : ∀ kind subject, text ≠ name subject kind := by
        intro kind subject written
        rw [parse_eq_ok_iff.mpr written] at read
        contradiction
      have same : other = .invalidColumnName text := by
        rw [parse] at read
        split at read
        · contradiction
        · exact (Except.error.inj read).symm
      rw [same, Except.error.injEq, eq_comm]
      exact ⟨fun chosen => ⟨chosen, unwritten⟩, fun refused => refused.1⟩

theorem denotes_iff : Denotes text kind subject ↔ text = name subject kind := by
  rw [← String.toList_inj, toList_name]
  refine ⟨fun denotes => ?_, fun written => ?_⟩
  · obtain ⟨letter, numeral, number, same, _, placed, numbered, signed⟩ := denotes
    rw [same, ValueSyntax.eq_letter_iff.mpr placed,
      signedDigits_eq_iff.mpr ⟨number, numbered, signed⟩]
  · have spelled : signedDigits subject.value = signedDigits subject.value := rfl
    obtain ⟨number, numbered, signed⟩ := signedDigits_eq_iff.mp spelled
    exact ⟨_, _, number, written, kind.letter_le, kind.toNat_letter, numbered, signed⟩

/-- The column names are read as the syntax and the reference that they are written for, any other
text is refused, and what is read is made up of a letter and a signed numeral without padding. -/
theorem column_names_are_one_to_one (text : String) (kind : ValueSyntax) (subject : Reference)
    (fault : Fault) :
    (parse text = .ok (kind, subject) ↔ text = name subject kind) ∧
    (parse text = .ok (kind, subject) ↔ Denotes text kind subject) ∧
    (parse text = .error fault ↔
      fault = .invalidColumnName text ∧ ∀ kind subject, text ≠ name subject kind) :=
  ⟨parse_eq_ok_iff, parse_eq_ok_iff.trans denotes_iff.symm, parse_eq_error_iff⟩

example : name ⟨0x80000000⟩ .undefined = "ATTa-2147483648" := by cbv

example : parse "ATTm2147483648" = .error (.invalidColumnName "ATTm2147483648") := by cbv

end Column

end CompactOid.Schema
