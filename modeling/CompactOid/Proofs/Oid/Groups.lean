import CompactOid.Proofs.Bytes.Group
import CompactOid.Proofs.Oid.Ber

namespace CompactOid.Oid

/-! Which byte strings are BER forms, told by the numbers of their groups.

The numbers have no bound, and each group but the first stands for one arc, so
its number must have 32 bits.  The first group stands for two arcs, which leaves
80 numbers more.  A byte string that is no form has the flaw of its first group
at fault.
-/

/-- The group ends, and its value has 32 bits once the spare numbers are taken off. -/
structure GroupFits (spare : Nat) (group : Bytes) : Prop where
  closed : Base128.Closed group
  small : Base128.valueOf group < UInt32.size + spare

/-- What is wrong with a group at an offset. -/
inductive GroupFlaw (spare offset : Nat) (group : Bytes) : BerFlaw → Prop where
  | overflow (overlong : Base128.Overlong 0 group) :
      GroupFlaw spare offset group (.overflow offset)
  | cutOff (continued : Base128.Continued group) (room : ¬ Base128.Overlong 0 group) :
      GroupFlaw spare offset group (.cutOff offset)
  | wideArc (closed : Base128.Closed group) (room : Base128.valueOf group < UInt64.size)
      (wide : UInt32.size + spare ≤ Base128.valueOf group) :
      GroupFlaw spare offset group (.wideArc (Base128.valueOf group - spare) offset)

/-- Every group fits, and only the first has numbers to spare. -/
inductive Fit : Nat → List Bytes → Prop where
  | nil {spare : Nat} : Fit spare []
  | cons {spare : Nat} {group : Bytes} {later : List Bytes} (first : GroupFits spare group)
      (others : Fit 0 later) : Fit spare (group :: later)

/-- The flaw is that of the first group which does not fit. -/
inductive Flawed : Nat → Nat → List Bytes → BerFlaw → Prop where
  | here {spare offset : Nat} {group : Bytes} {later : List Bytes} {flaw : BerFlaw}
      (first : GroupFlaw spare offset group flaw) : Flawed spare offset (group :: later) flaw
  | behind {spare offset : Nat} {group : Bytes} {later : List Bytes} {flaw : BerFlaw}
      (first : GroupFits spare group) (others : Flawed 0 (offset + group.length) later flaw) :
      Flawed spare offset (group :: later) flaw

/-- The bytes end with a group, and each number is one that the arcs of its group can make up. -/
structure BerForm (data : Bytes) : Prop where
  filled : data ≠ []
  ends : Base128.Ends data
  first_le : ∀ value ∈ (Base128.values data).head?, value ≤ UInt32.size + 79
  later_lt : ∀ value ∈ (Base128.values data).tail, value < UInt32.size

/-- Why a byte string is no form. -/
inductive Malformed : Bytes → BerFlaw → Prop where
  | empty : Malformed [] .empty
  | group {data : Bytes} {flaw : BerFlaw} (flawed : Flawed 80 0 (Base128.groups data) flaw) :
      Malformed data flaw

/-- The arcs of the numbers, two of them for the first number. -/
def arcValues : List Nat → List Nat
  | [] => []
  | first :: later => (if first < 80 then [first / 40, first % 40] else [2, first - 80]) ++ later

variable {oid : Oid} {data rest group : Bytes} {pieces : List Bytes} {cursor after : Cursor}
  {value position spare : Nat} {arc : Arc} {found : List Arc} {flaw : BerFlaw}

theorem berGroup_of_closed (closed : Base128.Closed group)
    (room : Base128.valueOf group < UInt64.size) (position : Nat) (rest : Bytes) :
    berGroup ⟨position, group ++ rest⟩ =
      .ok (Base128.valueOf group, ⟨position + group.length, rest⟩) := by
  have read := Base128.readFrom_of_closed closed room 0 rest
  rw [berGroup_eq_ok_iff]
  exact ⟨_, read, rfl, by rw [Nat.zero_add]⟩

theorem berGroup_of_overlong (overlong : Base128.Overlong 0 group) (position : Nat)
    (rest : Bytes) : berGroup ⟨position, group ++ rest⟩ = .error (.overflow position) := by
  have read := Base128.read_of_overlong (overlong.append rest)
  simp [berGroup, Cursor.group, read, bind, Except.bind]

theorem berGroup_of_continued (continued : Base128.Continued group)
    (room : ¬ Base128.Overlong 0 group) (position : Nat) :
    berGroup ⟨position, group⟩ = .error (.cutOff position) := by
  have read := Base128.read_of_continued continued room
  simp [berGroup, Cursor.group, read, bind, Except.bind]

theorem narrow_of_wide (wide : UInt32.size ≤ value) (offset : Nat) :
    narrow value offset = .error (.wideArc value offset) := by
  rw [narrow, if_neg (Nat.not_lt.mpr wide)]

theorem GroupFits.narrow_eq (fits : GroupFits 0 group) (offset : Nat) :
    narrow (Base128.valueOf group) offset = .ok (UInt32.ofNat (Base128.valueOf group)) :=
  narrow_eq_ok_iff.mpr (UInt32.toNat_ofNat_of_lt' fits.small)

/-- A group that fits is read, whatever is behind it. -/
theorem berGroup_of_fits (grouped : Base128.Grouped data (group :: pieces))
    (fits : GroupFits spare group) (few : spare ≤ 80) (position : Nat) :
    ∃ rest, berGroup ⟨position, data⟩ =
        .ok (Base128.valueOf group, ⟨position + group.length, rest⟩) ∧
      Base128.Grouped rest pieces := by
  cases grouped with
  | cutOff _ continued => exact absurd continued fits.closed.not_continued
  | @group _ rest _ closed behind =>
      have room : Base128.valueOf group < UInt64.size := by
        have small := fits.small
        simp only [UInt32.size, UInt64.size] at small ⊢
        omega
      exact ⟨rest, berGroup_of_closed closed room position rest, behind⟩

/-- A group that does not fit is refused, or it is read with a number that is too large. -/
theorem berGroup_of_flaw (grouped : Base128.Grouped data (group :: pieces))
    (flawed : GroupFlaw spare position group flaw) :
    berGroup ⟨position, data⟩ = .error flaw ∨
      ∃ after, berGroup ⟨position, data⟩ = .ok (Base128.valueOf group, after) ∧
        UInt32.size + spare ≤ Base128.valueOf group ∧
        flaw = .wideArc (Base128.valueOf group - spare) position := by
  cases grouped with
  | cutOff _ continued =>
      cases flawed with
      | overflow overlong =>
          have refused := berGroup_of_overlong overlong position []
          rw [List.append_nil] at refused
          exact .inl refused
      | cutOff _ room => exact .inl (berGroup_of_continued continued room position)
      | wideArc closed => exact absurd continued closed.not_continued
  | @group _ rest _ closed _ =>
      cases flawed with
      | overflow overlong => exact .inl (berGroup_of_overlong overlong position rest)
      | cutOff continued => exact absurd continued closed.not_continued
      | wideArc _ room wide =>
          exact .inr ⟨_, berGroup_of_closed closed room position rest, wide, rfl⟩

theorem ne_nil_of_grouped (grouped : Base128.Grouped data (group :: pieces)) : data ≠ [] := by
  cases grouped with
  | cutOff filled => exact filled
  | group closed => cases closed <;> simp

theorem laterArcs_of_fit (grouped : Base128.Grouped data pieces) (fit : Fit 0 pieces)
    (found : List Arc) (position : Nat) :
    ∃ later, laterArcs found ⟨position, data⟩ = .ok (found.reverse ++ later) ∧
      later.map UInt32.toNat = pieces.map Base128.valueOf := by
  induction pieces generalizing data found position with
  | nil =>
      cases grouped
      exact ⟨[], by simp [laterArcs], rfl⟩
  | cons group pieces ih =>
      cases fit with
      | cons first others =>
          obtain ⟨rest, read, behind⟩ := berGroup_of_fits grouped first (by decide) position
          have narrowed := first.narrow_eq position
          obtain ⟨later, read', values⟩ :=
            ih behind others (UInt32.ofNat (Base128.valueOf group) :: found) _
          exists UInt32.ofNat (Base128.valueOf group) :: later
          constructor
          · rw [laterArcs_of_berGroup read narrowed, read']
            simp
          · rw [List.map_cons, List.map_cons, narrow_eq_ok_iff.mp narrowed, values]

theorem laterArcs_of_flawed (grouped : Base128.Grouped data pieces)
    (flawed : Flawed 0 position pieces flaw) (found : List Arc) :
    laterArcs found ⟨position, data⟩ = .error flaw := by
  induction pieces generalizing data found position with
  | nil => nomatch flawed
  | cons group pieces ih =>
      cases flawed with
      | here first =>
          rw [laterArcs_of_more (ne_nil_of_grouped grouped)]
          rcases berGroup_of_flaw grouped first with refused | ⟨after, read, wide, rfl⟩
          · rw [refused]
            rfl
          · simp only [read, bind, Except.bind, narrow_of_wide wide, Nat.sub_zero]
      | behind first others =>
          obtain ⟨rest, read, behind⟩ := berGroup_of_fits grouped first (by decide) position
          rw [laterArcs_of_berGroup read (first.narrow_eq position)]
          exact ih behind others _

/-- The two arcs of a number that has 32 bits and 80 numbers more. -/
theorem leadingArcs_of_small (small : value < UInt32.size + 80) :
    ∃ first second, leadingArcs value = .ok (first, second) ∧
      [first, second].map UInt32.toNat =
        if value < 80 then [value / 40, value % 40] else [2, value - 80] := by
  by_cases split : value < 80
  · have root : (UInt32.ofNat (value / 40)).toNat = value / 40 :=
      UInt32.toNat_ofNat_of_lt' (by simp only [UInt32.size]; omega)
    have second : (UInt32.ofNat (value % 40)).toNat = value % 40 :=
      UInt32.toNat_ofNat_of_lt' (by simp only [UInt32.size]; omega)
    exists UInt32.ofNat (value / 40), UInt32.ofNat (value % 40)
    rw [leadingArcs, if_pos split, if_pos split, List.map_cons, List.map_singleton, root, second]
    exact ⟨rfl, rfl⟩
  · have narrowed : narrow (value - 80) 0 = .ok (UInt32.ofNat (value - 80)) :=
      narrow_eq_ok_iff.mpr (UInt32.toNat_ofNat_of_lt' (by omega))
    exists 2, UInt32.ofNat (value - 80)
    rw [leadingArcs, if_neg split, if_neg split, narrowed, List.map_cons, List.map_singleton,
      narrow_eq_ok_iff.mp narrowed]
    exact ⟨rfl, rfl⟩

theorem leadingArcs_of_wide (wide : UInt32.size + 80 ≤ value) :
    leadingArcs value = .error (.wideArc (value - 80) 0) := by
  have large : ¬ value < 80 := by omega
  rw [leadingArcs, if_neg large, narrow_of_wide (by omega)]
  rfl

/-- The first group is read apart from the others, which are read up to the end. -/
theorem ofBer_of_filled (filled : data ≠ []) :
    ofBer data = (do
      let (value, after) ← berGroup ⟨0, data⟩
      let (first, second) ← leadingArcs value
      return ⟨← laterArcs [second, first] after⟩) := by
  simp only [ofBer, List.isEmpty_eq_false_iff.mpr filled]
  rfl

theorem ofBer_of_fit (grouped : Base128.Grouped data pieces) (filled : data ≠ [])
    (fit : Fit 80 pieces) :
    ∃ oid, ofBer data = .ok oid ∧
      oid.arcs.map UInt32.toNat = arcValues (pieces.map Base128.valueOf) := by
  cases fit with
  | nil =>
      cases grouped
      contradiction
  | @cons _ group pieces fits others =>
      obtain ⟨rest, read, behind⟩ := berGroup_of_fits grouped fits (Nat.le_refl 80) 0
      obtain ⟨first, second, leads, values⟩ := leadingArcs_of_small fits.small
      obtain ⟨later, read', values'⟩ := laterArcs_of_fit behind others [second, first] (0 + group.length)
      exists ⟨first :: second :: later⟩
      constructor
      · simp only [ofBer_of_filled filled, read, leads, read', bind, Except.bind]
        rfl
      · simp only [List.map_cons, arcValues, ← values, ← values']
        rfl

theorem ofBer_of_flawed (grouped : Base128.Grouped data pieces)
    (flawed : Flawed 80 0 pieces flaw) : ofBer data = .error flaw := by
  cases flawed with
  | here first =>
      rw [ofBer_of_filled (ne_nil_of_grouped grouped)]
      rcases berGroup_of_flaw grouped first with refused | ⟨after, read, wide, rfl⟩
      · rw [refused]
        rfl
      · simp only [read, leadingArcs_of_wide wide, bind, Except.bind]
  | behind first others =>
      obtain ⟨rest, read, behind⟩ := berGroup_of_fits grouped first (Nat.le_refl 80) 0
      obtain ⟨one, two, leads, _⟩ := leadingArcs_of_small first.small
      simp only [ofBer_of_filled (ne_nil_of_grouped grouped), read, leads, bind, Except.bind,
        laterArcs_of_flawed behind others]

theorem groupFits_or_flaw (closed : Base128.Closed group) (spare offset : Nat) :
    GroupFits spare group ∨ ∃ flaw, GroupFlaw spare offset group flaw := by
  by_cases small : Base128.valueOf group < UInt32.size + spare
  · exact .inl ⟨closed, small⟩
  · by_cases room : Base128.valueOf group < UInt64.size
    · exact .inr ⟨_, .wideArc closed room (Nat.not_lt.mp small)⟩
    · exact .inr ⟨_, .overflow (closed.overlong (Nat.not_lt.mp room))⟩

theorem fit_or_flawed (grouped : Base128.Grouped data pieces) (spare offset : Nat) :
    Fit spare pieces ∨ ∃ flaw, Flawed spare offset pieces flaw := by
  induction grouped generalizing spare offset with
  | none => exact .inl .nil
  | @cutOff data _ continued =>
      by_cases overlong : Base128.Overlong 0 data
      · exact .inr ⟨_, .here (.overflow overlong)⟩
      · exact .inr ⟨_, .here (.cutOff continued overlong)⟩
  | @group group rest pieces closed _ ih =>
      rcases groupFits_or_flaw closed spare offset with first | ⟨flaw, first⟩
      · rcases ih 0 (offset + group.length) with others | ⟨flaw, others⟩
        · exact .inl (.cons first others)
        · exact .inr ⟨flaw, .behind first others⟩
      · exact .inr ⟨flaw, .here first⟩

theorem fit_zero_iff :
    Fit 0 pieces ↔ (∀ group ∈ pieces, Base128.Closed group) ∧
      ∀ value ∈ pieces.map Base128.valueOf, value < UInt32.size := by
  induction pieces with
  | nil => simp [Fit.nil]
  | cons group later ih =>
      rw [List.forall_mem_cons, List.map_cons, List.forall_mem_cons]
      constructor
      · intro fit
        cases fit with
        | cons first others =>
            obtain ⟨closed, small⟩ := ih.mp others
            exact ⟨⟨first.closed, closed⟩, first.small, small⟩
      · intro parts
        obtain ⟨⟨closed, others⟩, small, bounded⟩ := parts
        exact .cons ⟨closed, small⟩ (ih.mpr ⟨others, bounded⟩)

theorem berForm_iff_fit : BerForm data ↔ data ≠ [] ∧ Fit 80 (Base128.groups data) := by
  have ends := (Base128.grouped_groups data).closed_iff_ends
  constructor
  · intro formed
    obtain ⟨group, later, split⟩ :=
      List.exists_cons_of_ne_nil (Base128.groups_ne_nil formed.filled)
    obtain ⟨closed, others⟩ := List.forall_mem_cons.mp (split ▸ ends.mpr formed.ends)
    have first := formed.first_le
    have bounded := formed.later_lt
    simp only [Base128.values, split, List.map_cons, List.head?_cons, Option.mem_some_iff,
      List.tail_cons, forall_eq'] at first bounded
    rw [split]
    exact ⟨formed.filled, .cons ⟨closed, by omega⟩ (fit_zero_iff.mpr ⟨others, bounded⟩)⟩
  · intro parts
    obtain ⟨filled, fit⟩ := parts
    obtain ⟨group, later, split⟩ := List.exists_cons_of_ne_nil (Base128.groups_ne_nil filled)
    rw [split] at fit ends
    cases fit with
    | cons first others =>
        obtain ⟨closed, bounded⟩ := fit_zero_iff.mp others
        have whole := ends.mp (List.forall_mem_cons.mpr ⟨first.closed, closed⟩)
        have small := first.small
        have values : Base128.values data =
            Base128.valueOf group :: later.map Base128.valueOf := by
          rw [Base128.values, split, List.map_cons]
        constructor
        · exact filled
        · exact whole
        · rw [values, List.head?_cons]
          intro value found
          cases found
          omega
        · rw [values, List.tail_cons]
          exact bounded

theorem ofBer_of_berForm (formed : BerForm data) :
    ∃ oid, ofBer data = .ok oid ∧
      oid.arcs.map UInt32.toNat = arcValues (Base128.values data) := by
  obtain ⟨filled, fit⟩ := berForm_iff_fit.mp formed
  exact ofBer_of_fit (Base128.grouped_groups data) filled fit

theorem ofBer_of_malformed (malformed : Malformed data flaw) : ofBer data = .error flaw := by
  cases malformed with
  | empty => rfl
  | group flawed => exact ofBer_of_flawed (Base128.grouped_groups data) flawed

theorem berForm_or_malformed (data : Bytes) :
    BerForm data ∨ ∃ flaw, Malformed data flaw := by
  by_cases filled : data = []
  · subst filled
    exact .inr ⟨_, .empty⟩
  · rcases fit_or_flawed (Base128.grouped_groups data) 80 0 with fit | ⟨flaw, flawed⟩
    · exact .inl (berForm_iff_fit.mpr ⟨filled, fit⟩)
    · exact .inr ⟨flaw, .group flawed⟩

theorem arcs_inj {other : Oid} (same : oid.arcs.map UInt32.toNat = other.arcs.map UInt32.toNat) :
    oid = other := by
  cases oid
  cases other
  exact congrArg Oid.mk ((List.map_inj_right fun _ _ => UInt32.toNat.inj).mp same)

theorem ofBer_eq_ok_iff :
    ofBer data = .ok oid ↔
      BerForm data ∧ oid.arcs.map UInt32.toNat = arcValues (Base128.values data) := by
  constructor
  · intro read
    rcases berForm_or_malformed data with formed | ⟨flaw, malformed⟩
    · obtain ⟨other, again, arcs⟩ := ofBer_of_berForm formed
      cases read.symm.trans again
      exact ⟨formed, arcs⟩
    · rw [ofBer_of_malformed malformed] at read
      contradiction
  · intro parts
    obtain ⟨formed, arcs⟩ := parts
    obtain ⟨other, read, arcs'⟩ := ofBer_of_berForm formed
    rw [read, arcs_inj (arcs'.trans arcs.symm)]

theorem ofBer_eq_error_iff : ofBer data = .error flaw ↔ Malformed data flaw := by
  constructor
  · intro refused
    rcases berForm_or_malformed data with formed | ⟨other, malformed⟩
    · obtain ⟨oid, read, _⟩ := ofBer_of_berForm formed
      rw [read] at refused
      contradiction
    · rw [ofBer_of_malformed malformed] at refused
      cases refused
      exact malformed
  · exact ofBer_of_malformed

theorem not_berForm_iff : ¬ BerForm data ↔ ∃ flaw, ofBer data = .error flaw := by
  constructor
  · intro unformed
    rcases berForm_or_malformed data with formed | ⟨flaw, malformed⟩
    · contradiction
    · exact ⟨flaw, ofBer_of_malformed malformed⟩
  · intro refused formed
    obtain ⟨flaw, refused⟩ := refused
    obtain ⟨oid, read, _⟩ := ofBer_of_berForm formed
    rw [read] at refused
    contradiction

/-- Only the numbers of the groups matter, and whether the last of them ends. -/
theorem ofBer_congr {other : Bytes} (filled : data ≠ [] ↔ other ≠ [])
    (ends : Base128.Ends data ↔ Base128.Ends other)
    (same : Base128.values data = Base128.values other) :
    ofBer data = .ok oid ↔ ofBer other = .ok oid := by
  have formed : BerForm data ↔ BerForm other := by
    constructor <;> intro formed
    · exact ⟨filled.mp formed.filled, ends.mp formed.ends, same ▸ formed.first_le,
        same ▸ formed.later_lt⟩
    · exact ⟨filled.mpr formed.filled, ends.mpr formed.ends, same ▸ formed.first_le,
        same ▸ formed.later_lt⟩
  rw [ofBer_eq_ok_iff, ofBer_eq_ok_iff, formed, same]

theorem ofBer_padding {front : Bytes} (ends : Base128.Ends front) (filled : rest ≠ [])
    (count : Nat) :
    ofBer (front ++ (List.replicate count 0x80 ++ rest)) = .ok oid ↔
      ofBer (front ++ rest) = .ok oid := by
  apply ofBer_congr
  · simp [filled]
  · rw [Base128.Ends, Base128.Ends, List.getLast?_append, List.getLast?_append,
      List.getLast?_append, List.getLast?_eq_some_getLast filled]
    rfl
  · rw [Base128.values_append ends, Base128.values_append ends, Base128.values_padding filled]

/-- Exactly the byte strings that fall into whole groups with small enough numbers are read, as the
arcs that these numbers make up.  Any other has the flaw of its first group at fault.  Padding in
front of a group changes nothing. -/
theorem forms_are_read_by_their_numbers (data : Bytes) :
    ((∃ oid, ofBer data = .ok oid) ↔ BerForm data) ∧
    (∀ oid, ofBer data = .ok oid ↔
      BerForm data ∧ oid.arcs.map UInt32.toNat = arcValues (Base128.values data)) ∧
    (¬ BerForm data ↔ ∃ flaw, ofBer data = .error flaw) ∧
    (∀ flaw, ofBer data = .error flaw ↔ Malformed data flaw) ∧
    (∀ front rest count oid, data = front ++ rest → Base128.Ends front → rest ≠ [] →
      (ofBer (front ++ (List.replicate count 0x80 ++ rest)) = .ok oid ↔
        ofBer data = .ok oid)) := by
  have readable : (∃ oid, ofBer data = .ok oid) ↔ BerForm data := by
    constructor
    · intro read
      obtain ⟨oid, read⟩ := read
      exact (ofBer_eq_ok_iff.mp read).1
    · intro formed
      obtain ⟨oid, read, _⟩ := ofBer_of_berForm formed
      exact ⟨oid, read⟩
  constructor
  · exact readable
  · refine ⟨fun _ => ofBer_eq_ok_iff, not_berForm_iff, fun _ => ofBer_eq_error_iff, ?_⟩
    intro front rest count oid split ends filled
    rw [split]
    exact ofBer_padding ends filled count

/-- The largest numbers that the first group and a later one can have, the later one padded. -/
theorem padded_group_is_read_by_its_number :
    let front : Bytes := [0x90, 0x80, 0x80, 0x80, 0x4f]
    let rest : Bytes := [0x8f, 0xff, 0xff, 0xff, 0x7f]
    Base128.Ends front ∧ ofBer (front ++ rest) = .ok ⟨[2, 4294967295, 4294967295]⟩ ∧
      ofBer (front ++ (List.replicate 7 0x80 ++ rest)) = .ok ⟨[2, 4294967295, 4294967295]⟩ := by
  intro front rest
  have ends : Base128.Ends front := by
    intro last found
    cases found
    decide
  have read : ofBer (front ++ rest) = .ok ⟨[2, 4294967295, 4294967295]⟩ := by cbv
  obtain ⟨_, _, _, _, padding⟩ := forms_are_read_by_their_numbers (front ++ rest)
  exact ⟨ends, read, (padding front rest 7 _ rfl ends (List.cons_ne_nil _ _)).mpr read⟩

end CompactOid.Oid
