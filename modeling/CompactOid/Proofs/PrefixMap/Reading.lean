import CompactOid.PrefixMap.Reading
import CompactOid.Proofs.Oid.Ber
import CompactOid.Proofs.PrefixMap.Framing
import CompactOid.Proofs.PrefixMap.Writing
import Mathlib.Data.List.Forall2

namespace CompactOid

/-! What is told of a map, whatever is wrong with it.

A `Verdict` is justified by a division of the data into header, records and the
bytes behind them.  A map that is wrong in several ways has the verdict of the
first of them: that it is truncated, that its lengths disagree, that a record
does not hold an entry.
-/

namespace Frame

variable {frame : Frame} {entry : Entry} {index : Nat} {fault : Fault}

/-- The body is a BER form, padded or not, of the identifier. -/
structure Holds (frame : Frame) (entry : Entry) : Prop where
  code_eq : entry.code = frame.code
  decoded : Oid.ofBer frame.body = .ok entry.oid

inductive Flawed (frame : Frame) : EntryFlaw → Prop where
  | empty (blank : frame.body = []) : Flawed frame (.emptyOid frame.code)
  | malformed {flaw : BerFlaw} (filled : frame.body ≠ [])
      (refused : Oid.ofBer frame.body = .error flaw) :
      Flawed frame (.malformedOid frame.code flaw)

theorem Holds.filled (holds : frame.Holds entry) : frame.body ≠ [] := by
  intro blank
  have decoded := holds.decoded
  rw [blank] at decoded
  contradiction

theorem entryOf_of_holds (holds : frame.Holds entry) :
    PrefixMap.entryOf index frame = .ok entry := by
  have filled : frame.body.isEmpty = false := List.isEmpty_eq_false_iff.mpr holds.filled
  simp only [PrefixMap.entryOf, filled, holds.decoded, ← holds.code_eq]
  rfl

theorem entryOf_of_flawed {flaw : EntryFlaw} (flawed : frame.Flawed flaw) :
    PrefixMap.entryOf index frame = .error (.invalidEntry index flaw) := by
  cases flawed with
  | empty blank => simp [PrefixMap.entryOf, blank]
  | malformed filled refused => simp [PrefixMap.entryOf, filled, refused]

theorem holds_or_flawed (frame : Frame) :
    (∃ entry, frame.Holds entry) ∨ ∃ flaw, frame.Flawed flaw := by
  by_cases blank : frame.body = []
  · exact .inr ⟨_, .empty blank⟩
  · cases decoded : Oid.ofBer frame.body with
    | ok oid => exact .inl ⟨⟨frame.code, oid⟩, rfl, decoded⟩
    | error flaw => exact .inr ⟨_, .malformed blank decoded⟩

theorem storable_of_holds (holds : frame.Holds entry)
    (short : frame.body.length < UInt16.size) : entry.Storable := by
  obtain ⟨body, encoded, bounded, _⟩ := Oid.toBer_of_ofBer holds.decoded
  exact ⟨body, encoded, Nat.lt_of_le_of_lt bounded short⟩

end Frame

namespace PrefixMap

variable {config : Config} {data rest : Bytes} {entries : List Entry} {frames good later : List Frame}
  {bad : Frame} {flaw : EntryFlaw} {outcome : Except Fault (List Entry)}

theorem mapIdx_entryOf (holds : List.Forall₂ Frame.Holds frames entries) :
    frames.mapIdx entryOf = entries.map .ok := by
  refine List.ext_getElem (by simp [holds.length_eq]) ?_
  intro index left right
  rw [List.getElem_mapIdx, List.getElem_map]
  exact Frame.entryOf_of_holds (holds.get (by simpa using left) (by simpa using right))

theorem untilFault_append {α ε : Type} (values : List α) (results : List (Except ε α)) :
    untilFault (values.map .ok ++ results) =
      (values ++ (untilFault results).1, (untilFault results).2) := by
  induction values with
  | nil => rfl
  | cons value later ih =>
      rw [List.map_cons, List.cons_append, untilFault, List.foldr_cons, ← untilFault, ih]
      rfl

theorem untilFault_of_holds (holds : List.Forall₂ Frame.Holds frames entries) :
    untilFault (frames.mapIdx entryOf) = (entries, none) := by
  rw [mapIdx_entryOf holds, ← List.append_nil (entries.map _), untilFault_append]
  simp [untilFault]

theorem untilFault_of_flawed (holds : List.Forall₂ Frame.Holds good entries)
    (flawed : bad.Flawed flaw) :
    untilFault ((good ++ bad :: later).mapIdx entryOf) =
      (entries, some (.invalidEntry good.length flaw)) := by
  rw [List.mapIdx_append, mapIdx_entryOf holds, untilFault_append, List.mapIdx_cons, Nat.zero_add,
    Frame.entryOf_of_flawed flawed]
  simp [untilFault]

/-- Reading goes on to the first record that does not hold an entry. -/
theorem holds_or_flawed (frames : List Frame) :
    (∃ entries, List.Forall₂ Frame.Holds frames entries) ∨
      ∃ good bad later entries flaw, frames = good ++ bad :: later ∧
        List.Forall₂ Frame.Holds good entries ∧ bad.Flawed flaw := by
  induction frames with
  | nil => exact .inl ⟨[], .nil⟩
  | cons frame later ih =>
      obtain ⟨entry, first⟩ | ⟨flaw, flawed⟩ := frame.holds_or_flawed
      · obtain ⟨entries, others⟩ | ⟨good, bad, behind, entries, flaw, rfl, others, flawed⟩ := ih
        · exact .inl ⟨entry :: entries, .cons first others⟩
        · exact .inr ⟨frame :: good, bad, behind, entry :: entries, flaw, rfl,
            .cons first others, flawed⟩
      · exact .inr ⟨[], frame, later, [], flaw, rfl, .nil, flawed⟩

/-- What is told of a map, with the reason. -/
inductive Verdict (config : Config) (data : Bytes) : Except Fault (List Entry) → Prop where
  /-- The data end inside the header or inside a record that the header counts. -/
  | truncated {truncation : Truncation} (truncated : Frame.Truncated data truncation) :
      Verdict config data (.error (.truncatedMap truncation))
  /-- All records are there, but they do not end where they should. -/
  | mismatched {declared : Nat} {frames : List Frame} {rest : Bytes}
      (cut : Frame.Cut data frames.length declared frames rest)
      (disagree : ¬ Frame.Agree config declared (Frame.mapSize frames) data.length) :
      Verdict config data (.error (.lengthMismatch declared (Frame.mapSize frames) data.length))
  /-- The lengths agree, and this is the first record that does not hold an entry. -/
  | flawed {declared : Nat} {good later : List Frame} {bad : Frame} {rest : Bytes}
      {entries : List Entry} {flaw : EntryFlaw}
      (cut : Frame.Cut data (good ++ bad :: later).length declared (good ++ bad :: later) rest)
      (agree : Frame.Agree config declared (Frame.mapSize (good ++ bad :: later)) data.length)
      (holds : List.Forall₂ Frame.Holds good entries) (flawed : bad.Flawed flaw) :
      Verdict config data (.error (.invalidEntry good.length flaw))
  /-- The lengths agree, and each record in turn holds one of the entries. -/
  | accepted {declared : Nat} {frames : List Frame} {rest : Bytes} {entries : List Entry}
      (cut : Frame.Cut data frames.length declared frames rest)
      (agree : Frame.Agree config declared (Frame.mapSize frames) data.length)
      (holds : List.Forall₂ Frame.Holds frames entries) :
      Verdict config data (.ok entries)

theorem verdict_exists (config : Config) (data : Bytes) :
    ∃ outcome, Verdict config data outcome := by
  obtain ⟨declared, frames, rest, cut⟩ | ⟨truncation, truncated⟩ := Frame.cut_or_truncated data
  · by_cases agree : Frame.Agree config declared (Frame.mapSize frames) data.length
    · obtain ⟨entries, holds⟩ | ⟨good, bad, later, entries, flaw, rfl, holds, flawed⟩ :=
        holds_or_flawed frames
      · exact ⟨_, .accepted cut agree holds⟩
      · exact ⟨_, .flawed cut agree holds flawed⟩
    · exact ⟨_, .mismatched cut agree⟩
  · exact ⟨_, .truncated truncated⟩

theorem read_of_verdict (verdict : Verdict config data outcome) :
    (read config data).value = outcome := by
  cases verdict with
  | truncated truncated =>
      rw [read, Frame.ofMap_of_truncated config truncated]
      rfl
  | mismatched cut disagree =>
      rw [read, Frame.ofMap_of_cut config cut, if_neg (mt Frame.lengthsAgree_iff.mp disagree)]
      rfl
  | flawed cut agree holds flawed =>
      rw [read, Frame.ofMap_of_cut config cut, if_pos (Frame.lengthsAgree_iff.mpr agree)]
      simp only [untilFault_of_flawed holds flawed]
  | accepted cut agree holds =>
      rw [read, Frame.ofMap_of_cut config cut, if_pos (Frame.lengthsAgree_iff.mpr agree)]
      simp only [untilFault_of_holds holds]

theorem verdict_of_read (read : (read config data).value = outcome) :
    Verdict config data outcome := by
  obtain ⟨told, verdict⟩ := verdict_exists config data
  rwa [← read, read_of_verdict verdict]

/-- Reading tells the one verdict that the data justify. -/
theorem read_eq_iff_verdict (config : Config) (data : Bytes) (outcome : Except Fault (List Entry)) :
    (read config data).value = outcome ↔ Verdict config data outcome :=
  ⟨verdict_of_read, read_of_verdict⟩

/-- What is told of a map once its records are found and the lengths agree. -/
inductive OfRecords : Except Fault (List Entry) → Prop where
  | entries (entries : List Entry) : OfRecords (.ok entries)
  | flawed (index : Nat) (flaw : EntryFlaw) : OfRecords (.error (.invalidEntry index flaw))

theorem ofMap_of_ofRecords (told : (read config data).value = outcome)
    (records : OfRecords outcome) : ∃ frames, Frame.ofMap config data = .ok frames := by
  cases verdict_of_read told with
  | truncated => nomatch records
  | mismatched => nomatch records
  | flawed cut agree => exact ⟨_, Frame.ofMap_eq_ok_iff.mpr ⟨_, _, cut, agree⟩⟩
  | accepted cut agree => exact ⟨_, Frame.ofMap_eq_ok_iff.mpr ⟨_, _, cut, agree⟩⟩

theorem storable_of_cut {count declared : Nat}
    (cut : Frame.Cut data count declared frames rest)
    (holds : List.Forall₂ Frame.Holds frames entries) : ∀ entry ∈ entries, entry.Storable := by
  intro entry member
  obtain ⟨index, bound, rfl⟩ := List.getElem_of_mem member
  have held := holds.get (by rw [holds.length_eq]; exact bound) bound
  exact Frame.storable_of_holds held (cut.bodies_lt _ (List.get_mem _ _))

theorem read_storable (read : (read config data).value = .ok entries) :
    ∀ entry ∈ entries, entry.Storable := by
  cases verdict_of_read read with
  | accepted cut _ holds => exact storable_of_cut cut holds

end PrefixMap

end CompactOid
