import CompactOid.Proofs.Oid.Canonical
import CompactOid.Proofs.PrefixMap.Canonical
import CompactOid.Proofs.PrefixMap.Filling
import CompactOid.Proofs.PrefixMap.Trailing
import Mathlib.Algebra.Ring.Nat

namespace CompactOid

/-- The size of a map with these entries, those without a form counted with an empty one. -/
def spannedSize (entries : List Entry) : Nat :=
  8 + (entries.map fun entry => 4 + (Frame.ofEntry entry).body.length).sum

/-- Behind the entries before it, the entry is refused with this fault. -/
inductive Entry.Misfit (before : List Entry) (entry : Entry) : Fault → Prop where
  | unencodable {rule : ArcRule} (broken : entry.oid.Breaks rule) :
      Misfit before entry (.invalidArcs rule)
  | longOid {body : Bytes} (encoded : entry.oid.toBer = .ok body) (long : 65535 < body.length) :
      Misfit before entry (.invalidEntry before.length (.longOid body.length))
  | longMap {body : Bytes} (encoded : entry.oid.toBer = .ok body) (short : body.length ≤ 65535)
      (full : 4294967295 < spannedSize (before ++ [entry])) :
      Misfit before entry (.invalidEntry before.length .longMap)

/-- Each entry fits behind those before it. -/
def FitTogether (entries : List Entry) : Prop :=
  ∀ before entry later fault, entries = before ++ entry :: later → ¬ entry.Misfit before fault

variable {entries before : List Entry} {entry : Entry} {fault : Fault}

theorem spannedSize_eq (entries : List Entry) :
    spannedSize entries = Frame.mapSize (entries.map Frame.ofEntry) := by
  rw [spannedSize, Frame.mapSize_eq, Frame.mapHeaderSize, Nat.add_left_cancel_iff]
  induction entries with
  | nil => rfl
  | cons entry later ih =>
      rw [List.map_cons, List.sum_cons, ih, List.map_cons, Frame.recordsSize_cons, Frame.size,
        Frame.headerSize]

namespace PrefixMap

variable {draft : Draft} {map : Bytes}

theorem size_ofFrames_add (before : List Entry) (entry : Entry) :
    (Draft.ofFrames (before.map Frame.ofEntry)).size + (Frame.ofEntry entry).size =
      spannedSize (before ++ [entry]) := by
  rw [spannedSize_eq, Draft.ofFrames, Frame.mapSize_eq, Frame.mapSize_eq, List.map_append,
    Frame.recordsSize_append, Nat.add_assoc]
  rfl

/-- What one step refuses. -/
theorem add_ofFrames_eq_error_iff :
    (Draft.ofFrames (before.map Frame.ofEntry)).add entry = .error fault ↔
      entry.Misfit before fault := by
  have index : (Draft.ofFrames (before.map Frame.ofEntry)).frames.length = before.length := by
    rw [Draft.ofFrames, List.length_reverse, List.length_map]
  have size := size_ofFrames_add before entry
  constructor
  · intro refused
    rw [Draft.add] at refused
    split at refused
    · rename_i rule unencodable
      cases refused
      exact .unencodable (Oid.toBer_eq_error_iff.mp unencodable)
    · rename_i body encoded
      rw [Frame.ofEntry_of_toBer encoded] at size
      simp only [index, size] at refused
      split at refused
      · rename_i long
        cases refused
        exact .longOid encoded long
      · rename_i short
        split at refused
        · rename_i full
          cases refused
          exact .longMap encoded (Nat.le_of_lt_succ (Nat.lt_of_not_le short)) full
        · contradiction
  · intro misfit
    cases misfit with
    | unencodable broken => rw [Draft.add, Oid.toBer_of_breaks broken]
    | @longOid body encoded long =>
        have large : UInt16.size ≤ body.length := long
        simp only [Draft.add, encoded, index, if_pos large]
    | @longMap body encoded short full =>
        have small : ¬ UInt16.size ≤ body.length := Nat.not_le.mpr (Nat.lt_succ_of_le short)
        have wide : UInt32.size ≤ spannedSize (before ++ [entry]) := full
        rw [Frame.ofEntry_of_toBer encoded] at size
        simp only [Draft.add, encoded, index, size, if_neg small, if_pos wide]

/-- Taking in all entries fails with the fault of the first misfit. -/
theorem foldlM_add_eq_error_iff :
    entries.foldlM Draft.add Draft.empty = .error fault ↔
      ∃ before bad later, entries = before ++ bad :: later ∧
        (∃ draft, before.foldlM Draft.add Draft.empty = .ok draft) ∧ bad.Misfit before fault := by
  rw [foldlM_eq_error_iff]
  constructor
  · intro failed
    obtain ⟨before, bad, later, draft, divided, drafted, refused⟩ := failed
    obtain ⟨_, _, rfl⟩ := foldlM_add_empty_iff.mp drafted
    exact ⟨before, bad, later, divided, ⟨_, drafted⟩, add_ofFrames_eq_error_iff.mp refused⟩
  · intro failed
    obtain ⟨before, bad, later, divided, ⟨draft, drafted⟩, misfit⟩ := failed
    obtain ⟨_, _, same⟩ := foldlM_add_empty_iff.mp drafted
    rw [same] at drafted
    exact ⟨before, bad, later, _, divided, drafted, add_ofFrames_eq_error_iff.mpr misfit⟩

theorem drafted_iff_fitTogether :
    (∃ draft, entries.foldlM Draft.add Draft.empty = .ok draft) ↔ FitTogether entries := by
  constructor
  · intro ⟨draft, drafted⟩ before entry later fault divided misfit
    have passed := drafted
    rw [divided, List.foldlM_append] at passed
    obtain ⟨reached, front, _⟩ := bind_eq_ok_iff.mp passed
    have refused := foldlM_add_eq_error_iff.mpr ⟨before, entry, later, divided, ⟨_, front⟩, misfit⟩
    rw [drafted] at refused
    contradiction
  · intro fits
    cases drafted : entries.foldlM Draft.add Draft.empty with
    | ok draft => exact ⟨draft, rfl⟩
    | error fault =>
        obtain ⟨before, bad, later, divided, _, misfit⟩ := foldlM_add_eq_error_iff.mp drafted
        exact absurd misfit (fits before bad later fault divided)

theorem write_eq_error_iff :
    (write entries).value = .error fault ↔
      ∃ before bad later, entries = before ++ bad :: later ∧ FitTogether before ∧
        bad.Misfit before fault := by
  have drafting : (write entries).value = .error fault ↔
      entries.foldlM Draft.add Draft.empty = .error fault := by
    rw [write_value]
    cases entries.foldlM Draft.add Draft.empty <;> simp [Except.map]
  simp only [drafting, foldlM_add_eq_error_iff, drafted_iff_fitTogether]

theorem write_ok_iff_fitTogether :
    (∃ map, (write entries).value = .ok map) ↔ FitTogether entries := by
  rw [← drafted_iff_fitTogether, write_value]
  cases entries.foldlM Draft.add Draft.empty <;> simp [Except.map]

theorem header_of_write (written : (write entries).value = .ok map) :
    map.length = spannedSize entries ∧ LittleEndian.decode (map.take 4) = entries.length ∧
      Frame.declaredSize map = map.length := by
  obtain ⟨cut, length⟩ := cut_of_write written
  have count : LittleEndian.decode (map.take 4) = (entries.map Frame.ofEntry).length := by
    rw [cut.take_count]
    exact LittleEndian.decode_encode cut.count_lt
  rw [List.length_map] at count
  rw [spannedSize_eq, length, cut.declaredSize_eq]
  exact ⟨rfl, count, rfl⟩

/-- A draft of all entries fills its buffer up to the end. -/
theorem fill_of_drafted (drafted : entries.foldlM Draft.add Draft.empty = .ok draft) :
    ∃ buffer, draft.fill = (.ok (), buffer) ∧ buffer.offset = buffer.bytes.length ∧
      (write entries).value = .ok buffer.bytes := by
  obtain ⟨_, _, same⟩ := foldlM_add_empty_iff.mp drafted
  have written : (write entries).value = .ok (Frame.mapBytes (entries.map Frame.ofEntry)) := by
    rw [write_value, drafted, same, Except.map, Draft.reverse_frames_ofFrames]
  rw [same, Draft.fill_ofFrames]
  exact ⟨_, rfl, (Frame.length_mapBytes _).symm, written⟩

/-- A map is written unless an entry does not fit, and of those that do not the first decides the
fault.  The buffer has the size that the header tells and is filled up to its end, so neither the
number of entries nor a byte out of bounds is ever the fault. -/
theorem first_misfit_decides_the_fault (entries : List Entry) :
    ((∃ map, (write entries).value = .ok map) ↔ FitTogether entries) ∧
    (∀ map, (write entries).value = .ok map → map.length = spannedSize entries ∧
      LittleEndian.decode (map.take 4) = entries.length ∧
      Frame.declaredSize map = map.length) ∧
    (∀ fault, (write entries).value = .error fault ↔
      ∃ before bad later, entries = before ++ bad :: later ∧ FitTogether before ∧
        bad.Misfit before fault) ∧
    (∀ fault, (write entries).value = .error fault →
      fault ≠ .outOfBounds ∧ ∀ index, fault ≠ .invalidEntry index .tooManyEntries) ∧
    writeInPlace entries = write entries ∧
    ∀ draft, entries.foldlM Draft.add Draft.empty = .ok draft →
      ∃ buffer, draft.fill = (.ok (), buffer) ∧ buffer.offset = buffer.bytes.length ∧
        (write entries).value = .ok buffer.bytes := by
  have causes : ∀ fault, (write entries).value = .error fault →
      fault ≠ .outOfBounds ∧ ∀ index, fault ≠ .invalidEntry index .tooManyEntries := by
    intro fault refused
    obtain ⟨_, _, _, _, _, misfit⟩ := write_eq_error_iff.mp refused
    cases misfit <;> simp
  exact ⟨write_ok_iff_fitTogether, fun _ => header_of_write, fun _ => write_eq_error_iff, causes,
    writeInPlace_eq_write entries, fun _ => fill_of_drafted⟩

/-- The second entry decides, though the third one has no form either. -/
example :
    let entries : List Entry := [⟨0x7000, ⟨[1, 2]⟩⟩, ⟨0x7001, ⟨[3, 1]⟩⟩, ⟨0x7002, ⟨[]⟩⟩]
    (write entries).value = .error (.invalidArcs (.unknownRoot 3)) := by
  decide +kernel

end PrefixMap

end CompactOid
