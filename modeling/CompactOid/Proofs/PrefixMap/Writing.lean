import CompactOid.PrefixMap.Writing
import CompactOid.Proofs.Outcome
import CompactOid.Proofs.PrefixMap.Frame

namespace CompactOid

/-- The identifier has a BER form, and its size fits the length field of a record. -/
def Entry.Storable (entry : Entry) : Prop :=
  ∃ body, entry.oid.toBer = .ok body ∧ body.length < UInt16.size

/-- The frame of an entry; its body is empty where the identifier has no BER form. -/
def Frame.ofEntry (entry : Entry) : Frame :=
  ⟨entry.code, entry.oid.toBer.toOption.getD []⟩

theorem Frame.ofEntry_of_toBer {entry : Entry} {body : Bytes}
    (encoded : entry.oid.toBer = .ok body) : Frame.ofEntry entry = ⟨entry.code, body⟩ := by
  simp [Frame.ofEntry, encoded, Except.toOption]

theorem Entry.storable_iff_of_toBer {entry : Entry} {body : Bytes}
    (encoded : entry.oid.toBer = .ok body) :
    entry.Storable ↔ (Frame.ofEntry entry).body.length < UInt16.size := by
  rw [Frame.ofEntry_of_toBer encoded]
  refine ⟨fun storable => ?_, fun small => ⟨body, encoded, small⟩⟩
  obtain ⟨other, same, small⟩ := storable
  cases encoded.symm.trans same
  exact small

namespace PrefixMap

variable {draft final : Draft} {entry : Entry} {entries : List Entry} {map : Bytes}

theorem add_eq_ok_iff :
    draft.add entry = .ok final ↔
      entry.Storable ∧ draft.size + (Frame.ofEntry entry).size < UInt32.size ∧
      final = ⟨Frame.ofEntry entry :: draft.frames, draft.size + (Frame.ofEntry entry).size⟩ := by
  rw [Draft.add]
  cases encoded : entry.oid.toBer with
  | error rule =>
      refine iff_of_false (by simp) ?_
      intro written
      obtain ⟨body, same, _⟩ := written.1
      rw [encoded] at same
      contradiction
  | ok body =>
      rw [Entry.storable_iff_of_toBer encoded, Frame.ofEntry_of_toBer encoded]
      simp only
      split
      · rename_i long
        exact iff_of_false (by simp) fun ⟨short, _⟩ => absurd short (Nat.not_lt.mpr long)
      · rename_i short
        split
        · rename_i full
          exact iff_of_false (by simp) fun ⟨_, room, _⟩ => absurd room (Nat.not_lt.mpr full)
        · rename_i room
          simp [Nat.lt_of_not_le short, Nat.lt_of_not_le room, eq_comm]

/-- Sizes only grow, so the size that is reached in the end bounds those on the way. -/
theorem foldlM_add_eq_ok_iff (room : draft.size < UInt32.size) :
    entries.foldlM Draft.add draft = .ok final ↔
      (∀ entry ∈ entries, entry.Storable) ∧
      draft.size + Frame.recordsSize (entries.map Frame.ofEntry) < UInt32.size ∧
      final = ⟨(entries.map Frame.ofEntry).reverse ++ draft.frames,
        draft.size + Frame.recordsSize (entries.map Frame.ofEntry)⟩ := by
  induction entries generalizing draft with
  | nil => simp [room, pure, Except.pure, eq_comm]
  | cons entry later ih =>
      rw [List.foldlM_cons, bind_eq_ok_iff]
      simp only [List.map_cons, Frame.recordsSize_cons, ← Nat.add_assoc, List.reverse_cons,
        List.append_assoc, List.singleton_append, List.forall_mem_cons]
      refine ⟨fun drafted => ?_, fun drafted => ?_⟩
      · obtain ⟨next, added, rest⟩ := drafted
        obtain ⟨storable, small, rfl⟩ := add_eq_ok_iff.mp added
        obtain ⟨others, fits, rfl⟩ := (ih small).mp rest
        exact ⟨⟨storable, others⟩, fits, rfl⟩
      · obtain ⟨⟨storable, others⟩, fits, rfl⟩ := drafted
        have small := Nat.lt_of_le_of_lt (Nat.le_add_right _ _) fits
        exact ⟨_, add_eq_ok_iff.mpr ⟨storable, small, rfl⟩, (ih small).mpr ⟨others, fits, rfl⟩⟩

/-- The draft that holds exactly these frames. -/
def Draft.ofFrames (frames : List Frame) : Draft :=
  ⟨frames.reverse, Frame.mapSize frames⟩

theorem Draft.reverse_frames_ofFrames (frames : List Frame) :
    (ofFrames frames).frames.reverse = frames :=
  List.reverse_reverse frames

theorem foldlM_add_empty_iff :
    entries.foldlM Draft.add Draft.empty = .ok draft ↔
      (∀ entry ∈ entries, entry.Storable) ∧
      Frame.mapSize (entries.map Frame.ofEntry) < UInt32.size ∧
      draft = Draft.ofFrames (entries.map Frame.ofEntry) := by
  have start : Draft.empty.size < UInt32.size := by decide
  rw [foldlM_add_eq_ok_iff start]
  simp only [Draft.empty, Draft.ofFrames, Frame.mapSize_eq, List.append_nil]

/-- Each entry takes up more than one byte, so a map that fits does not count too many. -/
theorem length_lt_of_drafted (drafted : entries.foldlM Draft.add Draft.empty = .ok draft) :
    entries.length < UInt32.size := by
  obtain ⟨_, fits, _⟩ := foldlM_add_empty_iff.mp drafted
  have few := Nat.lt_trans (Frame.length_lt_mapSize _) fits
  rwa [List.length_map] at few

theorem write_value (entries : List Entry) :
    (write entries).value =
      (entries.foldlM Draft.add Draft.empty).map fun draft =>
        Frame.mapBytes draft.frames.reverse := by
  rw [write]
  cases drafted : entries.foldlM Draft.add Draft.empty with
  | error fault => rfl
  | ok draft =>
      simp only [if_neg (Nat.not_le.mpr (length_lt_of_drafted drafted))]
      rfl

theorem write_eq_ok_iff :
    (write entries).value = .ok map ↔
      (∀ entry ∈ entries, entry.Storable) ∧
      Frame.mapSize (entries.map Frame.ofEntry) < UInt32.size ∧
      map = Frame.mapBytes (entries.map Frame.ofEntry) := by
  rw [write_value, map_eq_ok_iff]
  constructor
  · intro written
    obtain ⟨draft, drafted, rfl⟩ := written
    obtain ⟨storable, fits, rfl⟩ := foldlM_add_empty_iff.mp drafted
    rw [Draft.reverse_frames_ofFrames]
    exact ⟨storable, fits, rfl⟩
  · intro parts
    obtain ⟨storable, fits, rfl⟩ := parts
    have drafted := foldlM_add_empty_iff.mpr ⟨storable, fits, rfl⟩
    exact ⟨_, drafted, by rw [Draft.reverse_frames_ofFrames]⟩

/-- Leaving entries out never keeps a map from being written. -/
theorem write_of_sublist {kept : List Entry} (part : kept.Sublist entries)
    (written : (write entries).value = .ok map) :
    ∃ shorter, (write kept).value = .ok shorter ∧ shorter.length ≤ map.length := by
  obtain ⟨storable, fits, rfl⟩ := write_eq_ok_iff.mp written
  have smaller : Frame.mapSize (kept.map Frame.ofEntry) ≤
      Frame.mapSize (entries.map Frame.ofEntry) := by
    rw [Frame.mapSize_eq, Frame.mapSize_eq]
    exact Nat.add_le_add_left (Frame.recordsSize_sublist (part.map Frame.ofEntry)) _
  refine ⟨_, write_eq_ok_iff.mpr ⟨fun entry member => storable entry (part.subset member),
    Nat.lt_of_le_of_lt smaller fits, rfl⟩, ?_⟩
  rw [Frame.length_mapBytes, Frame.length_mapBytes]
  exact smaller

end PrefixMap

end CompactOid
