import CompactOid.Proofs.Outcome
import CompactOid.Proofs.PrefixMap.Reading

namespace CompactOid

/-- What stands in the log. -/
structure Line where
  level : Level
  text : String
deriving DecidableEq, Repr

def Event.line (event : Event) : Line :=
  ⟨event.level, event.message⟩

def Logged.lines {α : Type} (logged : Logged α) : List Line :=
  logged.events.map Event.line

namespace PrefixMap

variable {config : Config} {data rest : Bytes} {frame bad : Frame} {entry : Entry}
  {entries : List Entry} {frames good later : List Frame} {flaw : EntryFlaw} {fault : Fault}
  {declared : Nat}

/-- The entry of one record, which is reported if there is one. -/
def readRecord (index : Nat) (frame : Frame) : Logged (Except Fault Entry) :=
  match entryOf index frame with
  | .ok entry => ⟨.ok entry, [.recordRead index entry]⟩
  | .error fault => .silent (.error fault)

/-- Reads one record after the other, from an index on and up to the first fault. -/
def readRecords : Nat → List Frame → Logged (Except Fault (List Entry))
  | _, [] => .silent (.ok [])
  | index, frame :: later =>
      (readRecord index frame).andThen fun entry =>
        (readRecords (index + 1) later).map fun result => result.map (entry :: ·)

/-- The reports on entries that are found from an index on. -/
def recordsFrom (index : Nat) (entries : List Entry) : List Event :=
  entries.mapIdx fun place entry => .recordRead (index + place) entry

theorem recordsFrom_cons (index : Nat) (entry : Entry) (later : List Entry) :
    recordsFrom index (entry :: later) =
      .recordRead index entry :: recordsFrom (index + 1) later := by
  simp only [recordsFrom, List.mapIdx_cons, Nat.add_zero, Nat.add_assoc, Nat.add_comm 1]

theorem recordsFrom_zero (entries : List Entry) :
    recordsFrom 0 entries = entries.mapIdx Event.recordRead := by
  simp only [recordsFrom, Nat.zero_add]

theorem readRecord_of_holds (holds : frame.Holds entry) (index : Nat) :
    readRecord index frame = ⟨.ok entry, [.recordRead index entry]⟩ := by
  rw [readRecord, Frame.entryOf_of_holds holds]

theorem readRecord_of_flawed (flawed : bad.Flawed flaw) (index : Nat) :
    readRecord index bad = ⟨.error (.invalidEntry index flaw), []⟩ := by
  rw [readRecord, Frame.entryOf_of_flawed flawed]
  rfl

theorem readRecords_of_holds (holds : List.Forall₂ Frame.Holds frames entries) (index : Nat) :
    readRecords index frames = ⟨.ok entries, recordsFrom index entries⟩ := by
  induction holds generalizing index with
  | nil => rfl
  | cons first _ ih =>
      rw [readRecords, readRecord_of_holds first, ih, recordsFrom_cons]
      rfl

theorem readRecords_of_flawed (holds : List.Forall₂ Frame.Holds good entries)
    (flawed : bad.Flawed flaw) (index : Nat) :
    readRecords index (good ++ bad :: later) =
      ⟨.error (.invalidEntry (index + good.length) flaw), recordsFrom index entries⟩ := by
  induction holds generalizing index with
  | nil =>
      rw [List.nil_append, readRecords, readRecord_of_flawed flawed]
      rfl
  | @cons frame entry good entries first _ ih =>
      rw [List.cons_append, readRecords, readRecord_of_holds first, ih, recordsFrom_cons,
        List.length_cons, Nat.add_comm good.length, ← Nat.add_assoc]
      rfl

/-- The reports come in the order of the records, and the summary at the end of them. -/
theorem read_eq_readRecords (framed : Frame.ofMap config data = .ok frames) :
    read config data = (readRecords 0 frames).andThen fun entries =>
      ⟨.ok entries, [.mapRead entries.length (Frame.mapSize frames)]⟩ := by
  rw [read, framed]
  obtain ⟨entries, holds⟩ | ⟨good, bad, later, entries, flaw, rfl, holds, flawed⟩ :=
    holds_or_flawed frames
  · simp only [untilFault_of_holds holds, readRecords_of_holds holds, recordsFrom_zero,
      Logged.andThen, Logged.bind]
  · simp only [untilFault_of_flawed holds flawed, readRecords_of_flawed holds flawed,
      recordsFrom_zero, Nat.zero_add]
    rw [Logged.andThen_of_error rfl]

theorem read_of_accepted (framed : Frame.ofMap config data = .ok frames)
    (holds : List.Forall₂ Frame.Holds frames entries) :
    read config data =
      ⟨.ok entries, recordsFrom 0 entries ++ [.mapRead entries.length (Frame.mapSize frames)]⟩ := by
  rw [read_eq_readRecords framed, readRecords_of_holds holds, Logged.andThen_of_ok rfl]

theorem read_of_flawed (framed : Frame.ofMap config data = .ok (good ++ bad :: later))
    (holds : List.Forall₂ Frame.Holds good entries) (flawed : bad.Flawed flaw) :
    read config data = ⟨.error (.invalidEntry good.length flaw), recordsFrom 0 entries⟩ := by
  rw [read_eq_readRecords framed, readRecords_of_flawed holds flawed, Logged.andThen_of_error rfl,
    Nat.zero_add]

/-- A map that is not cut into frames is not reported on. -/
theorem read_of_unframed (unframed : Frame.ofMap config data = .error fault) :
    read config data = ⟨.error fault, []⟩ := by
  rw [read, unframed]
  rfl

/-- The line on an entry, with its number, its code and its identifier. -/
def recordLine (index : Nat) (entry : Entry) : Line :=
  ⟨.trace, s!"prefixMap record #{Decimal.text index}: {Code.text entry.code} => {entry.oid.text}"⟩

/-- The line on a whole map, with the number of its entries and the size of its records. -/
def summaryLine (count size : Nat) : Line :=
  ⟨.debug, s!"parsed prefixMap with {Decimal.text count} entries ({Decimal.text size} bytes)"⟩

theorem line_recordRead (index : Nat) (entry : Entry) :
    (Event.recordRead index entry).line = recordLine index entry := by
  have text : (Event.recordRead index entry).message =
      "prefixMap record #" ++ Decimal.text index ++ ": " ++
        (Code.text entry.code ++ " => " ++ entry.oid.text) := rfl
  rw [← String.append_assoc, ← String.append_assoc] at text
  exact congrArg (Line.mk .trace) text

example : recordLine 1 ⟨8, ⟨[2, 5, 4]⟩⟩ = ⟨.trace, "prefixMap record #1: 0x0008 => 2.5.4"⟩ := by
  decide +kernel

theorem line_mapRead (count size : Nat) :
    (Event.mapRead count size).line = summaryLine count size := rfl

theorem lines_recordsFrom_zero (entries : List Entry) :
    (recordsFrom 0 entries).map Event.line = entries.mapIdx recordLine := by
  apply List.ext_getElem?
  intro index
  rw [recordsFrom_zero, List.getElem?_map, List.getElem?_mapIdx, List.getElem?_mapIdx,
    Option.map_map]
  exact congrArg (Option.map · entries[index]?) (funext (line_recordRead index))

/-- The summary counts the entries and the bytes of the records, also if more follow them. -/
theorem lines_of_entries (told : (read config data).value = .ok entries) :
    ∃ declared frames rest, Frame.Cut data frames.length declared frames rest ∧
      List.Forall₂ Frame.Holds frames entries ∧
      (read config data).lines = entries.mapIdx recordLine ++
        [summaryLine entries.length (8 + Frame.recordsSize frames)] := by
  cases verdict_of_read told with
  | @accepted declared frames rest _ cut agree holds =>
      have framed := Frame.ofMap_eq_ok_iff.mpr ⟨declared, rest, cut, agree⟩
      have lines : (read config data).lines = entries.mapIdx recordLine ++
          [summaryLine entries.length (8 + Frame.recordsSize frames)] := by
        rw [Logged.lines, read_of_accepted framed holds, List.map_append, lines_recordsFrom_zero,
          List.map_singleton, line_mapRead, Frame.mapSize_eq, Frame.mapHeaderSize]
      exact ⟨declared, frames, rest, cut, holds, lines⟩

/-- In front of a bad record all records hold entries, and these are reported. -/
theorem lines_of_invalidEntry {index : Nat}
    (told : (read config data).value = .error (.invalidEntry index flaw)) :
    ∃ declared frames rest entries, Frame.Cut data frames.length declared frames rest ∧
      index < frames.length ∧ List.Forall₂ Frame.Holds (frames.take index) entries ∧
      (read config data).lines = entries.mapIdx recordLine := by
  cases verdict_of_read told with
  | @flawed declared good later bad rest entries _ cut agree holds flawed =>
      have framed := Frame.ofMap_eq_ok_iff.mpr ⟨declared, rest, cut, agree⟩
      have inside : good.length < (good ++ bad :: later).length := by
        rw [List.length_append, List.length_cons]
        omega
      have lines : (read config data).lines = entries.mapIdx recordLine := by
        rw [Logged.lines, read_of_flawed framed holds flawed, lines_recordsFrom_zero]
      have front : List.Forall₂ Frame.Holds ((good ++ bad :: later).take good.length) entries := by
        rwa [List.take_left]
      exact ⟨declared, good ++ bad :: later, rest, entries, cut, inside, front, lines⟩

theorem lines_of_truncatedMap {truncation : Truncation}
    (told : (read config data).value = .error (.truncatedMap truncation)) :
    (read config data).lines = [] := by
  cases verdict_of_read told with
  | truncated truncated =>
      rw [Logged.lines, read_of_unframed (Frame.ofMap_of_truncated config truncated), List.map_nil]

theorem lines_of_lengthMismatch {declared spanned available : Nat}
    (told : (read config data).value = .error (.lengthMismatch declared spanned available)) :
    (read config data).lines = [] := by
  cases verdict_of_read told with
  | @mismatched declared frames _ cut disagree =>
      have unframed : Frame.ofMap config data =
          .error (.lengthMismatch declared (Frame.mapSize frames) data.length) := by
        rw [Frame.ofMap_of_cut config cut, if_neg (mt Frame.lengthsAgree_iff.mp disagree)]
      rw [Logged.lines, read_of_unframed unframed, List.map_nil]

end PrefixMap

end CompactOid
