import CompactOid.Proofs.PrefixMap.Reporting
import CompactOid.Proofs.Table.Repeats
import CompactOid.Publication

namespace CompactOid

namespace Table

variable {config : Config} {data : Bytes} {entries : List Entry} {fault : Fault}

theorem ofMap_of_read (told : (PrefixMap.read config data).value = .ok entries) :
    ofMap config data = ⟨.ok (ofEntries entries).value,
      (PrefixMap.read config data).events ++ (ofEntries entries).events⟩ := by
  rw [ofMap, Logged.andThen_of_ok told]
  rfl

theorem ofMap_of_unread (told : (PrefixMap.read config data).value = .error fault) :
    ofMap config data = ⟨.error fault, (PrefixMap.read config data).events⟩ := by
  rw [ofMap, Logged.andThen_of_error told]

theorem size_ofEntries (entries : List Entry) :
    (ofEntries entries).value.size = (firstOfEachCode entries).length := by
  rw [size, ← Array.length_toList, entries_ofEntries]

theorem warn_of_mem_lines {line : Line} (told : line ∈ (ofEntries entries).lines) :
    line.level = .warn := by
  rw [Logged.lines, events_ofEntries] at told
  obtain ⟨event, remarked, rfl⟩ := List.mem_map.mp told
  exact level_of_mem_remarksOn remarked

end Table

namespace Publication

variable {publication : Publication} {data : Bytes} {entries : List Entry} {fault : Fault}

theorem reload_of_read (told : (PrefixMap.read publication.config data).value = .ok entries) :
    publication.reload data =
      ⟨(.ok (), ⟨publication.config, (Table.ofEntries entries).value⟩),
        (PrefixMap.read publication.config data).events ++ (Table.ofEntries entries).events ++
          [.tablePublished (firstOfEachCode entries).length]⟩ := by
  simp only [reload, Logged.bind, Table.ofMap_of_read told, publish, Logged.map,
    Table.size_ofEntries]

theorem reload_of_unread
    (told : (PrefixMap.read publication.config data).value = .error fault) :
    publication.reload data =
      ⟨(.error fault, publication), (PrefixMap.read publication.config data).events⟩ := by
  simp only [reload, Logged.bind, Table.ofMap_of_unread told, Logged.silent, List.append_nil]

/-- The line on a table that is published, with the number of its entries. -/
def publishedLine (count : Nat) : Line :=
  ⟨.debug, s!"publishing prefix table with {Decimal.text count} custom entries"⟩

theorem line_tablePublished (count : Nat) :
    (Event.tablePublished count).line = publishedLine count := rfl

/-- The log of a reading tells its outcome: a line for each entry in turn, up to the first bad
record, and the summary only of a map that is good as a whole.  A reload adds the remarks on the
entries and the line on the table that it publishes, or nothing if it fails. -/
theorem log_mirrors_outcome (publication : Publication) (data : Bytes) :
    let reading := PrefixMap.read publication.config data
    let reloading := publication.reload data
    (∀ entries, reading.value = .ok entries →
      ∃ declared frames rest, Frame.Cut data frames.length declared frames rest ∧
        List.Forall₂ Frame.Holds frames entries ∧
        reading.lines = entries.mapIdx PrefixMap.recordLine ++
          [PrefixMap.summaryLine entries.length (8 + Frame.recordsSize frames)]) ∧
    (∀ index flaw, reading.value = .error (.invalidEntry index flaw) →
      ∃ declared frames rest entries, Frame.Cut data frames.length declared frames rest ∧
        index < frames.length ∧ List.Forall₂ Frame.Holds (frames.take index) entries ∧
        reading.lines = entries.mapIdx PrefixMap.recordLine) ∧
    (∀ truncation, reading.value = .error (.truncatedMap truncation) → reading.lines = []) ∧
    (∀ declared spanned available,
      reading.value = .error (.lengthMismatch declared spanned available) → reading.lines = []) ∧
    (∀ entries, reading.value = .ok entries →
      (∀ line ∈ (Table.ofEntries entries).lines, line.level = .warn) ∧
      reloading.lines = reading.lines ++ (Table.ofEntries entries).lines ++
        [publishedLine (firstOfEachCode entries).length] ∧
      ∃ published, reloading.value = (.ok (), published) ∧
        published.current.entries.toList = firstOfEachCode entries) ∧
    (∀ fault, reading.value = .error fault →
      reloading.value = (.error fault, publication) ∧ reloading.lines = reading.lines) := by
  intro reading reloading
  have published : ∀ entries, reading.value = .ok entries →
      (∀ line ∈ (Table.ofEntries entries).lines, line.level = .warn) ∧
      reloading.lines = reading.lines ++ (Table.ofEntries entries).lines ++
        [publishedLine (firstOfEachCode entries).length] ∧
      ∃ published, reloading.value = (.ok (), published) ∧
        published.current.entries.toList = firstOfEachCode entries := by
    intro entries told
    have ended : reloading = ⟨_, _⟩ := reload_of_read told
    have lines : reloading.lines = reading.lines ++ (Table.ofEntries entries).lines ++
        [publishedLine (firstOfEachCode entries).length] := by
      rw [ended, Logged.lines, List.map_append, List.map_append, List.map_singleton,
        line_tablePublished, Logged.lines, Logged.lines]
    rw [ended] at lines ⊢
    exact ⟨fun _ => Table.warn_of_mem_lines, lines, _, rfl, Table.entries_ofEntries entries⟩
  have failed : ∀ fault, reading.value = .error fault →
      reloading.value = (.error fault, publication) ∧ reloading.lines = reading.lines := by
    intro fault told
    have ended : reloading = ⟨_, _⟩ := reload_of_unread told
    rw [ended, Logged.lines, Logged.lines]
    exact ⟨rfl, rfl⟩
  exact ⟨fun _ => PrefixMap.lines_of_entries, fun _ _ => PrefixMap.lines_of_invalidEntry,
    fun _ => PrefixMap.lines_of_truncatedMap, fun _ _ _ => PrefixMap.lines_of_lengthMismatch,
    published, failed⟩

/-- The first map is published without the second of its entries, which repeats a code; the second
map has a record without a body behind one that is good. -/
theorem log_of_repeated_and_empty_records :
    let publication : Publication := .ofConfig ⟨.reservedWins, true⟩
    let entries : List Entry := [⟨0x7000, ⟨[1, 2, 3]⟩⟩, ⟨0x7000, ⟨[2, 5, 4]⟩⟩]
    let good : Bytes :=
      [2, 0, 0, 0, 20, 0, 0, 0, 0, 0x70, 2, 0, 42, 3, 0, 0x70, 2, 0, 85, 4, 0xff]
    let bad : Bytes := [2, 0, 0, 0, 18, 0, 0, 0, 0, 0x70, 2, 0, 42, 3, 8, 0, 0, 0]
    let long : Bytes := [0, 0, 0, 0, 9, 0, 0, 0]
    let reading := PrefixMap.read publication.config
    let kept : Line := ⟨.trace, "prefixMap record #0: 0x7000 => 1.2.3"⟩
    (reading good).value = .ok entries ∧
      (publication.reload good).lines =
        [kept, ⟨.trace, "prefixMap record #1: 0x7000 => 2.5.4"⟩,
          ⟨.debug, "parsed prefixMap with 2 entries (20 bytes)"⟩,
          ⟨.warn, "ignoring duplicate prefix 0x7000 => 2.5.4"⟩,
          ⟨.debug, "publishing prefix table with 1 custom entries"⟩] ∧
      (publication.reload bad).value = (.error (.invalidEntry 1 (.emptyOid 8)), publication) ∧
      (publication.reload bad).lines = [kept] ∧
      (publication.reload long).lines = [] ∧ (publication.reload []).lines = [] := by
  intro publication entries good bad long reading kept
  have accepted : (reading good).value = .ok entries := by decide +kernel
  have read : (reading good).lines =
      [kept, ⟨.trace, "prefixMap record #1: 0x7000 => 2.5.4"⟩,
        ⟨.debug, "parsed prefixMap with 2 entries (20 bytes)"⟩] := by decide +kernel
  have repeated : (Table.ofEntries entries).lines =
      [⟨.warn, "ignoring duplicate prefix 0x7000 => 2.5.4"⟩] := by decide +kernel
  have length : publishedLine (firstOfEachCode entries).length =
      ⟨.debug, "publishing prefix table with 1 custom entries"⟩ := by decide +kernel
  have flawed : (reading bad).value = .error (.invalidEntry 1 (.emptyOid 8)) := by decide +kernel
  have stopped : (reading bad).lines = [kept] := by decide +kernel
  have mismatched : (reading long).value = .error (.lengthMismatch 9 8 8) := by decide +kernel
  have truncated : (reading []).value = .error (.truncatedMap (.header 0)) := by decide +kernel
  obtain ⟨_, _, _, _, published, _⟩ := log_mirrors_outcome publication good
  obtain ⟨_, _, _, _, _, failed⟩ := log_mirrors_outcome publication bad
  obtain ⟨_, _, _, silent, _, disagree⟩ := log_mirrors_outcome publication long
  obtain ⟨_, _, silent', _, _, cut⟩ := log_mirrors_outcome publication []
  obtain ⟨_, lines, _⟩ := published entries accepted
  obtain ⟨unchanged, told⟩ := failed _ flawed
  refine ⟨accepted, ?_, unchanged, told.trans stopped,
    (disagree _ mismatched).2.trans (silent _ _ _ mismatched),
    (cut _ truncated).2.trans (silent' _ truncated)⟩
  rw [lines, read, repeated, length]
  rfl

end Publication

end CompactOid
