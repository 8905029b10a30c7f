import CompactOid.PrefixMap.Tally
import CompactOid.Proofs.Outcome
import CompactOid.Proofs.PrefixMap.Reading
import Mathlib.Data.List.Chain

namespace CompactOid

/-! Cutting a map takes no more turns than its bytes allow, whatever it counts.

The length that is added up and the place of the cursor are moved apart from each
other, and every turn begins with both the same and within the data.  A turn that
passes its record moves them by the size of the record, which is at least that of
its header, so the data run out long before a large count does.
-/

/-- The number of the record that is cut off; none if the header of the map is. -/
def Truncation.record? : Truncation → Option Nat
  | .header _ => none
  | .recordHeader index _ _ => some index
  | .recordBody index _ _ => some index

theorem Frame.Overruns.record?_eq {index offset available : Nat} {data : Bytes}
    {truncation : Truncation} (overruns : Overruns index offset available data truncation) :
    truncation.record? = some index := by
  cases overruns <;> rfl

namespace Tally

variable {data : Bytes} {tally next last : Tally} {turns : List Tally} {count declared : Nat}
  {outcome : Except Fault Tally} {fault : Fault} {cursor : Cursor}

/-- What is left of a tally if neither a number nor a length is kept. -/
def walk (tally : Tally) : Walk :=
  ⟨tally.cursor, tally.frames⟩

/-- What is counted and added up is what the cursor has passed in the data. -/
structure Sound (data : Bytes) (tally : Tally) : Prop where
  index_eq : tally.index = tally.frames.length
  spanned_eq : tally.spanned = tally.cursor.position
  mapSize_eq : tally.spanned = Frame.mapSize tally.frames.reverse
  within : Cursor.Within data tally.cursor

/-- How turns follow each other, up to the last that is due or the first that fails. -/
inductive Turns (available : Nat) : Tally → List Tally → Except Fault Tally → Prop where
  | done {tally : Tally} : Turns available tally [] (.ok tally)
  | stuck {tally : Tally} {fault : Fault} (failed : tally.step available = .error fault) :
      Turns available tally [tally] (.error fault)
  | turn {tally next : Tally} {turns : List Tally} {outcome : Except Fault Tally}
      (stepped : tally.step available = .ok next) (later : Turns available next turns outcome) :
      Turns available tally (tally :: turns) outcome

/-- The size that is added is the distance that the cursor moves. -/
theorem step_eq (counted : tally.index = tally.frames.length) (available : Nat) :
    tally.step available = (tally.walk.step available).map fun passed =>
      ⟨tally.index + 1, passed.cursor,
        tally.spanned + (passed.cursor.position - tally.cursor.position), passed.frames⟩ := by
  rw [step, Walk.step]
  cases header : Walk.recordHeader? tally.cursor with
  | none => simp only [walk, header, counted, Except.map]
  | some found =>
      obtain ⟨⟨code, size⟩, behindHeader⟩ := found
      simp only [walk, header]
      cases body : behindHeader.take? size with
      | none => simp only [counted, Except.map]
      | some found =>
          obtain ⟨_, _, moved⟩ := Walk.recordHeader?_eq_some_iff.mp header
          obtain ⟨_, _, stopped⟩ := Cursor.take?_eq_some_iff.mp body
          have distance : found.2.position - tally.cursor.position = Frame.headerSize + size := by
            omega
          simp only [Except.map, distance]

theorem map_walk_step (counted : tally.index = tally.frames.length) (available : Nat) :
    (tally.step available).map walk = tally.walk.step available := by
  rw [step_eq counted]
  cases tally.walk.step available <;> rfl

/-- A turn that passes its record moves both lengths by the size of the record. -/
theorem moved_of_step (sound : tally.Sound data) (stepped : tally.step data.length = .ok next) :
    ∃ frame behind, tally.cursor.rest = frame.bytes ++ behind ∧
      next = ⟨tally.index + 1, ⟨tally.cursor.position + frame.size, behind⟩,
        tally.spanned + frame.size, frame :: tally.frames⟩ := by
  rw [step_eq sound.index_eq] at stepped
  obtain ⟨passed, walked, rfl⟩ := map_eq_ok_iff.mp stepped
  obtain ⟨frame, behind, _, divided, rfl⟩ := Walk.step_eq_ok_iff.mp walked
  refine ⟨frame, behind, divided, ?_⟩
  simp [Walk.past, walk]

theorem index_of_step (sound : tally.Sound data) (stepped : tally.step data.length = .ok next) :
    next.index = tally.index + 1 := by
  obtain ⟨_, _, _, rfl⟩ := moved_of_step sound stepped
  rfl

/-- A turn that fails tells the number of its own record. -/
theorem record?_of_step (sound : tally.Sound data) (failed : tally.step data.length = .error fault) :
    ∃ truncation, truncation.record? = some tally.index ∧ fault = .truncatedMap truncation := by
  have stopped : tally.walk.step data.length = .error fault := by
    rw [← map_walk_step sound.index_eq, failed]
    rfl
  obtain ⟨truncation, stuck, told⟩ := Walk.step_eq_error_iff.mp stopped
  refine ⟨truncation, ?_, told⟩
  rw [sound.index_eq]
  exact stuck.record?_eq

theorem Sound.step (sound : tally.Sound data) (stepped : tally.step data.length = .ok next) :
    next.Sound data := by
  obtain ⟨frame, behind, divided, rfl⟩ := moved_of_step sound stepped
  refine ⟨?_, ?_, ?_, ?_⟩
  · rw [List.length_cons, sound.index_eq]
  · rw [sound.spanned_eq]
  · have size := sound.mapSize_eq
    rw [Frame.mapSize_eq] at size
    rw [List.reverse_cons, Frame.mapSize_eq, Frame.recordsSize_append, Frame.recordsSize_cons,
      Frame.recordsSize_nil]
    simp only
    omega
  · exact sound.within.passes ⟨divided, by rw [Frame.length_bytes]⟩

theorem Sound.spanned_bounds (sound : tally.Sound data) :
    8 + 4 * tally.index ≤ tally.spanned ∧ tally.spanned ≤ data.length := by
  have each := Frame.mul_length_le_recordsSize
    fun frame (_ : frame ∈ tally.frames.reverse) => frame.headerSize_le_size
  rw [List.length_reverse, ← sound.index_eq] at each
  have size := sound.mapSize_eq
  rw [Frame.mapSize_eq] at size
  have inside := sound.within.position_le
  rw [← sound.spanned_eq] at inside
  simp only [Frame.headerSize] at each
  simp only [Frame.mapHeaderSize] at size
  omega

theorem sound_start (header : Frame.mapHeader? data = some ((count, declared), cursor)) :
    (start cursor).Sound data := by
  obtain ⟨_, _, divided, position⟩ := Frame.mapHeader?_eq_some_iff.mp header
  have passed : Cursor.Passes (LittleEndian.encode 4 count ++ LittleEndian.encode 4 declared)
      (Cursor.ofBytes data) cursor := by
    refine ⟨divided, ?_⟩
    rw [position, List.length_append, LittleEndian.length_encode, LittleEndian.length_encode]
    rfl
  exact ⟨rfl, position.symm, rfl, (Cursor.within_ofBytes data).passes passed⟩

theorem turns_run (available count : Nat) (tally : Tally) :
    Turns available tally (run available count tally).1 (run available count tally).2 := by
  induction count generalizing tally with
  | zero => exact .done
  | succ count ih =>
      rw [run]
      cases stepped : tally.step available with
      | error fault => exact .stuck stepped
      | ok next => exact .turn stepped (ih next)

/-- The turns lead where the walk over the records leads. -/
theorem map_walk_run (sound : tally.Sound data) (count : Nat) :
    (run data.length count tally).2.map walk = Walk.steps data.length count tally.walk := by
  -- A walk takes the number of a record from the frames it has passed: the two agree as long as the
  -- number that is kept is sound.
  induction count generalizing tally with
  | zero => rfl
  | succ count ih =>
      rw [run, Walk.steps, ← map_walk_step sound.index_eq]
      cases stepped : tally.step data.length with
      | error fault => rfl
      | ok next => exact ih (sound.step stepped)

theorem Turns.head?_eq {available : Nat} (ran : Turns available tally turns outcome) :
    ∀ begun ∈ turns.head?, begun = tally := by
  cases ran <;> simp [eq_comm]

theorem Turns.isChain {available : Nat} (ran : Turns available tally turns outcome) :
    turns.IsChain fun tally next => tally.step available = .ok next := by
  induction ran with
  | done => exact .nil
  | stuck => exact .singleton _
  | turn stepped later ih =>
      refine List.isChain_cons.mpr ⟨fun begun first => ?_, ih⟩
      rwa [later.head?_eq begun first]

theorem Turns.sound_of_mem (ran : Turns data.length tally turns outcome) (sound : tally.Sound data) :
    ∀ begun ∈ turns, begun.Sound data := by
  induction ran with
  | done => exact List.forall_mem_nil _
  | stuck => exact List.forall_mem_singleton.mpr sound
  | turn stepped _ ih => exact List.forall_mem_cons.mpr ⟨sound, ih (sound.step stepped)⟩

/-- Turns that all pass their records are as many as these. -/
theorem Turns.of_ok (ran : Turns data.length tally turns outcome) (ended : outcome = .ok last)
    (sound : tally.Sound data) : last.Sound data ∧ last.index = tally.index + turns.length := by
  induction ran with
  | done =>
      cases ended
      exact ⟨sound, rfl⟩
  | stuck => contradiction
  | turn stepped _ ih =>
      obtain ⟨kept, counted⟩ := ih ended (sound.step stepped)
      refine ⟨kept, ?_⟩
      rw [counted, index_of_step sound stepped, List.length_cons]
      omega

/-- The last turn is the one that fails, and it is counted as well. -/
theorem Turns.of_error (ran : Turns data.length tally turns outcome)
    (failed : outcome = .error fault) (sound : tally.Sound data) :
    ∃ last : Tally, last.Sound data ∧ last.step data.length = .error fault ∧
      last.index + 1 = tally.index + turns.length := by
  induction ran with
  | done => contradiction
  | stuck stopped =>
      cases failed
      exact ⟨_, sound, stopped, rfl⟩
  | turn stepped _ ih =>
      obtain ⟨last, kept, stopped, counted⟩ := ih failed (sound.step stepped)
      refine ⟨last, kept, stopped, ?_⟩
      rw [counted, index_of_step sound stepped, List.length_cons]
      omega

theorem Turns.length_le (ran : Turns data.length tally turns outcome) (sound : tally.Sound data)
    (first : tally.index = 0) : turns.length ≤ (data.length - 8) / 4 + 1 := by
  cases outcome with
  | ok last =>
      obtain ⟨kept, counted⟩ := ran.of_ok rfl sound
      have bounds := kept.spanned_bounds
      omega
  | error fault =>
      obtain ⟨last, kept, _, counted⟩ := ran.of_error rfl sound
      have bounds := kept.spanned_bounds
      omega

variable {config : Config} {frames : List Frame} {truncation : Truncation} {index : Nat}

/-- A map has no header, or turns that begin behind it and lead to the outcome. -/
theorem tallyMap_cases (config : Config) (data : Bytes) :
    Frame.tallyMap config data = ([], .error (.truncatedMap (.header data.length))) ∨
      ∃ first turns outcome declared, Sound data first ∧ first.index = 0 ∧
        Turns data.length first turns outcome ∧
        Frame.tallyMap config data =
          (turns, outcome >>= Tally.finish config declared data.length) := by
  cases header : Frame.mapHeader? data with
  | none =>
      refine .inl ?_
      simp only [Frame.tallyMap, header]
  | some found =>
      obtain ⟨⟨count, declared⟩, cursor⟩ := found
      refine .inr ⟨start cursor, _, _, declared, sound_start header, rfl,
        turns_run data.length count (start cursor), ?_⟩
      simp only [Frame.tallyMap, header]
      rfl

theorem finish_of_sound (sound : last.Sound data) (config : Config) (declared : Nat) :
    last.finish config declared data.length =
      if Frame.lengthsAgree config declared (Frame.mapSize last.walk.frames.reverse) data.length then
        .ok last.walk.frames.reverse
      else .error (.lengthMismatch declared (Frame.mapSize last.walk.frames.reverse) data.length) := by
  rw [finish, sound.mapSize_eq]
  rfl

/-- Adding the length up on the way makes no difference to what is told of a map. -/
theorem tallyMap_snd (config : Config) (data : Bytes) :
    (Frame.tallyMap config data).2 = Frame.ofMap config data := by
  cases header : Frame.mapHeader? data with
  | none => simp only [Frame.tallyMap, Frame.ofMap, header]
  | some found =>
      obtain ⟨⟨count, declared⟩, cursor⟩ := found
      have sound := sound_start header
      have same := map_walk_run sound count
      have ran := turns_run data.length count (start cursor)
      cases outcome : (run data.length count (start cursor)).2 with
      | error fault =>
          rw [outcome] at same
          have walked : Walk.steps data.length count ⟨cursor, []⟩ = .error fault := same.symm
          simp only [Frame.tallyMap, Frame.ofMap, header, walked, outcome]
          rfl
      | ok last =>
          rw [outcome] at same ran
          have walked : Walk.steps data.length count ⟨cursor, []⟩ = .ok last.walk := same.symm
          simp only [Frame.tallyMap, Frame.ofMap, header, walked, outcome]
          exact finish_of_sound (ran.of_ok rfl sound).1 config declared

theorem sound_of_mem_tallyMap (config : Config) (data : Bytes) :
    ∀ begun ∈ (Frame.tallyMap config data).1, begun.Sound data := by
  rcases tallyMap_cases config data with short | ⟨first, turns, _, _, sound, _, ran, cut⟩
  · rw [short]
    exact List.forall_mem_nil _
  · rw [cut]
    exact ran.sound_of_mem sound

theorem isChain_tallyMap (config : Config) (data : Bytes) :
    (Frame.tallyMap config data).1.IsChain fun tally next => tally.step data.length = .ok next := by
  rcases tallyMap_cases config data with short | ⟨first, turns, _, _, _, _, ran, cut⟩
  · rw [short]
    exact .nil
  · rw [cut]
    exact ran.isChain

theorem length_tallyMap_le (config : Config) (data : Bytes) :
    (Frame.tallyMap config data).1.length ≤ (data.length - 8) / 4 + 1 := by
  rcases tallyMap_cases config data with short | ⟨first, turns, _, _, sound, fresh, ran, cut⟩
  · rw [short]
    exact Nat.zero_le _
  · rw [cut]
    exact ran.length_le sound fresh

theorem length_of_ofMap (framed : Frame.ofMap config data = .ok frames) :
    frames.length = (Frame.tallyMap config data).1.length := by
  rw [← tallyMap_snd] at framed
  rcases tallyMap_cases config data with short | ⟨first, turns, _, _, sound, fresh, ran, cut⟩
  · rw [short] at framed
    contradiction
  · rw [cut] at framed ⊢
    obtain ⟨last, ended, finished⟩ := bind_eq_ok_iff.mp framed
    obtain ⟨kept, counted⟩ := ran.of_ok ended sound
    rw [finish] at finished
    split at finished
    · cases finished
      rw [List.length_reverse, ← kept.index_eq, counted, fresh, Nat.zero_add]
    · contradiction

/-- The record that is told to be cut off is that of the last turn. -/
theorem record?_of_ofMap (cutOff : Frame.ofMap config data = .error (.truncatedMap truncation))
    (record : truncation.record? = some index) :
    index + 1 = (Frame.tallyMap config data).1.length := by
  rw [← tallyMap_snd] at cutOff
  rcases tallyMap_cases config data with short | ⟨first, turns, _, _, sound, fresh, ran, cut⟩
  · rw [short] at cutOff
    cases cutOff
    contradiction
  · rw [cut] at cutOff ⊢
    rcases bind_eq_error_iff.mp cutOff with failed | ⟨last, _, finished⟩
    · obtain ⟨last, kept, stopped, counted⟩ := ran.of_error failed sound
      obtain ⟨other, number, same⟩ := record?_of_step kept stopped
      cases same
      cases record.symm.trans number
      rw [counted, fresh, Nat.zero_add]
    · rw [finish] at finished
      split at finished <;> cases finished

end Tally

namespace PrefixMap

variable {config : Config} {data : Bytes} {entries : List Entry} {truncation : Truncation}
  {frames : List Frame}

theorem ofMap_of_truncatedMap
    (told : (read config data).value = .error (.truncatedMap truncation)) :
    Frame.ofMap config data = .error (.truncatedMap truncation) := by
  cases verdict_of_read told with
  | truncated truncated => exact Frame.ofMap_of_truncated config truncated

theorem size_of_holds (holds : List.Forall₂ Frame.Holds frames entries) :
    ∀ frame ∈ frames, 5 ≤ frame.size := by
  induction holds with
  | nil => exact List.forall_mem_nil _
  | @cons frame _ _ _ first _ ih =>
      have filled := List.length_pos_of_ne_nil first.filled
      refine List.forall_mem_cons.mpr ⟨?_, ih⟩
      rw [Frame.size, Frame.headerSize]
      omega

/-- Each entry is that of a turn, and no record that holds one is as short as its header. -/
theorem length_of_read (told : (read config data).value = .ok entries) :
    entries.length = (Frame.tallyMap config data).1.length ∧
      8 + 5 * entries.length ≤ data.length := by
  cases verdict_of_read told with
  | @accepted declared frames rest _ cut agree holds =>
      have turns := Tally.length_of_ofMap (Frame.ofMap_eq_ok_iff.mpr ⟨declared, rest, cut, agree⟩)
      have size := Frame.mul_length_le_recordsSize (size_of_holds holds)
      have whole := cut.length_eq
      rw [Frame.mapSize_eq, Frame.mapHeaderSize] at whole
      rw [← holds.length_eq]
      exact ⟨turns, by omega⟩

end PrefixMap

namespace Tally

/-- Every turn begins with the length added up so far where the cursor stands, within the data, and
one that passes its record moves both by four bytes at least.  So there are no more turns than the
data have room for record headers, and one that is cut off, and no record is told to be cut off
behind these.  A map has no more entries than there is room for records that are not empty. -/
theorem turns_are_bounded_by_the_data (config : Config) (data : Bytes) :
    let turns := (Frame.tallyMap config data).1
    (Frame.tallyMap config data).2 = Frame.ofMap config data ∧
    turns.IsChain (fun tally next => tally.step data.length = .ok next) ∧
    (∀ tally ∈ turns, tally.spanned = tally.cursor.position ∧
      8 ≤ tally.spanned ∧ tally.spanned ≤ data.length ∧
      ∀ next, tally.step data.length = .ok next → next.spanned = next.cursor.position ∧
        tally.spanned + 4 ≤ next.spanned ∧ next.spanned ≤ data.length) ∧
    turns.length ≤ (data.length - 8) / 4 + 1 ∧
    (∀ truncation index,
      (PrefixMap.read config data).value = .error (.truncatedMap truncation) →
      truncation.record? = some index →
        index + 1 = turns.length ∧ index ≤ (data.length - 8) / 4) ∧
    ∀ entries, (PrefixMap.read config data).value = .ok entries →
      entries.length = turns.length ∧ entries.length ≤ (data.length - 8) / 5 := by
  intro turns
  have few : turns.length ≤ (data.length - 8) / 4 + 1 := length_tallyMap_le config data
  refine ⟨tallyMap_snd config data, isChain_tallyMap config data, ?_, few, ?_, ?_⟩
  · intro tally begun
    have sound := sound_of_mem_tallyMap config data tally begun
    have bounds := sound.spanned_bounds
    refine ⟨sound.spanned_eq, by omega, bounds.2, ?_⟩
    intro next stepped
    have kept := sound.step stepped
    obtain ⟨frame, behind, _, rfl⟩ := moved_of_step sound stepped
    exact ⟨kept.spanned_eq, Nat.add_le_add_left frame.headerSize_le_size _, kept.spanned_bounds.2⟩
  · intro truncation index told record
    have counted : index + 1 = turns.length :=
      record?_of_ofMap (PrefixMap.ofMap_of_truncatedMap told) record
    exact ⟨counted, by omega⟩
  · intro entries told
    obtain ⟨counted, long⟩ := PrefixMap.length_of_read told
    exact ⟨counted, by omega⟩

/-- A map that counts more than four billion records, and has room for the header of one. -/
example :
    let data := [0xFF, 0xFF, 0xFF, 0xFF, 12, 0, 0, 0, 1, 0, 0, 0]
    (Frame.tallyMap .strict data).1.map Tally.spanned = [8, 12] := by
  decide +kernel

end Tally

end CompactOid
