import CompactOid.Bytes.Program
import CompactOid.Proofs.Bytes.Buffer
import CompactOid.Proofs.Bytes.Passage

namespace CompactOid

namespace Read

variable {request : Read} {buffer after : Buffer} {taken : Bytes} {found : Found} {fault : Fault}

/-- The bytes that a read takes, told by what it finds. -/
inductive Takes : Read → Bytes → Found → Prop where
  | word {width : Width} {value : Nat} (small : value < LittleEndian.capacity width.size) :
      Takes (.word width) (LittleEndian.encode width.size value) (.number value)
  | bytes (taken : Bytes) : Takes (.bytes taken.length) taken (.bytes taken)
  | group {group : Bytes} (closed : Base128.Closed group)
      (small : Base128.valueOf group < UInt64.size) :
      Takes .group group (.number (Base128.valueOf group))

/-- A read succeeds exactly if the bytes begin with some that it takes. -/
theorem run_eq_ok_iff :
    request.run buffer = (.ok found, after) ↔
      ∃ taken, request.Takes taken found ∧ Buffer.Passes taken buffer after := by
  cases request with
  | word width =>
      simp only [run, prodMap_eq_ok_iff, Buffer.read_eq_ok_iff]
      constructor
      · intro read
        obtain ⟨value, ⟨small, passed⟩, rfl⟩ := read
        exact ⟨_, .word small, passed⟩
      · intro parts
        obtain ⟨taken, takes, passed⟩ := parts
        cases takes with
        | word small => exact ⟨_, ⟨small, passed⟩, rfl⟩
  | bytes count =>
      simp only [run, prodMap_eq_ok_iff, Buffer.take_eq_ok_iff]
      constructor
      · intro read
        obtain ⟨value, ⟨rfl, passed⟩, rfl⟩ := read
        exact ⟨value, .bytes value, passed⟩
      · intro parts
        obtain ⟨taken, takes, passed⟩ := parts
        cases takes with
        | bytes => exact ⟨_, ⟨rfl, passed⟩, rfl⟩
  | group =>
      simp only [run, prodMap_eq_ok_iff, Buffer.group_eq_ok_iff]
      constructor
      · intro read
        obtain ⟨value, ⟨taken, closed, small, rfl, passed⟩, rfl⟩ := read
        exact ⟨taken, .group closed small, passed⟩
      · intro parts
        obtain ⟨taken, takes, passed⟩ := parts
        cases takes with
        | group closed small => exact ⟨_, ⟨taken, closed, small, rfl, passed⟩, rfl⟩

/-- A read that fails leaves the buffer as it was. -/
theorem eq_of_run_eq_error (failed : request.run buffer = (.error fault, after)) :
    after = buffer := by
  cases request with
  | word width => exact (Buffer.read_eq_error_iff.mp (prodMap_eq_error_iff.mp failed)).2.1
  | bytes count =>
      have stopped : buffer.take count = (.error fault, after) := prodMap_eq_error_iff.mp failed
      rw [Buffer.take] at stopped
      split at stopped
      all_goals cases stopped
      rfl
  | group =>
      have stopped : buffer.group = (.error fault, after) := prodMap_eq_error_iff.mp failed
      rw [Buffer.group] at stopped
      split at stopped
      all_goals cases stopped
      all_goals rfl

end Read

theorem Read.run_behind (request : Read) (front : Bytes) (buffer : Buffer) :
    request.run (buffer.behind front) =
      ((request.run buffer).1.mapError (Fault.shift front.length),
        (request.run buffer).2.behind front) := by
  cases request with
  | word width =>
      rw [run, run, Buffer.read_behind]
      cases buffer.read width with
      | mk outcome after => cases outcome <;> rfl
  | bytes count =>
      rw [run, run, Buffer.take_behind]
      cases buffer.take count with
      | mk outcome after => cases outcome <;> rfl
  | group =>
      rw [run, run, Buffer.group_behind]
      cases buffer.group with
      | mk outcome after => cases outcome <;> rfl

namespace Program

variable {program part : Program} {parts later : List Program} {request : Read}
  {buffer middle after : Buffer} {found : Found} {values : List Found} {fault : Fault}

/-- A program is told by its reads, and by its parts as long as all of them are told. -/
@[elab_as_elim, induction_eliminator]
theorem induct {motive : Program → Prop} (read : ∀ request, motive (.read request))
    (sequence : ∀ parts, (∀ part ∈ parts, motive part) → motive (.sequence parts))
    (transaction : ∀ parts, (∀ part ∈ parts, motive part) → motive (.transaction parts)) :
    ∀ program, motive program
  | .read request => read request
  | .sequence parts => sequence parts fun part _ => induct read sequence transaction part
  | .transaction parts => transaction parts fun part _ => induct read sequence transaction part

theorem run_sequence_eq_ok_iff :
    (sequence parts).run buffer = (.ok found, after) ↔
      ∃ values, runAll parts buffer = (.ok values, after) ∧ found = .sequence values := by
  rw [run]
  split
  · rename_i values last all
    simp [all, Prod.ext_iff, eq_comm, and_comm]
  · rename_i fault last all
    simp [all]

theorem run_sequence_eq_error_iff :
    (sequence parts).run buffer = (.error fault, after) ↔
      runAll parts buffer = (.error fault, after) := by
  rw [run]
  split
  · rename_i values last all
    simp [all]
  · rename_i fault last all
    simp [all]

theorem run_transaction_eq_ok_iff :
    (transaction parts).run buffer = (.ok found, after) ↔
      (sequence parts).run buffer = (.ok found, after) := by
  rw [run, run]
  split <;> simp

theorem runAll_cons_eq_ok_iff :
    runAll (part :: later) buffer = (.ok values, after) ↔
      ∃ found middle rest, part.run buffer = (.ok found, middle) ∧
        runAll later middle = (.ok rest, after) ∧ values = found :: rest := by
  rw [runAll]
  split
  · rename_i fault last failed
    simp [failed]
  · rename_i found middle passed
    split
    · rename_i fault last failed
      simp [passed, failed]
    · rename_i rest last all
      simp [passed, all, Prod.ext_iff, eq_comm, and_comm]

theorem runAll_cons_eq_error_iff :
    runAll (part :: later) buffer = (.error fault, after) ↔
      part.run buffer = (.error fault, after) ∨
        ∃ found middle, part.run buffer = (.ok found, middle) ∧
          runAll later middle = (.error fault, after) := by
  rw [runAll]
  split
  · rename_i fault last failed
    simp [failed]
  · rename_i found middle passed
    split
    · rename_i fault last failed
      simp [passed, failed]
    · rename_i rest last all
      simp [passed, all]

theorem runAll_eq_error_iff :
    runAll parts buffer = (.error fault, after) ↔
      ∃ before bad later values middle, parts = before ++ bad :: later ∧
        runAll before buffer = (.ok values, middle) ∧ bad.run middle = (.error fault, after) := by
  constructor
  · intro failed
    induction parts generalizing buffer with
    | nil => simp [runAll] at failed
    | cons part later ih =>
        rcases runAll_cons_eq_error_iff.mp failed with first | ⟨found, middle, passed, failed⟩
        · exact ⟨[], part, later, [], buffer, rfl, by rw [runAll], first⟩
        · obtain ⟨before, bad, behind, values, last, rfl, all, stopped⟩ := ih failed
          exact ⟨part :: before, bad, behind, found :: values, last, rfl,
            runAll_cons_eq_ok_iff.mpr ⟨found, middle, values, passed, all, rfl⟩, stopped⟩
  · intro parts
    obtain ⟨before, bad, later, values, middle, rfl, all, stopped⟩ := parts
    induction before generalizing buffer values with
    | nil =>
        rw [runAll] at all
        cases all
        exact runAll_cons_eq_error_iff.mpr (.inl stopped)
    | cons part before ih =>
        obtain ⟨found, next, rest, passed, others, _⟩ := runAll_cons_eq_ok_iff.mp all
        exact runAll_cons_eq_error_iff.mpr (.inr ⟨found, next, passed, ih rest others⟩)

/-- Of a sequence that fails, the parts before the first one at fault are run, and those behind it
are not. -/
theorem run_sequence_eq_error_iff_first :
    (sequence parts).run buffer = (.error fault, after) ↔
      ∃ before bad later found middle, parts = before ++ bad :: later ∧
        (sequence before).run buffer = (.ok found, middle) ∧
        bad.run middle = (.error fault, after) := by
  simp only [run_sequence_eq_error_iff, runAll_eq_error_iff, run_sequence_eq_ok_iff]
  constructor
  · intro stopped
    obtain ⟨before, bad, later, values, middle, divided, all, failed⟩ := stopped
    exact ⟨before, bad, later, _, middle, divided, ⟨values, all, rfl⟩, failed⟩
  · intro stopped
    obtain ⟨before, bad, later, _, middle, divided, ⟨values, all, _⟩, failed⟩ := stopped
    exact ⟨before, bad, later, values, middle, divided, all, failed⟩

mutual

/-- The byte strings that the reads of a program take when it comes to its end. -/
inductive Parses : Program → List Bytes → Found → Prop where
  | read {request : Read} {taken : Bytes} {found : Found} (takes : request.Takes taken found) :
      Parses (.read request) [taken] found
  | sequence {parts : List Program} {pieces : List Bytes} {values : List Found}
      (all : ParsesAll parts pieces values) : Parses (.sequence parts) pieces (.sequence values)
  | transaction {parts : List Program} {pieces : List Bytes} {values : List Found}
      (all : ParsesAll parts pieces values) : Parses (.transaction parts) pieces (.sequence values)

inductive ParsesAll : List Program → List Bytes → List Found → Prop where
  | nil : ParsesAll [] [] []
  | cons {part : Program} {later : List Program} {pieces rest : List Bytes} {found : Found}
      {values : List Found} (first : Parses part pieces found)
      (others : ParsesAll later rest values) :
      ParsesAll (part :: later) (pieces ++ rest) (found :: values)

end

theorem runAll_eq_ok_iff
    (each : ∀ part ∈ parts, ∀ buffer after found, part.run buffer = (.ok found, after) ↔
      ∃ pieces, part.Parses pieces found ∧ Buffer.Passes pieces.flatten buffer after) :
    runAll parts buffer = (.ok values, after) ↔
      ∃ pieces, ParsesAll parts pieces values ∧ Buffer.Passes pieces.flatten buffer after := by
  induction parts generalizing buffer values with
  | nil =>
      rw [runAll, Prod.mk.injEq, Except.ok.injEq]
      constructor
      · rintro ⟨rfl, rfl⟩
        exact ⟨[], .nil, Buffer.passes_nil_iff.mpr rfl⟩
      · intro parsed
        obtain ⟨pieces, all, passed⟩ := parsed
        cases all
        exact ⟨rfl, (Buffer.passes_nil_iff.mp passed).symm⟩
  | cons part later ih =>
      obtain ⟨head, tail⟩ := List.forall_mem_cons.mp each
      rw [runAll_cons_eq_ok_iff]
      constructor
      · intro ran
        obtain ⟨found, middle, rest, first, others, rfl⟩ := ran
        obtain ⟨front, parsed, left⟩ := (head _ _ _).mp first
        obtain ⟨back, all, right⟩ := (ih tail).mp others
        refine ⟨front ++ back, .cons parsed all, ?_⟩
        rw [List.flatten_append]
        exact Buffer.passes_append_iff.mpr ⟨middle, left, right⟩
      · intro parsed
        obtain ⟨pieces, all, passed⟩ := parsed
        cases all with
        | @cons _ _ front back found rest first others =>
            rw [List.flatten_append] at passed
            obtain ⟨middle, left, right⟩ := Buffer.passes_append_iff.mp passed
            exact ⟨found, middle, rest, (head _ _ _).mpr ⟨front, first, left⟩,
              (ih tail).mpr ⟨back, others, right⟩, rfl⟩

theorem parses_transaction_iff {pieces : List Bytes} :
    (transaction parts).Parses pieces found ↔ (sequence parts).Parses pieces found := by
  constructor
  · intro parsed
    cases parsed with
    | transaction all => exact .sequence all
  · intro parsed
    cases parsed with
    | sequence all => exact .transaction all

theorem run_sequence_iff_parses
    (each : ∀ part ∈ parts, ∀ buffer after found, part.run buffer = (.ok found, after) ↔
      ∃ pieces, part.Parses pieces found ∧ Buffer.Passes pieces.flatten buffer after) :
    (sequence parts).run buffer = (.ok found, after) ↔
      ∃ pieces, (sequence parts).Parses pieces found ∧
        Buffer.Passes pieces.flatten buffer after := by
  simp only [run_sequence_eq_ok_iff, runAll_eq_ok_iff each]
  constructor
  · intro ran
    obtain ⟨values, ⟨pieces, all, passed⟩, rfl⟩ := ran
    exact ⟨pieces, .sequence all, passed⟩
  · intro parsed
    obtain ⟨pieces, parses, passed⟩ := parsed
    cases parses with
    | sequence all => exact ⟨_, ⟨pieces, all, passed⟩, rfl⟩

/-- A program comes to its end exactly if its reads find what they take, one behind the other. -/
theorem run_eq_ok_iff (program : Program) (buffer after : Buffer) (found : Found) :
    program.run buffer = (.ok found, after) ↔
      ∃ pieces, program.Parses pieces found ∧ Buffer.Passes pieces.flatten buffer after := by
  induction program generalizing buffer after found with
  | read request =>
      rw [run, Read.run_eq_ok_iff]
      constructor
      · intro read
        obtain ⟨taken, takes, passed⟩ := read
        exact ⟨[taken], .read takes, by rwa [List.flatten_singleton]⟩
      · intro parsed
        obtain ⟨pieces, parses, passed⟩ := parsed
        cases parses with
        | @read _ taken _ takes =>
            rw [List.flatten_singleton] at passed
            exact ⟨taken, takes, passed⟩
  | sequence parts ih => exact run_sequence_iff_parses ih
  | transaction parts ih =>
      simp only [run_transaction_eq_ok_iff, parses_transaction_iff]
      exact run_sequence_iff_parses ih

theorem advances_runAll
    (each : ∀ part ∈ parts, ∀ buffer, Buffer.Advances buffer (part.run buffer).2)
    (buffer : Buffer) :
    Buffer.Advances buffer (runAll parts buffer).2 := by
  induction parts generalizing buffer with
  | nil => exact .refl buffer
  | cons part later ih =>
      obtain ⟨head, tail⟩ := List.forall_mem_cons.mp each
      have first := head buffer
      rw [runAll]
      split
      · rename_i fault middle failed
        rwa [failed] at first
      · rename_i found middle passed
        have others := ih tail middle
        rw [passed] at first
        split
        · rename_i fault last failed
          rw [failed] at others
          exact first.trans others
        · rename_i values last all
          rw [all] at others
          exact first.trans others

theorem advances_run (program : Program) (buffer : Buffer) :
    Buffer.Advances buffer (program.run buffer).2 := by
  induction program generalizing buffer with
  | read request =>
      rw [run]
      cases outcome : (request.run buffer).1 with
      | ok found =>
          obtain ⟨taken, _, passed⟩ := Read.run_eq_ok_iff.mp (Prod.ext outcome rfl)
          exact ⟨taken, passed⟩
      | error fault =>
          have same : (request.run buffer).2 = buffer :=
            Read.eq_of_run_eq_error (Prod.ext outcome rfl)
          rw [same]
          exact .refl buffer
  | sequence parts ih =>
      have all := advances_runAll ih buffer
      rw [run]
      split
      all_goals
        rename_i ran
        rwa [ran] at all
  | transaction parts ih =>
      have all := advances_runAll ih buffer
      rw [run]
      split
      · rename_i ran
        rwa [ran] at all
      · rename_i fault left ran
        rw [ran] at all
        rw [all.seek_eq]
        exact .refl buffer

theorem run_transaction_eq_error_iff :
    (transaction parts).run buffer = (.error fault, after) ↔
      after = buffer ∧ ∃ left, (sequence parts).run buffer = (.error fault, left) := by
  have all : Buffer.Advances buffer (runAll parts buffer).2 :=
    advances_runAll (fun part _ => advances_run part) buffer
  rw [run, run]
  split
  · simp
  · rename_i told left ran
    rw [ran] at all
    rw [all.seek_eq]
    simp [Prod.ext_iff, eq_comm, and_comm]

theorem runAll_behind (front : Bytes)
    (each : ∀ part ∈ parts, ∀ buffer, part.run (buffer.behind front) =
      ((part.run buffer).1.mapError (Fault.shift front.length), (part.run buffer).2.behind front))
    (buffer : Buffer) :
    runAll parts (buffer.behind front) =
      ((runAll parts buffer).1.mapError (Fault.shift front.length),
        (runAll parts buffer).2.behind front) := by
  induction parts generalizing buffer with
  | nil => rfl
  | cons part later ih =>
      obtain ⟨head, tail⟩ := List.forall_mem_cons.mp each
      rw [runAll, runAll, head buffer]
      cases part.run buffer with
      | mk outcome middle =>
          cases outcome with
          | error fault => rfl
          | ok found =>
              simp only [Except.mapError, ih tail middle]
              cases runAll later middle with
              | mk outcome last => cases outcome <;> rfl

/-- Bytes in front of all others are not read, and add to the places that are told. -/
theorem run_behind (program : Program) (front : Bytes) (buffer : Buffer) :
    program.run (buffer.behind front) =
      ((program.run buffer).1.mapError (Fault.shift front.length),
        (program.run buffer).2.behind front) := by
  induction program generalizing buffer with
  | read request =>
      rw [run, run]
      exact request.run_behind front buffer
  | sequence parts ih =>
      rw [run, run, runAll_behind front ih]
      cases runAll parts buffer with
      | mk outcome last => cases outcome <;> rfl
  | transaction parts ih =>
      rw [run, run, runAll_behind front ih]
      cases runAll parts buffer with
      | mk outcome last => cases outcome <;> rfl

/-- Where a buffer is found while a program runs, also inside of a transaction that fails. -/
inductive Visits : Program → Buffer → Buffer → Prop where
  | start {program : Program} {buffer : Buffer} : Visits program buffer buffer
  | stop {program : Program} {buffer : Buffer} : Visits program buffer (program.run buffer).2
  | inSequence {before later : List Program} {part : Program} {values : List Found}
      {buffer middle visited : Buffer} (passed : runAll before buffer = (.ok values, middle))
      (inner : Visits part middle visited) :
      Visits (.sequence (before ++ part :: later)) buffer visited
  | inTransaction {before later : List Program} {part : Program} {values : List Found}
      {buffer middle visited : Buffer} (passed : runAll before buffer = (.ok values, middle))
      (inner : Visits part middle visited) :
      Visits (.transaction (before ++ part :: later)) buffer visited

theorem Visits.advances {visited : Buffer} (visits : program.Visits buffer visited) :
    Buffer.Advances buffer visited := by
  induction visits with
  | start => exact .refl _
  | stop => exact advances_run _ _
  | @inSequence before _ _ _ buffer _ _ passed _ ih
  | @inTransaction before _ _ _ buffer _ _ passed _ ih =>
      have front : Buffer.Advances buffer (runAll before buffer).2 :=
        advances_runAll (fun part _ => advances_run part) buffer
      rw [passed] at front
      exact front.trans ih

/-- Where programs, one after the other, lead from the start of the data. -/
inductive Reached (data : Bytes) : Buffer → Prop where
  | start : Reached data (.ofBytes data)
  | run {buffer : Buffer} (reached : Reached data buffer) (program : Program) :
      Reached data (program.run buffer).2

theorem Reached.within {data : Bytes} (reached : Reached data buffer) : buffer.Within data := by
  induction reached with
  | start => exact Buffer.within_ofBytes data
  | run _ program ih => exact ih.advances (advances_run program _)

/-- Whatever runs, also inside of transactions, the offset stays within the data, and the data are not
changed.  A failed read moves nothing.  A program that comes to its end has passed what its reads
took, a sequence that fails stops with its first part at fault, and a transaction that fails with the
fault of its parts goes back to where it began.  All this is the same over the bytes from the offset
on alone, but for the places that are told. -/
theorem programs_keep_to_the_data (data : Bytes) (buffer : Buffer) (reached : Reached data buffer)
    (program : Program) (parts : List Program) :
    let alone := program.run (.ofBytes (data.drop buffer.offset))
    (∀ visited, program.Visits buffer visited →
      visited.bytes = data ∧ visited.offset ≤ data.length) ∧
    (∀ request fault after, (Program.read request).run buffer = (.error fault, after) →
      after = buffer) ∧
    (∀ found after, program.run buffer = (.ok found, after) ↔
      ∃ pieces, program.Parses pieces found ∧
        data.drop buffer.offset = pieces.flatten ++ data.drop after.offset ∧
        after = ⟨data, buffer.offset + pieces.flatten.length⟩) ∧
    (∀ fault after, (sequence parts).run buffer = (.error fault, after) ↔
      ∃ before bad later found middle, parts = before ++ bad :: later ∧
        (sequence before).run buffer = (.ok found, middle) ∧
        bad.run middle = (.error fault, after)) ∧
    (∀ found after, (transaction parts).run buffer = (.ok found, after) ↔
      (sequence parts).run buffer = (.ok found, after)) ∧
    (∀ fault after, (transaction parts).run buffer = (.error fault, after) ↔
      after = buffer ∧ ∃ left, (sequence parts).run buffer = (.error fault, left)) ∧
    program.run buffer = (alone.1.mapError (Fault.shift buffer.offset),
      ⟨data, buffer.offset + alone.2.offset⟩) := by
  intro alone
  have within := reached.within
  have inside : ∀ visited, program.Visits buffer visited →
      visited.bytes = data ∧ visited.offset ≤ data.length := by
    intro visited visits
    have ahead := within.advances visits.advances
    exact ⟨ahead.bytes_eq, ahead.offset_le⟩
  have stays : ∀ request fault after,
      (Program.read request).run buffer = (.error fault, after) → after = buffer := by
    intro request fault after failed
    rw [run] at failed
    exact Read.eq_of_run_eq_error failed
  have passes : ∀ found after, program.run buffer = (.ok found, after) ↔
      ∃ pieces, program.Parses pieces found ∧
        data.drop buffer.offset = pieces.flatten ++ data.drop after.offset ∧
        after = ⟨data, buffer.offset + pieces.flatten.length⟩ := by
    intro found after
    rw [run_eq_ok_iff]
    simp only [within.passes_iff]
  have apart : program.run buffer = (alone.1.mapError (Fault.shift buffer.offset),
      ⟨data, buffer.offset + alone.2.offset⟩) := by
    have ran := run_behind program (data.take buffer.offset) (.ofBytes (data.drop buffer.offset))
    obtain ⟨_, passed⟩ := advances_run program (.ofBytes (data.drop buffer.offset))
    have front : (data.take buffer.offset).length = buffer.offset :=
      List.length_take_of_le within.offset_le
    have kept : alone.2.bytes = data.drop buffer.offset := passed.bytes_eq
    rwa [within.behind_eq, front, Buffer.behind, kept, List.take_append_drop, front] at ran
  exact ⟨inside, stays, passes, fun _ _ => run_sequence_eq_error_iff_first,
    fun _ _ => run_transaction_eq_ok_iff, fun _ _ => run_transaction_eq_error_iff, apart⟩

/-- The block stops two bytes behind its start, inside of which another block came to its end. -/
theorem failed_block_goes_back :
    let data : Bytes := [7, 0x81, 0x00, 1, 2, 3]
    let buffer : Buffer := ⟨data, 3⟩
    let block : List Program :=
      [.read (.word .w8), .transaction [.read (.bytes 1)], .read (.word .w32)]
    Reached data buffer ∧ (sequence block).run buffer = (.error .outOfBounds, ⟨data, 5⟩) ∧
      (transaction block).run buffer = (.error .outOfBounds, buffer) := by
  intro data buffer block
  have reached : Reached data buffer := .run .start (.sequence [.read (.word .w8), .read .group])
  have stopped : (sequence block).run buffer = (.error .outOfBounds, ⟨data, 5⟩) := rfl
  obtain ⟨_, _, _, _, _, undone, _⟩ :=
    programs_keep_to_the_data data buffer reached (.transaction block) block
  exact ⟨reached, stopped, (undone _ _).mpr ⟨rfl, _, stopped⟩⟩

end Program

end CompactOid
