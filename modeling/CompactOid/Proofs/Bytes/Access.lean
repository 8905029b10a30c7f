import CompactOid.Proofs.Bytes.Buffer
import CompactOid.Proofs.Bytes.Passage

namespace CompactOid

/-! What reads and writes of a buffer do to it, and to each other.

An access has the window of as many bytes as it asks for at its offset.  Whether
it succeeds depends on the length of the buffer alone, which no access changes,
and what it answers on the bytes of its window.  What it changes is told by
`Buffer.Patched`, index by index, and a failed access changes nothing; so
accesses whose windows are apart do not notice each other.
-/

/-- A range of places, which may lie behind the end of the bytes. -/
structure Window where
  offset : Nat
  size : Nat

namespace Window

def Covers (window : Window) (index : Nat) : Prop :=
  window.offset ≤ index ∧ index < window.offset + window.size

instance (window : Window) (index : Nat) : Decidable (window.Covers index) :=
  inferInstanceAs (Decidable (_ ∧ _))

/-- No place is in both windows. -/
def Apart (window other : Window) : Prop :=
  ∀ index, window.Covers index → ¬ other.Covers index

end Window

namespace Buffer

variable {buffer left right : Buffer} {offset : Nat} {written before after : Bytes}
  {window : Window}

/-- The bytes are as many as before, and the same ones in a window. -/
structure Agree (window : Window) (before after : Bytes) : Prop where
  length_eq : after.length = before.length
  same : ∀ index, window.Covers index → after[index]? = before[index]?

/-- The bytes are as many as before, with some put at an offset and all others the same. -/
structure Patched (offset : Nat) (written before after : Bytes) : Prop where
  length_eq : after.length = before.length
  getElem?_eq : ∀ index, after[index]? =
    if Window.Covers ⟨offset, written.length⟩ index then written[index - offset]?
    else before[index]?

theorem Agree.window_eq (agree : Agree window before after) :
    (after.drop window.offset).take window.size = (before.drop window.offset).take window.size := by
  apply List.ext_getElem?
  intro index
  rw [List.getElem?_take, List.getElem?_take, List.getElem?_drop, List.getElem?_drop]
  split
  · apply agree.same
    constructor
    all_goals omega
  · rfl

theorem Agree.trans {middle : Bytes} (first : Agree window before middle)
    (second : Agree window middle after) : Agree window before after :=
  ⟨second.length_eq.trans first.length_eq,
    fun index covers => (second.same index covers).trans (first.same index covers)⟩

theorem patched_nil (offset : Nat) (bytes : Bytes) : Patched offset [] bytes bytes := by
  constructor
  · rfl
  · intro index
    have uncovered : ¬ Window.Covers ⟨offset, ([] : Bytes).length⟩ index := by
      simp only [Window.Covers, List.length_nil]
      omega
    rw [if_neg uncovered]

theorem patched_append (front written replaced behind : Bytes)
    (size : replaced.length = written.length) :
    Patched front.length written (front ++ (replaced ++ behind)) (front ++ written ++ behind) := by
  constructor
  · simp only [List.length_append]
    omega
  · intro index
    simp only [Window.Covers, List.append_assoc, List.getElem?_append, size]
    by_cases earlier : index < front.length
    · rw [if_pos earlier, if_pos earlier, if_neg (by omega)]
    · rw [if_neg earlier, if_neg earlier]
      by_cases inside : index - front.length < written.length
      · rw [if_pos inside, if_pos (by omega)]
      · rw [if_neg inside, if_neg inside, if_neg (by omega)]

theorem Patched.agree (patched : Patched offset written before after)
    (apart : window.Apart ⟨offset, written.length⟩) : Agree window before after :=
  ⟨patched.length_eq, fun index covers => by
    rw [patched.getElem?_eq, if_neg (apart index covers)]⟩

theorem Patched.comm {here there : Nat} {one two start first second last last' : Bytes}
    (apart : Window.Apart ⟨here, one.length⟩ ⟨there, two.length⟩)
    (left : Patched here one start first) (both : Patched there two first last)
    (right : Patched there two start second) (both' : Patched here one second last') :
    last = last' := by
  apply List.ext_getElem?
  intro index
  rw [both.getElem?_eq, left.getElem?_eq, both'.getElem?_eq, right.getElem?_eq]
  by_cases covered : Window.Covers ⟨here, one.length⟩ index
  · rw [if_neg (apart index covered), if_pos covered, if_pos covered]
  · rw [if_neg covered, if_neg covered]

/-- What can be asked of a buffer at its offset. -/
inductive Access where
  | read (width : Width)
  | write (width : Width) (value : Nat)
  | writeBytes (written : Bytes)

namespace Access

/-- What an access answers, and the buffer that it leaves. -/
def run (buffer : Buffer) : Access → Except Fault (Option Nat) × Buffer
  | .read width => (buffer.read width).map (Except.map some) id
  | .write width value => (buffer.write width value).map (Except.map fun _ => none) id
  | .writeBytes written => (buffer.writeBytes written).map (Except.map fun _ => none) id

/-- How many bytes an access asks for. -/
def size : Access → Nat
  | .read width => width.size
  | .write width _ => width.size
  | .writeBytes written => written.length

/-- The bytes that an access puts at the offset. -/
def form : Access → Bytes
  | .read _ => []
  | .write width value => LittleEndian.encode width.size value
  | .writeBytes written => written

/-- The number that a read finds; writes answer with none. -/
def answer (buffer : Buffer) : Access → Option Nat
  | .read width => some (LittleEndian.decode (buffer.rest.take width.size))
  | .write _ _ => none
  | .writeBytes _ => none

variable {access : Access}

theorem length_form_le (access : Access) : access.form.length ≤ access.size := by
  cases access with
  | read width => exact Nat.zero_le _
  | write width value =>
      rw [form, LittleEndian.length_encode]
      exact Nat.le_refl _
  | writeBytes written => exact Nat.le_refl _

theorem size_write (width : Width) (value : Nat) :
    (write width value).size = (writeBytes (LittleEndian.encode width.size value)).size :=
  (LittleEndian.length_encode width.size value).symm

theorem run_write (buffer : Buffer) (width : Width) (value : Nat) :
    (write width value).run buffer =
      (writeBytes (LittleEndian.encode width.size value)).run buffer := by
  rw [run, run, Buffer.write]

theorem run_writeBytes_of_room (room : buffer.offset + written.length ≤ buffer.bytes.length) :
    ∃ bytes, (writeBytes written).run buffer =
        (.ok none, ⟨bytes, buffer.offset + written.length⟩) ∧
      Patched buffer.offset written buffer.bytes bytes := by
  obtain ⟨before, replaced, behind, bytes, front, covered⟩ :=
    holds_iff_divided.mp (holds_iff.mpr room)
  have result := writeBytes_eq_ok_iff.mpr ⟨before, replaced, behind, bytes, front, covered, rfl⟩
  refine ⟨_, prodMap_eq_ok_iff.mpr ⟨(), result, rfl⟩, ?_⟩
  rw [bytes, ← front]
  exact patched_append before written replaced behind covered

/-- An access that has room moves the offset over its window and puts its bytes there. -/
theorem run_of_room (room : buffer.offset + access.size ≤ buffer.bytes.length) :
    ∃ bytes, access.run buffer =
        (.ok (access.answer buffer), ⟨bytes, buffer.offset + access.size⟩) ∧
      Patched buffer.offset access.form buffer.bytes bytes := by
  cases access with
  | read width =>
      have held : buffer.holds width.size = true := holds_iff.mpr room
      rw [run, Buffer.read, if_pos held]
      exact ⟨buffer.bytes, rfl, patched_nil _ _⟩
  | write width value =>
      rw [size_write] at room ⊢
      rw [run_write]
      exact run_writeBytes_of_room room
  | writeBytes written => exact run_writeBytes_of_room room

theorem run_of_no_room (short : ¬ buffer.offset + access.size ≤ buffer.bytes.length) :
    access.run buffer = (.error .outOfBounds, buffer) := by
  have missing := Nat.not_le.mp short
  cases access with
  | read width => exact prodMap_eq_error_iff.mpr (read_eq_error_iff.mpr ⟨rfl, rfl, missing⟩)
  | write width value =>
      rw [size_write] at missing
      exact prodMap_eq_error_iff.mpr (writeBytes_eq_error_iff.mpr ⟨rfl, rfl, missing⟩)
  | writeBytes written =>
      exact prodMap_eq_error_iff.mpr (writeBytes_eq_error_iff.mpr ⟨rfl, rfl, missing⟩)

/-- An access succeeds exactly if it has room. -/
theorem run_succeeds_iff :
    (∃ answer after, access.run buffer = (.ok answer, after)) ↔
      buffer.offset + access.size ≤ buffer.bytes.length := by
  constructor
  · intro succeeded
    obtain ⟨answer, after, ran⟩ := succeeded
    apply Decidable.byContradiction
    intro short
    rw [run_of_no_room short] at ran
    cases ran
  · intro room
    obtain ⟨bytes, ran, _⟩ := run_of_room room
    exact ⟨_, _, ran⟩

theorem effect_of_run {answered : Option Nat} {after : Buffer}
    (ran : access.run buffer = (.ok answered, after)) :
    answered = access.answer buffer ∧ after.offset = buffer.offset + access.size ∧
      Patched buffer.offset access.form buffer.bytes after.bytes := by
  obtain ⟨bytes, ran', patched⟩ := run_of_room (run_succeeds_iff.mp ⟨answered, after, ran⟩)
  rw [ran'] at ran
  cases ran
  exact ⟨rfl, rfl, patched⟩

theorem effect_of_failed {fault : Fault} {after : Buffer}
    (failed : access.run buffer = (.error fault, after)) :
    fault = .outOfBounds ∧ after = buffer := by
  by_cases room : buffer.offset + access.size ≤ buffer.bytes.length
  · obtain ⟨bytes, ran, _⟩ := run_of_room room
    rw [ran] at failed
    cases failed
  · rw [run_of_no_room room] at failed
    cases failed
    exact ⟨rfl, rfl⟩

/-- What was written is read again at the offset that the write had. -/
theorem read_of_write {width : Width} {value : Nat} {answered : Option Nat} {after : Buffer}
    (small : value < LittleEndian.capacity width.size)
    (ran : (write width value).run buffer = (.ok answered, after)) :
    (read width).run (after.seek buffer.offset) = (.ok (some value), after) := by
  obtain ⟨_, result, _⟩ := prodMap_eq_ok_iff.mp ran
  obtain ⟨before, replaced, behind, _, front, _, rfl⟩ := writeBytes_eq_ok_iff.mp result
  have divided : (before ++ LittleEndian.encode width.size value ++ behind).drop buffer.offset =
      LittleEndian.encode width.size value ++ behind := by
    rw [← front, List.append_assoc, List.drop_left]
  exact prodMap_eq_ok_iff.mpr ⟨value, read_eq_ok_iff.mpr ⟨small, passes_of_rest divided⟩, rfl⟩

theorem answer_of_agree (agree : Agree ⟨left.offset, access.size⟩ left.bytes right.bytes)
    (place : right.offset = left.offset) : access.answer right = access.answer left := by
  cases access with
  | read width =>
      have same := agree.window_eq
      rw [answer, answer, rest, rest, place]
      exact congrArg (fun window => some (LittleEndian.decode window)) same
  | write width value => rfl
  | writeBytes written => rfl

/-- What an access answers, and where it leaves the offset, is told by its window. -/
theorem run_of_agree (agree : Agree ⟨left.offset, access.size⟩ left.bytes right.bytes)
    (place : right.offset = left.offset) :
    (access.run right).1 = (access.run left).1 ∧
      (access.run right).2.offset = (access.run left).2.offset := by
  have length := agree.length_eq
  by_cases room : left.offset + access.size ≤ left.bytes.length
  · have room' : right.offset + access.size ≤ right.bytes.length := by rwa [place, length]
    obtain ⟨_, ran, _⟩ := run_of_room room
    obtain ⟨_, ran', _⟩ := run_of_room room'
    rw [ran, ran', answer_of_agree agree place, place]
    exact ⟨rfl, rfl⟩
  · have short : ¬ right.offset + access.size ≤ right.bytes.length := by rwa [place, length]
    rw [run_of_no_room room, run_of_no_room short]
    exact ⟨rfl, place⟩

end Access

/-- An access at an offset that the caller names. -/
structure Step where
  offset : Nat
  access : Access

namespace Step

variable {step one two : Step} {steps : List Step}

def run (buffer : Buffer) (step : Step) : Except Fault (Option Nat) × Buffer :=
  step.access.run (buffer.seek step.offset)

/-- The bytes that a step asks for. -/
def asked (step : Step) : Window :=
  ⟨step.offset, step.access.size⟩

/-- The bytes that a step changes if it succeeds. -/
def changed (step : Step) : Window :=
  ⟨step.offset, step.access.form.length⟩

/-- The bytes that a step puts into a buffer of some length: all that it has, or none. -/
def placed (step : Step) (length : Nat) : Bytes :=
  if step.offset + step.access.size ≤ length then step.access.form else []

theorem changed_of_placed {length index : Nat}
    (covered : Window.Covers ⟨step.offset, (step.placed length).length⟩ index) :
    step.changed.Covers index := by
  rw [placed] at covered
  split at covered
  · exact covered
  · simp only [Window.Covers, List.length_nil] at covered
    omega

theorem asked_of_changed {index : Nat} (covered : step.changed.Covers index) :
    step.asked.Covers index := by
  have small := step.access.length_form_le
  simp only [changed, asked, Window.Covers] at covered ⊢
  omega

theorem run_patched (step : Step) (buffer : Buffer) :
    Patched step.offset (step.placed buffer.bytes.length) buffer.bytes
      (step.run buffer).2.bytes := by
  rw [placed]
  split
  · rename_i room
    obtain ⟨bytes, ran, patched⟩ : ∃ bytes, step.run buffer = (_, ⟨bytes, _⟩) ∧
        Patched step.offset step.access.form buffer.bytes bytes := Access.run_of_room room
    rw [ran]
    exact patched
  · rename_i short
    have stays : step.run buffer = (_, buffer.seek step.offset) := Access.run_of_no_room short
    rw [stays]
    exact patched_nil _ _

theorem run_agree (apart : window.Apart step.changed) (buffer : Buffer) :
    Agree window buffer.bytes (step.run buffer).2.bytes := by
  apply (step.run_patched buffer).agree
  intro index covered covers
  exact apart index covered (changed_of_placed covers)

theorem run_of_agree {before after : Buffer} (agree : Agree step.asked before.bytes after.bytes) :
    (step.run after).1 = (step.run before).1 ∧
      (step.run after).2.offset = (step.run before).2.offset :=
  Access.run_of_agree agree rfl

end Step

/-- The buffer after accesses, those that fail included. -/
def runAll (buffer : Buffer) (steps : List Step) : Buffer :=
  steps.foldl (fun buffer step => (step.run buffer).2) buffer

theorem agree_runAll {steps : List Step} (apart : ∀ step ∈ steps, window.Apart step.changed)
    (buffer : Buffer) : Agree window buffer.bytes (buffer.runAll steps).bytes := by
  induction steps generalizing buffer with
  | nil => exact ⟨rfl, fun _ _ => rfl⟩
  | cons step later ih =>
      obtain ⟨head, tail⟩ := List.forall_mem_cons.mp apart
      exact (Step.run_agree head buffer).trans (ih tail _)

/-- What two accesses do is the same in either order, if neither changes what the other asks for. -/
theorem run_comm {one two : Step} (apart : one.asked.Apart two.asked) (buffer : Buffer) :
    ∃ bytes,
      two.run (one.run buffer).2 = ((two.run buffer).1, ⟨bytes, (two.run buffer).2.offset⟩) ∧
      one.run (two.run buffer).2 = ((one.run buffer).1, ⟨bytes, (one.run buffer).2.offset⟩) := by
  have sparesTwo : Agree two.asked buffer.bytes (one.run buffer).2.bytes := by
    apply Step.run_agree
    intro index asked changed
    exact apart index (Step.asked_of_changed changed) asked
  have sparesOne : Agree one.asked buffer.bytes (two.run buffer).2.bytes := by
    apply Step.run_agree
    intro index asked changed
    exact apart index asked (Step.asked_of_changed changed)
  obtain ⟨answerTwo, offsetTwo⟩ := Step.run_of_agree sparesTwo
  obtain ⟨answerOne, offsetOne⟩ := Step.run_of_agree sparesOne
  -- Each step has room in either order or in none, since the other one keeps the length.
  have last := two.run_patched (one.run buffer).2
  have last' := one.run_patched (two.run buffer).2
  rw [sparesTwo.length_eq] at last
  rw [sparesOne.length_eq] at last'
  have same : (two.run (one.run buffer).2).2.bytes = (one.run (two.run buffer).2).2.bytes := by
    apply Patched.comm _ (one.run_patched buffer) last (two.run_patched buffer) last'
    intro index covered covers
    exact apart index (Step.asked_of_changed (Step.changed_of_placed covered))
      (Step.asked_of_changed (Step.changed_of_placed covers))
  have right : two.run (one.run buffer).2 =
      ((two.run buffer).1, ⟨(two.run (one.run buffer).2).2.bytes, (two.run buffer).2.offset⟩) := by
    rw [← answerTwo, ← offsetTwo]
  have left : one.run (two.run buffer).2 =
      ((one.run buffer).1, ⟨(two.run (one.run buffer).2).2.bytes, (one.run buffer).2.offset⟩) := by
    rw [← answerOne, ← offsetOne, same]
  exact ⟨_, right, left⟩

/-- An access succeeds exactly if its window ends within the bytes, which machine words tell too, as
far as they go.  Then it moves the offset behind the window and changes the bytes that it puts there,
which are read back, and no others; if it fails it changes nothing.  Accesses whose windows are apart are the same in either order, and what an
access answers is not changed by any that put nothing into its window, whether they fail or not. -/
theorem accesses_keep_to_their_windows (buffer : Buffer) :
    (∀ access : Access, (∃ answer after, access.run buffer = (.ok answer, after)) ↔
      buffer.offset + access.size ≤ buffer.bytes.length) ∧
    (∀ (access : Access) (length offset size : UInt64), length.toNat = buffer.bytes.length →
      offset.toNat = buffer.offset → size.toNat = access.size →
        ((∃ answer after, access.run buffer = (.ok answer, after)) ↔
          inBounds length offset size = true)) ∧
    (∀ (access : Access) answer after, access.run buffer = (.ok answer, after) →
      answer = access.answer buffer ∧ after.offset = buffer.offset + access.size ∧
        Patched buffer.offset access.form buffer.bytes after.bytes) ∧
    (∀ (access : Access) fault after, access.run buffer = (.error fault, after) →
      fault = .outOfBounds ∧ after = buffer) ∧
    (∀ width value answer after, value < LittleEndian.capacity width.size →
      (Access.write width value).run buffer = (.ok answer, after) →
        (Access.read width).run (after.seek buffer.offset) = (.ok (some value), after)) ∧
    (∀ one two : Step, one.asked.Apart two.asked →
      ∃ bytes,
        two.run (one.run buffer).2 = ((two.run buffer).1, ⟨bytes, (two.run buffer).2.offset⟩) ∧
        one.run (two.run buffer).2 = ((one.run buffer).1, ⟨bytes, (one.run buffer).2.offset⟩)) ∧
    (∀ (asking : Step) steps, (∀ step ∈ steps, asking.asked.Apart step.changed) →
      (asking.run (buffer.runAll steps)).1 = (asking.run buffer).1) := by
  have spared : ∀ (asking : Step) steps, (∀ step ∈ steps, asking.asked.Apart step.changed) →
      (asking.run (buffer.runAll steps)).1 = (asking.run buffer).1 := by
    intro asking steps apart
    exact (Step.run_of_agree (agree_runAll apart buffer)).1
  have words : ∀ (access : Access) (length offset size : UInt64),
      length.toNat = buffer.bytes.length → offset.toNat = buffer.offset →
        size.toNat = access.size → ((∃ answer after, access.run buffer = (.ok answer, after)) ↔
          inBounds length offset size = true) := by
    intro access length offset size whole start asked
    rw [Access.run_succeeds_iff, inBounds_iff, whole, start, asked]
  exact ⟨fun _ => Access.run_succeeds_iff, words, fun _ _ _ => Access.effect_of_run,
    fun _ _ _ => Access.effect_of_failed, fun _ _ _ _ => Access.read_of_write,
    fun _ _ apart => run_comm apart buffer, spared⟩

/-- The second write behind the word has no room, and none of the three comes into the word.  At the
largest offset the sum of the words wraps around. -/
theorem word_among_writes :
    let buffer : Buffer := ⟨[1, 2, 3, 4, 5, 6, 7, 8], 2⟩
    let word : Step := ⟨2, .read .w16⟩
    let behind : Step := ⟨4, .write .w32 0x25⟩
    let steps : List Step := [behind, ⟨7, .writeBytes [9, 9]⟩, ⟨0, .write .w8 7⟩]
    let after : Buffer := ⟨[1, 2, 0x10, 0x20, 5, 6, 7, 8], 4⟩
    (∀ step ∈ steps, word.asked.Apart step.changed) ∧
      (word.run (buffer.runAll steps)).1 = .ok (some 0x0403) ∧
      (Access.write .w16 0x2010).run buffer = (.ok none, after) ∧
      Patched 2 [0x10, 0x20] buffer.bytes after.bytes ∧
      (Access.read .w16).run (after.seek 2) = (.ok (some 0x2010), after) ∧
      (word.run (behind.run buffer).2).1 = (word.run buffer).1 ∧
      (Access.write .w64 0).run buffer = (.error .outOfBounds, buffer) ∧
      ¬ ∃ answer left, (Access.read .w8).run (buffer.seek 0xFFFFFFFFFFFFFFFF) = (.ok answer, left) := by
  intro buffer word behind steps after
  have apart : ∀ step ∈ steps, word.asked.Apart step.changed := by
    intro step member index asked changed
    simp only [steps, List.mem_cons, List.not_mem_nil, or_false] at member
    rcases member with rfl | rfl | rfl
    all_goals
      simp only [word, behind, Step.asked, Step.changed, Window.Covers, Access.size, Access.form,
        Width.size, LittleEndian.length_encode, List.length_cons, List.length_nil] at asked changed
      omega
  have apart' : word.asked.Apart behind.asked := apart behind List.mem_cons_self
  have stored : (Access.write .w16 0x2010).run buffer = (.ok none, after) := rfl
  have failed : (Access.write .w64 0).run buffer = (.error .outOfBounds, buffer) := rfl
  obtain ⟨_, _, effect, _, readBack, comm, spared⟩ := accesses_keep_to_their_windows buffer
  obtain ⟨_, words, _⟩ := accesses_keep_to_their_windows (buffer.seek 0xFFFFFFFFFFFFFFFF)
  obtain ⟨_, _, patched⟩ := effect _ _ _ stored
  obtain ⟨_, _, swapped⟩ := comm word behind apart'
  have unmoved : (word.run (behind.run buffer).2).1 = (word.run buffer).1 := by rw [swapped]
  have wrapped : ¬ ∃ answer left,
      (Access.read .w8).run (buffer.seek 0xFFFFFFFFFFFFFFFF) = (.ok answer, left) := by
    rw [words (.read .w8) 8 0xFFFFFFFFFFFFFFFF 1 rfl rfl rfl]
    decide
  exact ⟨apart, spared word steps apart, stored, patched, readBack _ _ _ _ (by decide) stored,
    unmoved, failed, wrapped⟩

end Buffer

end CompactOid
