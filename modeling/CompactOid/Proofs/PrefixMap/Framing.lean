import CompactOid.PrefixMap.Framing
import CompactOid.Proofs.Bytes.Cursor
import CompactOid.Proofs.PrefixMap.Frame

namespace CompactOid

/-! Maps as divisions of the bytes that they are read from.

`Frame.Cut` says how the front of a map falls into its header and records, and
`Frame.Truncated` that a record which the header counts does not fit behind
them.  The walk over the records finds the one or the other, whatever the count
is and whatever comes behind the records.
-/

namespace Frame

/-- The bytes begin with these records, and each of them states the size of its body. -/
structure Lead (frames : List Frame) (rest : Bytes) (data : Bytes) : Prop where
  divided : data = frames.flatMap bytes ++ rest
  bodies_lt : ∀ frame ∈ frames, frame.body.length < UInt16.size

/-- The data begin with a header that counts and declares this much, and with these records. -/
structure Cut (data : Bytes) (count declared : Nat) (frames : List Frame) (rest : Bytes) : Prop where
  count_lt : count < UInt32.size
  declared_lt : declared < UInt32.size
  divided : data = LittleEndian.encode 4 count ++ LittleEndian.encode 4 declared ++
    (frames.flatMap bytes ++ rest)
  bodies_lt : ∀ frame ∈ frames, frame.body.length < UInt16.size

/-- No record fits into the bytes: they end inside its header, or inside the body that it states. -/
inductive Overruns (index offset available : Nat) (data : Bytes) : Truncation → Prop where
  | header (short : data.length < headerSize) :
      Overruns index offset available data (.recordHeader index offset available)
  | body {code : Code} {size : Nat} {behind : Bytes}
      (divided : data = LittleEndian.encode 2 code.toNat ++ LittleEndian.encode 2 size ++ behind)
      (size_lt : size < UInt16.size) (short : behind.length < size) :
      Overruns index offset available data (.recordBody index size behind.length)

/-- The data end inside the header, or inside one of the records that the header counts. -/
inductive Truncated (data : Bytes) : Truncation → Prop where
  | header (short : data.length < mapHeaderSize) : Truncated data (.header data.length)
  | record {count declared : Nat} {frames : List Frame} {rest : Bytes} {truncation : Truncation}
      (cut : Cut data count declared frames rest) (due : frames.length < count)
      (overruns : Overruns frames.length (mapSize frames) data.length rest truncation) :
      Truncated data truncation

/-- The records end where the header says, and there also the data end unless more is allowed. -/
def Agree (config : Config) (declared spanned available : Nat) : Prop :=
  spanned = declared ∧
    (spanned = available ∨ config.allowTrailing = true ∧ spanned < available)

variable {config : Config} {data rest : Bytes} {frame : Frame} {frames later : List Frame}
  {count declared spanned available : Nat} {fault : Fault}

theorem lead_nil_iff : Lead [] rest data ↔ data = rest :=
  ⟨fun lead => lead.divided, fun same => ⟨same, by simp⟩⟩

theorem lead_cons_iff :
    Lead (frame :: later) rest data ↔
      frame.body.length < UInt16.size ∧
        ∃ behind, data = frame.bytes ++ behind ∧ Lead later rest behind := by
  refine ⟨fun lead => ?_, fun parts => ?_⟩
  · obtain ⟨first, others⟩ := List.forall_mem_cons.mp lead.bodies_lt
    refine ⟨first, later.flatMap bytes ++ rest, ?_, rfl, others⟩
    simpa using lead.divided
  · obtain ⟨first, behind, divided, others⟩ := parts
    refine ⟨?_, List.forall_mem_cons.mpr ⟨first, others.bodies_lt⟩⟩
    rw [divided, others.divided]
    simp

theorem lengthsAgree_iff :
    lengthsAgree config declared spanned available = true ↔
      Agree config declared spanned available := by
  simp [lengthsAgree, Agree]

end Frame

namespace Walk

variable {walk next last : Walk} {available count size : Nat} {fault : Fault} {cursor after : Cursor}
  {code : Code}

theorem recordHeader?_eq_map (cursor : Cursor) :
    recordHeader? cursor = (cursor.wordPair? .w16).map
      fun found => ((UInt16.ofNat found.1.1, found.1.2), found.2) := by
  cases left : cursor.word? .w16 with
  | none => simp [recordHeader?, Cursor.wordPair?, left]
  | some found =>
      cases right : found.2.word? .w16 <;> simp [recordHeader?, Cursor.wordPair?, left, right]

theorem recordHeader?_eq_some_iff :
    recordHeader? cursor = some ((code, size), after) ↔
      size < UInt16.size ∧
      cursor.rest = LittleEndian.encode 2 code.toNat ++ LittleEndian.encode 2 size ++ after.rest ∧
      after.position = cursor.position + Frame.headerSize := by
  rw [recordHeader?_eq_map]
  refine ⟨fun found => ?_, fun divided => ?_⟩
  · obtain ⟨⟨⟨value, field⟩, behind⟩, pair, same⟩ := Option.map_eq_some_iff.mp found
    cases same
    obtain ⟨codeSmall, sizeSmall, divided, moved⟩ := Cursor.wordPair?_eq_some_iff.mp pair
    refine ⟨sizeSmall, ?_, moved⟩
    rw [UInt16.toNat_ofNat_of_lt' codeSmall]
    exact divided
  · obtain ⟨small, divided, moved⟩ := divided
    have pair : cursor.wordPair? .w16 = some ((code.toNat, size), after) :=
      Cursor.wordPair?_eq_some_iff.mpr ⟨code.toNat_lt, small, divided, moved⟩
    simp [pair]

theorem recordHeader?_eq_none_iff :
    recordHeader? cursor = none ↔ cursor.rest.length < Frame.headerSize := by
  rw [recordHeader?_eq_map, Option.map_eq_none_iff]
  exact Cursor.wordPair?_eq_none_iff

/-- The walk behind these records, with this much left to read. -/
def past (walk : Walk) (frames : List Frame) (rest : Bytes) : Walk :=
  ⟨⟨walk.cursor.position + Frame.recordsSize frames, rest⟩, frames.reverse ++ walk.frames⟩

theorem past_nil (walk : Walk) : walk.past [] walk.cursor.rest = walk := rfl

theorem past_past (walk : Walk) (frame : Frame) (later : List Frame) (behind rest : Bytes) :
    (walk.past [frame] behind).past later rest = walk.past (frame :: later) rest := by
  simp [past, Nat.add_assoc]

theorem step_eq_ok_iff :
    walk.step available = .ok next ↔
      ∃ frame behind, frame.body.length < UInt16.size ∧
        walk.cursor.rest = frame.bytes ++ behind ∧ next = walk.past [frame] behind := by
  refine ⟨fun stepped => ?_, fun passed => ?_⟩
  · simp only [step] at stepped
    split at stepped
    · contradiction
    · rename_i code size behindHeader header
      split at stepped
      · contradiction
      · rename_i body behindRecord taken
        cases stepped
        obtain ⟨small, front, moved⟩ := recordHeader?_eq_some_iff.mp header
        obtain ⟨rfl, back, stopped⟩ := Cursor.take?_eq_some_iff.mp taken
        refine ⟨⟨code, body⟩, behindRecord.rest, small, ?_, ?_⟩
        · rw [front, back]
          simp [Frame.bytes]
        · obtain ⟨position, rest⟩ := behindRecord
          simp only at stopped
          simp [past, Frame.size, stopped, moved, Nat.add_assoc]
  · obtain ⟨frame, behind, small, divided, rfl⟩ := passed
    have header : recordHeader? walk.cursor = some ((frame.code, frame.body.length),
        ⟨walk.cursor.position + Frame.headerSize, frame.body ++ behind⟩) :=
      recordHeader?_eq_some_iff.mpr ⟨small, by rw [divided]; simp [Frame.bytes], rfl⟩
    have taken : (Cursor.mk (walk.cursor.position + Frame.headerSize) (frame.body ++ behind)).take?
        frame.body.length = some (frame.body,
          ⟨walk.cursor.position + Frame.headerSize + frame.body.length, behind⟩) :=
      Cursor.take?_eq_some_iff.mpr ⟨rfl, rfl, rfl⟩
    simp [step, header, taken, past, Frame.size, Nat.add_assoc]

/-- The record after those passed does not fit. -/
def Stuck (walk : Walk) (available : Nat) (truncation : Truncation) : Prop :=
  Frame.Overruns walk.frames.length walk.cursor.position available walk.cursor.rest truncation

theorem step_eq_error_iff :
    walk.step available = .error fault ↔
      ∃ truncation, walk.Stuck available truncation ∧ fault = .truncatedMap truncation := by
  refine ⟨fun stepped => ?_, fun stuck => ?_⟩
  · simp only [step] at stepped
    split at stepped
    · rename_i header
      cases stepped
      exact ⟨_, .header (recordHeader?_eq_none_iff.mp header), rfl⟩
    · rename_i code size behindHeader header
      split at stepped
      · rename_i taken
        cases stepped
        obtain ⟨small, front, _⟩ := recordHeader?_eq_some_iff.mp header
        exact ⟨_, .body front small (Cursor.take?_eq_none_iff.mp taken), rfl⟩
      · contradiction
  · obtain ⟨truncation, overruns, rfl⟩ := stuck
    cases overruns with
    | header short => simp only [step, recordHeader?_eq_none_iff.mpr short]
    | @body code size behind divided small short =>
        have header : recordHeader? walk.cursor = some ((code, size),
            ⟨walk.cursor.position + Frame.headerSize, behind⟩) :=
          recordHeader?_eq_some_iff.mpr ⟨small, divided, rfl⟩
        have missing : (Cursor.mk (walk.cursor.position + Frame.headerSize) behind).take? size = none :=
          Cursor.take?_eq_none_iff.mpr short
        simp only [step, header, missing]
        rfl

/-- The walk passes as many records as it is to pass, and stops right behind them. -/
theorem steps_eq_ok_iff :
    steps available count walk = .ok last ↔
      ∃ frames rest, frames.length = count ∧ Frame.Lead frames rest walk.cursor.rest ∧
        last = walk.past frames rest := by
  induction count generalizing walk with
  | zero =>
      refine ⟨fun stopped => ?_, fun passed => ?_⟩
      · cases stopped
        exact ⟨[], last.cursor.rest, rfl, Frame.lead_nil_iff.mpr rfl, (past_nil last).symm⟩
      · obtain ⟨frames, rest, none, lead, rfl⟩ := passed
        cases List.eq_nil_of_length_eq_zero none
        cases Frame.lead_nil_iff.mp lead
        rw [past_nil]
        rfl
  | succ count ih =>
      refine ⟨fun walked => ?_, fun passed => ?_⟩
      · simp only [steps] at walked
        split at walked
        · contradiction
        · rename_i next stepped
          obtain ⟨frame, behind, small, divided, rfl⟩ := step_eq_ok_iff.mp stepped
          obtain ⟨later, rest, counted, others, rfl⟩ := ih.mp walked
          exact ⟨frame :: later, rest, congrArg Nat.succ counted,
            Frame.lead_cons_iff.mpr ⟨small, behind, divided, others⟩,
            past_past walk frame later behind rest⟩
      · obtain ⟨frames, rest, counted, lead, rfl⟩ := passed
        obtain ⟨frame, later, rfl⟩ := List.exists_cons_of_length_eq_add_one counted
        obtain ⟨small, behind, divided, others⟩ := Frame.lead_cons_iff.mp lead
        have stepped : walk.step available = .ok (walk.past [frame] behind) :=
          step_eq_ok_iff.mpr ⟨frame, behind, small, divided, rfl⟩
        simp only [steps, stepped]
        exact ih.mpr ⟨later, rest, Nat.succ.inj counted, others,
          (past_past walk frame later behind rest).symm⟩

/-- A walk that fails has passed fewer records, and the next one does not fit. -/
theorem steps_eq_error_iff :
    steps available count walk = .error fault ↔
      ∃ frames rest truncation, frames.length < count ∧ Frame.Lead frames rest walk.cursor.rest ∧
        (walk.past frames rest).Stuck available truncation ∧ fault = .truncatedMap truncation := by
  induction count generalizing walk with
  | zero => simp [steps]
  | succ count ih =>
      refine ⟨fun walked => ?_, fun failed => ?_⟩
      · simp only [steps] at walked
        split at walked
        · rename_i first stepped
          cases walked
          obtain ⟨truncation, stuck, rfl⟩ := step_eq_error_iff.mp stepped
          exact ⟨[], walk.cursor.rest, truncation, Nat.zero_lt_succ count,
            Frame.lead_nil_iff.mpr rfl, stuck, rfl⟩
        · rename_i next stepped
          obtain ⟨frame, behind, small, divided, rfl⟩ := step_eq_ok_iff.mp stepped
          obtain ⟨later, rest, truncation, due, others, stuck, rfl⟩ := ih.mp walked
          rw [past_past] at stuck
          exact ⟨frame :: later, rest, truncation, Nat.succ_lt_succ due,
            Frame.lead_cons_iff.mpr ⟨small, behind, divided, others⟩, stuck, rfl⟩
      · obtain ⟨frames, rest, truncation, due, lead, stuck, rfl⟩ := failed
        cases frames with
        | nil =>
            cases Frame.lead_nil_iff.mp lead
            have stepped : walk.step available = .error (.truncatedMap truncation) :=
              step_eq_error_iff.mpr ⟨truncation, stuck, rfl⟩
            simp only [steps, stepped]
        | cons frame later =>
            obtain ⟨small, behind, divided, others⟩ := Frame.lead_cons_iff.mp lead
            have stepped : walk.step available = .ok (walk.past [frame] behind) :=
              step_eq_ok_iff.mpr ⟨frame, behind, small, divided, rfl⟩
            rw [← past_past walk frame later behind rest] at stuck
            simp only [steps, stepped]
            exact ih.mpr ⟨later, rest, truncation, Nat.lt_of_succ_lt_succ due, others, stuck, rfl⟩

/-- A walk that starts behind the header of a map stands where its records so far end. -/
theorem stuck_past_iff {frames : List Frame} {rest : Bytes} {truncation : Truncation}
    (start : cursor.position = Frame.mapHeaderSize) :
    (past ⟨cursor, []⟩ frames rest).Stuck available truncation ↔
      Frame.Overruns frames.length (Frame.mapSize frames) available rest truncation := by
  simp only [Stuck, past, start, ← Frame.mapSize_eq, List.append_nil, List.length_reverse]

end Walk

namespace Frame

variable {config : Config} {policy : Policy} {data rest : Bytes} {frames : List Frame}
  {count declared : Nat} {fault : Fault} {cursor : Cursor}

theorem mapHeader?_eq_some_iff :
    mapHeader? data = some ((count, declared), cursor) ↔
      count < UInt32.size ∧ declared < UInt32.size ∧
      data = LittleEndian.encode 4 count ++ LittleEndian.encode 4 declared ++ cursor.rest ∧
      cursor.position = mapHeaderSize :=
  Cursor.wordPair?_eq_some_iff

theorem mapHeader?_eq_none_iff : mapHeader? data = none ↔ data.length < mapHeaderSize :=
  Cursor.wordPair?_eq_none_iff

theorem cut_iff :
    Cut data count declared frames rest ↔
      ∃ cursor, mapHeader? data = some ((count, declared), cursor) ∧ Lead frames rest cursor.rest := by
  refine ⟨fun cut => ?_, fun parts => ?_⟩
  · have header : mapHeader? data =
        some ((count, declared), ⟨mapHeaderSize, frames.flatMap bytes ++ rest⟩) :=
      mapHeader?_eq_some_iff.mpr ⟨cut.count_lt, cut.declared_lt, cut.divided, rfl⟩
    exact ⟨_, header, rfl, cut.bodies_lt⟩
  · obtain ⟨cursor, header, lead⟩ := parts
    obtain ⟨countSmall, declaredSmall, divided, _⟩ := mapHeader?_eq_some_iff.mp header
    exact ⟨countSmall, declaredSmall, by rw [divided, lead.divided], lead.bodies_lt⟩

theorem Cut.length_eq (cut : Cut data count declared frames rest) :
    data.length = mapSize frames + rest.length := by
  rw [cut.divided, mapSize_eq, ← length_records]
  simp only [List.length_append, LittleEndian.length_encode, mapHeaderSize]
  omega

/-- Records follow each other without a choice, so their number tells which they are. -/
theorem Lead.unique {others : List Frame} {behind : Bytes} (lead : Lead frames rest data)
    (again : Lead others behind data) (same : frames.length = others.length) :
    frames = others ∧ rest = behind := by
  let start : Walk := ⟨Cursor.ofBytes data, []⟩
  have walked : Walk.steps data.length frames.length start = .ok (start.past frames rest) :=
    Walk.steps_eq_ok_iff.mpr ⟨frames, rest, rfl, lead, rfl⟩
  have walked' : Walk.steps data.length frames.length start = .ok (start.past others behind) :=
    Walk.steps_eq_ok_iff.mpr ⟨others, behind, same.symm, again, rfl⟩
  have stopped := Except.ok.inj (walked.symm.trans walked')
  simp only [start, Walk.past, Walk.mk.injEq, Cursor.mk.injEq, List.append_nil,
    List.reverse_inj] at stopped
  exact ⟨stopped.2, stopped.1.2⟩

/-- The header and what it counts leave no choice. -/
theorem Cut.unique {other : List Frame} {stated : Nat} {behind : Bytes}
    (cut : Cut data frames.length declared frames rest)
    (again : Cut data other.length stated other behind) : frames = other ∧ rest = behind := by
  obtain ⟨cursor, header, lead⟩ := cut_iff.mp cut
  obtain ⟨start, header', lead'⟩ := cut_iff.mp again
  have same := header.symm.trans header'
  simp only [Option.some.injEq, Prod.mk.injEq] at same
  obtain ⟨⟨count, _⟩, rfl⟩ := same
  exact lead.unique lead' count

theorem cut_or_truncated (data : Bytes) :
    (∃ declared frames rest, Cut data frames.length declared frames rest) ∨
      ∃ truncation, Truncated data truncation := by
  cases header : mapHeader? data with
  | none => exact .inr ⟨_, .header (mapHeader?_eq_none_iff.mp header)⟩
  | some found =>
      obtain ⟨⟨count, declared⟩, cursor⟩ := found
      cases walked : Walk.steps data.length count ⟨cursor, []⟩ with
      | ok walk =>
          obtain ⟨frames, rest, rfl, lead, _⟩ := Walk.steps_eq_ok_iff.mp walked
          exact .inl ⟨declared, frames, rest, cut_iff.mpr ⟨cursor, header, lead⟩⟩
      | error fault =>
          obtain ⟨frames, rest, truncation, due, lead, stuck, _⟩ :=
            Walk.steps_eq_error_iff.mp walked
          have start := (mapHeader?_eq_some_iff.mp header).2.2.2
          exact .inr ⟨truncation, .record (cut_iff.mpr ⟨cursor, header, lead⟩) due
            ((Walk.stuck_past_iff start).mp stuck)⟩

theorem ofMap_of_truncated (config : Config) {truncation : Truncation}
    (truncated : Truncated data truncation) :
    ofMap config data = .error (.truncatedMap truncation) := by
  cases truncated with
  | header short => simp only [ofMap, mapHeader?_eq_none_iff.mpr short]
  | @record count declared frames rest _ cut due overruns =>
      obtain ⟨cursor, header, lead⟩ := cut_iff.mp cut
      have start := (mapHeader?_eq_some_iff.mp header).2.2.2
      have walked : Walk.steps data.length count ⟨cursor, []⟩ = .error (.truncatedMap truncation) :=
        Walk.steps_eq_error_iff.mpr
          ⟨frames, rest, truncation, due, lead, (Walk.stuck_past_iff start).mpr overruns, rfl⟩
      simp only [ofMap, header, walked]

theorem ofMap_of_cut (config : Config) (cut : Cut data frames.length declared frames rest) :
    ofMap config data =
      if lengthsAgree config declared (mapSize frames) data.length then .ok frames
      else .error (.lengthMismatch declared (mapSize frames) data.length) := by
  obtain ⟨cursor, header, lead⟩ := cut_iff.mp cut
  have walked : Walk.steps data.length frames.length ⟨cursor, []⟩ =
      .ok (Walk.past ⟨cursor, []⟩ frames rest) :=
    Walk.steps_eq_ok_iff.mpr ⟨frames, rest, rfl, lead, rfl⟩
  have passed : (Walk.past ⟨cursor, []⟩ frames rest).frames.reverse = frames := by
    simp [Walk.past]
  simp only [ofMap, header, walked, passed]

theorem ofMap_eq_ok_iff :
    ofMap config data = .ok frames ↔
      ∃ declared rest, Cut data frames.length declared frames rest ∧
        Agree config declared (mapSize frames) data.length := by
  refine ⟨fun framed => ?_, fun divided => ?_⟩
  · rcases cut_or_truncated data with ⟨declared, found, rest, cut⟩ | ⟨truncation, truncated⟩
    · rw [ofMap_of_cut config cut] at framed
      split at framed
      · rename_i agree
        cases framed
        exact ⟨declared, rest, cut, lengthsAgree_iff.mp agree⟩
      · contradiction
    · rw [ofMap_of_truncated config truncated] at framed
      contradiction
  · obtain ⟨declared, rest, cut, agree⟩ := divided
    rw [ofMap_of_cut config cut, if_pos (lengthsAgree_iff.mpr agree)]

/-- Where no bytes behind the records are tolerated, the map declares its own length. -/
theorem ofMap_strict_eq_ok_iff :
    ofMap ⟨policy, false⟩ data = .ok frames ↔ Cut data frames.length data.length frames [] := by
  rw [ofMap_eq_ok_iff]
  refine ⟨fun divided => ?_, fun cut => ?_⟩
  · obtain ⟨declared, rest, cut, spanned, whole⟩ := divided
    have ends : mapSize frames = data.length := by simpa using whole
    have length := cut.length_eq
    have nothing : rest = [] := List.eq_nil_of_length_eq_zero (by omega)
    rwa [nothing, ← spanned, ends] at cut
  · have ends : mapSize frames = data.length := by simpa using cut.length_eq.symm
    exact ⟨data.length, [], cut, ends, .inl ends⟩

end Frame

end CompactOid
