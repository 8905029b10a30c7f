import CompactOid.Event
import Mathlib.Data.List.Forall2

namespace CompactOid

variable {ε α β : Type} {first : Except ε α} {result : β} {fault : ε}

theorem bind_eq_ok_iff {next : α → Except ε β} :
    first >>= next = .ok result ↔ ∃ value, first = .ok value ∧ next value = .ok result := by
  cases first <;> simp [bind, Except.bind]

theorem bind_eq_error_iff {next : α → Except ε β} :
    first >>= next = .error fault ↔
      first = .error fault ∨ ∃ value, first = .ok value ∧ next value = .error fault := by
  cases first <;> simp [bind, Except.bind]

theorem map_eq_ok_iff {change : α → β} :
    first.map change = .ok result ↔ ∃ value, first = .ok value ∧ change value = result := by
  cases first <;> simp [Except.map]

section States

variable {σ : Type} {answer : Except ε α × σ} {after : σ} {change : α → β}

/-- An answer is changed and the state beside it is not. -/
theorem prodMap_eq_ok_iff :
    answer.map (Except.map change) id = (.ok result, after) ↔
      ∃ value, answer = (.ok value, after) ∧ change value = result := by
  obtain ⟨outcome, left⟩ := answer
  cases outcome <;> simp [Except.map, and_comm]

theorem prodMap_eq_error_iff :
    answer.map (Except.map change) id = (.error fault, after) ↔ answer = (.error fault, after) := by
  obtain ⟨outcome, left⟩ := answer
  cases outcome <;> simp [Except.map]

end States

theorem Logged.andThen_value (logged : Logged (Except ε α)) (next : α → Logged (Except ε β)) :
    (logged.andThen next).value = logged.value >>= fun value => (next value).value := by
  obtain ⟨outcome, events⟩ := logged
  cases outcome <;> rfl

theorem Logged.andThen_eq_ok_iff {logged : Logged (Except ε α)}
    {next : α → Logged (Except ε β)} :
    (logged.andThen next).value = .ok result ↔
      ∃ value, logged.value = .ok value ∧ (next value).value = .ok result := by
  rw [andThen_value, bind_eq_ok_iff]

theorem Logged.andThen_of_ok {logged : Logged (Except ε α)} {next : α → Logged (Except ε β)}
    {value : α} (ended : logged.value = .ok value) :
    logged.andThen next = ⟨(next value).value, logged.events ++ (next value).events⟩ := by
  rw [andThen, bind, ended]

/-- A fault ends the way with what was reported before it. -/
theorem Logged.andThen_of_error {logged : Logged (Except ε α)} {next : α → Logged (Except ε β)}
    (failed : logged.value = .error fault) :
    logged.andThen next = ⟨.error fault, logged.events⟩ := by
  rw [andThen, bind, failed]
  simp only [silent, List.append_nil]

section Runs

variable {step : α → Except ε β} {list : List α} {results : List β}

/-- Every step succeeds, and the results are in the order of the steps. -/
theorem mapM_eq_ok_iff :
    list.mapM step = .ok results ↔
      List.Forall₂ (fun value result => step value = .ok result) list results := by
  induction list generalizing results with
  | nil =>
      rw [List.forall₂_nil_left_iff, List.mapM_nil]
      exact ⟨fun same => (Except.ok.inj same).symm, fun same => congrArg Except.ok same.symm⟩
  | cons value later ih =>
      simp only [List.mapM_cons, bind_eq_ok_iff, ih, List.forall₂_cons_left_iff]
      refine ⟨fun run => ?_, fun run => ?_⟩
      · obtain ⟨result, first, rest, tail, same⟩ := run
        exact ⟨result, rest, first, tail, (Except.ok.inj same).symm⟩
      · obtain ⟨result, rest, first, tail, rfl⟩ := run
        exact ⟨result, first, rest, tail, rfl⟩

/-- The first step that fails decides the fault, whatever comes behind it. -/
theorem mapM_eq_error_iff :
    list.mapM step = .error fault ↔
      ∃ before bad later results, list = before ++ bad :: later ∧
        List.Forall₂ (fun value result => step value = .ok result) before results ∧
        step bad = .error fault := by
  refine ⟨fun failed => ?_, fun failed => ?_⟩
  · induction list with
    | nil =>
        rw [List.mapM_nil] at failed
        contradiction
    | cons value later ih =>
        rw [List.mapM_cons] at failed
        rcases bind_eq_error_iff.mp failed with refused | ⟨result, first, failed⟩
        · exact ⟨[], value, later, [], rfl, .nil, refused⟩
        · rcases bind_eq_error_iff.mp failed with rest | ⟨tail, _, impossible⟩
          · obtain ⟨before, bad, behind, results, rfl, sound, refused⟩ := ih rest
            exact ⟨value :: before, bad, behind, result :: results, rfl, .cons first sound,
              refused⟩
          · contradiction
  · obtain ⟨before, bad, later, results, rfl, sound, refused⟩ := failed
    rw [List.mapM_append, mapM_eq_ok_iff.mpr sound, List.mapM_cons, refused]
    rfl

/-- In a chain the first step that fails decides the fault, and all steps before it are passed. -/
theorem foldlM_eq_error_iff {advance : β → α → Except ε β} {start : β} :
    list.foldlM advance start = .error fault ↔
      ∃ before bad later reached, list = before ++ bad :: later ∧
        before.foldlM advance start = .ok reached ∧ advance reached bad = .error fault := by
  constructor
  · intro failed
    induction list generalizing start with
    | nil =>
        rw [List.foldlM_nil] at failed
        contradiction
    | cons value later ih =>
        rw [List.foldlM_cons] at failed
        rcases bind_eq_error_iff.mp failed with refused | ⟨next, first, failed⟩
        · exact ⟨[], value, later, start, rfl, rfl, refused⟩
        · obtain ⟨before, bad, behind, reached, rfl, passed, refused⟩ := ih failed
          have whole : (value :: before).foldlM advance start = .ok reached := by
            rw [List.foldlM_cons, bind_eq_ok_iff]
            exact ⟨next, first, passed⟩
          exact ⟨value :: before, bad, behind, reached, rfl, whole, refused⟩
  · intro failed
    obtain ⟨before, bad, later, reached, rfl, passed, refused⟩ := failed
    rw [List.foldlM_append, passed]
    simp only [bind, Except.bind, List.foldlM_cons, refused]

end Runs

end CompactOid
