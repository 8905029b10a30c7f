import CompactOid.Proofs.Publication.Reloading

namespace CompactOid

/-- A publication starts without entries or with the table of a map. -/
inductive Publication.Opened (config : Config) : Table → Publication → Prop where
  | empty : Opened config .empty (.ofConfig config)
  | ofMap {data : Bytes} {table : Table} {publication : Publication}
      (loaded : (Table.ofMap config data).value = .ok table)
      (opened : (Publication.ofMap config data).value = .ok publication) :
      Opened config table publication

theorem Publication.Opened.eq_mk {config : Config} {initial : Table} {publication : Publication}
    (opened : publication.Opened config initial) : publication = ⟨config, initial⟩ := by
  cases opened with
  | empty => rfl
  | ofMap loaded opened =>
      rw [ofMap_value, loaded] at opened
      exact (Except.ok.inj opened).symm

namespace History

variable {history : History} {next : Step} {config : Config} {view : View} {index : Nat}

/-- What is answered to a step, whatever came before. -/
def Step.outcome (config : Config) : Step → Except Fault Unit
  | .reload data => (Table.ofMap config data).value.map fun _ => ()
  | .publish _ | .takeView => .ok ()

/-- The table that a step puts in the place of the current one. -/
def Step.published? (config : Config) : Step → Option Table
  | .reload data => (Table.ofMap config data).value.toOption
  | .publish table => some table
  | .takeView => none

theorem step_reload_value (history : History) (data : Bytes) :
    (history.step (.reload data)).value =
      match (Table.ofMap history.publication.config data).value with
      | .ok table => (.ok (), ⟨⟨history.publication.config, table⟩, history.views⟩)
      | .error fault => (.error fault, history) := by
  simp only [step, Logged.map, Publication.reload_value]
  cases (Table.ofMap history.publication.config data).value <;> rfl

theorem step_outcome (history : History) (next : Step) :
    (history.step next).value.1 = next.outcome history.publication.config := by
  cases next with
  | reload data =>
      rw [step_reload_value, Step.outcome]
      cases (Table.ofMap history.publication.config data).value <;> rfl
  | publish table => rfl
  | takeView => rfl

theorem step_publication (history : History) (next : Step) :
    (history.step next).value.2.publication =
      ⟨history.publication.config,
        (next.published? history.publication.config).getD history.publication.current⟩ := by
  cases next with
  | reload data =>
      rw [step_reload_value, Step.published?]
      cases (Table.ofMap history.publication.config data).value <;> rfl
  | publish table => rfl
  | takeView => rfl

theorem step_of_failed {fault : Fault}
    (failed : next.outcome history.publication.config = .error fault) :
    (history.step next).value.2 = history := by
  cases next with
  | reload data =>
      rw [step_reload_value]
      cases loaded : (Table.ofMap history.publication.config data).value with
      | error fault => rfl
      | ok table => simp [Step.outcome, loaded, Except.map] at failed
  | publish table => simp [Step.outcome] at failed
  | takeView => simp [Step.outcome] at failed

/-- Views are put behind those taken before. -/
theorem step_views (taken : history.views[index]? = some view) :
    (history.step next).value.2.views[index]? = some view := by
  cases next with
  | reload data =>
      rw [step_reload_value]
      cases (Table.ofMap history.publication.config data).value <;> exact taken
  | publish table => exact taken
  | takeView =>
      obtain ⟨bound, same⟩ := Array.getElem?_eq_some_iff.mp taken
      exact (Array.getElem?_push_lt bound).trans (congrArg some same)

theorem steps_cons (history : History) (next : Step) (later : List Step) :
    history.steps (next :: later) = (history.step next).value.2.steps later := rfl

theorem steps_append (history : History) (earlier later : List Step) :
    history.steps (earlier ++ later) = (history.steps earlier).steps later :=
  List.foldl_append

theorem steps_views (taken : history.views[index]? = some view) (later : List Step) :
    (history.steps later).views[index]? = some view := by
  induction later generalizing history with
  | nil => exact taken
  | cons next later ih => exact ih (step_views taken)

/-- The table published last is current, or the one from before if none was. -/
theorem steps_publication (history : History) (taken : List Step) :
    (history.steps taken).publication =
      ⟨history.publication.config,
        (taken.filterMap (Step.published? history.publication.config)).getLast?.getD
          history.publication.current⟩ := by
  induction taken generalizing history with
  | nil => rfl
  | cons next later ih =>
      rw [steps_cons, ih, step_publication]
      cases published : next.published? history.publication.config with
      | none => simp [published]
      | some table => simp [published, List.getLast?_cons]

theorem steps_filter (history : History) (taken : List Step) :
    history.steps (taken.filter fun next => (next.outcome history.publication.config).isOk) =
      history.steps taken := by
  induction taken generalizing history with
  | nil => rfl
  | cons next later ih =>
      have rest := ih (history.step next).value.2
      rw [step_publication] at rest
      cases outcome : next.outcome history.publication.config with
      | ok _ =>
          rw [List.filter_cons_of_pos (by rw [outcome]; rfl), steps_cons, steps_cons]
          exact rest
      | error fault =>
          rw [step_of_failed outcome] at rest
          rw [List.filter_cons_of_neg (by rw [outcome]; exact Bool.false_ne_true), steps_cons,
            step_of_failed outcome]
          exact rest

/-- A view that is taken answers for the table that was current then, after whatever steps. -/
theorem steps_takeView (history : History) (later : List Step) :
    (history.steps (.takeView :: later)).views[history.views.size]? =
      some history.publication.view := by
  rw [steps_cons]
  exact steps_views Array.getElem?_push_size later

/-- At every point of a history the current table is the one published last, the faults so far make
no difference to what follows, and views keep to the table that was current when they were taken.
What is answered to a step is settled by the config and the step. -/
theorem histories_follow_the_last_publication (config : Config) (initial : Table)
    (publication : Publication) (opened : publication.Opened config initial) (taken : List Step) :
    let history := (start publication).steps taken
    history.publication.config = config ∧
    history.publication.current =
      (taken.filterMap (Step.published? config)).getLast?.getD initial ∧
    (∀ later, (start publication).steps
        ((taken.filter fun next => (next.outcome config).isOk) ++ later) =
      (start publication).steps (taken ++ later)) ∧
    (∀ later, ((start publication).steps (taken ++ .takeView :: later)).views[history.views.size]? =
      some ⟨history.publication.current, config.policy⟩) ∧
    ∀ next, (history.step next).value.1 = next.outcome config := by
  intro history
  cases opened.eq_mk
  have reached : history.publication = ⟨config, _⟩ := steps_publication _ taken
  refine ⟨by rw [reached], by rw [reached]; rfl, fun later => ?_, fun later => ?_, fun next => ?_⟩
  · have same := steps_filter (start ⟨config, initial⟩) taken
    rw [steps_append, steps_append]
    exact congrArg (fun history => steps history later) same
  · rw [steps_append, steps_takeView, Publication.view]
    simp only [reached, history]
  · rw [step_outcome, reached]

/-- The map is loaded at first, reloading a part of it fails, and then another table is published. -/
theorem view_outlives_failed_reload_and_publication :
    let config : Config := ⟨.reservedWins, true⟩
    let map : Bytes := [1, 0, 0, 0, 14, 0, 0, 0, 0, 0x70, 2, 0, 42, 3]
    let taken : List Step := [.reload (map.take 13)]
    ∃ initial publication, Publication.Opened config initial publication ∧
      let history := (start publication).steps taken
      history.publication.current = initial ∧
      ((start publication).steps (taken ++ [.takeView, .publish .empty])).views[history.views.size]? =
        some ⟨initial, .reservedWins⟩ ∧
      (View.mk initial .reservedWins).decode ⟨0x70000005⟩ = .ok "1.2.3.5" := by
  intro config map taken
  have evaluated : (Table.ofMap config map).value.map
      (fun table => (View.mk table .reservedWins).decode ⟨0x70000005⟩) = .ok (.ok "1.2.3.5") := by
    decide +kernel
  obtain ⟨initial, loaded, decoded⟩ := map_eq_ok_iff.mp evaluated
  have opened : Publication.Opened config initial ⟨config, initial⟩ :=
    .ofMap loaded (by rw [Publication.ofMap_value, loaded]; rfl)
  have failed : (Table.ofMap config (map.take 13)).value.toOption.isNone = true := by decide +kernel
  have unpublished : taken.filterMap (Step.published? config) = [] := by
    simpa [taken, Step.published?] using failed
  obtain ⟨_, current, _, kept, _⟩ :=
    histories_follow_the_last_publication config initial _ opened taken
  have view := kept [.publish .empty]
  rw [unpublished] at current
  rw [current] at view
  exact ⟨initial, _, opened, current, view, decoded⟩

end History

end CompactOid
