import CompactOid.Table.Edit
import CompactOid.View.Query

namespace CompactOid

structure Publication where
  config : Config
  current : Table

namespace Publication

def ofConfig (config : Config) : Publication :=
  ⟨config, .empty⟩

/-- Starts with the table of a map, which is not reported as published. -/
def ofMap (config : Config) (data : Bytes) : Logged (Except Fault Publication) :=
  (Table.ofMap config data).map fun result => result.map (Publication.mk config)

def publish (publication : Publication) (table : Table) : Logged Publication :=
  ⟨⟨publication.config, table⟩, [.tablePublished table.size]⟩

/-- Publishes the table of a map, if the map has no fault. -/
def reload (publication : Publication) (data : Bytes) :
    Logged (Except Fault Unit × Publication) :=
  (Table.ofMap publication.config data).bind fun
    | .error fault => .silent (.error fault, publication)
    | .ok table => (publication.publish table).map fun after => (.ok (), after)

def view (publication : Publication) : View :=
  ⟨publication.current, publication.config.policy⟩

end Publication

/-- A publication and the views taken of it so far, in order. -/
structure History where
  publication : Publication
  views : Array View

namespace History

inductive Step where
  | reload (data : Bytes)
  | publish (table : Table)
  | takeView

def start (publication : Publication) : History :=
  ⟨publication, #[]⟩

/-- The fault of a step if it has one, and the history after it. -/
def step (history : History) : Step → Logged (Except Fault Unit × History)
  | .reload data =>
      (history.publication.reload data).map fun (answer, publication) =>
        (answer, ⟨publication, history.views⟩)
  | .publish table =>
      (history.publication.publish table).map fun publication =>
        (.ok (), ⟨publication, history.views⟩)
  | .takeView =>
      .silent (.ok (), ⟨history.publication, history.views.push history.publication.view⟩)

def steps (history : History) (taken : List Step) : History :=
  taken.foldl (fun history next => (history.step next).value.2) history

end History

end CompactOid
