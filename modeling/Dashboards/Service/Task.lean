import Dashboards.Service.Body
import Dashboards.Service.Request

/-!
# Tasks

A task is a route together with everything that it needs to know from the request, read and checked.
The faults of the path come before those of the query, and those before the faults of the body.
-/

namespace Dashboards

namespace Service

inductive Task where
  | create (body : CreateBody)
  | current (id : String)
  | history (id : String) (limit : Option Int)
  | version (id : String) (number : Int)
  | simulate (id : String) (body : SimulateBody)
  | commit (id : String) (body : CommitBody)
  | rollback (id : String) (body : RollbackBody)
  | propose (id : String) (body : ProposeBody)
  | insights (body : InsightsBody)
  | health
  | about

namespace Task

open Shape

/-- A parameter of the query as an integer of at least so much. -/
def integerParameter (t : Target) (name : String) (least : Int) : Checked (Option Int) :=
  match t.parameter? name with
  | none => .good none
  | some s => (((integerAtLeast least (.str s)).map some).under name).under "query"

/-- The task that a request sets on a route. -/
def read (route : Route) (t : Target) (content : Request.Content) : Checked Task :=
  match route with
  | .create => create <$> readBody CreateBody.fields content
  | .current id => .good (current id)
  | .history id => history id <$> integerParameter t "limit" 1
  | .version id number =>
    version id <$> ((integer (.str number)).under "version").under "path"
  | .simulate id => simulate id <$> readBody SimulateBody.fields content
  | .commit id => commit id <$> readBody CommitBody.fields content
  | .rollback id => rollback id <$> readBody RollbackBody.fields content
  | .propose id => propose id <$> readBody ProposeBody.fields content
  | .insights => insights <$> readBody InsightsBody.fields content
  | .health => .good health
  | .about => .good about

end Task

end Service

end Dashboards
