import Nanna.Daemon.TaskServices
import Nanna.Harness.Acceptance
import Nanna.Lib.Moves

/-!
# The tasks that a turn may work

`TurnAdmission` keeps the items that were open when the turn began and those of them that the turn has
asked for again, and the task source hands out only what it admits (`next`). A turn is a run of calls on the
store and the admission (`step`): what `tasks.add` and a plan adopt, any call of the repository, and `next`.
The order in which the leftovers are walked is an input. What was adopted and handed out is recorded for the
statements.
-/

namespace Nanna.Daemon

open Nanna.Lib Nanna.Tasks Nanna.Harness

namespace TurnAdmission

/-- Id and title of what was open when the turn began, and the ids adopted since. -/
structure Admission where
  leftovers : List (Int × String)
  adopted : List Int

def atTurnStart (s : Store) (scope : Scope) : Admission where
  leftovers := (list s scope false).map fun task => (task.id, task.title)
  adopted := []

/-- `leftovers.contains_key`. -/
def Admission.isLeftover (admission : Admission) (id : Int) : Bool :=
  admission.leftovers.any (·.1 = id)

def Admission.admits (admission : Admission) (id : Int) : Bool :=
  ! admission.isLeftover id || admission.adopted.contains id

/-- Admit a leftover; nothing happens for another id. -/
def Admission.adoptId (admission : Admission) (id : Int) : Admission :=
  if admission.isLeftover id = true then { admission with adopted := id :: admission.adopted }
  else admission

/-- The leftovers that the titles of a plan propose again, walked in this order, each once; and the titles
that remain. -/
def adoptPlan (reading : Reading) (walk : List (Int × String)) : List Int → List String → List Int × List String
  | ids, [] => (ids, [])
  | ids, title :: plan =>
    match walk.find? fun leftover => leftover.1 ∉ ids && sameTitle reading leftover.2 title with
    | some (id, _) => adoptPlan reading walk (ids ++ [id]) plan
    | none =>
      let (ids, rest) := adoptPlan reading walk ids plan
      (ids, title :: rest)

def Admission.adoptFrom (admission : Admission) (reading : Reading) (walk : List (Int × String))
    (plan : List String) : Admission × List Int × List String :=
  let (ids, rest) := adoptPlan reading walk [] plan
  ({ admission with adopted := ids ++ admission.adopted }, ids, rest)

/-! ## The task source -/

def taskNextSkipMax : Nat := 100

/-- What `next` hands out. -/
structure TaskStep where
  id : Int
  title : String
  description : Option String
  acceptance : Option AcceptanceCheck
  toolScope : List String
deriving DecidableEq

inductive NextReply
  | step (step : TaskStep)
  | nothing
  | gaveUp
deriving DecidableEq

/-- The check that a task carries, as the harness reads it. -/
def readAcceptance (d : Dialect) (task : Task) : Except String (Option AcceptanceCheck) :=
  match task.acceptance with
  | some value => (AcceptanceCheck.fromJson d value).map some
  | none => .ok none

/-- Close an item whose check cannot be read; a refusal is passed over. -/
def cancelMalformed (env : Env) (s : Store) (id : Int) : Store :=
  match update env s id { status := some "cancelled" } with
  | .ok (s', _) => s'
  | .error _ => s

/-- The loop of `next`. -/
def nextFrom (env : Env) (d : Dialect) (scope : Scope) (admits : Int → Bool) : Nat → Store → Store × NextReply
  | 0, s => (s, .gaveUp)
  | fuel + 1, s =>
    match nextAdmitted s scope fun task => admits task.id with
    | none => (s, .nothing)
    | some task =>
      match readAcceptance d task with
      | .ok acceptance =>
        (s, .step ⟨task.id, task.title, task.description, acceptance, task.toolScope⟩)
      | .error _ => nextFrom env d scope admits fuel (cancelMalformed env s task.id)

def next (env : Env) (d : Dialect) (scope : Scope) (admission : Admission) (s : Store) : Store × NextReply :=
  nextFrom env d scope admission.admits taskNextSkipMax s

/-! ## A turn -/

inductive TurnEvent
  | adopted (id : Int)
  | handedOut (id : Int)
deriving DecidableEq

structure Turn where
  store : Store
  admission : Admission
  /-- Newest first. -/
  log : List TurnEvent

def begin_ (s : Store) (scope : Scope) : Turn := ⟨s, atTurnStart s scope, []⟩

inductive TurnCall
  | add (env : ServiceEnv) (params : Json)
  | adoptFrom (reading : Reading) (walk : List (Int × String)) (plan : List String)
  /-- `complete`, `abandon`, `reopen`, and any other call. -/
  | op (env : Env) (op : Op)
  | next (env : Env) (d : Dialect)

/-- What `tasks.add` adopts. -/
def adoptReused (admission : Admission) : AddReply → Admission × List TurnEvent
  | .reused task true => (admission.adoptId task.id, [.adopted task.id])
  | .reused _ false | .created _ _ | .closedThisTurn _ => (admission, [])

/-- The turn's scope is the only one with a live turn. -/
def step (scope : Scope) (t : Turn) : TurnCall → Option Turn
  | .add env params =>
    match taskAddService { env with admits := (· = scope) } t.store params with
    | .ok (store, reply) =>
      let (admission, events) := adoptReused t.admission reply
      some { store, admission, log := events ++ t.log }
    | .error _ => some t
  | .adoptFrom reading walk plan =>
    if walk.Perm t.admission.leftovers then
      let (admission, ids, _) := t.admission.adoptFrom reading walk plan
      some { t with admission, log := ids.map .adopted ++ t.log }
    else none
  | .op env op =>
    match op.run env t.store with
    | .ok store => some { t with store }
    | .error _ => some t
  | .next env d =>
    match next env d scope t.admission t.store with
    | (store, .step step) => some { t with store, log := .handedOut step.id :: t.log }
    | (store, .nothing) | (store, .gaveUp) => some { t with store }

end TurnAdmission

end Nanna.Daemon
